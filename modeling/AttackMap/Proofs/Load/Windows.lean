import AttackMap.Load
import Mathlib.Algebra.Ring.Nat
import Mathlib.Data.List.Chain

/-!
# Windows of measurement

The counters know one window, the open one, and of the others only the last.
Here all the windows of a run are read off what was told to the counters
(`History`): a window lasts until a sample finds that some time has passed
in it, and the next begins where it ended. The first begins with the first
frame, whatever was told before. A clock that steps back closes nothing, and
the window goes on as if the sample had not been.

So the windows cut the run into stretches (`Sound.cut`), each frame falls
into one of them, and the counters show the last two (`Shows`): the frames
of the open stretch, and the count and the length of the stretch before it.
-/

namespace AttackMap.Load

/-! ## Runs -/

/-- What is told to the counters. -/
inductive Operation where
  | applied
  | frame (now : Millis)
  | sample (now : Millis) (dropped : Tally)
  deriving DecidableEq

/-- The time of a frame. -/
def Operation.frame? : Operation → Option Millis
  | .frame now => some now
  | _ => none

def Operation.isFrame (op : Operation) : Bool := op.frame?.isSome

/-- The counters when they have been told. -/
def perform (l : Load) : Operation → Load
  | .applied => l.onEvent
  | .frame now => l.onFrame now
  | .sample now dropped => (l.sample now dropped).1

/-- The counters after a run. -/
def after (l : Load) (ops : List Operation) : Load := ops.foldl perform l

/-- Whether a sample closes the open window: it has begun, and some time has
passed in it. -/
def closes (l : Load) (now : Millis) : Bool := l.since.any fun since => 0 < now.minus since

/-- The window that the counters close when they are told. -/
def closing? (l : Load) : Operation → Option FrameWindow
  | .sample now dropped => if l.closes now then (l.sample now dropped).1.last else none
  | _ => none

/-- The windows that the counters close in a run. -/
def closings (l : Load) : List Operation → List FrameWindow
  | [] => []
  | op :: rest => (l.closing? op).toList ++ (l.perform op).closings rest

theorem after_snoc (l : Load) (ops : List Operation) (op : Operation) :
    l.after (ops ++ [op]) = (l.after ops).perform op :=
  List.foldl_concat ..

theorem closings_snoc (l : Load) (ops : List Operation) (op : Operation) :
    l.closings (ops ++ [op]) = l.closings ops ++ ((l.after ops).closing? op).toList := by
  induction ops generalizing l with
  | nil => exact List.append_nil _
  | cons o rest ih =>
    rw [List.cons_append, closings, closings, ih, List.append_assoc]
    rfl

/-! ## The windows of a run -/

/-- A window with what was told since the one before it was closed, up to the
sample that closed it. -/
structure Stretch where
  opened : Millis
  closed : Millis
  told : List Operation

namespace Stretch

/-- How many frames were drawn in it. -/
def frames (s : Stretch) : Nat := s.told.countP (·.isFrame)

/-- How long it lasted. -/
def length (s : Stretch) : Millis := s.closed.minus s.opened

end Stretch

/-- A run cut into the stretches of its closed windows and what was told since. -/
structure History where
  stretches : List Stretch
  current : List Operation

namespace History

/-- When the open window began: where the last one ended, or else with the
first frame. -/
def opened? (h : History) : Option Millis :=
  (h.stretches.getLast?.map (·.closed)).or (h.current.findSome? (·.frame?))

/-- The stretch that ends with an operation. -/
def ending? (h : History) : Operation → Option Stretch
  | .sample now dropped => h.opened?.bind fun opened =>
    if 0 < now.minus opened then some ⟨opened, now, h.current ++ [.sample now dropped]⟩ else none
  | _ => none

/-- The history with an operation more. -/
def add (h : History) (op : Operation) : History :=
  match h.ending? op with
  | some s => ⟨h.stretches ++ [s], []⟩
  | none => ⟨h.stretches, h.current ++ [op]⟩

/-- The history of a run. -/
def of (ops : List Operation) : History := ops.foldl add ⟨[], []⟩

theorem of_snoc (ops : List Operation) (op : Operation) : of (ops ++ [op]) = (of ops).add op :=
  List.foldl_concat ..

/-- What a stretch is that has ended. -/
theorem eq_some_of_ending? {h : History} {op : Operation} {s : Stretch}
    (ends : h.ending? op = some s) :
    ∃ dropped, op = .sample s.closed dropped ∧ h.opened? = some s.opened ∧ 0 < s.length ∧
      s.told = h.current ++ [op] := by
  cases op with
  | applied => cases ends
  | frame now => cases ends
  | sample now dropped =>
    obtain ⟨opened, since, ends⟩ := Option.bind_eq_some_iff.mp ends
    rw [Option.ite_none_right_eq_some] at ends
    obtain ⟨lasted, same⟩ := ends
    cases Option.some.inj same
    exact ⟨dropped, rfl, since, lasted, rfl⟩

/-- How the windows of a run lie in it. -/
structure Sound (ops : List Operation) (h : History) : Prop where
  /-- The stretches and what was told since are the run. -/
  cut : h.stretches.flatMap (·.told) ++ h.current = ops
  /-- The first window begins with the first frame. -/
  first : ∀ s ∈ h.stretches.head?, ops.findSome? (·.frame?) = some s.opened
  /-- Every other window begins where the one before it ended. -/
  next : h.stretches.IsChain fun s t => t.opened = s.closed
  lasting : ∀ s ∈ h.stretches, 0 < s.length

namespace Sound

variable {ops : List Operation} {h : History}

/-- Until a window is closed all that was told is current. -/
theorem current_eq (sound : Sound ops h) (none : h.stretches = []) : h.current = ops := by
  have cut := sound.cut
  rwa [none] at cut

theorem ending (sound : Sound ops h) {op : Operation} {s : Stretch} (ends : h.ending? op = some s) :
    Sound (ops ++ [op]) ⟨h.stretches ++ [s], []⟩ := by
  obtain ⟨dropped, rfl, since, lasted, told⟩ := eq_some_of_ending? ends
  constructor
  case cut =>
    rw [List.flatMap_append, List.flatMap_singleton, told, List.append_nil, ← List.append_assoc,
      sound.cut]
  case first =>
    intro t mem
    rw [List.findSome?_append]
    cases begun : h.stretches with
    | nil =>
      rw [begun, List.nil_append, List.head?_cons, Option.mem_some_iff] at mem
      rw [opened?, begun, sound.current_eq begun] at since
      change ops.findSome? _ = _ at since
      rw [since, mem]
      rfl
    | cons s' rest =>
      rw [begun, List.cons_append, List.head?_cons, Option.mem_some_iff] at mem
      rw [sound.first s' (begun ▸ rfl), mem]
      rfl
  case next =>
    refine sound.next.append (.singleton s) fun before last t mem => ?_
    rw [List.head?_cons, Option.mem_some_iff] at mem
    rw [opened?, Option.mem_def.mp last] at since
    rw [← mem]
    exact (Option.some.inj since).symm
  case lasting =>
    intro t mem
    rcases List.mem_append.mp mem with before | this
    · exact sound.lasting t before
    · rw [List.mem_singleton.mp this]
      exact lasted

theorem going (sound : Sound ops h) (op : Operation) :
    Sound (ops ++ [op]) ⟨h.stretches, h.current ++ [op]⟩ where
  cut := by rw [← List.append_assoc, sound.cut]
  first s mem := by rw [List.findSome?_append, sound.first s mem]; rfl
  next := sound.next
  lasting := sound.lasting

theorem add (sound : Sound ops h) (op : Operation) : Sound (ops ++ [op]) (h.add op) := by
  unfold History.add
  split
  · next s ends => exact sound.ending ends
  · exact sound.going op

end Sound

theorem sound_of (ops : List Operation) : Sound ops (of ops) := by
  induction ops using List.reverseRecOn with
  | nil => exact ⟨rfl, fun _ mem => (nomatch mem), .nil, fun _ mem => (nomatch mem)⟩
  | append_singleton ops op ih => exact of_snoc ops op ▸ ih.add op

end History

/-! ## The counters show the last two windows -/

/-- A sample that closes no window leaves the counters as they are. -/
theorem sample_of_not_closes {l : Load} {now : Millis} (open_ : l.closes now = false)
    (dropped : Tally) : (l.sample now dropped).1 = l := by
  rw [closes] at open_
  rw [sample, close]
  cases begun : l.since with
  | none => rfl
  | some since =>
    rw [begun, Option.any_some, decide_eq_false_iff_not] at open_
    exact if_neg open_

/-- A sample that closes a window begins another. -/
theorem sample_of_closes {l : Load} {now since : Millis} (begun : l.since = some since)
    (lasted : 0 < now.minus since) (dropped : Tally) :
    (l.sample now dropped).1 =
      { l with since := some now, frames := 0, last := some ⟨l.frames, now.minus since⟩ } := by
  rw [sample, close, begun]
  exact if_pos lasted

/-- What the counters keep of a stretch. -/
def Stretch.measured (s : Stretch) : FrameWindow := ⟨.nearest s.frames, s.length⟩

/-- The counters show the open window and the last closed one. -/
structure Shows (h : History) (l : Load) : Prop where
  since : l.since = h.opened?
  frames : l.frames = .nearest (h.current.countP (·.isFrame))
  last : l.last = h.stretches.getLast?.map (·.measured)

theorem next_nearest (n : Nat) : (Tally.nearest n).next = .nearest (n + 1) := by
  rw [← UInt64.toNat_inj, Tally.toNat_next, Tally.toNat_nearest, Tally.toNat_nearest]
  omega

namespace Shows

variable {h : History} {l : Load}

/-- A sample that ends a stretch closes the window of the counters, and no other does. -/
theorem closes_eq (shows : Shows h l) (now : Millis) (dropped : Tally) :
    l.closes now = (h.ending? (.sample now dropped)).isSome := by
  rw [closes, shows.since, History.ending?]
  cases h.opened? with
  | none => rfl
  | some opened =>
    rw [Option.any_some, Option.bind_some]
    split <;> simp_all

theorem start : Shows ⟨[], []⟩ .start := ⟨rfl, rfl, rfl⟩

/-- When a stretch ends the counters keep its measure and begin a window. -/
theorem ending (shows : Shows h l) {op : Operation} {s : Stretch} (ends : h.ending? op = some s) :
    Shows ⟨h.stretches ++ [s], []⟩ (l.perform op) := by
  obtain ⟨dropped, rfl, since, lasted, told⟩ := History.eq_some_of_ending? ends
  have measured : s.measured = ⟨l.frames, s.closed.minus s.opened⟩ := by
    rw [Stretch.measured, Stretch.frames, told, List.countP_append, shows.frames]
    rfl
  rw [perform, sample_of_closes (shows.since.trans since) lasted]
  constructor
  case since => rw [History.opened?, List.getLast?_concat]; rfl
  case frames => rfl
  case last => rw [List.getLast?_concat, Option.map_some, measured]

/-- Until then they go on with the open window. -/
theorem going (shows : Shows h l) {op : Operation} (goes : h.ending? op = none) :
    Shows ⟨h.stretches, h.current ++ [op]⟩ (l.perform op) := by
  have opened : History.opened? ⟨h.stretches, h.current ++ [op]⟩ = l.since.or op.frame? := by
    have alone : [op].findSome? (·.frame?) = op.frame? := by cases op <;> rfl
    rw [shows.since, History.opened?, List.findSome?_append, ← Option.or_assoc, alone,
      History.opened?]
  cases op with
  | applied =>
    refine ⟨?_, ?_, shows.last⟩
    · rw [opened]
      exact (Option.or_none ..).symm
    · rw [List.countP_append]
      exact shows.frames
  | frame now =>
    refine ⟨?_, ?_, shows.last⟩
    · rw [opened, perform, onFrame]
      cases l.since <;> rfl
    · rw [List.countP_append, perform, onFrame, shows.frames, next_nearest]
      rfl
  | sample now dropped =>
    have unclosed : l.closes now = false := by rw [shows.closes_eq now dropped, goes]; rfl
    rw [perform, sample_of_not_closes unclosed]
    refine ⟨?_, ?_, shows.last⟩
    · rw [opened]
      exact (Option.or_none ..).symm
    · rw [List.countP_append]
      exact shows.frames

theorem add (shows : Shows h l) (op : Operation) : Shows (h.add op) (l.perform op) := by
  unfold History.add
  split
  · next s ends => exact shows.ending ends
  · next goes => exact shows.going goes

/-- What the counters close is what ends in the history. -/
theorem closing?_eq (shows : Shows h l) (op : Operation) :
    l.closing? op = (h.ending? op).map (·.measured) := by
  cases op with
  | applied => rfl
  | frame now => rfl
  | sample now dropped =>
    rw [closing?, shows.closes_eq now dropped]
    cases ends : h.ending? (.sample now dropped) with
    | none => rfl
    | some s =>
      have last := (shows.ending ends).last
      rw [List.getLast?_concat] at last
      exact last

end Shows

theorem shows_of (ops : List Operation) : Shows (.of ops) (start.after ops) := by
  induction ops using List.reverseRecOn with
  | nil => exact .start
  | append_singleton ops op ih =>
    rw [History.of_snoc, after_snoc]
    exact ih.add op

/-- The windows that the counters close in a run are its stretches. -/
theorem closings_eq (ops : List Operation) :
    start.closings ops = (History.of ops).stretches.map (·.measured) := by
  induction ops using List.reverseRecOn with
  | nil => rfl
  | append_singleton ops op ih =>
    rw [closings_snoc, ih, (shows_of ops).closing?_eq, History.of_snoc, History.add]
    cases (History.of ops).ending? op with
    | none => exact List.append_nil _
    | some s =>
      dsimp only
      rw [List.map_append]
      rfl

/-! ## The measurement of a run -/

/-- How the frames of a run are measured. -/
structure Measured (ops : List Operation) (l : Load) (closed : List FrameWindow)
    (h : History) : Prop where
  /-- The windows closed are the stretches of the run, with the frames drawn
  in each and its length. -/
  windows : closed.map (fun w => (w.frames.toNat, w.length)) =
    h.stretches.map fun s => (s.told.countP (·.isFrame), s.closed.minus s.opened)
  /-- They and what was told since are the whole run. -/
  cut : h.stretches.flatMap (·.told) ++ h.current = ops
  /-- Every frame is counted once, in a closed window or in the open one. -/
  frames : (closed.map (·.frames.toNat)).sum + l.frames.toNat = ops.countP (·.isFrame)
  /-- The first window begins with the first frame. -/
  first : ∀ s ∈ h.stretches.head?, ops.findSome? (·.frame?) = some s.opened
  /-- Every other begins where the one before it was closed. -/
  next : h.stretches.IsChain fun s t => t.opened = s.closed
  /-- So does the open window. -/
  since : l.since = (h.stretches.getLast?.map (·.closed)).or (ops.findSome? (·.frame?))
  lasting : ∀ w ∈ closed, 0 < w.length
  /-- A sample that closes no window changes neither the window nor the rate. -/
  unclosed : ∀ now dropped, l.closes now = false → (l.sample now dropped).1 = l
  /-- A sample reports the rate of the last window closed, be it by this sample. -/
  rate : ∀ now dropped, (l.sample now dropped).2.fps =
    (closed ++ (l.closing? (.sample now dropped)).toList).getLast?.elim 60.0
      fun w => w.frames.toFloat * 1000.0 / w.length.toFloat

section

variable {ops : List Operation}

/-- The frames of the run are those of its stretches and those told since. -/
theorem sum_frames (ops : List Operation) :
    ((History.of ops).stretches.map (·.frames)).sum +
      (History.of ops).current.countP (·.isFrame) = ops.countP (·.isFrame) := by
  have cut := congrArg (List.countP (·.isFrame)) (History.sound_of ops).cut
  rwa [List.countP_append, List.countP_flatMap] at cut

/-- With fewer frames than a tally can count, no stretch has too many. -/
theorem toNat_measured (few : ops.countP (·.isFrame) < Tally.greatest) {s : Stretch}
    (mem : s ∈ (History.of ops).stretches) : s.measured.frames.toNat = s.frames := by
  have part : s.told.Sublist ((History.of ops).stretches.flatMap (·.told)) :=
    List.flatMap_def .. ▸ List.sublist_flatten_of_mem (List.mem_map_of_mem mem)
  have whole := part.trans (List.sublist_append_left _ (History.of ops).current)
  rw [(History.sound_of ops).cut] at whole
  rw [Stretch.measured, Tally.toNat_nearest]
  exact Nat.min_eq_left (whole.countP_le.trans few.le)

theorem toNat_frames (few : ops.countP (·.isFrame) < Tally.greatest) :
    (start.after ops).frames.toNat = (History.of ops).current.countP (·.isFrame) := by
  have total := sum_frames ops
  rw [(shows_of ops).frames, Tally.toNat_nearest]
  omega

/-- A sample reports the rate of the last window that has been closed. -/
theorem fps_sample (ops : List Operation) (now : Millis) (dropped : Tally) :
    ((start.after ops).sample now dropped).2.fps =
      (start.closings (ops ++ [.sample now dropped])).getLast?.elim nominalRate
        FrameWindow.rate := by
  have last := (shows_of (ops ++ [.sample now dropped])).last
  rw [after_snoc] at last
  rw [closings_eq, List.getLast?_map, ← last]
  rfl

/-- **Every frame is measured once**, in the window in which it was drawn,
and every rate reported is that of the last window closed. -/
theorem measured_after (ops : List Operation) (few : ops.countP (·.isFrame) < Tally.greatest) :
    Measured ops (start.after ops) (start.closings ops) (.of ops) := by
  have sound := History.sound_of ops
  constructor
  case windows =>
    rw [closings_eq, List.map_map]
    refine List.map_congr_left fun s mem => ?_
    exact congrArg (·, s.length) (toNat_measured few mem)
  case cut => exact sound.cut
  case frames =>
    rw [closings_eq, List.map_map, toNat_frames few, ← sum_frames ops]
    congr 2
    exact List.map_congr_left fun s mem => toNat_measured few mem
  case first => exact sound.first
  case next => exact sound.next
  case since =>
    rw [(shows_of ops).since, History.opened?]
    cases none : (History.of ops).stretches with
    | nil => rw [sound.current_eq none]
    | cons s rest =>
      rw [List.getLast?_cons, Option.map_some, Option.some_or, Option.some_or]
  case lasting =>
    rw [closings_eq]
    intro w mem
    obtain ⟨s, drawn, rfl⟩ := List.mem_map.mp mem
    exact sound.lasting s drawn
  case unclosed => exact fun now dropped unclosed => sample_of_not_closes unclosed dropped
  case rate =>
    intro now dropped
    rw [fps_sample, closings_snoc]
    rfl

end

/-- Frames around a clock that steps back: the sample at 400 closes nothing, and
the frame at 300 falls into the window of the first. -/
def stumbling : List Operation :=
  [.applied, .frame 1000, .sample 400 0, .frame 300, .sample 1500 0, .frame 1600, .sample 1500 0]

theorem measured_after_stumbling :
    stumbling.countP (·.isFrame) < Tally.greatest ∧
      start.closings stumbling = [⟨2, 500⟩] ∧
      Measured stumbling (start.after stumbling) (start.closings stumbling) (.of stumbling) :=
  ⟨by decide, by decide, measured_after stumbling (by decide)⟩

end AttackMap.Load
