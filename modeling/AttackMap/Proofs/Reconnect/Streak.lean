import AttackMap.Reconnect
import Mathlib.Data.List.DropRight
import Mathlib.Data.List.Induction

/-!
# Failures in a row

The machine holds one number and, while it waits, one delay. Both are read
here off the record of what the machine was told and in which state it was
told it (`passages`): the failures that counted since a connection last
opened (`streak`), and the delays that answered them (`delays`).

What counts is what a state waits for. A failure counts while an attempt is
under way or a connection is open; an opening counts while an attempt is
under way; anything else changes neither number (`step_cases`).

The arithmetic of the machine stops at the ends of its words. That never
shows in a delay: the counter stops so far above the cap that one failure
more or less makes no difference there (`nanos_delay`,
`waitNanos_ceiling`).
-/

namespace AttackMap.Reconnect

/-- The machine after inputs. -/
def after (m : Reconnect) (inputs : List Input) : Reconnect := inputs.foldl step m

theorem after_snoc (m : Reconnect) (inputs : List Input) (i : Input) :
    m.after (inputs ++ [i]) = (m.after inputs).step i :=
  List.foldl_concat ..

/-! ## The record -/

/-- An input, with the states before it and after it. -/
structure Passage where
  found : State
  input : Input
  reached : State

namespace Passage

/-- An attempt succeeds. -/
def opens (p : Passage) : Bool :=
  match p.found, p.input with
  | .connecting, .opened => true
  | _, _ => false

/-- An attempt fails, or an open connection is lost. -/
def fails (p : Passage) : Bool :=
  match p.found, p.input with
  | .connecting, .failed | .opened, .failed => true
  | _, _ => false

/-- The delay that answers a failure. -/
def delay? (p : Passage) : Option Span :=
  match p.reached with
  | .waiting delay => if p.fails then some delay else none
  | _ => none

end Passage

/-- What passes when the machine is given an input. -/
def passage (m : Reconnect) (i : Input) : Passage := ⟨m.state, i, (m.step i).state⟩

/-- What passes when it is given inputs. -/
def passages (m : Reconnect) : List Input → List Passage
  | [] => []
  | i :: rest => m.passage i :: (m.step i).passages rest

theorem passages_snoc (m : Reconnect) (inputs : List Input) (i : Input) :
    m.passages (inputs ++ [i]) = m.passages inputs ++ [(m.after inputs).passage i] := by
  induction inputs generalizing m with
  | nil => rfl
  | cons j rest ih => rw [List.cons_append, passages, ih, passages]; rfl

/-- What passed since a connection last opened, or since the start. -/
def sinceOpening (record : List Passage) : List Passage := record.rtakeWhile (!·.opens)

/-- The failures since a connection last opened. -/
def streak (record : List Passage) : Nat := (sinceOpening record).countP (·.fails)

/-- The delays that answered them. -/
def delays (record : List Passage) : List Span := (sinceOpening record).filterMap (·.delay?)

theorem sinceOpening_snoc_of_opens {record : List Passage} {p : Passage} (h : p.opens = true) :
    sinceOpening (record ++ [p]) = [] :=
  List.rtakeWhile_concat_neg _ _ _ (by simp only [h, Bool.not_true, Bool.false_eq_true,
    not_false_eq_true])

theorem sinceOpening_snoc {record : List Passage} {p : Passage} (h : p.opens = false) :
    sinceOpening (record ++ [p]) = sinceOpening record ++ [p] :=
  List.rtakeWhile_concat_pos _ _ _ (by rw [h]; rfl)

/-! ## Delays without words -/

/-- The nanoseconds to wait after so many failures before this one. -/
def waitNanos (failures : Nat) : Nat := 1000000 * min 12000 (500 + 800 * failures)

/-- A delay is what it would be without words. -/
theorem nanos_delay (failures : UInt32) : (delay failures).nanos = waitNanos failures.toNat := by
  have bound : failures.toNat < 4294967296 := failures.toNat_lt
  have longest : Span.longest = 18446744073709551615999999999 := rfl
  have grown : (increment.times failures.toNat).nanos = 800000000 * failures.toNat :=
    Span.nanos_nearest (by
      change 800000000 * failures.toNat ≤ Span.longest
      omega)
  have sum : (base.plus (increment.times failures.toNat)).nanos =
      500000000 + 800000000 * failures.toNat := by
    rw [Span.plus, grown]
    exact Span.nanos_nearest (by
      change 500000000 + 800000000 * failures.toNat ≤ Span.longest
      omega)
  have top : cap.nanos = 12000000000 := rfl
  rw [delay, Span.atMost, apply_ite Span.nanos, sum, top, waitNanos]
  split <;> omega

/-- Failures beyond the ceiling of the counter do not lengthen a delay. -/
theorem waitNanos_ceiling (n : Nat) :
    waitNanos (min n (UInt32.size - 1)) = waitNanos n := by
  simp only [waitNanos, UInt32.size]
  omega

theorem waitNanos_mono {m n : Nat} (h : m ≤ n) : waitNanos m ≤ waitNanos n := by
  simp only [waitNanos]
  omega

theorem toNat_countFailure (n : UInt32) :
    (countFailure n).toNat = min (n.toNat + 1) (UInt32.size - 1) := by
  rw [countFailure, UInt32.toNat_ofNat_of_lt']
  simp only [UInt32.size]
  omega

/-! ## One input -/

/-- What an input can do. -/
inductive Steps (m : Reconnect) (i : Input) : Prop
  /-- An attempt succeeds, and the failures are forgotten. -/
  | opens (opens : (m.passage i).opens = true) (result : m.step i = ⟨.opened, 0⟩)
  /-- A failure counts, and the machine waits. -/
  | fails (silent : (m.passage i).opens = false) (fails : (m.passage i).fails = true)
    (result : m.step i = ⟨.waiting (delay m.failures), countFailure m.failures⟩)
  /-- Nothing is counted, and no wait begins. -/
  | passes (silent : (m.passage i).opens = false) (harmless : (m.passage i).fails = false)
    (failures : (m.step i).failures = m.failures)
    (state : (m.step i).state = m.state ∨ (m.step i).state = .connecting ∨
      (m.step i).state = .closed)

theorem step_cases (m : Reconnect) (i : Input) : Steps m i := by
  obtain ⟨state, failures⟩ := m
  cases state with
  | idle => cases i with
    | start => exact .passes rfl rfl rfl (.inr (.inl rfl))
    | close => exact .passes rfl rfl rfl (.inr (.inr rfl))
    | _ => exact .passes rfl rfl rfl (.inl rfl)
  | connecting => cases i with
    | opened => exact .opens rfl rfl
    | failed => exact .fails rfl rfl rfl
    | close => exact .passes rfl rfl rfl (.inr (.inr rfl))
    | _ => exact .passes rfl rfl rfl (.inl rfl)
  | opened => cases i with
    | failed => exact .fails rfl rfl rfl
    | close => exact .passes rfl rfl rfl (.inr (.inr rfl))
    | _ => exact .passes rfl rfl rfl (.inl rfl)
  | waiting delay => cases i with
    | elapsed => exact .passes rfl rfl rfl (.inr (.inl rfl))
    | close => exact .passes rfl rfl rfl (.inr (.inr rfl))
    | _ => exact .passes rfl rfl rfl (.inl rfl)
  | closed => exact .passes rfl rfl rfl (.inl rfl)

/-! ## What the machine knows of its record -/

/-- The machine agrees with its record. -/
structure Tallied (record : List Passage) (m : Reconnect) : Prop where
  failures : m.failures.toNat = min (streak record) (UInt32.size - 1)
  /-- Before the first attempt and on an open connection nothing has failed. -/
  calm : m.state = .idle ∨ m.state = .opened → streak record = 0
  /-- While the machine waits it is for the latest failure. -/
  waits : ∀ d, m.state = .waiting d → (delays record).getLast? = some d
  /-- Each failure was answered with the delay of those before it. -/
  answers : (delays record).map Span.nanos = (List.range (streak record)).map waitNanos

namespace Tallied

variable {record : List Passage} {m : Reconnect}

/-- Nothing has passed yet. -/
theorem start : Tallied [] start := ⟨rfl, fun _ => rfl, nofun, rfl⟩

/-- An attempt succeeds: a new record begins. -/
theorem opens {p : Passage} (opens : p.opens = true) : Tallied (record ++ [p]) ⟨.opened, 0⟩ := by
  have fresh : sinceOpening (record ++ [p]) = [] := sinceOpening_snoc_of_opens opens
  have nothing : streak (record ++ [p]) = 0 := by rw [streak, fresh]; rfl
  refine ⟨?_, fun _ => nothing, nofun, ?_⟩
  · rw [nothing]
    rfl
  · rw [nothing, delays, fresh]
    rfl

/-- A failure counts: the streak and the delays grow by one. -/
theorem fails (h : Tallied record m) {p : Passage} (silent : p.opens = false)
    (fails : p.fails = true) (reached : p.reached = .waiting (delay m.failures)) :
    Tallied (record ++ [p]) ⟨.waiting (delay m.failures), countFailure m.failures⟩ := by
  have longer : streak (record ++ [p]) = streak record + 1 := by
    rw [streak, sinceOpening_snoc silent, List.countP_append, ← streak,
      List.countP_singleton, if_pos fails]
  have answered : p.delay? = some (delay m.failures) := by
    rw [Passage.delay?, reached]
    exact if_pos fails
  have more : delays (record ++ [p]) = delays record ++ [delay m.failures] := by
    rw [delays, sinceOpening_snoc silent, List.filterMap_append, ← delays,
      List.filterMap_cons_some answered, List.filterMap_nil]
  have exact : (delay m.failures).nanos = waitNanos (streak record) := by
    rw [nanos_delay, h.failures, waitNanos_ceiling]
  refine ⟨?_, fun calm => ?_, fun d waits => ?_, ?_⟩
  · rw [longer]
    change (countFailure m.failures).toNat = _
    rw [toNat_countFailure, h.failures]
    omega
  · rcases calm with idle | opened
    · cases idle
    · cases opened
  · cases waits
    rw [more, List.getLast?_concat]
  · rw [more, longer, List.map_append, h.answers, List.range_succ, List.map_append,
      List.map_singleton, List.map_singleton, exact]

/-- Nothing counts: streak and delays are those of before. -/
theorem passes (h : Tallied record m) {p : Passage} {m' : Reconnect} (silent : p.opens = false)
    (harmless : p.fails = false) (failures : m'.failures = m.failures)
    (state : m'.state = m.state ∨ m'.state = .connecting ∨ m'.state = .closed) :
    Tallied (record ++ [p]) m' := by
  have same : streak (record ++ [p]) = streak record := by
    rw [streak, sinceOpening_snoc silent, List.countP_append, ← streak,
      List.countP_singleton, if_neg (by rw [harmless]; exact Bool.false_ne_true)]
    rfl
  have unanswered : p.delay? = none := by
    rw [Passage.delay?, harmless]
    split <;> rfl
  have kept : delays (record ++ [p]) = delays record := by
    rw [delays, sinceOpening_snoc silent, List.filterMap_append, ← delays,
      List.filterMap_cons_none unanswered, List.filterMap_nil, List.append_nil]
  refine ⟨?_, fun calm => ?_, fun d waits => ?_, ?_⟩
  · rw [failures, same, h.failures]
  · rw [same]
    rcases state with stays | dials | closed
    · exact h.calm (stays ▸ calm)
    · rw [dials] at calm
      rcases calm with calm | calm <;> cases calm
    · rw [closed] at calm
      rcases calm with calm | calm <;> cases calm
  · rw [kept]
    rcases state with stays | dials | closed
    · exact h.waits d (stays ▸ waits)
    · rw [dials] at waits
      cases waits
    · rw [closed] at waits
      cases waits
  · rw [kept, same, h.answers]

/-- One input more. -/
theorem step (h : Tallied record m) (i : Input) :
    Tallied (record ++ [m.passage i]) (m.step i) := by
  cases step_cases m i with
  | opens opens result =>
    rw [result]
    exact .opens opens
  | fails silent fails result =>
    rw [result]
    refine h.fails silent fails ?_
    rw [passage, result]
  | passes silent harmless failures state => exact h.passes silent harmless failures state

end Tallied

/-- After any inputs the machine agrees with its record. -/
theorem tallied_after (inputs : List Input) :
    Tallied (start.passages inputs) (start.after inputs) := by
  induction inputs using List.reverseRecOn with
  | nil => exact .start
  | append_singleton inputs i ih =>
    rw [passages_snoc, after_snoc]
    exact ih.step i

/-! ## Closed for good -/

theorem state_step_close (m : Reconnect) : (m.step .close).state = .closed := by
  obtain ⟨state, failures⟩ := m
  cases state <;> rfl

theorem step_of_closed {m : Reconnect} (h : m.state = .closed) (i : Input) : m.step i = m := by
  obtain ⟨state, failures⟩ := m
  cases h
  rfl

/-- Closed once, the machine is closed after every later input. -/
theorem state_after_of_close {inputs : List Input} (closes : Input.close ∈ inputs) (m : Reconnect) :
    (m.after inputs).state = .closed := by
  induction inputs using List.reverseRecOn with
  | nil => cases closes
  | append_singleton inputs i ih =>
    rw [after_snoc]
    rcases List.mem_append.mp closes with before | last
    · rw [step_of_closed (ih before)]
      exact ih before
    · obtain rfl := List.mem_singleton.mp last
      exact state_step_close _

/-! ## All of it -/

/-- **The failures in a row and the delays that answer them**, after any
inputs, sensible or not. The counter is the streak, up to its ceiling; it
is nothing before the first attempt and on an open connection. A machine
that waits has failed, and waits as long as the failures before the latest
ask for. Since a connection last opened the delays were those of no
failure, of one, of two and so on, so they begin at the base and never
decrease. Closed once, the machine is closed. -/
theorem failures_in_a_row (inputs : List Input) :
    let m := start.after inputs
    let record := start.passages inputs
    let count := streak record
    m.failures.toNat = min count (UInt32.size - 1) ∧
      (m.state = .idle ∨ m.state = .opened → m.failures = 0) ∧
      (∀ d, m.state = .waiting d →
        1 ≤ count ∧ d.nanos = 1000000 * min 12000 (500 + 800 * (count - 1)) ∧
          (delays record).getLast? = some d) ∧
      (delays record).map Span.nanos =
        (List.range count).map (fun n => 1000000 * min 12000 (500 + 800 * n)) ∧
      (∀ d ∈ (delays record).head?, d.nanos = 1000000 * 500) ∧
      ((delays record).map Span.nanos).Pairwise (· ≤ ·) ∧
      (.close ∈ inputs → m.state = .closed) := by
  intro m record count
  have h : Tallied record m := tallied_after inputs
  have answers : (delays record).map Span.nanos = (List.range count).map waitNanos := h.answers
  refine ⟨h.failures, fun calm => ?_, fun d waits => ?_, answers, fun d first => ?_, ?_,
    fun closes => state_after_of_close closes start⟩
  · have nothing : m.failures.toNat = 0 := by rw [h.failures, h.calm calm]; rfl
    exact UInt32.toNat_inj.mp nothing
  · have last := h.waits d waits
    -- the latest delay is the last of the range
    have final : ((List.range count).map waitNanos).getLast? = some d.nanos := by
      rw [← answers, List.getLast?_map, last]
      rfl
    cases hc : count with
    | zero =>
      rw [hc] at final
      cases final
    | succ n =>
      rw [hc, List.range_succ, List.map_append, List.map_singleton, List.getLast?_concat] at final
      exact ⟨Nat.succ_pos n, (Option.some.inj final).symm, last⟩
  · have head : ((List.range count).map waitNanos).head? = some d.nanos := by
      rw [← answers, List.head?_map, Option.mem_def.mp first]
      rfl
    cases hc : count with
    | zero =>
      rw [hc] at head
      cases head
    | succ n =>
      rw [hc, List.range_succ_eq_map] at head
      exact (Option.some.inj head).symm
  · rw [answers, List.pairwise_map]
    exact List.pairwise_le_range.imp waitNanos_mono

end AttackMap.Reconnect
