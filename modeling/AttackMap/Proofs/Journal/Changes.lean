import AttackMap.Journal
import Mathlib.Data.List.Destutter

/-!
# What the journal says of a run

The journal remembers two things of the frame before, its verdict and its
mode, and how many frames there have been. That is as good as to remember
the whole run (`after_start`): a verdict is written down if it is not that of
the frame before, so of a verdict that stays there is one line
(`filterMap_live?_pages`), and of the modes likewise. The reason given for a
mode is not looked at.

Every frame has a page of its own, on which the lines stand in one order:
the verdict, the mode, and the line of the frame itself, which sums the
frame up if its number ends a period.
-/

namespace AttackMap

/-! ## Lines -/

namespace Entry

/-- The verdict that a line is about. -/
def live? : Entry → Option LiveState
  | .live state _ => some state
  | _ => none

/-- The mode that a line is about. -/
def mode? : Entry → Option StreamMode
  | .mode m _ => some m
  | _ => none

/-- Whether a line sums a frame up. -/
def sumsUp : Entry → Bool
  | .summary .. => true
  | _ => false

/-- Whether a line says of a frame only that it was drawn. -/
def isPlain : Entry → Bool
  | .frame _ => true
  | _ => false

/-- Where a line stands on its page. -/
def place : Entry → Nat
  | .live .. => 0
  | .mode .. => 1
  | .summary .. | .frame _ => 2

end Entry

namespace Journal

variable {α : Type}

/-! ## Runs -/

/-- The journal after frames, each with what was shown beside it. -/
def after (j : Journal) (drawn : List (Frame α × View)) : Journal :=
  drawn.foldl (fun j d => (j.write d.1 d.2).1) j

/-- The lines that each frame adds. -/
def pages (j : Journal) : List (Frame α × View) → List (List Entry)
  | [] => []
  | d :: rest => (j.write d.1 d.2).2 :: (j.write d.1 d.2).1.pages rest

theorem after_snoc (j : Journal) (drawn : List (Frame α × View)) (d : Frame α × View) :
    j.after (drawn ++ [d]) = ((j.after drawn).write d.1 d.2).1 :=
  List.foldl_concat ..

theorem pages_snoc (j : Journal) (drawn : List (Frame α × View)) (d : Frame α × View) :
    j.pages (drawn ++ [d]) = j.pages drawn ++ [((j.after drawn).write d.1 d.2).2] := by
  induction drawn generalizing j with
  | nil => rfl
  | cons first rest ih =>
    rw [List.cons_append, pages, ih]
    rfl

/-! ## Changes -/

/-- What is told of values by someone who tells only what is not as it was
the last time. -/
def changes {β : Type} [DecidableEq β] : Option β → List β → List β
  | _, [] => []
  | last, b :: rest => (if last = some b then [] else [b]) ++ changes (some b) rest

/-- What is told is the values, but for those that repeat the one before. -/
theorem toList_append_changes {β : Type} [DecidableEq β] (last : Option β) (values : List β) :
    last.toList ++ changes last values = (last.toList ++ values).destutter (· ≠ ·) := by
  induction values generalizing last with
  | nil => cases last <;> rfl
  | cons b rest ih =>
    have told : b :: changes (some b) rest = (b :: rest).destutter (· ≠ ·) := ih (some b)
    cases last with
    | none => exact told
    | some a =>
      rw [changes, Option.toList_some, List.singleton_append, List.singleton_append,
        List.destutter_cons_cons]
      by_cases same : a = b
      · subst same
        rw [if_pos rfl, if_neg (not_not_intro rfl)]
        exact told
      · rw [if_neg (fun h => same (Option.some.inj h)), if_pos same, List.singleton_append, told]
        rfl

theorem changes_none {β : Type} [DecidableEq β] (values : List β) :
    changes none values = values.destutter (· ≠ ·) :=
  toList_append_changes none values

/-! ## Pages -/

/-- The page of a frame: what is not as it was before, and then a line for
the frame, which sums it up at the end of a period. -/
def page (live : Option LiveState) (mode : Option StreamMode) (ends : Prop) [Decidable ends]
    (frame : Frame α) (view : View) : List Entry :=
  (if live = some view.live then [] else [.live view.live view.stream])
    ++ (if mode = some view.mode then [] else [.mode view.mode view.reason])
    ++ [if ends then
        .summary frame.arcs.length frame.pulses.length frame.markers.length frame.heat.length
          view.stored view.headline
      else .frame frame.size]

theorem write_eq (j : Journal) (frame : Frame α) (view : View) : j.write frame view =
    (⟨j.period, j.frames.next, some view.live, some view.mode⟩,
      page j.live j.mode (j.frames.next % j.period = 0) frame view) :=
  rfl

section Page

variable (live : Option LiveState) (mode : Option StreamMode) (ends : Prop) [Decidable ends]
  (frame : Frame α) (view : View)

theorem filterMap_live?_page : (page live mode ends frame view).filterMap Entry.live? =
    if live = some view.live then [] else [view.live] := by
  unfold page
  split_ifs <;> rfl

theorem filterMap_mode?_page : (page live mode ends frame view).filterMap Entry.mode? =
    if mode = some view.mode then [] else [view.mode] := by
  unfold page
  split_ifs <;> rfl

/-- The lines of a page stand in one order, and each stands once. -/
theorem ascending_page :
    (page live mode ends frame view).Pairwise fun a b => a.place < b.place := by
  unfold page
  split_ifs <;> simp [Entry.place]

theorem any_sumsUp_page : (page live mode ends frame view).any Entry.sumsUp = decide ends := by
  unfold page
  split_ifs <;> simp_all [Entry.sumsUp]

theorem any_isPlain_page : (page live mode ends frame view).any Entry.isPlain = !decide ends := by
  unfold page
  split_ifs <;> simp_all [Entry.isPlain]

end Page

/-! ## Verdicts and modes -/

theorem filterMap_live?_pages (j : Journal) (drawn : List (Frame α × View)) :
    (j.pages drawn).flatten.filterMap Entry.live? = changes j.live (drawn.map (·.2.live)) := by
  induction drawn generalizing j with
  | nil => rfl
  | cons d rest ih =>
    rw [pages, List.flatten_cons, List.filterMap_append, ih, write_eq, filterMap_live?_page]
    rfl

theorem filterMap_mode?_pages (j : Journal) (drawn : List (Frame α × View)) :
    (j.pages drawn).flatten.filterMap Entry.mode? = changes j.mode (drawn.map (·.2.mode)) := by
  induction drawn generalizing j with
  | nil => rfl
  | cons d rest ih =>
    rw [pages, List.flatten_cons, List.filterMap_append, ih, write_eq, filterMap_mode?_page]
    rfl

/-! ## What is remembered -/

/-- How many frames a period has. -/
def span (period : UInt64) : Nat := max period.toNat 1

theorem toNat_max_one (n : UInt64) : (max n 1).toNat = span n := by
  change (if n ≤ 1 then 1 else n).toNat = max n.toNat 1
  split
  · next small => exact (Nat.max_eq_right (UInt64.le_iff_toNat_le.mp small)).symm
  · next large =>
    rw [UInt64.le_iff_toNat_le, Nat.not_le] at large
    exact (Nat.max_eq_left (Nat.le_of_lt large)).symm

theorem length_pages (j : Journal) (drawn : List (Frame α × View)) :
    (j.pages drawn).length = drawn.length := by
  induction drawn generalizing j with
  | nil => rfl
  | cons d rest ih => rw [pages, List.length_cons, List.length_cons, ih]

/-- Of a run the journal remembers how many frames there were, and the last
verdict and the last mode. -/
theorem after_start (n : UInt64) (drawn : List (Frame α × View)) :
    (start n).after drawn = ⟨max n 1, .nearest drawn.length,
      drawn.getLast?.map (·.2.live), drawn.getLast?.map (·.2.mode)⟩ := by
  induction drawn using List.reverseRecOn with
  | nil => rfl
  | append_singleton drawn d ih =>
    have counted : (Tally.nearest drawn.length).next = .nearest (drawn.length + 1) := by
      rw [← UInt64.toNat_inj, Tally.toNat_next, Tally.toNat_nearest, Tally.toNat_nearest]
      omega
    rw [after_snoc, ih, write_eq, counted, List.getLast?_concat, List.length_append]
    rfl

/-- The journal sums up the frames whose numbers end a period, as long as it
can count them. -/
theorem next_mod_eq_zero_iff {n : UInt64} {k : Nat} (few : k < Tally.greatest) :
    (Tally.nearest k).next % max n 1 = 0 ↔ span n ∣ k + 1 := by
  have count : (Tally.nearest k).next.toNat = k + 1 := by
    rw [Tally.toNat_next, Tally.toNat_nearest]
    omega
  rw [← UInt64.toNat_inj, UInt64.toNat_mod, count, toNat_max_one, Nat.dvd_iff_mod_eq_zero]
  rfl

/-- What a frame adds is its page, told from the frame before it and from its
number. -/
theorem getElem?_pages (n : UInt64) {drawn : List (Frame α × View)}
    (few : drawn.length ≤ Tally.greatest) {i : Nat} {d : Frame α × View}
    (here : drawn[i]? = some d) : ((start n).pages drawn)[i]? =
      some (page ((drawn.take i).getLast?.map (·.2.live)) ((drawn.take i).getLast?.map (·.2.mode))
        (span n ∣ i + 1) d.1 d.2) := by
  induction drawn using List.reverseRecOn with
  | nil => cases here
  | append_singleton drawn last ih =>
    rw [List.length_append, List.length_singleton] at few
    rw [pages_snoc]
    obtain earlier | rfl | later := Nat.lt_trichotomy i drawn.length
    · rw [List.getElem?_append_left earlier] at here
      rw [List.getElem?_append_left (by rwa [length_pages]),
        List.take_append_of_le_length (by omega)]
      exact ih (by omega) here
    · rw [List.getElem?_concat_length] at here
      cases here
      rw [← length_pages (start n) drawn, List.getElem?_concat_length, length_pages,
        List.take_left, write_eq, after_start]
      simp only [next_mod_eq_zero_iff few]
    · rw [List.getElem?_eq_none (by rw [List.length_append, List.length_singleton]; omega)] at here
      cases here

/-! ## The run -/

/-- What a journal with a summary every `n` frames says of the frames drawn. -/
structure Tells (n : UInt64) (drawn : List (Frame α × View)) (pages : List (List Entry)) :
    Prop where
  /-- The verdicts shown, one that stays only once. -/
  verdicts : pages.flatten.filterMap Entry.live? = (drawn.map (·.2.live)).destutter (· ≠ ·)
  /-- The modes shown, one that stays only once, whatever the reasons. -/
  modes : pages.flatten.filterMap Entry.mode? = (drawn.map (·.2.mode)).destutter (· ≠ ·)
  /-- Every frame has a page. -/
  length : pages.length = drawn.length
  /-- A page has a line for a new verdict, then one for a new mode, then one
  for the frame. -/
  contents : ∀ (i : Nat) (d : Frame α × View), drawn[i]? = some d → pages[i]? =
    some (page ((drawn.take i).getLast?.map (·.2.live)) ((drawn.take i).getLast?.map (·.2.mode))
      (span n ∣ i + 1) d.1 d.2)
  /-- The lines of a page stand in one order, and each stands once. -/
  ascending : ∀ lines ∈ pages, lines.Pairwise fun a b => a.place < b.place
  /-- A frame is summed up if its number, counted from 1, is a multiple of
  the period, and only drawn otherwise. -/
  summaries : ∀ (i : Nat) (lines : List Entry), pages[i]? = some lines →
    (lines.any Entry.sumsUp = true ↔ span n ∣ i + 1) ∧
      (lines.any Entry.isPlain = true ↔ ¬ span n ∣ i + 1)

/-- **The journal of a run.** A line stands in it for each change of verdict
and for each change of mode, the first of both included; and for every frame
one line, which sums it up at the end of a period. The run has fewer than
`2 ^ 64` frames, which is as far as the journal counts. -/
theorem pages_tell (n : UInt64) (drawn : List (Frame α × View))
    (counted : drawn.length ≤ Tally.greatest) : Tells n drawn ((start n).pages drawn) := by
  have paged {i : Nat} {lines : List Entry} (is : ((start n).pages drawn)[i]? = some lines) :
      ∃ d, drawn[i]? = some d ∧
        lines = page ((drawn.take i).getLast?.map (·.2.live))
          ((drawn.take i).getLast?.map (·.2.mode)) (span n ∣ i + 1) d.1 d.2 := by
    obtain ⟨inside, -⟩ := List.getElem?_eq_some_iff.mp is
    rw [length_pages] at inside
    have here := List.getElem?_eq_getElem inside
    exact ⟨_, here, Option.some.inj (is.symm.trans (getElem?_pages n counted here))⟩
  constructor
  case verdicts => rw [filterMap_live?_pages, start, changes_none]
  case modes => rw [filterMap_mode?_pages, start, changes_none]
  case length => exact length_pages _ _
  case contents => exact fun i d here => getElem?_pages n counted here
  case ascending =>
    intro lines mem
    obtain ⟨i, is⟩ := List.mem_iff_getElem?.mp mem
    obtain ⟨d, -, rfl⟩ := paged is
    exact ascending_page ..
  case summaries =>
    intro i lines is
    obtain ⟨d, -, rfl⟩ := paged is
    rw [any_sumsUp_page, any_isPlain_page]
    simp

/-- What is shown while the stream begins, goes on in another mode, and goes
on for another reason. -/
def beginning : List View :=
  [⟨.connecting, .waiting, .raw, none, 0, none⟩, ⟨.live, .live, .raw, none, 3, none⟩,
    ⟨.live, .live, .hybrid, some "busy", 5, none⟩, ⟨.live, .live, .hybrid, some "calm", 5, none⟩]

/-- A frame with nothing on it. -/
def nothing : Frame Float := ⟨0, [], [], [], [], [], []⟩

theorem pages_tell_beginning :
    let drawn := beginning.map (nothing, ·)
    drawn.length ≤ Tally.greatest ∧
      ((start 2).pages drawn).flatten.filterMap Entry.live? = [.connecting, .live] ∧
      ((start 2).pages drawn).flatten.filterMap Entry.mode? = [.raw, .hybrid] ∧
      ((start 2).pages drawn)[3]? = some [.summary 0 0 0 0 5 none] := by
  intro drawn
  have counted : drawn.length ≤ Tally.greatest := by decide
  have told := pages_tell 2 drawn counted
  refine ⟨counted, told.verdicts.trans ?_, told.modes.trans ?_, (told.contents 3 _ rfl).trans ?_⟩
  · decide
  · decide
  · rfl

end Journal

end AttackMap
