import AttackMap.Control.Waiting
import Mathlib.Data.List.Induction
import Mathlib.Data.List.TakeWhile

/-!
# Who is woken by a close

A ring wakes one task. So a close is enough for one task that waits, and not
for two: the other lies on, though the close is over (`oneOfTwo`).

How many tasks can be left lying is settled when the flag is set. From then
on no task that looks lies down again, so only those matter that at that
moment lay or had seen no flag and were about to lie down
(`WaitingRoom.unaware`). Each ring that is over has woken one of those that
lay, and of all of them at least one; one of those about to lie down may
find the ring that was kept, and the others lie down unheard. Where at most
one task is unaware nobody is stranded, and where more are, somebody may be
(`strands_only_of_many`).
-/

namespace AttackMap.WaitingRoom

/-! ## Counts -/

/-- The tasks that lie. -/
def lying (w : WaitingRoom) : Nat := w.waiters.count .lying

/-- The tasks that have seen no flag and lie down next. -/
def settling (w : WaitingRoom) : Nat := w.waiters.count .settling

/-- The tasks that do not look at the flag next. -/
def unaware (w : WaitingRoom) : Nat := w.settling + w.lying

theorem strands_iff_lying (w : WaitingRoom) : w.Strands ↔ 0 < w.rung ∧ 0 < w.lying := by
  rw [Strands, lying, List.count_pos_iff]

/-- A task that moves on is counted where it goes and no longer where it was. -/
theorem count_move {w : WaitingRoom} {task : Nat} {was : Waiter} (is : w.waiters[task]? = some was)
    (next x : Waiter) :
    (w.move task next).waiters.count x + (if was = x then 1 else 0) =
      w.waiters.count x + (if next = x then 1 else 0) := by
  obtain ⟨there, same⟩ := List.getElem?_eq_some_iff.mp is
  have counted : was = x → 0 < w.waiters.count x := by
    rintro rfl
    rw [List.count_pos_iff, ← same]
    exact List.getElem_mem there
  rw [move, List.count_set there, same]
  simp only [beq_iff_eq]
  by_cases here : was = x
  · have := counted here
    rw [if_pos here]
    omega
  · rw [if_neg here]
    omega

/-! ## The queue -/

/-- What the room keeps of those that lie. -/
structure Orderly (w : WaitingRoom) : Prop where
  /-- The queue is of those that lie, each once. -/
  queued : ∀ task, task ∈ w.queue ↔ w.waiters[task]? = some .lying
  once : w.queue.Nodup
  /-- A ring is kept only while nobody lies. -/
  kept : w.kept = true → w.queue = []
  /-- Only those ring that have set the flag. -/
  early : w.closed = false → w.ringing = 0 ∧ w.rung = 0

theorem Orderly.empty : Orderly empty :=
  ⟨fun _ => iff_of_false List.not_mem_nil nofun, List.nodup_nil, nofun, fun _ => ⟨rfl, rfl⟩⟩

theorem getElem?_move (w : WaitingRoom) (task other : Nat) (next : Waiter) :
    (w.move task next).waiters[other]? =
      if task = other then (w.waiters[task]?).map fun _ => next else w.waiters[other]? := by
  rw [move, List.getElem?_set]
  by_cases same : task = other
  · subst same
    rw [if_pos rfl, if_pos rfl]
    by_cases there : task < w.waiters.length
    · rw [if_pos there, List.getElem?_eq_getElem there]
      rfl
    · rw [if_neg there, List.getElem?_eq_none (Nat.le_of_not_lt there)]
      rfl
  · rw [if_neg same, if_neg same]

/-- A task that did not lie goes where it does not lie either. -/
theorem Orderly.move {w : WaitingRoom} (h : Orderly w) {task : Nat} {was : Waiter}
    (is : w.waiters[task]? = some was) {next : Waiter} (was_up : was ≠ .lying)
    (is_up : next ≠ .lying) : Orderly (w.move task next) := by
  refine ⟨fun other => ?_, h.once, h.kept, h.early⟩
  rw [getElem?_move]
  refine (h.queued other).trans ?_
  by_cases same : task = other
  · subst same
    rw [if_pos rfl, is]
    exact iff_of_false (fun lies => was_up (Option.some.inj lies))
      fun lies => is_up (Option.some.inj lies)
  · rw [if_neg same]

/-- A task that lies gets up and leaves the queue. -/
theorem Orderly.getsUp {w : WaitingRoom} (h : Orderly w) {task : Nat} {next : Waiter}
    (up : next ≠ .lying) : Orderly ({ w with queue := w.queue.erase task }.move task next) := by
  refine ⟨fun other => ?_, h.once.erase task, fun kept => ?_, h.early⟩
  · rw [getElem?_move]
    show other ∈ w.queue.erase task ↔ _
    rw [h.once.mem_erase_iff, h.queued]
    by_cases same : task = other
    · subst same
      rw [if_pos rfl]
      refine iff_of_false (fun lies => lies.1 rfl) fun lies => ?_
      obtain ⟨_, -, same⟩ := Option.map_eq_some_iff.mp lies
      exact up same
    · rw [if_neg same]
      exact and_iff_right (Ne.symm same)
  · show w.queue.erase task = []
    rw [h.kept kept]
    rfl

theorem ring_of_nil {w : WaitingRoom} (queue : w.queue = []) :
    w.ring = { w with kept := true } := by
  rw [WaitingRoom.ring, queue]

theorem ring_of_cons {w : WaitingRoom} {task : Nat} {rest : List Nat}
    (queue : w.queue = task :: rest) :
    w.ring = { w with queue := w.queue.erase task }.move task .woken := by
  rw [WaitingRoom.ring, queue, List.erase_cons_head]

/-- What a ring does: it wakes a task that lies, or is kept where nobody lies. -/
structure Rings (w w' : WaitingRoom) : Prop where
  orderly : Orderly w'
  closed : w'.closed = w.closed
  rung : w'.rung = w.rung
  settling : w'.settling = w.settling
  wakes : w.lying = 0 ∧ w'.lying = 0 ∧ w'.kept = true ∨
    w'.lying + 1 = w.lying ∧ w'.kept = w.kept

theorem Orderly.rings {w : WaitingRoom} (h : Orderly w) : Rings w w.ring := by
  cases queue : w.queue with
  | nil =>
    have none : w.lying = 0 := by
      rw [lying, List.count_eq_zero]
      intro mem
      obtain ⟨task, is⟩ := List.mem_iff_getElem?.mp mem
      have lies := (h.queued task).mpr is
      rw [queue] at lies
      cases lies
    rw [ring_of_nil queue]
    exact ⟨⟨h.queued, h.once, fun _ => queue, h.early⟩, rfl, rfl, rfl, .inl ⟨none, none, rfl⟩⟩
  | cons task rest =>
    have is : w.waiters[task]? = some .lying := by
      rw [← h.queued, queue]
      exact List.mem_cons_self
    rw [ring_of_cons queue]
    exact ⟨h.getsUp nofun, rfl, rfl, count_move is .woken .settling,
      .inr ⟨count_move is .woken .lying, rfl⟩⟩

/-! ## Steps -/

theorem Orderly.comes {w : WaitingRoom} (h : Orderly w) : Orderly (w.stir .comes) := by
  refine ⟨fun task => (h.queued task).trans ?_, h.once, h.kept, h.early⟩
  show _ ↔ (w.waiters ++ [.looking])[task]? = _
  by_cases there : task < w.waiters.length
  · rw [List.getElem?_append_left there]
  · rw [List.getElem?_append_right (Nat.le_of_not_lt there),
      List.getElem?_eq_none (Nat.le_of_not_lt there)]
    refine iff_of_false nofun fun lies => ?_
    obtain ⟨_, same⟩ := List.getElem?_eq_some_iff.mp lies
    rw [List.getElem_singleton] at same
    cases same

/-- What a step comes to. -/
inductive Stirs (w : WaitingRoom) : WaitingRoom → Prop
  | nothing : Stirs w w
  | comes : Stirs w { w with waiters := w.waiters ++ [.looking] }
  | looks (task : Nat) (was : Waiter) (is : w.waiters[task]? = some was)
    (up : was = .looking ∨ was = .woken) :
    Stirs w (w.move task (if w.closed then .through else .settling))
  | takes (task : Nat) (is : w.waiters[task]? = some .settling) (kept : w.kept = true) :
    Stirs w ({ w with kept := false }.move task .looking)
  | liesDown (task : Nat) (is : w.waiters[task]? = some .settling) (none : w.kept = false) :
    Stirs w ({ w with queue := w.queue ++ [task] }.move task .lying)
  | flags : Stirs w { w with closed := true, ringing := w.ringing + 1 }
  | rings (begun : 0 < w.ringing) :
    Stirs w { w with ringing := w.ringing - 1, rung := w.rung + 1 }.ring
  | leaves (task : Nat) (was : Waiter) (is : w.waiters[task]? = some was)
    (up : was = .looking ∨ was = .settling) : Stirs w (w.move task .gone)
  | getsUp (task : Nat) (is : w.waiters[task]? = some .lying) :
    Stirs w ({ w with queue := w.queue.erase task }.move task .gone)
  | passesOn (task : Nat) (is : w.waiters[task]? = some .woken) : Stirs w (w.move task .gone).ring

theorem stirs_stir (w : WaitingRoom) (s : Stir) : Stirs w (w.stir s) := by
  cases s with
  | comes => exact .comes
  | flags => exact .flags
  | looks task =>
    unfold stir
    dsimp only
    split
    · next is => exact .looks task _ is (.inl rfl)
    · next is => exact .looks task _ is (.inr rfl)
    · exact .nothing
  | settles task =>
    unfold stir
    dsimp only
    split
    · next is =>
      split
      · next kept => exact .takes task is kept
      · next none => exact .liesDown task is (Bool.not_eq_true _ |>.mp none)
    · exact .nothing
  | rings =>
    unfold stir
    dsimp only
    split
    · exact .nothing
    · next begun => exact .rings (Nat.pos_of_ne_zero begun)
  | leaves task =>
    unfold stir
    dsimp only
    split
    · next is => exact .getsUp task is
    · next is => exact .passesOn task is
    · next is => exact .leaves task _ is (.inl rfl)
    · next is => exact .leaves task _ is (.inr rfl)
    · exact .nothing

theorem Orderly.liesDown {w : WaitingRoom} (h : Orderly w) {task : Nat}
    (is : w.waiters[task]? = some .settling) (none : w.kept = false) :
    Orderly ({ w with queue := w.queue ++ [task] }.move task .lying) := by
  have outside : task ∉ w.queue := by
    rw [h.queued, is]
    exact nofun
  refine ⟨fun other => ?_, ?_, fun kept => ?_, h.early⟩
  · rw [getElem?_move]
    show other ∈ w.queue ++ [task] ↔ _
    rw [List.mem_append, List.mem_singleton, h.queued]
    by_cases same : task = other
    · subst same
      rw [if_pos rfl]
      exact iff_of_true (.inr rfl) (by rw [is]; rfl)
    · rw [if_neg same]
      exact or_iff_left (Ne.symm same)
  · show (w.queue ++ [task]).Nodup
    rw [List.nodup_append]
    refine ⟨h.once, List.nodup_cons.mpr ⟨List.not_mem_nil, List.nodup_nil⟩, ?_⟩
    rintro other mem last is_last rfl
    rw [List.mem_singleton.mp is_last] at mem
    exact outside mem
  · cases none.symm.trans kept

/-- A closing that has set the flag is over. -/
theorem Orderly.closes {w : WaitingRoom} (h : Orderly w) (closed : w.closed = true) :
    Orderly { w with ringing := w.ringing - 1, rung := w.rung + 1 } :=
  ⟨h.queued, h.once, h.kept, fun opened => by cases opened.symm.trans closed⟩

theorem Orderly.stirs {w w' : WaitingRoom} (h : Orderly w) (does : Stirs w w') : Orderly w' := by
  cases does with
  | nothing => exact h
  | comes => exact h.comes
  | looks task was is up =>
    refine h.move is (by rintro rfl; rcases up with up | up <;> cases up) ?_
    split <;> exact nofun
  | takes task is =>
    have off : Orderly { w with kept := false } := ⟨h.queued, h.once, nofun, h.early⟩
    exact off.move is nofun nofun
  | liesDown task is none => exact h.liesDown is none
  | flags => exact ⟨h.queued, h.once, h.kept, nofun⟩
  | rings begun =>
    have closed : w.closed = true := by
      by_contra opened
      have := (h.early (Bool.not_eq_true _ |>.mp opened)).1
      omega
    exact (h.closes closed).rings.orderly
  | leaves task was is up =>
    exact h.move is (by rintro rfl; rcases up with up | up <;> cases up) nofun
  | getsUp task is => exact h.getsUp nofun
  | passesOn task is =>
    have gone : Orderly (w.move task .gone) := h.move is nofun nofun
    exact gone.rings.orderly

theorem after_append (steps more : List Stir) :
    after (steps ++ more) = more.foldl stir (after steps) :=
  List.foldl_append

theorem orderly_of_stirs (steps : List Stir) : Orderly (after steps) := by
  induction steps using List.reverseRecOn with
  | nil => exact .empty
  | append_singleton steps s ih =>
    rw [after_append]
    exact ih.stirs (stirs_stir _ s)

/-! ## After the flag -/

/-- A room whose flag was set when `lay` tasks lay and `saw` had seen no flag and
were about to lie down. -/
structure Since (lay saw : Nat) (w : WaitingRoom) : Prop where
  orderly : Orderly w
  closed : w.closed = true
  /-- No task comes to lie down any more. -/
  settling : w.settling ≤ saw
  /-- Each closing that is over has woken a task that lay, as long as there was one. -/
  unaware : w.unaware ≤ saw + (lay - w.rung)
  /-- The first has woken one of all of them, or its ring is kept for one. -/
  rang : 0 < w.rung → w.kept = true ∨ w.unaware < lay + saw ∨ w.unaware = 0

/-- What is known of a room whose flag is set stays so where the counts fall. -/
theorem Since.of_counts {lay saw : Nat} {w w' : WaitingRoom} (h : Since lay saw w)
    (orderly : Orderly w') (closed : w'.closed = true) (rung : w'.rung = w.rung)
    (settling : w'.settling ≤ w.settling) (unaware : w'.unaware ≤ w.unaware)
    (kept : w.kept = true → w'.kept = true ∨ w'.unaware < w.unaware) : Since lay saw w' := by
  have most := h.unaware
  refine ⟨orderly, closed, Nat.le_trans settling h.settling, ?_, ?_⟩
  · rw [rung]
    exact Nat.le_trans unaware most
  · rw [rung]
    intro some_rung
    rcases h.rang some_rung with waits | less | none
    · refine (kept waits).imp_right fun less => .inl ?_
      omega
    · exact .inr (.inl (Nat.lt_of_le_of_lt unaware less))
    · exact .inr (.inr (Nat.le_zero.mp (none ▸ unaware)))

/-- A task goes where it neither lies nor is about to. -/
theorem Since.leaves {lay saw : Nat} {w w' : WaitingRoom} (h : Since lay saw w) {task : Nat}
    {was : Waiter} (is : w.waiters[task]? = some was) (next : Waiter)
    (up : next ≠ .settling ∧ next ≠ .lying) (waiters : w'.waiters = (w.move task next).waiters)
    (orderly : Orderly w') (closed : w'.closed = w.closed) (rung : w'.rung = w.rung)
    (kept : w'.kept = w.kept) : Since lay saw w' := by
  have settling := count_move is next .settling
  have lying := count_move is next .lying
  rw [if_neg up.1, ← waiters] at settling
  rw [if_neg up.2, ← waiters] at lying
  have fewer : w'.settling ≤ w.settling := by
    unfold WaitingRoom.settling
    omega
  refine h.of_counts orderly (closed.trans h.closed) rung fewer ?_ fun waits => .inl ?_
  · unfold WaitingRoom.unaware WaitingRoom.settling WaitingRoom.lying
    omega
  · exact kept.trans waits

/-- A ring that no closing has rung but a task has passed on. -/
theorem Since.rings {lay saw : Nat} {w w' : WaitingRoom} (h : Since lay saw w)
    (rings : Rings w w') : Since lay saw w' := by
  have settling := rings.settling
  have unaware : w'.unaware ≤ w.unaware := by
    unfold WaitingRoom.unaware
    rcases rings.wakes with ⟨none, none', -⟩ | ⟨one, -⟩ <;> omega
  refine h.of_counts rings.orderly (rings.closed.trans h.closed) rings.rung (Nat.le_of_eq settling)
    unaware fun waits => .inl ?_
  rcases rings.wakes with ⟨-, -, kept⟩ | ⟨-, same⟩
  · exact kept
  · exact same.trans waits

theorem Since.stirs {lay saw : Nat} {w w' : WaitingRoom} (h : Since lay saw w)
    (does : Stirs w w') : Since lay saw w' := by
  have orderly := h.orderly.stirs does
  cases does with
  | nothing => exact h
  | comes =>
    have same (x : Waiter) (other : Waiter.looking ≠ x) :
        (w.waiters ++ [Waiter.looking]).count x = w.waiters.count x := by
      rw [List.count_append, List.count_cons_of_ne other, List.count_nil]
      rfl
    have settling := same .settling nofun
    have lying := same .lying nofun
    refine h.of_counts orderly h.closed rfl (Nat.le_of_eq settling) (Nat.le_of_eq ?_) .inl
    exact congrArg₂ (· + ·) settling lying
  | looks task was is up =>
    rw [h.closed, if_pos rfl] at orderly ⊢
    exact h.leaves is .through ⟨nofun, nofun⟩ rfl orderly rfl rfl rfl
  | takes task is kept =>
    have settling : ({ w with kept := false }.move task .looking).settling + 1 = w.settling :=
      count_move is .looking .settling
    have lying : ({ w with kept := false }.move task .looking).lying = w.lying :=
      count_move is .looking .lying
    refine h.of_counts orderly h.closed rfl (by omega) ?_ fun _ => .inr ?_
    · unfold WaitingRoom.unaware
      omega
    · unfold WaitingRoom.unaware
      omega
  | liesDown task is none =>
    have settling :
        ({ w with queue := w.queue ++ [task] }.move task .lying).settling + 1 = w.settling :=
      count_move is .lying .settling
    have lying : ({ w with queue := w.queue ++ [task] }.move task .lying).lying = w.lying + 1 :=
      count_move is .lying .lying
    refine h.of_counts orderly h.closed rfl (by omega) ?_ fun waits => ?_
    · unfold WaitingRoom.unaware
      omega
    · cases none.symm.trans waits
  | flags => exact h.of_counts orderly rfl rfl (Nat.le_refl _) (Nat.le_refl _) .inl
  | rings begun =>
    have rings := (h.orderly.closes h.closed).rings
    generalize ({ w with ringing := w.ringing - 1, rung := w.rung + 1 } : WaitingRoom).ring = w'
      at rings orderly
    have rung : w'.rung = w.rung + 1 := rings.rung
    have settling : w'.settling = w.settling := rings.settling
    have wakes : w.lying = 0 ∧ w'.lying = 0 ∧ w'.kept = true ∨
        w'.lying + 1 = w.lying ∧ w'.kept = w.kept := rings.wakes
    have few := h.settling
    have most := h.unaware
    unfold WaitingRoom.unaware at most
    refine ⟨orderly, rings.closed.trans h.closed, settling ▸ few, ?_, fun _ => ?_⟩
    · rw [rung]
      unfold WaitingRoom.unaware
      rcases wakes with ⟨none, none', -⟩ | ⟨one, -⟩ <;> omega
    · unfold WaitingRoom.unaware
      rcases wakes with ⟨-, -, kept⟩ | ⟨one, -⟩
      · exact .inl kept
      · exact .inr (.inl (by omega))
  | leaves task was is up => exact h.leaves is .gone ⟨nofun, nofun⟩ rfl orderly rfl rfl rfl
  | getsUp task is => exact h.leaves is .gone ⟨nofun, nofun⟩ rfl orderly rfl rfl rfl
  | passesOn task is =>
    have gone : Orderly (w.move task .gone) := h.orderly.move is nofun nofun
    have since : Since lay saw (w.move task .gone) :=
      h.leaves is .gone ⟨nofun, nofun⟩ rfl gone rfl rfl rfl
    exact since.rings gone.rings

theorem Since.foldl {lay saw : Nat} {w : WaitingRoom} (h : Since lay saw w) (steps : List Stir) :
    Since lay saw (steps.foldl stir w) := by
  induction steps generalizing w with
  | nil => exact h
  | cons s rest ih => exact ih (h.stirs (stirs_stir w s))

/-! ## Who is left lying -/

/-- The steps before the flag is first set, or all if it is not. -/
def beforeFlag (steps : List Stir) : List Stir := steps.takeWhile (· ≠ .flags)

/-- The room in which the flag is first set, or the last if it is not. -/
def atFlag (steps : List Stir) : WaitingRoom := after (beforeFlag steps)

theorem flags_notMem_beforeFlag (steps : List Stir) : .flags ∉ beforeFlag steps := by
  intro mem
  have other := List.mem_takeWhile_imp (p := fun s => decide (s ≠ Stir.flags)) mem
  exact of_decide_eq_true other rfl

theorem closed_ring (w : WaitingRoom) : w.ring.closed = w.closed := by
  unfold ring
  split <;> rfl

/-- Only a closing sets the flag. -/
theorem closed_stir (w : WaitingRoom) {s : Stir} (other : s ≠ .flags) :
    (w.stir s).closed = w.closed := by
  cases s with
  | comes => rfl
  | flags => exact absurd rfl other
  | looks task =>
    unfold stir
    dsimp only
    split <;> rfl
  | settles task =>
    unfold stir
    dsimp only
    split
    · split <;> rfl
    · rfl
  | rings =>
    unfold stir
    dsimp only
    split
    · rfl
    · exact closed_ring _
  | leaves task =>
    unfold stir
    dsimp only
    split
    · rfl
    · exact closed_ring _
    · rfl
    · rfl
    · rfl

/-- A room without a flag: no ring is kept, and none has woken anyone. -/
structure Quiet (w : WaitingRoom) : Prop where
  closed : w.closed = false
  kept : w.kept = false
  asleep : .woken ∉ w.waiters

theorem Quiet.move {w : WaitingRoom} (h : Quiet w) (task : Nat) {next : Waiter}
    (other : next ≠ .woken) : Quiet (w.move task next) := by
  refine ⟨h.closed, h.kept, fun mem => ?_⟩
  rcases List.mem_or_eq_of_mem_set mem with mem | same
  · exact h.asleep mem
  · exact other same.symm

theorem Quiet.stirs {w w' : WaitingRoom} (h : Quiet w) (orderly : Orderly w) (does : Stirs w w')
    (closed : w'.closed = w.closed) : Quiet w' := by
  cases does with
  | nothing => exact h
  | comes =>
    refine ⟨h.closed, h.kept, fun mem => ?_⟩
    rcases List.mem_append.mp mem with mem | last
    · exact h.asleep mem
    · cases List.mem_singleton.mp last
  | looks task =>
    rw [h.closed]
    exact h.move task nofun
  | takes task is kept => cases h.kept.symm.trans kept
  | liesDown task =>
    have queued : Quiet { w with queue := w.queue ++ [task] } := ⟨h.closed, h.kept, h.asleep⟩
    exact queued.move task nofun
  | flags => cases closed.trans h.closed
  | rings begun =>
    rw [(orderly.early h.closed).1] at begun
    cases begun
  | leaves task => exact h.move task nofun
  | getsUp task =>
    have queued : Quiet { w with queue := w.queue.erase task } := ⟨h.closed, h.kept, h.asleep⟩
    exact queued.move task nofun
  | passesOn task is => exact absurd (List.mem_of_getElem? is) h.asleep

theorem quiet_of_notMem {steps : List Stir} (none : .flags ∉ steps) : Quiet (after steps) := by
  induction steps using List.reverseRecOn with
  | nil => exact ⟨rfl, rfl, List.not_mem_nil⟩
  | append_singleton steps s ih =>
    rw [List.mem_append, not_or] at none
    have other : s ≠ .flags := by
      rintro rfl
      exact none.2 (List.mem_singleton_self _)
    rw [after_append]
    exact (ih none.1).stirs (orderly_of_stirs steps) (stirs_stir _ s) (closed_stir _ other)

/-- Without a flag nobody has rung. -/
theorem rung_of_notMem {steps : List Stir} (none : .flags ∉ steps) : (after steps).rung = 0 :=
  ((orderly_of_stirs steps).early (quiet_of_notMem none).closed).2

theorem atFlag_eq {before : List Stir} (none : .flags ∉ before) (rest : List Stir) :
    atFlag (before ++ .flags :: rest) = after before := by
  have all : ∀ s ∈ before, decide (s ≠ .flags) = true := by
    rintro s mem
    refine decide_eq_true ?_
    rintro rfl
    exact none mem
  rw [atFlag, beforeFlag, List.takeWhile_append_of_pos all, List.takeWhile_cons_of_neg (by decide),
    List.append_nil]

/-- What is known of a room is known since the flag was set, if it was. -/
theorem since_atFlag {steps : List Stir} (mem : .flags ∈ steps) :
    Since (atFlag steps).lying (atFlag steps).settling (after steps) := by
  obtain ⟨before, rest, rfl, none⟩ := List.eq_append_cons_of_mem mem
  have rung := rung_of_notMem none
  rw [atFlag_eq none, after_append]
  refine Since.foldl (w := (after before).stir .flags) ?_ rest
  refine ⟨(orderly_of_stirs before).stirs (stirs_stir _ .flags), rfl, Nat.le_refl _, ?_, ?_⟩
  · show _ ≤ _ + (_ - (after before).rung)
    rw [rung]
    exact Nat.le_refl _
  · show 0 < (after before).rung → _
    rw [rung]
    exact nofun

/-- Where nobody has set the flag nobody has rung. -/
theorem flags_mem_of_rung {steps : List Stir} (rung : 0 < (after steps).rung) : .flags ∈ steps := by
  by_contra none
  rw [rung_of_notMem none] at rung
  cases rung

/-- Of the tasks that were unaware of the flag when it was set one does not lie. -/
theorem lying_lt_of_strands {steps : List Stir} (strands : (after steps).Strands) :
    (after steps).lying < (atFlag steps).unaware := by
  obtain ⟨rung, lies⟩ := (strands_iff_lying _).mp strands
  have since := since_atFlag (flags_mem_of_rung rung)
  have less : (after steps).unaware < (atFlag steps).lying + (atFlag steps).settling := by
    rcases since.rang rung with kept | less | none
    · -- a ring is kept only while nobody lies
      obtain ⟨task, is⟩ := List.mem_iff_getElem?.mp strands.2
      have queued := (since.orderly.queued task).mpr is
      rw [since.orderly.kept kept] at queued
      cases queued
    · exact less
    · unfold unaware at none
      omega
  unfold unaware at less ⊢
  omega

/-! ## Who may be left lying -/

/-- Where no ring is kept, those that are about to lie down all may. -/
theorem exists_settled {w : WaitingRoom} (h : Orderly w) (none : w.kept = false) :
    ∃ rest : List Stir, Orderly (rest.foldl stir w) ∧ (rest.foldl stir w).closed = w.closed ∧
      (rest.foldl stir w).ringing = w.ringing ∧ (rest.foldl stir w).lying = w.unaware := by
  generalize settling : w.settling = n
  induction n generalizing w with
  | zero =>
    refine ⟨[], h, rfl, rfl, ?_⟩
    rw [unaware, settling, Nat.zero_add]
    rfl
  | succ n ih =>
    have some : Waiter.settling ∈ w.waiters := by
      rw [← List.count_pos_iff]
      exact Nat.lt_of_lt_of_eq (Nat.succ_pos n) settling.symm
    obtain ⟨task, is⟩ := List.mem_iff_getElem?.mp some
    have step : w.stir (.settles task) =
        { w with queue := w.queue ++ [task] }.move task .lying := by
      rw [stir, is]
      exact if_neg (by rw [none]; exact Bool.false_ne_true)
    have fewer :
        ({ w with queue := w.queue ++ [task] }.move task .lying).settling + 1 = w.settling :=
      count_move is .lying .settling
    have more : ({ w with queue := w.queue ++ [task] }.move task .lying).lying = w.lying + 1 :=
      count_move is .lying .lying
    obtain ⟨rest, orderly, closed, ringing, lying⟩ := ih (h.liesDown is none) none (by omega)
    refine ⟨.settles task :: rest, ?_⟩
    rw [List.foldl_cons, step]
    refine ⟨orderly, closed, ringing, lying.trans ?_⟩
    unfold unaware
    omega

/-- Where more than one task is unaware of the flag, they may lie down, and the close
wakes one. -/
theorem exists_strands {before : List Stir} (none : .flags ∉ before)
    (many : 1 < (after before).unaware) :
    ∃ rest, (after (before ++ .flags :: rest)).Strands := by
  have orderly := (orderly_of_stirs before).stirs (stirs_stir _ .flags)
  obtain ⟨rest, orderly, closed, ringing, lying⟩ :=
    exists_settled orderly (quiet_of_notMem none).kept
  refine ⟨rest ++ [.rings], ?_⟩
  rw [after_append, List.foldl_cons, List.foldl_append]
  generalize rest.foldl stir ((after before).stir .flags) = w at orderly closed ringing lying ⊢
  have begun : w.ringing ≠ 0 := ringing ▸ Nat.succ_ne_zero _
  have rings := (orderly.closes closed).rings
  show (w.stir .rings).Strands
  rw [stir, if_neg begun, strands_iff_lying, rings.rung]
  refine ⟨Nat.succ_pos _, ?_⟩
  have lay : ({ w with ringing := w.ringing - 1, rung := w.rung + 1 } : WaitingRoom).lying =
      (after before).unaware := lying
  rcases rings.wakes with ⟨nobody, -⟩ | ⟨one, -⟩ <;> omega

/-- Two tasks lie down, and one closing wakes the first of them. -/
def oneOfTwo : List Stir :=
  [.comes, .comes, .looks 0, .settles 0, .looks 1, .settles 1, .flags, .rings, .looks 0]

/-- **A close may strand a task**: of two that wait the second lies on, though the
close is over and the first has seen the flag. -/
theorem strands_oneOfTwo :
    (after oneOfTwo).Strands ∧ (after oneOfTwo).waiters = [.through, .lying] ∧
      (after oneOfTwo).kept = false := by
  refine ⟨⟨?_, ?_⟩, ?_, ?_⟩ <;> decide

/-- **Who is left lying.** No run strands a task unless more than one was unaware of the
flag when it was set, and from every such moment some run strands one. In any run
each closing that is over has woken one of those that lay then, as long as there
was one, and all of them together have woken one at least. -/
theorem strands_only_of_many (steps : List Stir) :
    ((after steps).Strands → 1 < (atFlag steps).unaware) ∧
      (1 < (atFlag steps).unaware →
        ∃ rest, (after (beforeFlag steps ++ .flags :: rest)).Strands) ∧
      (0 < (after steps).rung →
        (after steps).lying ≤
          (atFlag steps).settling + ((atFlag steps).lying - (after steps).rung) ∧
        ((after steps).lying = 0 ∨ (after steps).lying < (atFlag steps).unaware)) := by
  refine ⟨?_, exists_strands (flags_notMem_beforeFlag steps), ?_⟩
  · intro strands
    have lies := ((strands_iff_lying _).mp strands).2
    have less := lying_lt_of_strands strands
    omega
  · intro rung
    have most := (since_atFlag (flags_mem_of_rung rung)).unaware
    refine ⟨?_, ?_⟩
    · unfold unaware at most
      omega
    · by_cases lies : 0 < (after steps).lying
      · exact .inr (lying_lt_of_strands ((strands_iff_lying _).mpr ⟨rung, lies⟩))
      · exact .inl (Nat.eq_zero_of_not_pos lies)

end AttackMap.WaitingRoom
