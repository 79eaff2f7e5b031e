import AttackMap.Liveness
import Mathlib.Data.List.Chain

/-!
# The verdict as a function of the past

Liveness keeps a status, a judgement on the heartbeats and a verdict, and
changes them notice by notice. Here the verdict is read off the notices
themselves (`verdict_after`), the newest first: from the last status, the
last heartbeat that came while the transport was open, and the last moment
at which that heartbeat was judged (`lastStatus`, `lastHeard`,
`lastJudged`).

Only what happens while the transport is open judges anything. A poll
between a status that is not open and the next that is has no effect, so
to count it as a judgement gives another verdict
(`poll_before_opening_judges_nothing`).

What is told is the verdict whenever it has changed, so whoever starts from
`connecting` and listens has the verdict at all times.
-/

namespace AttackMap.Liveness

/-- What is known after notices. -/
def after (l : Liveness) (notices : List Notice) : Liveness :=
  notices.foldl (fun l n => (l.hear n).1) l

/-- What is told at each notice. -/
def told (l : Liveness) : List Notice → List (Option LiveState)
  | [] => []
  | n :: rest => (l.hear n).2 :: (l.hear n).1.told rest

/-- The verdict after each notice. -/
def verdicts (l : Liveness) : List Notice → List LiveState
  | [] => []
  | n :: rest => (l.hear n).1.state :: (l.hear n).1.verdicts rest

/-- The verdicts of a listener who starts from one and takes over what is told. -/
def replay (verdict : LiveState) : List (Option LiveState) → List LiveState
  | [] => []
  | t :: rest => t.getD verdict :: replay (t.getD verdict) rest

/-! ## Reading the past

The notices stand with the newest first. -/

/-- The last status. -/
def lastStatus : List Notice → TransportStatus
  | [] => .connecting
  | .transport status :: _ => status
  | .heartbeat _ :: earlier => lastStatus earlier
  | .poll _ :: earlier => lastStatus earlier

/-- The time of the last heartbeat that came while the transport was open. -/
def lastHeard : List Notice → Option Millis
  | [] => none
  | .transport _ :: earlier => lastHeard earlier
  | .heartbeat now :: earlier =>
    if lastStatus earlier = .opened then some now else lastHeard earlier
  | .poll _ :: earlier => lastHeard earlier

/-- The time of the last poll or heartbeat since the last status that is not
open, whatever the status then was. -/
def lastLooked : List Notice → Option Millis
  | [] => none
  | .transport status :: earlier => if status = .opened then lastLooked earlier else none
  | .heartbeat now :: _ => some now
  | .poll now :: _ => some now

/-- The time of the last poll or heartbeat that came while the transport was
open, since the last status that is not open. -/
def lastJudged : List Notice → Option Millis
  | [] => none
  | .transport status :: earlier => if status = .opened then lastJudged earlier else none
  | .heartbeat now :: earlier =>
    if lastStatus earlier = .opened then some now else lastJudged earlier
  | .poll now :: earlier => if lastStatus earlier = .opened then some now else lastJudged earlier

/-- Whether a heartbeat is older at a moment than a span of whole
milliseconds, as far as milliseconds can say both. -/
def TooOld (staleAfter : Span) (heard now : Millis) : Prop :=
  min Millis.greatest staleAfter.millis < (now.minus heard).toInt

instance (staleAfter : Span) (heard now : Millis) : Decidable (TooOld staleAfter heard now) :=
  inferInstanceAs (Decidable (_ < _))

/-- The verdict that a status, a moment of judgement and a heartbeat give. -/
def verdictOf (staleAfter : Span) : TransportStatus → Option Millis → Option Millis → LiveState
  | .closed, _, _ => .offline
  | .connecting, _, _ => .connecting
  | .opened, some now, some heard => if TooOld staleAfter heard now then .stale else .live
  | .opened, _, _ => .connecting

/-- What a moment of judgement and a heartbeat show. -/
def shown (staleAfter : Span) : Option Millis → Option Millis → StreamState
  | some now, some heard => if TooOld staleAfter heard now then .stale else .live
  | _, _ => .waiting

theorem derive_shown (staleAfter : Span) (status : TransportStatus) (now heard : Option Millis) :
    LiveState.derive status (shown staleAfter now heard) = verdictOf staleAfter status now heard := by
  cases status with
  | closed => rfl
  | connecting => rfl
  | opened =>
    cases now with
    | none => rfl
    | some now =>
      cases heard with
      | none => rfl
      | some heard =>
        rw [shown, verdictOf]
        split <;> rfl

/-- Nothing is judged unless the transport is open. -/
theorem lastJudged_of_not_open {past : List Notice} (h : lastStatus past ≠ .opened) :
    lastJudged past = none := by
  induction past with
  | nil => rfl
  | cons n earlier ih =>
    cases n with
    | transport status => exact if_neg h
    | heartbeat now => exact (if_neg h).trans (ih h)
    | poll now => exact (if_neg h).trans (ih h)

/-! ## What is known reflects the past -/

/-- What is known is what the past says. -/
structure Reflects (staleAfter : Span) (past : List Notice) (l : Liveness) : Prop where
  limit : l.staleAfter = .nearest staleAfter.millis
  transport : l.transport = lastStatus past
  heard : l.lastHeartbeat = lastHeard past
  stream : l.stream = shown staleAfter (lastJudged past) (lastHeard past)
  state : l.state = .derive l.transport l.stream

/-- The limit kept is compared as the whole span would be. -/
theorem limit_lt_iff {staleAfter : Span} {heard now : Millis} :
    Millis.nearest staleAfter.millis < now.minus heard ↔ TooOld staleAfter heard now := by
  rw [Int64.lt_iff_toInt_lt, Millis.toInt_nearest, TooOld, Millis.least, Millis.greatest]
  omega

/-- A judgement is what the moment and the heartbeat show. -/
theorem judge_eq_shown {staleAfter : Span} {l : Liveness} (now : Millis)
    (limit : l.staleAfter = .nearest staleAfter.millis) :
    l.judge now = shown staleAfter (some now) l.lastHeartbeat := by
  unfold judge
  cases l.lastHeartbeat with
  | none => rfl
  | some heard => simp only [shown, limit, limit_lt_iff]

namespace Reflects

variable {staleAfter : Span} {past : List Notice} {l : Liveness}

/-- Nothing has happened yet. -/
theorem startWithin (staleAfter : Span) : Reflects staleAfter [] (startWithin staleAfter) :=
  ⟨rfl, rfl, rfl, rfl, rfl⟩

/-- A look at an open transport judges the last heartbeat at that moment. -/
theorem look {now : Millis} (limit : l.staleAfter = .nearest staleAfter.millis)
    (transport : l.transport = .opened) (status : lastStatus past = .opened)
    (heard : l.lastHeartbeat = lastHeard past) (judged : lastJudged past = some now) :
    Reflects staleAfter past (l.look now).1 := by
  rw [Liveness.look, if_pos transport, refresh_fst]
  refine ⟨limit, transport.trans status.symm, heard, ?_, rfl⟩
  rw [judged, ← heard]
  exact judge_eq_shown now limit

/-- The transport gets a status. -/
theorem switch (h : Reflects staleAfter past l) (status : TransportStatus) :
    Reflects staleAfter (.transport status :: past) (l.hear (.transport status)).1 := by
  rw [Liveness.hear, refresh_fst]
  refine ⟨h.limit, rfl, h.heard, ?_, rfl⟩
  by_cases hs : status = .opened
  · simp only [hs, if_true, lastJudged, lastHeard, h.stream]
  · simp only [hs, if_false, lastJudged, shown]

/-- One notice more. A heartbeat or a poll is a look if the transport is
open and nothing at all if it is not. -/
theorem hear (h : Reflects staleAfter past l) (n : Notice) :
    Reflects staleAfter (n :: past) (l.hear n).1 := by
  cases n with
  | transport status => exact h.switch status
  | heartbeat now =>
    by_cases ho : lastStatus past = .opened
    · rw [Liveness.hear, if_pos (h.transport.trans ho)]
      exact look h.limit (h.transport.trans ho) ho (if_pos ho).symm (if_pos ho)
    · have heard : lastHeard (.heartbeat now :: past) = lastHeard past := if_neg ho
      have judged : lastJudged (.heartbeat now :: past) = lastJudged past := if_neg ho
      rw [Liveness.hear, if_neg (h.transport ▸ ho)]
      exact ⟨h.limit, h.transport, heard ▸ h.heard, by rw [judged, heard]; exact h.stream, h.state⟩
  | poll now =>
    by_cases ho : lastStatus past = .opened
    · exact look h.limit (h.transport.trans ho) ho h.heard (if_pos ho)
    · have judged : lastJudged (.poll now :: past) = lastJudged past := if_neg ho
      rw [Liveness.hear, Liveness.look, if_neg (h.transport ▸ ho)]
      exact ⟨h.limit, h.transport, h.heard, by rw [judged, lastHeard]; exact h.stream, h.state⟩

end Reflects

/-- What is known after notices reflects them. -/
theorem reflects_after (staleAfter : Span) (notices : List Notice) :
    Reflects staleAfter notices.reverse ((startWithin staleAfter).after notices) := by
  induction notices using List.reverseRecOn with
  | nil => exact .startWithin staleAfter
  | append_singleton notices n ih =>
    rw [List.reverse_append, after, List.foldl_append]
    exact ih.hear n

/-! ## What is told -/

theorem refresh_snd (l : Liveness) :
    l.refresh.2 = if l.refresh.1.state = l.state then none else some l.refresh.1.state := by
  rw [refresh_fst]
  unfold refresh
  dsimp only
  split <;> rfl

/-- The verdict is told when it has changed, and only then. -/
theorem hear_snd (l : Liveness) (n : Notice) :
    (l.hear n).2 = if (l.hear n).1.state = l.state then none else some (l.hear n).1.state := by
  cases n with
  | transport status => exact refresh_snd _
  | heartbeat now =>
    simp only [hear, look]
    split
    · exact refresh_snd _
    · exact (if_pos rfl).symm
  | poll now =>
    simp only [hear, look]
    split
    · exact refresh_snd _
    · exact (if_pos rfl).symm

theorem getD_hear_snd (l : Liveness) (n : Notice) :
    (l.hear n).2.getD l.state = (l.hear n).1.state := by
  rw [hear_snd]
  split
  · next h => exact h.symm
  · rfl

/-- A listener has the verdict at all times. -/
theorem replay_told (l : Liveness) (notices : List Notice) :
    replay l.state (l.told notices) = l.verdicts notices := by
  induction notices generalizing l with
  | nil => rfl
  | cons n rest ih => rw [told, replay, getD_hear_snd, ih, verdicts]

/-- What is told is never what was told before it. -/
theorem isChain_told (l : Liveness) (notices : List Notice) :
    (l.state :: (l.told notices).filterMap id).IsChain (· ≠ ·) := by
  induction notices generalizing l with
  | nil => exact .singleton _
  | cons n rest ih =>
    have later := ih (l.hear n).1
    by_cases same : (l.hear n).1.state = l.state
    · have silent : (l.hear n).2 = none := by rw [hear_snd, if_pos same]
      rw [told, List.filterMap_cons_none (f := id) silent, ← same]
      exact later
    · have spoken : (l.hear n).2 = some (l.hear n).1.state := by rw [hear_snd, if_neg same]
      rw [told, List.filterMap_cons_some (f := id) spoken]
      exact .cons_cons (Ne.symm same) later

/-! ## The verdict -/

/-- **The verdict of a past**, whatever the notices and their times. It is
offline or connecting with the last status; on an open transport it says
whether the last heartbeat was too old when it was last judged, and it is
connecting while nothing has been judged. A transport that is not open
waits for a judgement. At every notice the verdict is told if it has
changed and is silent otherwise, so that what is told, taken over one by
one from `connecting`, is the verdict throughout and never the same twice
in a row. -/
theorem verdict_after (staleAfter : Span) (notices : List Notice) :
    let l := (startWithin staleAfter).after notices
    let past := notices.reverse
    let told := (startWithin staleAfter).told notices
    l.state = verdictOf staleAfter (lastStatus past) (lastJudged past) (lastHeard past) ∧
    l.transport = lastStatus past ∧
    (l.transport ≠ .opened → l.stream = .waiting) ∧
    (∀ n, (l.hear n).2 =
      if (l.hear n).1.state = l.state then none else some (l.hear n).1.state) ∧
    replay .connecting told = (startWithin staleAfter).verdicts notices ∧
    (.connecting :: told.filterMap id).IsChain (· ≠ ·) := by
  intro l past told
  have h : Reflects staleAfter past l := reflects_after staleAfter notices
  refine ⟨?_, h.transport, fun notOpen => ?_, hear_snd l,
    replay_told (startWithin staleAfter) notices, isChain_told (startWithin staleAfter) notices⟩
  · rw [h.state, h.transport, h.stream, derive_shown]
  · rw [h.stream, lastJudged_of_not_open (h.transport ▸ notOpen)]
    rfl

/-- **A poll before the transport opens judges nothing.** A heartbeat was
heard, the transport was closed, a poll came, and the transport opened
again: nothing has been judged since, and the verdict is connecting. Had
the poll counted, the heartbeat would be fresh and the stream live. -/
theorem poll_before_opening_judges_nothing :
    let notices : List Notice :=
      [.transport .opened, .heartbeat 0, .transport .closed, .poll 1, .transport .opened]
    let past := notices.reverse
    ((startWithin (.ofMillis 10000)).after notices).state = .connecting ∧
    verdictOf (.ofMillis 10000) (lastStatus past) (lastLooked past) (lastHeard past) = .live := by
  decide

end AttackMap.Liveness
