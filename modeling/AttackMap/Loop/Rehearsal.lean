import AttackMap.Loop.Basic

/-!
# Rehearsals

A whole run of the loop against a scripted server: the stream brings some
frames, the API answers one resync in one of three ways, the user changes
the filter while the first frame is drawn, and at the end, when nothing is
pending any more, perhaps a report is sent and the client is closed.
-/

namespace AttackMap

/-- What the API does with a resync. -/
inductive Api where
  | answers (status : Nat) (body : String)
  /-- The request is read and never answered. -/
  | stalls
  /-- No connection. -/
  | refuses

/-- The script of a run. -/
structure Rehearsal where
  staleAfter : UInt64
  filter : Filter
  /-- What the user sets the filter to while the first frame is drawn. -/
  change : Option Filter
  /-- What the stream brings; none if nothing listens. -/
  frames : Option (List Incoming)
  /-- None if there is no resync. -/
  api : Option Api
  /-- Whether a last report is made. -/
  reports : Bool
  now : Millis

/-- What a run left. -/
structure Outcome where
  loop : Loop
  /-- The windows for which a request reached the API. -/
  requests : List Window
  /-- The messages of the last report. -/
  reported : List Outbound

namespace Rehearsal

/-- What happens because of a deed. -/
def reaction (r : Rehearsal) (first : Bool) : Deed Float → List Happening
  | .drew .. => if first then r.change.toList.map fun f => .call (.setFilter f) else []
  | _ => []

/-- Turns until nothing is pending: the loop then, and the deeds. -/
def settle (r : Rehearsal) : Nat → Bool → Loop → Loop × List (Deed Float)
  | 0, _, l => (l, [])
  | fuel + 1, first, l =>
    match l.turn r.now with
    | (l, .idle) => (l, [])
    | (l, deed) =>
      let l := (r.reaction first deed).foldl Loop.happen l
      let (l, deeds) := r.settle fuel (first && !(deed matches .drew ..)) l
      (l, deed :: deeds)

/-- The signals of the stream. It stays open after its last frame. -/
def signals (r : Rehearsal) : List Signal :=
  match r.frames with
  | none => [.dialed .failed]
  | some frames => .dialed .connected :: frames.map .incoming

/-- As many turns as the signals and the clocks could need. -/
def patience (r : Rehearsal) : Nat := r.signals.length + 16

/-- The answer of the API to a request that was made. -/
def answer (r : Rehearsal) : List Happening :=
  match r.api with
  | some (.answers status body) => [.fetched (Resync.points status body), .queued]
  | some .refuses => [.fetched (.error .unreadable)]
  | some .stalls | none => []

/-- Whether requests reach the API. -/
def reached (r : Rehearsal) : Bool :=
  match r.api with
  | some .refuses | none => false
  | some _ => true

/-- The run. -/
def run (r : Rehearsal) : Outcome :=
  let (l, begun) := r.settle r.patience true (.start r.staleAfter r.filter r.api.isSome)
  let l := (r.signals.map .signal).foldl Loop.happen l
  let (l, _) := r.settle r.patience false l
  let l := r.answer.foldl Loop.happen l
  let (l, _) := r.settle r.patience false l
  let l := if r.reports then l.happen (.strikes .report) else l
  let (l, ended) := r.settle r.patience false l
  let (l, _) := r.settle r.patience false (l.happen (.call .close))
  { loop := l
    requests := if r.reached then begun.filterMap fun
      | .asked window => some window
      | _ => none
    else []
    reported := ended.flatMap fun
      | .reported messages => messages
      | _ => [] }

end Rehearsal

end AttackMap
