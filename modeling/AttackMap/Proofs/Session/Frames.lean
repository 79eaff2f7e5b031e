import AttackMap.Proofs.Session.Moves

/-!
# What becomes of a frame

A frame that comes over an open connection has a message, or carries data
without one, or carries no data, or ends the connection. The first kind is
told to the owner, the second counted, the third passed over. None is lost:
of any frames, those told and those counted are together those that carry
data (`length_messages_add`).

A request reads until it has something to tell, so it may pass over any
number of frames, and it may be given up in between. So the law is first
one about a single move (`frame_told`) and then, by induction, about a whole
run, reconnecting and closing included (`frames_after`). The count of
malformed frames is read by nobody: sessions that differ in it alone go on
alike (`recount_after`), which is why a malformed frame changes nothing for
those that come after it.
-/

namespace AttackMap

/-! ## Kinds of frames -/

namespace Incoming

/-- Whether a frame carries data. -/
def isData : Incoming → Bool
  | .text _ | .binary _ => true
  | .control | .close | .ended | .readError => false

/-- Whether a frame ends the connection. -/
def ends : Incoming → Bool
  | .close | .ended | .readError => true
  | .text _ | .binary _ | .control => false

/-- The text in a frame: its own, or the one that its bytes spell. -/
def text? : Incoming → Option String
  | .text s => some s
  | .binary bytes => String.fromUTF8? bytes
  | .control | .close | .ended | .readError => none

/-- The message in a frame. -/
def message? (f : Incoming) : Option Inbound :=
  f.text?.bind fun text => (Inbound.decode text).toOption

/-- A frame that carries data and no message. -/
def isMalformed (f : Incoming) : Bool := f.isData && f.message?.isNone

theorem isData_of_message? {f : Incoming} {m : Inbound} (has : f.message? = some m) :
    f.isData = true := by
  cases f with
  | text | binary => rfl
  | control | close | ended | readError => cases has

/-- Bytes that spell a text are as good as the text. -/
theorem text?_toUTF8 (text : String) : (binary text.toUTF8).text? = some text := by
  rw [text?, String.fromUTF8?, String.toUTF8_eq_toByteArray, dif_pos text.isValidUTF8]
  rfl

/-- **No frame is lost.** The messages and the malformed frames are together
the frames that carry data. -/
theorem length_messages_add (frames : List Incoming) :
    (frames.filterMap message?).length + frames.countP isMalformed = frames.countP isData := by
  induction frames with
  | nil => rfl
  | cons f rest ih =>
    cases has : f.message? with
    | some m =>
      have data := isData_of_message? has
      have sound : f.isMalformed = false := by
        rw [isMalformed, has, Option.isNone_some, Bool.and_false]
      rw [List.filterMap_cons_some has, List.length_cons, List.countP_cons_of_pos data,
        List.countP_cons_of_neg (by rw [sound]; exact Bool.false_ne_true), ← ih]
      omega
    | none =>
      have same : f.isMalformed = f.isData := by
        rw [isMalformed, has, Option.isNone_none, Bool.and_true]
      rw [List.filterMap_cons_none has, List.countP_cons, List.countP_cons, same, ← ih]
      omega

end Incoming

namespace Session

/-! ## One frame -/

/-- The session with so many more malformed frames. -/
def counting (s : Session) (n : Nat) : Session :=
  { s with malformed := .nearest (s.malformed.toNat + n) }

theorem counting_zero (s : Session) : s.counting 0 = s := by
  have same : Tally.nearest (s.malformed.toNat + 0) = s.malformed := by
    apply UInt64.toNat_inj.mp
    rw [Tally.toNat_nearest, Nat.add_zero]
    exact Nat.min_eq_left (Nat.le_of_lt_succ s.malformed.toNat_lt)
  rw [counting, same]

theorem counting_counting (s : Session) (m n : Nat) :
    (s.counting m).counting n = s.counting (m + n) := by
  have same : Tally.nearest ((Tally.nearest (s.malformed.toNat + m)).toNat + n) =
      Tally.nearest (s.malformed.toNat + (m + n)) := by
    apply UInt64.toNat_inj.mp
    rw [Tally.toNat_nearest, Tally.toNat_nearest, Tally.toNat_nearest]
    omega
  rw [counting, counting, counting, same]

theorem toNat_malformed_counting (s : Session) (n : Nat) :
    (s.counting n).malformed.toNat = min (s.malformed.toNat + n) Tally.greatest :=
  Tally.toNat_nearest _

/-- A text is a message to tell or one more malformed frame. -/
theorem receive_eq (s : Session) (text : String) :
    s.receive text =
      (s.counting (if (Inbound.decode text).toOption.isNone then 1 else 0),
        (Inbound.decode text).toOption.map .message) := by
  unfold receive
  cases Inbound.decode text with
  | ok m => exact Prod.ext s.counting_zero.symm rfl
  | error r => rfl

/-- What becomes of a frame that does not end the connection: its message is
told, and it is counted if it is malformed. -/
theorem read_eq (s : Session) {f : Incoming} (goes : f.ends = false) :
    s.read f = (s.counting (if f.isMalformed then 1 else 0), f.message?.map .message) := by
  cases f with
  | text t => exact s.receive_eq t
  | binary bytes =>
    rw [read, Incoming.isMalformed, Incoming.message?, Incoming.text?]
    cases String.fromUTF8? bytes with
    | some t => exact s.receive_eq t
    | none => rfl
  | control => exact Prod.ext s.counting_zero.symm rfl
  | close | ended | readError => cases goes

/-- A frame that ends the connection is neither told nor counted. -/
theorem malformed_read_of_ends (s : Session) {f : Incoming} (ends : f.ends = true) :
    (s.read f).1.malformed = s.malformed ∧ (s.read f).2 = some (.status .closed) := by
  cases f with
  | close | ended | readError => exact ⟨rfl, rfl⟩
  | text | binary | control => cases ends

/-! ## Requests one after the other -/

/-- So many requests, each made when the one before is answered or given up:
the events that they bring, the session and the signals that are left. -/
def requests (s : Session) (signals : List Signal) : Nat → List SessionEvent × Session × List Signal
  | 0 => ([], s, signals)
  | n + 1 =>
    let (s, reply, rest) := s.next signals
    let (events, last) := s.requests rest n
    (reply.event?.toList ++ events, last)

variable {s : Session}

/-- On an open connection a request waits for a frame. -/
theorem next_of_opened (opened : s.machine.state = .opened) (held : s.socket = true)
    (signals : List Signal) : s.next signals = s.listen signals := by
  rw [next, ask, opened, held]
  rfl

/-- A frame answers the request that waits for it, or the request goes on with
the frames behind it. -/
theorem next_incoming (opened : s.machine.state = .opened) (held : s.socket = true)
    {f : Incoming} (goes : f.ends = false) (rest : List Signal) :
    s.next (.incoming f :: rest) =
      match f.message? with
      | some m => (s, .event (.message m), rest)
      | none => (s.counting (if f.isMalformed then 1 else 0)).next rest := by
  have heard : s.hear (.incoming f) = s.read f := by
    unfold hear
    rw [opened]
  rw [next_of_opened opened held, listen, heard, s.read_eq goes]
  cases has : f.message? with
  | some m =>
    have sound : f.isMalformed = false := by
      rw [Incoming.isMalformed, has, Option.isNone_some, Bool.and_false]
    rw [sound, if_neg Bool.false_ne_true, s.counting_zero]
    rfl
  | none => exact (next_of_opened (s := s.counting _) opened held rest).symm

/-- Where there is nothing to read every request is given up. -/
theorem requests_nil (opened : s.machine.state = .opened) (held : s.socket = true) (n : Nat) :
    s.requests [] n = ([], s, []) := by
  have waits : s.next [] = (s, .pending, []) := next_of_opened opened held []
  induction n with
  | zero => rfl
  | succ n ih =>
    rw [requests, waits]
    dsimp only
    rw [ih]
    rfl

/-- **Requests on an open connection.** As long as no frame ends it, they bring
the messages of the frames, one each and in order; a request more than there
are messages has read all frames, and has changed nothing but the count. -/
theorem requests_frames (opened : s.machine.state = .opened) (held : s.socket = true)
    (frames : List Incoming) (go : ∀ f ∈ frames, f.ends = false) (n : Nat) :
    (s.requests (frames.map .incoming) n).1 =
        ((frames.filterMap Incoming.message?).take n).map .message ∧
      ((frames.filterMap Incoming.message?).length < n →
        (s.requests (frames.map .incoming) n).2 =
          (s.counting (frames.countP Incoming.isMalformed), [])) := by
  induction frames generalizing s n with
  | nil =>
    rw [List.map_nil, requests_nil opened held, List.filterMap_nil, List.take_nil]
    exact ⟨rfl, fun _ => by rw [List.countP_nil, s.counting_zero]⟩
  | cons f rest ih =>
    obtain ⟨goes, others⟩ := List.forall_mem_cons.mp go
    cases n with
    | zero => exact ⟨rfl, fun none => absurd none (Nat.not_lt_zero _)⟩
    | succ n =>
      have reads := next_incoming opened held goes (rest.map .incoming)
      cases has : f.message? with
      | some m =>
        obtain ⟨told, last⟩ := ih opened held others n
        have sound : f.isMalformed = false := by
          rw [Incoming.isMalformed, has, Option.isNone_some, Bool.and_false]
        rw [has] at reads
        have next : s.requests ((f :: rest).map .incoming) (n + 1) =
            (.message m :: (s.requests (rest.map .incoming) n).1,
              (s.requests (rest.map .incoming) n).2) := by
          rw [List.map_cons, requests, reads]
          rfl
        rw [next, List.filterMap_cons_some has, List.take_succ_cons, List.map_cons,
          List.length_cons, List.countP_cons_of_neg (by rw [sound]; exact Bool.false_ne_true)]
        exact ⟨congrArg (.message m :: ·) told, fun more => last (Nat.lt_of_succ_lt_succ more)⟩
      | none =>
        -- the same request reads on
        have next : s.requests ((f :: rest).map .incoming) (n + 1) =
            (s.counting (if f.isMalformed then 1 else 0)).requests (rest.map .incoming)
              (n + 1) := by
          rw [has] at reads
          rw [List.map_cons, requests, reads]
          rfl
        obtain ⟨told, last⟩ :=
          ih (s := s.counting (if f.isMalformed then 1 else 0)) opened held others (n + 1)
        rw [next, List.filterMap_cons_none has]
        refine ⟨told, fun more => (last more).trans ?_⟩
        rw [counting_counting, List.countP_cons, Nat.add_comm]

/-! ## Runs -/

/-- The messages among events. -/
def messages (events : List SessionEvent) : List Inbound :=
  events.filterMap fun
    | .message m => some m
    | .status _ => none

theorem messages_append (events more : List SessionEvent) :
    messages (events ++ more) = messages events ++ messages more :=
  List.filterMap_append

namespace Conversation

/-- The frame that a move brings: one that comes while a request waits on an
open connection. -/
def frame? (c : Conversation) : Move → Option Incoming
  | .tell (.incoming f) => if c.waiting && c.session.isOpen then some f else none
  | _ => none

/-- The frames that moves bring. -/
def frames (c : Conversation) : List Move → List Incoming
  | [] => []
  | m :: rest => (c.frame? m).toList ++ (c.move m).1.frames rest

end Conversation

/-- What a signal other than a frame does tells no message and counts nothing. -/
theorem hear_of_not_incoming (s : Session) {signal : Signal}
    (other : ∀ f, signal = .incoming f → s.isOpen = false) :
    (s.hear signal).1.malformed = s.malformed ∧ messages (s.hear signal).2.toList = [] := by
  unfold hear
  split
  · next outcome _ => cases outcome <;> exact ⟨rfl, rfl⟩
  · exact ⟨rfl, rfl⟩
  · next f opened =>
    have shut := other f rfl
    rw [isOpen, opened] at shut
    cases shut
  · exact ⟨rfl, rfl⟩

/-- Asking tells no message and counts nothing. -/
theorem malformed_ask (s : Session) :
    s.ask.1.malformed = s.malformed ∧ messages s.ask.2.event?.toList = [] := by
  unfold ask
  split
  · exact ⟨rfl, rfl⟩
  · exact ⟨rfl, rfl⟩
  · split <;> exact ⟨rfl, rfl⟩
  · exact ⟨rfl, rfl⟩
  · split <;> exact ⟨rfl, rfl⟩

namespace Conversation

/-- A request that waits is told what the session hears. -/
theorem tell_of_waiting {c : Conversation} (waits : c.waiting = true) (signal : Signal) :
    (c.move (.tell signal)).1.session = (c.session.hear signal).1 ∧
      c.event? (.tell signal) = (c.session.hear signal).2 := by
  rw [event?, move, waits, if_pos rfl]
  rcases c.session.hear signal with ⟨s, _ | e⟩
  · exact ⟨rfl, rfl⟩
  · exact ⟨rfl, rfl⟩

/-- A frame that is heard on an open connection. -/
theorem frame_heard {c : Conversation} (waits : c.waiting = true)
    (opened : c.session.machine.state = .opened) (f : Incoming) :
    messages (c.event? (.tell (.incoming f))).toList = [f].filterMap Incoming.message? ∧
      (c.move (.tell (.incoming f))).1.session.malformed =
        (c.session.counting ([f].countP Incoming.isMalformed)).malformed := by
  obtain ⟨session, event⟩ := tell_of_waiting waits (.incoming f)
  have heard : c.session.hear (.incoming f) = c.session.read f := by
    unfold hear
    rw [opened]
  rw [session, event, heard, List.countP_singleton]
  by_cases ends : f.ends = true
  · obtain ⟨still, closed⟩ := c.session.malformed_read_of_ends ends
    have sound : f.isMalformed = false := by
      cases f with
      | close | ended | readError => rfl
      | text | binary | control => cases ends
    have none : f.message? = none := by
      cases f with
      | close | ended | readError => rfl
      | text | binary | control => cases ends
    rw [still, closed, sound, if_neg Bool.false_ne_true, counting_zero,
      List.filterMap_cons_none none]
    exact ⟨rfl, rfl⟩
  · rw [c.session.read_eq (Bool.not_eq_true _ |>.mp ends)]
    refine ⟨?_, rfl⟩
    cases has : f.message? with
    | some m =>
      rw [List.filterMap_cons_some has]
      rfl
    | none =>
      rw [List.filterMap_cons_none has]
      rfl

/-- **One move.** It tells the message of the frame that it brings, and counts
the frame if it is malformed. -/
theorem frame_told (c : Conversation) (m : Move) :
    messages (c.event? m).toList = (c.frame? m).toList.filterMap Incoming.message? ∧
      (c.move m).1.session.malformed =
        (c.session.counting ((c.frame? m).toList.countP Incoming.isMalformed)).malformed := by
  by_cases brings : ∃ f, c.frame? m = some f
  · obtain ⟨f, frame⟩ := brings
    unfold frame? at frame
    split at frame
    · next g =>
      rw [Option.ite_none_right_eq_some, Bool.and_eq_true, isOpen, decide_eq_true_iff] at frame
      obtain ⟨⟨waits, opened⟩, -⟩ := frame
      have same : c.frame? (.tell (.incoming g)) = some g := by
        rw [frame?, waits, isOpen, opened]
        rfl
      rw [same]
      exact frame_heard waits opened g
    · cases frame
  · have none : c.frame? m = none := by
      rw [Option.eq_none_iff_forall_ne_some]
      exact fun f frame => brings ⟨f, frame⟩
    rw [none, Option.toList_none, List.countP_nil, counting_zero, List.filterMap_nil]
    cases m with
    | ask => exact ⟨c.session.malformed_ask.2, c.session.malformed_ask.1⟩
    | giveUp | send | close => exact ⟨rfl, rfl⟩
    | tell signal =>
      cases waits : c.waiting with
      | false =>
        rw [event?, move, waits]
        exact ⟨rfl, rfl⟩
      | true =>
        obtain ⟨session, event⟩ := tell_of_waiting waits signal
        rw [session, event]
        refine (c.session.hear_of_not_incoming fun f same => ?_).symm
        subst same
        rw [frame?, waits, Bool.true_and] at none
        split at none
        · cases none
        · next shut => exact Bool.not_eq_true _ |>.mp shut

/-- **A run.** It tells the messages of the frames that it brings, and counts
the malformed ones. -/
theorem frames_told (c : Conversation) (moves : List Move) :
    messages (c.events moves) = (c.frames moves).filterMap Incoming.message? ∧
      (c.after moves).session.malformed =
        (c.session.counting ((c.frames moves).countP Incoming.isMalformed)).malformed := by
  induction moves generalizing c with
  | nil => exact ⟨rfl, congrArg Session.malformed c.session.counting_zero.symm⟩
  | cons m rest ih =>
    obtain ⟨told, counted⟩ := c.frame_told m
    obtain ⟨later, total⟩ := ih (c.move m).1
    refine ⟨?_, ?_⟩
    · rw [events, messages_append, told, later, frames, List.filterMap_append]
    · rw [after_cons, total, frames, List.countP_append, ← counting_counting]
      exact congrArg (fun k : Tally => Tally.nearest (k.toNat + _)) counted

end Conversation

/-! ## The count is read by nobody -/

/-- The session with another count. -/
def recount (s : Session) (k : Tally) : Session := { s with malformed := k }

theorem ask_recount (s : Session) (k : Tally) :
    (s.recount k).ask = (s.ask.1.recount k, s.ask.2) := by
  obtain ⟨⟨state, failures⟩, dialing, socket, retry, malformed⟩ := s
  cases state with
  | idle | connecting | closed => rfl
  | waiting delay => cases retry <;> rfl
  | opened => cases socket <;> rfl

theorem receive_recount (s : Session) (k : Tally) (text : String) :
    ∃ k', (s.recount k).receive text = ((s.receive text).1.recount k', (s.receive text).2) := by
  unfold receive
  cases Inbound.decode text with
  | ok m => exact ⟨k, rfl⟩
  | error r => exact ⟨k.next, rfl⟩

theorem read_recount (s : Session) (k : Tally) (f : Incoming) :
    ∃ k', (s.recount k).read f = ((s.read f).1.recount k', (s.read f).2) := by
  cases f with
  | text t => exact s.receive_recount k t
  | binary bytes =>
    unfold read
    dsimp only
    cases String.fromUTF8? bytes with
    | some t => exact s.receive_recount k t
    | none => exact ⟨k.next, rfl⟩
  | control | close | ended | readError => exact ⟨k, rfl⟩

theorem hear_recount (s : Session) (k : Tally) (signal : Signal) :
    ∃ k', (s.recount k).hear signal = ((s.hear signal).1.recount k', (s.hear signal).2) := by
  obtain ⟨⟨state, failures⟩, dialing, socket, retry, malformed⟩ := s
  cases state with
  | idle | closed => exact ⟨k, rfl⟩
  | connecting =>
    cases signal with
    | dialed outcome => cases outcome <;> exact ⟨k, rfl⟩
    | due | incoming => exact ⟨k, rfl⟩
  | waiting delay => cases signal <;> exact ⟨k, rfl⟩
  | opened =>
    cases signal with
    | dialed | due => exact ⟨k, rfl⟩
    | incoming f => exact read_recount _ k f

namespace Conversation

/-- The conversation with another count of malformed frames. -/
def recount (c : Conversation) (k : Tally) : Conversation := ⟨c.session.recount k, c.waiting⟩

theorem move_recount (c : Conversation) (k : Tally) (m : Move) :
    ∃ k', (c.recount k).move m = ((c.move m).1.recount k', (c.move m).2) := by
  cases m with
  | ask =>
    refine ⟨k, ?_⟩
    rw [move, recount, ask_recount]
    rfl
  | tell signal =>
    obtain ⟨session, waiting⟩ := c
    cases waiting with
    | false => exact ⟨k, rfl⟩
    | true =>
      obtain ⟨k', same⟩ := session.hear_recount k signal
      refine ⟨k', ?_⟩
      rw [move, move, recount, if_pos rfl, if_pos rfl, same]
      rcases session.hear signal with ⟨s, _ | e⟩
      · rfl
      · rfl
  | giveUp | send | close => exact ⟨k, rfl⟩

/-- Conversations that differ in the count go on alike. -/
theorem after_recount (c : Conversation) (k : Tally) (moves : List Move) :
    (c.recount k).events moves = c.events moves ∧
      ∃ k', (c.recount k).after moves = (c.after moves).recount k' := by
  induction moves generalizing c k with
  | nil => exact ⟨rfl, k, rfl⟩
  | cons m rest ih =>
    obtain ⟨k', moved⟩ := c.move_recount k m
    obtain ⟨told, k'', left⟩ := ih (c.move m).1 k'
    refine ⟨?_, k'', ?_⟩
    · rw [events, event?, moved, told]
      rfl
    · rw [after_cons, moved]
      exact left

/-- A malformed frame leaves the request waiting and everything but the count
as it was. -/
theorem move_malformed {c : Conversation} {f : Incoming} (bad : f.isMalformed = true)
    (brings : c.frame? (.tell (.incoming f)) = some f) :
    c.move (.tell (.incoming f)) = (c.recount c.session.malformed.next, some .pending) := by
  rw [frame?, Option.ite_none_right_eq_some, Bool.and_eq_true, isOpen,
    decide_eq_true_iff] at brings
  obtain ⟨⟨waits, opened⟩, -⟩ := brings
  rw [Incoming.isMalformed, Bool.and_eq_true, Option.isNone_iff_eq_none] at bad
  have goes : f.ends = false := by
    cases f with
    | text | binary => rfl
    | control | close | ended | readError => cases bad.1
  have heard :
      c.session.hear (.incoming f) = (c.session.recount c.session.malformed.next, none) := by
    unfold hear
    rw [opened]
    dsimp only
    rw [c.session.read_eq goes, bad.2, Incoming.isMalformed, bad.1, bad.2]
    rfl
  rw [move, waits, if_pos rfl, heard]
  rw [recount, waits]

end Conversation

/-! ## All of it -/

/-- The frames of a run, accounted for: the run may begin anywhere, and may
connect, fail, wait and connect again as often as it likes. -/
structure Accounted (c : Conversation) (moves : List Move) : Prop where
  /-- The messages told are those of the frames, one each and in order. -/
  told : messages (c.events moves) = (c.frames moves).filterMap Incoming.message?
  /-- The count of malformed frames grows by one for each of them, and by
  nothing else; nothing takes from it. -/
  counted : (c.after moves).session.malformed.toNat =
    min (c.session.malformed.toNat + (c.frames moves).countP Incoming.isMalformed) Tally.greatest
  /-- Below the ceiling, what is told and what is counted are together the
  frames that carry data. -/
  whole : (c.after moves).session.malformed.toNat < Tally.greatest →
    (messages (c.events moves)).length +
        ((c.after moves).session.malformed.toNat - c.session.malformed.toNat) =
      (c.frames moves).countP Incoming.isData
  /-- A malformed frame leaves the request waiting and the session as it was
  but for the count, and whatever comes after it fares as if it had not come. -/
  harmless : ∀ f, f.isMalformed = true →
    (c.after moves).frame? (.tell (.incoming f)) = some f →
      (c.after moves).move (.tell (.incoming f)) =
          ((c.after moves).recount (c.after moves).session.malformed.next, some .pending) ∧
        ∀ more, (c.after moves).events (.tell (.incoming f) :: more) = (c.after moves).events more ∧
          ∃ k, (c.after moves).after (.tell (.incoming f) :: more) =
            ((c.after moves).after more).recount k

theorem accounted (c : Conversation) (moves : List Move) : Accounted c moves := by
  obtain ⟨told, counted⟩ := c.frames_told moves
  have total : (c.after moves).session.malformed.toNat =
      min (c.session.malformed.toNat + (c.frames moves).countP Incoming.isMalformed)
        Tally.greatest := by
    rw [counted, toNat_malformed_counting]
  refine ⟨told, total, ?_, ?_⟩
  · intro below
    rw [total] at below ⊢
    rw [told, ← Incoming.length_messages_add]
    omega
  · intro f bad brings
    have moved := Conversation.move_malformed bad brings
    refine ⟨moved, fun more => ?_⟩
    obtain ⟨same, k, left⟩ :=
      (c.after moves).after_recount (c.after moves).session.malformed.next more
    refine ⟨?_, k, ?_⟩
    · rw [Conversation.events, Conversation.event?, moved, same]
      rfl
    · rw [Conversation.after_cons, moved]
      exact left

/-- **Every frame is accounted for.** Requests made one after the other on an
open connection tell exactly the messages of the frames, and count exactly
those that are malformed, until a frame ends the connection; bytes that spell
a text are treated as that text. In any run, wherever requests are given up
and however often the connection is lost and made again, messages and
malformed frames are the frames that carry data, and no malformed frame
matters to anything that comes after it. -/
theorem frames_accounted_for :
    (∀ (s : Session) (frames : List Incoming), s.Sound → s.machine.state = .opened →
      (∀ f ∈ frames, f.ends = false) → ∀ n,
        (s.requests (frames.map .incoming) n).1 =
            ((frames.filterMap Incoming.message?).take n).map .message ∧
          ((frames.filterMap Incoming.message?).length < n →
            (s.requests (frames.map .incoming) n).2 =
              (s.counting (frames.countP Incoming.isMalformed), []))) ∧
      (∀ (s : Session) (text : String), s.read (.binary text.toUTF8) = s.read (.text text)) ∧
      ∀ (c : Conversation) (moves : List Move), Accounted c moves := by
  refine ⟨?_, ?_, accounted⟩
  · intro s frames sound opened go n
    have held : s.socket = true := by
      rw [sound.socket, isOpen, opened]
      rfl
    exact requests_frames opened held frames go n
  · intro s text
    have same : Incoming.message? (.binary text.toUTF8) = Incoming.message? (.text text) := by
      rw [Incoming.message?, Incoming.text?_toUTF8]
      rfl
    rw [s.read_eq rfl, s.read_eq rfl, Incoming.isMalformed, Incoming.isMalformed, same]
    rfl

/-- A session with an open connection. -/
def connected : Session := { start with machine := ⟨.opened, 0⟩, socket := true }

/-- A heartbeat, a text that is no message, a ping, a heartbeat in bytes, and
bytes that spell nothing. -/
def mixture : List Incoming :=
  [.text "\x7b\"type\":\"hb\",\"seq\":7\x7d", .text "hb", .control,
    .binary "\x7b\"type\":\"hb\",\"seq\":8\x7d".toUTF8, .binary ⟨#[255]⟩]

theorem frames_accounted_for_mixture :
    connected.Sound ∧ connected.machine.state = .opened ∧ (∀ f ∈ mixture, f.ends = false) ∧
      connected.requests (mixture.map .incoming) 3 =
        ([.message (.heartbeat none 7), .message (.heartbeat none 8)],
          connected.counting 2, []) := by
  have sound : connected.Sound := ⟨rfl, rfl, fun busy => nomatch busy⟩
  have go : ∀ f ∈ mixture, f.ends = false := by decide
  obtain ⟨requests, -, -⟩ := frames_accounted_for
  obtain ⟨told, last⟩ := requests connected mixture sound rfl go 3
  have messages : mixture.filterMap Incoming.message? = [.heartbeat none 7, .heartbeat none 8] := by
    decide +kernel
  have malformed : mixture.countP Incoming.isMalformed = 2 := by decide +kernel
  rw [messages] at told last
  rw [malformed] at last
  exact ⟨sound, rfl, go, Prod.ext told (last (by decide))⟩

end Session

end AttackMap
