import AttackMap.Filter
import AttackMap.Proofs.Message.Delivery

/-!
# What is stored of a filter

A filter is stored as an object with a member for each field. An object that
tells of some of the fields only, in any order and among members that no
filter has, is read as the filter it tells of, the other fields being as at
the start (`read_of_tells`). That every kind is shown at the start makes no
difference: a list of kinds takes the place of the full set and adds nothing
to it, and it may name a kind as often as it likes.

So what is stored of a filter gives that filter again.
-/

namespace AttackMap.Filter

open Json

/-! ## Fields -/

/-- A field of a filter. -/
inductive Field where
  | window | minSeverity | enabled | majorOnly | country
  deriving DecidableEq

namespace Field

/-- Every field, in the order of declaration. -/
def all : List Field := [.window, .minSeverity, .enabled, .majorOnly, .country]

theorem mem_all (x : Field) : x ∈ all := by cases x <;> decide

/-- The name of a field. -/
def name : Field → String
  | .window => "window"
  | .minSeverity => "min_severity"
  | .enabled => "enabled"
  | .majorOnly => "major_only"
  | .country => "country"

theorem name_inj {x y : Field} : x.name = y.name ↔ x = y := by
  cases x <;> cases y <;> decide

theorem fields_record : record.fields = all.map name := rfl

/-- What is stored of a field, the kinds shown being listed as given. -/
def stored (f : Filter) (kinds : List AttackKind) : Field → Json
  | .window => .string f.window.name
  | .minSeverity => .ofNat f.minSeverity.toNat
  | .enabled => .ofList AttackKind.toJson kinds
  | .majorOnly => .bool f.majorOnly
  | .country => .ofOption .string f.entered

/-- The member of a field. -/
def member (f : Filter) (kinds : List AttackKind) (x : Field) : String × Json :=
  (x.name, x.stored f kinds)

end Field

/-! ## Objects that tell of some fields -/

/-- The filter as far as it is told of, and for the rest as at the start. -/
def only (f : Filter) (told : List Field) : Filter where
  window := if .window ∈ told then f.window else initial.window
  minSeverity := if .minSeverity ∈ told then f.minSeverity else initial.minSeverity
  enabled := if .enabled ∈ told then f.enabled else initial.enabled
  majorOnly := if .majorOnly ∈ told then f.majorOnly else initial.majorOnly
  entered := if .country ∈ told then f.entered else initial.entered

/-- The members of an object that tells of some fields of a filter: the kinds
shown are listed as `kinds`, and others stand among the members of the
fields. -/
structure Tells (f : Filter) (told : List Field) (kinds : List AttackKind)
    (others members : List (String × Json)) : Prop where
  once : told.Nodup
  /-- The kinds stand in some order, and some of them perhaps more than once. -/
  shown : ∀ k, k ∈ kinds ↔ k ∈ f.enabled
  undeclared : ∀ m ∈ others, m.1 ∉ Field.all.map Field.name
  sound : ∀ m ∈ others, m.2.sound = true
  order : members.Perm (told.map (Field.member f kinds) ++ others)

variable {f : Filter} {told : List Field} {kinds : List AttackKind}
  {others members : List (String × Json)}

theorem partsAt_told (once : told.Nodup) (x : Field) :
    partsAt x.name 0 (.object (told.map (Field.member f kinds))) =
      if x ∈ told then [x.stored f kinds] else [] := by
  induction told with
  | nil => rfl
  | cons y rest ih =>
    obtain ⟨notAgain, once⟩ := List.nodup_cons.mp once
    rw [List.map_cons, Field.member]
    by_cases same : y = x
    · subst same
      rw [Record.partsAt_cons_self, ih once, if_neg notAgain, if_pos List.mem_cons_self]
    · have other : x ∈ y :: rest ↔ x ∈ rest := by simp [Ne.symm same]
      rw [Record.partsAt_cons_ne (fun h => same (Field.name_inj.mp h)), ih once]
      simp only [other]

/-- A field that is told of has one member, any other has none. -/
theorem Tells.partsAt_eq (tells : Tells f told kinds others members) (x : Field) :
    partsAt x.name 0 (.object members) = if x ∈ told then [x.stored f kinds] else [] := by
  have lacking : partsAt x.name 0 (.object others) = [] := by
    refine Record.partsAt_of_not_mem (fun mem => ?_) 0
    obtain ⟨m, among, same⟩ := List.mem_map.mp mem
    exact tells.undeclared m among (same ▸ List.mem_map_of_mem x.mem_all)
  have perm : (partsAt x.name 0 (.object members)).Perm
      (if x ∈ told then [x.stored f kinds] else []) := by
    have all := tells.order.filterMap fun m => if m.1 = x.name then some m.2 else none
    rw [List.filterMap_append] at all
    change (partsAt x.name 0 (.object members)).Perm (partsAt x.name 0
      (.object (told.map (Field.member f kinds))) ++ partsAt x.name 0 (.object others)) at all
    rwa [partsAt_told tells.once, lacking, List.append_nil] at all
  split at perm
  · next here => rw [if_pos here, List.perm_singleton.mp perm]
  · next missing => rw [if_neg missing, perm.eq_nil]

/-- A field is read as far as it is told of. -/
theorem Tells.ofMembers {α : Type} (tells : Tells f told kinds others members) (x : Field)
    {s : Stage} {r : Reader α} {a d : α} (value : r s (x.stored f kinds) = .ok a) :
    (Record.defaulted x.name r d).ofMembers s members = .good (if x ∈ told then a else d) := by
  apply Record.ofMembers_defaulted
  have parts := tells.partsAt_eq x
  by_cases here : x ∈ told
  · rw [if_pos here] at parts ⊢
    exact .inl ⟨_, parts, value⟩
  · rw [if_neg here] at parts ⊢
    exact .inr ⟨parts, rfl⟩

theorem ofList_eq_of_mem_iff (same : ∀ k, k ∈ kinds ↔ k ∈ f.enabled) :
    KindSet.ofList kinds = f.enabled :=
  KindSet.ext fun k => KindSet.mem_ofList.trans (same k)

theorem inverts_kinds (s : Stage) (kinds : List AttackKind) :
    (KindSet.ofList <$> Reader.list AttackKind.reader s (.ofList AttackKind.toJson kinds)) =
      .ok (.ofList kinds) := by
  rw [AttackKind.inverts_reader.list s kinds]
  rfl

/-- An object is read as the filter it tells of, wherever it comes from. -/
theorem Tells.read (tells : Tells f told kinds others members) (s : Stage) :
    record.read s (.object members) = .ok (f.only told) := by
  refine Record.read_object ?_ ?_
  · refine Record.ofMembers_seq (Record.ofMembers_seq (Record.ofMembers_seq (Record.ofMembers_seq
      (Record.ofMembers_map _ ?_) ?_) ?_) ?_) ?_
    · exact tells.ofMembers .window (Window.inverts_reader s f.window)
    · exact tells.ofMembers .minSeverity (Reader.uint8_ofNat s f.minSeverity)
    · rw [← ofList_eq_of_mem_iff tells.shown]
      exact tells.ofMembers .enabled (inverts_kinds s kinds)
    · exact tells.ofMembers .majorOnly (Reader.inverts_bool s f.majorOnly)
    · exact tells.ofMembers .country
        (Reader.inverts_string.optional (fun _ => nofun) s f.entered)
  · intro m mem undeclared
    rcases List.mem_append.mp (tells.order.subset mem) with own | other
    · obtain ⟨x, -, rfl⟩ := List.mem_map.mp own
      exact absurd (Field.fields_record ▸ List.mem_map_of_mem x.mem_all) undeclared
    · exact tells.sound m other

/-! ## All of a filter -/

theorem only_all (f : Filter) : f.only Field.all = f := by
  simp only [only, Field.mem_all, if_true]

/-- What is stored of a filter tells of all of it. -/
theorem tells_all (f : Filter) : ∃ members, f.toJson = .object members ∧
    Tells f Field.all f.kinds [] members := by
  refine ⟨Field.all.map (Field.member f f.kinds), rfl, by decide, fun _ => mem_kinds,
    List.forall_mem_nil _, List.forall_mem_nil _, ?_⟩
  rw [List.append_nil]

theorem storable_toJson (f : Filter) : f.toJson.storable = true := by
  have severity : f.minSeverity.toNat < 2 ^ 64 := Nat.lt_trans f.minSeverity.toNat_lt (by decide)
  simp only [toJson, storable, storableMembers, storable_ofNat severity,
    Outbound.storable_kinds, Outbound.storable_country]
  rfl

/-- A text is read as the filter that it tells of. -/
theorem Tells.readBy (tells : Tells f told kinds others members) {text : List Char}
    (spells : Spells text (.object members)) :
    (Document.read text).readBy (record.read .text) = .ok (f.only told) := by
  rw [spells.reads.document, Document.readBy, tells.read]
  rfl

/-- **What is told of a filter is read of it.** An object that tells of some
fields of a filter, held as a tree or written in a text in whatever way, is
read as the filter in those fields and as the first filter in the others. So
the text that is stored of a filter is read as the filter. -/
theorem read_of_tells (tells : Tells f told kinds others members) :
    (∀ s, record.read s (.object members) = .ok (f.only told)) ∧
      (∀ text, Spells text (.object members) →
        (Document.read text).readBy (record.read .text) = .ok (f.only told)) ∧
      (∀ s, record.read s f.toJson = .ok f) ∧
      (Document.read f.toJson.text).readBy (record.read .text) = .ok f := by
  obtain ⟨whole, form, tellsAll⟩ := f.tells_all
  refine ⟨tells.read, fun text spells => tells.readBy spells, fun s => ?_, ?_⟩
  · rw [form, tellsAll.read, only_all]
  · have spells := spells_text f.toJson f.storable_toJson
    rw [form] at spells ⊢
    rw [tellsAll.readBy spells, only_all]

/-- Kinds out of order of which one stands twice, a country that is blank and
a severity, between two notes. -/
def jotted : List (String × Json) :=
  [("note", .array [.null]), ("enabled", .ofList AttackKind.toJson [.web, .ddos, .web]),
    ("country", .string " "), ("min_severity", .ofNat 6), ("note", .string "5m")]

theorem read_of_tells_jotted : ∃ f : Filter,
    Tells f [.enabled, .country, .minSeverity] [.web, .ddos, .web]
        [("note", .array [.null]), ("note", .string "5m")] jotted ∧
      record.read .text (.object jotted) = .ok ⟨.fiveMinutes, 6, f.enabled, false, some " "⟩ ∧
      f.kinds = [.web, .ddos] := by
  have tells : Tells ⟨.oneHour, 6, .ofList [.ddos, .web], true, some " "⟩
      [.enabled, .country, .minSeverity] [.web, .ddos, .web]
      [("note", .array [.null]), ("note", .string "5m")] jotted := by
    refine ⟨by decide, fun k => ?_, by decide, by decide, ?_⟩
    · cases k <;> decide
    · -- the first note goes behind the three members
      exact List.perm_append_comm_assoc [_] [_, _, _] [_]
  exact ⟨_, tells, (read_of_tells tells).1 .text, by decide⟩

end AttackMap.Filter
