import AttackMap.Yaml.Token

/-!
# YAML trees

The tree of a text that holds one document. Where a mapping or a list was
written in brackets leaves no trace in it, nor do names and the tags of
collections. A name stands for the node it was given to.
-/

namespace AttackMap

/-- A YAML document as a tree. -/
inductive Yaml where
  | scalar (s : Yaml.Scalar) (tag : Option String)
  | sequence (items : List Yaml)
  | mapping (entries : List (Yaml × Yaml))
  deriving Inhabited

namespace Yaml

/-- What stands where nothing was written. -/
def nothing : Yaml := .scalar ⟨.plain, ""⟩ none

namespace Parser

/-- What the names of a document stand for so far. -/
structure Names where
  /-- The handles of tags. -/
  handles : List (String × String)
  /-- The named nodes, the latest first. -/
  nodes : List (String × Yaml)

/-- A node gets a name. -/
def Names.give (names : Names) (name : String) (y : Yaml) : Names :=
  { names with nodes := (name, y) :: names.nodes }

/-- What a tag stands for; none if its handle stands for nothing. -/
def Names.tag? (names : Names) (t : Tag) : Option String :=
  if t.handle.isEmpty then some t.suffix
  else (names.handles.lookup t.handle).map (· ++ t.suffix)

/-- A part of a tree, the tokens after it, and the names known then. -/
abbrev Part (α : Type) := α × List Token × Names

/-- Whether the next token is one of a list; the end of the text counts as
none of them. -/
def next (ts : List Token) (among : List Token) : Bool := ts.head?.any among.contains

/-- The anchor and the tag before a node, in either order. -/
def properties (ts : List Token) : Option String × Option Tag × List Token :=
  match ts with
  | .anchor a :: .tag t :: r => (some a, some t, r)
  | .tag t :: .anchor a :: r => (some a, some t, r)
  | .anchor a :: r => (some a, none, r)
  | .tag t :: r => (none, some t, r)
  | r => (none, none, r)

mutual

/-- The tag of a scalar. A lone exclamation mark says nothing about it. -/
def scalarTag (tag : Option String) : Option String := tag.filter (· != "!")

/-- A node. In a block context it may be a block collection; after a key a
list may stand without moving in. -/
def node : Nat → Bool → Bool → List Token → Names → Option (Part Yaml)
  | 0, _, _, _, _ => none
  | fuel + 1, block, flush, ts, names =>
    match ts with
    | .alias name :: r => (names.nodes.lookup name).map fun y => (y, r, names)
    | ts => do
      let (anchor, tag, r) := properties ts
      let tag ← match tag with
        | some t => some <$> names.tag? t
        | none => some none
      let known (result : Option (Part Yaml)) : Option (Part Yaml) :=
        result.map fun (y, r, names) =>
          (y, r, anchor.elim names (names.give · y))
      known <| match r with
        | .scalar s :: r => some (.scalar s (scalarTag tag), r, names)
        | .flowSequence :: r => (flowItems fuel true r names).map fun (ys, r) => (.sequence ys, r)
        | .flowMapping :: r => (flowEntries fuel true r names).map fun (es, r) => (.mapping es, r)
        | .item :: _ =>
          if flush then (flushItems fuel r names).map fun (ys, r) => (.sequence ys, r)
          else if anchor.isSome || tag.isSome then some (.scalar ⟨.plain, ""⟩ tag, r, names)
          else none
        | .blockSequence :: rest =>
          if block then (blockItems fuel rest names).map fun (ys, r) => (.sequence ys, r) else none
        | .blockMapping :: rest =>
          if block then (blockEntries fuel rest names).map fun (es, r) => (.mapping es, r) else none
        | _ =>
          if anchor.isSome || tag.isSome then some (.scalar ⟨.plain, ""⟩ tag, r, names) else none

/-- A node, or nothing if the next token is one that ends it. -/
def nodeOr : Nat → List Token → Bool → Bool → List Token → Names → Option (Part Yaml)
  | 0, _, _, _, _, _ => none
  | fuel + 1, ends, block, flush, ts, names =>
    if next ts ends then some (nothing, ts, names) else node fuel block flush ts names

/-- The items of a block list, up to its end. -/
def blockItems : Nat → List Token → Names → Option (Part (List Yaml))
  | 0, _, _ => none
  | fuel + 1, ts, names =>
    match ts with
    | .item :: r => do
      let (y, r, names) ← nodeOr fuel [.item, .blockEnd] true false r names
      let (ys, r, names) ← blockItems fuel r names
      return (y :: ys, r, names)
    | .blockEnd :: r => some ([], r, names)
    | _ => none

/-- The items of a list that did not move in. -/
def flushItems : Nat → List Token → Names → Option (Part (List Yaml))
  | 0, _, _ => none
  | fuel + 1, ts, names =>
    match ts with
    | .item :: r => do
      let (y, r, names) ← nodeOr fuel [.item, .key, .value, .blockEnd] true false r names
      let (ys, r, names) ← flushItems fuel r names
      return (y :: ys, r, names)
    | ts => some ([], ts, names)

/-- The entries of a block mapping, up to its end. -/
def blockEntries : Nat → List Token → Names → Option (Part (List (Yaml × Yaml)))
  | 0, _, _ => none
  | fuel + 1, ts, names =>
    match ts with
    | .key :: r => do
      let (k, r, names) ← nodeOr fuel [.key, .value, .blockEnd] true true r names
      let (v, r, names) ← blockValue fuel r names
      let (es, r, names) ← blockEntries fuel r names
      return ((k, v) :: es, r, names)
    | .blockEnd :: r => some ([], r, names)
    | _ => none

/-- The value of an entry of a block mapping, if it has one. -/
def blockValue : Nat → List Token → Names → Option (Part Yaml)
  | 0, _, _ => none
  | fuel + 1, ts, names =>
    match ts with
    | .value :: r => nodeOr fuel [.key, .value, .blockEnd] true true r names
    | ts => some (nothing, ts, names)

/-- The items of a list in brackets. A single pair needs no brackets of its
own. -/
def flowItems : Nat → Bool → List Token → Names → Option (Part (List Yaml))
  | 0, _, _, _ => none
  | fuel + 1, first, ts, names =>
    match ts with
    | .flowSequenceEnd :: r => some ([], r, names)
    | ts => do
      let ts ← if first then some ts else match ts with
        | .separator :: r => some r
        | _ => none
      match ts with
      | .flowSequenceEnd :: r => some ([], r, names)
      | .key :: r =>
        let ends := [.separator, .flowSequenceEnd]
        let (k, r, names) ← nodeOr fuel (.value :: ends) false false r names
        let (v, r, names) ← flowValue fuel ends r names
        let (ys, r, names) ← flowItems fuel false r names
        return (.mapping [(k, v)] :: ys, r, names)
      | ts =>
        let (y, r, names) ← node fuel false false ts names
        let (ys, r, names) ← flowItems fuel false r names
        return (y :: ys, r, names)

/-- The entries of a mapping in brackets. -/
def flowEntries : Nat → Bool → List Token → Names → Option (Part (List (Yaml × Yaml)))
  | 0, _, _, _ => none
  | fuel + 1, first, ts, names =>
    match ts with
    | .flowMappingEnd :: r => some ([], r, names)
    | ts => do
      let ts ← if first then some ts else match ts with
        | .separator :: r => some r
        | _ => none
      let ends := [.separator, .flowMappingEnd]
      match ts with
      | .flowMappingEnd :: r => some ([], r, names)
      | .key :: r =>
        let (k, r, names) ← nodeOr fuel (.value :: ends) false false r names
        let (v, r, names) ← flowValue fuel ends r names
        let (es, r, names) ← flowEntries fuel false r names
        return ((k, v) :: es, r, names)
      | ts =>
        let (k, r, names) ← node fuel false false ts names
        let (es, r, names) ← flowEntries fuel false r names
        return ((k, nothing) :: es, r, names)

/-- The value of an entry in brackets, if it has one. -/
def flowValue : Nat → List Token → List Token → Names → Option (Part Yaml)
  | 0, _, _, _ => none
  | fuel + 1, ends, ts, names =>
    match ts with
    | .value :: r => nodeOr fuel ends false false r names
    | ts => some (nothing, ts, names)

end

/-- Whether a document ends before these tokens. -/
def endsDocument : List Token → Bool
  | [] | .directive _ :: _ | .documentStart :: _ | .documentEnd :: _ => true
  | _ => false

/-- The node of a document. -/
def root (handles : List (String × String)) (ts : List Token) : Option (Yaml × List Token) :=
  (node (4 * ts.length + 4) true false ts ⟨handles, []⟩).map fun (y, r, _) => (y, r)

/-- The directives before a document. -/
def directives : List Token → List Directive × List Token
  | .directive d :: r => let (ds, rest) := directives r; (d :: ds, rest)
  | ts => ([], ts)

/-- The first document, if there is one, and the tokens after it. Directives
stand only before a mark that starts a document. -/
def document (ts : List Token) : Option (Option Yaml × List Token) := do
  let (ds, rest) := directives ts
  let handles ← Directive.handles? ds
  match rest with
  | .documentStart :: r =>
    if endsDocument r then some (some nothing, r)
    else (root handles r).map fun (y, r) => (some y, r)
  | [] => if ds.isEmpty then some (none, []) else none
  | r => if ds.isEmpty then (root handles r).map fun (y, r) => (some y, r) else none

end Parser

/-- The tree of a text with at most one document; the inner option is empty
for a text without any. -/
def ofText? (s : String) : Option (Option Yaml) := do
  let ts ← tokens? s.toList
  let (y, rest) ← Parser.document ts
  if (rest.dropWhile (· == .documentEnd)).isEmpty then some y else none

end Yaml

end AttackMap
