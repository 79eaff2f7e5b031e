import AttackMap.Filter
import AttackMap.Yaml.Node

/-!
# Filter presets

A filter as its user writes it down: a YAML mapping from the names of its
fields. Fields left out are as at the start, fields that no filter has are
passed over, and a field may stand once only.

Only plain texts are numbers or truth values, and blocks of kept lines that
are tagged as such. Names and the country may be written in any way; the
country is absent where a plain text says so. A name may also be a tag of
its own, on nothing.
-/

namespace AttackMap.Filter.Preset

/-- The digits of a number in a base, at least one. -/
def digits? (base : Nat) (cs : List Char) : Option Nat :=
  if cs.isEmpty then none else Text.number? base cs

/-- A whole number: decimal, or in the base that its first two characters
name. Zeros in front make a decimal number a text. -/
def natural? (cs : List Char) : Option Nat :=
  let unsigned := match cs with
    | '+' :: r => r
    | cs => cs
  let decimal :=
    if 1 < unsigned.length ∧ unsigned.head? = some '0' then none else digits? 10 unsigned
  match unsigned with
  | '0' :: 'x' :: r => digits? 16 r
  | '0' :: 'o' :: r => digits? 8 r
  | '0' :: 'b' :: r => digits? 2 r
  | _ => decimal

/-- A tag of the language itself. -/
def languageTag (name : String) : String := "tag:yaml.org,2002:" ++ name

/-- Whether a scalar is written so that it may be something else than text. -/
def mayMean (name : String) (s : Yaml.Scalar) (tag : Option String) : Bool :=
  s.style = .plain || (s.style = .literal && tag == some (languageTag name))

/-- Whether a text says that there is nothing. -/
def isNull (text : String) : Bool := ["~", "null", "Null", "NULL"].contains text

/-- Whether nothing was written. -/
def isNothing (s : Yaml.Scalar) : Bool := s.style = .plain && s.text.isEmpty

/-- A severity. -/
def severity? : Yaml → Option UInt8
  | .scalar s tag => do
    let n ← natural? s.text.toList
    if mayMean "int" s tag ∧ n < 256 then some (UInt8.ofNat n) else none
  | _ => none

/-- A truth value. -/
def bool? : Yaml → Option Bool
  | .scalar s tag =>
    if !mayMean "bool" s tag then none
    else if ["true", "True", "TRUE"].contains s.text then some true
    else if ["false", "False", "FALSE"].contains s.text then some false
    else none
  | _ => none

/-- The name that a tag of one's own spells. -/
def ownTag? (tag : String) : Option String :=
  match tag.toList with
  | ['!'] => some tag
  | '!' :: r => some (String.ofList r)
  | _ => none

/-- One of several names. -/
def choice? {α : Type} (options : List (String × α)) : Yaml → Option α
  | .scalar s tag =>
    match tag.bind ownTag? with
    | some name =>
      if isNothing s || (s.style = .plain && isNull s.text) then options.lookup name else none
    | none => options.lookup s.text
  | _ => none

/-- A list of kinds. What was not written is an empty list. -/
def kinds? : Yaml → Option KindSet
  | .sequence items => KindSet.ofList <$> items.mapM (choice? AttackKind.options)
  | .scalar s _ => if isNothing s then some (.ofList []) else none
  | .mapping _ => none

/-- A country, or none. -/
def country? : Yaml → Option (Option String)
  | .scalar s tag =>
    if s.style ≠ .plain then some (some s.text)
    else match tag with
      | some t =>
        if t ≠ languageTag "null" then some (some s.text)
        else if isNull s.text then some none
        else none
      | none => some (if s.text.isEmpty || isNull s.text then none else some s.text)
  | _ => none

/-- The values of the fields, each with its name. -/
def fields? : List (Yaml × Yaml) → Option (List (String × Yaml))
  | [] => some []
  | (.scalar s _, v) :: r => (fields? r).map ((s.text, v) :: ·)
  | _ :: _ => none

/-- A field that may be left out and may not stand twice. -/
def field? {α : Type} (fields : List (String × Yaml)) (name : String) (read : Yaml → Option α)
    (d : α) : Option α :=
  match fields.filter (·.1 == name) with
  | [] => some d
  | [(_, v)] => read v
  | _ => none

/-- The filter of a document. -/
def ofYaml? : Yaml → Option Filter
  | .mapping entries => do
    let fields ← fields? entries
    return {
      window := ← field? fields "window" (choice? Window.options) initial.window
      minSeverity := ← field? fields "min_severity" severity? initial.minSeverity
      enabled := ← field? fields "enabled" kinds? initial.enabled
      majorOnly := ← field? fields "major_only" bool? initial.majorOnly
      entered := ← field? fields "country" country? initial.entered }
  | .scalar s _ => if isNothing s then some initial else none
  | .sequence _ => none

/-- The filter of a text. A text without a document leaves all fields out. -/
def ofText? (s : String) : Option Filter := do
  match ← Yaml.ofText? s with
  | none => some initial
  | some y => ofYaml? y

end AttackMap.Filter.Preset
