import AttackMap.Event
import AttackMap.Status
import AttackMap.Text.Blank

/-!
# Filters

What the user wants to see. One filter has three readers: the list of
stored events, the map, and the declaration sent to the server. They agree
on kinds and on the least severity (`admits`, `mem_kinds`); the country and
the majors-only switch are looked at by some of them only.

The country is kept as it was entered. What counts is `country`: blanks at
the ends are nothing, and a blank text asks for no country.
-/

namespace AttackMap

open Json

/-- What is shown. -/
structure Filter where
  window : Window
  minSeverity : UInt8
  enabled : KindSet
  majorOnly : Bool
  /-- The country as entered. -/
  entered : Option String

namespace Filter

/-- What is shown before anyone has chosen. -/
def initial : Filter := ⟨.fiveMinutes, 3, .full, false, none⟩

/-! ## Changing a filter -/

/-- Show a kind, or stop showing it. -/
def toggle (f : Filter) (k : AttackKind) : Filter := { f with enabled := f.enabled.toggle k }

/-- A text unless there is nothing but blanks in it. -/
def unlessBlank (s : String) : Option String :=
  let trimmed := Text.trim s
  if trimmed.isEmpty then none else some trimmed

/-- Ask for a country; a blank text asks for none. -/
def setCountry (f : Filter) (s : String) : Filter := { f with entered := unlessBlank s }

/-! ## Asking a filter -/

/-- The country asked for. -/
def country (f : Filter) : Option String := f.entered.bind unlessBlank

/-- The kinds shown, in display order. -/
def kinds (f : Filter) : List AttackKind := f.enabled.toList

def admitsSeverity (f : Filter) (severity : UInt8) : Bool :=
  f.minSeverity ≤ severity && (!f.majorOnly || Event.majorSeverity ≤ severity)

/-- The test on kind and severity. -/
def admits (f : Filter) (e : Event) : Bool := e.kind ∈ f.enabled && f.admitsSeverity e.severity

/-- The test on the country of the target. -/
def matchesCountry (f : Filter) (e : Event) : Bool :=
  match f.country with
  | none => true
  | some wanted => e.dst.country.any fun actual => Text.sameLetters (Text.trim actual) wanted

theorem mem_kinds {f : Filter} {k : AttackKind} : k ∈ f.kinds ↔ k ∈ f.enabled := KindSet.mem_toList

/-! ## The stored form -/

/-- How a filter is read; every field may be left out. -/
def record : Record Filter :=
  Filter.mk <$> .defaulted "window" Window.reader initial.window
    <*> .defaulted "min_severity" .uint8 initial.minSeverity
    <*> .defaulted "enabled" (fun s j => KindSet.ofList <$> Reader.list AttackKind.reader s j)
      initial.enabled
    <*> .defaulted "major_only" .bool initial.majorOnly
    <*> .nullable "country" .string

def toJson (f : Filter) : Json :=
  .object [("window", .string f.window.name), ("min_severity", .ofNat f.minSeverity.toNat),
    ("enabled", .ofList AttackKind.toJson f.kinds), ("major_only", .bool f.majorOnly),
    ("country", .ofOption .string f.entered)]

end Filter

end AttackMap
