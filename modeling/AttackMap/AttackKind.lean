import AttackMap.Json.Read

/-!
# Attack kinds

The ten kinds of attack, in the order in which they are displayed, and sets
of them. A set is known by its members; `toList` shows them in display
order, so two sets with the same members show the same list.
-/

namespace AttackMap

inductive AttackKind where
  | web | ddos | intrusion | scanner | anonymizer | bot | malware | phishing | dns | email
  deriving DecidableEq, Repr, Inhabited

namespace AttackKind

/-- Every kind, in display order. -/
def all : List AttackKind :=
  [.web, .ddos, .intrusion, .scanner, .anonymizer, .bot, .malware, .phishing, .dns, .email]

/-- The name of a kind, on the wire and on the screen. -/
def name : AttackKind → String
  | .web => "Web"
  | .ddos => "DDoS"
  | .intrusion => "Intrusion"
  | .scanner => "Scanner"
  | .anonymizer => "Anonymizer"
  | .bot => "Bot"
  | .malware => "Malware"
  | .phishing => "Phishing"
  | .dns => "DNS"
  | .email => "Email"

theorem mem_all (k : AttackKind) : k ∈ all := by cases k <;> decide

/-- Names with what they stand for. -/
def options : List (String × AttackKind) := all.map fun k => (k.name, k)

/-- The kind with a name. -/
def ofName? (s : String) : Option AttackKind := options.lookup s

def reader : Json.Reader AttackKind := Json.Reader.choice options

def toJson (k : AttackKind) : Json := .string k.name

end AttackKind

/-- A set of kinds. -/
structure KindSet where
  mem : AttackKind → Bool

namespace KindSet

instance : Membership AttackKind KindSet := ⟨fun s k => s.mem k = true⟩

instance (k : AttackKind) (s : KindSet) : Decidable (k ∈ s) :=
  inferInstanceAs (Decidable (s.mem k = true))

/-- The set of every kind. -/
def full : KindSet := ⟨fun _ => true⟩

/-- The kinds of a list. -/
def ofList (ks : List AttackKind) : KindSet := ⟨fun k => ks.contains k⟩

/-- The members in display order. -/
def toList (s : KindSet) : List AttackKind := AttackKind.all.filter s.mem

/-- The set with one kind's membership reversed. -/
def toggle (s : KindSet) (k : AttackKind) : KindSet :=
  ⟨fun x => if x = k then !s.mem k else s.mem x⟩

@[ext] theorem ext {s t : KindSet} (h : ∀ k, k ∈ s ↔ k ∈ t) : s = t := by
  cases s with | mk f => cases t with | mk g =>
  congr 1
  funext k
  have := h k
  simp only [Membership.mem] at this
  cases hf : f k <;> cases hg : g k <;> simp_all

theorem mem_ofList {ks : List AttackKind} {k : AttackKind} : k ∈ ofList ks ↔ k ∈ ks := by
  change ks.contains k = true ↔ k ∈ ks
  simp

theorem mem_toList {s : KindSet} {k : AttackKind} : k ∈ s.toList ↔ k ∈ s := by
  change k ∈ AttackKind.all.filter s.mem ↔ s.mem k = true
  simp [AttackKind.mem_all]

theorem mem_toggle {s : KindSet} {k x : AttackKind} :
    x ∈ s.toggle k ↔ if x = k then k ∉ s else x ∈ s := by
  change (if x = k then !s.mem k else s.mem x) = true ↔
    if x = k then ¬(s.mem k = true) else s.mem x = true
  split <;> simp

/-- A set is what its list shows. -/
theorem ofList_toList (s : KindSet) : ofList s.toList = s :=
  ext fun _ => mem_ofList.trans mem_toList

end KindSet

end AttackMap
