/-!
# ASCII letter case

Country codes, URL schemes and identifier marks ignore the case of the
twenty-six ASCII letters and of nothing else: `é` and `É` stay apart.
`Char.toLower` of the core library folds exactly those letters.
-/

namespace AttackMap.Text

/-- The text with ASCII capitals made small. -/
def lower (s : String) : String := String.ofList (s.toList.map Char.toLower)

/-- Whether two texts are equal up to the case of ASCII letters. -/
def sameLetters (s t : String) : Bool := s.toList.map Char.toLower == t.toList.map Char.toLower

theorem sameLetters_refl (s : String) : sameLetters s s = true := by
  simp [sameLetters]

theorem sameLetters_comm (s t : String) : sameLetters s t = sameLetters t s := by
  simp only [sameLetters, Bool.beq_comm]

end AttackMap.Text
