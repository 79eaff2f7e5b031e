import AttackMap.Url.Percent

/-!
# What percent encoding writes

What percent encoding writes is ASCII, and each character of it is one that
encoding leaves as it is (`stays_of_mem_percentEncode`): those it took over,
and the marks that it writes for the others, as long as the set of
characters to encode holds none of the marks (`KeepsMarks`). A text of
characters that stay is not changed (`percentEncode_of_stays`).

A text without a percent sign is decoded to its own bytes, and these spell
the text (`fromUTF8?_percentDecode`).
-/

namespace AttackMap.Url

/-! ## The marks -/

/-- The characters that a byte is written with. -/
def percentMarks : List Char :=
  ['%', '0', '1', '2', '3', '4', '5', '6', '7', '8', '9', 'A', 'B', 'C', 'D', 'E', 'F']

/-- A set of characters to encode that does not hold the marks of encoding. -/
def KeepsMarks (encoded : Char → Bool) : Prop := ∀ c ∈ percentMarks, encoded c = false

instance (encoded : Char → Bool) : Decidable (KeepsMarks encoded) :=
  List.decidableBAll _ _

theorem keepsMarks_inFragment : KeepsMarks inFragment := by decide
theorem keepsMarks_inPath : KeepsMarks inPath := by decide
theorem keepsMarks_inUserInfo : KeepsMarks inUserInfo := by decide
theorem keepsMarks_inSpecialQuery : KeepsMarks inSpecialQuery := by decide

/-- A character that encoding leaves as it is. -/
@[reducible]
def Stays (encoded : Char → Bool) (c : Char) : Prop := c.toNat < 0x80 ∧ encoded c = false

theorem toUpper_hexDigit_mem : ∀ n < 16, (Text.hexDigit n).toUpper ∈ percentMarks := by decide

theorem percentByte_eq (b : UInt8) :
    percentByte b = ['%', (Text.hexDigit (b.toNat / 16 % 16)).toUpper,
      (Text.hexDigit (b.toNat % 16)).toUpper] := rfl

theorem mem_percentMarks_of_mem_percentByte {b : UInt8} {c : Char} (mem : c ∈ percentByte b) :
    c ∈ percentMarks := by
  rw [percentByte_eq] at mem
  simp only [List.mem_cons, List.not_mem_nil, or_false] at mem
  rcases mem with rfl | rfl | rfl
  · decide
  · exact toUpper_hexDigit_mem _ (Nat.mod_lt _ (by decide))
  · exact toUpper_hexDigit_mem _ (Nat.mod_lt _ (by decide))

theorem mem_percentMarks_of_mem_percentChar {c d : Char} (mem : d ∈ percentChar c) :
    d ∈ percentMarks := by
  obtain ⟨b, -, mem⟩ := List.mem_flatMap.mp mem
  exact mem_percentMarks_of_mem_percentByte mem

/-! ## What stays -/

variable {encoded : Char → Bool}

theorem stays_of_mem_percentMarks (keeps : KeepsMarks encoded) {c : Char}
    (mem : c ∈ percentMarks) : Stays encoded c :=
  have low : ∀ c ∈ percentMarks, c.toNat < 0x80 := by simp [percentMarks]
  ⟨low c mem, keeps c mem⟩

theorem percentEncode_cons_of_stays {c : Char} (stays : Stays encoded c) (cs : List Char) :
    percentEncode encoded (c :: cs) = c :: percentEncode encoded cs := by
  rw [percentEncode, List.flatMap_cons, if_pos]
  · rfl
  · simpa [Stays] using stays

theorem percentEncode_cons_of_not_stays {c : Char} (goes : ¬ Stays encoded c) (cs : List Char) :
    percentEncode encoded (c :: cs) = percentChar c ++ percentEncode encoded cs := by
  rw [percentEncode, List.flatMap_cons, if_neg]
  · rfl
  · simpa [Stays] using goes

theorem percentEncode_of_stays {cs : List Char} (stay : ∀ c ∈ cs, Stays encoded c) :
    percentEncode encoded cs = cs := by
  induction cs with
  | nil => rfl
  | cons c rest ih =>
    obtain ⟨stays, stay⟩ := List.forall_mem_cons.mp stay
    rw [percentEncode_cons_of_stays stays, ih stay]

/-- Encoding writes characters that encoding leaves as they are. -/
theorem stays_of_mem_percentEncode (keeps : KeepsMarks encoded) {cs : List Char} {c : Char}
    (mem : c ∈ percentEncode encoded cs) : Stays encoded c := by
  obtain ⟨d, -, mem⟩ := List.mem_flatMap.mp mem
  split at mem
  · next stays =>
    rw [List.mem_singleton.mp mem]
    simpa [Stays] using stays
  · exact stays_of_mem_percentMarks keeps (mem_percentMarks_of_mem_percentChar mem)

/-! ## Nothing to decode -/

theorem percentDecode_of_not_mem {cs : List Char} (free : '%' ∉ cs) :
    percentDecode cs = cs.flatMap String.utf8EncodeChar := by
  induction cs with
  | nil => rfl
  | cons c rest ih =>
    rw [List.mem_cons, not_or] at free
    rw [percentDecode, ih free.2, List.flatMap_cons]
    rintro a b r rfl
    exact absurd rfl free.1

/-- A text without a percent sign is read back from its bytes. -/
theorem fromUTF8?_percentDecode {cs : List Char} (free : '%' ∉ cs) :
    String.fromUTF8? (ByteArray.mk (percentDecode cs).toArray) = some (String.ofList cs) := by
  have bytes : ByteArray.mk (percentDecode cs).toArray = (String.ofList cs).toByteArray := by
    rw [percentDecode_of_not_mem free, String.toByteArray_ofList]
    exact ByteArray.ext List.data_toByteArray.symm
  rw [bytes, String.fromUTF8?, dif_pos (String.ofList cs).isValidUTF8]
  rfl

end AttackMap.Url
