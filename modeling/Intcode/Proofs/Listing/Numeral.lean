import Mathlib
import Intcode.Numeral

/-!
What a numeral stands for, said without reading it: the integer that its digits make up, under its
sign. A numeral is read as a word if and only if that integer is in the range of words, and the word
is then that integer. The text of a word is a numeral that stands for it.
-/
namespace Intcode.Numeral

/-- One decimal digit or more, and nothing else. -/
def IsDigits (text : List Char) : Prop :=
  text ≠ [] ∧ ∀ c ∈ text, c.isDigit

/-- One sign or none, then digits, and the integer that they make up together. -/
inductive StandsFor : List Char → Int → Prop where
  | unsigned {digits : List Char} (h : IsDigits digits) :
    StandsFor digits (Nat.ofDigitChars 10 digits 0)
  | plus {digits : List Char} (h : IsDigits digits) :
    StandsFor ('+' :: digits) (Nat.ofDigitChars 10 digits 0)
  | minus {digits : List Char} (h : IsDigits digits) :
    StandsFor ('-' :: digits) (-Nat.ofDigitChars 10 digits 0)

/-- A numeral that stands for an integer in the range of words. -/
def Fits (text : List Char) : Prop :=
  ∃ value, StandsFor text value ∧ -2 ^ 63 ≤ value ∧ value ≤ 2 ^ 63 - 1

namespace Sign

/-- The integer with this sign and this magnitude. -/
def signed : Sign → Nat → Int
  | .plus, magnitude => magnitude
  | .minus, magnitude => -magnitude

theorem apply_eq_ofInt (sign : Sign) (magnitude : Nat) :
    sign.apply magnitude = Int64.ofInt (sign.signed magnitude) := by
  cases sign <;> rfl

theorem le_limit_iff (sign : Sign) (magnitude : Nat) : magnitude ≤ sign.limit ↔
    -2 ^ 63 ≤ sign.signed magnitude ∧ sign.signed magnitude ≤ 2 ^ 63 - 1 := by
  cases sign with
  | plus =>
    simp only [limit, signed]
    omega
  | minus =>
    simp only [limit, signed]
    omega

/-- A magnitude within the limit goes through to the word, and no word has a larger one. -/
theorem apply_eq_iff {sign : Sign} {magnitude : Nat} {word : Word} :
    magnitude ≤ sign.limit ∧ sign.apply magnitude = word ↔
      word.toInt = sign.signed magnitude := by
  rw [apply_eq_ofInt, le_limit_iff]
  constructor
  · rintro ⟨⟨hlow, hhigh⟩, rfl⟩
    exact Int64.toInt_ofInt_of_le hlow (by omega)
  · intro hword
    have hlow := word.le_toInt
    have hhigh := word.toInt_lt
    rw [← hword, Int64.ofInt_toInt]
    exact ⟨⟨hlow, by omega⟩, rfl⟩

end Sign

theorem le_ofDigitChars (digits : List Char) (magnitude : Nat) :
    magnitude ≤ Nat.ofDigitChars 10 digits magnitude := by
  have hpos : 0 < 10 ^ digits.length := Nat.pow_pos (by decide)
  have hgrows := Nat.le_mul_of_pos_left magnitude hpos
  rw [Nat.ofDigitChars_eq_ofDigitChars_zero]
  omega

/-- Stopping at the first digit that takes the magnitude too far rejects no more than looking at the
whole magnitude does, since digits only add to it. -/
theorem readDigits_eq_ok_iff {sign : Sign} {digits : List Char} {magnitude result : Nat}
    (h : magnitude ≤ sign.limit) :
    readDigits sign magnitude digits = .ok result ↔ (∀ c ∈ digits, c.isDigit) ∧
      Nat.ofDigitChars 10 digits magnitude = result ∧ result ≤ sign.limit := by
  induction digits generalizing magnitude with
  | nil =>
    constructor
    · intro hread
      cases hread
      exact ⟨nofun, rfl, h⟩
    · rintro ⟨-, rfl, -⟩
      rfl
  | cons c rest ih =>
    rw [readDigits, List.forall_mem_cons, Nat.ofDigitChars_cons]
    split
    · next hdigit =>
      dsimp only
      split
      · next hnext =>
        rw [ih hnext]
        simp only [hdigit, true_and]
      · next hnext =>
        have hgrows := le_ofDigitChars rest (10 * magnitude + (c.toNat - '0'.toNat))
        constructor
        · nofun
        · rintro ⟨-, rfl, hlimit⟩
          omega
    · next hdigit =>
      constructor
      · nofun
      · rintro ⟨⟨hc, -⟩, -⟩
        exact absurd hc hdigit

theorem readUnsigned_eq_ok_iff {sign : Sign} {digits : List Char} {word : Word} :
    readUnsigned sign digits = .ok word ↔
      IsDigits digits ∧ word.toInt = sign.signed (Nat.ofDigitChars 10 digits 0) := by
  rw [← Sign.apply_eq_iff]
  cases digits with
  | nil =>
    constructor
    · nofun
    · rintro ⟨⟨hnil, -⟩, -⟩
      exact absurd rfl hnil
  | cons c rest =>
    have hread (magnitude : Nat) : readDigits sign 0 (c :: rest) = .ok magnitude ↔ _ :=
      readDigits_eq_ok_iff (Nat.zero_le _)
    change (readDigits sign 0 (c :: rest)).map sign.apply = .ok word ↔ _
    constructor
    · intro hmap
      cases hresult : readDigits sign 0 (c :: rest) with
      | error fault =>
        rw [hresult] at hmap
        cases hmap
      | ok magnitude =>
        obtain ⟨hdigits, rfl, hlimit⟩ := (hread magnitude).mp hresult
        rw [hresult] at hmap
        cases hmap
        exact ⟨⟨nofun, hdigits⟩, hlimit, rfl⟩
    · rintro ⟨⟨-, hdigits⟩, hlimit, rfl⟩
      rw [(hread _).mpr ⟨hdigits, rfl, hlimit⟩]
      rfl

/-- A sign is no digit, so what follows it decides how the rest is read. -/
theorem not_isDigits_of_sign {c : Char} {rest : List Char} (h : c = '+' ∨ c = '-') :
    ¬IsDigits (c :: rest) := by
  rintro ⟨-, hdigits⟩
  have hc := hdigits c List.mem_cons_self
  rcases h with rfl | rfl
  · exact absurd hc (by decide)
  · exact absurd hc (by decide)

/-- Reading gives the word that a numeral stands for, and nothing else is read. -/
theorem read_eq_ok_iff {text : List Char} {word : Word} :
    read text = .ok word ↔ StandsFor text word.toInt := by
  constructor
  · intro hread
    unfold read at hread
    split at hread
    · cases hread
    · obtain ⟨hdigits, hword⟩ := readUnsigned_eq_ok_iff.mp hread
      rw [hword]
      exact .plus hdigits
    · obtain ⟨hdigits, hword⟩ := readUnsigned_eq_ok_iff.mp hread
      rw [hword]
      exact .minus hdigits
    · obtain ⟨hdigits, hword⟩ := readUnsigned_eq_ok_iff.mp hread
      rw [hword]
      exact .unsigned hdigits
  · intro hstands
    generalize hvalue : word.toInt = value at hstands
    cases hstands with
    | plus hdigits => exact readUnsigned_eq_ok_iff.mpr ⟨hdigits, hvalue⟩
    | minus hdigits => exact readUnsigned_eq_ok_iff.mpr ⟨hdigits, hvalue⟩
    | unsigned hdigits =>
      unfold read
      split
      · exact absurd rfl hdigits.1
      · exact absurd hdigits (not_isDigits_of_sign (.inl rfl))
      · exact absurd hdigits (not_isDigits_of_sign (.inr rfl))
      · exact readUnsigned_eq_ok_iff.mpr ⟨hdigits, hvalue⟩

theorem exists_read_eq_ok_iff {text : List Char} :
    (∃ word, read text = .ok word) ↔ Fits text := by
  constructor
  · rintro ⟨word, hread⟩
    have hhigh := word.toInt_lt
    exact ⟨word.toInt, read_eq_ok_iff.mp hread, word.le_toInt, by omega⟩
  · rintro ⟨value, hstands, hlow, hhigh⟩
    have hvalue := Int64.toInt_ofInt_of_le hlow (by omega)
    exact ⟨Int64.ofInt value, read_eq_ok_iff.mpr (hvalue.symm ▸ hstands)⟩

theorem isDigits_toDigits (magnitude : Nat) : IsDigits (Nat.toDigits 10 magnitude) :=
  ⟨Nat.toDigits_ne_nil, fun _ hc => Nat.isDigit_of_mem_toDigits (by decide) (by decide) hc⟩

/-- The text of a word is a numeral for it, the smallest word included. -/
theorem standsFor_text (word : Word) : StandsFor word.text.toList word.toInt := by
  rw [Word.text, Int.repr_eq_if]
  split
  · next hsign =>
    have hstands := StandsFor.unsigned (isDigits_toDigits word.toInt.toNat)
    rw [Nat.ofDigitChars_ten_toDigits, Int.toNat_of_nonneg hsign] at hstands
    rw [Nat.toList_repr]
    exact hstands
  · next hsign =>
    have hstands := StandsFor.minus (isDigits_toDigits (-word.toInt).toNat)
    rw [Nat.ofDigitChars_ten_toDigits, Int.toNat_of_nonneg (by omega), Int.neg_neg] at hstands
    rw [String.toList_append, Nat.toList_repr]
    exact hstands

end Intcode.Numeral
