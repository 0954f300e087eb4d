import AbiCalls.Text.Whole

namespace AbiCalls

/-- Digits of a number of any size, with zeros in front or without. -/
structure Decimal (digits : List Char) (n : Nat) : Prop where
  filled : digits ≠ []
  only : ∀ c ∈ digits, c.isDigit
  value : n = Nat.ofDigitChars 10 digits 0

def Denotes (text : String) (n : Nat) : Prop :=
  Decimal text.toList n ∨ ∃ digits, text.toList = '+' :: digits ∧ Decimal digits n

theorem Decimal.unsigned {digits rest : List Char} {n : Nat} (h : Decimal digits n) : digits ≠ '+' :: rest := by
  rintro rfl
  have sign : ('+').isDigit := h.only '+' List.mem_cons_self
  exact absurd sign (by decide)

theorem Denotes.unique {text : String} {n m : Nat} (hn : Denotes text n) (hm : Denotes text m) : n = m := by
  rcases hn with hn | ⟨digits, sign, hn⟩
  · rcases hm with hm | ⟨digits, sign, _⟩
    · rw [hn.value, hm.value]
    · exact absurd sign hn.unsigned
  · rcases hm with hm | ⟨others, sign', hm⟩
    · exact absurd sign hm.unsigned
    · obtain rfl := (List.cons.inj (sign.symm.trans sign')).2
      rw [hn.value, hm.value]

end AbiCalls
