import AbiCalls.Json.Direct
import AbiCalls.Proofs.ByteOrder
import AbiCalls.Proofs.WrittenText

namespace AbiCalls

def EndsField (rest : Input) : Prop :=
  ∃ c after, rest = .char c :: after ∧ (c = ',' ∨ c = '\x7d')

theorem takeDigits_digits {digits : List Char} {rest : Input} (h : ∀ c ∈ digits, c.isDigit)
    (ends : EndsField rest) : takeDigits (Input.ofChars digits ++ rest) = (digits, rest) := by
  induction digits with
  | nil =>
    obtain ⟨c, after, rfl, rfl | rfl⟩ := ends
    · rfl
    · rfl
  | cons d digits ih =>
    have digit : Symbol.digit? (.char d) = some d := if_pos (h d List.mem_cons_self)
    have tail := ih fun c hc => h c (List.mem_cons_of_mem _ hc)
    simp only [Input.ofChars_cons, List.cons_append, takeDigits, digit, tail]

theorem head?_toDigits_ne_zero {n : Nat} (h : 0 < n) : (Nat.toDigits 10 n).head? ≠ some '0' := by
  induction n using Nat.strongRecOn with
  | ind n ih =>
    rcases Nat.lt_or_ge n 10 with small | large
    · have digit : ∀ d < 10, 0 < d → Nat.digitChar d ≠ '0' := by decide
      rw [Nat.toDigits_of_lt_base small]
      simpa using digit n small h
    · rw [Nat.toDigits_of_base_le (by decide) large, List.head?_append_of_ne_nil _ Nat.toDigits_ne_nil]
      exact ih (n / 10) (by omega) (by omega)

theorem toDigits_eq_zero_cons {n : Nat} {cs : List Char} (h : Nat.toDigits 10 n = '0' :: cs) : cs = [] := by
  rcases Nat.eq_zero_or_pos n with rfl | positive
  · rw [Nat.toDigits_zero] at h
    exact (List.cons.inj h).2.symm
  · have first := head?_toDigits_ne_zero positive
    rw [h] at first
    exact absurd rfl first

theorem readSomeDigits_toDigits (atEnd : JsonFault) (n : Nat) {rest : Input} (ends : EndsField rest) :
    readSomeDigits atEnd (Input.ofChars (Nat.toDigits 10 n) ++ rest) = .ok (Nat.toDigits 10 n, rest) := by
  have digits : ∀ c ∈ Nat.toDigits 10 n, c.isDigit := fun c =>
    Nat.isDigit_of_mem_toDigits (by decide) (by decide)
  rw [readSomeDigits, takeDigits_digits digits ends]
  split
  next empty => exact absurd (Prod.mk.inj empty).1 Nat.toDigits_ne_nil
  next empty => exact absurd (Prod.mk.inj empty).1 Nat.toDigits_ne_nil
  next same => cases same; rfl

theorem readWhole_toDigits (atEnd : JsonFault) (n : Nat) {rest : Input} (ends : EndsField rest) :
    readWhole atEnd (Input.ofChars (Nat.toDigits 10 n) ++ rest) = .ok (Nat.toDigits 10 n, rest) := by
  rw [readWhole, readSomeDigits_toDigits atEnd n ends]
  split
  next failed => cases failed
  next zero =>
    have long := toDigits_eq_zero_cons (Prod.mk.inj (Except.ok.inj zero)).1
    cases long
  next same => cases same; rfl

theorem EndsField.readFraction_eq {rest : Input} (ends : EndsField rest) (atEnd : JsonFault) :
    readFraction atEnd rest = .ok (none, rest) := by
  obtain ⟨c, after, rfl, rfl | rfl⟩ := ends
  · rfl
  · rfl

theorem EndsField.readPower_eq {rest : Input} (ends : EndsField rest) (atEnd : JsonFault) :
    readPower atEnd rest = .ok (none, rest) := by
  obtain ⟨c, after, rfl, rfl | rfl⟩ := ends
  · rfl
  · rfl

theorem readNumberText_toDigits (atEnd : JsonFault) (n : Nat) {rest : Input} (ends : EndsField rest) :
    readNumberText atEnd (Input.ofChars (Nat.toDigits 10 n) ++ rest) =
      .ok (⟨Nat.toDigits 10 n, none, none⟩, rest) := by
  have whole := readWhole_toDigits atEnd n ends
  have fraction := ends.readFraction_eq atEnd
  have power := ends.readPower_eq atEnd
  simp only [readNumberText, whole, fraction, power, bind, Except.bind, pure, Except.pure]

theorem readNumber_toDigits {n : Nat} (bound : n < UInt64.size) {rest : Input} (ends : EndsField rest) :
    readNumber false (Input.ofChars (Nat.toDigits 10 n) ++ rest) = .ok (.int n, rest) := by
  have value : NumberText.toJson? false ⟨Nat.toDigits 10 n, none, none⟩ = some (.int n) := by
    simp only [NumberText.toJson?, Nat.ofDigitChars_ten_toDigits, bound, if_true, Bool.false_eq_true,
      if_false]
  rw [readNumber, readNumberText_toDigits _ n ends]
  simp only [value]

theorem readValueWith_digit (readNested : Char → Reader Json) {d : Char} (digit : d.isDigit) (rest : Input) :
    readValueWith readNested (.char d :: rest) = readNumber false (.char d :: rest) := by
  have other : ∀ c : Char, c.isDigit = false → d ≠ c := by
    rintro c plain rfl
    rw [digit] at plain
    cases plain
  have solid : Symbol.isJsonBlank (.char d) = false := by
    simp [Symbol.isJsonBlank, other ' ' rfl, other '\t' rfl, other '\n' rfl, other '\r' rfl]
  rw [readValueWith, skipBlanks_of_solid solid]
  simp only [other 'n' rfl, other 't' rfl, other 'f' rfl, other '-' rfl, digit, if_false, if_true]

theorem readValueWith_int (readNested : Char → Reader Json) {n : Nat} (bound : n < UInt64.size)
    {rest : Input} (ends : EndsField rest) :
    readValueWith readNested (Input.ofChars (Json.int n).chars ++ rest) = .ok (.int n, rest) := by
  have written : (Json.int n).chars = Nat.toDigits 10 n := rfl
  have number := readNumber_toDigits bound ends
  cases digits : Nat.toDigits 10 n with
  | nil => exact absurd digits Nat.toDigits_ne_nil
  | cons d ds =>
    have digit : d.isDigit := Nat.isDigit_of_mem_toDigits (b := 10) (by decide) (by decide)
      (digits ▸ List.mem_cons_self)
    rw [digits, Input.ofChars_cons, List.cons_append] at number
    rw [written, digits, Input.ofChars_cons, List.cons_append, readValueWith_digit readNested digit, number]

/-- A step that takes in a field from its text, if it starts with what has been read before. -/
def TakesField {σ : Type} (step : σ → String → ShapeReader σ) (before : σ) (field : String × Json)
    (after : σ) : Prop :=
  ∀ rest, EndsField rest →
    step before field.1 (.char ':' :: (Input.ofChars field.2.chars ++ rest)) = .ok (after, rest)

inductive TakesFields {σ : Type} (step : σ → String → ShapeReader σ) : σ → List (String × Json) → σ → Prop
  | nil (state : σ) : TakesFields step state [] state
  | cons {before next after : σ} {field : String × Json} {fields : List (String × Json)} :
    TakesField step before field next → TakesFields step next fields after →
    TakesFields step before (field :: fields) after

theorem endsField_fieldsTail (fields : List (String × Json)) (rest : Input) :
    EndsField (Input.ofChars (Json.fieldsTail fields) ++ rest) := by
  cases fields with
  | nil => exact ⟨_, _, rfl, .inr rfl⟩
  | cons field fields => exact ⟨_, _, rfl, .inl rfl⟩

theorem foldFields_first {σ : Type} {step : σ → String → ShapeReader σ} {before next : σ} {name : String}
    {input after rest : Input} (hname : readString input = .ok (name, after))
    (taken : step before name after = .ok (next, rest)) (limit : Nat) :
    foldFields step (limit + 1) true before (.char '"' :: input) = foldFields step limit false next rest := by
  have position : nextField true (.char '"' :: input) = .ok (.name input) := rfl
  simp only [foldFields, position, hname, taken, liftText, bind, Except.bind]

theorem foldFields_later {σ : Type} {step : σ → String → ShapeReader σ} {before next : σ} {name : String}
    {input after rest : Input} (hname : readString input = .ok (name, after))
    (taken : step before name after = .ok (next, rest)) (limit : Nat) :
    foldFields step (limit + 1) false before (.char ',' :: .char '"' :: input) =
      foldFields step limit false next rest := by
  have position : nextField false (.char ',' :: .char '"' :: input) = .ok (.name input) := rfl
  simp only [foldFields, position, hname, taken, liftText, bind, Except.bind]

theorem foldFields_fieldsTail {σ : Type} {step : σ → String → ShapeReader σ} {before after : σ}
    {fields : List (String × Json)} (taken : TakesFields step before fields after) {limit : Nat}
    (enough : fields.length < limit) (rest : Input) :
    foldFields step limit false before (Input.ofChars (Json.fieldsTail fields) ++ rest) =
      .ok (after, rest) := by
  induction taken generalizing limit with
  | nil state =>
    obtain ⟨limit, rfl⟩ := Nat.exists_eq_succ_of_ne_zero (Nat.ne_of_gt enough)
    rfl
  | @cons before next after field fields first others ih =>
    obtain ⟨limit, rfl⟩ := Nat.exists_eq_succ_of_ne_zero (Nat.ne_of_gt (Nat.zero_lt_of_lt enough))
    obtain ⟨name, value⟩ := field
    have own := first _ (endsField_fieldsTail fields rest)
    have tail := ih (Nat.lt_of_succ_lt_succ enough)
    rw [Json.fieldsTail, Input.ofChars_cons, List.cons_append, ofChars_valued,
      foldFields_later (readString_stringText name _) own, tail]

theorem foldFields_written {σ : Type} {step : σ → String → ShapeReader σ} {before after : σ}
    {fields : List (String × Json)} (taken : TakesFields step before fields after) (rest : Input) :
    ∃ cs, (Json.object fields).chars = '\x7b' :: cs ∧
      foldFields step ((Input.ofChars cs ++ rest).length + 1) true before (Input.ofChars cs ++ rest) =
        .ok (after, rest) := by
  cases taken with
  | nil => exact ⟨_, rfl, rfl⟩
  | @cons _ next _ field fields first others =>
    obtain ⟨name, value⟩ := field
    refine ⟨_, rfl, ?_⟩
    have enough := length_lt_valued name value fields rest
    have own := first _ (endsField_fieldsTail fields rest)
    have tail := foldFields_fieldsTail others enough rest
    rw [ofChars_valued] at tail ⊢
    rw [foldFields_first (readString_stringText name _) own, tail]

theorem Symbol.ofBytes_utf8EncodeChar (c : Char) (bytes : List UInt8) :
    ofBytes (String.utf8EncodeChar c ++ bytes) = .char c :: ofBytes bytes := by
  have size : (String.utf8EncodeChar c).length = c.utf8Size := String.length_utf8EncodeChar c
  have least : 0 < c.utf8Size := c.utf8Size_pos
  have most : c.utf8Size ≤ 4 := c.utf8Size_le_four
  have found : ((String.utf8EncodeChar c ++ bytes).take 4).toByteArray.utf8DecodeChar? 0 = some c := by
    rw [List.take_append, List.take_of_length_le (by omega), List.toByteArray_append]
    exact ByteArray.utf8DecodeChar?_utf8EncodeChar_append
  cases encoded : String.utf8EncodeChar c with
  | nil =>
    rw [encoded] at size
    exact absurd size (Nat.ne_of_lt least)
  | cons byte tail =>
    rw [encoded, List.cons_append] at found
    rw [encoded, List.length_cons] at size
    have rest : (tail ++ bytes).drop (c.utf8Size - 1) = bytes := by
      rw [← size, Nat.add_sub_cancel, List.drop_left]
    rw [List.cons_append, ofBytes, found]
    simp only [rest]

theorem Symbol.ofBytes_utf8Bytes (text : String) : ofBytes (utf8Bytes text) = ofText text := by
  rw [utf8Bytes_eq_flatMap, ofText]
  induction text.toList with
  | nil => rw [List.flatMap_nil, ofBytes, List.map_nil]
  | cons c cs ih => rw [List.flatMap_cons, ofBytes_utf8EncodeChar, ih, List.map_cons]

end AbiCalls
