import AbiCalls.Address
import AbiCalls.Json.Direct
import AbiCalls.Proofs.HexText
import AbiCalls.Proofs.Reading
import AbiCalls.Proofs.WrittenText
import Mathlib.Data.List.TakeWhile

namespace AbiCalls

def Trimmed (cs core : List Char) : Prop :=
  ∃ before after, cs = before ++ core ++ after ∧ (∀ c ∈ before, isBlank c) ∧ (∀ c ∈ after, isBlank c) ∧
    (∀ c ∈ core.head?, isBlank c = false) ∧ ∀ c ∈ core.getLast?, isBlank c = false

theorem isBlank_of_mem_head?_dropWhile {cs : List Char} :
    ∀ c ∈ (cs.dropWhile isBlank).head?, isBlank c = false := by
  intro c hc
  have first := List.head?_dropWhile_not isBlank cs
  rwa [Option.mem_def.mp hc] at first

theorem dropWhile_of_head?_not {cs : List Char} (h : ∀ c ∈ cs.head?, isBlank c = false) :
    cs.dropWhile isBlank = cs := by
  cases cs with
  | nil => rfl
  | cons c cs => rw [List.dropWhile_cons_of_neg (by simp [h c rfl])]

theorem trimmed_trimBlanks (cs : List Char) : Trimmed cs (trimBlanks cs) := by
  let inner := cs.dropWhile isBlank
  have split : inner = trimBlanks cs ++ (inner.reverse.takeWhile isBlank).reverse := by
    rw [trimBlanks, ← List.reverse_append, List.takeWhile_append_dropWhile, List.reverse_reverse]
  refine ⟨cs.takeWhile isBlank, (inner.reverse.takeWhile isBlank).reverse, ?_,
    fun c hc => List.mem_takeWhile_imp hc,
    fun c hc => List.mem_takeWhile_imp (List.mem_reverse.mp hc), ?_, ?_⟩
  · rw [List.append_assoc, ← split, List.takeWhile_append_dropWhile]
  · intro c hc
    have first : c ∈ inner.head? := by
      rw [split, List.head?_append, Option.mem_def.mp hc]
      rfl
    exact isBlank_of_mem_head?_dropWhile c first
  · intro c hc
    rw [trimBlanks, List.getLast?_reverse] at hc
    exact isBlank_of_mem_head?_dropWhile c hc

theorem trimmed_iff {cs core : List Char} : Trimmed cs core ↔ trimBlanks cs = core := by
  constructor
  · rintro ⟨before, after, rfl, leading, trailing, first, last⟩
    rw [trimBlanks, List.append_assoc, List.dropWhile_append_of_pos leading]
    cases core with
    | nil =>
      rw [List.nil_append, List.dropWhile_eq_nil_iff.mpr trailing]
      rfl
    | cons c core =>
      have whole : (c :: core ++ after).dropWhile isBlank = c :: core ++ after := dropWhile_of_head?_not first
      rw [whole, List.reverse_append,
        List.dropWhile_append_of_pos fun d hd => trailing d (List.mem_reverse.mp hd),
        dropWhile_of_head?_not (by rwa [List.head?_reverse]), List.reverse_reverse]
  · rintro rfl
    exact trimmed_trimBlanks cs

theorem trimmed_self {cs : List Char} (h : ∀ c ∈ cs, isBlank c = false) : Trimmed cs cs :=
  ⟨[], [], by simp, nofun, nofun, fun c hc => h c (List.mem_of_mem_head? hc),
    fun c hc => h c (List.mem_of_mem_getLast? hc)⟩

/-- A text of an address, with the digits that follow the mark. -/
def Address.Written (s : String) (digits : List Char) : Prop :=
  ∃ mark ∈ ['x', 'X'], Trimmed s.toList ('0' :: mark :: digits) ∧ digits.length = 40 ∧
    ∀ c ∈ digits, c ∈ hexCharacters

/-- What is wrong with a text that should be an address: no mark before the digits, or else what is wrong
with the bytes that follow it. -/
inductive AddressFault.Of (s : String) : AddressFault → Prop
  | unmarked {core : List Char} : Trimmed s.toList core →
    (∀ mark ∈ ['x', 'X'], ∀ digits, core ≠ '0' :: mark :: digits) → AddressFault.Of s .unmarked
  | badDigits {mark : Char} {digits : List Char} {fault : HexFault} : mark ∈ ['x', 'X'] →
    Trimmed s.toList ('0' :: mark :: digits) →
    HexFault.Of addressSize (digits.flatMap String.utf8EncodeChar) fault →
    AddressFault.Of s (.badDigits fault)

namespace Address

theorem unmarked?_eq_some_iff {cs digits : List Char} :
    unmarked? cs = some digits ↔ ∃ mark ∈ ['x', 'X'], cs = '0' :: mark :: digits := by
  fun_cases unmarked? cs with
  | case1 => simp
  | case2 => simp
  | case3 _ neither other =>
    refine iff_of_false nofun ?_
    rintro ⟨mark, hm, rfl⟩
    rcases List.mem_pair.mp hm with rfl | rfl
    · exact neither _ rfl
    · exact other _ rfl

theorem unmarked?_eq_none_iff {cs : List Char} :
    unmarked? cs = none ↔ ∀ mark ∈ ['x', 'X'], ∀ digits, cs ≠ '0' :: mark :: digits := by
  rw [Option.eq_none_iff_forall_ne_some]
  simp only [ne_eq, unmarked?_eq_some_iff]
  constructor
  · intro h mark hm digits same
    exact h digits ⟨mark, hm, same⟩
  · rintro h digits ⟨mark, hm, same⟩
    exact h mark hm digits same

theorem ofChars_of_unmarked {cs : List Char} (h : unmarked? (trimBlanks cs) = none) :
    ofChars cs = .error .unmarked := by
  rw [ofChars, h]

theorem ofChars_of_error {cs digits : List Char} {fault : HexFault}
    (h : unmarked? (trimBlanks cs) = some digits)
    (failed : bytesOfHex addressSize (digits.flatMap String.utf8EncodeChar) = .error fault) :
    ofChars cs = .error (.badDigits fault) := by
  rw [ofChars, h]
  simp only
  split
  next other same => rw [failed] at same; cases same; rfl
  next bytes same => rw [failed] at same; cases same

theorem ofChars_of_ok {cs digits : List Char} {bytes : List UInt8}
    (h : unmarked? (trimBlanks cs) = some digits)
    (read : bytesOfHex addressSize (digits.flatMap String.utf8EncodeChar) = .ok bytes) :
    ofChars cs = .ok ⟨bytes, length_of_bytesOfHex read⟩ := by
  rw [ofChars, h]
  simp only
  split
  next other same => rw [read] at same; cases same
  next bytes same => rw [read] at same; cases same; rfl

theorem ofText_of_chars {s : String} {a : Address} (h : ofChars s.toList = .ok a) : ofText s = .ok a := by
  rw [ofText, h]

theorem ofText_of_fault {s : String} {fault : AddressFault} (h : ofChars s.toList = .error fault) :
    ofText s = .error (fault.toError s) := by
  rw [ofText, h]

theorem Written.iff_exists_bytes {s : String} {digits : List Char} :
    Written s digits ↔ unmarked? (trimBlanks s.toList) = some digits ∧
      ∃ bytes, bytesOfHex addressSize (digits.flatMap String.utf8EncodeChar) = .ok bytes := by
  rw [unmarked?_eq_some_iff, exists_bytesOfHex_iff]
  simp only [Written, trimmed_iff]
  constructor
  · rintro ⟨mark, hm, core, length, digits⟩
    exact ⟨⟨mark, hm, core⟩, length, digits⟩
  · rintro ⟨⟨mark, hm, core⟩, length, digits⟩
    exact ⟨mark, hm, core, length, digits⟩

theorem Written.unique {s : String} {digits others : List Char} (h : Written s digits)
    (h' : Written s others) : digits = others :=
  Option.some.inj ((iff_exists_bytes.mp h).1.symm.trans (iff_exists_bytes.mp h').1)

theorem ofText_cases (s : String) :
    (∃ digits a, Written s digits ∧ digits.map Char.toLower = hexOfBytes a.bytes ∧ ofText s = .ok a) ∨
      ∃ fault, AddressFault.Of s fault ∧ ofText s = .error (fault.toError s) := by
  cases core : unmarked? (trimBlanks s.toList) with
  | none =>
    exact .inr ⟨.unmarked, .unmarked (trimmed_trimBlanks _) (unmarked?_eq_none_iff.mp core),
      ofText_of_fault (ofChars_of_unmarked core)⟩
  | some digits =>
    cases read : bytesOfHex addressSize (digits.flatMap String.utf8EncodeChar) with
    | error fault =>
      obtain ⟨mark, hm, same⟩ := unmarked?_eq_some_iff.mp core
      exact .inr ⟨.badDigits fault, .badDigits hm (trimmed_iff.mpr same) (HexFault.of_bytesOfHex read),
        ofText_of_fault (ofChars_of_error core read)⟩
    | ok bytes =>
      exact .inl ⟨digits, ⟨bytes, length_of_bytesOfHex read⟩,
        Written.iff_exists_bytes.mpr ⟨core, bytes, read⟩,
        (bytesOfHex_eq_ok_iff.mp read).2, ofText_of_chars (ofChars_of_ok core read)⟩

theorem ofText_eq_ok_iff {s : String} {a : Address} :
    ofText s = .ok a ↔ ∃ digits, Written s digits ∧ digits.map Char.toLower = hexOfBytes a.bytes := by
  constructor
  · intro h
    rcases ofText_cases s with ⟨digits, b, written, same, read⟩ | ⟨fault, -, failed⟩
    · obtain rfl := Except.ok.inj (read.symm.trans h)
      exact ⟨digits, written, same⟩
    · rw [failed] at h
      cases h
  · rintro ⟨digits, written, same⟩
    have read := bytesOfHex_eq_ok_iff.mpr ⟨a.size_eq, same⟩
    exact ofText_of_chars (ofChars_of_ok (Written.iff_exists_bytes.mp written).1 read)

theorem ofText_text (a : Address) : ofText a.text = .ok a := by
  refine ofText_eq_ok_iff.mpr ⟨hexOfBytes a.bytes, ⟨'x', by simp, ?_, ?_, ?_⟩, map_toLower_hexOfBytes _⟩
  · have solid : ∀ c ∈ hexCharacters, isBlank c = false := List.all_iff_forall_prop.mp (by decide)
    rw [text, String.toList_ofList]
    refine trimmed_self fun c hc => ?_
    rcases List.mem_cons.mp hc with rfl | hc
    · rfl
    rcases List.mem_cons.mp hc with rfl | hc
    · rfl
    · exact solid c (mem_hexCharacters_of_mem_hexOfBytes hc)
  · rw [length_hexOfBytes, a.size_eq]
    rfl
  · exact fun c hc => mem_hexCharacters_of_mem_hexOfBytes hc

theorem ofJson_toJson (a : Address) : ofJson a.toJson = .ok a := by
  simp only [ofJson, toJson, Json.asText, bind, Except.bind, ofText_text]

theorem readScalar_of_value {α : Type} {decode : Json → Except Mismatch α} {input rest : Input}
    {value : Json} {a : α} (read : ∀ readNested, readValueWith readNested input = .ok (value, rest))
    (decoded : decode value = .ok a) : readScalar decode input = .ok (a, rest) := by
  rw [readScalar]
  simp only [read, liftText, decoded, liftShape, bind, Except.bind, pure, Except.pure]

end Address

end AbiCalls
