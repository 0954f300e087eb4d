import AbiCalls.Text.Hex
import Mathlib.Data.Bool.AllAny
import Mathlib.Data.List.Basic

namespace AbiCalls

def hexCharacters : List Char :=
  ['0', '1', '2', '3', '4', '5', '6', '7', '8', '9', 'a', 'b', 'c', 'd', 'e', 'f',
    'A', 'B', 'C', 'D', 'E', 'F']

def hexDigitValue (c : Char) : Nat :=
  hexCharacters.idxOf c.toLower

def IsHexByte (b : UInt8) : Prop :=
  Char.ofNat b.toNat ∈ hexCharacters

instance (b : UInt8) : Decidable (IsHexByte b) :=
  inferInstanceAs (Decidable (_ ∈ hexCharacters))

theorem hexValue?_eq_none_iff {b : UInt8} : hexValue? b = none ↔ ¬IsHexByte b := by
  have all : ∀ n < 256, (hexValue? (UInt8.ofNat n) = none ↔ Char.ofNat n ∉ hexCharacters) := by
    decide +kernel
  have this := all b.toNat b.toNat_lt
  rwa [UInt8.ofNat_toNat] at this

theorem hexValue?_of_mem : ∀ c ∈ hexCharacters, String.utf8EncodeChar c = [UInt8.ofNat c.toNat] ∧
    hexValue? (UInt8.ofNat c.toNat) = some (hexDigitValue c) :=
  List.all_iff_forall_prop.mp (by decide +kernel)

theorem hexDigitValue_of_mem : ∀ c ∈ hexCharacters,
    hexDigitValue c < 16 ∧ hexDigit (hexDigitValue c) = c.toLower :=
  List.all_iff_forall_prop.mp (by decide +kernel)

theorem mem_of_toLower_mem {c : Char} (h : c.toLower ∈ hexCharacters) : c ∈ hexCharacters := by
  by_cases ascii : c.toNat < 128
  · have all : ∀ n < 128, (Char.ofNat n).toLower ∈ hexCharacters → Char.ofNat n ∈ hexCharacters := by
      decide +kernel
    have this := all c.toNat ascii
    rw [Char.ofNat_toNat] at this
    exact this h
  · have same : c.toLower = c := by
      refine dif_neg fun upper => ascii ?_
      have bound : c.toNat ≤ 90 := upper.2
      omega
    rwa [same] at h

theorem toLower_eq_hexDigit_iff {c : Char} {v : Nat} (h : v < 16) :
    c.toLower = hexDigit v ↔ c ∈ hexCharacters ∧ hexDigitValue c = v := by
  have own : ∀ v < 16, hexDigit v ∈ hexCharacters ∧ hexCharacters.idxOf (hexDigit v) = v := by
    decide +kernel
  constructor
  · intro lower
    exact ⟨mem_of_toLower_mem (lower ▸ (own v h).1), by rw [hexDigitValue, lower, (own v h).2]⟩
  · rintro ⟨hc, rfl⟩
    exact (hexDigitValue_of_mem c hc).2.symm

theorem hexValue?_of_not_ascii {b : UInt8} (h : 128 ≤ b.toNat) : hexValue? b = none := by
  unfold hexValue?
  simp only
  rw [if_neg (by omega), if_neg (by omega), if_neg (by omega)]

theorem utf8EncodeChar_of_not_ascii {c : Char} (h : 128 ≤ c.toNat) :
    ∃ b rest, String.utf8EncodeChar c = b :: rest ∧ 128 ≤ b.toNat := by
  have code : c.val.toNat = c.toNat := rfl
  simp only [String.utf8EncodeChar]
  split_ifs
  · omega
  all_goals
    refine ⟨_, _, rfl, ?_⟩
    rw [UInt8.toNat_ofNat']
    omega

theorem utf8EncodeChar_of_not_mem {c : Char} (h : c ∉ hexCharacters) :
    ∃ b rest, String.utf8EncodeChar c = b :: rest ∧ hexValue? b = none := by
  by_cases ascii : c.toNat < 128
  · have code : c.val.toNat = c.toNat := rfl
    have bound : c.toNat < 256 := by omega
    refine ⟨UInt8.ofNat c.toNat, [], ?_, ?_⟩
    · simp only [String.utf8EncodeChar, code]
      rw [if_pos (by omega)]
    · rwa [hexValue?_eq_none_iff, IsHexByte, UInt8.toNat_ofNat_of_lt' bound, Char.ofNat_toNat]
  · obtain ⟨b, rest, encoded, high⟩ := utf8EncodeChar_of_not_ascii (Nat.le_of_not_lt ascii)
    exact ⟨b, rest, encoded, hexValue?_of_not_ascii high⟩

theorem hexOfBytes_cons (b : UInt8) (bytes : List UInt8) :
    hexOfBytes (b :: bytes) = hexDigit (b.toNat / 16) :: hexDigit (b.toNat % 16) :: hexOfBytes bytes :=
  rfl

theorem length_hexOfBytes (bytes : List UInt8) : (hexOfBytes bytes).length = 2 * bytes.length := by
  induction bytes with
  | nil => rfl
  | cons b bytes ih =>
    rw [hexOfBytes_cons]
    simp only [List.length_cons, ih]
    omega

/-- Two characters stand for a byte if they are digits, and the byte has their values. -/
theorem toLower_pair_iff {c d : Char} {b : UInt8} :
    c.toLower = hexDigit (b.toNat / 16) ∧ d.toLower = hexDigit (b.toNat % 16) ↔
      c ∈ hexCharacters ∧ d ∈ hexCharacters ∧
        b = UInt8.ofNat (16 * hexDigitValue c + hexDigitValue d) := by
  have bound : b.toNat < 256 := b.toNat_lt
  rw [toLower_eq_hexDigit_iff (by omega), toLower_eq_hexDigit_iff (by omega)]
  constructor
  · rintro ⟨⟨hc, high⟩, hd, low⟩
    refine ⟨hc, hd, ?_⟩
    rw [high, low, Nat.div_add_mod, UInt8.ofNat_toNat]
  · rintro ⟨hc, hd, rfl⟩
    have high := (hexDigitValue_of_mem c hc).1
    have low := (hexDigitValue_of_mem d hd).1
    rw [UInt8.toNat_ofNat_of_lt' (by simp only [UInt8.size]; omega)]
    exact ⟨⟨hc, by omega⟩, hd, by omega⟩

theorem bytesOfPairs_cons_of_not_mem {c : Char} (h : c ∉ hexCharacters) (position : Nat) (cs : List Char)
    (bytes : List UInt8) :
    bytesOfPairs position ((c :: cs).flatMap String.utf8EncodeChar) ≠ .ok bytes := by
  obtain ⟨b, rest, encoded, bad⟩ := utf8EncodeChar_of_not_mem h
  rw [List.flatMap_cons, encoded, List.cons_append]
  cases rest ++ cs.flatMap String.utf8EncodeChar with
  | nil => nofun
  | cons d ds => simp [bytesOfPairs, bad]

theorem flatMap_cons_of_mem {c : Char} (h : c ∈ hexCharacters) (cs : List Char) :
    (c :: cs).flatMap String.utf8EncodeChar = UInt8.ofNat c.toNat :: cs.flatMap String.utf8EncodeChar := by
  rw [List.flatMap_cons, (hexValue?_of_mem c h).1, List.singleton_append]

theorem bytesOfPairs_second_of_not_mem {c d : Char} (hc : c ∈ hexCharacters) (hd : d ∉ hexCharacters)
    (position : Nat) (cs : List Char) (bytes : List UInt8) :
    bytesOfPairs position ((c :: d :: cs).flatMap String.utf8EncodeChar) ≠ .ok bytes := by
  obtain ⟨b, rest, encoded, bad⟩ := utf8EncodeChar_of_not_mem hd
  rw [flatMap_cons_of_mem hc, List.flatMap_cons, encoded, List.cons_append]
  simp [bytesOfPairs, (hexValue?_of_mem c hc).2, bad]

theorem bytesOfPairs_pair_eq_ok_iff {position : Nat} {high low : UInt8} {rest bytes : List UInt8} :
    bytesOfPairs position (high :: low :: rest) = .ok bytes ↔
      ∃ h l, hexValue? high = some h ∧ hexValue? low = some l ∧
        ∃ tail, bytesOfPairs (position + 2) rest = .ok tail ∧
          bytes = UInt8.ofNat (16 * h + l) :: tail := by
  rw [bytesOfPairs]
  cases hexValue? high with
  | none => simp
  | some h =>
    cases hexValue? low with
    | none => simp
    | some l =>
      cases bytesOfPairs (position + 2) rest with
      | error fault => simp
      | ok tail => simp [eq_comm]

theorem pair_eq_hexOfBytes_iff {c d : Char} {cs : List Char} {bytes : List UInt8} :
    c :: d :: cs = hexOfBytes bytes ↔ ∃ b tail,
      (c = hexDigit (b.toNat / 16) ∧ d = hexDigit (b.toNat % 16)) ∧ cs = hexOfBytes tail ∧
        bytes = b :: tail := by
  cases bytes with
  | nil => simp [hexOfBytes]
  | cons b bytes => simp [hexOfBytes_cons, and_assoc]

theorem bytesOfPairs_eq_ok_iff : (position : Nat) → (cs : List Char) → {bytes : List UInt8} →
    (bytesOfPairs position (cs.flatMap String.utf8EncodeChar) = .ok bytes ↔
      cs.map Char.toLower = hexOfBytes bytes)
  | position, [], bytes => by
    cases bytes with
    | nil => simp [bytesOfPairs, hexOfBytes]
    | cons b bytes => simp [bytesOfPairs, hexOfBytes_cons]
  | position, [c], bytes => by
    refine iff_of_false ?_ fun same => ?_
    · by_cases hc : c ∈ hexCharacters
      · rw [flatMap_cons_of_mem hc]
        nofun
      · exact bytesOfPairs_cons_of_not_mem hc position [] bytes
    · have even := length_hexOfBytes bytes
      rw [← same, List.length_map, List.length_singleton] at even
      omega
  | position, c :: d :: cs, bytes => by
    rw [List.map_cons, List.map_cons, pair_eq_hexOfBytes_iff]
    simp only [toLower_pair_iff]
    by_cases hc : c ∈ hexCharacters
    · by_cases hd : d ∈ hexCharacters
      · rw [flatMap_cons_of_mem hc, flatMap_cons_of_mem hd, bytesOfPairs_pair_eq_ok_iff]
        simp only [(hexValue?_of_mem c hc).2, (hexValue?_of_mem d hd).2, bytesOfPairs_eq_ok_iff]
        constructor
        · rintro ⟨_, _, ⟨⟩, ⟨⟩, tail, same, rfl⟩
          exact ⟨_, tail, ⟨hc, hd, rfl⟩, same, rfl⟩
        · rintro ⟨_, tail, ⟨-, -, rfl⟩, same, rfl⟩
          exact ⟨_, _, rfl, rfl, tail, same, rfl⟩
      · exact iff_of_false (bytesOfPairs_second_of_not_mem hc hd position cs bytes)
          fun ⟨_, _, ⟨_, digit, _⟩, _⟩ => hd digit
    · exact iff_of_false (bytesOfPairs_cons_of_not_mem hc position _ bytes)
        fun ⟨_, _, ⟨digit, _, _⟩, _⟩ => hc digit

theorem mem_hexCharacters_of_mem_hexOfBytes {c : Char} {bytes : List UInt8} (h : c ∈ hexOfBytes bytes) :
    c ∈ hexCharacters := by
  have own : ∀ v < 16, hexDigit v ∈ hexCharacters := by decide
  obtain ⟨b, -, hc⟩ := List.mem_flatMap.mp h
  have bound : b.toNat < 256 := b.toNat_lt
  rcases List.mem_pair.mp hc with rfl | rfl
  · exact own _ (by omega)
  · exact own _ (by omega)

theorem map_toLower_hexOfBytes (bytes : List UInt8) :
    (hexOfBytes bytes).map Char.toLower = hexOfBytes bytes := by
  have own : ∀ v < 16, (hexDigit v).toLower = hexDigit v := by decide
  induction bytes with
  | nil => rfl
  | cons b bytes ih =>
    have bound : b.toNat < 256 := b.toNat_lt
    rw [hexOfBytes_cons, List.map_cons, List.map_cons, own _ (by omega), own _ (by omega), ih]

theorem exists_hexOfBytes : (count : Nat) → (cs : List Char) → cs.length = 2 * count →
    (∀ c ∈ cs, c ∈ hexCharacters) → ∃ bytes, cs.map Char.toLower = hexOfBytes bytes
  | 0, [], _, _ => ⟨[], rfl⟩
  | count + 1, c :: d :: cs, length, digits => by
    obtain ⟨tail, same⟩ := exists_hexOfBytes count cs (by simp only [List.length_cons] at length; omega)
      fun e he => digits e (List.mem_cons_of_mem _ (List.mem_cons_of_mem _ he))
    have pair := toLower_pair_iff.mpr ⟨digits c (by simp), digits d (by simp), rfl⟩
    exact ⟨_ :: tail, pair_eq_hexOfBytes_iff.mpr ⟨_, tail, pair, same, rfl⟩⟩
  | count + 1, [_], length, _ => by
    simp only [List.length_singleton] at length
    omega
  | count + 1, [], length, _ => by
    simp only [List.length_nil] at length
    omega

theorem bytesOfHex_eq_ok_iff {count : Nat} {cs : List Char} {bytes : List UInt8} :
    bytesOfHex count (cs.flatMap String.utf8EncodeChar) = .ok bytes ↔
      bytes.length = count ∧ cs.map Char.toLower = hexOfBytes bytes := by
  rw [← bytesOfPairs_eq_ok_iff 0]
  constructor
  · intro h
    refine ⟨length_of_bytesOfHex h, ?_⟩
    unfold bytesOfHex at h
    split_ifs at h
    exact h
  · rintro ⟨rfl, h⟩
    have size := length_of_bytesOfPairs h
    rw [bytesOfHex, if_neg (by omega), if_neg (by omega)]
    exact h

theorem exists_bytesOfHex_iff {count : Nat} {cs : List Char} :
    (∃ bytes, bytesOfHex count (cs.flatMap String.utf8EncodeChar) = .ok bytes) ↔
      cs.length = 2 * count ∧ ∀ c ∈ cs, c ∈ hexCharacters := by
  simp only [bytesOfHex_eq_ok_iff]
  constructor
  · rintro ⟨bytes, rfl, same⟩
    refine ⟨?_, fun c hc => mem_of_toLower_mem ?_⟩
    · rw [← length_hexOfBytes, ← same, List.length_map]
    · exact mem_hexCharacters_of_mem_hexOfBytes (same ▸ List.mem_map_of_mem hc)
  · rintro ⟨length, digits⟩
    obtain ⟨bytes, same⟩ := exists_hexOfBytes count cs length digits
    refine ⟨bytes, ?_, same⟩
    have size := length_hexOfBytes bytes
    rw [← same, List.length_map] at size
    omega

/-- What is wrong with bytes that should be `2 * count` digits: an odd number of them, another number of
them, or else the first that is no digit. -/
inductive HexFault.Of (count : Nat) (digits : List UInt8) : HexFault → Prop
  | oddLength : digits.length % 2 = 1 → HexFault.Of count digits .oddLength
  | wrongLength : digits.length % 2 = 0 → digits.length ≠ 2 * count →
    HexFault.Of count digits .wrongLength
  | badDigit {digit : UInt8} {position : Nat} : digits.length = 2 * count →
    digits[position]? = some digit → ¬IsHexByte digit →
    (∀ earlier b, earlier < position → digits[earlier]? = some b → IsHexByte b) →
    HexFault.Of count digits (.badDigit digit position)

theorem HexFault.Of.unique {count : Nat} {digits : List UInt8} {fault other : HexFault}
    (h : HexFault.Of count digits fault) (h' : HexFault.Of count digits other) : fault = other := by
  cases h with
  | oddLength odd =>
    cases h' with
    | oddLength => rfl
    | wrongLength => omega
    | badDigit => omega
  | wrongLength even differs =>
    cases h' with
    | oddLength => omega
    | wrongLength => rfl
    | badDigit => omega
  | @badDigit digit position size at' bad earlier =>
    cases h' with
    | oddLength => omega
    | wrongLength => omega
    | @badDigit digit' position' _ at'' bad' earlier' =>
      have places : position = position' := by
        rcases Nat.lt_trichotomy position position' with before | same | after
        · exact absurd (earlier' position digit before at') bad
        · exact same
        · exact absurd (earlier position' digit' after at'') bad'
      subst places
      rw [at'] at at''
      cases at''
      rfl

theorem isHexByte_of_hexValue? {b : UInt8} {v : Nat} (h : hexValue? b = some v) : IsHexByte b := by
  by_contra bad
  rw [hexValue?_eq_none_iff.mpr bad] at h
  cases h

theorem badDigit_of_bytesOfPairs {position : Nat} {digits : List UInt8} {fault : HexFault}
    (h : bytesOfPairs position digits = .error fault) (even : digits.length % 2 = 0) :
    ∃ digit place, fault = .badDigit digit (position + place) ∧ digits[place]? = some digit ∧
      ¬IsHexByte digit ∧
      ∀ earlier b, earlier < place → digits[earlier]? = some b → IsHexByte b := by
  fun_induction bytesOfPairs position digits with
  | case1 position high low rest bad =>
    cases h
    exact ⟨high, 0, rfl, rfl, hexValue?_eq_none_iff.mp bad,
      fun _ _ before => absurd before (Nat.not_lt_zero _)⟩
  | case2 position high low rest hv bad isHigh =>
    cases h
    refine ⟨low, 1, rfl, rfl, hexValue?_eq_none_iff.mp bad, fun earlier b before found => ?_⟩
    obtain rfl : earlier = 0 := by omega
    obtain rfl : high = b := by simpa using found
    exact isHexByte_of_hexValue? isHigh
  | case3 position high low rest hv lv isLow isHigh fault' failed ih =>
    cases h
    simp only [List.length_cons] at even
    obtain ⟨digit, place, rfl, found, bad, before⟩ := ih failed (by omega)
    refine ⟨digit, place + 2, by rw [Nat.add_assoc, Nat.add_comm 2], found, bad,
      fun earlier b less at' => ?_⟩
    rcases earlier with - | - | earlier
    · obtain rfl : high = b := by simpa using at'
      exact isHexByte_of_hexValue? isHigh
    · obtain rfl : low = b := by simpa using at'
      exact isHexByte_of_hexValue? isLow
    · exact before earlier b (by omega) at'
  | case4 => cases h
  | case5 =>
    simp only [List.length_singleton] at even
    omega
  | case6 => cases h

theorem HexFault.of_bytesOfHex {count : Nat} {digits : List UInt8} {fault : HexFault}
    (h : bytesOfHex count digits = .error fault) : HexFault.Of count digits fault := by
  unfold bytesOfHex at h
  split_ifs at h with odd differs
  · cases h
    exact .oddLength odd
  · cases h
    exact .wrongLength (by omega) differs
  · obtain ⟨digit, place, rfl, found, bad, before⟩ := badDigit_of_bytesOfPairs h (by omega)
    rw [Nat.zero_add]
    exact .badDigit (by omega) found bad before

end AbiCalls
