namespace AbiCalls

def hexDigit (n : Nat) : Char :=
  Nat.digitChar n

def hexOfByte (byte : UInt8) : List Char :=
  [hexDigit (byte.toNat / 16), hexDigit (byte.toNat % 16)]

def hexOfBytes (bytes : List UInt8) : List Char :=
  bytes.flatMap hexOfByte

def hexValue? (digit : UInt8) : Option Nat :=
  let n := digit.toNat
  if 48 ≤ n ∧ n ≤ 57 then some (n - 48)
  else if 97 ≤ n ∧ n ≤ 102 then some (n - 87)
  else if 65 ≤ n ∧ n ≤ 70 then some (n - 55)
  else none

inductive HexFault
  | oddLength
  | wrongLength
  | badDigit (digit : UInt8) (position : Nat)
  deriving DecidableEq, Repr

/-- The bytes that pairs of digits denote, counting digits from `position`. -/
def bytesOfPairs (position : Nat) : List UInt8 → Except HexFault (List UInt8)
  | high :: low :: rest =>
    match hexValue? high, hexValue? low with
    | none, _ => .error (.badDigit high position)
    | some _, none => .error (.badDigit low (position + 1))
    | some h, some l =>
      match bytesOfPairs (position + 2) rest with
      | .error fault => .error fault
      | .ok bytes => .ok (UInt8.ofNat (16 * h + l) :: bytes)
  | [_] => .error .oddLength
  | [] => .ok []

/-- Reads exactly `count` bytes. The length is looked at before the digits are. -/
def bytesOfHex (count : Nat) (digits : List UInt8) : Except HexFault (List UInt8) :=
  if digits.length % 2 = 1 then .error .oddLength
  else if digits.length ≠ 2 * count then .error .wrongLength
  else bytesOfPairs 0 digits

theorem length_of_bytesOfPairs {position : Nat} {digits bytes : List UInt8}
    (h : bytesOfPairs position digits = .ok bytes) : digits.length = 2 * bytes.length := by
  fun_induction bytesOfPairs position digits generalizing bytes with
  | case4 position high low rest hi hl hv lv rest' he ih =>
    cases h
    have := ih he
    simp only [List.length_cons]
    omega
  | case6 => cases h; rfl
  | _ => simp at h

theorem length_of_bytesOfHex {count : Nat} {digits bytes : List UInt8}
    (h : bytesOfHex count digits = .ok bytes) : bytes.length = count := by
  unfold bytesOfHex at h
  split at h
  · simp at h
  · split at h
    · simp at h
    · have := length_of_bytesOfPairs h
      omega

end AbiCalls
