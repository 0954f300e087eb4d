namespace AbiCalls

namespace Keccak

/-- Twenty-five lanes; the lane of column `x` and row `y` is at `x + 5 * y`. -/
abbrev Lanes := Vector UInt64 25

def lane (s : Lanes) (x y : Nat) : UInt64 :=
  s.get ⟨x % 5 + 5 * (y % 5), by omega⟩

def ofLanes (f : Nat → Nat → UInt64) : Lanes :=
  Vector.ofFn fun i => f (i.val % 5) (i.val / 5)

def rotateLeft (word : UInt64) (count : Nat) : UInt64 :=
  let n := count % 64
  if n = 0 then word
  else (word <<< UInt64.ofNat n) ||| (word >>> UInt64.ofNat (64 - n))

def theta (s : Lanes) : Lanes :=
  let parity := Vector.ofFn fun x : Fin 5 =>
    lane s x 0 ^^^ lane s x 1 ^^^ lane s x 2 ^^^ lane s x 3 ^^^ lane s x 4
  let column (x : Nat) : UInt64 := parity.get ⟨x % 5, by omega⟩
  let change := Vector.ofFn fun x : Fin 5 => column (x + 4) ^^^ rotateLeft (column (x + 1)) 1
  ofLanes fun x y => lane s x y ^^^ change.get ⟨x % 5, by omega⟩

def turns : Vector Nat 25 :=
  #v[0, 1, 62, 28, 27, 36, 44, 6, 55, 20, 3, 10, 43, 25, 39, 41, 45, 15, 21, 8, 18, 2, 61, 56, 14]

def rhoPi (s : Lanes) : Lanes :=
  let turned := Vector.ofFn fun i : Fin 25 => rotateLeft s[i] turns[i]
  ofLanes fun x y => lane turned (x + 3 * y) x

def chi (s : Lanes) : Lanes :=
  ofLanes fun x y => lane s x y ^^^ ((lane s (x + 1) y ^^^ 0xffffffffffffffff) &&& lane s (x + 2) y)

def roundConstants : List UInt64 :=
  [0x0000000000000001, 0x0000000000008082, 0x800000000000808a, 0x8000000080008000,
    0x000000000000808b, 0x0000000080000001, 0x8000000080008081, 0x8000000000008009,
    0x000000000000008a, 0x0000000000000088, 0x0000000080008009, 0x000000008000000a,
    0x000000008000808b, 0x800000000000008b, 0x8000000000008089, 0x8000000000008003,
    0x8000000000008002, 0x8000000000000080, 0x000000000000800a, 0x800000008000000a,
    0x8000000080008081, 0x8000000000008080, 0x0000000080000001, 0x8000000080008008]

def permute (s : Lanes) : Lanes :=
  roundConstants.foldl (fun s c =>
    let next := chi (rhoPi (theta s))
    next.set 0 (next[0] ^^^ c)) s

def rate : Nat := 136

/-- The message with a first bit after it, zeros, and a last bit at the end of a block. -/
def padded (message : List UInt8) : List UInt8 :=
  let gap := rate - message.length % rate
  if gap = 1 then message ++ [0x81]
  else message ++ 0x01 :: (List.replicate (gap - 2) 0 ++ [0x80])

def wordOfBytes (bytes : List UInt8) : UInt64 :=
  bytes.foldr (fun byte word => (word <<< 8) ||| byte.toUInt64) 0

def pieces {α : Type} (size : Nat) (xs : List α) : List (List α) :=
  (List.range (xs.length / size)).map fun i => (xs.drop (i * size)).take size

def absorbBlock (s : Lanes) (block : List UInt8) : Lanes :=
  let words := (pieces 8 block).toArray.map wordOfBytes
  permute (Vector.ofFn fun i : Fin 25 => s[i] ^^^ words.getD i 0)

def bytesOfWord (word : UInt64) : List UInt8 :=
  (List.range 8).map fun i => (word >>> UInt64.ofNat (8 * i)).toUInt8

/-- Keccak with a capacity of 512 bits and 256 bits of output, in its first form. -/
def hash (message : List UInt8) : List UInt8 :=
  let s := (pieces rate (padded message)).foldl absorbBlock (Vector.replicate 25 0)
  (s.toList.take 4).flatMap bytesOfWord

end Keccak

end AbiCalls
