namespace AbiCalls

/-- The number `mantissa · 2 ^ exponent`. Below a power of two the numbers lie twice as dense, except
below the least of them. -/
structure BinaryNumber where
  mantissa : Nat
  exponent : Int
  denserBelow : Bool

def fractionSize : Nat := 1 <<< 52

def exponentSize : Nat := 1 <<< 11

def BinaryNumber.ofFloat (x : Float) : BinaryNumber :=
  let bits := x.toBits.toNat
  let biased := bits / fractionSize % exponentSize
  let fraction := bits % fractionSize
  if biased = 0 then ⟨fraction, -1074, false⟩
  else ⟨fraction + fractionSize, Int.ofNat biased - 1075, decide (fraction = 0 ∧ 1 < biased)⟩

structure DecimalNumber where
  digits : Nat
  exponent : Int

/-- A grid of powers of ten so fine that every number of double precision has seventeen digits on it. -/
def finestExponent : Nat := 340

/-- The numbers that round to a binary number, as multiples of `1 / denominator` of the finest grid. -/
structure RoundingRange where
  low : Nat
  middle : Nat
  high : Nat
  denominator : Nat
  closed : Bool

def BinaryNumber.roundingRange (x : BinaryNumber) : RoundingRange :=
  let shift := x.exponent - 2
  let factor := Nat.pow 10 finestExponent <<< shift.toNat
  { low := (4 * x.mantissa - if x.denserBelow then 1 else 2) * factor
    middle := 4 * x.mantissa * factor
    high := (4 * x.mantissa + 2) * factor
    denominator := 1 <<< (-shift).toNat
    closed := x.mantissa % 2 = 0 }

def RoundingRange.contains (r : RoundingRange) (point : Nat) : Bool :=
  let scaled := point * r.denominator
  if r.closed then r.low ≤ scaled && scaled ≤ r.high else r.low < scaled && scaled < r.high

/-- Of two neighbours `digits` and `digits + 1` on the grid of `unit`, the one that rounds to the
number, or the nearer one if both do; a tie goes to the even one. -/
def RoundingRange.pick (r : RoundingRange) (unit digits : Nat) : Option Nat :=
  match r.contains (digits * unit), r.contains ((digits + 1) * unit) with
  | false, false => none
  | true, false => some digits
  | false, true => some (digits + 1)
  | true, true =>
    let below := r.middle - digits * unit * r.denominator
    let above := (digits + 1) * unit * r.denominator - r.middle
    if below < above then some digits
    else if above < below then some (digits + 1)
    else if digits % 2 = 0 then some digits
    else some (digits + 1)

/-- Tries grids on which the number has ever more digits, starting at `count`. -/
def RoundingRange.shortest (r : RoundingRange) (floor size : Nat) : Nat → Nat → DecimalNumber
  | 0, _ => ⟨floor, -(finestExponent : Int)⟩
  | tries + 1, count =>
    let unit := Nat.pow 10 (size - count)
    match r.pick unit (floor / unit) with
    | some digits => ⟨digits, (size : Int) - count - finestExponent⟩
    | none => r.shortest floor size tries (count + 1)

def BinaryNumber.shortest (x : BinaryNumber) : DecimalNumber :=
  let r := x.roundingRange
  let floor := r.middle / r.denominator
  r.shortest floor (Nat.toDigits 10 floor).length 17 1

end AbiCalls
