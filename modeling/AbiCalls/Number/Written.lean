import AbiCalls.Number.Shortest

namespace AbiCalls

def decimalOfInt : Int → List Char
  | .ofNat n => Nat.toDigits 10 n
  | .negSucc n => '-' :: Nat.toDigits 10 (n + 1)

/-- Which powers of ten of the leading digit are written with a point among the digits; the others are
written with an exponent. -/
structure PointRange where
  least : Int
  greatest : Int

/-- Numbers from `0.00001` up to, but not including, `10 ^ 16` have no exponent. -/
def plainRange : PointRange := ⟨-5, 15⟩

/-- Digits with a point after the one that counts `10 ^ 0`, where the first counts `10 ^ power`. At
least one digit follows the point. -/
def pointed (digits : List Char) (power : Int) : List Char :=
  if power < 0 then '0' :: '.' :: (List.replicate (-power - 1).toNat '0' ++ digits)
  else
    let count := power.toNat + 1
    if digits.length ≤ count then
      digits ++ List.replicate (count - digits.length) '0' ++ ['.', '0']
    else digits.take count ++ '.' :: digits.drop count

def withExponent (digits : List Char) (power : Int) : List Char :=
  let point :=
    match digits with
    | first :: second :: rest => first :: '.' :: second :: rest
    | short => short
  let sign := if power < 0 then '-' else '+'
  point ++ 'e' :: sign :: Nat.toDigits 10 power.natAbs

def magnitudeOfFloat (x : Float) : List Char :=
  let binary := BinaryNumber.ofFloat x
  if binary.mantissa = 0 then ['0', '.', '0']
  else
    let decimal := binary.shortest
    let all := Nat.toDigits 10 decimal.digits
    let digits := (all.reverse.dropWhile (· = '0')).reverse
    let power := (all.length : Int) - 1 + decimal.exponent
    if plainRange.least ≤ power ∧ power ≤ plainRange.greatest then pointed digits power
    else withExponent digits power

/-- The text of a finite number; zero keeps its sign. -/
def decimalOfFloat (x : Float) : List Char :=
  if UInt64.size / 2 ≤ x.toBits.toNat then '-' :: magnitudeOfFloat x else magnitudeOfFloat x

end AbiCalls
