namespace AbiCalls

def nanosPerMilli : Nat := 1000000

def nanosPerSecond : Nat := 1000000000

/-- A length of time in whole seconds and the nanoseconds that are left. -/
structure Interval where
  seconds : UInt64
  rest : Fin nanosPerSecond
  deriving DecidableEq

namespace Interval

def ofMillis (ms : UInt64) : Interval where
  seconds := ms / 1000
  rest := ⟨nanosPerMilli * (ms.toNat % 1000), by unfold nanosPerMilli nanosPerSecond; omega⟩

def nanos (interval : Interval) : Nat :=
  nanosPerSecond * interval.seconds.toNat + interval.rest

@[simp] theorem nanos_ofMillis (ms : UInt64) : (ofMillis ms).nanos = nanosPerMilli * ms.toNat := by
  have whole : (ms / 1000).toNat = ms.toNat / 1000 := UInt64.toNat_div ms 1000
  simp only [nanos, ofMillis, whole, nanosPerMilli, nanosPerSecond]
  omega

def fractionChars (digits : List Char) : List Char :=
  match (digits.reverse.dropWhile (· = '0')).reverse with
  | [] => []
  | digits => '.' :: digits

/-- A number with a fraction of it, which is counted in units of that many places after the point. -/
def fractionText (whole fraction places : Nat) : String :=
  whole.repr ++ String.ofList (fractionChars ((Nat.toDigits 10 fraction).leftpad places '0'))

def detailed (interval : Interval) : String :=
  let rest := interval.rest.val
  if 0 < interval.seconds then fractionText interval.seconds.toNat rest 9 ++ "s"
  else if nanosPerMilli ≤ rest then fractionText (rest / nanosPerMilli) (rest % nanosPerMilli) 6 ++ "ms"
  else if 1000 ≤ rest then fractionText (rest / 1000) (rest % 1000) 3 ++ "µs"
  else rest.repr ++ "ns"

end Interval

end AbiCalls
