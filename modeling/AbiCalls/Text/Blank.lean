namespace AbiCalls

/-- The ranges of code points with the White_Space property. -/
def blankRanges : List (Nat × Nat) :=
  [(0x9, 0xd), (0x20, 0x20), (0x85, 0x85), (0xa0, 0xa0), (0x1680, 0x1680), (0x2000, 0x200a),
    (0x2028, 0x2029), (0x202f, 0x202f), (0x205f, 0x205f), (0x3000, 0x3000)]

def isBlank (c : Char) : Bool :=
  blankRanges.any fun (low, high) => low ≤ c.toNat && c.toNat ≤ high

def trimBlanks (cs : List Char) : List Char :=
  ((cs.dropWhile isBlank).reverse.dropWhile isBlank).reverse

def eraseBlanks (cs : List Char) : List Char :=
  cs.filter fun c => !isBlank c

theorem isBlank_of_mem_eraseBlanks {c : Char} {cs : List Char} (h : c ∈ eraseBlanks cs) :
    isBlank c = false := by
  simpa using (List.mem_filter.mp h).2

end AbiCalls
