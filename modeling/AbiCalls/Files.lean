namespace AbiCalls

inductive FileNode
  | file (content : List UInt8)
  | directory (entries : List (String × FileNode))

inductive OpenFault
  | missing
  | belowFile
  | tooLong
  | badCharacter
  deriving DecidableEq, Repr

def OpenFault.message : OpenFault → String
  | .missing => "No such file or directory (os error 2)"
  | .belowFile => "Not a directory (os error 20)"
  | .tooLong => "File name too long (os error 36)"
  | .badCharacter => "file name contained an unexpected NUL byte"

/-- A node with the directories above it, the nearest first. -/
structure Place where
  node : FileNode
  above : List FileNode

namespace Place

/-- The number of bytes that a name may have. -/
def longestName : Nat := 255

def longestPath : Nat := 4095

/-- Goes on by one name. The topmost directory is its own parent. -/
def enter (p : Place) (name : String) : Except OpenFault Place :=
  match p.node with
  | .file _ => .error .belowFile
  | .directory entries =>
    if name = "" ∨ name = "." then .ok p
    else if name = ".." then
      match p.above with
      | parent :: rest => .ok ⟨parent, rest⟩
      | [] => .ok p
    else if longestName < name.utf8ByteSize then .error .tooLong
    else
      match entries.lookup name with
      | some node => .ok ⟨node, p.node :: p.above⟩
      | none => .error .missing

def follow (p : Place) (names : List String) : Except OpenFault Place :=
  names.foldlM enter p

def top (p : Place) : Place :=
  ⟨p.above.getLast?.getD p.node, []⟩

/-- What a path leads to. One that starts with a slash starts at the top. -/
def find (p : Place) (path : String) : Except OpenFault FileNode := do
  if path.toList.contains '\x00' then .error .badCharacter
  else if path = "" then .error .missing
  else if longestPath < path.utf8ByteSize then .error .tooLong
  else
    let start := if path.toList.head? = some '/' then p.top else p
    return (← start.follow (path.splitOn "/")).node

end Place

end AbiCalls
