import AbiCalls.Abi.ContractFunction

namespace AbiCalls

inductive Member
  | function (function : ContractFunction)
  | event (name : String) (inputs : List Param) (anonymous : Bool)
  | error (name : String) (inputs : List Param)
  | constructor (inputs : List Param) (mutability : Mutability)
  | fallback (mutability : Mutability)
  | receive (mutability : Mutability)
  | other (type : String)
  deriving DecidableEq

structure Abi where
  members : List Member
  deriving DecidableEq

namespace Member

def type : Member → String
  | .function _ => "function"
  | .event _ _ _ => "event"
  | .error _ _ => "error"
  | .constructor _ _ => "constructor"
  | .fallback _ => "fallback"
  | .receive _ => "receive"
  | .other type => type

def asFunction? : Member → Option ContractFunction
  | .function f => some f
  | _ => none

end Member

namespace Abi

def functions (abi : Abi) : List ContractFunction :=
  abi.members.filterMap Member.asFunction?

/-- Of several functions with that name, the one declared last. -/
def function? (abi : Abi) (name : String) : Option ContractFunction :=
  (abi.functions.filter fun f => f.name = name).getLast?

def ofFunctions (functions : List ContractFunction) : Abi :=
  ⟨functions.map .function⟩

def size (abi : Abi) : Nat :=
  abi.members.length

end Abi

end AbiCalls
