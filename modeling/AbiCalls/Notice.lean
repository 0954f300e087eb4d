import AbiCalls.Address

namespace AbiCalls

inductive Level
  | debug
  | trace
  deriving DecidableEq, Repr

def Level.name : Level → String
  | .debug => "DEBUG"
  | .trace => "TRACE"

inductive Notice
  | unusedDefault (contract : String)
  | rebinding (caller : Option Address)
  | binding (contract : String) (functions : Nat) (defaultAddress : Option Address)
  | reading (call : String) (args : Nat)
  | simulating (call : String) (args : Nat)
  | submitting (call : String)
  | notSubmitted (call : String)

namespace Notice

def level : Notice → Level
  | .reading _ _ | .simulating _ _ | .submitting _ => .trace
  | _ => .debug

def message : Notice → String
  | .unusedDefault _ => "dropping default address of unknown contract"
  | .rebinding _ => "recompiling contracts"
  | .binding _ _ _ => "compiling contract"
  | .reading _ _ => "read"
  | .simulating _ _ => "simulate"
  | .submitting _ => "submit"
  | .notSubmitted _ => "no active signer: call was simulated but not submitted"

def details : Notice → List (String × String)
  | .unusedDefault contract => [("contract", contract)]
  | .rebinding caller => [("caller", Address.detailed? caller)]
  | .binding contract functions defaultAddress =>
    [("contract", contract), ("functions", functions.repr),
      ("default_address", Address.detailed? defaultAddress)]
  | .reading call args => [("call", call), ("args", args.repr)]
  | .simulating call args => [("call", call), ("args", args.repr)]
  | .submitting call => [("call", call)]
  | .notSubmitted call => [("call", call)]

end Notice

end AbiCalls
