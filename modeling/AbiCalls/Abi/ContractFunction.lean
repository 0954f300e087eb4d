import AbiCalls.Abi.Mutability
import AbiCalls.Abi.Param
import AbiCalls.Keccak
import AbiCalls.Text.Hex

namespace AbiCalls

structure ContractFunction where
  name : String
  inputs : List Param
  outputs : List Param
  mutability : Mutability
  deriving DecidableEq

namespace ContractFunction

def access (f : ContractFunction) : Access :=
  f.mutability.access

def isReadOnly (f : ContractFunction) : Bool :=
  f.mutability.isReadOnly

def arity (f : ContractFunction) : Nat :=
  f.inputs.length

def signatureChars (f : ContractFunction) : List Char :=
  f.name.toList ++ '(' :: (Param.joinedChars f.inputs ++ [')'])

/-- The name with the canonical types of the inputs. -/
def signature (f : ContractFunction) : String :=
  String.ofList f.signatureChars

def selectorBytes (f : ContractFunction) : List UInt8 :=
  (Keccak.hash (f.signatureChars.flatMap String.utf8EncodeChar)).take 4

def selector (f : ContractFunction) : String :=
  String.ofList ('0' :: 'x' :: hexOfBytes f.selectorBytes)

end ContractFunction

end AbiCalls
