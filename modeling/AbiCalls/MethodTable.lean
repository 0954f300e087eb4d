import AbiCalls.Method
import AbiCalls.Names

namespace AbiCalls

structure MethodTable where
  address : Address
  groups : NameMap (List Method)

namespace MethodTable

def empty (address : Address) : MethodTable :=
  ⟨address, .empty⟩

def overloads (t : MethodTable) (name : String) : List Method :=
  (t.groups.get? name).getD []

def push (t : MethodTable) (m : Method) : MethodTable :=
  { t with groups := t.groups.insert m.function.name (t.overloads m.function.name ++ [m]) }

def ofAbi (ctx : Context) (abi : Abi) (address : Address) : MethodTable :=
  abi.functions.foldl (fun t f => t.push (.ofFunction ⟨address, abi, f.name⟩ f ctx)) (empty address)

/-- Of several overloads, the one declared last. -/
def get? (t : MethodTable) (name : String) : Option Method :=
  (t.overloads name).getLast?

def withArity? (t : MethodTable) (name : String) (arity : Nat) : Option Method :=
  (t.overloads name).reverse.find? fun m => m.function.arity = arity

/-- The first overload with that signature, among those of the name before the first bracket. -/
def withSignature? (t : MethodTable) (signature : String) : Option Method :=
  let name := String.ofList (signature.toList.takeWhile (· ≠ '('))
  (t.overloads name).find? fun m => m.function.signature = signature

def read? (t : MethodTable) (name : String) : Option ReadMethod :=
  (t.get? name).bind Method.read?

def write? (t : MethodTable) (name : String) : Option WriteMethod :=
  (t.get? name).bind Method.write?

def contains (t : MethodTable) (name : String) : Bool :=
  t.groups.contains name

def names (t : MethodTable) : List String :=
  t.groups.names

def size (t : MethodTable) : Nat :=
  t.groups.size

def toList (t : MethodTable) : List Method :=
  t.groups.values.flatten

def unknownFunction (t : MethodTable) (name : String) : Error :=
  .stated .unknownFunction
    ("contract at " ++ t.address.text ++ " has no function " ++ tickQuoted name)

/-- The overload for a number of arguments, or else the one declared last. -/
def dispatch? (t : MethodTable) (name : String) (arity : Nat) : Option Method :=
  (t.withArity? name arity).or (t.get? name)

def run (t : MethodTable) (name : String) (args : List Json) : Call (Except Error CallResult) :=
  match t.dispatch? name args.length with
  | some m => m.run args
  | none => .done (.error (t.unknownFunction name))

def detailed (t : MethodTable) : String :=
  "HandlerSet \x7b address: " ++ t.address.detailed ++ ", functions: " ++ quotedTexts t.names
    ++ " \x7d"

end MethodTable

end AbiCalls
