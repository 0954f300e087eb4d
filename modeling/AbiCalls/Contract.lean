import AbiCalls.Catalog
import AbiCalls.MethodTable

namespace AbiCalls

structure Contract where
  name : String
  abi : Abi
  defaultAddress : Option Address
  context : Context

namespace Contract

def needsAddress (c : Contract) : Bool :=
  c.defaultAddress.isNone

def methodsAt (c : Contract) (address : Address) : MethodTable :=
  .ofAbi c.context c.abi address

def missingAddress (c : Contract) : Error :=
  .stated .missingAddress
    ("contract " ++ tickQuoted c.name
      ++ " has no default address; an explicit address is required")

/-- An explicit address wins over the default one; one of them is needed. -/
def methods (c : Contract) (address : Option Address) : Except Error MethodTable :=
  match address.or c.defaultAddress with
  | some address => .ok (c.methodsAt address)
  | none => .error c.missingAddress

def detailed (c : Contract) : String :=
  "ContractFactory \x7b name: " ++ quotedText c.name ++ ", default_address: "
    ++ Address.detailed? c.defaultAddress ++ ", .. \x7d"

end Contract

abbrev Contracts := NameMap Contract

namespace Catalog

def bind (catalog : Catalog) (ctx : Context) : Contracts :=
  catalog.mapValues fun name entry => ⟨name, entry.abi, entry.defaultAddress, ctx⟩

def bindNotices (catalog : Catalog) : List Notice :=
  catalog.entries.map fun (name, entry) =>
    .binding name entry.abi.functions.length entry.defaultAddress

end Catalog

namespace Contracts

def unknownContract (name : String) : Error :=
  .stated .unknownContract ("no contract named " ++ tickQuoted name)

def methods (contracts : Contracts) (name : String) (address : Option Address) :
    Except Error MethodTable :=
  match contracts.get? name with
  | some c => c.methods address
  | none => .error (unknownContract name)

end Contracts

end AbiCalls
