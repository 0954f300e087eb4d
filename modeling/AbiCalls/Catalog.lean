import AbiCalls.Address
import AbiCalls.Bindings

namespace AbiCalls

structure CatalogEntry where
  abi : Abi
  defaultAddress : Option Address
  deriving DecidableEq

abbrev Catalog := NameMap CatalogEntry

def contractOf? (name : String) : Binding → Option (String × Abi)
  | .factory abi => (contractName? name).map fun contract => (contract, abi)
  | .other _ => none

/-- Every factory with the name of one gives a contract; a default address goes with the contract of
exactly its name. -/
def Catalog.ofBindings (bindings : Bindings) (defaults : Option DefaultAddresses) : Catalog :=
  bindings.toList.foldl (fun catalog entry =>
    match contractOf? entry.1 entry.2 with
    | some (contract, abi) =>
      catalog.insert contract ⟨abi, defaults.bind fun d => d.get? contract⟩
    | none => catalog) NameMap.empty

def Catalog.unusedDefaults (catalog : Catalog) (defaults : Option DefaultAddresses) :
    List String :=
  match defaults with
  | some d => d.names.filter fun name => !catalog.contains name
  | none => []

end AbiCalls
