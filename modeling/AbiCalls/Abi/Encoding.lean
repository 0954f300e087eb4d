import AbiCalls.Abi.Member

namespace AbiCalls

def optionalField {α : Type} (name : String) (encode : α → Json) : Option α → List (String × Json)
  | some value => [(name, encode value)]
  | none => []

mutual

def Param.toJson : Param → Json
  | ⟨name, type, internalType, components, indexed⟩ =>
    .object (("name", .str name) :: ("type", .str type) ::
      (optionalField "internalType" .str internalType
        ++ Param.componentsField components
        ++ optionalField "indexed" .bool indexed))

def Param.componentsField : List Param → List (String × Json)
  | [] => []
  | p :: rest => [("components", .list (p.toJson :: Param.listToJson rest))]

def Param.listToJson : List Param → List Json
  | [] => []
  | p :: rest => p.toJson :: Param.listToJson rest

end

def Param.encodeList (params : List Param) : Json :=
  .list (Param.listToJson params)

namespace ContractFunction

def fields (f : ContractFunction) : List (String × Json) :=
  [("name", .str f.name), ("inputs", Param.encodeList f.inputs),
    ("outputs", Param.encodeList f.outputs), ("stateMutability", f.mutability.toJson)]

def toJson (f : ContractFunction) : Json :=
  .object f.fields

end ContractFunction

namespace Member

def fields : Member → List (String × Json)
  | .function f => f.fields
  | .event name inputs anonymous =>
    [("name", .str name), ("inputs", Param.encodeList inputs), ("anonymous", .bool anonymous)]
  | .error name inputs => [("name", .str name), ("inputs", Param.encodeList inputs)]
  | .constructor inputs mutability =>
    [("inputs", Param.encodeList inputs), ("stateMutability", mutability.toJson)]
  | .fallback mutability => [("stateMutability", mutability.toJson)]
  | .receive mutability => [("stateMutability", mutability.toJson)]
  | .other _ => []

def toJson (m : Member) : Json :=
  .object (("type", .str m.type) :: m.fields)

/-- The member as it stands without its type, for the types that describe more than their mutability. -/
def plainJson : Member → Json
  | .fallback _ | .receive _ | .other _ => .null
  | m => .object m.fields

end Member

namespace Abi

def toJson (abi : Abi) : Json :=
  .list (abi.members.map Member.toJson)

def text (abi : Abi) : String :=
  abi.toJson.compact

end Abi

end AbiCalls
