import AbiCalls.Scope
import AbiCalls.Session.Step

namespace AbiCalls

/-- Methods with the name of the contract they were made from. All that is made from one contract of a
session shares its ABI. -/
structure StoredTable where
  contract : String
  methods : MethodTable

structure Session where
  world : World
  catalog : Catalog
  context : Context
  current : Edition
  cache : ContractCache
  scope : Scope := {}
  tables : NameMap StoredTable := .empty
  pending : NameMap PendingWrite := .empty
  nextSerial : Nat
  seen : List Edition := []

instance : HasScope Session := ⟨Session.scope, fun s scope => { s with scope }⟩

abbrev SessionM (α : Type) := StateM Session α

namespace Session

def start (catalog : Catalog) (defaults : Option DefaultAddresses) (ctx : Context)
    (scripts : Scripts) : Session :=
  let world : World := { scripts }
  let notices := (catalog.unusedDefaults defaults).map .unusedDefault ++ catalog.bindNotices
  { world := world.logAll notices
    catalog
    context := ctx
    current := ⟨0, catalog.bind ctx⟩
    cache := { catalog }
    nextSerial := 1 }

def inWorld {α : Type} (f : World → α × World) : SessionM α :=
  modifyGet fun s =>
    let (result, world) := f s.world
    (result, { s with world })

def runCall {α : Type} (call : Call α) : SessionM α :=
  inWorld (World.run call)

def takeSerial : SessionM Nat :=
  modifyGet fun s => (s.nextSerial, { s with nextSerial := s.nextSerial + 1 })

/-- Editions are numbered in the order in which they are first reported. -/
def numberOf (edition : Edition) : SessionM Nat :=
  modifyGet fun s =>
    match s.seen.findIdx? fun known => known.serial = edition.serial with
    | some number => (number, s)
    | none => (s.seen.length, { s with seen := s.seen ++ [edition] })

def withContext (ctx : ContextRequest) (f : Context → SessionM Reply) : SessionM Reply :=
  match ctx.resolve with
  | .ok ctx => f ctx
  | .error e => pure (.refused e)

def withContract (name : String) (f : Contract → Reply) : SessionM Reply := do
  match (← get).current.contracts.get? name with
  | some contract => return f contract
  | none => return .nothing

def withTable (name : String) (f : StoredTable → SessionM Reply) : SessionM Reply := do
  match (← get).tables.get? name with
  | some stored => f stored
  | none => return .skipped .noTable

def withMethod (pick : Pick) (f : StoredTable → Method → SessionM Reply) : SessionM Reply :=
  withTable pick.table fun stored =>
    match pick.from? stored.methods with
    | some method => f stored method
    | none => pure (.skipped .noMethod)

/-- A pick by name alone asks for a method of one kind at once, so that a missing one is of the wrong
kind too. -/
def missingAs (pick : Pick) (reason : Skip) : Skip :=
  if pick.signature.isNone ∧ pick.arity.isNone then reason else .noMethod

def withRead (pick : Pick) (f : ReadMethod → SessionM Reply) : SessionM Reply :=
  withTable pick.table fun stored =>
    match pick.from? stored.methods with
    | some (.read method) => f method
    | some (.write _) => pure (.skipped .notRead)
    | none => pure (.skipped (missingAs pick .notRead))

def withWrite (pick : Pick) (f : WriteMethod → SessionM Reply) : SessionM Reply :=
  withTable pick.table fun stored =>
    match pick.from? stored.methods with
    | some (.write method) => f method
    | some (.read _) => pure (.skipped .notWrite)
    | none => pure (.skipped (missingAs pick .notWrite))

/-- The methods of a contract by the given route. All routes but the first need a bound contract. -/
def methodsBy (s : Session) (contract : String) (address : Option Address) (route : Route) :
    Except Reply MethodTable :=
  let failing (result : Except Error MethodTable) : Except Reply MethodTable :=
    result.mapError .failed
  match route, s.current.contracts.get? contract with
  | .byName, _ => failing (s.current.contracts.methods contract address)
  | _, none => .error (.skipped .noContract)
  | .resolved, some c => failing (c.methods address)
  | .atDefault, some c => failing (c.methods none)
  | .atAddress, some c => .ok (c.methodsAt (address.getD .zero))
  | .direct, some c => .ok (.ofAbi s.context c.abi (address.getD .zero))

def refreshCache (ctx : Context) : SessionM Edition := do
  let serial ← takeSerial
  modifyGet fun s =>
    let (edition, cache) := s.cache.refresh ctx serial
    (edition, { s with cache, world := s.world.logAll (s.cache.refreshNotices ctx) })

/-- Runs something beside a cache that has not been refreshed yet; afterwards the cache is what it
was. -/
def withFreshCache {α : Type} (inner : SessionM α) : SessionM α := do
  let outer := (← get).cache
  modify fun s => { s with cache := { catalog := s.catalog } }
  let result ← inner
  modify fun s => { s with cache := outer }
  return result

def report (reply : Reply) : SessionM Report := do
  let events ← inWorld World.collectEvents
  let notices ← inWorld World.collectNotices
  return (reply, events, notices)

end Session

end AbiCalls
