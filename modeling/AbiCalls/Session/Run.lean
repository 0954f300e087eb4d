import AbiCalls.Session.State

namespace AbiCalls

namespace Session

def bindTo (ctx : Context) : SessionM Reply := do
  let serial ← takeSerial
  modifyGet fun s =>
    let contracts := s.catalog.bind ctx
    (.contracts contracts,
      { s with
        context := ctx
        current := ⟨serial, contracts⟩
        world := s.world.logAll s.catalog.bindNotices })

/-- A slot keeps its old methods if there are no new ones. -/
def storeMethods (contract : String) (address : Option Address) (route : Route) (slot : String) :
    SessionM Reply := do
  match (← get).methodsBy contract address route with
  | .error reply => return reply
  | .ok methods =>
    modify fun s => { s with tables := s.tables.insert slot ⟨contract, methods⟩ }
    return .table methods

def callOf (s : Session) (c : TableCall) : Except Reply (Call (Except Error CallResult)) :=
  match s.tables.get? c.table with
  | some stored => .ok (stored.methods.run c.name c.args)
  | none => .error (.skipped .noTable)

def runTogether (calls : List TableCall) : SessionM Reply := do
  let s ← get
  let started := calls.map s.callOf
  let running := started.map fun
    | .ok call => call.map Reply.ofResult
    | .error reply => .done reply
  let replies ← inWorld (World.runAll running)
  return .several (replies.map fun reply => reply.getD .nothing)

def runSimulation (method : WriteMethod) (args : List Json) (slot : String) : SessionM Reply := do
  match ← runCall (method.simulate args) with
  | .error e => return .failed e
  | .ok call =>
    modify fun s => { s with pending := s.pending.insert slot call }
    return .pending call

/-- A pending call is forgotten when it is submitted, unless it is to be kept. -/
def runSubmission (slot : String) (keep : Bool) : SessionM Reply := do
  match (← get).pending.get? slot with
  | none => return .skipped .nothingPending
  | some call =>
    if !keep then modify fun s => { s with pending := s.pending.erase slot }
    return .ofResult ((← runCall call.submit).map .write)

def runWatch (method : ReadMethod) (args : List Json) (count : Nat) (every : Option Interval)
    (pause : Nat) : SessionM Reply := do
  let own := Watch.ofMethod method args
  let watch := { own with every := every.getD own.every }
  return .several ((← inWorld (World.watchItems pause count watch)).map .ofValue)

def replyScope : Except Error Edition → SessionM Reply
  | .ok edition => do return .scoped (← numberOf edition) edition.contracts.names
  | .error e => pure (.failed e)

def runPlain : Step → SessionM Reply
  | .contracts => do return .contracts (← get).current.contracts
  | .contract name => withContract name .contract
  | .bind ctx => withContext ctx bindTo
  | .compareContext ctx =>
    withContext ctx fun ctx => do
      let own := (← get).context
      return .context ctx (own.agrees ctx) (ctx.agrees own)
  | .store contract address route slot =>
    match address.map Address.ofText with
    | some (.error e) => pure (.refused e)
    | some (.ok address) => storeMethods contract (some address) route slot
    | none => storeMethods contract none route slot
  | .describeContract name => withContract name fun contract => .text contract.detailed
  | .describeTable name => withTable name fun stored => pure (.text stored.methods.detailed)
  | .table name => withTable name fun stored => pure (.table stored.methods)
  | .method pick =>
    withTable pick.table fun stored =>
      match pick.from? stored.methods with
      | some method => pure (.method method)
      | none => pure .nothing
  | .overloads table name => withTable table fun stored => pure (.overloads stored.methods name)
  | .compareTargets a b =>
    withMethod a fun storedA a =>
      withMethod b fun storedB b =>
        pure (.comparison (decide (a.target = b.target))
          (decide (storedA.contract = storedB.contract)))
  | .call c => do
    match (← get).callOf c with
    | .ok call => return .ofResult (← runCall call)
    | .error reply => return reply
  | .invoke pick args =>
    withMethod pick fun _ method => do return .ofResult (← runCall (method.run args))
  | .read pick args => withRead pick fun method => do return .ofValue (← runCall (method.run args))
  | .write pick args =>
    withWrite pick fun method => do return .ofResult ((← runCall (method.run args)).map .write)
  | .readAs pick args type =>
    withRead pick fun method => do return .ofTyped type (← runCall (method.run args))
  | .writeAs pick args type =>
    withWrite pick fun method => do
      return .ofTyped type ((← runCall (method.run args)).map WriteResult.value)
  | .simulate pick args slot => withWrite pick fun method => runSimulation method args slot
  | .submit slot keep => runSubmission slot keep
  | .watch pick args count every pause =>
    withRead pick fun method => runWatch method args count every pause
  | .together calls => runTogether calls
  | .sleep ms => do
    modify fun s => { s with world := s.world.sleep ms }
    return .nothing
  | .refresh ctx =>
    withContext ctx fun ctx => do
      let edition ← refreshCache ctx
      modify fun s => { s with context := ctx, current := edition }
      return .edition (← numberOf edition)
  | .latest => do
    match (← get).cache.latest with
    | .ok edition => return .edition (← numberOf edition)
    | .error e => return .failed e
  | .findInScope => do replyScope (← get).scope.find
  | .findInNewTask => replyScope ({} : Scope).find
  | .takeFromScope => do
    match (← get).scope.find with
    | .ok edition =>
      modify fun s => { s with current := edition }
      return .contracts edition.contracts
    | .error e => return .failed e
  | .scope _ _ | .provide _ _ => pure .nothing

mutual

def runStep : Step → SessionM Reply
  | .scope number steps => do
    let s ← get
    let edition := (number.bind fun number => s.seen[number]?).getD s.current
    return .steps (← Scope.within edition (runSteps steps))
  | .provide ctx steps =>
    withContext ctx fun ctx => do
      let edition ← refreshCache ctx
      return .steps (← withFreshCache (Scope.within edition (runSteps steps)))
  | step => runPlain step

def runSteps : List Step → SessionM (List Report)
  | [] => pure []
  | step :: rest => do
    let first ← report (← runStep step)
    return first :: (← runSteps rest)

end

def run (s : Session) (steps : List Step) : List Notice × List Report :=
  let (notices, world) := s.world.collectNotices
  (notices, (runSteps steps { s with world }).1)

end Session

end AbiCalls
