import AbiCalls.Cache
import AbiCalls.Session.ResultType
import AbiCalls.Session.World

namespace AbiCalls

structure ContextRequest where
  reader : String := "r0"
  writer : String := "w0"
  caller : Option String := none
  pollInterval : Interval := defaultInterval

def ContextRequest.resolve (r : ContextRequest) : Except Error Context := do
  let caller ←
    match r.caller with
    | some text => do pure (some (← Address.ofText text))
    | none => pure none
  return ⟨⟨r.reader⟩, ⟨r.writer⟩, caller, r.pollInterval⟩

structure Pick where
  table : String := "s"
  name : String := ""
  signature : Option String := none
  arity : Option Nat := none

/-- A signature wins over a number of inputs, and that over the name alone. -/
def Pick.from? (pick : Pick) (methods : MethodTable) : Option Method :=
  match pick.signature, pick.arity with
  | some signature, _ => methods.withSignature? signature
  | none, some arity => methods.withArity? pick.name arity
  | none, none => methods.get? pick.name

inductive Route
  | byName
  | resolved
  | atDefault
  | atAddress
  | direct
  deriving DecidableEq, Repr

structure TableCall where
  table : String := "s"
  name : String
  args : List Json

inductive Step
  | contracts
  | contract (name : String)
  | bind (ctx : ContextRequest)
  | compareContext (ctx : ContextRequest)
  | store (contract : String) (address : Option String) (route : Route) (slot : String)
  | describeContract (name : String)
  | describeTable (table : String)
  | table (name : String)
  | method (pick : Pick)
  | overloads (table name : String)
  | compareTargets (a b : Pick)
  | call (call : TableCall)
  | invoke (pick : Pick) (args : List Json)
  | read (pick : Pick) (args : List Json)
  | write (pick : Pick) (args : List Json)
  | readAs (pick : Pick) (args : List Json) (type : ResultType)
  | writeAs (pick : Pick) (args : List Json) (type : ResultType)
  | simulate (pick : Pick) (args : List Json) (slot : String)
  | submit (slot : String) (keep : Bool)
  | watch (pick : Pick) (args : List Json) (count : Nat) (every : Option Interval) (pause : Nat)
  | together (calls : List TableCall)
  | sleep (ms : Nat)
  | refresh (ctx : ContextRequest)
  | latest
  | findInScope
  | findInNewTask
  | takeFromScope
  | scope (edition : Option Nat) (steps : List Step)
  | provide (ctx : ContextRequest) (steps : List Step)
  deriving Inhabited

inductive Skip
  | noTable
  | noContract
  | noMethod
  | notRead
  | notWrite
  | nothingPending
  deriving DecidableEq, Repr

def Skip.text : Skip → String
  | .noTable => "no such set"
  | .noContract => "no factory"
  | .noMethod => "no handler"
  | .notRead => "not a read"
  | .notWrite => "not a write"
  | .nothingPending => "nothing prepared"

/-- What a step comes to. Input that cannot be read is refused; what fails while it runs has failed. A
reply of several steps holds, for each, its reply with the events and notices it caused. -/
inductive Reply
  | nothing
  | skipped (reason : Skip)
  | refused (e : Error)
  | failed (e : Error)
  | text (text : String)
  | contracts (contracts : Contracts)
  | contract (contract : Contract)
  | context (ctx : Context) (same sameReversed : Bool)
  | table (methods : MethodTable)
  | method (method : Method)
  | overloads (methods : MethodTable) (name : String)
  | comparison (equal sharedAbi : Bool)
  | value (value : Json)
  | called (result : CallResult)
  | typed (value : Json)
  | pending (call : PendingWrite)
  | edition (number : Nat)
  | scoped (edition : Nat) (names : List String)
  | several (replies : List Reply)
  | steps (reports : List (Reply × List Event × List Notice))
  deriving Inhabited

abbrev Report := Reply × List Event × List Notice

namespace Reply

def ofResult : Except Error CallResult → Reply
  | .ok result => .called result
  | .error e => .failed e

def ofValue : Except Error Json → Reply
  | .ok result => .value result
  | .error e => .failed e

def ofTyped (type : ResultType) : Except Error Json → Reply
  | .error e => .failed e
  | .ok result =>
    match type.read result with
    | .ok result => .typed result
    | .error m => .failed (.carrying .badData (.plain .json m.message))

end Reply

end AbiCalls
