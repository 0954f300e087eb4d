import AbiCalls.Call

namespace AbiCalls

structure ReadMethod where
  target : Target
  function : ContractFunction
  reader : ReaderId
  pollInterval : Interval

structure WriteMethod where
  target : Target
  function : ContractFunction
  writer : WriterId
  account : Option Address

/-- The transaction, if there was a signer, and the value seen in the trial. -/
structure WriteResult where
  transaction : Option TransactionId
  value : Json

def WriteResult.isSent (r : WriteResult) : Bool :=
  r.transaction.isSome

inductive CallResult
  | read (value : Json)
  | write (result : WriteResult)

def CallResult.value : CallResult → Json
  | .read value => value
  | .write result => result.value

/-- One question to the reader. Its failure comes back whole, as a failed query. -/
def ReadMethod.run (m : ReadMethod) (args : List Json) : Call (Except Error Json) :=
  .note (.reading m.target.text args.length) <|
    .query m.reader ⟨m.target, args⟩ fun
      | .ok value => .done (.ok value)
      | .error failure => .done (.error (.carrying .query failure))

structure PendingWrite where
  target : Target
  writer : WriterId
  payload : Json
  value : Json

def PendingWrite.submit (p : PendingWrite) : Call (Except Error WriteResult) :=
  .note (.submitting p.target.text) <|
    .submission p.writer p.payload fun
      | .ok (some transaction) => .done (.ok ⟨some transaction, p.value⟩)
      | .ok none => .note (.notSubmitted p.target.text) (.done (.ok ⟨none, p.value⟩))
      | .error failure => .done (.error (.carrying .submission failure))

def WriteMethod.simulate (m : WriteMethod) (args : List Json) : Call (Except Error PendingWrite) :=
  .note (.simulating m.target.text args.length) <|
    .trial m.writer ⟨m.target, m.account, args⟩ fun
      | .ok result => .done (.ok ⟨m.target, m.writer, result.payload, result.value⟩)
      | .error failure => .done (.error (.carrying .simulation failure))

/-- A call whose trial fails is not submitted. -/
def WriteMethod.run (m : WriteMethod) (args : List Json) : Call (Except Error WriteResult) :=
  (m.simulate args).bind fun
    | .ok pending => pending.submit
    | .error e => .done (.error e)

inductive Method
  | read (method : ReadMethod)
  | write (method : WriteMethod)

namespace Method

/-- The mutability of the function alone decides how it is called. -/
def ofFunction (target : Target) (f : ContractFunction) (ctx : Context) : Method :=
  match f.access with
  | .read => .read ⟨target, f, ctx.reader, ctx.pollInterval⟩
  | .write => .write ⟨target, f, ctx.writer, ctx.caller⟩

def access : Method → Access
  | .read _ => .read
  | .write _ => .write

def function : Method → ContractFunction
  | .read m => m.function
  | .write m => m.function

def target : Method → Target
  | .read m => m.target
  | .write m => m.target

def read? : Method → Option ReadMethod
  | .read m => some m
  | .write _ => none

def write? : Method → Option WriteMethod
  | .read _ => none
  | .write m => some m

def run (m : Method) (args : List Json) : Call (Except Error CallResult) :=
  match m with
  | .read m => (m.run args).map (Except.map .read)
  | .write m => (m.run args).map (Except.map .write)

end Method

end AbiCalls
