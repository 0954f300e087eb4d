import AbiCalls.Abi.Member
import AbiCalls.Context
import AbiCalls.Notice

namespace AbiCalls

structure Target where
  address : Address
  abi : Abi
  functionName : String
  deriving DecidableEq

def Target.text (t : Target) : String :=
  t.functionName ++ "@" ++ t.address.text

structure Query where
  target : Target
  args : List Json

/-- A trial run on behalf of an account, or of nobody. -/
structure Trial where
  target : Target
  account : Option Address
  args : List Json

/-- What a successful trial run yields: a payload for submission, which only the writer understands, and
the value that the call would return. -/
structure TrialResult where
  payload : Json
  value : Json

inductive Request
  | query (reader : ReaderId) (query : Query)
  | trial (writer : WriterId) (trial : Trial)
  | submission (writer : WriterId) (payload : Json)

/-- A computation that asks executors on its way to a result. A submission for which there is no signer
is answered without a transaction. -/
inductive Call (α : Type)
  | done (result : α)
  | note (notice : Notice) (rest : Call α)
  | query (reader : ReaderId) (query : Query) (resume : Except Failure Json → Call α)
  | trial (writer : WriterId) (trial : Trial) (resume : Except Failure TrialResult → Call α)
  | submission (writer : WriterId) (payload : Json)
      (resume : Except Failure (Option TransactionId) → Call α)

namespace Call

def bind {α β : Type} (c : Call α) (f : α → Call β) : Call β :=
  match c with
  | .done result => f result
  | .note notice rest => .note notice (rest.bind f)
  | .query reader q resume => .query reader q fun answer => (resume answer).bind f
  | .trial writer t resume => .trial writer t fun answer => (resume answer).bind f
  | .submission writer payload resume =>
    .submission writer payload fun answer => (resume answer).bind f

def map {α β : Type} (f : α → β) (c : Call α) : Call β :=
  c.bind fun result => .done (f result)

end Call

end AbiCalls
