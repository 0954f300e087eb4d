namespace AbiCalls

inductive ErrorKind
  | query
  | simulation
  | submission
  | configuration
  | missingAddress
  | unknownContract
  | unknownFunction
  | badData
  | file
  deriving DecidableEq, Repr

def ErrorKind.text : ErrorKind → String
  | .query => "remote query failed"
  | .simulation => "simulation of the call failed"
  | .submission => "submission of the prepared call failed"
  | .configuration => "contracts provider is not configured"
  | .missingAddress => "no contract address was supplied"
  | .unknownContract => "unknown contract"
  | .unknownFunction => "unknown contract function"
  | .badData => "data conversion error"
  | .file => "I/O error"

def ErrorKind.fromExecutor : ErrorKind → Bool
  | .query | .simulation | .submission => true
  | _ => false

inductive Origin
  | executor
  | json
  | other
  deriving DecidableEq, Repr

mutual

inductive Error
  | bare (kind : ErrorKind)
  | stated (kind : ErrorKind) (message : String)
  | carrying (kind : ErrorKind) (inner : Failure)
  | introduced (kind : ErrorKind) (message : String) (inner : Failure)

/-- Whatever an error can carry: a text of its own, a text with a failure of an executor below it, or
another error. -/
inductive Failure
  | plain (origin : Origin) (text : String)
  | caused (text : String) (source : Failure)
  | wrapped (error : Error)

end

def Error.kind : Error → ErrorKind
  | .bare kind => kind
  | .stated kind _ => kind
  | .carrying kind _ => kind
  | .introduced kind _ _ => kind

def Error.fromExecutor (e : Error) : Bool :=
  e.kind.fromExecutor

mutual

def Error.text : Error → String
  | .bare kind => kind.text
  | .stated _ message => message
  | .carrying _ inner => inner.text
  | .introduced _ message inner => message ++ ": " ++ inner.text

def Failure.text : Failure → String
  | .plain _ text => text
  | .caused text _ => text
  | .wrapped error => error.text

end

mutual

/-- The texts of the chain below an error. The failure it carries is no part of it, since the text of
the error already shows it. -/
def Error.sources : Error → List String
  | .bare _ => []
  | .stated _ _ => []
  | .carrying _ inner => inner.sources
  | .introduced _ _ inner => inner.sources

def Failure.sources : Failure → List String
  | .plain _ _ => []
  | .caused _ source => source.text :: source.sources
  | .wrapped error => error.sources

end

/-- The failure that an error carries, or else the error itself. -/
def Error.carried : Error → Except Error Failure
  | .carrying _ inner => .ok inner
  | .introduced _ _ inner => .ok inner
  | error => .error error

end AbiCalls
