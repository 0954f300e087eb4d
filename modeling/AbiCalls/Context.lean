import AbiCalls.Address
import AbiCalls.Interval

namespace AbiCalls

/-- Names one executor of reads. Two contexts share it if they hold the same name. -/
structure ReaderId where
  id : String
  deriving DecidableEq

structure WriterId where
  id : String
  deriving DecidableEq

structure Context where
  reader : ReaderId
  writer : WriterId
  caller : Option Address
  pollInterval : Interval
  deriving DecidableEq

def defaultInterval : Interval := .ofMillis 4000

namespace Context

def withInterval (ctx : Context) (interval : Interval) : Context :=
  { ctx with pollInterval := interval }

def hasCaller (ctx : Context) : Bool :=
  ctx.caller.isSome

/-- Executors are compared by identity, the rest by value. -/
def agrees (a b : Context) : Bool :=
  a.reader = b.reader && a.writer = b.writer && a.caller = b.caller
    && a.pollInterval = b.pollInterval

def detailed (ctx : Context) : String :=
  "ExecutionContext \x7b caller: CallerIdentity \x7b address: " ++ Address.detailed? ctx.caller
    ++ " \x7d, poll_interval: " ++ ctx.pollInterval.detailed ++ ", .. \x7d"

end Context

def anonymousContext : Context :=
  ⟨⟨"r0"⟩, ⟨"w0"⟩, none, defaultInterval⟩

end AbiCalls
