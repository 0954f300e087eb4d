import AbiCalls.Method

namespace AbiCalls

def leastPeriod : Nat := nanosPerMilli

/-- How much later than due a tick may come before it puts off the ones after it. -/
def tolerance : Nat := 5 * nanosPerMilli

/-- What tells when to ask next. All times are in nanoseconds. -/
structure Ticker where
  period : Nat
  due : Nat
  deriving DecidableEq

namespace Ticker

def start (every : Interval) (now : Nat) : Ticker :=
  ⟨max every.nanos leastPeriod, now⟩

def tickTime (t : Ticker) (now : Nat) : Nat :=
  max now t.due

/-- The ticker after a tick at `tick`. A tick that comes too late counts the period from itself. -/
def after (t : Ticker) (tick : Nat) : Ticker :=
  if tolerance + t.due < tick then { t with due := tick + t.period }
  else { t with due := t.due + t.period }

end Ticker

/-- A watch starts its ticker when it is first asked for an item. -/
structure Watch where
  method : ReadMethod
  args : List Json
  every : Interval
  ticker : Option Ticker := none

namespace Watch

def ofMethod (m : ReadMethod) (args : List Json) : Watch :=
  { method := m, args, every := m.pollInterval }

def tickerAt (w : Watch) (now : Nat) : Ticker :=
  w.ticker.getD (.start w.every now)

def next (w : Watch) (now : Nat) : Nat × Watch :=
  let ticker := w.tickerAt now
  let tick := ticker.tickTime now
  (tick, { w with ticker := some (ticker.after tick) })

def question (w : Watch) : Call (Except Error Json) :=
  w.method.run w.args

@[simp] theorem question_next (w : Watch) (now : Nat) : (w.next now).2.question = w.question := rfl

end Watch

end AbiCalls
