import AbiCalls.Session.Script
import AbiCalls.Watch

namespace AbiCalls

/-- A request to an executor with the time in nanoseconds at which it was made. -/
structure Event where
  time : Nat
  request : Request

/-- What happens around calls. Events and notices stand with the latest first until they are collected. -/
structure World where
  scripts : Scripts
  tally : Tally := {}
  now : Nat := 0
  events : List Event := []
  notices : List Notice := []

/-- Thirty years of 365 days, in milliseconds. Whoever asks to wait longer is woken after this time. -/
def longestWait : Nat := 30 * 365 * 24 * 60 * 60 * 1000

namespace World

def record (w : World) (request : Request) : World :=
  { w with events := ⟨w.now, request⟩ :: w.events }

def log (w : World) (notice : Notice) : World :=
  { w with notices := notice :: w.notices }

def logAll (w : World) (notices : List Notice) : World :=
  notices.foldl log w

def wakeAfter (w : World) (ms : Nat) : Nat :=
  w.now + nanosPerMilli * min ms longestWait

def sleep (w : World) (ms : Nat) : World :=
  { w with now := w.wakeAfter ms }

def timesAsked (counts : NameMap Nat) (id : String) : Nat :=
  (counts.get? id).getD 0

def countOne (counts : NameMap Nat) (id : String) : NameMap Nat :=
  counts.insert id (timesAsked counts id + 1)

def ask (w : World) (reader : ReaderId) (query : Query) : Timed (Except Failure Json) × World :=
  (w.scripts.queryAnswer reader (timesAsked w.tally.queries reader.id),
    { w.record (.query reader query) with
      tally := { w.tally with queries := countOne w.tally.queries reader.id } })

def attempt (w : World) (writer : WriterId) (trial : Trial) :
    Timed (Except Failure TrialResult) × World :=
  (w.scripts.trialAnswer writer (timesAsked w.tally.trials writer.id) trial,
    { w.record (.trial writer trial) with
      tally := { w.tally with trials := countOne w.tally.trials writer.id } })

def submit (w : World) (writer : WriterId) (payload : Json) :
    Timed (Except Failure (Option TransactionId)) × World :=
  (w.scripts.submissionAnswer writer (timesAsked w.tally.submissions writer.id),
    { w.record (.submission writer payload) with
      tally := { w.tally with submissions := countOne w.tally.submissions writer.id } })

def run {α : Type} : Call α → World → α × World
  | .done result, w => (result, w)
  | .note notice rest, w => run rest (w.log notice)
  | .query reader query resume, w =>
    let (timed, w) := w.ask reader query
    run (resume timed.answer) (w.sleep timed.delay)
  | .trial writer trial resume, w =>
    let (timed, w) := w.attempt writer trial
    run (resume timed.answer) (w.sleep timed.delay)
  | .submission writer payload resume, w =>
    let (timed, w) := w.submit writer payload
    run (resume timed.answer) (w.sleep timed.delay)

/-- A call among others: it has its result, or goes on when the clock reaches a time. -/
inductive Running (α : Type)
  | finished (result : α)
  | asleep (wake : Nat) (rest : Call α)

def advance {α : Type} : Call α → World → Running α × World
  | .done result, w => (.finished result, w)
  | .note notice rest, w => advance rest (w.log notice)
  | .query reader query resume, w =>
    let (timed, w) := w.ask reader query
    if timed.delay = 0 then advance (resume timed.answer) w
    else (.asleep (w.wakeAfter timed.delay) (resume timed.answer), w)
  | .trial writer trial resume, w =>
    let (timed, w) := w.attempt writer trial
    if timed.delay = 0 then advance (resume timed.answer) w
    else (.asleep (w.wakeAfter timed.delay) (resume timed.answer), w)
  | .submission writer payload resume, w =>
    let (timed, w) := w.submit writer payload
    if timed.delay = 0 then advance (resume timed.answer) w
    else (.asleep (w.wakeAfter timed.delay) (resume timed.answer), w)

def wakeDue {α : Type} : List (Running α) → World → List (Running α) × World
  | [], w => ([], w)
  | .finished result :: rest, w =>
    let (rest, w) := wakeDue rest w
    (.finished result :: rest, w)
  | .asleep wake call :: rest, w =>
    let (first, w) := if wake ≤ w.now then advance call w else (.asleep wake call, w)
    let (rest, w) := wakeDue rest w
    (first :: rest, w)

def nextWake? {α : Type} (calls : List (Running α)) : Option Nat :=
  (calls.filterMap fun
    | .finished _ => none
    | .asleep wake _ => some wake).min?

def runAwake {α : Type} : Nat → List (Running α) → World → List (Running α) × World
  | 0, calls, w => (calls, w)
  | wakes + 1, calls, w =>
    match nextWake? calls with
    | none => (calls, w)
    | some wake =>
      let (calls, w) := wakeDue calls { w with now := max w.now wake }
      runAwake wakes calls w

/-- How often the call of a method waits at most: for its trial and for its submission. -/
def waitsPerCall : Nat := 2

def runAll {α : Type} (calls : List (Call α)) (w : World) : List (Option α) × World :=
  let started := calls.map fun call => Running.asleep w.now call
  let (running, w) := wakeDue started w
  let (ended, w) := runAwake (waitsPerCall * calls.length) running w
  (ended.map fun
    | .finished result => some result
    | .asleep _ _ => none, w)

/-- Takes a number of items of a watch. After each the consumer waits for `pause` milliseconds. -/
def watchItems (pause : Nat) : Nat → Watch → World → List (Except Error Json) × World
  | 0, _, w => ([], w)
  | count + 1, watch, w =>
    let (tick, watch) := watch.next w.now
    let (item, w) := run watch.question { w with now := tick }
    let (items, w) := watchItems pause count watch (w.sleep pause)
    (item :: items, w)

def collectEvents (w : World) : List Event × World :=
  (w.events.reverse, { w with events := [] })

def collectNotices (w : World) : List Notice × World :=
  (w.notices.reverse, { w with notices := [] })

end World

end AbiCalls
