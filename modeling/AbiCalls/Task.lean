import AbiCalls.Scope

namespace AbiCalls

structure Surroundings where
  scope : Scope := {}
  caches : Nat → ContractCache
  nextSerial : Nat := 0

instance : HasScope Surroundings := ⟨Surroundings.scope, fun s scope => { s with scope }⟩

def Surroundings.refresh (cache : Nat) (ctx : Context) : StateM Surroundings Edition :=
  modifyGet fun s =>
    let (edition, refreshed) := (s.caches cache).refresh ctx s.nextSerial
    let caches := fun n => if n = cache then refreshed else s.caches n
    (edition, { s with caches, nextSerial := s.nextSerial + 1 })

/-- A task, by one of the courses that it can take. It may wait, look for contracts, refresh a cache, and run a
part of itself in a scope, or two parts in turns until enough of them has finished. -/
inductive Task
  | finished
  | waiting (rest : Task)
  | looking (resume : Except Error Edition → Task)
  | refreshing (cache : Nat) (ctx : Context) (resume : Edition → Task)
  | scoped (edition : Edition) (body rest : Task)
  | beside (enough : Bool → Bool → Bool) (left right rest : Task)

inductive Sight
  | found (result : Except Error Edition)
  | refreshed (cache : Nat) (ctx : Context) (edition : Edition)

/-- What is seen at a place in a task, with the scopes around that place, the innermost first. -/
structure Seen where
  scopes : List Edition := []
  sight : Sight

def Seen.inside (edition : Edition) (seen : Seen) : Seen :=
  { seen with scopes := seen.scopes ++ [edition] }

namespace Task

def provide (cache : Nat) (ctx : Context) (body rest : Task) : Task :=
  .refreshing cache ctx fun edition => .scoped edition body rest

def isFinished : Task → Bool
  | .finished => true
  | _ => false

structure Polled where
  rest : Task
  seen : List Seen

def goOn (seen : List Seen) (next : StateM Surroundings Polled) : StateM Surroundings Polled := do
  let later ← next
  return { later with seen := seen ++ later.seen }

/-- Runs a task until it waits. The scope of a part is in the slot only while that part is polled. -/
def poll : Task → StateM Surroundings Polled
  | .finished => return ⟨.finished, []⟩
  | .waiting rest => return ⟨rest, []⟩
  | .looking resume => do
    let result := (← get).scope.find
    goOn [{ sight := .found result }] (poll (resume result))
  | .refreshing cache ctx resume => do
    let edition ← Surroundings.refresh cache ctx
    goOn [{ sight := .refreshed cache ctx edition }] (poll (resume edition))
  | .scoped edition body rest => do
    let inner ← Scope.within edition (poll body)
    let seen := inner.seen.map (Seen.inside edition)
    if inner.rest.isFinished then
      goOn seen (poll rest)
    else
      return ⟨.scoped edition inner.rest rest, seen⟩
  | .beside enough left right rest => do
    let left ← poll left
    if enough left.rest.isFinished right.isFinished then
      goOn left.seen (poll rest)
    else
      let right ← poll right
      let seen := left.seen ++ right.seen
      if enough left.rest.isFinished right.rest.isFinished then
        goOn seen (poll rest)
      else
        return ⟨.beside enough left.rest right.rest rest, seen⟩

end Task

def ContractCache.provide (c : ContractCache) (ctx : Context) (serial : Nat) (body : Task) :
    Task × ContractCache :=
  let (edition, c) := c.refresh ctx serial
  (.scoped edition body .finished, c)

/-- Tasks on one thread, with what each of them has seen. A task that was dropped is gone. A task that is
started by another is one that has not been polled before. -/
structure Forest where
  tasks : List (Option Task)
  surroundings : Surroundings
  log : List (Nat × Seen) := []

inductive Move
  | poll (task : Nat)
  | drop (task : Nat)

namespace Forest

def start (catalogs : Nat → Catalog) (tasks : List Task) : Forest :=
  { tasks := tasks.map some
    surroundings := { caches := fun n => { catalog := catalogs n } } }

def step (f : Forest) : Move → Forest
  | .poll i =>
    match f.tasks[i]? with
    | some (some task) =>
      let (after, surroundings) := task.poll f.surroundings
      { tasks := f.tasks.set i (some after.rest)
        surroundings
        log := f.log ++ after.seen.map fun seen => (i, seen) }
    | _ => f
  | .drop i => { f with tasks := f.tasks.set i none }

def run (f : Forest) (moves : List Move) : Forest :=
  moves.foldl step f

def seenBy (f : Forest) (i : Nat) : List Seen :=
  (f.log.filter fun entry => entry.1 = i).map Prod.snd

end Forest

end AbiCalls
