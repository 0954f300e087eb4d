import AbiCalls.Proofs.Interleaving
import AbiCalls.Session.Step
import AbiCalls.Watch

namespace AbiCalls

def Request.access : Request → Access
  | .query _ _ => .read
  | .trial _ _ | .submission _ _ => .write

/-- A call whose requests all have a property, whatever the answers are. -/
def Call.AsksOnly {α : Type} (p : Request → Prop) : Call α → Prop
  | .done _ => True
  | .note _ rest => rest.AsksOnly p
  | .query reader q resume => p (.query reader q) ∧ ∀ answer, (resume answer).AsksOnly p
  | .trial writer t resume => p (.trial writer t) ∧ ∀ answer, (resume answer).AsksOnly p
  | .submission writer payload resume =>
    p (.submission writer payload) ∧ ∀ answer, (resume answer).AsksOnly p

/-- The items of a watch, each with the time of its question. The times say from when on they are wanted. -/
def Watch.items (w : Watch) : List Nat → Call (List (Nat × Except Error Json))
  | [] => .done []
  | wanted :: later =>
    let (tick, next) := w.next wanted
    w.question.bind fun item => (next.items later).map fun items => (tick, item) :: items

inductive Upshot
  | reply (reply : Reply)
  | items (items : List (Nat × Except Error Json))

/-- The operations on a method. A typed read may put its result to any use, and a submission may be one of
several that go back to the same trial. -/
inductive Operation
  | call (args : List Json)
  | read (args : List Json)
  | readAs (args : List Json) (use : Except Error Json → Reply)
  | watch (args : List Json) (every : Option Interval) (wanted : List Nat)
  | write (args : List Json)
  | simulate (args : List Json)
  | submit (payload value : Json)

def Reply.ofPending : Except Error PendingWrite → Reply
  | .ok prepared => .pending prepared
  | .error e => .failed e

def ReadMethod.watchEvery (m : ReadMethod) (args : List Json) (every : Option Interval) : Watch :=
  { Watch.ofMethod m args with every := every.getD m.pollInterval }

/-- Reads have no operations of writes, and the other way around. -/
def Operation.on (op : Operation) (m : Method) : Call Upshot :=
  match op, m with
  | .call args, m => (m.run args).map fun result => .reply (.ofResult result)
  | .read args, .read m => (m.run args).map fun result => .reply (.ofValue result)
  | .readAs args use, .read m => (m.run args).map fun result => .reply (use result)
  | .watch args every wanted, .read m => ((m.watchEvery args every).items wanted).map .items
  | .write args, .write m => (m.run args).map fun result => .reply (.ofResult (result.map .write))
  | .simulate args, .write m => (m.simulate args).map fun result => .reply (.ofPending result)
  | .submit payload value, .write m =>
    (PendingWrite.mk m.target m.writer payload value).submit.map fun result =>
      .reply (.ofResult (result.map .write))
  | .write _, .read _ | .simulate _, .read _ | .submit _ _, .read _ =>
    .done (.reply (.skipped .notWrite))
  | .read _, .write _ | .readAs _ _, .write _ | .watch _ _ _, .write _ =>
    .done (.reply (.skipped .notRead))

namespace Call

variable {α β : Type} {p : Request → Prop}

theorem AsksOnly.imp {q : Request → Prop} {c : Call α} (hc : c.AsksOnly p) (h : ∀ r, p r → q r) :
    c.AsksOnly q := by
  induction c with
  | done result => trivial
  | note notice rest ih => exact ih hc
  | query reader query resume ih => exact ⟨h _ hc.1, fun answer => ih answer (hc.2 answer)⟩
  | trial writer trial resume ih => exact ⟨h _ hc.1, fun answer => ih answer (hc.2 answer)⟩
  | submission writer payload resume ih => exact ⟨h _ hc.1, fun answer => ih answer (hc.2 answer)⟩

theorem AsksOnly.bind {c : Call α} {f : α → Call β} (hc : c.AsksOnly p)
    (hf : ∀ result, (f result).AsksOnly p) : (c.bind f).AsksOnly p := by
  induction c with
  | done result => exact hf result
  | note notice rest ih => exact ih hc
  | query reader query resume ih => exact ⟨hc.1, fun answer => ih answer (hc.2 answer)⟩
  | trial writer trial resume ih => exact ⟨hc.1, fun answer => ih answer (hc.2 answer)⟩
  | submission writer payload resume ih => exact ⟨hc.1, fun answer => ih answer (hc.2 answer)⟩

theorem AsksOnly.map {c : Call α} (hc : c.AsksOnly p) (f : α → β) : (c.map f).AsksOnly p :=
  hc.bind fun _ => trivial

theorem asked_of_mem {r r' : Request} {happening : Happening} {seen : List Happening}
    (answer : ∀ r, happening ≠ .asked r) (h : .asked r ∈ .asked r' :: happening :: seen) :
    r = r' ∨ .asked r ∈ seen := by
  rcases List.mem_cons.mp h with heq | h
  · exact .inl (Happening.asked.inj heq)
  · rcases List.mem_cons.mp h with heq | h
    · exact absurd heq.symm (answer r)
    · exact .inr h

theorem AsksOnly.of_path {c : Call α} (hc : c.AsksOnly p) {steps : Nat} {seen : List Happening}
    {f : Flight α} (path : c.Path steps seen f) {r : Request} (hr : .asked r ∈ seen) : p r := by
  induction path with
  | here call => cases hr
  | done result steps => cases hr
  | note path ih => exact ih hc hr
  | querying reader query resume =>
    cases List.mem_singleton.mp hr
    exact hc.1
  | trying writer trial resume =>
    cases List.mem_singleton.mp hr
    exact hc.1
  | submitting writer payload resume =>
    cases List.mem_singleton.mp hr
    exact hc.1
  | query path ih =>
    rcases asked_of_mem (by simp) hr with rfl | hr
    · exact hc.1
    · exact ih (hc.2 _) hr
  | trial path ih =>
    rcases asked_of_mem (by simp) hr with rfl | hr
    · exact hc.1
    · exact ih (hc.2 _) hr
  | submission path ih =>
    rcases asked_of_mem (by simp) hr with rfl | hr
    · exact hc.1
    · exact ih (hc.2 _) hr

end Call

theorem ReadMethod.asksOnly_run (m : ReadMethod) (args : List Json) :
    (m.run args).AsksOnly fun r => r.access = .read := by
  refine ⟨rfl, fun answer => ?_⟩
  cases answer <;> trivial

theorem Watch.asksOnly_items (w : Watch) (wanted : List Nat) :
    (w.items wanted).AsksOnly fun r => r.access = .read := by
  induction wanted generalizing w with
  | nil => trivial
  | cons now wanted ih =>
    have question := w.method.asksOnly_run w.args
    exact question.bind fun item => (ih (w.next now).2).map _

theorem PendingWrite.asksOnly_submit (pending : PendingWrite) :
    pending.submit.AsksOnly fun r => r.access = .write := by
  refine ⟨rfl, fun answer => ?_⟩
  rcases answer with failure | _ | transaction <;> trivial

theorem WriteMethod.asksOnly_simulate (m : WriteMethod) (args : List Json) :
    (m.simulate args).AsksOnly fun r => r.access = .write := by
  refine ⟨rfl, fun answer => ?_⟩
  cases answer <;> trivial

theorem WriteMethod.asksOnly_run (m : WriteMethod) (args : List Json) :
    (m.run args).AsksOnly fun r => r.access = .write := by
  apply (m.asksOnly_simulate args).bind
  intro result
  cases result with
  | ok pending => exact pending.asksOnly_submit
  | error e => trivial

theorem Method.asksOnly_run (m : Method) (args : List Json) :
    (m.run args).AsksOnly fun r => r.access = m.access := by
  cases m with
  | read m => exact (m.asksOnly_run args).map _
  | write m => exact (m.asksOnly_run args).map _

/-- Whatever is done with a method, its requests have the access of the method. -/
theorem Operation.asksOnly_on (op : Operation) (m : Method) :
    (op.on m).AsksOnly fun r => r.access = m.access := by
  cases op with
  | call args => exact (m.asksOnly_run args).map _
  | read args =>
    cases m with
    | read m => exact (m.asksOnly_run args).map _
    | write m => trivial
  | readAs args use =>
    cases m with
    | read m => exact (m.asksOnly_run args).map _
    | write m => trivial
  | watch args every wanted =>
    cases m with
    | read m => exact ((m.watchEvery args every).asksOnly_items wanted).map _
    | write m => trivial
  | write args =>
    cases m with
    | read m => trivial
    | write m => exact (m.asksOnly_run args).map _
  | simulate args =>
    cases m with
    | read m => trivial
    | write m => exact (m.asksOnly_simulate args).map _
  | submit payload value =>
    cases m with
    | read m => trivial
    | write m => exact (PendingWrite.asksOnly_submit _).map _

end AbiCalls
