import AbiCalls.Proofs.Grouping
import AbiCalls.Proofs.Operations
import AbiCalls.Proofs.TwoPhase

namespace AbiCalls

/-- A call that makes the same request `times` times in all, whatever the answers are, and has a number of
steps at most. Apart from that it submits to one writer. -/
inductive Call.Repeats {α : Type} (r : Request) (writer : WriterId) : Call α → Nat → Nat → Prop
  | done (result steps) : Repeats r writer (.done result) 0 steps
  | note {notice rest times steps} (h : Repeats r writer rest times steps) :
    Repeats r writer (.note notice rest) times (steps + 1)
  | query {reader q resume times steps} (same : .query reader q = r)
      (h : ∀ answer, Repeats r writer (resume answer) times steps) :
    Repeats r writer (.query reader q resume) (times + 1) (steps + 2)
  | trial {w t resume times steps} (same : .trial w t = r)
      (h : ∀ answer, Repeats r writer (resume answer) times steps) :
    Repeats r writer (.trial w t resume) (times + 1) (steps + 2)
  | submission {payload resume times steps} (h : ∀ answer, Repeats r writer (resume answer) times steps) :
    Repeats r writer (.submission writer payload resume) times (steps + 2)

/-- The request of a happening, if it names what is called. A submission does not. -/
def Happening.naming? : Happening → Option Request
  | .asked (.submission _ _) => none
  | .asked r => some r
  | _ => none

def Operation.args : Operation → List Json
  | .call args | .read args | .readAs args _ | .watch args _ _ | .write args | .simulate args => args
  | .submit _ _ => []

def Operation.askings : Operation → Access → Nat
  | .call _, _ => 1
  | .read _, .read | .readAs _ _, .read | .write _, .write | .simulate _, .write => 1
  | .watch _ _ wanted, .read => wanted.length
  | .submit _ _, _ => 0
  | .read _, .write | .readAs _ _, .write | .watch _ _ _, .write | .write _, .read
  | .simulate _, .read => 0

/-- The request for a function of a contract. A trial is made on behalf of the caller. -/
def Context.requestFor (ctx : Context) (abi : Abi) (address : Address) (f : ContractFunction)
    (args : List Json) : Request :=
  match f.mutability.access with
  | .read => .query ctx.reader ⟨⟨address, abi, f.name⟩, args⟩
  | .write => .trial ctx.writer ⟨⟨address, abi, f.name⟩, ctx.caller, args⟩

namespace Call

variable {α β : Type} {r : Request} {writer : WriterId}

theorem Repeats.mono {c : Call α} {times steps more : Nat} (h : c.Repeats r writer times steps)
    (le : steps ≤ more) : c.Repeats r writer times more := by
  induction h generalizing more with
  | done result steps => exact .done result more
  | note h ih =>
    obtain ⟨later, rfl⟩ := Nat.exists_eq_add_of_le' (show 1 ≤ more by omega)
    exact .note (ih (by omega))
  | query same h ih =>
    obtain ⟨later, rfl⟩ := Nat.exists_eq_add_of_le' (show 2 ≤ more by omega)
    exact .query same fun answer => ih answer (by omega)
  | trial same h ih =>
    obtain ⟨later, rfl⟩ := Nat.exists_eq_add_of_le' (show 2 ≤ more by omega)
    exact .trial same fun answer => ih answer (by omega)
  | submission h ih =>
    obtain ⟨later, rfl⟩ := Nat.exists_eq_add_of_le' (show 2 ≤ more by omega)
    exact .submission fun answer => ih answer (by omega)

theorem Repeats.bind {c : Call α} {f : α → Call β} {times steps times' steps' : Nat}
    (h : c.Repeats r writer times steps) (hf : ∀ result, (f result).Repeats r writer times' steps') :
    (c.bind f).Repeats r writer (times + times') (steps + steps') := by
  induction h with
  | done result steps =>
    rw [Nat.zero_add]
    exact (hf result).mono (Nat.le_add_left steps' steps)
  | note h ih =>
    rw [Nat.succ_add]
    exact .note ih
  | query same h ih =>
    rw [Nat.succ_add, Nat.add_right_comm]
    exact .query same ih
  | trial same h ih =>
    rw [Nat.succ_add, Nat.add_right_comm]
    exact .trial same ih
  | submission h ih =>
    rw [Nat.add_right_comm]
    exact .submission ih

theorem Repeats.map {c : Call α} {times steps : Nat} (h : c.Repeats r writer times steps)
    (f : α → β) : (c.map f).Repeats r writer times steps :=
  h.bind fun result => .done (f result) 0

/-- What is seen of a call that repeats a request. In the end it has made the request as often as it does. -/
structure Repeated (r : Request) (writer : WriterId) (times : Nat) (complete : Prop)
    (seen : List Happening) : Prop where
  named : ∃ k ≤ times, seen.filterMap Happening.naming? = List.replicate k r ∧ (complete → k = times)
  submitted : ∀ w payload, .asked (.submission w payload) ∈ seen → w = writer

namespace Repeated

variable {times : Nat} {complete complete' : Prop} {seen : List Happening}

theorem none (ends : complete → times = 0) : Repeated r writer times complete [] :=
  ⟨⟨0, Nat.zero_le times, rfl, fun h => (ends h).symm⟩, by simp⟩

theorem ask (naming : (Happening.asked r).naming? = some r) (ends : complete' → complete)
    (h : Repeated r writer times complete seen) :
    Repeated r writer (times + 1) complete' (.asked r :: seen) := by
  obtain ⟨⟨k, hk, hnamed, hover⟩, hsubmitted⟩ := h
  refine ⟨⟨k + 1, by omega, ?_, fun h => by rw [hover (ends h)]⟩, fun w payload hmem => ?_⟩
  · rw [List.filterMap_cons_some naming, hnamed, List.replicate_succ]
  · rcases List.mem_cons.mp hmem with heq | hmem
    · rw [← heq] at naming
      cases naming
    · exact hsubmitted w payload hmem

theorem submit (payload : Json) (ends : complete' → complete) (h : Repeated r writer times complete seen) :
    Repeated r writer times complete' (.asked (.submission writer payload) :: seen) := by
  obtain ⟨⟨k, hk, hnamed, hover⟩, hsubmitted⟩ := h
  refine ⟨⟨k, hk, hnamed, fun h => hover (ends h)⟩, fun w own hmem => ?_⟩
  rcases List.mem_cons.mp hmem with heq | hmem
  · cases heq
    rfl
  · exact hsubmitted w own hmem

theorem answer {happening : Happening} (isAnswer : ∀ r, happening ≠ .asked r)
    (h : Repeated r writer times complete seen) : Repeated r writer times complete (happening :: seen) := by
  obtain ⟨⟨k, hk, hnamed, hover⟩, hsubmitted⟩ := h
  have silent : happening.naming? = Option.none := by
    cases happening with
    | asked r => exact absurd rfl (isAnswer r)
    | _ => rfl
  refine ⟨⟨k, hk, ?_, hover⟩, fun w payload hmem => ?_⟩
  · rw [List.filterMap_cons_none silent, hnamed]
  · rcases List.mem_cons.mp hmem with heq | hmem
    · exact absurd heq.symm (isAnswer _)
    · exact hsubmitted w payload hmem

end Repeated

theorem Repeats.of_path {c : Call α} {times bound steps : Nat} {seen : List Happening} {f : Flight α}
    (h : c.Repeats r writer times bound) (path : c.Path steps seen f) :
    Repeated r writer times (bound ≤ steps) seen := by
  induction path generalizing times bound with
  | here call =>
    refine .none fun bounded => ?_
    cases h with
    | done => rfl
    | _ => omega
  | done result steps =>
    cases h with
    | done => exact .none fun _ => rfl
  | note path ih =>
    cases h with
    | note h => simpa only [Nat.add_le_add_iff_right] using ih h
  | querying reader query resume =>
    cases h with
    | query same h =>
      subst same
      exact (Repeated.none False.elim).ask rfl (by omega)
  | trying writer trial resume =>
    cases h with
    | trial same h =>
      subst same
      exact (Repeated.none False.elim).ask rfl (by omega)
  | submitting writer payload resume =>
    cases h with
    | submission h => exact (Repeated.none False.elim).submit payload (by omega)
  | query path ih =>
    cases h with
    | query same h =>
      subst same
      exact ((ih (h _)).answer (by simp)).ask rfl (by omega)
  | trial path ih =>
    cases h with
    | trial same h =>
      subst same
      exact ((ih (h _)).answer (by simp)).ask rfl (by omega)
  | submission path ih =>
    cases h with
    | submission h => exact ((ih (h _)).answer (by simp)).submit _ (by omega)

end Call

theorem ReadMethod.repeats_run (m : ReadMethod) (args : List Json) (writer : WriterId) :
    (m.run args).Repeats (m.request args) writer 1 3 := by
  refine .note (.query rfl fun answer => ?_)
  cases answer <;> exact .done _ 0

theorem Watch.repeats_items (w : Watch) (wanted : List Nat) (writer : WriterId) :
    (w.items wanted).Repeats (w.method.request w.args) writer wanted.length (3 * wanted.length) := by
  induction wanted generalizing w with
  | nil => exact .done [] 0
  | cons now wanted ih =>
    have question := (w.method.repeats_run w.args writer).bind fun item =>
      (ih (w.next now).2).map fun items => ((w.next now).1, item) :: items
    rw [List.length_cons, Nat.add_comm wanted.length, Nat.mul_add]
    exact question

theorem PendingWrite.repeats_submit (p : PendingWrite) (r : Request) :
    p.submit.Repeats r p.writer 0 4 := by
  refine .note (.submission fun answer => ?_)
  rcases answer with failure | _ | transaction
  · exact .done _ 1
  · exact .note (.done _ 0)
  · exact .done _ 1

theorem WriteMethod.repeats_simulate (m : WriteMethod) (args : List Json) :
    (m.simulate args).Repeats (m.trialRequest args) m.writer 1 3 := by
  refine .note (.trial rfl fun answer => ?_)
  cases answer <;> exact .done _ 0

theorem WriteMethod.repeats_run (m : WriteMethod) (args : List Json) :
    (m.run args).Repeats (m.trialRequest args) m.writer 1 stepsPerInvocation := by
  refine .note (.trial rfl fun answer => ?_)
  cases answer with
  | error failure => exact .done _ 4
  | ok result => exact PendingWrite.repeats_submit ⟨m.target, m.writer, result.payload, result.value⟩ _

def stepsFor (askings : Nat) : Nat :=
  stepsPerInvocation * (askings + 1)

theorem Operation.repeats_on_read (op : Operation) (m : ReadMethod) (writer : WriterId) :
    (op.on (.read m)).Repeats (m.request op.args) writer (op.askings .read)
      (stepsFor (op.askings .read)) := by
  have once : 3 ≤ stepsFor 1 := by decide
  cases op with
  | call args => exact (((m.repeats_run args writer).map _).map _).mono once
  | read args => exact ((m.repeats_run args writer).map _).mono once
  | readAs args use => exact ((m.repeats_run args writer).map _).mono once
  | watch args every wanted =>
    refine (((m.watchEvery args every).repeats_items wanted writer).map _).mono ?_
    simp only [stepsFor, stepsPerInvocation, askings]
    omega
  | write args => exact .done _ _
  | simulate args => exact .done _ _
  | submit payload value => exact .done _ _

theorem Operation.repeats_on_write (op : Operation) (m : WriteMethod) :
    (op.on (.write m)).Repeats (m.trialRequest op.args) m.writer (op.askings .write)
      (stepsFor (op.askings .write)) := by
  have once : stepsPerInvocation ≤ stepsFor 1 := by decide
  have tried : 3 ≤ stepsFor 1 := by decide
  have submitted : 4 ≤ stepsFor 0 := by decide
  cases op with
  | call args => exact (((m.repeats_run args).map _).map _).mono once
  | write args => exact ((m.repeats_run args).map _).mono once
  | simulate args => exact ((m.repeats_simulate args).map _).mono tried
  | submit payload value =>
    have submission := PendingWrite.repeats_submit ⟨m.target, m.writer, payload, value⟩
      (m.trialRequest [])
    exact (submission.map _).mono submitted
  | read args => exact .done _ _
  | readAs args use => exact .done _ _
  | watch args every wanted => exact .done _ _

theorem Abi.repeats_run (abi : Abi) (ctx : Context) (address : Address) (f : ContractFunction)
    (args : List Json) :
    ((abi.methodOf ctx address f).run args).Repeats (ctx.requestFor abi address f args) ctx.writer 1
      stepsPerInvocation := by
  unfold Abi.methodOf Method.ofFunction ContractFunction.access Context.requestFor
  cases f.mutability.access with
  | read =>
    have run := ReadMethod.repeats_run ⟨⟨address, abi, f.name⟩, f, ctx.reader, ctx.pollInterval⟩ args
      ctx.writer
    exact (run.map _).mono (by decide)
  | write =>
    have run := WriteMethod.repeats_run ⟨⟨address, abi, f.name⟩, f, ctx.writer, ctx.caller⟩ args
    exact run.map _

theorem Operation.repeats_on (op : Operation) (abi : Abi) (ctx : Context) (address : Address)
    (f : ContractFunction) :
    (op.on (abi.methodOf ctx address f)).Repeats (ctx.requestFor abi address f op.args) ctx.writer
      (op.askings f.mutability.access) (stepsFor (op.askings f.mutability.access)) := by
  unfold Abi.methodOf Method.ofFunction ContractFunction.access Context.requestFor
  cases f.mutability.access with
  | read =>
    exact op.repeats_on_read ⟨⟨address, abi, f.name⟩, f, ctx.reader, ctx.pollInterval⟩ ctx.writer
  | write => exact op.repeats_on_write ⟨⟨address, abi, f.name⟩, f, ctx.writer, ctx.caller⟩

end AbiCalls
