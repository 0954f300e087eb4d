import AbiCalls.Proofs.Dispatch

namespace AbiCalls

mutual

/-- The next failure in the chain below an error. It is not the one that the error carries, since the text of the
error shows that one already. -/
def Error.source? : Error → Option Failure
  | .bare _ => none
  | .stated _ _ => none
  | .carrying _ inner => inner.source?
  | .introduced _ _ inner => inner.source?

def Failure.source? : Failure → Option Failure
  | .plain _ _ => none
  | .caused _ source => some source
  | .wrapped error => error.source?

end

mutual

/-- All texts in an error, however deep, with those on the outside first. -/
def Error.texts : Error → List String
  | .bare kind => [kind.text]
  | .stated _ message => [message]
  | .carrying _ inner => inner.texts
  | .introduced _ message inner => message :: inner.texts

def Failure.texts : Failure → List String
  | .plain _ text => [text]
  | .caused text source => text :: source.texts
  | .wrapped error => error.texts

end

def Error.rendered (e : Error) : String :=
  ": ".intercalate (e.text :: e.sources)

def Failure.rendered (f : Failure) : String :=
  ": ".intercalate (f.text :: f.sources)

inductive Wrapper
  | carrying (kind : ErrorKind)
  | introduced (kind : ErrorKind) (message : String)

def Wrapper.around : Wrapper → Failure → Error
  | .carrying kind, inner => .carrying kind inner
  | .introduced kind message, inner => .introduced kind message inner

def Wrapper.message? : Wrapper → Option String
  | .carrying _ => none
  | .introduced _ message => some message

def Failure.wrappedIn (f : Failure) (wrappers : List Wrapper) : Failure :=
  wrappers.foldr (fun wrapper inner => .wrapped (wrapper.around inner)) f

def Error.Holds (e : Error) (inner : Failure) : Prop :=
  ∃ wrapper : Wrapper, e = wrapper.around inner

/-- An error of a kind that shows a failure and nothing else, and gives it back. -/
structure Error.Shows (e : Error) (kind : ErrorKind) (failure : Failure) : Prop where
  kind_eq : e.kind = kind
  text_eq : e.text = failure.text
  source_eq : e.source? = failure.source?
  sources_eq : e.sources = failure.sources
  carried_eq : e.carried = .ok failure

/-- An executor refuses what it was asked for, which is an error of the kind of the request. -/
inductive Happening.Refuses : Happening → ErrorKind → Failure → Prop
  | query (failure : Failure) : Refuses (.queried (.error failure)) .query failure
  | trial (failure : Failure) : Refuses (.tried (.error failure)) .simulation failure
  | submission (failure : Failure) : Refuses (.submitted (.error failure)) .submission failure

theorem Error.shows_carrying (kind : ErrorKind) (failure : Failure) :
    (Error.carrying kind failure).Shows kind failure :=
  ⟨rfl, by rw [Error.text], by rw [Error.source?], by rw [Error.sources], rfl⟩

mutual

theorem Error.sources_eq (e : Error) :
    e.sources = e.source?.elim [] fun source => source.text :: source.sources := by
  cases e with
  | bare kind => simp [Error.sources, Error.source?]
  | stated kind message => simp [Error.sources, Error.source?]
  | carrying kind inner => rw [Error.sources, Error.source?, inner.sources_eq]
  | introduced kind message inner => rw [Error.sources, Error.source?, inner.sources_eq]

theorem Failure.sources_eq (f : Failure) :
    f.sources = f.source?.elim [] fun source => source.text :: source.sources := by
  cases f with
  | plain origin text => simp [Failure.sources, Failure.source?]
  | caused text source => simp [Failure.sources, Failure.source?]
  | wrapped error => rw [Failure.sources, Failure.source?, error.sources_eq]

end

namespace Error

theorem rendered_carrying (kind : ErrorKind) (inner : Failure) :
    (carrying kind inner).rendered = inner.rendered := by
  rw [rendered, Failure.rendered, text, sources]

theorem rendered_introduced (kind : ErrorKind) (message : String) (inner : Failure) :
    (introduced kind message inner).rendered = message ++ ": " ++ inner.rendered := by
  rw [rendered, Failure.rendered, text, sources, String.intercalate_cons_append]

end Error

namespace Failure

theorem rendered_wrapped (error : Error) : (wrapped error).rendered = error.rendered := by
  rw [rendered, Error.rendered, text, sources]

theorem rendered_caused (shown : String) (source : Failure) :
    (caused shown source).rendered = shown ++ ": " ++ source.rendered := by
  rw [rendered, rendered, text, sources, String.intercalate_cons_cons]

end Failure

mutual

theorem Error.texts_ne_nil (e : Error) : e.texts ≠ [] := by
  cases e with
  | bare kind => simp [Error.texts]
  | stated kind message => simp [Error.texts]
  | carrying kind inner => rw [Error.texts]; exact inner.texts_ne_nil
  | introduced kind message inner => simp [Error.texts]

theorem Failure.texts_ne_nil (f : Failure) : f.texts ≠ [] := by
  cases f with
  | plain origin text => simp [Failure.texts]
  | caused text source => simp [Failure.texts]
  | wrapped error => rw [Failure.texts]; exact error.texts_ne_nil

end

mutual

theorem Error.rendered_eq (e : Error) : e.rendered = ": ".intercalate e.texts := by
  cases e with
  | bare kind => rw [Error.rendered, Error.text, Error.sources, Error.texts]
  | stated kind message => rw [Error.rendered, Error.text, Error.sources, Error.texts]
  | carrying kind inner => rw [Error.rendered_carrying, inner.rendered_eq, Error.texts]
  | introduced kind message inner =>
    rw [Error.rendered_introduced, inner.rendered_eq, Error.texts,
      String.intercalate_cons_of_ne_nil inner.texts_ne_nil]

theorem Failure.rendered_eq (f : Failure) : f.rendered = ": ".intercalate f.texts := by
  cases f with
  | plain origin text => rw [Failure.rendered, Failure.text, Failure.sources, Failure.texts]
  | caused text source =>
    rw [Failure.rendered_caused, source.rendered_eq, Failure.texts,
      String.intercalate_cons_of_ne_nil source.texts_ne_nil]
  | wrapped error => rw [Failure.rendered_wrapped, error.rendered_eq, Failure.texts]

end

theorem Failure.texts_wrappedIn (f : Failure) (wrappers : List Wrapper) :
    (f.wrappedIn wrappers).texts = wrappers.filterMap Wrapper.message? ++ f.texts := by
  induction wrappers with
  | nil => rfl
  | cons wrapper wrappers ih =>
    cases wrapper with
    | carrying kind =>
      rw [Failure.wrappedIn, List.foldr_cons, Failure.texts, Wrapper.around, Error.texts]
      exact ih
    | introduced kind message =>
      rw [Failure.wrappedIn, List.foldr_cons, Failure.texts, Wrapper.around, Error.texts]
      exact congrArg (message :: ·) ih

theorem Error.carried_eq_ok_iff {e : Error} {inner : Failure} : e.carried = .ok inner ↔ e.Holds inner := by
  constructor
  · intro h
    cases e with
    | bare kind => cases h
    | stated kind message => cases h
    | carrying kind own =>
      cases h
      exact ⟨.carrying kind, rfl⟩
    | introduced kind message own =>
      cases h
      exact ⟨.introduced kind message, rfl⟩
  · rintro ⟨wrapper, rfl⟩
    cases wrapper <;> rfl

theorem Error.carried_eq_error_iff {e same : Error} :
    e.carried = .error same ↔ same = e ∧ ∀ inner, ¬e.Holds inner := by
  simp only [← Error.carried_eq_ok_iff]
  cases e with
  | bare kind => simp [Error.carried, @eq_comm _ same]
  | stated kind message => simp [Error.carried, @eq_comm _ same]
  | carrying kind inner => simp [Error.carried]
  | introduced kind message inner => simp [Error.carried]

namespace Call

variable {α β : Type}

/-- A call that is over, with an error around the failure, as soon as a request is refused. -/
def PassesFailures : Call (Except Error α) → Prop
  | .done _ => True
  | .note _ rest => rest.PassesFailures
  | .query _ _ resume =>
    (∀ value, (resume (.ok value)).PassesFailures) ∧
      ∀ failure, resume (.error failure) = .done (.error (.carrying .query failure))
  | .trial _ _ resume =>
    (∀ result, (resume (.ok result)).PassesFailures) ∧
      ∀ failure, resume (.error failure) = .done (.error (.carrying .simulation failure))
  | .submission _ _ resume =>
    (∀ transaction, (resume (.ok transaction)).PassesFailures) ∧
      ∀ failure, resume (.error failure) = .done (.error (.carrying .submission failure))

theorem PassesFailures.bind {c : Call (Except Error α)} {f : Except Error α → Call (Except Error β)}
    (hc : c.PassesFailures) (hf : ∀ result, (f result).PassesFailures)
    (passes : ∀ e, f (.error e) = .done (.error e)) : (c.bind f).PassesFailures := by
  have failed {k : Call (Except Error α)} {e : Error} (hk : k = .done (.error e)) :
      k.bind f = .done (.error e) := by
    rw [hk]
    exact passes e
  induction c with
  | done result => exact hf result
  | note notice rest ih => exact ih hc
  | query reader query resume ih =>
    exact ⟨fun value => ih _ (hc.1 value), fun failure => failed (hc.2 failure)⟩
  | trial writer trial resume ih =>
    exact ⟨fun result => ih _ (hc.1 result), fun failure => failed (hc.2 failure)⟩
  | submission writer payload resume ih =>
    exact ⟨fun transaction => ih _ (hc.1 transaction), fun failure => failed (hc.2 failure)⟩

theorem PassesFailures.map {c : Call (Except Error α)} (hc : c.PassesFailures) (g : α → β) :
    (c.map (Except.map g)).PassesFailures :=
  hc.bind (fun _ => trivial) fun _ => rfl

theorem refusal_of_mem {happening answered : Happening} {r : Request} {seen : List Happening}
    {kind : ErrorKind} {failure : Failure} (refused : happening.Refuses kind failure)
    (h : happening ∈ .asked r :: answered :: seen) : happening = answered ∨ happening ∈ seen := by
  rcases List.mem_cons.mp h with rfl | h
  · cases refused
  · exact List.mem_cons.mp h

theorem result?_of_failed {c : Call (Except Error α)} {e : Error} (hc : c = .done (.error e)) {steps : Nat}
    {seen : List Happening} {f : Flight (Except Error α)} (path : c.Path steps seen f) :
    seen = [] ∧ f.result? = some (.error e) := by
  rw [hc] at path
  exact path.of_done

theorem PassesFailures.of_path {c : Call (Except Error α)} (hc : c.PassesFailures) {steps : Nat}
    {seen : List Happening} {f : Flight (Except Error α)} (path : c.Path steps seen f)
    {happening : Happening} (hmem : happening ∈ seen) {kind : ErrorKind} {failure : Failure}
    (refused : happening.Refuses kind failure) :
    f.result? = some (.error (.carrying kind failure)) := by
  induction path with
  | here call => cases hmem
  | done result steps => cases hmem
  | note path ih => exact ih hc hmem
  | querying reader query resume =>
    cases List.mem_singleton.mp hmem
    cases refused
  | trying writer trial resume =>
    cases List.mem_singleton.mp hmem
    cases refused
  | submitting writer payload resume =>
    cases List.mem_singleton.mp hmem
    cases refused
  | @query _ _ _ answer _ _ _ path ih =>
    rcases refusal_of_mem refused hmem with rfl | later
    · cases refused
      exact (result?_of_failed (hc.2 failure) path).2
    · cases answer with
      | ok value => exact ih (hc.1 value) later
      | error own =>
        rw [(result?_of_failed (hc.2 own) path).1] at later
        cases later
  | @trial _ _ _ answer _ _ _ path ih =>
    rcases refusal_of_mem refused hmem with rfl | later
    · cases refused
      exact (result?_of_failed (hc.2 failure) path).2
    · cases answer with
      | ok result => exact ih (hc.1 result) later
      | error own =>
        rw [(result?_of_failed (hc.2 own) path).1] at later
        cases later
  | @submission _ _ _ answer _ _ _ path ih =>
    rcases refusal_of_mem refused hmem with rfl | later
    · cases refused
      exact (result?_of_failed (hc.2 failure) path).2
    · cases answer with
      | ok transaction => exact ih (hc.1 transaction) later
      | error own =>
        rw [(result?_of_failed (hc.2 own) path).1] at later
        cases later

/-- Whoever answers and whatever runs beside it, a call of which a request is refused is over with an error that
shows the failure. -/
def ShowsRefusals (c : Call (Except Error α)) : Prop :=
  ∀ (executors : Executors) (calls : List (Call (Except Error α))) (schedule : List Nat) (i : Nat),
    calls[i]? = some c →
      ∀ happening ∈ (Flights.run executors calls schedule).history.of i,
        ∀ kind failure, happening.Refuses kind failure →
          ∃ flight e, (Flights.run executors calls schedule).flights[i]? = some flight ∧
            flight.result? = some (.error e) ∧ e.Shows kind failure

theorem PassesFailures.showsRefusals {c : Call (Except Error α)} (hc : c.PassesFailures) :
    c.ShowsRefusals := by
  intro executors calls schedule i hcall happening hmem kind failure refused
  obtain ⟨flight, hflight, path⟩ := Flights.run_path executors schedule hcall
  exact ⟨flight, _, hflight, hc.of_path path hmem refused, Error.shows_carrying kind failure⟩

end Call

theorem ReadMethod.passesFailures_run (m : ReadMethod) (args : List Json) :
    (m.run args).PassesFailures :=
  ⟨fun _ => trivial, fun _ => rfl⟩

theorem WriteMethod.passesFailures_simulate (m : WriteMethod) (args : List Json) :
    (m.simulate args).PassesFailures :=
  ⟨fun _ => trivial, fun _ => rfl⟩

theorem PendingWrite.passesFailures_submit (p : PendingWrite) : p.submit.PassesFailures := by
  refine ⟨fun transaction => ?_, fun _ => rfl⟩
  cases transaction <;> trivial

theorem WriteMethod.passesFailures_run (m : WriteMethod) (args : List Json) :
    (m.run args).PassesFailures := by
  refine (m.passesFailures_simulate args).bind (fun result => ?_) fun _ => rfl
  cases result with
  | ok pending => exact pending.passesFailures_submit
  | error e => trivial

theorem Method.passesFailures_run (m : Method) (args : List Json) : (m.run args).PassesFailures := by
  cases m with
  | read m => exact (m.passesFailures_run args).map _
  | write m => exact (m.passesFailures_run args).map _

theorem MethodTable.passesFailures_run (t : MethodTable) (name : String) (args : List Json) :
    (t.run name args).PassesFailures := by
  unfold MethodTable.run
  split
  next m _ => exact m.passesFailures_run args
  next => trivial

/-- Refusals come out of every call as they are, and rendering an error shows each of its texts once. Errors around
errors add no more than their messages. Only what was put into an error can be taken out of it. -/
theorem failures_rendered_once :
    (∀ (m : ReadMethod) (args : List Json), (m.run args).ShowsRefusals) ∧
    (∀ (m : WriteMethod) (args : List Json), (m.simulate args).ShowsRefusals) ∧
    (∀ p : PendingWrite, p.submit.ShowsRefusals) ∧
    (∀ (m : Method) (args : List Json), (m.run args).ShowsRefusals) ∧
    (∀ (t : MethodTable) (name : String) (args : List Json), (t.run name args).ShowsRefusals) ∧
    (∀ f : Failure, f.sources = f.source?.elim [] fun source => source.text :: source.sources) ∧
    (∀ kind inner, (Error.carrying kind inner).rendered = inner.rendered) ∧
    (∀ kind message inner,
      (Error.introduced kind message inner).rendered = message ++ ": " ++ inner.rendered) ∧
    (∀ e : Error, e.rendered = ": ".intercalate e.texts) ∧
    (∀ (f : Failure) (wrappers : List Wrapper),
      (f.wrappedIn wrappers).rendered =
        ": ".intercalate (wrappers.filterMap Wrapper.message? ++ f.texts)) ∧
    (∀ e inner, Error.carried e = .ok inner ↔ e.Holds inner) ∧
    (∀ e same, Error.carried e = .error same ↔ same = e ∧ ∀ inner, ¬e.Holds inner) := by
  refine ⟨fun m args => (m.passesFailures_run args).showsRefusals,
    fun m args => (m.passesFailures_simulate args).showsRefusals,
    fun p => p.passesFailures_submit.showsRefusals,
    fun m args => (m.passesFailures_run args).showsRefusals,
    fun t name args => (t.passesFailures_run name args).showsRefusals, Failure.sources_eq,
    Error.rendered_carrying, Error.rendered_introduced, Error.rendered_eq, fun f wrappers => ?_,
    fun _ _ => Error.carried_eq_ok_iff, fun _ _ => Error.carried_eq_error_iff⟩
  rw [Failure.rendered_eq, Failure.texts_wrappedIn]

def nestedFailure : Failure :=
  .caused "no answer" (.wrapped (.introduced .file "cannot open cache" (.wrapped (.carrying .query
    (.plain .other "bad byte")))))

def payWrite : WriteMethod :=
  ⟨⟨.zero, ⟨[]⟩, "pay"⟩, ⟨"pay", [], [], .payable⟩, ⟨"w0"⟩, none⟩

def signedWrite : WriteMethod :=
  { payWrite with account := some .zero }

def refusingExecutors : Executors where
  query _ _ _ _ := .error nestedFailure
  trial _ _ _ trial := if trial.account.isSome then .ok ⟨.null, .null⟩ else .error nestedFailure
  submission _ _ _ _ := .error nestedFailure

def Call.RefusedAs {α : Type} (c : Call (Except Error α)) (schedule : List Nat) (kind : ErrorKind) : Prop :=
  ∃ flight e, (Flights.run refusingExecutors [c] schedule).flights[0]? = some flight ∧
    flight.result? = some (.error e) ∧ e.Shows kind nestedFailure ∧
      e.rendered = "no answer: cannot open cache: bad byte"

theorem Call.ShowsRefusals.refusedAs {α : Type} {c : Call (Except Error α)} (h : c.ShowsRefusals)
    {schedule : List Nat} {happening : Happening} {kind : ErrorKind}
    (seen : happening ∈ (Flights.run refusingExecutors [c] schedule).history.of 0)
    (refused : happening.Refuses kind nestedFailure) : c.RefusedAs schedule kind := by
  obtain ⟨flight, e, hflight, failed, shows⟩ :=
    h refusingExecutors [c] schedule 0 rfl happening seen kind nestedFailure refused
  refine ⟨flight, e, hflight, failed, shows, ?_⟩
  rw [Error.rendered, shows.text_eq, shows.sources_eq]
  decide

/-- A query is refused, and so is a trial, and a submission after a trial that was granted. -/
theorem nestedFailure_rendered :
    (totalRead.run []).RefusedAs [0, 0, 0] .query ∧
      (payWrite.simulate []).RefusedAs [0, 0, 0] .simulation ∧
      ((Method.write signedWrite).run []).RefusedAs [0, 0, 0, 0, 0, 0] .submission ∧
      (nestedFailure.wrappedIn [.introduced .file "gave up", .carrying .query]).rendered =
        "gave up: no answer: cannot open cache: bad byte" := by
  obtain ⟨reads, trials, -, methods, -, -, -, -, -, wrapped, -⟩ := failures_rendered_once
  refine ⟨?_, ?_, ?_, wrapped _ _⟩
  · exact (reads totalRead []).refusedAs (.tail _ (.head _)) (.query _)
  · exact (trials payWrite []).refusedAs (.tail _ (.head _)) (.trial _)
  · exact (methods (.write signedWrite) []).refusedAs (.tail _ (.tail _ (.tail _ (.head _)))) (.submission _)

end AbiCalls
