import AbiCalls.Proofs.Grouping
import AbiCalls.Proofs.TwoPhase

namespace AbiCalls

namespace Abi

variable {abi : Abi}

/-- Declared with a property, and after all other functions that have it. -/
def LastDeclared (abi : Abi) (p : ContractFunction → Prop) (f : ContractFunction) : Prop :=
  ∃ before after, abi.members = before ++ .function f :: after ∧ p f ∧ ∀ g, .function g ∈ after → ¬p g

/-- The function for a number of arguments. Only where no overload takes as many does the name decide alone. -/
def Chosen (abi : Abi) (name : String) (arity : Nat) (f : ContractFunction) : Prop :=
  abi.LastDeclared (fun g => g.name = name ∧ g.arity = arity) f ∨
    (∀ g ∈ abi.functions, g.name = name → g.arity ≠ arity) ∧ abi.LastDeclared (fun g => g.name = name) f

theorem mem_functions_iff {f : ContractFunction} : f ∈ abi.functions ↔ .function f ∈ abi.members := by
  rw [← List.count_pos_iff, abi.count_functions, List.count_pos_iff]

theorem find?_reverse_functions_eq_some_iff {p : ContractFunction → Prop} [DecidablePred p]
    {f : ContractFunction} :
    abi.functions.reverse.find? (fun g => p g) = some f ↔ abi.LastDeclared p f := by
  rw [functions, ← List.filterMap_reverse, List.find?_filterMap, Option.bind_eq_some_iff]
  simp only [List.find?_eq_some_iff_append]
  constructor
  · rintro ⟨m, ⟨holds, after, before, hmembers, none_after⟩, hm⟩
    cases m <;> cases hm
    refine ⟨before.reverse, after.reverse, ?_, of_decide_eq_true holds, fun g hg => ?_⟩
    · rw [← List.reverse_reverse abi.members, hmembers]
      simp
    · simpa [Member.asFunction?] using none_after _ (List.mem_reverse.mp hg)
  · rintro ⟨before, after, hmembers, holds, none_after⟩
    refine ⟨.function f, ⟨by simpa [Member.asFunction?] using holds, after.reverse, before.reverse, ?_,
      fun m hm => ?_⟩, rfl⟩
    · rw [hmembers]
      simp
    · cases m with
      | function g => simpa [Member.asFunction?] using none_after g (List.mem_reverse.mp hm)
      | _ => rfl

theorem exists_lastDeclared_iff {p : ContractFunction → Prop} [DecidablePred p] :
    (∃ f, abi.LastDeclared p f) ↔ ∃ f ∈ abi.functions, p f := by
  simp only [← find?_reverse_functions_eq_some_iff, ← Option.isSome_iff_exists, List.find?_isSome,
    List.mem_reverse, decide_eq_true_eq]

theorem function?_eq_some_iff {name : String} {f : ContractFunction} :
    abi.function? name = some f ↔ abi.LastDeclared (fun g => g.name = name) f := by
  rw [function?, List.getLast?_filter, find?_reverse_functions_eq_some_iff]

theorem LastDeclared.mem_functions {p : ContractFunction → Prop} {f : ContractFunction}
    (h : abi.LastDeclared p f) : f ∈ abi.functions ∧ p f := by
  obtain ⟨before, after, hmembers, hf, _⟩ := h
  exact ⟨mem_functions_iff.mpr (by simp [hmembers]), hf⟩

theorem Chosen.mem_functions {name : String} {arity : Nat} {f : ContractFunction}
    (h : abi.Chosen name arity f) : f ∈ abi.functions ∧ f.name = name := by
  rcases h with fits | ⟨_, last⟩
  · exact ⟨fits.mem_functions.1, fits.mem_functions.2.1⟩
  · exact last.mem_functions

theorem exists_chosen_iff {name : String} (arity : Nat) :
    (∃ f, abi.Chosen name arity f) ↔ ∃ f ∈ abi.functions, f.name = name := by
  constructor
  · rintro ⟨f, chosen⟩
    exact ⟨f, chosen.mem_functions⟩
  · rintro ⟨f, hf, named⟩
    by_cases fits : ∃ g ∈ abi.functions, g.name = name ∧ g.arity = arity
    · obtain ⟨g, hg⟩ := exists_lastDeclared_iff.mpr fits
      exact ⟨g, .inl hg⟩
    · obtain ⟨g, hg⟩ : ∃ g, abi.LastDeclared (fun g => g.name = name) g :=
        exists_lastDeclared_iff.mpr ⟨f, hf, named⟩
      exact ⟨g, .inr ⟨fun k hk hname harity => fits ⟨k, hk, hname, harity⟩, hg⟩⟩

end Abi

namespace MethodTable

variable {ctx : Context} {abi : Abi} {address : Address} {name : String} {arity : Nat}

theorem withArity?_ofAbi (ctx : Context) (abi : Abi) (address : Address) (name : String) (arity : Nat) :
    (ofAbi ctx abi address).withArity? name arity =
      (abi.functions.reverse.find? fun f => f.name = name ∧ f.arity = arity).map
        (abi.methodOf ctx address) := by
  rw [withArity?, overloads_ofAbi, ← List.map_reverse, List.find?_map, ← List.filter_reverse,
    List.find?_filter]
  simp

theorem withArity?_eq_some_iff {m : Method} :
    (ofAbi ctx abi address).withArity? name arity = some m ↔
      ∃ f, abi.LastDeclared (fun g => g.name = name ∧ g.arity = arity) f ∧
        m = abi.methodOf ctx address f := by
  rw [withArity?_ofAbi, Option.map_eq_some_iff]
  simp only [Abi.find?_reverse_functions_eq_some_iff, @eq_comm _ _ m]

theorem withArity?_eq_none_iff :
    (ofAbi ctx abi address).withArity? name arity = none ↔
      ∀ f ∈ abi.functions, f.name = name → f.arity ≠ arity := by
  rw [withArity?_ofAbi, Option.map_eq_none_iff]
  simp

theorem dispatch?_eq_some_iff {m : Method} :
    (ofAbi ctx abi address).dispatch? name arity = some m ↔
      ∃ f, abi.Chosen name arity f ∧ m = abi.methodOf ctx address f := by
  have byName : (ofAbi ctx abi address).get? name = some m ↔
      ∃ f, abi.LastDeclared (fun g => g.name = name) f ∧ m = abi.methodOf ctx address f := by
    rw [get?_ofAbi, Option.map_eq_some_iff]
    simp only [Abi.function?_eq_some_iff, @eq_comm _ _ m]
  rw [dispatch?, Option.or_eq_some_iff, withArity?_eq_some_iff, withArity?_eq_none_iff, byName]
  simp only [Abi.Chosen, or_and_right, exists_or, and_assoc, exists_and_left]

theorem dispatch?_eq_none_iff :
    (ofAbi ctx abi address).dispatch? name arity = none ↔ ∀ f ∈ abi.functions, f.name ≠ name := by
  rw [Option.eq_none_iff_forall_ne_some]
  constructor
  · intro h f hf named
    obtain ⟨g, hg⟩ := (Abi.exists_chosen_iff arity).mpr ⟨f, hf, named⟩
    exact h _ (dispatch?_eq_some_iff.mpr ⟨g, hg, rfl⟩)
  · intro h m hm
    obtain ⟨f, hf, _⟩ := dispatch?_eq_some_iff.mp hm
    obtain ⟨g, hg, named⟩ := (Abi.exists_chosen_iff arity).mp ⟨f, hf⟩
    exact h g hg named

theorem run_of_undeclared (ctx : Context) (address : Address)
    (undeclared : ∀ f ∈ abi.functions, f.name ≠ name) (args : List Json) :
    (ofAbi ctx abi address).run name args =
      .done (.error ((ofAbi ctx abi address).unknownFunction name)) := by
  simp only [run, dispatch?_eq_none_iff.mpr undeclared]

theorem run_of_chosen (ctx : Context) (address : Address) {args : List Json} {f : ContractFunction}
    (h : abi.Chosen name args.length f) :
    (ofAbi ctx abi address).run name args = (abi.methodOf ctx address f).run args := by
  simp only [run, dispatch?_eq_some_iff.mpr ⟨f, h, rfl⟩]

end MethodTable

namespace Call

/-- Whatever runs beside it, a call fails with an error without asking anything. -/
def FailsUnasked (c : Call Outcome) (e : Error) : Prop :=
  ∀ (executors : Executors) (calls : List (Call Outcome)) (schedule : List Nat) (i : Nat),
    calls[i]? = some c →
      ∃ flight, (Flights.run executors calls schedule).flights[i]? = some flight ∧
        flight.result? = some (.error e) ∧ (Flights.run executors calls schedule).history.of i = []

/-- Whatever runs beside it, a call is over once it has been scheduled often enough, and if it succeeds, it is
a read exactly if `reads` holds. -/
def EndsReading (c : Call Outcome) (reads : Prop) : Prop :=
  ∀ (executors : Executors) (calls : List (Call Outcome)) (schedule : List Nat) (i : Nat),
    calls[i]? = some c →
      ∃ flight, (Flights.run executors calls schedule).flights[i]? = some flight ∧
        (∀ result, flight.result? = some (.ok result) → ((∃ value, result = .read value) ↔ reads)) ∧
        (stepsPerInvocation ≤ schedule.count i → flight.result?.isSome)

theorem Path.of_done {α : Type} {result : α} {steps : Nat} {seen : List Happening} {f : Flight α}
    (h : Path (.done result) steps seen f) : seen = [] ∧ f.result? = some result := by
  cases h <;> exact ⟨rfl, rfl⟩

theorem failsUnasked_done (e : Error) : FailsUnasked (.done (.error e)) e := by
  intro executors calls schedule i hcall
  obtain ⟨flight, hflight, path⟩ := Flights.run_path executors schedule hcall
  obtain ⟨unasked, failed⟩ := path.of_done
  exact ⟨flight, hflight, failed, unasked⟩

end Call

theorem Invocation.read_of_phase {m : Method} {args : List Json} {seen : List Happening}
    {result : CallResult} (h : (Invocation.method m args).Phase seen (some (.ok result))) :
    (∃ value, result = .read value) ↔ m.access = .read := by
  cases m with
  | read m =>
    cases h
    simp [Method.access]
  | write m =>
    cases h
    simp [Method.access]

theorem Mutability.access_eq_read_iff_pure_or_view {m : Mutability} :
    m.access = .read ↔ m = .pure ∨ m = .view := by
  cases m <;> simp [access]

theorem Method.endsReading_run (m : Method) (args : List Json) :
    (m.run args).EndsReading (m.access = .read) := by
  intro executors calls schedule i hcall
  obtain ⟨flight, hflight, path⟩ := Flights.run_path executors schedule hcall
  have invoked : (Invocation.method m args).call.Path _ _ flight := path
  obtain ⟨phase, ends⟩ := Invocation.phase_of_path invoked
  exact ⟨flight, hflight, fun result hresult => Invocation.read_of_phase (hresult ▸ phase), ends⟩

/-- A call by name is a call of the function that is declared last with that name and as many inputs as there
are arguments, or else of the last one with that name. Without any, it fails and nothing is asked. -/
theorem run_goes_to_last_declared (ctx : Context) (abi : Abi) (address : Address) (name : String) :
    let t := MethodTable.ofAbi ctx abi address
    (∀ arity,
      ((t.withArity? name arity).isSome ↔ ∃ f ∈ abi.functions, f.name = name ∧ f.arity = arity) ∧
      ∀ m, t.withArity? name arity = some m ↔
        ∃ f, abi.LastDeclared (fun g => g.name = name ∧ g.arity = arity) f ∧
          m = abi.methodOf ctx address f) ∧
    ∀ args : List Json,
      ((∀ f ∈ abi.functions, f.name ≠ name) →
        ∃ e, t.run name args = .done (.error e) ∧ (t.run name args).FailsUnasked e ∧
          e.kind = .unknownFunction ∧
          e.text = "contract at " ++ address.text ++ " has no function " ++ tickQuoted name) ∧
      ((∃ f ∈ abi.functions, f.name = name) → ∃ f, abi.Chosen name args.length f) ∧
      ∀ f, abi.Chosen name args.length f →
        t.run name args = (abi.methodOf ctx address f).run args ∧
        (t.run name args).EndsReading (f.mutability = .pure ∨ f.mutability = .view) := by
  intro t
  refine ⟨fun arity => ⟨?_, fun m => MethodTable.withArity?_eq_some_iff⟩,
    fun args => ⟨fun undeclared => ?_, (Abi.exists_chosen_iff _).mpr, fun f chosen => ?_⟩⟩
  · rw [MethodTable.withArity?_ofAbi]
    simp
  · have failed := MethodTable.run_of_undeclared ctx address undeclared args
    refine ⟨t.unknownFunction name, failed, failed ▸ Call.failsUnasked_done _, rfl, ?_⟩
    rw [MethodTable.unknownFunction, MethodTable.address_ofAbi]
    rfl
  · have same := MethodTable.run_of_chosen ctx address chosen
    refine ⟨same, ?_⟩
    rw [same, ← Mutability.access_eq_read_iff_pure_or_view, ← abi.access_methodOf ctx address]
    exact (abi.methodOf ctx address f).endsReading_run args

def drawCards : ContractFunction :=
  ⟨"draw", [⟨"count", "uint", none, [], none⟩], [], .view⟩

def drawLot : ContractFunction :=
  ⟨"draw", [⟨"lot", "address", none, [], none⟩], [], .payable⟩

def drawAny : ContractFunction :=
  ⟨"draw", [], [], .pure⟩

def drawAbi : Abi :=
  ⟨[.function drawCards, .function drawLot, .event "draw" [] false, .function drawAny]⟩

/-- With one argument a lot is drawn. No overload takes two, so that the last one is called with them. -/
theorem drawAbi_dispatched :
    let t := MethodTable.ofAbi anonymousContext drawAbi .zero
    t.run "draw" [.null] = (drawAbi.methodOf anonymousContext .zero drawLot).run [.null] ∧
      t.run "draw" [.null, .null] = (drawAbi.methodOf anonymousContext .zero drawAny).run [.null, .null] ∧
      (t.run "draw" [.null, .null]).EndsReading (drawAny.mutability = .pure ∨ drawAny.mutability = .view) ∧
      ∃ e, (t.run "discard" []).FailsUnasked e ∧
        e.text = "contract at 0x0000000000000000000000000000000000000000 has no function `discard`" := by
  intro t
  have fits : drawAbi.Chosen "draw" 1 drawLot :=
    .inl ⟨[.function drawCards], [.event "draw" [] false, .function drawAny], rfl, ⟨rfl, rfl⟩,
      by simp [drawAny, ContractFunction.arity]⟩
  have last : drawAbi.Chosen "draw" 2 drawAny :=
    .inr ⟨by decide, [.function drawCards, .function drawLot, .event "draw" [] false], [], rfl, rfl, nofun⟩
  obtain ⟨-, byArgs⟩ := run_goes_to_last_declared anonymousContext drawAbi .zero "draw"
  obtain ⟨-, unknown⟩ := run_goes_to_last_declared anonymousContext drawAbi .zero "discard"
  obtain ⟨e, -, unasked, -, text⟩ := (unknown []).1 (by decide)
  obtain ⟨called, reads⟩ := (byArgs [.null, .null]).2.2 drawAny last
  exact ⟨((byArgs [.null]).2.2 drawLot fits).1, called, reads, e, unasked, text⟩

end AbiCalls
