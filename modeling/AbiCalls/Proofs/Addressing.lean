import AbiCalls.Contract
import AbiCalls.Proofs.Dispatch
import AbiCalls.Proofs.RepeatedRequests
import AbiCalls.Proofs.Worlds
import AbiCalls.Session.Run

namespace AbiCalls

theorem MethodTable.run_eq (ctx : Context) (abi : Abi) (address : Address) (called : String)
    (args : List Json) :
    let t := ofAbi ctx abi address
    (t.contains called = false ∧ t.run called args = .done (.error (t.unknownFunction called))) ∨
      ∃ m ∈ t.toList, m.function.name = called ∧ t.run called args = m.run args := by
  intro t
  by_cases declared : ∃ f ∈ abi.functions, f.name = called
  · obtain ⟨f, chosen⟩ := (Abi.exists_chosen_iff args.length).mpr declared
    obtain ⟨hf, named⟩ := chosen.mem_functions
    exact .inr ⟨abi.methodOf ctx address f, mem_toList_ofAbi.mpr ⟨f, hf, rfl⟩, by simpa using named,
      run_of_chosen ctx address chosen⟩
  · have undeclared : ∀ f ∈ abi.functions, f.name ≠ called := by simpa using declared
    refine .inl ⟨?_, run_of_undeclared ctx address undeclared args⟩
    rw [contains_ofAbi]
    simpa using undeclared

namespace Catalog

theorem get?_bind (catalog : Catalog) (ctx : Context) (name : String) :
    (catalog.bind ctx).get? name =
      (catalog.get? name).map fun entry => ⟨name, entry.abi, entry.defaultAddress, ctx⟩ :=
  NameMap.get?_mapValues _ catalog name

theorem methods_bind_cases (catalog : Catalog) (ctx : Context) (name : String)
    (address : Option Address) :
    let resolved := (catalog.bind ctx).methods name address
    (catalog.get? name = none ∧ resolved = .error (Contracts.unknownContract name)) ∨
    ∃ entry, catalog.get? name = some entry ∧
      ((address = none ∧ entry.defaultAddress = none ∧
          ∃ message, resolved = .error (.stated .missingAddress message)) ∨
        ∃ a, address.or entry.defaultAddress = some a ∧ resolved = .ok (.ofAbi ctx entry.abi a)) := by
  intro resolved
  simp only [resolved, Contracts.methods, get?_bind]
  cases catalog.get? name with
  | none => exact .inl ⟨rfl, rfl⟩
  | some entry =>
    refine .inr ⟨entry, rfl, ?_⟩
    simp only [Option.map_some, Contract.methods]
    cases h : address.or entry.defaultAddress with
    | none =>
      obtain ⟨unstated, unusual⟩ := Option.or_eq_none_iff.mp h
      exact .inl ⟨unstated, unusual, _, rfl⟩
    | some a => exact .inr ⟨a, rfl, rfl⟩

end Catalog

def Reply.ofTable : Except Error MethodTable → Reply
  | .ok methods => .table methods
  | .error e => .failed e

namespace Session

def bindAndStore (ctx : Context) (name : String) (address : Option Address) (slot : String) :
    SessionM Reply := do
  let _ ← bindTo ctx
  storeMethods name address .byName slot

theorem storeMethods_eq (s : Session) (name : String) (address : Option Address) (route : Route)
    (slot : String) :
    storeMethods name address route slot s =
      match s.methodsBy name address route with
      | .error reply => (reply, s)
      | .ok methods => (.table methods, { s with tables := s.tables.insert slot ⟨name, methods⟩ }) := by
  change (storeMethods name address route slot).run s = _
  unfold storeMethods
  rw [StateT.run_bind, StateT.run_get, pure_bind]
  cases s.methodsBy name address route with
  | error reply => rfl
  | ok methods => rfl

theorem bindAndStore_eq (s : Session) (ctx : Context) (name : String) (address : Option Address)
    (slot : String) :
    (bindAndStore ctx name address slot s).1 =
        .ofTable ((s.catalog.bind ctx).methods name address) ∧
      World.Alike (bindAndStore ctx name address slot s).2.world s.world := by
  have logged := World.alike_logAll s.world s.catalog.bindNotices
  change (storeMethods name address .byName slot _).1 = _ ∧
    World.Alike (storeMethods name address .byName slot _).2.world _
  rw [storeMethods_eq]
  simp only [methodsBy]
  cases (s.catalog.bind ctx).methods name address with
  | ok table => exact ⟨rfl, logged⟩
  | error e => exact ⟨rfl, logged⟩

end Session

/-- The methods of a table ask for the functions of an ABI at the address of the table. -/
structure MethodTable.AsksFor (t : MethodTable) (abi : Abi) (ctx : Context) : Prop where
  functions : ∀ f, f ∈ abi.functions ↔ ∃ m ∈ t.toList, m.function = f
  /-- A call by name is a call of one of the methods with that name, and in every run it makes the request
  of that method once. -/
  byName : ∀ (called : String) (args : List Json),
    (t.contains called = false ∧ t.run called args = .done (.error (t.unknownFunction called))) ∨
      ∃ m ∈ t.toList, m.function.name = called ∧ t.run called args = m.run args ∧
        ∀ (executors : Executors) (calls : List (Call Outcome)) (schedule : List Nat) (i : Nat),
          calls[i]? = some (t.run called args) →
            Call.Repeated (ctx.requestFor abi t.address m.function args) ctx.writer 1
              (stepsPerInvocation ≤ schedule.count i)
              ((Flights.run executors calls schedule).history.of i)
  /-- In every run, an operation makes the request for its arguments, and apart from that it submits; no
  later than its steps are over, it has made the request as often as it asks. -/
  asked : ∀ m ∈ t.toList, ∀ (op : Operation) (executors : Executors) (calls : List (Call Upshot))
    (schedule : List Nat) (i : Nat), calls[i]? = some (op.on m) →
      Call.Repeated (ctx.requestFor abi t.address m.function op.args) ctx.writer
        (op.askings m.function.access) (stepsFor (op.askings m.function.access) ≤ schedule.count i)
        ((Flights.run executors calls schedule).history.of i)

theorem MethodTable.asksFor_ofAbi (ctx : Context) (abi : Abi) (address : Address) :
    (ofAbi ctx abi address).AsksFor abi ctx := by
  refine ⟨fun f => ?_, fun called args => ?_, ?_⟩
  · constructor
    · intro hf
      exact ⟨abi.methodOf ctx address f, mem_toList_ofAbi.mpr ⟨f, hf, rfl⟩, by simp⟩
    · rintro ⟨m, hm, rfl⟩
      obtain ⟨f, hf, rfl⟩ := mem_toList_ofAbi.mp hm
      simpa using hf
  · refine (run_eq ctx abi address called args).imp_right ?_
    rintro ⟨m, hm, named, same⟩
    refine ⟨m, hm, named, same, fun executors calls schedule i hcall => ?_⟩
    obtain ⟨f, _, rfl⟩ := mem_toList_ofAbi.mp hm
    obtain ⟨flight, _, path⟩ := Flights.run_path executors schedule hcall
    rw [same] at path
    rw [address_ofAbi, Abi.function_methodOf]
    exact (abi.repeats_run ctx address f args).of_path path
  · intro m hm op executors calls schedule i hcall
    obtain ⟨f, _, rfl⟩ := mem_toList_ofAbi.mp hm
    obtain ⟨flight, _, path⟩ := Flights.run_path executors schedule hcall
    rw [address_ofAbi, Abi.function_methodOf]
    exact (op.repeats_on abi ctx address f).of_path path

structure Catalog.Resolves (catalog : Catalog) (ctx : Context) (name : String)
    (address : Option Address) (resolved : Except Error MethodTable) : Prop where
  unknown : (∃ e, resolved = .error e ∧ e.kind = .unknownContract) ↔ catalog.get? name = none
  unaddressed : (∃ e, resolved = .error e ∧ e.kind = .missingAddress) ↔
    ∃ entry, catalog.get? name = some entry ∧ address = none ∧ entry.defaultAddress = none
  found : (∃ t, resolved = .ok t) ↔
    ∃ entry, catalog.get? name = some entry ∧ (address = none → entry.defaultAddress ≠ none)
  addressed : ∀ t, resolved = .ok t →
    ∃ entry, catalog.get? name = some entry ∧ address.or entry.defaultAddress = some t.address ∧
      t.AsksFor entry.abi ctx

theorem Catalog.resolves (catalog : Catalog) (ctx : Context) (name : String)
    (address : Option Address) :
    catalog.Resolves ctx name address ((catalog.bind ctx).methods name address) := by
  rcases catalog.methods_bind_cases ctx name address with
    ⟨absent, failed⟩ | ⟨entry, known, ⟨unstated, unusual, message, failed⟩ | ⟨a, stated, made⟩⟩
  · rw [failed]
    constructor <;> simp [absent, Error.kind, Contracts.unknownContract]
  · rw [failed]
    constructor <;> simp [known, unstated, unusual, Error.kind]
  · rw [made]
    have given : address = none → entry.defaultAddress ≠ none := by
      rintro rfl usual
      simp [usual] at stated
    refine ⟨by simp [known], ?_, ?_, ?_⟩
    · simpa [known] using given
    · simpa [known] using given
    · intro t ht
      cases ht
      refine ⟨entry, known, ?_, MethodTable.asksFor_ofAbi ctx entry.abi a⟩
      rwa [MethodTable.address_ofAbi]

/-- A contract is found under its name in the catalog, and all of its methods go to the address that was
given for it, in whatever way they are used. Nothing is asked while it is bound and found. -/
theorem methods_ask_where_resolved (catalog : Catalog) (ctx : Context) (name : String)
    (address : Option Address) :
    let resolved := (catalog.bind ctx).methods name address
    catalog.Resolves ctx name address resolved ∧
      ∀ (s : Session) (slot : String),
        let after := Session.bindAndStore ctx name address slot { s with catalog }
        after.1 = .ofTable resolved ∧ World.Alike after.2.world s.world :=
  ⟨catalog.resolves ctx name address,
    fun s => Session.bindAndStore_eq { s with catalog } ctx name address⟩

def depositFunction : ContractFunction :=
  ⟨"deposit", [], [], .payable⟩

def vaultCatalog : Catalog :=
  .ofList [("Vault", ⟨.ofFunctions [depositFunction], some .zero⟩)]

def vaultContext : Context :=
  ⟨⟨"reader"⟩, ⟨"writer"⟩, some .zero, defaultInterval⟩

def movedVault : Address :=
  ⟨List.replicate addressSize 1, rfl⟩

theorem movedVault_asked :
    ∃ t, (vaultCatalog.bind vaultContext).methods "Vault" (some movedVault) = .ok t ∧
      t.address = movedVault ∧
      ∃ m ∈ t.toList, m.function = depositFunction ∧ ∀ (executors : Executors) (args : List Json),
        ((Flights.run executors [(Operation.write args).on m]
            (List.replicate (stepsFor 1) 0)).history.of 0).filterMap Happening.naming? =
          [.trial ⟨"writer"⟩
            ⟨⟨movedVault, .ofFunctions [depositFunction], "deposit"⟩, some .zero, args⟩] := by
  have resolves := (methods_ask_where_resolved vaultCatalog vaultContext "Vault" (some movedVault)).1
  obtain ⟨t, ht⟩ := resolves.found.mpr ⟨_, rfl, nofun⟩
  obtain ⟨entry, hentry, haddress, asks⟩ := resolves.addressed t ht
  cases hentry
  have same : t.address = movedVault := (Option.some.inj haddress).symm
  obtain ⟨m, hm, hfunction⟩ := (asks.functions depositFunction).mp List.mem_cons_self
  refine ⟨t, ht, same, m, hm, hfunction, fun executors args => ?_⟩
  obtain ⟨k, -, named, complete⟩ :=
    (asks.asked m hm (.write args) executors [(Operation.write args).on m]
      (List.replicate (stepsFor 1) 0) 0 rfl).named
  have ended : stepsFor 1 ≤ (List.replicate (stepsFor 1) 0).count 0 := by simp
  rw [hfunction] at named complete
  rw [named, complete ended, same]
  rfl

end AbiCalls
