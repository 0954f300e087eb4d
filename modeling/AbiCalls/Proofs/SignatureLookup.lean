import AbiCalls.Proofs.Grouping
import AbiCalls.Proofs.Signatures

namespace AbiCalls

namespace ContractFunction

theorem signed_iff {f : ContractFunction} {s : String} :
    f.name = String.ofList (s.toList.takeWhile (· ≠ '(')) ∧ f.signature = s ↔
      '(' ∉ f.name.toList ∧ f.signature = s := by
  refine and_congr_left fun signed => ?_
  subst signed
  constructor
  · intro named bracket
    rw [named, String.toList_ofList] at bracket
    simpa using List.mem_takeWhile_imp bracket
  · intro h
    rw [takeWhile_signature h, String.ofList_toList]

end ContractFunction

namespace MethodTable

variable (ctx : Context) (abi : Abi) (address : Address)

theorem withSignature?_ofAbi (s : String) :
    (ofAbi ctx abi address).withSignature? s =
      (abi.functions.find? fun f => '(' ∉ f.name.toList ∧ f.signature = s).map
        (abi.methodOf ctx address) := by
  unfold withSignature?
  simp only [overloads_ofAbi, List.find?_map, List.find?_filter]
  congr 2
  funext f
  rw [Bool.eq_iff_iff]
  simpa using ContractFunction.signed_iff

theorem withSignature?_eq_none_iff (s : String) :
    (ofAbi ctx abi address).withSignature? s = none ↔
      ∀ f ∈ abi.functions, '(' ∈ f.name.toList ∨ f.signature ≠ s := by
  rw [withSignature?_ofAbi, Option.map_eq_none_iff, List.find?_eq_none]
  simp only [decide_eq_true_eq, not_and_or, not_not, ne_eq]

theorem mem_of_withSignature? {s : String} {m : Method}
    (h : (ofAbi ctx abi address).withSignature? s = some m) :
    m ∈ (ofAbi ctx abi address).toList ∧ '(' ∉ m.function.name.toList ∧ m.function.signature = s := by
  rw [withSignature?_ofAbi] at h
  obtain ⟨f, hf, rfl⟩ := Option.map_eq_some_iff.mp h
  have signed := List.find?_some hf
  rw [decide_eq_true_eq] at signed
  rw [Abi.function_methodOf]
  exact ⟨mem_toList_ofAbi.mpr ⟨f, List.mem_of_find?_eq_some hf, rfl⟩, signed⟩

theorem withSignature?_own {m : Method} (hm : m ∈ (ofAbi ctx abi address).toList)
    (h : '(' ∉ m.function.name.toList) :
    ∃ n, (ofAbi ctx abi address).withSignature? m.function.signature = some n ∧
      n.function.name = m.function.name ∧
      Param.joinedChars n.function.inputs = Param.joinedChars m.function.inputs := by
  obtain ⟨f, hf, rfl⟩ := mem_toList_ofAbi.mp hm
  cases found : (ofAbi ctx abi address).withSignature? (abi.methodOf ctx address f).function.signature with
  | none =>
    rw [Abi.function_methodOf] at h found
    rcases (withSignature?_eq_none_iff ctx abi address _).mp found f hf with bracket | other
    · exact absurd bracket h
    · exact absurd rfl other
  | some n =>
    obtain ⟨_, free, same⟩ := mem_of_withSignature? ctx abi address found
    exact ⟨n, rfl, (ContractFunction.signature_eq_iff_joinedChars free h).mp same⟩

end MethodTable

/-- A signature selects the method of the first function that is declared with it, if its name holds no
bracket, and nothing else is ever selected. -/
theorem signature_selects_first_declared (ctx : Context) (abi : Abi) (address : Address) :
    let t := MethodTable.ofAbi ctx abi address
    (∀ s,
      t.withSignature? s =
        (abi.functions.find? fun f => '(' ∉ f.name.toList ∧ f.signature = s).map
          (abi.methodOf ctx address) ∧
      (t.withSignature? s = none ↔ ∀ f ∈ abi.functions, '(' ∈ f.name.toList ∨ f.signature ≠ s) ∧
      ∀ m, t.withSignature? s = some m →
        m ∈ t.toList ∧ '(' ∉ m.function.name.toList ∧ m.function.signature = s) ∧
    ∀ m ∈ t.toList, '(' ∉ m.function.name.toList →
      ∃ n, t.withSignature? m.function.signature = some n ∧
        n.function.name = m.function.name ∧
        Param.joinedChars n.function.inputs = Param.joinedChars m.function.inputs := by
  intro t
  refine ⟨fun s => ⟨?_, ?_, fun m hm => ?_⟩, fun m hm h => ?_⟩
  · exact MethodTable.withSignature?_ofAbi ctx abi address s
  · exact MethodTable.withSignature?_eq_none_iff ctx abi address s
  · exact MethodTable.mem_of_withSignature? ctx abi address hm
  · exact MethodTable.withSignature?_own ctx abi address hm h

/-- Payments of which two are the same but for their spelling, and one whose name holds a bracket. -/
def payAbi : Abi :=
  .ofFunctions [flatPay, { flatPay with name := "pay((uint256,address)[])" }, loosePay, strictPay]

theorem payAbi_selected :
    let t := MethodTable.ofAbi anonymousContext payAbi .zero
    t.withSignature? "pay((uint256,address)[])" = some (payAbi.methodOf anonymousContext .zero loosePay) ∧
      t.withSignature? "pay((uint,address)[])" = none ∧
      ∃ n, t.withSignature? strictPay.signature = some n ∧ n.function.name = "pay" ∧
        Param.joinedChars n.function.inputs = Param.joinedChars strictPay.inputs := by
  intro t
  obtain ⟨selects, own⟩ := signature_selects_first_declared anonymousContext payAbi .zero
  have first : (payAbi.functions.find? fun f =>
      '(' ∉ f.name.toList ∧ f.signature = "pay((uint256,address)[])") = some loosePay := by decide
  have unsized : ∀ f ∈ payAbi.functions,
      '(' ∈ f.name.toList ∨ f.signature ≠ "pay((uint,address)[])" := by decide
  have strict : payAbi.methodOf anonymousContext .zero strictPay ∈ t.toList :=
    MethodTable.mem_toList_ofAbi.mpr ⟨strictPay, by decide, rfl⟩
  have reached := own _ strict
  rw [Abi.function_methodOf] at reached
  refine ⟨?_, (selects _).2.1.mpr unsized, reached (by decide)⟩
  exact (selects _).1.trans (congrArg (Option.map (payAbi.methodOf anonymousContext .zero)) first)

end AbiCalls
