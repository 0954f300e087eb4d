import AbiCalls.MethodTable
import AbiCalls.Proofs.ByteOrder
import AbiCalls.Proofs.NameMaps

namespace AbiCalls

def Abi.methodOf (abi : Abi) (ctx : Context) (address : Address) (f : ContractFunction) : Method :=
  .ofFunction ⟨address, abi, f.name⟩ f ctx

@[simp] theorem Abi.function_methodOf (abi : Abi) (ctx : Context) (address : Address)
    (f : ContractFunction) : (abi.methodOf ctx address f).function = f := by
  unfold Abi.methodOf Method.ofFunction
  split <;> rfl

@[simp] theorem Abi.target_methodOf (abi : Abi) (ctx : Context) (address : Address)
    (f : ContractFunction) : (abi.methodOf ctx address f).target = ⟨address, abi, f.name⟩ := by
  unfold Abi.methodOf Method.ofFunction
  split <;> rfl

@[simp] theorem Abi.access_methodOf (abi : Abi) (ctx : Context) (address : Address)
    (f : ContractFunction) : (abi.methodOf ctx address f).access = f.mutability.access := by
  unfold Abi.methodOf Method.ofFunction ContractFunction.access
  split <;> simp_all [Method.access]

theorem Abi.count_functions (abi : Abi) (f : ContractFunction) :
    abi.functions.count f = abi.members.count (.function f) := by
  unfold Abi.functions
  induction abi.members with
  | nil => rfl
  | cons m members ih =>
    cases m with
    | function g => simp [Member.asFunction?, List.count_cons, ih]
    | _ =>
      rw [List.filterMap_cons_none rfl, ih]
      simp

/-- Functions in the order of the bytes of their names. -/
def ContractFunction.precedes (f g : ContractFunction) : Bool :=
  utf8Bytes f.name ≤ utf8Bytes g.name

theorem ContractFunction.precedes_iff {f g : ContractFunction} : f.precedes g ↔ f.name ≤ g.name := by
  rw [ContractFunction.precedes, decide_eq_true_eq, utf8Bytes_le_iff]

theorem ContractFunction.precedes_trans (f g h : ContractFunction) (hfg : f.precedes g)
    (hgh : g.precedes h) : f.precedes h :=
  precedes_iff.mpr (String.le_trans (precedes_iff.mp hfg) (precedes_iff.mp hgh))

theorem ContractFunction.precedes_total (f g : ContractFunction) : f.precedes g || g.precedes f := by
  rw [Bool.or_eq_true, precedes_iff, precedes_iff]
  exact String.le_total f.name g.name

/-- Two lists that are sorted by a key, and have the same elements in the same order under each key, are
equal. -/
theorem eq_of_sorted_of_filter_eq {α : Type} {key : α → String} {l₁ l₂ : List α}
    (h₁ : l₁.Pairwise fun a b => key a ≤ key b) (h₂ : l₂.Pairwise fun a b => key a ≤ key b)
    (same : ∀ n, l₁.filter (fun a => key a = n) = l₂.filter fun a => key a = n) : l₁ = l₂ := by
  induction l₁ generalizing l₂ with
  | nil =>
    cases l₂ with
    | nil => rfl
    | cons b l₂ => simpa using same (key b)
  | cons a l₁ ih =>
    cases l₂ with
    | nil => simpa using same (key a)
    | cons b l₂ =>
      obtain ⟨ha, sorted₁⟩ := List.pairwise_cons.mp h₁
      obtain ⟨hb, sorted₂⟩ := List.pairwise_cons.mp h₂
      have hab : key b ≤ key a := by
        have hmem : a ∈ (b :: l₂).filter fun x => key x = key a :=
          same (key a) ▸ List.mem_filter.mpr ⟨List.mem_cons_self, by simp⟩
        rcases List.mem_cons.mp (List.mem_filter.mp hmem).1 with rfl | hm
        · exact String.le_refl _
        · exact hb a hm
      have hba : key a ≤ key b := by
        have hmem : b ∈ (a :: l₁).filter fun x => key x = key b :=
          same (key b) ▸ List.mem_filter.mpr ⟨List.mem_cons_self, by simp⟩
        rcases List.mem_cons.mp (List.mem_filter.mp hmem).1 with rfl | hm
        · exact String.le_refl _
        · exact ha b hm
      have hkey : key a = key b := String.le_antisymm hba hab
      have heads := same (key a)
      simp only [List.filter_cons, hkey, decide_true, if_true, List.cons.injEq] at heads
      obtain ⟨rfl, _⟩ := heads
      refine congrArg _ (ih sorted₁ sorted₂ fun n => ?_)
      have tails := same n
      simp only [List.filter_cons] at tails
      split at tails
      · exact (List.cons.inj tails).2
      · exact tails

theorem filter_mergeSort_precedes (fs : List ContractFunction) (name : String) :
    (fs.mergeSort ContractFunction.precedes).filter (fun f => f.name = name) =
      fs.filter fun f => f.name = name := by
  have sorted : (fs.filter fun f => f.name = name).Pairwise fun f g => f.precedes g := by
    refine List.pairwise_of_forall_mem_list fun f hf g hg => ?_
    have hfn : f.name = name := by simpa using (List.mem_filter.mp hf).2
    have hgn : g.name = name := by simpa using (List.mem_filter.mp hg).2
    exact ContractFunction.precedes_iff.mpr (hfn ▸ hgn ▸ String.le_refl _)
  have kept := List.sublist_mergeSort ContractFunction.precedes_trans ContractFunction.precedes_total
    sorted List.filter_sublist
  have hsub := kept.filter fun f => f.name = name
  rw [List.filter_filter] at hsub
  simp only [Bool.and_self] at hsub
  exact (hsub.eq_of_length ((List.mergeSort_perm fs _).filter _).length_eq.symm).symm

namespace MethodTable

theorem overloads_push (t : MethodTable) (m : Method) (name : String) :
    (t.push m).overloads name =
      if name = m.function.name then t.overloads name ++ [m] else t.overloads name := by
  unfold push overloads
  rw [NameMap.get?_insert]
  split
  next h => simp [h]
  next => rfl

theorem contains_push (t : MethodTable) (m : Method) (name : String) :
    (t.push m).contains name = (decide (name = m.function.name) || t.contains name) :=
  NameMap.contains_insert _ _ _ _

theorem overloads_foldl_push (methodOf : ContractFunction → Method)
    (keeps : ∀ f, (methodOf f).function = f) (fs : List ContractFunction) (t : MethodTable)
    (name : String) :
    (fs.foldl (fun t f => t.push (methodOf f)) t).overloads name =
      t.overloads name ++ (fs.filter fun f => f.name = name).map methodOf := by
  induction fs generalizing t with
  | nil => simp
  | cons f fs ih =>
    rw [List.foldl_cons, ih, overloads_push, keeps]
    by_cases h : f.name = name
    · simp [h]
    · simp [h, Ne.symm h]

theorem contains_foldl_push (methodOf : ContractFunction → Method)
    (keeps : ∀ f, (methodOf f).function = f) (fs : List ContractFunction) (t : MethodTable)
    (name : String) :
    (fs.foldl (fun t f => t.push (methodOf f)) t).contains name =
      (t.contains name || fs.any fun f => f.name = name) := by
  induction fs generalizing t with
  | nil => simp
  | cons f fs ih =>
    rw [List.foldl_cons, ih, contains_push, keeps, List.any_cons, Bool.or_comm (decide _),
      Bool.or_assoc, eq_comm]
    simp only [eq_comm]

theorem address_ofAbi (ctx : Context) (abi : Abi) (address : Address) :
    (ofAbi ctx abi address).address = address := by
  have pushed : ∀ (fs : List ContractFunction) (t : MethodTable),
      (fs.foldl (fun t f => t.push (abi.methodOf ctx address f)) t).address = t.address := by
    intro fs
    induction fs with
    | nil => exact fun _ => rfl
    | cons f fs ih => exact fun t => ih (t.push (abi.methodOf ctx address f))
  exact pushed abi.functions (empty address)

theorem overloads_ofAbi (ctx : Context) (abi : Abi) (address : Address) (name : String) :
    (ofAbi ctx abi address).overloads name =
      (abi.functions.filter fun f => f.name = name).map (abi.methodOf ctx address) :=
  overloads_foldl_push (abi.methodOf ctx address) (abi.function_methodOf ctx address) abi.functions
    (empty address) name

theorem contains_ofAbi (ctx : Context) (abi : Abi) (address : Address) (name : String) :
    (ofAbi ctx abi address).contains name = abi.functions.any fun f => f.name = name :=
  contains_foldl_push (abi.methodOf ctx address) (abi.function_methodOf ctx address) abi.functions
    (empty address) name

theorem toList_eq_flatMap (t : MethodTable) : t.toList = t.names.flatMap t.overloads := by
  calc t.groups.values.flatten
      = (t.groups.values.map some).flatMap fun group => group.getD [] := by
        simp [List.flatMap, Function.comp_def]
    _ = (t.groups.names.map t.groups.get?).flatMap fun group => group.getD [] := by
        rw [NameMap.map_get?_names]
    _ = t.names.flatMap t.overloads := List.flatMap_map ..

theorem function_name_of_mem_overloads {ctx : Context} {abi : Abi} {address : Address}
    {name : String} {m : Method} (h : m ∈ (ofAbi ctx abi address).overloads name) :
    m.function.name = name := by
  rw [overloads_ofAbi] at h
  obtain ⟨f, hf, rfl⟩ := List.mem_map.mp h
  simpa using (List.mem_filter.mp hf).2

theorem filter_flatMap_overloads {t : MethodTable} {names : List String}
    (distinct : names.Nodup) (named : ∀ n, ∀ m ∈ t.overloads n, m.function.name = n) (name : String) :
    (names.flatMap t.overloads).filter (fun m => m.function.name = name) =
      if name ∈ names then t.overloads name else [] := by
  induction names with
  | nil => rfl
  | cons n names ih =>
    obtain ⟨fresh, distinct⟩ := List.nodup_cons.mp distinct
    rw [List.flatMap_cons, List.filter_append, ih distinct]
    by_cases h : name = n
    · subst h
      rw [List.filter_eq_self.mpr fun m hm => by simpa using named name m hm]
      simp [fresh]
    · rw [List.filter_eq_nil_iff.mpr fun m hm => by simpa [named n m hm] using Ne.symm h]
      simp [h]

theorem filter_toList_ofAbi (ctx : Context) (abi : Abi) (address : Address) (name : String) :
    (ofAbi ctx abi address).toList.filter (fun m => m.function.name = name) =
      (ofAbi ctx abi address).overloads name := by
  have distinct : (ofAbi ctx abi address).names.Nodup :=
    (NameMap.names_ascending _).imp String.ne_of_lt
  rw [toList_eq_flatMap,
    filter_flatMap_overloads distinct fun n m hm => function_name_of_mem_overloads hm]
  split
  next => rfl
  next h =>
    have absent : (ofAbi ctx abi address).groups.get? name = none := by
      simpa [names, NameMap.mem_names_iff, NameMap.contains] using h
    simp [overloads, absent]

theorem toList_ofAbi_sorted (ctx : Context) (abi : Abi) (address : Address) :
    (ofAbi ctx abi address).toList.Pairwise fun m n => m.function.name ≤ n.function.name := by
  rw [toList_eq_flatMap, List.pairwise_flatMap]
  constructor
  · intro name _
    refine List.pairwise_of_forall_mem_list fun m hm n hn => ?_
    have hm := function_name_of_mem_overloads hm
    have hn := function_name_of_mem_overloads hn
    exact hm ▸ hn ▸ String.le_refl name
  · refine (NameMap.names_ascending _).imp fun {a b} hlt m hm n hn => ?_
    rw [function_name_of_mem_overloads hm, function_name_of_mem_overloads hn]
    exact String.not_lt.mp (String.lt_asymm hlt)

theorem toList_ofAbi (ctx : Context) (abi : Abi) (address : Address) :
    (ofAbi ctx abi address).toList =
      (abi.functions.mergeSort ContractFunction.precedes).map (abi.methodOf ctx address) := by
  refine eq_of_sorted_of_filter_eq (toList_ofAbi_sorted ctx abi address) ?_ fun name => ?_
  · have sorted := List.pairwise_mergeSort ContractFunction.precedes_trans
      ContractFunction.precedes_total abi.functions
    rw [List.pairwise_map]
    refine sorted.imp fun h => ?_
    simpa using ContractFunction.precedes_iff.mp h
  · rw [filter_toList_ofAbi, overloads_ofAbi, List.filter_map, ← filter_mergeSort_precedes]
    simp [Function.comp_def]

theorem mem_toList_ofAbi {ctx : Context} {abi : Abi} {address : Address} {m : Method} :
    m ∈ (ofAbi ctx abi address).toList ↔ ∃ f ∈ abi.functions, m = abi.methodOf ctx address f := by
  rw [toList_ofAbi, List.mem_map]
  simp only [(List.mergeSort_perm _ _).mem_iff, eq_comm]

theorem countP_toList_ofAbi (ctx : Context) (abi : Abi) (address : Address) (f : ContractFunction) :
    (ofAbi ctx abi address).toList.countP (fun m => m.function = f) = abi.members.count (.function f) := by
  rw [toList_ofAbi, List.countP_map, (List.mergeSort_perm _ _).countP_eq, ← abi.count_functions,
    List.count_eq_countP]
  exact List.countP_congr fun g _ => by simp

theorem get?_ofAbi (ctx : Context) (abi : Abi) (address : Address) (name : String) :
    (ofAbi ctx abi address).get? name = (abi.function? name).map (abi.methodOf ctx address) := by
  rw [get?, overloads_ofAbi, List.getLast?_map, Abi.function?]

theorem contains_eq_isSome_function? (ctx : Context) (abi : Abi) (address : Address) (name : String) :
    (ofAbi ctx abi address).contains name = (abi.function? name).isSome := by
  rw [contains_ofAbi, Abi.function?, Bool.eq_iff_iff, Option.isSome_iff_ne_none]
  simp

theorem read?_or_write? (t : MethodTable) (name : String) :
    ((t.read? name).isSome || (t.write? name).isSome) = (t.get? name).isSome ∧
      ((t.read? name).isSome && (t.write? name).isSome) = false := by
  unfold read? write?
  cases t.get? name with
  | none => exact ⟨rfl, rfl⟩
  | some m => cases m <;> exact ⟨rfl, rfl⟩

end MethodTable

/-- A table made from an ABI holds a method for every function among its members, in the order of a stable sort
by the bytes of the names; its groups are the overloads in the order of their declaration. -/
theorem ofAbi_groups_functions (ctx : Context) (abi : Abi) (address : Address) :
    let t := MethodTable.ofAbi ctx abi address
    t.toList = (abi.functions.mergeSort ContractFunction.precedes).map (abi.methodOf ctx address) ∧
    (∀ f, t.toList.countP (fun m => m.function = f) = abi.members.count (.function f)) ∧
    t.toList = t.names.flatMap t.overloads ∧
    (∀ f, (abi.methodOf ctx address f).function = f ∧
      (abi.methodOf ctx address f).access = f.mutability.access ∧
      (abi.methodOf ctx address f).target = ⟨address, abi, f.name⟩) ∧
    (∀ name,
      t.overloads name =
        (abi.functions.filter fun f => f.name = name).map (abi.methodOf ctx address) ∧
      (name ∈ t.names ↔ t.contains name) ∧
      t.contains name = (t.get? name).isSome ∧
      (t.get? name).isSome = (abi.function? name).isSome ∧
      t.get? name = (abi.function? name).map (abi.methodOf ctx address) ∧
      ((t.read? name).isSome || (t.write? name).isSome) = t.contains name ∧
      ((t.read? name).isSome && (t.write? name).isSome) = false) ∧
    (t.names.Pairwise fun a b => utf8Bytes a < utf8Bytes b) ∧
    t.size = t.names.length := by
  intro t
  refine ⟨MethodTable.toList_ofAbi ctx abi address, MethodTable.countP_toList_ofAbi ctx abi address,
    t.toList_eq_flatMap, fun f => ?_, fun name => ?_, ?_, ?_⟩
  · simp
  · have found := MethodTable.get?_ofAbi ctx abi address name
    have same : (t.get? name).isSome = (abi.function? name).isSome := by
      rw [found, Option.isSome_map]
    have contained : t.contains name = (t.get? name).isSome :=
      (MethodTable.contains_eq_isSome_function? ctx abi address name).trans same.symm
    obtain ⟨either, both⟩ := t.read?_or_write? name
    exact ⟨MethodTable.overloads_ofAbi ctx abi address name, NameMap.mem_names_iff, contained, same,
      found, either.trans contained.symm, both⟩
  · exact (NameMap.names_ascending _).imp utf8Bytes_lt_iff.mpr
  · exact (List.length_map _).symm

end AbiCalls
