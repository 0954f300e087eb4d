namespace AbiCalls

/-- The list with `name` bound to `value`, in its place; an older binding is replaced. -/
def insertNamed {α : Type u} (name : String) (value : α) : List (String × α) → List (String × α)
  | [] => [(name, value)]
  | (n, v) :: rest =>
    if name < n then (name, value) :: (n, v) :: rest
    else if name = n then (name, value) :: rest
    else (n, v) :: insertNamed name value rest

def Ascending {α : Type u} (entries : List (String × α)) : Prop :=
  entries.Pairwise fun a b => a.1 < b.1

theorem mem_insertNamed {α : Type u} {name : String} {value : α} {entries : List (String × α)}
    {e : String × α} (h : e ∈ insertNamed name value entries) : e = (name, value) ∨ e ∈ entries := by
  induction entries with
  | nil => simpa [insertNamed] using h
  | cons head rest ih =>
    obtain ⟨n, v⟩ := head
    simp only [insertNamed] at h
    split at h
    · simpa using h
    · split at h
      · rcases List.mem_cons.mp h with h | h
        · exact Or.inl h
        · exact Or.inr (List.mem_cons_of_mem _ h)
      · rcases List.mem_cons.mp h with h | h
        · exact Or.inr (h ▸ List.mem_cons_self)
        · exact (ih h).imp_right (List.mem_cons_of_mem _)

theorem ascending_insertNamed {α : Type u} (name : String) (value : α) {entries : List (String × α)}
    (h : Ascending entries) : Ascending (insertNamed name value entries) := by
  induction entries with
  | nil => simp [insertNamed, Ascending]
  | cons head rest ih =>
    obtain ⟨n, v⟩ := head
    obtain ⟨hn, hr⟩ := List.pairwise_cons.mp h
    simp only [insertNamed]
    split
    next hlt =>
      refine List.pairwise_cons.mpr ⟨fun e he => ?_, h⟩
      rcases List.mem_cons.mp he with he | he
      · exact he ▸ hlt
      · exact String.lt_trans hlt (hn e he)
    next hlt =>
      split
      next heq => exact List.pairwise_cons.mpr ⟨fun e he => heq ▸ hn e he, hr⟩
      next hne =>
        refine List.pairwise_cons.mpr ⟨fun e he => ?_, ih hr⟩
        rcases mem_insertNamed he with he | he
        · subst he
          exact String.not_le.mp fun hle => hne (String.le_antisymm hle (String.not_lt.mp hlt))
        · exact hn e he

theorem lookup_cons_ne {α : Type u} {name x : String} (value : α) (rest : List (String × α))
    (h : x ≠ name) : ((name, value) :: rest).lookup x = rest.lookup x := by
  rw [List.lookup_cons, beq_eq_false_iff_ne.mpr h]

theorem lookup_insertNamed {α : Type u} (name : String) (value : α) (entries : List (String × α))
    (x : String) :
    (insertNamed name value entries).lookup x = if x = name then some value else entries.lookup x := by
  by_cases hx : x = name
  · subst hx
    rw [if_pos rfl]
    induction entries with
    | nil => exact List.lookup_cons_self
    | cons head rest ih =>
      obtain ⟨n, v⟩ := head
      simp only [insertNamed]
      split
      · exact List.lookup_cons_self
      · split
        · exact List.lookup_cons_self
        next hne => rw [lookup_cons_ne v _ hne, ih]
  · rw [if_neg hx]
    induction entries with
    | nil => exact lookup_cons_ne value [] hx
    | cons head rest ih =>
      obtain ⟨n, v⟩ := head
      simp only [insertNamed]
      split
      · exact lookup_cons_ne value _ hx
      · split
        next heq => rw [lookup_cons_ne value _ hx, lookup_cons_ne v _ (heq ▸ hx)]
        next =>
          by_cases hn : x = n
          · subst hn
            rw [List.lookup_cons_self, List.lookup_cons_self]
          · rw [lookup_cons_ne v _ hn, lookup_cons_ne v _ hn, ih]

structure NameMap (α : Type u) where
  entries : List (String × α)
  ascending : Ascending entries

namespace NameMap

def empty {α : Type u} : NameMap α :=
  ⟨[], List.Pairwise.nil⟩

instance {α : Type u} : Inhabited (NameMap α) := ⟨empty⟩

def insert {α : Type u} (m : NameMap α) (name : String) (value : α) : NameMap α :=
  ⟨insertNamed name value m.entries, ascending_insertNamed name value m.ascending⟩

def get? {α : Type u} (m : NameMap α) (name : String) : Option α :=
  m.entries.lookup name

def contains {α : Type u} (m : NameMap α) (name : String) : Bool :=
  (m.get? name).isSome

def names {α : Type u} (m : NameMap α) : List String :=
  m.entries.map Prod.fst

def values {α : Type u} (m : NameMap α) : List α :=
  m.entries.map Prod.snd

def size {α : Type u} (m : NameMap α) : Nat :=
  m.entries.length

def isEmpty {α : Type u} (m : NameMap α) : Bool :=
  m.entries.isEmpty

def mapValues {α : Type u} {β : Type v} (f : String → α → β) (m : NameMap α) : NameMap β :=
  ⟨m.entries.map fun e => (e.1, f e.1 e.2), by
    unfold Ascending
    exact List.pairwise_map.mpr m.ascending⟩

def erase {α : Type u} (m : NameMap α) (name : String) : NameMap α :=
  ⟨m.entries.filter fun e => e.1 ≠ name, m.ascending.filter _⟩

/-- Later entries of the list win over earlier ones of the same name. -/
def ofList {α : Type u} (entries : List (String × α)) : NameMap α :=
  entries.foldl (fun m e => m.insert e.1 e.2) empty

@[simp] theorem get?_empty {α : Type u} (name : String) : (empty : NameMap α).get? name = none := rfl

theorem get?_insert {α : Type u} (m : NameMap α) (name : String) (value : α) (x : String) :
    (m.insert name value).get? x = if x = name then some value else m.get? x :=
  lookup_insertNamed name value m.entries x

end NameMap

end AbiCalls
