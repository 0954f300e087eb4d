import AbiCalls.Json.Printer
import AbiCalls.Proofs.Nesting

namespace AbiCalls

def Input.ofChars (cs : List Char) : Input :=
  cs.map .char

@[simp] theorem Input.ofChars_nil : Input.ofChars [] = [] := rfl

@[simp] theorem Input.ofChars_cons (c : Char) (cs : List Char) :
    Input.ofChars (c :: cs) = .char c :: Input.ofChars cs := rfl

@[simp] theorem Input.ofChars_append (cs ds : List Char) :
    Input.ofChars (cs ++ ds) = Input.ofChars cs ++ Input.ofChars ds :=
  List.map_append

theorem hexUnit?_of_control {n : Nat} (h : n < 0x20) :
    hexUnit? (.char '0') (.char '0') (.char (Nat.digitChar (n / 16)))
      (.char (Nat.digitChar (n % 16))) = some n := by
  revert n
  decide

theorem readChars_charText (c : Char) (read : List Symbol) (rest : Input) :
    readChars read (Input.ofChars (Json.charText c) ++ rest) = readChars (.char c :: read) rest := by
  unfold Json.charText
  split_ifs with h₁ h₂ h₃ h₄ h₅ h₆ h₇ h₈
  · subst h₁
    rfl
  · subst h₂
    rfl
  · subst h₃
    rfl
  · subst h₄
    rfl
  · subst h₅
    rfl
  · subst h₆
    rfl
  · subst h₇
    rfl
  · have unit := hexUnit?_of_control h₈
    have control : isTrailUnit c.toNat = false ∧ isLeadUnit c.toNat = false := by
      simp only [isTrailUnit, isLeadUnit, Bool.and_eq_false_iff, decide_eq_false_iff_not]
      omega
    simp [readChars, unit, control, Char.ofNat_toNat]
  · change readChars read (.char c :: rest) = _
    rw [readChars.eq_def]
    simp only [h₁, h₂, h₈, if_false]

theorem readChars_flatMap_charText (cs : List Char) (read : List Symbol) (rest : Input) :
    readChars read (Input.ofChars (cs.flatMap Json.charText) ++ rest) =
      readChars ((cs.map Symbol.char).reverse ++ read) rest := by
  induction cs generalizing read with
  | nil => rfl
  | cons c cs ih =>
    rw [List.flatMap_cons, Input.ofChars_append, List.append_assoc, readChars_charText, ih]
    simp

theorem mapM_char?_map_char (cs : List Char) : (cs.map Symbol.char).mapM Symbol.char? = some cs := by
  induction cs with
  | nil => rfl
  | cons c cs ih => simp [List.mapM_cons, Symbol.char?, ih]

theorem readString_stringText (text : String) (rest : Input) :
    readString (Input.ofChars (text.toList.flatMap Json.charText ++ ['"']) ++ rest) =
      .ok (text, rest) := by
  rw [Input.ofChars_append, List.append_assoc, readString, readChars_flatMap_charText, List.append_nil,
    readChars.eq_def]
  simp only [Input.ofChars_cons, Input.ofChars_nil, List.singleton_append, if_true, List.reverse_reverse,
    mapM_char?_map_char, String.ofList_toList]

inductive Json.Numberless : Json → Prop
  | null : Numberless .null
  | bool (value : Bool) : Numberless (.bool value)
  | str (text : String) : Numberless (.str text)
  | list {items : List Json} (h : ∀ item ∈ items, Numberless item) : Numberless (.list items)
  | object {fields : List (String × Json)} (h : ∀ field ∈ fields, Numberless field.2) :
    Numberless (.object fields)

/-- The text of a value is read back, with the fields in order, whatever follows it. -/
def Recovers (read : Reader Json) (value : Json) : Prop :=
  ∀ rest, read (Input.ofChars value.chars ++ rest) = .ok (value.sorted, rest)

theorem skipBlanks_of_solid {c : Char} (h : Symbol.isJsonBlank (.char c) = false) (rest : Input) :
    skipBlanks (.char c :: rest) = .char c :: rest := by
  simp [skipBlanks, h]

theorem Json.Numberless.chars_cons {value : Json} (h : value.Numberless) :
    ∃ c cs, value.chars = c :: cs ∧ Symbol.isJsonBlank (.char c) = false ∧ c ≠ ']' := by
  cases h with
  | null => exact ⟨'n', _, rfl, by decide, by decide⟩
  | bool value => cases value <;> exact ⟨_, _, rfl, by decide, by decide⟩
  | str text => exact ⟨'"', _, rfl, by decide, by decide⟩
  | @list items => cases items <;> exact ⟨'[', _, rfl, by decide, by decide⟩
  | @object fields => cases fields <;> exact ⟨'\x7b', _, rfl, by decide, by decide⟩

theorem readItems_last {readItem : Reader Json} {input rest : Input} {item : Json}
    (h : readItem input = .ok (item, .char ']' :: rest)) (limit : Nat) (read : List Json) :
    readItems readItem (limit + 1) read input = .ok ((item :: read).reverse, rest) := by
  rw [readItems, h]
  rfl

theorem readItems_more {readItem : Reader Json} {input rest : Input} {item : Json} {c : Char}
    (h : readItem input = .ok (item, .char ',' :: .char c :: rest))
    (solid : Symbol.isJsonBlank (.char c) = false) (unclosed : c ≠ ']') (limit : Nat) (read : List Json) :
    readItems readItem (limit + 1) read input =
      readItems readItem limit (item :: read) (.char c :: rest) := by
  rw [readItems, h]
  have comma := skipBlanks_of_solid (c := ',') (by decide) (.char c :: rest)
  simp only [bind, Except.bind, comma, skipBlanks_of_solid solid]
  split
  next h => cases h
  next h => cases h; exact absurd rfl unclosed
  next => rfl

theorem readItems_written {readItem : Reader Json} {items : List Json} {item : Json} {limit : Nat}
    (first : Recovers readItem item) (others : ∀ v ∈ items, Recovers readItem v ∧ v.Numberless)
    (enough : items.length < limit) (read : List Json) (rest : Input) :
    readItems readItem limit read (Input.ofChars (item.chars ++ Json.itemsTail items) ++ rest) =
      .ok (read.reverse ++ Json.sortedItems (item :: items), rest) := by
  induction items generalizing item limit read with
  | nil =>
    obtain ⟨limit, rfl⟩ := Nat.exists_eq_succ_of_ne_zero (Nat.ne_of_gt enough)
    have last := first (Input.ofChars (Json.itemsTail []) ++ rest)
    rw [Input.ofChars_append, List.append_assoc, readItems_last last]
    simp [Json.sortedItems]
  | cons next items ih =>
    obtain ⟨limit, rfl⟩ := Nat.exists_eq_succ_of_ne_zero (Nat.ne_of_gt (Nat.zero_lt_of_lt enough))
    obtain ⟨recovers, numberless⟩ := others next List.mem_cons_self
    obtain ⟨c, cs, head, solid, unclosed⟩ := numberless.chars_cons
    have more := first (Input.ofChars (Json.itemsTail (next :: items)) ++ rest)
    have tail := ih recovers (fun v hv => others v (List.mem_cons_of_mem _ hv))
      (Nat.lt_of_succ_lt_succ enough) (item.sorted :: read)
    simp only [Json.itemsTail, head, List.cons_append, Input.ofChars_cons] at more tail
    rw [Input.ofChars_append, List.append_assoc, Json.itemsTail, head, List.cons_append, Input.ofChars_cons,
      Input.ofChars_cons, List.cons_append, List.cons_append, readItems_more more solid unclosed, tail]
    simp [Json.sortedItems]

@[simp] theorem readColon_colon (after : Input) : readColon (.char ':' :: after) = .ok after := rfl

theorem readFields_last {readItem : Reader Json} {input rest after : Input} {name : String}
    {value : Json} (hname : readString input = .ok (name, .char ':' :: after))
    (hvalue : readItem after = .ok (value, .char '\x7d' :: rest)) (limit : Nat)
    (read : List (String × Json)) :
    readFields readItem (limit + 1) read (.char '"' :: input) =
      .ok (insertNamed name value read, rest) := by
  simp only [readFields, bind, Except.bind, hname, readColon_colon, hvalue]
  rfl

theorem readFields_more {readItem : Reader Json} {input rest after : Input} {name : String}
    {value : Json} (hname : readString input = .ok (name, .char ':' :: after))
    (hvalue : readItem after = .ok (value, .char ',' :: .char '"' :: rest)) (limit : Nat)
    (read : List (String × Json)) :
    readFields readItem (limit + 1) read (.char '"' :: input) =
      readFields readItem limit (insertNamed name value read) (.char '"' :: rest) := by
  simp only [readFields, bind, Except.bind, hname, readColon_colon, hvalue]
  rfl

theorem ofChars_field (name : String) (cs : List Char) (rest : Input) :
    Input.ofChars (Json.stringText name ++ ':' :: cs) ++ rest =
      .char '"' :: (Input.ofChars (name.toList.flatMap Json.charText ++ ['"']) ++
        (.char ':' :: (Input.ofChars cs ++ rest))) := by
  simp [Json.stringText]

theorem ofChars_valued (name : String) (value : Json) (fields : List (String × Json)) (rest : Input) :
    Input.ofChars (Json.stringText name ++ ':' :: (value.chars ++ Json.fieldsTail fields)) ++ rest =
      .char '"' :: (Input.ofChars (name.toList.flatMap Json.charText ++ ['"']) ++
        (.char ':' :: (Input.ofChars value.chars ++ (Input.ofChars (Json.fieldsTail fields) ++ rest)))) := by
  rw [ofChars_field, Input.ofChars_append value.chars, List.append_assoc (Input.ofChars value.chars)]

theorem readFields_written {readItem : Reader Json} {fields : List (String × Json)} (name : String)
    {value : Json} {limit : Nat} (first : Recovers readItem value)
    (others : ∀ field ∈ fields, Recovers readItem field.2) (enough : fields.length < limit)
    (read : List (String × Json)) (rest : Input) :
    readFields readItem limit read
        (Input.ofChars (Json.stringText name ++ ':' :: (value.chars ++ Json.fieldsTail fields)) ++ rest) =
      .ok (Json.sortedFields read ((name, value) :: fields), rest) := by
  induction fields generalizing name value limit read with
  | nil =>
    obtain ⟨limit, rfl⟩ := Nat.exists_eq_succ_of_ne_zero (Nat.ne_of_gt enough)
    have last := first (Input.ofChars (Json.fieldsTail []) ++ rest)
    rw [ofChars_valued, readFields_last (readString_stringText name _) last]
    rfl
  | cons field fields ih =>
    obtain ⟨limit, rfl⟩ := Nat.exists_eq_succ_of_ne_zero (Nat.ne_of_gt (Nat.zero_lt_of_lt enough))
    obtain ⟨next, own⟩ := field
    have more := first (Input.ofChars (Json.fieldsTail ((next, own) :: fields)) ++ rest)
    have tail := ih next (others (next, own) List.mem_cons_self)
      (fun v hv => others v (List.mem_cons_of_mem _ hv)) (Nat.lt_of_succ_lt_succ enough)
      (insertNamed name value.sorted read)
    rw [Json.fieldsTail, Input.ofChars_cons, List.cons_append, ofChars_field] at more
    rw [ofChars_field] at tail
    rw [ofChars_valued, Json.fieldsTail, Input.ofChars_cons, List.cons_append, ofChars_field,
      readFields_more (readString_stringText name _) more, tail]
    rfl

theorem length_itemsTail (items : List Json) : items.length < (Json.itemsTail items).length := by
  induction items with
  | nil => simp [Json.itemsTail]
  | cons item items ih =>
    simp only [Json.itemsTail, List.length_cons, List.length_append]
    omega

theorem length_fieldsTail (fields : List (String × Json)) :
    fields.length < (Json.fieldsTail fields).length := by
  induction fields with
  | nil => simp [Json.fieldsTail]
  | cons field fields ih =>
    obtain ⟨name, value⟩ := field
    simp only [Json.fieldsTail, List.length_cons, List.length_append]
    omega

theorem length_lt_valued (name : String) (value : Json) (fields : List (String × Json)) (rest : Input) :
    fields.length < (Input.ofChars
      (Json.stringText name ++ ':' :: (value.chars ++ Json.fieldsTail fields)) ++ rest).length := by
  have tail := length_fieldsTail fields
  simp only [Input.ofChars, List.length_append, List.length_map, List.length_cons]
  omega

theorem readList_written {readItem : Reader Json} {items : List Json}
    (h : ∀ v ∈ items, Recovers readItem v ∧ v.Numberless) (rest : Input) :
    ∃ cs, (Json.list items).chars = '[' :: cs ∧
      readList readItem (Input.ofChars cs ++ rest) = .ok (Json.sortedItems items, rest) := by
  cases items with
  | nil => exact ⟨_, rfl, rfl⟩
  | cons item items =>
    refine ⟨_, rfl, ?_⟩
    obtain ⟨recovers, numberless⟩ := h item List.mem_cons_self
    obtain ⟨c, cs, head, solid, unclosed⟩ := numberless.chars_cons
    have enough : items.length <
        (Input.ofChars (item.chars ++ Json.itemsTail items) ++ rest).length := by
      have tail := length_itemsTail items
      simp only [Input.ofChars, List.length_append, List.length_map]
      omega
    have read := readItems_written recovers (fun v hv => h v (List.mem_cons_of_mem _ hv)) enough [] rest
    simp only [head, List.cons_append, Input.ofChars_cons] at read ⊢
    rw [readList, skipBlanks_of_solid solid]
    split
    next h => cases h
    next h => cases h; exact absurd rfl unclosed
    next => exact read

theorem readObject_written {readItem : Reader Json} {fields : List (String × Json)}
    (h : ∀ field ∈ fields, Recovers readItem field.2) (rest : Input) :
    ∃ cs, (Json.object fields).chars = '\x7b' :: cs ∧
      readObject readItem (Input.ofChars cs ++ rest) = .ok (Json.sortedFields [] fields, rest) := by
  cases fields with
  | nil => exact ⟨_, rfl, rfl⟩
  | cons field fields =>
    obtain ⟨name, value⟩ := field
    refine ⟨_, rfl, ?_⟩
    have enough := length_lt_valued name value fields rest
    have read := readFields_written name (h (name, value) List.mem_cons_self)
      (fun v hv => h v (List.mem_cons_of_mem _ hv)) enough [] rest
    rw [ofChars_field] at read ⊢
    exact read

theorem readValueWith_null (readNested : Char → Reader Json) :
    Recovers (readValueWith readNested) .null := fun _ => rfl

theorem readValueWith_bool (readNested : Char → Reader Json) (value : Bool) :
    Recovers (readValueWith readNested) (.bool value) := by
  intro rest
  cases value <;> rfl

theorem readValueWith_str (readNested : Char → Reader Json) (text : String) :
    Recovers (readValueWith readNested) (.str text) := by
  intro rest
  have read := readString_stringText text rest
  change (readString (Input.ofChars (text.toList.flatMap Json.charText ++ ['"']) ++ rest) >>=
    fun after => pure (Json.str after.1, after.2)) = .ok (.str text, rest)
  rw [read]
  rfl

/-- A value comes back from its text if the reader goes as deep as the value does. -/
theorem readValue_written {value : Json} (plain : value.Numberless) {depth : Nat}
    (h : value.height ≤ depth) : Recovers (readValue depth) value := by
  induction depth generalizing value with
  | zero =>
    cases plain with
    | null => exact readValueWith_null _
    | bool value => exact readValueWith_bool _ value
    | str text => exact readValueWith_str _ text
    | list _ => exact absurd h (Nat.not_succ_le_zero _)
    | object _ => exact absurd h (Nat.not_succ_le_zero _)
  | succ depth ih =>
    cases plain with
    | null => exact readValueWith_null _
    | bool value => exact readValueWith_bool _ value
    | str text => exact readValueWith_str _ text
    | @list items plain =>
      intro rest
      have within := Json.heightOfItems_le_iff.mp (Nat.le_of_succ_le_succ h)
      obtain ⟨cs, hcs, read⟩ := readList_written
        (fun v hv => ⟨ih (plain v hv) (within v hv), plain v hv⟩) rest
      rw [hcs]
      change (readList (readValue depth) (Input.ofChars cs ++ rest) >>=
        fun after => pure (Json.list after.1, after.2)) = _
      rw [read]
      rfl
    | @object fields plain =>
      intro rest
      have within := Json.heightOfFields_le_iff.mp (Nat.le_of_succ_le_succ h)
      obtain ⟨cs, hcs, read⟩ := readObject_written
        (fun field hf => ih (plain field hf) (within field hf)) rest
      rw [hcs]
      change (readObject (readValue depth) (Input.ofChars cs ++ rest) >>=
        fun after => pure (Json.object after.1, after.2)) = _
      rw [read]
      rfl

theorem Symbol.ofText_compact (value : Json) : ofText value.compact = Input.ofChars value.chars ++ [] := by
  rw [ofText, Json.compact, String.toList_ofList, List.append_nil]
  rfl

theorem Json.ofText_compact {value : Json} (plain : value.Numberless)
    (h : value.height ≤ nestingLimit) : Json.ofText value.compact = .ok value.sorted := by
  have read := readValue_written plain h []
  rw [ofText, ofSymbols, Symbol.ofText_compact, read]
  rfl

end AbiCalls
