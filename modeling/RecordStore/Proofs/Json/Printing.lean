import RecordStore.Json.Printer
import RecordStore.Json.Reading
import RecordStore.Proofs.Fields

/-!
# Texts of documents read back

`Json.Printable depth j` says that the containers of the document `j` are nested at most `depth` deep and that every
number in it reads back. **`Json.Printable.reads`**: the text of such a document is read as the document, whatever
follows that does not go on with a number. **`Json.Printable.parse_fields`**: so fields that are printed in any order
are read as the object that has them in order.
-/

namespace RecordStore

open Reading

/-! ## Strings -/

namespace Json

theorem hex4?_hexDigit : ∀ {n : Nat}, n < 32 → hex4? '0' '0' (hexDigit (n / 16)) (hexDigit (n % 16)) = some n := by
  decide

/-- A character is read from its escape. -/
theorem stringBody_escapeChar (c : Char) (rest : List Char) :
    stringBody (escapeChar c ++ rest) = consChar c (stringBody rest) := by
  by_cases h₁ : c = '"'
  · subst h₁; rfl
  by_cases h₂ : c = '\\'
  · subst h₂; rfl
  by_cases h₃ : c = '\n'
  · subst h₃; rfl
  by_cases h₄ : c = '\t'
  · subst h₄; rfl
  by_cases h₅ : c = '\r'
  · subst h₅; rfl
  by_cases h₆ : c = '\x08'
  · subst h₆; rfl
  by_cases h₇ : c = '\x0c'
  · subst h₇; rfl
  by_cases h₈ : c.toNat < 0x20
  · have hhex := hex4?_hexDigit h₈
    have hhigh : isHighHalf c.toNat = false := by simp [isHighHalf]; omega
    have hlow : isLowHalf c.toNat = false := by simp [isLowHalf]; omega
    simp only [escapeChar, h₁, h₂, h₃, h₄, h₅, h₆, h₇, h₈, if_false, if_true, List.cons_append, List.nil_append,
      stringBody, hhex, hhigh, hlow, Bool.false_eq_true, Char.ofNat_toNat]
  · simp only [escapeChar, h₁, h₂, h₃, h₄, h₅, h₆, h₇, h₈, if_false, List.cons_append, List.nil_append]
    rw [stringBody]
    · simp [h₂, h₈]
    all_goals simp_all

theorem stringBody_escaped : ∀ (cs rest : List Char),
    stringBody (cs.flatMap escapeChar ++ '"' :: rest) = some (cs, rest)
  | [], rest => by simp [stringBody]
  | c :: cs, rest => by
    rw [List.flatMap_cons, List.append_assoc, stringBody_escapeChar, stringBody_escaped cs rest, consChar]

end Json

/-! ## Numbers -/

namespace JsonNumber

/-- Characters that do not go on with a number. -/
def Ends (cs : List Char) : Prop :=
  ∀ c ∈ cs.head?, c.isDigit = false ∧ c ≠ '.' ∧ c ≠ 'e' ∧ c ≠ 'E'

/-- The text of a number is read as the number. -/
structure ReadsBack (n : JsonNumber) : Prop where
  head : ∃ c cs, n.chars = c :: cs ∧ (c = '-' ∨ c.isDigit = true)
  token : ∀ rest, Ends rest → numberToken (n.chars ++ rest) = some (n, rest)

end JsonNumber

/-! ## Values -/

namespace Json

open JsonNumber (Ends ReadsBack)

mutual

/-- Containers are nested at most so deep, and every number reads back. -/
def Printable : Nat → Json → Prop
  | _, .null | _, .bool _ | _, .string _ => True
  | _, .number n => ReadsBack n
  | 0, .array _ | 0, .object _ => False
  | depth + 1, .array items => PrintableItems depth items
  | depth + 1, .object fields => PrintableFields depth fields

/-- The same of all items of an array. -/
def PrintableItems : Nat → List Json → Prop
  | _, [] => True
  | depth, item :: rest => item.Printable depth ∧ PrintableItems depth rest

/-- The same of the values of all fields of an object. -/
def PrintableFields : Nat → List (String × Json) → Prop
  | _, [] => True
  | depth, (_, value) :: rest => value.Printable depth ∧ PrintableFields depth rest

end

/-- A reader reads a document from its text. -/
def ReadBy (read : Reading.Reader) (j : Json) : Prop :=
  ∀ rest, Ends rest → read (j.chars ++ rest) = (j.reading, some rest)

/-- A text that begins with a character that is none of the blanks and closing brackets. -/
def Begins (cs : List Char) : Prop :=
  ∃ c rest, cs = c :: rest ∧ isGap c = false ∧ c ≠ ']' ∧ c ≠ '\x7d'

theorem Begins.skipGap {cs : List Char} (h : Begins cs) (rest : List Char) : skipGap (cs ++ rest) = cs ++ rest := by
  obtain ⟨c, cs, rfl, hc, -⟩ := h
  simp [Reading.skipGap, hc]

theorem Begins.head?_ne {cs : List Char} (h : Begins cs) (rest : List Char) :
    (Reading.skipGap (cs ++ rest)).head? ≠ some ']' ∧ (Reading.skipGap (cs ++ rest)).head? ≠ some '\x7d' := by
  rw [h.skipGap]
  obtain ⟨c, cs, rfl, -, hc, hc'⟩ := h
  simp [hc, hc']

theorem isGap_of_digit {c : Char} (h : c = '-' ∨ c.isDigit = true) : isGap c = false ∧ c ≠ ']' ∧ c ≠ '\x7d' := by
  rcases h with rfl | h
  · decide
  refine ⟨?_, ?_, ?_⟩
  · refine Bool.eq_false_iff.2 fun hg => ?_
    have hc : c = ' ' ∨ c = '\t' ∨ c = '\n' ∨ c = '\r' := by simpa [isGap, or_assoc] using hg
    rcases hc with rfl | rfl | rfl | rfl <;> simp at h
  · rintro rfl; simp at h
  · rintro rfl; simp at h

theorem begins_chars {depth : Nat} {j : Json} (h : j.Printable depth) : Begins j.chars := by
  cases j with
  | number n =>
    rw [Printable] at h
    obtain ⟨c, cs, hcs, hc⟩ := h.head
    exact ⟨c, cs, hcs, isGap_of_digit hc⟩
  | bool b => cases b <;> exact ⟨_, _, rfl, by decide⟩
  | array items => cases items <;> exact ⟨_, _, rfl, by decide⟩
  | object fields => cases fields <;> exact ⟨_, _, rfl, by decide⟩
  | _ => exact ⟨_, _, rfl, by decide⟩

/-! ## Containers -/

variable {read : Reading.Reader}

theorem ends_cons {c : Char} {rest : List Char} (h : c = ',' ∨ c = ']' ∨ c = '\x7d') : Ends (c :: rest) := by
  rintro d hd
  cases hd
  rcases h with rfl | rfl | rfl <;> decide

theorem ends_itemChars (items : List Json) (rest : List Char) : Ends (itemChars items ++ rest) := by
  cases items
  · exact ends_cons (.inr (.inl rfl))
  · exact ends_cons (.inl rfl)

theorem ends_fieldChars (fields : List (String × Json)) (rest : List Char) : Ends (fieldChars fields ++ rest) := by
  cases fields
  · exact ends_cons (.inr (.inr rfl))
  · exact ends_cons (.inl rfl)

theorem length_itemChars : ∀ items : List Json, items.length < (itemChars items).length
  | [] => by simp [itemChars]
  | item :: items => by
    have := length_itemChars items
    simp only [itemChars, List.length_cons, List.length_append]
    omega

theorem length_fieldChars : ∀ fields : List (String × Json), fields.length < (fieldChars fields).length
  | [] => by simp [fieldChars]
  | (name, value) :: fields => by
    have := length_fieldChars fields
    simp only [fieldChars, List.length_cons, List.length_append]
    omega

/-- The further items of an array are read. -/
theorem moreItems_itemChars : ∀ {items : List Json} {fuel : Nat} (_ : ∀ j ∈ items, ReadBy read j ∧ Begins j.chars)
    (rest : List Char), items.length < fuel →
      moreItems read fuel (itemChars items ++ rest) = (itemReadings items, some rest)
  | [], fuel + 1, _, rest, _ => rfl
  | item :: items, fuel + 1, h, rest, hf => by
    obtain ⟨⟨hread, hbegins⟩, hitems⟩ := List.forall_mem_cons.1 h
    have hitem := hread (itemChars items ++ rest) (ends_itemChars items rest)
    have hmore := moreItems_itemChars hitems rest (Nat.lt_of_succ_lt_succ hf)
    have hne := (hbegins.head?_ne (itemChars items ++ rest)).1
    have hgap : skipGap (itemChars (item :: items) ++ rest) = ',' :: (item.chars ++ (itemChars items ++ rest)) := by
      simp [itemChars, skipGap, isGap]
    simp only [moreItems, hgap, if_neg hne, hitem, hmore, itemReadings]

/-- An array is read if its items are. -/
theorem readBy_array {items : List Json} (h : ∀ j ∈ items, ReadBy read j ∧ Begins j.chars) :
    ReadBy (node (some read)) (.array items) := by
  intro rest _
  cases items with
  | nil => rfl
  | cons item items =>
    obtain ⟨⟨hread, hbegins⟩, hitems⟩ := List.forall_mem_cons.1 h
    have hitem := hread (itemChars items ++ rest) (ends_itemChars items rest)
    have hlen := length_itemChars items
    have hfuel : items.length < (item.chars ++ (itemChars items ++ rest)).length := by
      simp only [List.length_append]
      omega
    have hmore := moreItems_itemChars hitems rest hfuel
    have hne := (hbegins.head?_ne (itemChars items ++ rest)).1
    have hgap : skipGap ((Json.array (item :: items)).chars ++ rest) =
        '[' :: (item.chars ++ (itemChars items ++ rest)) := by simp [chars, skipGap, isGap]
    simp only [node, hgap, Reading.items, if_neg hne, hitem, hmore, reading, itemReadings, Option.isSome_some]

/-- The name of a field is read, and the colon after it. -/
theorem fieldName_stringChars (name : String) (rest : List Char) :
    fieldName (stringChars name ++ ':' :: rest) = some (name, some rest) := by
  have hgap : skipGap (stringChars name ++ ':' :: rest) =
      '"' :: (name.toList.flatMap escapeChar ++ '"' :: ':' :: rest) := by simp [stringChars, skipGap, isGap]
  have hcolon : skipGap (':' :: rest) = ':' :: rest := by simp [skipGap, isGap]
  simp only [fieldName, hgap, stringBody_escaped, hcolon, String.ofList_toList]

/-- A field and the further fields of an object are read. -/
theorem someFields_fieldChars : ∀ {fields : List (String × Json)} (name : String) {value : Json} {fuel : Nat}
    (_ : ReadBy read value) (_ : ∀ field ∈ fields, ReadBy read field.2) (rest : List Char), fields.length < fuel →
    someFields read fuel (stringChars name ++ ':' :: (value.chars ++ (fieldChars fields ++ rest))) =
      ((name, value.reading) :: fieldReadings fields, some rest)
  | [], name, value, fuel + 1, hv, _, rest, _ => by
    have hvalue := hv (fieldChars [] ++ rest) (ends_fieldChars [] rest)
    have hgap : skipGap (fieldChars [] ++ rest) = '\x7d' :: rest := by simp [fieldChars, skipGap, isGap]
    simp only [someFields, fieldName_stringChars, hvalue, hgap, fieldReadings]
  | (name', value') :: fields, name, value, fuel + 1, hv, h, rest, hf => by
    obtain ⟨hv', h⟩ := List.forall_mem_cons.1 h
    have hvalue := hv (fieldChars ((name', value') :: fields) ++ rest) (ends_fieldChars _ rest)
    have hmore := someFields_fieldChars name' hv' h rest (Nat.lt_of_succ_lt_succ hf)
    have hgap : skipGap (fieldChars ((name', value') :: fields) ++ rest) =
        ',' :: (stringChars name' ++ ':' :: (value'.chars ++ (fieldChars fields ++ rest))) := by
      simp [fieldChars, skipGap, isGap]
    simp only [someFields, fieldName_stringChars, hvalue, hgap, hmore, fieldReadings]

/-- An object is read if the values of its fields are. -/
theorem readBy_object {fields : List (String × Json)} (h : ∀ field ∈ fields, ReadBy read field.2) :
    ReadBy (node (some read)) (.object fields) := by
  intro rest _
  cases fields with
  | nil => rfl
  | cons field fields =>
    obtain ⟨name, value⟩ := field
    obtain ⟨hv, h⟩ := List.forall_mem_cons.1 h
    have hlen := length_fieldChars fields
    have hfuel : fields.length < (stringChars name ++ ':' :: (value.chars ++ (fieldChars fields ++ rest))).length := by
      simp only [List.length_append, List.length_cons]
      omega
    have hmore := someFields_fieldChars name hv h rest hfuel
    have hgap : skipGap ((Json.object ((name, value) :: fields)).chars ++ rest) =
        '\x7b' :: (stringChars name ++ ':' :: (value.chars ++ (fieldChars fields ++ rest))) := by
      simp [chars, skipGap, isGap]
    have hne : (skipGap (stringChars name ++ ':' :: (value.chars ++ (fieldChars fields ++ rest)))).head? ≠
        some '\x7d' := by simp [stringChars, skipGap, isGap]
    simp only [node, hgap, Reading.fields, if_neg hne, hmore, reading, fieldReadings, Option.isSome_some]

/-! ## Documents -/

theorem readBy_scalar {depth : Nat} {j : Json}
    (h : ∀ rest, Ends rest → scalar (j.chars ++ rest) = (j.reading, some rest))
    (hj : ∃ c cs, j.chars = c :: cs ∧ isGap c = false ∧ c ≠ '[' ∧ c ≠ '\x7b') : ReadBy (value depth) j := by
  intro rest hrest
  obtain ⟨c, cs, hcs, hgap, hc, hc'⟩ := hj
  have hskip : skipGap (j.chars ++ rest) = j.chars ++ rest := by simp [hcs, skipGap, hgap]
  have hnode : ∀ inner, node inner (j.chars ++ rest) = scalar (j.chars ++ rest) := by
    intro inner
    rw [node, hskip, hcs, List.cons_append]
    split
    · rename_i heq; cases heq; exact absurd rfl hc
    · rename_i heq; cases heq; exact absurd rfl hc'
    · rfl
  cases depth <;> rw [value, hnode, h rest hrest]

theorem readBy_number {depth : Nat} {n : JsonNumber} (h : ReadsBack n) : ReadBy (value depth) (.number n) := by
  obtain ⟨c, cs, hcs, hc⟩ := h.head
  have hne : ∀ d, d ≠ '-' → d.isDigit = false → c ≠ d := by
    rintro d hd hd' rfl
    exact hc.elim hd fun h => by simp [h] at hd'
  refine readBy_scalar (fun rest hrest => ?_)
    ⟨c, cs, hcs, (isGap_of_digit hc).1, hne _ (by decide) (by decide), hne _ (by decide) (by decide)⟩
  have htoken := h.token rest hrest
  have hchars : (Json.number n).chars ++ rest = c :: (cs ++ rest) := by rw [chars, hcs]; rfl
  rw [hcs, List.cons_append] at htoken
  rw [hchars, scalar]
  · simp only [htoken, reading]
  · exact fun _ heq => hne 'n' (by decide) (by decide) (List.cons.inj heq).1
  · exact fun _ heq => hne 't' (by decide) (by decide) (List.cons.inj heq).1
  · exact fun _ heq => hne 'f' (by decide) (by decide) (List.cons.inj heq).1
  · exact fun _ heq => hne '"' (by decide) (by decide) (List.cons.inj heq).1

mutual

/-- **A printable document is read from its text.** -/
theorem Printable.reads : ∀ {depth : Nat} {j : Json}, j.Printable depth → ReadBy (value depth) j
  | _, .null, _ => readBy_scalar (fun _ _ => rfl) ⟨_, _, rfl, by decide⟩
  | _, .bool true, _ => readBy_scalar (fun _ _ => rfl) ⟨_, _, rfl, by decide⟩
  | _, .bool false, _ => readBy_scalar (fun _ _ => rfl) ⟨_, _, rfl, by decide⟩
  | _, .string s, _ => by
    refine readBy_scalar (fun rest _ => ?_) ⟨_, _, rfl, by decide⟩
    have hs : (Json.string s).chars ++ rest = '"' :: (s.toList.flatMap escapeChar ++ '"' :: rest) := by
      simp [chars, stringChars]
    simp only [hs, scalar, stringBody_escaped, String.ofList_toList, reading]
  | _, .number n, h => readBy_number (by simpa only [Printable] using h)
  | depth + 1, .array items, h => by
    rw [Printable] at h
    exact readBy_array (PrintableItems.reads h)
  | depth + 1, .object fields, h => by
    rw [Printable] at h
    exact readBy_object (PrintableFields.reads h)
  | 0, .array _, h | 0, .object _, h => by
    rw [Printable] at h
    exact h.elim

theorem PrintableItems.reads : ∀ {depth : Nat} {items : List Json}, PrintableItems depth items →
    ∀ j ∈ items, ReadBy (value depth) j ∧ Begins j.chars
  | _, [], _ => nofun
  | depth, item :: items, h => by
    rw [PrintableItems] at h
    exact List.forall_mem_cons.2 ⟨⟨Printable.reads h.1, begins_chars h.1⟩, PrintableItems.reads h.2⟩

theorem PrintableFields.reads : ∀ {depth : Nat} {fields : List (String × Json)}, PrintableFields depth fields →
    ∀ field ∈ fields, ReadBy (value depth) field.2
  | _, [], _ => nofun
  | depth, (name, value) :: fields, h => by
    rw [PrintableFields] at h
    exact List.forall_mem_cons.2 ⟨Printable.reads h.1, PrintableFields.reads h.2⟩

end

mutual

/-- What is read of a document in order is the document. -/
theorem toJson?_reading : ∀ {j : Json}, j.Ordered → j.reading.toJson? = some j
  | .null, _ | .bool _, _ | .number _, _ | .string _, _ => rfl
  | .array items, h => by
    rw [Ordered] at h
    simp [reading, toJson?, toItems?_readings h]
  | .object fields, h => by
    rw [Ordered] at h
    simp [reading, toJson?, toFields?_readings h.2, h.1.ofList_eq]

theorem toItems?_readings : ∀ {items : List Json}, OrderedItems items → toItems? (itemReadings items) = some items
  | [], _ => rfl
  | item :: items, h => by
    rw [OrderedItems] at h
    simp [itemReadings, toItems?, toJson?_reading h.1, toItems?_readings h.2]

theorem toFields?_readings : ∀ {fields : List (String × Json)}, OrderedFields fields →
    toFields? (fieldReadings fields) = some fields
  | [], _ => rfl
  | (name, value) :: fields, h => by
    rw [OrderedFields] at h
    simp [fieldReadings, toFields?, toJson?_reading h.1, toFields?_readings h.2]

end

/-- All of the text of a printable document is read. -/
theorem Printable.ofText {j : Json} (h : j.Printable maxDepth) : Reading.ofText j.text = (j.reading, true) := by
  have hread := Printable.reads h [] nofun
  rw [List.append_nil] at hread
  simp [Reading.ofText, text, String.toList_ofList, hread, skipGap]

/-- The text of some fields in any order is that of the document of these fields. -/
theorem Printable.parse_fields {fields : List (String × Json)} (h : (Json.object fields).Printable maxDepth)
    (ho : OrderedFields fields) : parse? (Json.object fields).text = some (.object (Fields.ofList fields)) := by
  rw [parse?, h.ofText, if_pos rfl]
  simp [reading, toJson?, toFields?_readings ho]

end Json

end RecordStore
