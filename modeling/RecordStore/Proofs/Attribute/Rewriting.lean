import RecordStore.Proofs.Attribute.Document

/-!
# Attributes that documents rewrite

Documents have fewer types than a store, so an attribute that is read as a document and stored again may be another one
then. `Attribute.Rewritten` says which, for each of the ten types and at any depth: sets become lists, bytes become
texts in base64, a null marker is set, and a numeral may be spelled in another way or become a text, unless it is
spelled as documents spell numbers (`Attribute.IsPrinted`).

* **`Attribute.rewritten`**: this is what becomes of every attribute;
* **`Attribute.ofJson_toJson`**: attributes without sets, bytes, null markers that are not set and numerals in other
  spellings (`Attribute.Plain`) stay what they are.
-/

namespace RecordStore

namespace Attribute

/-- A numeral is spelled as documents spell a number. -/
def IsPrinted (numeral : String) : Prop :=
  ∃ n : JsonNumber, (Json.number n).Ordered ∧ numeral = String.ofList n.chars

/-- What becomes of a numeral: a number again, or its text. It stays what it is if documents spell it so. -/
inductive NumeralRewritten (numeral : String) : Attribute → Prop
  | number (other : String) : (IsPrinted numeral → other = numeral) → NumeralRewritten numeral (.number other)
  | text : ¬ IsPrinted numeral → NumeralRewritten numeral (.text numeral)

/-- What becomes of an attribute that is read as a document and stored again. -/
inductive Rewritten : Attribute → Attribute → Prop
  | text (s : String) : Rewritten (.text s) (.text s)
  | number {numeral : String} {a : Attribute} : NumeralRewritten numeral a → Rewritten (.number numeral) a
  | binary (bytes : List UInt8) : Rewritten (.binary bytes) (.text (Base64.encode bytes))
  | texts (ss : List String) : Rewritten (.texts ss) (.list (ss.map .text))
  | numbers {numerals : List String} {items : List Attribute} : List.Forall₂ NumeralRewritten numerals items →
      Rewritten (.numbers numerals) (.list items)
  | binaries (bss : List (List UInt8)) :
      Rewritten (.binaries bss) (.list (bss.map fun bytes => .text (Base64.encode bytes)))
  | flag (b : Bool) : Rewritten (.flag b) (.flag b)
  | null (b : Bool) : Rewritten (.null b) (.null true)
  | list {items items' : List Attribute} : List.Forall₂ Rewritten items items' → Rewritten (.list items) (.list items')
  | map {fields fields' : List (String × Attribute)} : fields.map (·.1) = fields'.map (·.1) →
      List.Forall₂ Rewritten (fields.map (·.2)) (fields'.map (·.2)) → Rewritten (.map fields) (.map fields')

theorem ofJsonItems_map {α : Type} (f : α → Json) : ∀ xs : List α, ofJsonItems (xs.map f) = xs.map fun x => ofJson (f x)
  | [] => rfl
  | x :: xs => by rw [List.map_cons, ofJsonItems, ofJsonItems_map f xs, List.map_cons]

/-- A numeral that documents spell so comes back from its document. -/
theorem ofJson_numeralToJson {numeral : String} (h : IsPrinted numeral) :
    ofJson (numeralToJson numeral) = .number numeral := by
  obtain ⟨n, hn, rfl⟩ := h
  rw [numeralToJson_chars hn, ofJson]

theorem numeral_rewritten (numeral : String) : NumeralRewritten numeral (ofJson (numeralToJson numeral)) := by
  by_cases h : IsPrinted numeral
  · rw [ofJson_numeralToJson h]
    exact .number numeral fun _ => rfl
  · have hcases : (∃ n, numeralToJson numeral = .number n) ∨ numeralToJson numeral = .string numeral := by
      unfold numeralToJson
      split
      · exact .inl ⟨_, rfl⟩
      · split
        · split
          · exact .inl ⟨_, rfl⟩
          · exact .inr rfl
        · exact .inr rfl
    obtain ⟨n, hn⟩ | hs := hcases
    · rw [hn, ofJson]
      exact .number _ fun hprinted => absurd hprinted h
    · rw [hs, ofJson]
      exact .text h

theorem names_rewritten (fields : List (String × Attribute)) :
    fields.map (·.1) = (ofJsonFields (toJsonFields fields)).map (·.1) := by
  induction fields with
  | nil => rfl
  | cons field rest ih => exact congrArg (field.1 :: ·) ih

mutual

/-- **Every attribute** becomes what `Rewritten` says. -/
theorem rewritten : ∀ a : Attribute, Rewritten a (ofJson (toJson a))
  | .text s => .text s
  | .number numeral => .number (numeral_rewritten numeral)
  | .binary bytes => .binary bytes
  | .texts ss => by
    rw [toJson, ofJson, ofJsonItems_map]
    exact .texts ss
  | .numbers numerals => by
    rw [toJson, ofJson, ofJsonItems_map]
    refine .numbers (List.forall₂_map_right_iff.2 ?_)
    exact List.forall₂_same.2 fun numeral _ => numeral_rewritten numeral
  | .binaries bss => by
    rw [toJson, ofJson, ofJsonItems_map]
    exact .binaries bss
  | .flag b => .flag b
  | .null b => .null b
  | .list items => by
    rw [toJson, ofJson]
    exact .list (rewrittenItems items)
  | .map fields => by
    rw [toJson, ofJson]
    exact .map (names_rewritten fields) (rewrittenFields fields)

theorem rewrittenItems : ∀ items : List Attribute, List.Forall₂ Rewritten items (ofJsonItems (toJsonItems items))
  | [] => .nil
  | a :: rest => .cons (rewritten a) (rewrittenItems rest)

theorem rewrittenFields (fields : List (String × Attribute)) :
    List.Forall₂ Rewritten (fields.map (·.2)) ((ofJsonFields (toJsonFields fields)).map (·.2)) := by
  cases fields with
  | nil => exact .nil
  | cons field rest =>
    obtain ⟨name, a⟩ := field
    exact .cons (rewritten a) (rewrittenFields rest)

end

/-! ## Attributes that stay what they are -/

mutual

/-- An attribute of the types that documents have, with its numbers spelled as they spell them. -/
def Plain : Attribute → Prop
  | .text _ | .flag _ => True
  | .number numeral => IsPrinted numeral
  | .null b => b = true
  | .list items => PlainItems items
  | .map fields => PlainFields fields
  | .binary _ | .texts _ | .numbers _ | .binaries _ => False

/-- The items of a list are plain. -/
def PlainItems : List Attribute → Prop
  | [] => True
  | a :: rest => Plain a ∧ PlainItems rest

/-- The fields of a map are plain. -/
def PlainFields : List (String × Attribute) → Prop
  | [] => True
  | (_, a) :: rest => Plain a ∧ PlainFields rest

end

mutual

/-- **A plain attribute** comes back from its document. -/
theorem ofJson_toJson : ∀ {a : Attribute}, a.Plain → ofJson (toJson a) = a
  | .text _, _ | .flag _, _ => rfl
  | .number _, h => ofJson_numeralToJson h
  | .null _, h => by
    rw [Plain] at h
    rw [h]
    rfl
  | .list items, h => by
    rw [Plain] at h
    rw [toJson, ofJson, ofJsonItems_toJsonItems h]
  | .map fields, h => by
    rw [Plain] at h
    rw [toJson, ofJson, ofJsonFields_toJsonFields h]

theorem ofJsonItems_toJsonItems : ∀ {items : List Attribute}, PlainItems items →
    ofJsonItems (toJsonItems items) = items
  | [], _ => rfl
  | a :: rest, h => by
    rw [PlainItems] at h
    rw [toJsonItems, ofJsonItems, ofJson_toJson h.1, ofJsonItems_toJsonItems h.2]

theorem ofJsonFields_toJsonFields : ∀ {fields : List (String × Attribute)}, PlainFields fields →
    ofJsonFields (toJsonFields fields) = fields
  | [], _ => rfl
  | (_, a) :: rest, h => by
    rw [PlainFields] at h
    rw [toJsonFields, ofJsonFields, ofJson_toJson h.1, ofJsonFields_toJsonFields h.2]

end

end Attribute

end RecordStore
