import Mathlib.Data.List.Forall2
import RecordStore.Attribute.Wire
import RecordStore.Proofs.Bytes.Base64
import RecordStore.Proofs.Fields
import RecordStore.Proofs.Store.Calls

/-!
# Attributes on the wire both ways

A document is read as an attribute just if it is what the attribute is sent as: **`Attribute.ofWire_eq_ok_iff`**. So an
attribute that was sent is read (`ofReading_toWire`), and a document that is read is the only one of its attribute
(`toWire_of_ofReading`). `Json.Malformed` says what is wrong with the documents that are refused, at whatever depth
(`isOk_or_malformed`, `Json.Malformed.not_ok`).

Objects are maps, so a document has its fields in ascending order (`Json.Ordered`), and so has an attribute
(`Attribute.Ordered`).
-/

namespace RecordStore

open AttributeType (ofTag?)

/-! ## Tags -/

namespace AttributeType

@[simp] theorem ofTag?_tag (t : AttributeType) : ofTag? t.tag = some t := by
  cases t <;> rfl

theorem tag_injective {t u : AttributeType} (h : t.tag = u.tag) : t = u :=
  Option.some.inj (by rw [← ofTag?_tag t, h, ofTag?_tag])

theorem tag_eq_of_ofTag? {tag : String} {t : AttributeType} (h : ofTag? tag = some t) : t.tag = tag := by
  simpa using List.find?_some h

end AttributeType

namespace Attribute

/-! ## Normal form -/

mutual

/-- Every map in an attribute has its fields in ascending order. -/
def Ordered : Attribute → Prop
  | .list items => OrderedItems items
  | .map fields => Fields.Ordered fields ∧ OrderedFields fields
  | .text _ | .number _ | .binary _ | .texts _ | .numbers _ | .binaries _ | .flag _ | .null _ => True

/-- Every attribute of a list is in normal form. -/
def OrderedItems : List Attribute → Prop
  | [] => True
  | a :: rest => a.Ordered ∧ OrderedItems rest

/-- Every attribute of a map is in normal form. -/
def OrderedFields : List (String × Attribute) → Prop
  | [] => True
  | (_, a) :: rest => a.Ordered ∧ OrderedFields rest

end

/-! ## Parts of a document -/

variable {j v : Json} {a : Attribute}

theorem stringOf_ok {s : String} : stringOf j.reading = .ok s ↔ j = .string s := by
  cases j <;> simp [Json.reading, stringOf]

theorem boolOf_ok {b : Bool} : boolOf j.reading = .ok b ↔ j = .bool b := by
  cases j <;> simp [Json.reading, boolOf]

theorem itemReadings_eq_map : ∀ items : List Json, Json.itemReadings items = items.map Json.reading
  | [] => rfl
  | item :: items => by rw [Json.itemReadings, itemReadings_eq_map items, List.map_cons]

theorem mapM_stringOf_ok {items : List Json} {ss : List String} :
    (Json.itemReadings items).mapM stringOf = .ok ss ↔ items = ss.map .string := by
  rw [itemReadings_eq_map, List.mapM_map]
  exact mapM_eq_ok_iff_map fun _ _ => stringOf_ok

theorem stringsOf_ok {ss : List String} : stringsOf j.reading = .ok ss ↔ j = .array (ss.map .string) := by
  cases j with
  | array items =>
    rw [Json.reading, stringsOf, bind_eq_ok, Json.array.injEq, ← mapM_stringOf_ok]
    constructor
    · rintro ⟨ss', hss, h⟩
      cases h
      exact hss
    · intro h
      exact ⟨ss, h, rfl⟩
  | _ => simp [Json.reading, stringsOf]

theorem bytesOf_ok {s : String} {bytes : List UInt8} : bytesOf s = .ok bytes ↔ s = Base64.encode bytes := by
  rw [← Base64.decode?_eq_some_iff, bytesOf]
  cases Base64.decode? s <;> simp

theorem mapM_bytesOf_ok {ss : List String} {bss : List (List UInt8)} :
    ss.mapM bytesOf = .ok bss ↔ ss = bss.map Base64.encode :=
  mapM_eq_ok_iff_map fun _ _ => bytesOf_ok

/-- What is read as an attribute has one field, which is named by a tag. -/
theorem ofReading_ok : ofReading j.reading = .ok a ↔
    ∃ t v, j = .object [(AttributeType.tag t, v)] ∧ ofPayload (some t) t.tag v.reading = .ok a := by
  constructor
  · intro h
    cases j with
    | object fields =>
      cases fields with
      | nil => cases h
      | cons field more =>
        obtain ⟨tag, v⟩ := field
        rw [Json.reading, Json.fieldReadings, ofReading] at h
        obtain ⟨b, hb, h⟩ := bind_eq_ok.1 h
        cases more with
        | nil =>
          cases h
          cases ht : ofTag? tag with
          | none =>
            rw [ht, ofPayload] at hb
            cases hb
          | some t =>
            obtain rfl := AttributeType.tag_eq_of_ofTag? ht
            rw [ht] at hb
            exact ⟨t, v, rfl, hb⟩
        | cons field more =>
          obtain ⟨tag', v'⟩ := field
          cases h
    | _ => cases h
  · rintro ⟨t, v, rfl, h⟩
    rw [Json.reading, Json.fieldReadings, Json.fieldReadings, ofReading, AttributeType.ofTag?_tag, h]
    rfl

/-- What is read of the value under a tag is read as the type of this tag. -/
theorem ofReading_tag {t : AttributeType} :
    ofReading (Json.object [(t.tag, v)]).reading = .ok a ↔ ofPayload (some t) t.tag v.reading = .ok a := by
  rw [ofReading_ok]
  constructor
  · rintro ⟨t', v', heq, h⟩
    obtain ⟨htag, rfl⟩ := Prod.mk.inj (List.cons.inj (Json.object.inj heq)).1
    obtain rfl := AttributeType.tag_injective htag
    exact h
  · exact fun h => ⟨t, v, rfl, h⟩

/-! ## What was sent is read -/

mutual

/-- **What an attribute is sent as** is read as this attribute. -/
theorem ofReading_toWire : ∀ {a : Attribute}, a.Ordered → ofReading a.toWire.reading = .ok a
  | .text s, _ => ofReading_ok.2 ⟨.text, .string s, rfl, rfl⟩
  | .number n, _ => ofReading_ok.2 ⟨.number, .string n, rfl, rfl⟩
  | .binary bytes, _ => by
    refine ofReading_ok.2 ⟨.binary, .string (Base64.encode bytes), rfl, ?_⟩
    rw [ofPayload]
    exact bind_eq_ok.2 ⟨_, stringOf_ok.2 rfl, bind_eq_ok.2 ⟨bytes, bytesOf_ok.2 rfl, rfl⟩⟩
  | .texts ss, _ => by
    refine ofReading_ok.2 ⟨.texts, .array (ss.map .string), rfl, ?_⟩
    rw [ofPayload, stringsOf_ok.2 rfl]
    rfl
  | .numbers ns, _ => by
    refine ofReading_ok.2 ⟨.numbers, .array (ns.map .string), rfl, ?_⟩
    rw [ofPayload, stringsOf_ok.2 rfl]
    rfl
  | .binaries bss, _ => by
    refine ofReading_ok.2 ⟨.binaries, .array (bss.map fun bytes => .string (Base64.encode bytes)), rfl, ?_⟩
    have hstrings : (bss.map fun bytes => Json.string (Base64.encode bytes)) = (bss.map Base64.encode).map .string := by
      rw [List.map_map]
      rfl
    rw [ofPayload]
    refine bind_eq_ok.2 ⟨_, stringsOf_ok.2 (congrArg Json.array hstrings), ?_⟩
    exact bind_eq_ok.2 ⟨bss, mapM_bytesOf_ok.2 rfl, rfl⟩
  | .flag b, _ => ofReading_ok.2 ⟨.flag, .bool b, rfl, rfl⟩
  | .null b, _ => ofReading_ok.2 ⟨.null, .bool b, rfl, rfl⟩
  | .list items, h => by
    rw [Ordered] at h
    refine ofReading_ok.2 ⟨.list, .array (itemsToWire items), rfl, ?_⟩
    rw [Json.reading, ofPayload, ofItems_toWire h]
    rfl
  | .map fields, h => by
    rw [Ordered] at h
    refine ofReading_ok.2 ⟨.map, .object (fieldsToWire fields), rfl, ?_⟩
    rw [Json.reading, ofPayload, ofFields_toWire h.2]
    exact congrArg (fun m => Except.ok (Attribute.map m)) h.1.ofList_eq

theorem ofItems_toWire : ∀ {items : List Attribute}, OrderedItems items →
    ofItems (Json.itemReadings (itemsToWire items)) true = .ok items
  | [], _ => rfl
  | a :: rest, h => by
    rw [OrderedItems] at h
    have ha : ofReading (Json.reading (.object [(a.type.tag, a.payload)])) = .ok a := ofReading_toWire h.1
    rw [itemsToWire, Json.itemReadings, ofItems, ha, ofItems_toWire h.2]
    rfl

theorem ofFields_toWire : ∀ {fields : List (String × Attribute)}, OrderedFields fields →
    ofFields (Json.fieldReadings (fieldsToWire fields)) true = .ok fields
  | [], _ => rfl
  | (name, a) :: rest, h => by
    rw [OrderedFields] at h
    have ha : ofReading (Json.reading (.object [(a.type.tag, a.payload)])) = .ok a := ofReading_toWire h.1
    rw [fieldsToWire, Json.fieldReadings, ofFields, ha, ofFields_toWire h.2]
    rfl

end

/-! ## What is read was sent -/

/-- The value under a tag whose type is neither a list nor a map. -/
theorem payload_of_leaf {t : AttributeType} {tag : String} (hlist : t ≠ .list) (hmap : t ≠ .map)
    (h : ofPayload (some t) tag v.reading = .ok a) : a.type = t ∧ a.Ordered ∧ a.payload = v := by
  cases t with
  | text =>
    rw [ofPayload, map_eq_ok] at h
    obtain ⟨s, hs, rfl⟩ := h
    exact ⟨rfl, trivial, (stringOf_ok.1 hs).symm⟩
  | number =>
    rw [ofPayload, map_eq_ok] at h
    obtain ⟨s, hs, rfl⟩ := h
    exact ⟨rfl, trivial, (stringOf_ok.1 hs).symm⟩
  | binary =>
    rw [ofPayload] at h
    obtain ⟨s, hs, h⟩ := bind_eq_ok.1 h
    obtain ⟨bytes, hbytes, h⟩ := bind_eq_ok.1 h
    cases h
    rw [stringOf_ok.1 hs, bytesOf_ok.1 hbytes]
    exact ⟨rfl, trivial, rfl⟩
  | texts =>
    rw [ofPayload, map_eq_ok] at h
    obtain ⟨ss, hss, rfl⟩ := h
    exact ⟨rfl, trivial, (stringsOf_ok.1 hss).symm⟩
  | numbers =>
    rw [ofPayload, map_eq_ok] at h
    obtain ⟨ss, hss, rfl⟩ := h
    exact ⟨rfl, trivial, (stringsOf_ok.1 hss).symm⟩
  | binaries =>
    rw [ofPayload] at h
    obtain ⟨ss, hss, h⟩ := bind_eq_ok.1 h
    obtain ⟨bss, hbss, h⟩ := bind_eq_ok.1 h
    cases h
    rw [stringsOf_ok.1 hss, mapM_bytesOf_ok.1 hbss, List.map_map]
    exact ⟨rfl, trivial, rfl⟩
  | flag =>
    rw [ofPayload, map_eq_ok] at h
    obtain ⟨b, hb, rfl⟩ := h
    exact ⟨rfl, trivial, (boolOf_ok.1 hb).symm⟩
  | null =>
    rw [ofPayload, map_eq_ok] at h
    obtain ⟨b, hb, rfl⟩ := h
    exact ⟨rfl, trivial, (boolOf_ok.1 hb).symm⟩
  | list => exact absurd rfl hlist
  | map => exact absurd rfl hmap

mutual

/-- **What is read as an attribute** is what this attribute is sent as. -/
theorem toWire_of_ofReading : ∀ {j : Json} {a : Attribute}, j.Ordered → ofReading j.reading = .ok a →
    a.Ordered ∧ a.toWire = j
  | .object [(tag, v)], a, ho, h => by
    obtain ⟨t, v', heq, hv⟩ := ofReading_ok.1 h
    cases heq
    rw [Json.Ordered, Json.OrderedFields] at ho
    obtain ⟨rfl, ha, hpayload⟩ := payload_of_ofPayload ho.2.1 hv
    exact ⟨ha, by rw [toWire, hpayload]⟩
  | .object [], _, _, h => by cases h
  | .object (_ :: _ :: _), _, _, h => by
    obtain ⟨t, v, heq, -⟩ := ofReading_ok.1 h
    cases heq
  | .null, _, _, h | .bool _, _, _, h | .number _, _, _, h | .string _, _, _, h | .array _, _, _, h => by cases h

theorem payload_of_ofPayload : ∀ {v : Json} {t : AttributeType} {tag : String} {a : Attribute}, v.Ordered →
    ofPayload (some t) tag v.reading = .ok a → a.type = t ∧ a.Ordered ∧ a.payload = v
  | .array items, .list, _, _, ho, h => by
    rw [Json.reading, ofPayload, map_eq_ok] at h
    obtain ⟨as, has, rfl⟩ := h
    rw [Json.Ordered] at ho
    obtain ⟨hordered, hsent⟩ := items_of_ofItems ho has
    exact ⟨rfl, hordered, by rw [payload, hsent]⟩
  | .object fields, .map, _, _, ho, h => by
    rw [Json.reading, ofPayload, map_eq_ok] at h
    obtain ⟨fs, hfs, rfl⟩ := h
    rw [Json.Ordered] at ho
    obtain ⟨hnames, hordered, hsent⟩ := fields_of_ofFields ho.2 hfs
    -- the names are those of the object, so they are in order already
    have hfields : Fields.Ordered fs := List.pairwise_map.1 (hnames ▸ List.pairwise_map.2 ho.1)
    rw [hfields.ofList_eq]
    exact ⟨rfl, ⟨hfields, hordered⟩, by rw [payload, hsent]⟩
  | _, .text, _, _, _, h | _, .number, _, _, _, h | _, .binary, _, _, _, h | _, .texts, _, _, _, h
  | _, .numbers, _, _, _, h | _, .binaries, _, _, _, h | _, .flag, _, _, _, h | _, .null, _, _, _, h =>
    payload_of_leaf nofun nofun h
  | .null, .list, _, _, _, h | .bool _, .list, _, _, _, h | .number _, .list, _, _, _, h
  | .string _, .list, _, _, _, h | .object _, .list, _, _, _, h => by cases h
  | .null, .map, _, _, _, h | .bool _, .map, _, _, _, h | .number _, .map, _, _, _, h
  | .string _, .map, _, _, _, h | .array _, .map, _, _, _, h => by cases h

theorem items_of_ofItems : ∀ {items : List Json} {as : List Attribute}, Json.OrderedItems items →
    ofItems (Json.itemReadings items) true = .ok as → OrderedItems as ∧ itemsToWire as = items
  | [], _, _, h => by
    cases h
    exact ⟨trivial, rfl⟩
  | j :: rest, _, ho, h => by
    rw [Json.OrderedItems] at ho
    rw [Json.itemReadings, ofItems, bind_eq_ok] at h
    obtain ⟨a, ha, h⟩ := h
    obtain ⟨as, has, h⟩ := bind_eq_ok.1 h
    cases h
    obtain ⟨hordered, hsent⟩ := toWire_of_ofReading ho.1 ha
    obtain ⟨hrest, hrestSent⟩ := items_of_ofItems ho.2 has
    exact ⟨⟨hordered, hrest⟩, by rw [itemsToWire, hrestSent, ← hsent, toWire]⟩

theorem fields_of_ofFields : ∀ {fields : List (String × Json)} {fs : List (String × Attribute)},
    Json.OrderedFields fields → ofFields (Json.fieldReadings fields) true = .ok fs →
    fs.map (·.1) = fields.map (·.1) ∧ OrderedFields fs ∧ fieldsToWire fs = fields
  | [], _, _, h => by
    cases h
    exact ⟨rfl, trivial, rfl⟩
  | (name, j) :: rest, _, ho, h => by
    rw [Json.OrderedFields] at ho
    rw [Json.fieldReadings, ofFields, bind_eq_ok] at h
    obtain ⟨a, ha, h⟩ := h
    obtain ⟨fs, hfs, h⟩ := bind_eq_ok.1 h
    cases h
    obtain ⟨hordered, hsent⟩ := toWire_of_ofReading ho.1 ha
    obtain ⟨hnames, hrest, hrestSent⟩ := fields_of_ofFields ho.2 hfs
    refine ⟨by rw [List.map_cons, List.map_cons, hnames], ⟨hordered, hrest⟩, ?_⟩
    rw [fieldsToWire, hrestSent, ← hsent, toWire]

end

/-! ## Documents in normal form -/

theorem orderedItems_strings : ∀ ss : List String, Json.OrderedItems (ss.map .string)
  | [] => trivial
  | _ :: ss => ⟨trivial, orderedItems_strings ss⟩

theorem orderedItems_binaries : ∀ bss : List (List UInt8),
    Json.OrderedItems (bss.map fun bytes => .string (Base64.encode bytes))
  | [] => trivial
  | _ :: bss => ⟨trivial, orderedItems_binaries bss⟩

theorem ordered_sent {tag : String} (h : v.Ordered) : (Json.object [(tag, v)]).Ordered := by
  rw [Json.Ordered, Json.OrderedFields, Json.OrderedFields]
  exact ⟨Fields.ordered_singleton _, h, trivial⟩

theorem names_fieldsToWire : ∀ fields : List (String × Attribute),
    (fieldsToWire fields).map (·.1) = fields.map (·.1)
  | [] => rfl
  | (name, a) :: rest => by
    rw [fieldsToWire, List.map_cons, List.map_cons, names_fieldsToWire rest]

mutual

theorem ordered_payload : ∀ {a : Attribute}, a.Ordered → a.payload.Ordered
  | .text _, _ | .number _, _ | .binary _, _ | .flag _, _ | .null _, _ => trivial
  | .texts ss, _ | .numbers ss, _ => orderedItems_strings ss
  | .binaries bss, _ => orderedItems_binaries bss
  | .list items, h => by
    rw [Ordered] at h
    rw [payload, Json.Ordered]
    exact orderedItems_toWire h
  | .map fields, h => by
    rw [Ordered] at h
    rw [payload, Json.Ordered]
    have hnames : ((fieldsToWire fields).map (·.1)).Pairwise (· < ·) :=
      names_fieldsToWire fields ▸ List.pairwise_map.2 h.1
    exact ⟨List.pairwise_map.1 hnames, orderedFields_toWire h.2⟩

theorem orderedItems_toWire : ∀ {items : List Attribute}, OrderedItems items → Json.OrderedItems (itemsToWire items)
  | [], _ => trivial
  | a :: rest, h => by
    rw [OrderedItems] at h
    rw [itemsToWire, Json.OrderedItems]
    exact ⟨ordered_sent (ordered_payload h.1), orderedItems_toWire h.2⟩

theorem orderedFields_toWire : ∀ {fields : List (String × Attribute)}, OrderedFields fields →
    Json.OrderedFields (fieldsToWire fields)
  | [], _ => trivial
  | (name, a) :: rest, h => by
    rw [OrderedFields] at h
    rw [fieldsToWire, Json.OrderedFields]
    exact ⟨ordered_sent (ordered_payload h.1), orderedFields_toWire h.2⟩

end

/-- What an attribute is sent as has its fields in ascending order. -/
theorem Ordered.toWire (h : a.Ordered) : a.toWire.Ordered :=
  ordered_sent (ordered_payload h)

end Attribute

/-! ## What is refused -/

/-- The shape of the values under the tag of a type; what is in a list or in a map is left open. -/
def AttributeType.Takes : AttributeType → Json → Prop
  | .text, v | .number, v => ∃ s, v = .string s
  | .binary, v => ∃ bytes, v = .string (Base64.encode bytes)
  | .texts, v | .numbers, v => ∃ ss : List String, v = .array (ss.map .string)
  | .binaries, v => ∃ bss : List (List UInt8), v = .array (bss.map fun bytes => .string (Base64.encode bytes))
  | .flag, v | .null, v => ∃ b, v = .bool b
  | .list, v => ∃ items, v = .array items
  | .map, v => ∃ fields, v = .object fields

/-- What can be wrong with a document that should be an attribute, at whatever depth. -/
inductive Json.Malformed : Json → Prop where
  | notObject {j : Json} (h : j.kind ≠ .object) : Malformed j
  | noTag : Malformed (.object [])
  | unknownTag {tag : String} {v : Json} {fields : List (String × Json)} (hmem : (tag, v) ∈ fields)
      (h : ofTag? tag = none) : Malformed (.object fields)
  | secondTag (first second : String × Json) (more : List (String × Json)) :
      Malformed (.object (first :: second :: more))
  /-- The value under the tag has the wrong shape, or is no text that bytes are encoded as. -/
  | payload {t : AttributeType} {v : Json} (h : ¬ t.Takes v) : Malformed (.object [(t.tag, v)])
  | item {j : Json} {items : List Json} (hmem : j ∈ items) (h : Malformed j) :
      Malformed (.object [(AttributeType.list.tag, .array items)])
  | field {name : String} {j : Json} {fields : List (String × Json)} (hmem : (name, j) ∈ fields) (h : Malformed j) :
      Malformed (.object [(AttributeType.map.tag, .object fields)])

namespace Attribute

variable {j v : Json} {a : Attribute} {t : AttributeType}

/-- The values under a tag are those of the attributes of its type, unless it is one of a list or of a map. -/
theorem takes_iff (hlist : t ≠ .list) (hmap : t ≠ .map) : t.Takes v ↔ ∃ a : Attribute, a.type = t ∧ a.payload = v := by
  constructor
  · intro h
    cases t with
    | text => exact h.elim fun s hs => ⟨.text s, rfl, hs.symm⟩
    | number => exact h.elim fun s hs => ⟨.number s, rfl, hs.symm⟩
    | binary => exact h.elim fun bytes hbytes => ⟨.binary bytes, rfl, hbytes.symm⟩
    | texts => exact h.elim fun ss hss => ⟨.texts ss, rfl, hss.symm⟩
    | numbers => exact h.elim fun ss hss => ⟨.numbers ss, rfl, hss.symm⟩
    | binaries => exact h.elim fun bss hbss => ⟨.binaries bss, rfl, hbss.symm⟩
    | flag => exact h.elim fun b hb => ⟨.flag b, rfl, hb.symm⟩
    | null => exact h.elim fun b hb => ⟨.null b, rfl, hb.symm⟩
    | list => exact absurd rfl hlist
    | map => exact absurd rfl hmap
  · rintro ⟨a, rfl, rfl⟩
    cases a with
    | list _ => exact absurd rfl hlist
    | map _ => exact absurd rfl hmap
    | _ => exact ⟨_, rfl⟩

theorem ordered_of_leaf (hlist : a.type ≠ .list) (hmap : a.type ≠ .map) : a.Ordered := by
  cases a with
  | list _ => exact absurd rfl hlist
  | map _ => exact absurd rfl hmap
  | _ => trivial

/-- A value that a tag takes is read, unless the tag is one of a list or of a map. -/
theorem ofReading_leaf (hlist : t ≠ .list) (hmap : t ≠ .map) (h : t.Takes v) :
    ∃ a, ofReading (Json.reading (.object [(t.tag, v)])) = .ok a := by
  obtain ⟨a, rfl, rfl⟩ := (takes_iff hlist hmap).1 h
  exact ⟨a, ofReading_toWire (ordered_of_leaf hlist hmap)⟩

/-- A value that is read under a tag is one that this tag takes. -/
theorem takes_of_ofPayload {tag : String} (h : ofPayload (some t) tag v.reading = .ok a) : t.Takes v := by
  cases t with
  | list =>
    cases v with
    | array items => exact ⟨items, rfl⟩
    | _ => cases h
  | map =>
    cases v with
    | object fields => exact ⟨fields, rfl⟩
    | _ => cases h
  | _ =>
    obtain ⟨ht, -, hv⟩ := payload_of_leaf (by decide) (by decide) h
    exact (takes_iff (by decide) (by decide)).2 ⟨a, ht, hv⟩

/-- Whatever is in a list that is read is read. -/
theorem ofReading_of_ofItems : ∀ {items : List Json} {as : List Attribute},
    ofItems (Json.itemReadings items) true = .ok as → ∀ j ∈ items, ∃ a, ofReading j.reading = .ok a
  | [], _, _ => List.forall_mem_nil _
  | j :: rest, _, h => by
    rw [Json.itemReadings, ofItems, bind_eq_ok] at h
    obtain ⟨a, ha, h⟩ := h
    obtain ⟨as, has, -⟩ := bind_eq_ok.1 h
    exact List.forall_mem_cons.2 ⟨⟨a, ha⟩, ofReading_of_ofItems has⟩

/-- Whatever is in a map that is read is read. -/
theorem ofReading_of_ofFields : ∀ {fields : List (String × Json)} {fs : List (String × Attribute)},
    ofFields (Json.fieldReadings fields) true = .ok fs → ∀ field ∈ fields, ∃ a, ofReading field.2.reading = .ok a
  | [], _, _ => List.forall_mem_nil _
  | (name, j) :: rest, _, h => by
    rw [Json.fieldReadings, ofFields, bind_eq_ok] at h
    obtain ⟨a, ha, h⟩ := h
    obtain ⟨fs, hfs, -⟩ := bind_eq_ok.1 h
    exact List.forall_mem_cons.2 ⟨⟨a, ha⟩, ofReading_of_ofFields hfs⟩

end Attribute

namespace Json

open Attribute (ofReading ofItems ofFields ofPayload)

/-- **A malformed document** is not read. -/
theorem Malformed.not_ok {j : Json} (h : j.Malformed) : ∀ a, ofReading j.reading ≠ .ok a := by
  induction h with
  | notObject h =>
    intro a ha
    obtain ⟨t, v, rfl, -⟩ := Attribute.ofReading_ok.1 ha
    exact h rfl
  | noTag => nofun
  | unknownTag hmem h =>
    intro a ha
    obtain ⟨t, v, heq, -⟩ := Attribute.ofReading_ok.1 ha
    cases heq
    cases List.mem_singleton.1 hmem
    rw [AttributeType.ofTag?_tag] at h
    cases h
  | secondTag first second more =>
    intro a ha
    obtain ⟨t, v, heq, -⟩ := Attribute.ofReading_ok.1 ha
    cases heq
  | payload h =>
    intro a ha
    exact h (Attribute.takes_of_ofPayload (Attribute.ofReading_tag.1 ha))
  | item hmem h ih =>
    intro a ha
    have hv := Attribute.ofReading_tag.1 ha
    rw [Json.reading, ofPayload, map_eq_ok] at hv
    obtain ⟨as, has, -⟩ := hv
    obtain ⟨b, hb⟩ := Attribute.ofReading_of_ofItems has _ hmem
    exact ih b hb
  | field hmem h ih =>
    intro a ha
    have hv := Attribute.ofReading_tag.1 ha
    rw [Json.reading, ofPayload, map_eq_ok] at hv
    obtain ⟨fs, hfs, -⟩ := hv
    obtain ⟨b, hb⟩ := Attribute.ofReading_of_ofFields hfs _ hmem
    exact ih b hb

/-- A value under a tag is read or has the wrong shape, unless the tag is one of a list or of a map. -/
theorem leaf_isOk_or_malformed {t : AttributeType} (hlist : t ≠ .list) (hmap : t ≠ .map) (v : Json) :
    (∃ a, ofReading (Json.object [(t.tag, v)]).reading = .ok a) ∨ (Json.object [(t.tag, v)]).Malformed := by
  by_cases h : t.Takes v
  · exact .inl (Attribute.ofReading_leaf hlist hmap h)
  · exact .inr (.payload h)

mutual

/-- **A document** is read, or it is malformed. -/
theorem isOk_or_malformed : ∀ j : Json, (∃ a, ofReading j.reading = .ok a) ∨ j.Malformed
  | .object [] => .inr .noTag
  | .object (first :: second :: more) => .inr (.secondTag first second more)
  | .object [(tag, v)] => by
    cases ht : ofTag? tag with
    | none => exact .inr (.unknownTag (List.mem_singleton.2 rfl) ht)
    | some t =>
      obtain rfl := AttributeType.tag_eq_of_ofTag? ht
      exact sent_isOk_or_malformed v t
  | .null | .bool _ | .number _ | .string _ | .array _ => .inr (.notObject nofun)

theorem sent_isOk_or_malformed : ∀ (v : Json) (t : AttributeType),
    (∃ a, ofReading (Json.object [(t.tag, v)]).reading = .ok a) ∨ (Json.object [(t.tag, v)]).Malformed
  | .array items, .list => by
    rcases items_isOk_or_malformed items with ⟨as, has⟩ | ⟨j, hj, hmalformed⟩
    · refine .inl ⟨.list as, Attribute.ofReading_tag.2 ?_⟩
      rw [Json.reading, ofPayload, has]
      rfl
    · exact .inr (.item hj hmalformed)
  | .object fields, .map => by
    rcases fields_isOk_or_malformed fields with ⟨fs, hfs⟩ | ⟨name, j, hj, hmalformed⟩
    · refine .inl ⟨.map (Fields.ofList fs), Attribute.ofReading_tag.2 ?_⟩
      rw [Json.reading, ofPayload, hfs]
      rfl
    · exact .inr (.field hj hmalformed)
  | v, .text | v, .number | v, .binary | v, .texts | v, .numbers | v, .binaries | v, .flag | v, .null =>
    leaf_isOk_or_malformed (by decide) (by decide) v
  | .null, .list | .bool _, .list | .number _, .list | .string _, .list | .object _, .list
  | .null, .map | .bool _, .map | .number _, .map | .string _, .map | .array _, .map =>
    .inr (.payload fun ⟨_, h⟩ => nomatch h)

theorem items_isOk_or_malformed : ∀ items : List Json,
    (∃ as, ofItems (itemReadings items) true = .ok as) ∨ ∃ j ∈ items, j.Malformed
  | [] => .inl ⟨[], rfl⟩
  | j :: rest => by
    rcases isOk_or_malformed j with ⟨a, ha⟩ | hmalformed
    · rcases items_isOk_or_malformed rest with ⟨as, has⟩ | ⟨i, hi, hmalformed⟩
      · refine .inl ⟨a :: as, ?_⟩
        rw [itemReadings, ofItems, ha, has]
        rfl
      · exact .inr ⟨i, List.mem_cons_of_mem j hi, hmalformed⟩
    · exact .inr ⟨j, List.mem_cons_self, hmalformed⟩

theorem fields_isOk_or_malformed : ∀ fields : List (String × Json),
    (∃ fs, ofFields (fieldReadings fields) true = .ok fs) ∨ ∃ name j, (name, j) ∈ fields ∧ j.Malformed
  | [] => .inl ⟨[], rfl⟩
  | (name, j) :: rest => by
    rcases isOk_or_malformed j with ⟨a, ha⟩ | hmalformed
    · rcases fields_isOk_or_malformed rest with ⟨fs, hfs⟩ | ⟨k, i, hi, hmalformed⟩
      · refine .inl ⟨(name, a) :: fs, ?_⟩
        rw [fieldReadings, ofFields, ha, hfs]
        rfl
      · exact .inr ⟨k, i, List.mem_cons_of_mem _ hi, hmalformed⟩
    · exact .inr ⟨name, j, List.mem_cons_self, hmalformed⟩

end

end Json

/-! ## Both ways -/

namespace Attribute

/--
**A document is read as an attribute** just if it is what this attribute is sent as. So what was sent is read as what it
was, no two documents are read as one attribute, and the documents that are refused are the malformed ones.
-/
theorem ofWire_eq_ok_iff :
    (∀ j : Json, j.Ordered → ∀ a, ofWire j = .ok a ↔ a.Ordered ∧ j = a.toWire) ∧
    (∀ a : Attribute, a.Ordered → a.toWire.Ordered ∧ ofWire a.toWire = .ok a) ∧
    (∀ j k : Json, j.Ordered → k.Ordered → ∀ a, ofWire j = .ok a → ofWire k = .ok a → j = k) ∧
    (∀ j : Json, (∃ e, ofWire j = .error e) ↔ j.Malformed) := by
  refine ⟨fun j hj a => ⟨fun h => ?_, fun h => ?_⟩, fun a ha => ⟨ha.toWire, ofReading_toWire ha⟩,
    fun j k hj hk a ha hb => ?_, fun j => ⟨fun h => ?_, fun h => ?_⟩⟩
  · obtain ⟨ha, hsent⟩ := toWire_of_ofReading hj h
    exact ⟨ha, hsent.symm⟩
  · obtain ⟨ha, rfl⟩ := h
    exact ofReading_toWire ha
  · exact (toWire_of_ofReading hj ha).2.symm.trans (toWire_of_ofReading hk hb).2
  · obtain ⟨e, he⟩ := h
    rcases j.isOk_or_malformed with ⟨a, ha⟩ | hmalformed
    · cases he.symm.trans ha
    · exact hmalformed
  · cases hj : ofWire j with
    | ok a => exact absurd hj (h.not_ok a)
    | error e => exact ⟨e, rfl⟩

/-- A map with a list of two bytes and of nothing is read from its document alone; the document with a bit left over
behind the bytes is refused. -/
theorem ofWire_eq_ok_iff_nested :
    ofWire (.object [("M", .object [("k", .object [("L", .array [.object [("B", .string "AAE=")],
      .object [("NULL", .bool true)]])])])]) = .ok (.map [("k", .list [.binary [0, 1], .null true])]) ∧
    ∃ e, ofWire (.object [("M", .object [("k", .object [("L", .array [.object [("B", .string "AAF=")],
      .object [("NULL", .bool true)]])])])]) = .error e := by
  constructor
  · have ha : (Attribute.map [("k", .list [.binary [0, 1], .null true])]).Ordered :=
      ⟨Fields.ordered_singleton _, ⟨trivial, trivial, trivial⟩, trivial⟩
    exact (ofWire_eq_ok_iff.1 _ ha.toWire _).2 ⟨ha, rfl⟩
  · have hbytes : ¬ AttributeType.binary.Takes (.string "AAF=") := by
      rintro ⟨bytes, h⟩
      have h : Base64.decode? "AAF=" = some bytes := Base64.decode?_eq_some_iff.2 (Json.string.inj h)
      cases h
    exact (ofWire_eq_ok_iff.2.2.2 _).2 (.field (List.mem_singleton.2 rfl) (.item List.mem_cons_self (.payload hbytes)))

end Attribute

end RecordStore
