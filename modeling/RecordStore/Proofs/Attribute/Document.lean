import RecordStore.Attribute.Document
import RecordStore.Proofs.Fields
import RecordStore.Proofs.Number.Shortest

/-!
# Documents come back from attributes

**`Attribute.toJson_ofJson`**: a document in normal form is the document of its attribute; the induction is on the
document, and a number comes back because the reader of whole numbers refuses every text of a double.
**`Attribute.documents_come_back`** says it of documents, of records with the items that they are stored as, and of the
texts of both kinds of numbers. Fields are found in the one where they are in the other.
-/

namespace RecordStore

namespace Attribute

/-- A number comes back from its text. -/
theorem numeralToJson_chars {n : JsonNumber} (h : (Json.number n).Ordered) :
    numeralToJson (String.ofList n.chars) = .number n := by
  cases n with
  | whole n =>
    rw [numeralToJson, String.toList_ofList, JsonNumber.chars, Numeral.integer?_toString h]
  | double x =>
    have hx : x.isFinite = true := h
    rw [numeralToJson, String.toList_ofList, JsonNumber.chars, Binary64.integer?_chars hx, Binary64.parse?_chars hx]
    dsimp only
    rw [if_pos hx]

mutual

/-- **A document** in normal form comes back from its attribute. -/
theorem toJson_ofJson : ∀ {j : Json}, j.Ordered → toJson (ofJson j) = j
  | .null, _ | .bool _, _ | .string _, _ => rfl
  | .number _, h => numeralToJson_chars h
  | .array items, h => by
    rw [Json.Ordered] at h
    rw [ofJson, toJson, toJsonItems_ofJsonItems h]
  | .object fields, h => by
    rw [Json.Ordered] at h
    rw [ofJson, toJson, toJsonFields_ofJsonFields h.2]

/-- Items in normal form come back from their attributes. -/
theorem toJsonItems_ofJsonItems : ∀ {items : List Json}, Json.OrderedItems items →
    toJsonItems (ofJsonItems items) = items
  | [], _ => rfl
  | j :: rest, h => by
    rw [Json.OrderedItems] at h
    rw [ofJsonItems, toJsonItems, toJson_ofJson h.1, toJsonItems_ofJsonItems h.2]

/-- Fields in normal form come back from their attributes. -/
theorem toJsonFields_ofJsonFields : ∀ {fields : List (String × Json)}, Json.OrderedFields fields →
    toJsonFields (ofJsonFields fields) = fields
  | [], _ => rfl
  | (name, j) :: rest, h => by
    rw [Json.OrderedFields] at h
    rw [ofJsonFields, toJsonFields, toJson_ofJson h.1, toJsonFields_ofJsonFields h.2]

end

/-- The attribute of a field is found under its name. -/
theorem find_ofJsonFields (name : String) : ∀ fields : List (String × Json),
    Fields.find (ofJsonFields fields) name = (Fields.find fields name).map ofJson
  | [] => rfl
  | (k, j) :: rest => by
    rw [ofJsonFields, Fields.find_cons, Fields.find_cons, find_ofJsonFields name rest]
    split <;> rfl

/-! ## Numbers keep their kind -/

/-- **Documents come back**: a document in normal form is the document of its attribute, and a record in normal form is
the record of its item. A whole number is stored as its numeral, which the reader of whole numbers takes back to the
same value; a finite double is stored as a text that this reader refuses and the reader of doubles takes back to the
same pattern, a negative zero and a double with an integral value included. -/
theorem documents_come_back :
    (∀ v : Json, v.Ordered → toJson (ofJson v) = v) ∧
      (∀ record : Record, (Json.object record).Ordered → record.toItem.toRecord = record) ∧
        (∀ n : Int, JsonNumber.fits n = true →
          ofJson (.number (.whole n)) = .number (toString n) ∧ Numeral.integer? (toString n).toList = some n) ∧
          ∀ x : Binary64, x.isFinite = true → ∃ text : String,
            ofJson (.number (.double x)) = .number text ∧ Numeral.integer? text.toList = none ∧
              Binary64.parse? text.toList = some x := by
  refine ⟨fun v hv => toJson_ofJson hv, fun record h => ?_, fun n hn => ?_, fun x hx => ?_⟩
  · rw [Json.Ordered] at h
    exact toJsonFields_ofJsonFields h.2
  · have htext : String.ofList (toString n).toList = toString n := String.ofList_toList
    exact ⟨by rw [ofJson, JsonNumber.chars, htext], Numeral.integer?_toString hn⟩
  · refine ⟨String.ofList x.chars, rfl, ?_⟩
    rw [String.toList_ofList]
    exact ⟨Binary64.integer?_chars hx, Binary64.parse?_chars hx⟩

/-- A document with both ends of the range of whole numbers, a negative zero and a double with an integral value at
several depths comes back, and the texts of its numbers tell their kinds apart. -/
theorem documents_come_back_nested :
    let numbers : Json := .array [.number (.whole 18446744073709551615), .number (.whole (-9223372036854775808)),
      .number (.double ⟨true, 0⟩), .number (.double ⟨false, 0x3FF0000000000000⟩)]
    let record : Record :=
      [("deep", .array [.object [("none", .null), ("numbers", numbers)], .bool true]), ("id", .string "1")]
    record.toItem.toRecord = record ∧ toJson (ofJson numbers) = numbers ∧
      ofJson (.number (.double ⟨true, 0⟩)) = .number "-0.0" ∧
        ofJson (.number (.whole 18446744073709551615)) = .number "18446744073709551615" ∧
          ∃ text : String, ofJson (.number (.double ⟨false, 0x3FF0000000000000⟩)) = .number text ∧
            Numeral.integer? text.toList = none ∧
              Binary64.parse? text.toList = some ⟨false, 0x3FF0000000000000⟩ := by
  intro numbers record
  have hnumbers : numbers.Ordered := by
    simp only [numbers, Json.Ordered, Json.OrderedItems]
    decide
  have hrecord : (Json.object record).Ordered := by
    simp only [record, Json.Ordered, Json.OrderedItems, Json.OrderedFields]
    have houter : (["deep", "id"] : List String).Pairwise (· < ·) := by decide
    have hinner : (["none", "numbers"] : List String).Pairwise (· < ·) := by decide
    exact ⟨List.pairwise_map.1 houter, ⟨⟨List.pairwise_map.1 hinner, trivial, hnumbers, trivial⟩, trivial, trivial⟩,
      trivial, trivial⟩
  obtain ⟨hdocument, hitem, hwhole, hdouble⟩ := documents_come_back
  exact ⟨hitem record hrecord, hdocument numbers hnumbers, by decide +kernel, (hwhole _ (by decide)).1,
    hdouble _ (by decide)⟩

end Attribute

end RecordStore
