import Mathlib
import RecordStore.Cursor
import RecordStore.Proofs.Bytes.Base64
import RecordStore.Proofs.Json.Printing

/-!
# Cursors lead back to their keys

**`Cursor.decode_encode?`**: the cursor that is made of a key is read as this key, if the attributes of the key are
scalars. It is no blank text (`Cursor.isBlankText_encode?`), so it is not taken for no cursor.

The other way round, whatever text is read as a cursor, the key in it is one that cursors are made of
(`Cursor.isStartKey_of_decode`), although the text may be another than that of its cursor. Both together are
**`Cursor.isStartKey_iff_decodes`**.
-/

namespace RecordStore

/-! ## Texts and bytes -/

namespace Text

theorem dropWhile_eq_self {α : Type} {p : α → Bool} {xs : List α} (h : ∀ x ∈ xs, p x = false) :
    xs.dropWhile p = xs := by
  cases xs with
  | nil => rfl
  | cons x xs => rw [List.dropWhile_cons_of_neg]; simp [h x List.mem_cons_self]

/-- A text without blanks stays as it is. -/
theorem trim_eq_self {cs : List Char} (h : ∀ c ∈ cs, isBlank c = false) :
    trim (String.ofList cs) = String.ofList cs := by
  have hreverse : ∀ c ∈ cs.reverse, isBlank c = false := fun c hc => h c (List.mem_reverse.1 hc)
  rw [trim, String.toList_ofList, trimChars, dropWhile_eq_self h, dropWhile_eq_self hreverse, List.reverse_reverse]

end Text

namespace Cursor

/-- A text is read from its bytes. -/
theorem ofUtf8?_utf8 (s : String) : ofUtf8? (utf8 s) = some s := by
  simp [ofUtf8?, utf8, String.fromUTF8?, s.isValidUTF8, String.fromUTF8]

/-! ## Keys -/

theorem fieldsToWire_eq (key : Key) : Attribute.fieldsToWire key = Fields.mapValues Attribute.toWire key := by
  induction key with
  | nil => rfl
  | cons entry key ih =>
    obtain ⟨name, a⟩ := entry
    rw [Attribute.fieldsToWire, ih]
    rfl

theorem payload_of_isScalar {a : Attribute} (h : a.isScalar = true) : ∃ s, a.payload = .string s := by
  cases a <;> first | exact ⟨_, by rw [Attribute.payload]⟩ | cases h

theorem toWire_printable {a : Attribute} (h : a.isScalar = true) (depth : Nat) : a.toWire.Printable (depth + 1) := by
  obtain ⟨s, hs⟩ := payload_of_isScalar h
  simp [Attribute.toWire, hs, Json.Printable, Json.PrintableFields]

theorem toWire_ordered {a : Attribute} (h : a.isScalar = true) : a.toWire.Ordered := by
  obtain ⟨s, hs⟩ := payload_of_isScalar h
  simp [Attribute.toWire, hs, Json.Ordered, Json.OrderedFields, Fields.Ordered]

theorem fields_printable {depth : Nat} : ∀ {key : Key}, (∀ entry ∈ key, entry.2.isScalar = true) →
    Json.PrintableFields (depth + 1) (Fields.mapValues Attribute.toWire key)
  | [], _ => by rw [Fields.mapValues, List.map_nil, Json.PrintableFields]; trivial
  | entry :: key, h => by
    obtain ⟨hentry, hkey⟩ := List.forall_mem_cons.1 h
    rw [Fields.mapValues, List.map_cons, Json.PrintableFields]
    exact ⟨toWire_printable hentry depth, fields_printable hkey⟩

theorem fields_ordered : ∀ {key : Key}, (∀ entry ∈ key, entry.2.isScalar = true) →
    Json.OrderedFields (Fields.mapValues Attribute.toWire key)
  | [], _ => by rw [Fields.mapValues, List.map_nil, Json.OrderedFields]; trivial
  | entry :: key, h => by
    obtain ⟨hentry, hkey⟩ := List.forall_mem_cons.1 h
    rw [Fields.mapValues, List.map_cons, Json.OrderedFields]
    exact ⟨toWire_ordered hentry, fields_ordered hkey⟩

/-- The document of a key is read from its bytes, in whatever order its fields are written. -/
theorem body?_toWire {key entries : Key} (ho : Fields.Ordered key) (hs : ∀ entry ∈ key, entry.2.isScalar = true)
    (hp : entries.Perm key) :
    body? (utf8 (Item.toWire entries).text) = some (Fields.mapValues Attribute.toWire key) := by
  have hentries : ∀ entry ∈ entries, entry.2.isScalar = true := by
    intro entry hentry
    exact hs entry (hp.mem_iff.1 hentry)
  have hprintable : (Json.object (Fields.mapValues Attribute.toWire entries)).Printable Reading.maxDepth := by
    have h := @fields_printable 125 entries hentries
    rwa [Reading.maxDepth, Json.Printable]
  have hkey : (Fields.mapValues Attribute.toWire key).Ordered := ho.map _ fun _ _ h => h
  have hread : Fields.ofList (Fields.mapValues Attribute.toWire entries) = Fields.mapValues Attribute.toWire key :=
    hkey.ofList_of_perm (hp.map _)
  rw [Item.toWire, fieldsToWire_eq]
  simp only [body?, ofUtf8?_utf8, hprintable.parse_fields (fields_ordered hentries), hread, bind, Option.bind]
  rfl

/-- An attribute of a key is read from its document. -/
theorem keyValue_toWire {a : Attribute} (h : a.isScalar = true) : keyValue a.toWire = .ok a := by
  cases a with
  | text s => rfl
  | number n => rfl
  | binary bytes =>
    simp [keyValue, Attribute.toWire, Attribute.ofWire, Json.reading, Json.fieldReadings, Attribute.payload,
      Attribute.type, AttributeType.tag, Attribute.ofReading, Attribute.ofPayload, AttributeType.ofTag?,
      AttributeType.all, Attribute.stringOf, Attribute.bytesOf, Base64.decode_encode, bind, Except.bind, pure,
      Except.pure]
  | _ => cases h

theorem keyValues_toWire : ∀ {key : Key}, (∀ entry ∈ key, entry.2.isScalar = true) →
    keyValues (Fields.mapValues Attribute.toWire key) = .ok key
  | [], _ => rfl
  | (name, a) :: key, h => by
    obtain ⟨ha, hkey⟩ := List.forall_mem_cons.1 h
    have htail := keyValues_toWire hkey
    rw [Fields.mapValues] at htail
    rw [Fields.mapValues, List.map_cons, keyValues]
    simp only [keyValue_toWire ha, htail, bind, Except.bind, ha, if_true]

/-! ## Tokens -/

variable {key : Key} {token : String}

theorem encode?_eq_some (h : encode? key = some token) : key ≠ [] ∧ token = Base64.encode (utf8 key.toWire.text) := by
  unfold encode? at h
  cases key with
  | nil => cases h
  | cons entry key => exact ⟨nofun, (Option.some.inj h).symm⟩

/-- A key that is not empty has a cursor. -/
theorem encode?_of_ne_nil (h : key ≠ []) : encode? key = some (Base64.encode (utf8 key.toWire.text)) := by
  rw [encode?, if_neg (by simpa using h)]

/-- The token that the fields of a key are written to, in any order, is read as this key. -/
theorem decode_toWire {entries : Key} (hne : key ≠ []) (ho : Fields.Ordered key)
    (hs : ∀ entry ∈ key, entry.2.isScalar = true) (hp : entries.Perm key) :
    decode (Base64.encode (utf8 (Item.toWire entries).text)) = .ok key := by
  have htrim : Text.trim (Base64.encode (utf8 (Item.toWire entries).text)) =
      Base64.encode (utf8 (Item.toWire entries).text) := Text.trim_eq_self fun _ => Base64.isBlank_of_mem_encodeChars
  rw [decode, htrim, Base64.decode_encode]
  simp only [body?_toWire ho hs hp]
  split
  · exact absurd ‹_› (by simp)
  · rename_i hnil
    exact absurd (List.map_eq_nil_iff.1 (Option.some.inj hnil)) hne
  · rename_i hfields
    cases hfields
    exact keyValues_toWire hs

/-- **The cursor that is made of a key is read as this key.** -/
theorem decode_encode? (h : encode? key = some token) (ho : Fields.Ordered key)
    (hs : ∀ entry ∈ key, entry.2.isScalar = true) : decode token = .ok key := by
  obtain ⟨hne, rfl⟩ := encode?_eq_some h
  exact decode_toWire hne ho hs (List.Perm.refl key)

theorem utf8_toWire_ne_nil (key : Key) : utf8 key.toWire.text ≠ [] := fun hnil => by
  have htext : ofUtf8? (utf8 key.toWire.text) = ofUtf8? (utf8 "") := by rw [hnil]; rfl
  rw [ofUtf8?_utf8, ofUtf8?_utf8, Option.some.injEq, Json.text, Item.toWire] at htext
  have hchars := congrArg String.toList htext
  rw [String.toList_ofList] at hchars
  cases hf : Attribute.fieldsToWire key with
  | nil => rw [hf] at hchars; cases hchars
  | cons field fields => rw [hf] at hchars; cases hchars

/-- A cursor is no blank text. -/
theorem isBlankText_encode? (h : encode? key = some token) : Text.isBlankText token = false := by
  obtain ⟨-, rfl⟩ := encode?_eq_some h
  rw [Text.isBlankText, Base64.encode, String.toList_ofList]
  cases hcs : Base64.encodeChars (utf8 key.toWire.text) with
  | nil => exact absurd hcs (Base64.encodeChars_ne_nil (utf8_toWire_ne_nil key))
  | cons c cs =>
    have hc : Text.isBlank c = false := Base64.isBlank_of_mem_encodeChars (hcs ▸ List.mem_cons_self)
    rw [List.all_cons, hc, Bool.false_and]

/-! ## Keys that are read -/

/-- A key that a cursor can be made of: it is not empty, and all of its attributes are scalars. -/
structure IsStartKey (key : Key) : Prop where
  ordered : Fields.Ordered key
  nonempty : key ≠ []
  scalars : ∀ entry ∈ key, entry.2.isScalar = true

/-- A cursor is made of such a key, whatever the order its fields are written in, and read as it. -/
theorem IsStartKey.encodes {entries : Key} (h : IsStartKey key) (hp : entries.Perm key) :
    ∃ token, encode? entries = some token ∧ decode token = .ok key := by
  have hne : entries ≠ [] := by
    rintro rfl
    exact h.nonempty (List.nil_perm.1 hp)
  exact ⟨_, encode?_of_ne_nil hne, decode_toWire h.nonempty h.ordered h.scalars hp⟩

/-- The attributes of a key have the names of the fields that they are read from, and are scalars. -/
theorem keyValues_ok : ∀ {fields : List (String × Json)} {key : Key}, keyValues fields = .ok key →
    key.map (·.1) = fields.map (·.1) ∧ ∀ entry ∈ key, entry.2.isScalar = true
  | [], key, h => by
    cases h
    exact ⟨rfl, nofun⟩
  | (name, j) :: rest, key, h => by
    rw [keyValues] at h
    cases ha : keyValue j with
    | error cause =>
      rw [ha] at h
      cases h
    | ok a =>
      simp only [ha, bind, Except.bind] at h
      split at h
      · rename_i hscalar
        cases hmore : keyValues rest with
        | error cause =>
          rw [hmore] at h
          cases h
        | ok more =>
          rw [hmore] at h
          cases h
          obtain ⟨hnames, hscalars⟩ := keyValues_ok hmore
          refine ⟨?_, List.forall_mem_cons.2 ⟨hscalar, hscalars⟩⟩
          rw [List.map_cons, List.map_cons, hnames]
      · cases h

/-- The fields of the document in a token have ascending names, however often a name was written. -/
theorem ordered_of_body? {bytes : List UInt8} {fields : Fields Json} (h : body? bytes = some fields) :
    Fields.Ordered fields := by
  obtain ⟨text, -, h⟩ := Option.bind_eq_some_iff.1 h
  obtain ⟨j, hj, hfields⟩ := Option.bind_eq_some_iff.1 h
  unfold Json.parse? at hj
  split at hj
  · generalize (Reading.ofText text).1 = r at hj
    -- only the reading of an object is the document of one
    cases r with
    | object entries closed =>
      rw [Reading.toJson?] at hj
      split at hj
      · obtain ⟨seen, -, rfl⟩ := Option.map_eq_some_iff.1 hj
        cases hfields
        exact Fields.ordered_ofList seen
      · cases hj
    | array items closed =>
      rw [Reading.toJson?] at hj
      split at hj
      · obtain ⟨seen, -, rfl⟩ := Option.map_eq_some_iff.1 hj
        cases hfields
      · cases hj
    | broken => rw [Reading.toJson?] at hj; cases hj
    | null | bool | number | string =>
      rw [Reading.toJson?] at hj
      cases hj
      cases hfields
  · cases hj

/-- Fields with the names of a map in order are in order. -/
theorem ordered_of_names {fields : Fields Json} (hf : Fields.Ordered fields)
    (hnames : key.map (·.1) = fields.map (·.1)) : Fields.Ordered key := by
  have hf' : (fields.map (·.1)).Pairwise (· < ·) := List.pairwise_map.2 hf
  rw [← hnames] at hf'
  exact List.pairwise_map.1 hf'

/-- **Whatever is read as a cursor** holds a key that cursors are made of. -/
theorem isStartKey_of_decode (h : decode token = .ok key) : IsStartKey key := by
  unfold decode at h
  split at h
  · cases h
  · rename_i bytes _
    split at h
    · cases h
    · cases h
    · rename_i fields hne hbody
      obtain ⟨hnames, hscalars⟩ := keyValues_ok h
      refine ⟨ordered_of_names (ordered_of_body? hbody) hnames, ?_, hscalars⟩
      rintro rfl
      -- no names, so no fields
      have hnil : fields = [] := List.map_eq_nil_iff.1 hnames.symm
      exact hne hnil

/--
**The keys that cursors are made of are those that cursors are read as.** A cursor is made of every key that is not
empty and holds scalars alone, and it is read as this key, as is the text that has the fields of the key in any other
order; and the key that any text is read as is such a key, so that the cursor made of it, which may be another text, is
read as the same key.
-/
theorem isStartKey_iff_decodes :
    (∀ key : Key, IsStartKey key →
      (∃ token, encode? key = some token ∧ decode token = .ok key) ∧
      ∀ entries : Key, entries.Perm key → ∃ token, encode? entries = some token ∧ decode token = .ok key) ∧
    ∀ (token : String) (key : Key), decode token = .ok key →
      IsStartKey key ∧ ∃ token', encode? key = some token' ∧ decode token' = .ok key := by
  constructor
  · intro key h
    refine ⟨h.encodes (List.Perm.refl key), ?_⟩
    intro entries hp
    exact h.encodes hp
  · intro token key h
    have hkey := isStartKey_of_decode h
    exact ⟨hkey, hkey.encodes (List.Perm.refl key)⟩

/-- A key with a numeral that is none and bytes that are no text, and a token with a plain document and a name twice. -/
theorem isStartKey_iff_decodes_plain :
    let key : Key := [("", .binary [0, 255]), ("a\"\n", .number "x"), ("é", .text "\\u0000 ")]
    let plain : Key := [("a", .number "8"), ("n", .text "8")]
    (∃ token, encode? key = some token ∧ decode token = .ok key) ∧
      decode " eyJuIjp7Ik4iOiIwNyJ9LCJhIjo4LCJuIjoiOCJ9\n" = .ok plain ∧
      IsStartKey plain ∧ ∃ token, encode? plain = some token ∧ decode token = .ok plain := by
  intro key plain
  have hkey : IsStartKey key := by
    refine ⟨List.pairwise_map.1 (show ["", "a\"\n", "é"].Pairwise (· < ·) by decide), nofun, ?_⟩
    intro entry hentry
    simp only [key, List.mem_cons, List.not_mem_nil, or_false] at hentry
    rcases hentry with rfl | rfl | rfl <;> rfl
  have hplain : decode " eyJuIjp7Ik4iOiIwNyJ9LCJhIjo4LCJuIjoiOCJ9\n" = .ok plain := by unfold plain; cbv
  exact ⟨(isStartKey_iff_decodes.1 key hkey).1, hplain, isStartKey_iff_decodes.2 _ plain hplain⟩

end Cursor

end RecordStore
