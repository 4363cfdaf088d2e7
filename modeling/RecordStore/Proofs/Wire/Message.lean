import Mathlib.Data.List.Nodup
import RecordStore.Proofs.Attribute.Wire
import RecordStore.Wire.Message

/-!
# Messages read back

`Survives write read a` says that the value `a` is read from the document that is written of it. A message is put
together field by field, and so is its form: `Holds fields form a` says that whatever object has just these fields is
read as `a`. There is one lemma for each kind of field (`Holds.required`, `Holds.optional`, `Holds.defaulted`,
`Holds.unlessEmpty`) and one for putting fields side by side (`Holds.seq`). **`survives_message`**: a message whose
fields have distinct names survives if its fields hold it.
-/

namespace RecordStore.Wire

variable {α β : Type} {write : α → Json} {read : Decoder α} {a : α}

/-- A value is read from what is written of it, which is a document in normal form other than null. -/
structure Survives (write : α → Json) (read : Decoder α) (a : α) : Prop where
  ordered : (write a).Ordered
  /-- A null would be read as an absent option. -/
  ne_null : write a ≠ .null
  reads : read (write a) = .ok a

/-! ## Values -/

theorem survives_string (s : String) : Survives .string string s := ⟨trivial, Json.noConfusion, rfl⟩

theorem survives_bool (b : Bool) : Survives .bool bool b := ⟨trivial, Json.noConfusion, rfl⟩

/-- A whole number fits 32 bits with a sign. -/
def Fits32 (n : Int) : Prop := -Numeral.int32Max - 1 ≤ n ∧ n ≤ Numeral.int32Max

/-- A number that fits 32 bits is one of a document. -/
theorem Fits32.fits {n : Int} (h : Fits32 n) : JsonNumber.fits n = true := by
  obtain ⟨hlow, hhigh⟩ := h
  simp only [Numeral.int32Max] at hlow hhigh
  rw [JsonNumber.fits, Bool.and_eq_true]
  constructor
  · refine decide_eq_true ?_
    simp only [Numeral.intBound]
    omega
  · refine decide_eq_true ?_
    simp only [Numeral.natBound]
    omega

theorem survives_int32 {n : Int} (h : Fits32 n) : Survives (fun n => .number (.whole n)) int32 n :=
  ⟨h.fits, nofun, if_pos h⟩

/-- What is read one by one of values that come back comes back. -/
theorem mapM_survives {γ : Type} {write : α → γ} {read : γ → Except WireError α} {as : List α}
    (h : ∀ a ∈ as, read (write a) = .ok a) : (as.map write).mapM read = .ok as := by
  induction as with
  | nil => rfl
  | cons a as ih =>
    obtain ⟨ha, has⟩ := List.forall_mem_cons.1 h
    rw [List.map_cons, List.mapM_cons, ha, ih has]
    rfl

theorem survives_list {as : List α} (h : ∀ a ∈ as, Survives write read a) :
    Survives (fun as => .array (as.map write)) (list read) as where
  ordered := by
    rw [Json.Ordered, Json.orderedItems_iff]
    intro j hj
    obtain ⟨a, ha, rfl⟩ := List.mem_map.1 hj
    exact (h a ha).ordered
  ne_null := nofun
  reads := mapM_survives fun a ha => (h a ha).reads

theorem survives_map {m : Fields α} (ho : m.Ordered) (h : ∀ entry ∈ m, Survives write read entry.2) :
    Survives (fun m => .object (m.mapValues write)) (map read) m where
  ordered := by
    rw [Json.Ordered, Json.orderedFields_iff]
    refine ⟨List.pairwise_map.2 ho, ?_⟩
    intro field hfield
    obtain ⟨entry, hentry, rfl⟩ := List.mem_map.1 hfield
    exact (h entry hentry).ordered
  ne_null := nofun
  reads := by
    refine mapM_survives fun entry hentry => ?_
    simp only [(h entry hentry).reads]
    rfl

/-! ## Fields of a message -/

/-- Some fields hold a value of a form: whatever object has just them under their names is read as this value. -/
structure Holds (fields : List (String × Option Json)) (form : Form α) (a : α) : Prop where
  ordered : ∀ field ∈ fields, ∀ j ∈ field.2, j.Ordered
  reads : ∀ m : Fields Json, (∀ field ∈ fields, m.find field.1 = field.2) → form.named m = .ok a

namespace Holds

variable {name : String} {fields more : List (String × Option Json)}

theorem pure (a : α) : Holds [] (Pure.pure a) a where
  ordered := nofun
  reads _ _ := rfl

/-- **Fields side by side** hold a function and what it is applied to. -/
theorem seq {f : Form (α → β)} {x : Form α} {g : α → β} (hf : Holds fields f g) (hx : Holds more x a) :
    Holds (fields ++ more) (f <*> x) (g a) where
  ordered field hfield := (List.mem_append.1 hfield).elim (hf.ordered field) (hx.ordered field)
  reads m hm := by
    have hg : f.named m = .ok g := hf.reads m fun field hfield => hm field (List.mem_append_left _ hfield)
    have ha : x.named m = .ok a := hx.reads m fun field hfield => hm field (List.mem_append_right _ hfield)
    simp only [Seq.seq, hg, ha]

theorem map {form : Form α} (f : α → β) (h : Holds fields form a) : Holds fields (f <$> form) (f a) :=
  (pure f).seq h

/-- A field holds a value if its document is in normal form and any object with this field is read as the value. -/
theorem single {form : Form α} {value : Option Json} (ho : ∀ j ∈ value, j.Ordered)
    (hr : ∀ m : Fields Json, m.find name = value → form.named m = .ok a) : Holds [(name, value)] form a where
  ordered _ hfield := List.mem_singleton.1 hfield ▸ ho
  reads m hm := hr m (hm _ List.mem_cons_self)

theorem required (h : Survives write read a) : Holds [(name, some (write a))] (required name read) a := by
  refine single (fun j hj => Option.mem_some.1 hj ▸ h.ordered) fun m hm => ?_
  simp only [Wire.required, hm, valueOf, h.reads]
  rfl

theorem optional {o : Option α} (h : ∀ a ∈ o, Survives write read a) :
    Holds [(name, o.map write)] (optional name read) o := by
  cases o with
  | none =>
    refine single nofun fun m hm => ?_
    simp only [Wire.optional, hm, Option.map_none]
  | some a =>
    have ha : Survives write read a := h a rfl
    refine single (fun j hj => Option.mem_some.1 hj ▸ ha.ordered) fun m hm => ?_
    have hvalue : valueOf read name (write a) = .ok a := by rw [valueOf, ha.reads]; rfl
    simp only [Wire.optional, hm, Option.map_some]
    -- only a document other than null is read as a value
    split
    · cases ‹some (write a) = none›
    · exact absurd (Option.some.inj ‹_›) ha.ne_null
    · rename_i j _ hj
      rw [← Option.some.inj hj, hvalue]
      rfl

theorem defaulted {default : α} (h : Survives write read a) :
    Holds [(name, some (write a))] (defaulted name read default) a := by
  refine single (fun j hj => Option.mem_some.1 hj ▸ h.ordered) fun m hm => ?_
  simp only [Wire.defaulted, hm, valueOf, h.reads]
  rfl

/-- A map that is left out if it is empty, and is read as empty if it is left out. -/
theorem unlessEmpty {write : List β → Json} {read : Decoder (List β)} {m : List β} (h : Survives write read m) :
    Holds [(name, if m.isEmpty then none else some (write m))] (Wire.defaulted name read []) m := by
  cases m with
  | nil => exact single nofun fun message hm => by simp only [Wire.defaulted, hm, List.isEmpty_nil, if_true]
  | cons entry rest => exact defaulted h

/-- The order of fields in a message does not matter. -/
theorem reorder {form : Form α} (h : Holds fields form a) (hmem : ∀ field, field ∈ fields ↔ field ∈ more) :
    Holds more form a where
  ordered field hfield := h.ordered field ((hmem field).2 hfield)
  reads m hm := h.reads m fun field hfield => hm field ((hmem field).1 hfield)

end Holds

/-! ## Messages -/

/-- The fields of a message that are there, with their documents. -/
theorem map_filterMap_sublist : ∀ fields : List (String × Option Json),
    ((fields.filterMap fun (name, value) => value.map (name, ·)).map (·.1)).Sublist (fields.map (·.1))
  | [] => .slnil
  | (name, none) :: rest => (map_filterMap_sublist rest).cons name
  | (name, some _) :: rest => (map_filterMap_sublist rest).cons_cons name

/-- Under each name of a message is what was written there. -/
theorem find_message {fields : List (String × Option Json)} (hnames : (fields.map (·.1)).Nodup)
    {field : String × Option Json} (h : field ∈ fields) :
    (Fields.ofList (fields.filterMap fun (name, value) => value.map (name, ·))).find field.1 = field.2 := by
  obtain ⟨name, value⟩ := field
  cases value with
  | some j =>
    have hmem : (name, j) ∈ fields.filterMap fun (name, value) => value.map (name, ·) :=
      List.mem_filterMap.2 ⟨(name, some j), h, rfl⟩
    exact Fields.find_ofList_of_mem ((map_filterMap_sublist fields).nodup hnames) hmem
  | none =>
    refine Fields.find_merge_of_notMem fun hmem => ?_
    obtain ⟨⟨name', j⟩, hentry, rfl⟩ := List.mem_map.1 hmem
    obtain ⟨⟨name'', value⟩, hfield, hvalue⟩ := List.mem_filterMap.1 hentry
    obtain ⟨i, rfl, hi⟩ := Option.map_eq_some_iff.1 hvalue
    cases hi
    -- two fields of one name are one field, so it would be there and left out
    cases List.inj_on_of_nodup_map hnames h hfield rfl

theorem ordered_message {fields : List (String × Option Json)} (h : ∀ field ∈ fields, ∀ j ∈ field.2, j.Ordered) :
    (message fields).Ordered := by
  rw [message, Json.Ordered, Json.orderedFields_iff]
  refine ⟨Fields.ordered_ofList _, fun entry hentry => ?_⟩
  have hmem : entry ∈ fields.filterMap fun (name, value) => value.map (name, ·) := Fields.mem_of_mem_ofList hentry
  obtain ⟨field, hfield, hvalue⟩ := List.mem_filterMap.1 hmem
  obtain ⟨j, hj, rfl⟩ := Option.map_eq_some_iff.1 hvalue
  exact h field hfield j hj

/-- **A message** is read as what its fields hold if their names are distinct. -/
theorem survives_message {form : Form α} {fields : List (String × Option Json)} (hnames : (fields.map (·.1)).Nodup)
    (hwrite : write a = message fields) (h : Holds fields form a) : Survives write form.decode a where
  ordered := hwrite ▸ ordered_message h.ordered
  ne_null := hwrite ▸ nofun
  reads := by
    rw [hwrite, message, Form.decode, h.reads _ fun field hfield => find_message hnames hfield]
    rfl

end RecordStore.Wire
