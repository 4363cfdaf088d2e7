import RecordStore.Proofs.Store.Calls
import RecordStore.Proofs.Table.Reading

/-!
# The items of a read

A read of a table in order walks every item that has a position, each once: **`Table.rows_perm`**; and it walks them in
the order of their positions: **`Table.Sound.rows_pairwise`**. Every item has a position in the table, and in an index
those have one that have all key attributes of the index (`Table.Sound.place_index`).
-/

namespace RecordStore

namespace Table

variable {t : Table} {item : Item} {p : Position} {readOrder : List (Option KeyField)}

/-! ## All items that have a position -/

theorem map_positioned (t : Table) (readOrder : List (Option KeyField)) :
    (t.positioned readOrder).map (·.2) = t.items.filter fun item => (place readOrder item).isOk := by
  unfold positioned
  induction t.items with
  | nil => rfl
  | cons item items ih =>
    rw [List.filterMap_cons, List.filter_cons]
    cases hp : place readOrder item with
    | ok p => simp [Except.isOk, Except.toBool, ih]
    | error e => simp [Except.isOk, Except.toBool, ih]

/-- **A read walks every item that has a position**, each once. -/
theorem rows_perm (t : Table) (w : TableRead) :
    (t.rows w).Perm (t.items.filter fun item => (place (t.shape.readOrder w.index) item).isOk) := by
  have hsorted := List.mergeSort_perm (t.positioned (t.shape.readOrder w.index))
    fun a b => Position.compare a.1 b.1 ≠ .gt
  rw [← map_positioned, rows]
  apply List.Perm.map
  cases hw : w.forward with
  | true => exact hsorted
  | false => exact (List.reverse_perm _).trans hsorted

/-- Whether an item stands before another in a read. -/
def Precedes (readOrder : List (Option KeyField)) (forward : Bool) (a b : Item) : Prop :=
  ∃ p q, place readOrder a = .ok p ∧ place readOrder b = .ok q ∧ Before forward p q

/-- **A read walks items in the order of their positions.** -/
theorem Sound.rows_pairwise (hs : t.Sound) (hk : t.shape.key.partition.type ≠ .number) (w : TableRead) :
    (t.rows w).Pairwise (Precedes (t.shape.readOrder w.index) w.forward) := by
  rw [rows, List.pairwise_map]
  refine (hs.ordered_pairwise hk (parts_mem_readOrder t.shape w.index) w.forward).imp_of_mem ?_
  intro a b ha hb hab
  exact ⟨a.1, b.1, (mem_ordered.1 ha).2, (mem_ordered.1 hb).2, hab⟩

/-- What a read without a limit comes to that walks some items. -/
theorem read_of_ahead {w : TableRead} {items : List Item} (h : t.ahead w = .ok items) (hl : w.limit = none)
    (he : w.Evaluates items) : t.read w = .ok ⟨w.outputs items, w.rangeCount items, none⟩ := by
  rw [read_eq, h, ← Nat.zero_add (w.rangeCount items)]
  exact (TableRead.walk_unlimited hl).2 ⟨he, rfl⟩

/-! ## Which items have a position -/

theorem exists_place : ∀ {readOrder : List (Option KeyField)},
    (∀ k ∈ readOrder, ∃ s, part item k = .ok s) → ∃ p, place readOrder item = .ok p
  | [], _ => ⟨[], rfl⟩
  | k :: ks, h => by
    obtain ⟨⟨s, hs⟩, hks⟩ := List.forall_mem_cons.1 h
    obtain ⟨p, hp⟩ := exists_place hks
    exact ⟨s :: p, by rw [place_cons, hs, hp]; rfl⟩

theorem place_isOk_iff : (place readOrder item).isOk = true ↔ ∀ k ∈ readOrder, ∃ s, part item k = .ok s := by
  constructor
  · intro h k hk
    cases hp : place readOrder item with
    | error e => rw [hp] at h; cases h
    | ok p => exact part_ok_of_mem hp hk
  · intro h
    obtain ⟨p, hp⟩ := exists_place h
    rw [hp]
    rfl

/-- A key attribute of its type gives a part of a position. -/
theorem part_of_accepts {k : KeyField} {a : Attribute} (hf : item.find k.name = some a)
    (ha : k.type.accepts a = true) : ∃ s, part item (some k) = .ok s := by
  obtain ⟨s, hs⟩ := KeyField.ofAttribute?_ok ha k.name
  exact ⟨some s, by rw [part, KeyField.sortKey_ok.2 ⟨a, hf, ha, hs⟩]⟩

/-- A key attribute that gives a part of a position is there. -/
theorem has_of_part {k : KeyField} (h : ∃ s, part item (some k) = .ok s) : item.has k.name = true := by
  obtain ⟨s, hs⟩ := h
  obtain ⟨key, -, hkey⟩ := part_some_ok hs
  obtain ⟨a, ha, -, -⟩ := KeyField.sortKey_ok.1 hkey
  exact Fields.has_iff.2 ⟨a, ha⟩

/-- An item that has an address has both parts of the key of the table. -/
theorem parts_of_address {value : Attribute} {sort : Option SortKey} (h : t.address item = .ok (value, sort)) :
    ∀ k ∈ t.shape.key.parts, ∃ s, part item k = .ok s := by
  obtain ⟨hvalue, hsort⟩ := address_parts h
  obtain ⟨hfield, haccepts⟩ := KeyField.value_ok.1 hvalue
  exact List.forall_mem_cons.2 ⟨part_of_accepts hfield haccepts, List.forall_mem_singleton.2 ⟨sort, hsort⟩⟩

theorem Sound.parts (hs : t.Sound) (hi : item ∈ t.items) : ∀ k ∈ t.shape.key.parts, ∃ s, part item k = .ok s := by
  obtain ⟨_, ha⟩ := hs.exists_address hi
  exact parts_of_address ha

/-- **Every item has a position in the table.** -/
theorem Sound.place_table (hs : t.Sound) (hi : item ∈ t.items) :
    (place (t.shape.readOrder none) item).isOk = true :=
  place_isOk_iff.2 (hs.parts hi)

theorem accepts_of_checkIndexes (h : t.checkIndexes item = .ok ()) {index : IndexShape} (hi : index ∈ t.shape.indexes)
    {k : KeyField} (hk : k ∈ index.key.attributes) {a : Attribute} (ha : item.find k.name = some a) :
    k.type.accepts a = true := by
  have hcheck := forM_eq_ok.1 h k (List.mem_flatMap.2 ⟨index, hi, hk⟩)
  simp only [ha, KeyField.checkValue] at hcheck
  split at hcheck
  · assumption
  · cases hcheck

/-- **The items that have a position in an index** are those that have all its key attributes. -/
theorem Sound.place_index (hs : t.Sound) (hi : item ∈ t.items) {index : IndexShape} (hindex : index ∈ t.shape.indexes) :
    (place (t.shape.readOrder (some index)) item).isOk = true ↔
      ∀ k ∈ index.key.attributes, item.has k.name = true := by
  rw [place_isOk_iff]
  constructor
  · intro h k hk
    apply has_of_part
    apply h
    apply List.mem_append_left
    rcases List.mem_cons.1 hk with rfl | hk
    · exact List.mem_cons_self
    · show some k ∈ [some index.key.partition, index.key.sort]
      rw [Option.mem_toList.1 hk]
      exact List.mem_cons_of_mem _ List.mem_cons_self
  · intro h
    -- a key attribute that is there has its type
    have hpart : ∀ k ∈ index.key.attributes, ∃ s, part item (some k) = .ok s := fun k hk => by
      obtain ⟨a, ha⟩ := Fields.has_iff.1 (h k hk)
      exact part_of_accepts ha (accepts_of_checkIndexes (hs.indexes item hi) hindex hk ha)
    refine List.forall_mem_append.2 ⟨?_, hs.parts hi⟩
    show ∀ k ∈ [some index.key.partition, index.key.sort], ∃ s, part item k = .ok s
    rw [List.forall_mem_cons, List.forall_mem_singleton]
    refine ⟨hpart _ List.mem_cons_self, ?_⟩
    cases hsort : index.key.sort with
    | none => exact ⟨none, rfl⟩
    | some k => exact hpart k (by simp [KeyShape.attributes, hsort])

end Table

end RecordStore
