import Mathlib.Data.List.Basic
import RecordStore.Proofs.Table.Sound

/-!
# Tables as maps

A table is a map from addresses to items: **`Table.at?_put`** and **`Table.at?_delete`** say what is there after a put
and after a delete. Two addresses are the same if their partition values are and their sort keys compare equal.
**`Table.Sound.items_delete`** says which items a delete leaves, in the order that they had.
-/

namespace RecordStore.Table

open Position (comparePart)
open Std (TransCmp OrientedCmp)

variable {t t' : Table} {item key : Item} {old : Option Item} {value v : Attribute} {sort s : Option SortKey}

/-- The item at an address, if there is one. -/
def at? (t : Table) (address : Attribute × Option SortKey) : Option Item :=
  (t.partition address.1).find address.2

/-- Whether two addresses are the same. -/
def SameAddress (a b : Attribute × Option SortKey) : Prop :=
  a.1 = b.1 ∧ comparePart a.2 b.2 = .eq

instance (a b : Attribute × Option SortKey) : Decidable (SameAddress a b) :=
  inferInstanceAs (Decidable (_ ∧ _))

/-- A get finds what is at the address of its key. -/
theorem get_eq (h : t.address key = .ok (v, s)) : t.get key = .ok (t.at? (v, s)) := by
  rw [get, h]
  rfl

/-- What is found under a key is an item of the table. -/
theorem mem_of_get {key : Key} (h : t.get key = .ok (some item)) : item ∈ t.items := by
  cases haddress : t.address key with
  | error e =>
    rw [get, haddress] at h
    cases h
  | ok address =>
    rw [get_eq haddress] at h
    obtain ⟨k, hk, -⟩ := Partition.mem_of_find (Except.ok.inj h)
    exact mem_items.2 ⟨_, mem_partitions_of_mem hk, k, hk⟩

theorem partition_setPartition (t : Table) (value : Attribute) (p : Partition) (v : Attribute) :
    partition { t with partitions := setPartition value p t.partitions } v =
      if value = v then p else t.partition v := by
  rw [partition, find?_setPartition]
  by_cases h : value = v
  · rw [if_pos h, if_pos h]
  · rw [if_neg h, if_neg h]
    rfl

theorem partition_dropPartition (t : Table) (value v : Attribute) :
    partition { t with partitions := dropPartition value t.partitions } v =
      if value = v then [] else t.partition v := by
  rw [partition, find?_dropPartition]
  by_cases h : value = v
  · rw [if_pos h, if_pos h]
  · rw [if_neg h, if_neg h]
    rfl

/-- What is left of a partition is found under its value, also if that is nothing. -/
theorem partition_left (t : Table) (value : Attribute) (p : Partition) (v : Attribute) :
    partition { t with
      partitions := if p.isEmpty then dropPartition value t.partitions else setPartition value p t.partitions } v =
      if value = v then p else t.partition v := by
  cases p with
  | nil => exact partition_dropPartition t value v
  | cons entry p => exact partition_setPartition t value (entry :: p) v

/-- **What is at an address** is the item of the table whose address it is. -/
theorem Sound.at?_eq_some_iff (h : t.Sound) {b : Attribute × Option SortKey} :
    t.at? b = some item ↔ item ∈ t.items ∧ ∃ a, t.address item = .ok a ∧ SameAddress a b := by
  constructor
  · intro hat
    obtain ⟨k, hk, heq⟩ := Partition.mem_of_find hat
    obtain ⟨⟨sort, ha, hsort⟩, -, -⟩ := h.slot hk
    exact ⟨mem_items.2 ⟨_, mem_partitions_of_mem hk, k, hk⟩, _, ha, rfl,
      TransCmp.eq_trans (OrientedCmp.eq_symm hsort) heq⟩
  · rintro ⟨hi, ⟨v, s⟩, ha, hvalue, hsort⟩
    obtain ⟨entry, hentry, k, hk⟩ := mem_items.1 hi
    obtain ⟨s', ha', hk'⟩ := h.address entry hentry _ hk
    rw [ha] at ha'
    cases ha'
    have hpartition : t.partition b.1 = entry.2 := by
      rw [← hvalue]
      exact partition_eq_of_mem h.distinct hentry
    rw [at?, hpartition]
    exact (h.ascending entry hentry).find_of_mem hk (TransCmp.eq_trans hk' hsort)

/-! ## Puts -/

/-- A put is not refused if its item has an address and proper values for the keys of the indexes. -/
theorem exists_put {address : Attribute × Option SortKey} (ha : t.address item = .ok address)
    (hc : t.checkIndexes item = .ok ()) : ∃ t', t.put item = .ok (t.at? address, t') := by
  simp only [put, ha, hc, bind, Except.bind]
  exact ⟨_, rfl⟩

/-- A put answers what was at the address of its item. -/
theorem put_eq_at? (h : t.put item = .ok (old, t')) {address : Attribute × Option SortKey}
    (ha : t.address item = .ok address) : old = t.at? address := by
  obtain ⟨value, sort, ha', -, rfl, -⟩ := put_ok h
  rw [ha] at ha'
  cases ha'
  rfl

theorem put_shape (h : t.put item = .ok (old, t')) : t'.shape = t.shape := by
  obtain ⟨_, _, _, _, _, rfl⟩ := put_ok h
  rfl

/-- **After a put**, the item is at its address, and at all others what was there before. -/
theorem at?_put (h : t.put item = .ok (old, t')) {address : Attribute × Option SortKey}
    (ha : t.address item = .ok address) (b : Attribute × Option SortKey) :
    t'.at? b = if SameAddress address b then some item else t.at? b := by
  obtain ⟨value, sort, ha', -, -, rfl⟩ := put_ok h
  rw [ha] at ha'
  cases ha'
  by_cases hv : value = b.1
  · have hsame : SameAddress (value, sort) b ↔ comparePart sort b.2 = .eq := ⟨fun hb => hb.2, fun hb => ⟨hv, hb⟩⟩
    rw [at?, partition_setPartition, if_pos hv, Partition.find_insert, at?, ← hv]
    simp only [hsame]
  · have hsame : ¬ SameAddress (value, sort) b := fun hb => hv hb.1
    rw [at?, partition_setPartition, if_neg hv, if_neg hsame, at?]

/-- **After a put**, the item is found under its key, and under all other keys what was there before. -/
theorem get_put (h : t.put item = .ok (old, t')) {address : Attribute × Option SortKey}
    (ha : t.address item = .ok address) (hk : t.address key = .ok (v, s)) :
    t'.get key = .ok (if SameAddress address (v, s) then some item else t.at? (v, s)) := by
  have hk' : t'.address key = .ok (v, s) := by
    unfold Table.address at hk ⊢
    rw [put_shape h]
    exact hk
  rw [get_eq hk', at?_put h ha]

/-! ## Deletes -/

/-- A delete is not refused if its key has an address. -/
theorem exists_delete {address : Attribute × Option SortKey} (ha : t.address key = .ok address) :
    ∃ t', t.delete key = .ok (t.at? address, t') := by
  simp only [delete, ha, bind, Except.bind]
  exact ⟨_, rfl⟩

theorem delete_shape (h : t.delete key = .ok (old, t')) : t'.shape = t.shape := by
  obtain ⟨_, _, _, _, rfl⟩ := delete_ok h
  rfl

/-- **After a delete**, nothing is at the address of its key, and at all others what was there before. -/
theorem at?_delete (h : t.delete key = .ok (old, t')) {address : Attribute × Option SortKey}
    (ha : t.address key = .ok address) (b : Attribute × Option SortKey) :
    t'.at? b = if SameAddress address b then none else t.at? b := by
  obtain ⟨value, sort, ha', -, rfl⟩ := delete_ok h
  rw [ha] at ha'
  cases ha'
  by_cases hv : value = b.1
  · have hsame : SameAddress (value, sort) b ↔ comparePart sort b.2 = .eq := ⟨fun hb => hb.2, fun hb => ⟨hv, hb⟩⟩
    rw [at?, partition_left, if_pos hv, Partition.find_erase, at?, ← hv]
    simp only [hsame]
  · have hsame : ¬ SameAddress (value, sort) b := fun hb => hv hb.1
    rw [at?, partition_left, if_neg hv, if_neg hsame, at?]

/-! ## The items that a delete leaves -/

/-- Whether an item stands at an address. -/
def standsAt (t : Table) (address : Attribute × Option SortKey) (item : Item) : Bool :=
  match t.address item with
  | .ok other => SameAddress address other
  | .error _ => false

theorem flatMap_setPartition {β : Type} (f : Partition → List β) {p : Partition} :
    ∀ {ps : List (Attribute × Partition)}, (ps.map (·.1)).Nodup → value ∈ ps.map (·.1) →
      (setPartition value p ps).flatMap (fun entry => f entry.2) =
        ps.flatMap fun entry => f (if entry.1 = value then p else entry.2)
  | [], _, hv => by cases hv
  | (w, q) :: ps, hn, hv => by
    obtain ⟨hw, hn⟩ := List.nodup_cons.1 hn
    rw [setPartition]
    split
    · rename_i heq
      subst heq
      -- no later partition has the value
      have hrest : ∀ entry ∈ ps, f (if entry.1 = w then p else entry.2) = f entry.2 := fun entry hentry => by
        rw [if_neg fun heq => hw (List.mem_map.2 ⟨entry, hentry, heq⟩)]
      rw [List.flatMap_cons, List.flatMap_cons, if_pos rfl, List.flatMap_congr hrest]
    · rename_i hne
      have hv : value ∈ ps.map (·.1) := (List.mem_cons.1 hv).resolve_left (Ne.symm hne)
      rw [List.flatMap_cons, List.flatMap_cons, if_neg hne, flatMap_setPartition f hn hv]

theorem flatMap_dropPartition {β : Type} (f : Partition → List β) (hf : f [] = []) (value : Attribute) :
    ∀ ps : List (Attribute × Partition), (dropPartition value ps).flatMap (fun entry => f entry.2) =
      ps.flatMap fun entry => f (if entry.1 = value then [] else entry.2)
  | [] => rfl
  | entry :: ps => by
    have ih := flatMap_dropPartition f hf value ps
    rw [dropPartition] at ih ⊢
    by_cases h : entry.1 = value
    · rw [List.filter_cons_of_neg (by simp [h]), ih, List.flatMap_cons, if_pos h, hf, List.nil_append]
    · rw [List.filter_cons_of_pos (by simp [h]), List.flatMap_cons, ih, List.flatMap_cons, if_neg h]

/-- What is left of a partition takes its place among the items, also if that is nothing. -/
theorem items_left (hn : (t.partitions.map (·.1)).Nodup) {p : Partition} (hp : p ≠ [] → t.partition value ≠ []) :
    items { t with
      partitions := if p.isEmpty then dropPartition value t.partitions else setPartition value p t.partitions } =
      t.partitions.flatMap fun entry => (if entry.1 = value then p else entry.2).map (·.2) := by
  cases p with
  | nil => exact flatMap_dropPartition (List.map (·.2)) rfl value t.partitions
  | cons entry p =>
    have hmem := mem_partitions_of_ne_nil (hp (List.cons_ne_nil entry p))
    exact flatMap_setPartition (List.map (·.2)) hn (List.mem_map_of_mem hmem)

/-- **The items after a delete** are those before that do not stand at the address of the key. -/
theorem Sound.items_delete (h : t.Sound) (hd : t.delete key = .ok (old, t')) {address : Attribute × Option SortKey}
    (ha : t.address key = .ok address) : t'.items = t.items.filter fun item => !t.standsAt address item := by
  obtain ⟨value, sort, ha', -, rfl⟩ := delete_ok hd
  obtain rfl : (value, sort) = address := Except.ok.inj (ha'.symm.trans ha)
  have hleft : (t.partition value).erase sort ≠ [] → t.partition value ≠ [] := by
    intro hne hnil
    rw [hnil] at hne
    exact hne rfl
  rw [items_left h.distinct hleft, items, List.filter_flatMap]
  refine List.flatMap_congr fun entry hentry => ?_
  -- an item stands at the address if its partition and its slot are those of the address
  have hslot : ∀ slot ∈ entry.2, t.standsAt (value, sort) slot.2 =
      decide (value = entry.1 ∧ comparePart slot.1 sort = .eq) := fun slot hs => by
    obtain ⟨s, haddress, hsame⟩ := h.address entry hentry slot hs
    rw [standsAt, haddress]
    refine decide_eq_decide.2 (and_congr_right fun _ => ⟨fun heq => ?_, fun heq => ?_⟩)
    · exact TransCmp.eq_trans hsame (OrientedCmp.eq_symm heq)
    · exact TransCmp.eq_trans (OrientedCmp.eq_symm heq) hsame
  rw [List.filter_map]
  by_cases hv : entry.1 = value
  · have hpartition : t.partition value = entry.2 := hv ▸ partition_eq_of_mem h.distinct hentry
    rw [if_pos hv, hpartition, Partition.erase]
    refine congrArg _ (List.filter_congr fun slot hs => ?_)
    rw [Function.comp_apply, hslot slot hs]
    simp [hv, Partition.same]
  · rw [if_neg hv, List.filter_eq_self.2 fun slot hs => ?_]
    rw [Function.comp_apply, hslot slot hs]
    simp [Ne.symm hv]

end RecordStore.Table
