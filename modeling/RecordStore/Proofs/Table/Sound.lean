import RecordStore.Proofs.Fields
import RecordStore.Proofs.Table.Partition

/-!
# Tables in order

`Table.Sound` is what puts and deletes keep: the partitions have distinct values, none of them is empty, each is in
ascending order, and every item stands in the partition and at the sort key that its own attributes give.

**`Table.Reached.sound`**: every table that is reached from an empty one is in order. `Table.Sound.items_apart`: no two
of its items have the same key.
-/

namespace RecordStore.Table

open Position (comparePart)
open RecordStore.Partition (Ascending)
open Std (TransCmp OrientedCmp ReflCmp)

variable {t t' : Table} {item key : Item} {old : Option Item} {value v : Attribute} {sort : Option SortKey}

/-! ## Partitions by value -/

theorem find?_setPartition (value : Attribute) (p : Partition) (v : Attribute) :
    ∀ ps : List (Attribute × Partition),
      (setPartition value p ps).find? (fun entry => entry.1 = v) =
        if value = v then some (value, p) else ps.find? fun entry => entry.1 = v
  | [] => by by_cases h : value = v <;> simp [setPartition, h]
  | (w, q) :: ps => by
    rw [setPartition]
    split
    · rename_i hw
      subst hw
      by_cases h : w = v <;> simp [h]
    · rename_i hw
      rw [List.find?_cons, List.find?_cons, find?_setPartition value p v ps]
      by_cases h : w = v
      · have : value ≠ v := fun e => hw (h.trans e.symm)
        simp [h, this]
      · simp [h]

theorem find?_dropPartition (value v : Attribute) (ps : List (Attribute × Partition)) :
    (dropPartition value ps).find? (fun entry => entry.1 = v) =
      if value = v then none else ps.find? fun entry => entry.1 = v := by
  rw [dropPartition, List.find?_filter]
  by_cases h : value = v
  · subst h; simp
  · rw [if_neg h]
    congr 1
    funext entry
    by_cases he : entry.1 = v
    · simp [he, Ne.symm h]
    · simp [he]

theorem mem_setPartition {p : Partition} {entry : Attribute × Partition} : ∀ {ps : List (Attribute × Partition)},
    entry ∈ setPartition value p ps → entry = (value, p) ∨ entry ∈ ps
  | [], h => .inl (List.mem_singleton.1 h)
  | (w, q) :: ps, h => by
    rw [setPartition] at h
    split at h
    · rename_i hw
      rcases List.mem_cons.1 h with h | h
      · exact .inl (hw ▸ h)
      · exact .inr (List.mem_cons_of_mem _ h)
    · rcases List.mem_cons.1 h with h | h
      · exact .inr (h ▸ List.mem_cons_self)
      · exact (mem_setPartition h).imp_right (List.mem_cons_of_mem _)

theorem mem_values_setPartition {p : Partition} {ps : List (Attribute × Partition)}
    (h : v ∈ (setPartition value p ps).map (·.1)) : v = value ∨ v ∈ ps.map (·.1) := by
  obtain ⟨entry, he, rfl⟩ := List.mem_map.1 h
  rcases mem_setPartition he with rfl | he
  · exact .inl rfl
  · exact .inr (List.mem_map_of_mem he)

theorem nodup_setPartition {p : Partition} : ∀ {ps : List (Attribute × Partition)}, (ps.map (·.1)).Nodup →
    ((setPartition value p ps).map (·.1)).Nodup
  | [], _ => by simp [setPartition]
  | (w, q) :: ps, h => by
    rw [List.map_cons, List.nodup_cons] at h
    rw [setPartition]
    split
    · rwa [List.map_cons, List.nodup_cons]
    · rename_i hw
      rw [List.map_cons, List.nodup_cons]
      exact ⟨fun hm => (mem_values_setPartition hm).elim hw h.1, nodup_setPartition h.2⟩

/-- The partition of a value is one of the table, unless it is empty. -/
theorem mem_partitions_of_ne_nil (h : t.partition value ≠ []) : (value, t.partition value) ∈ t.partitions := by
  rw [partition] at h ⊢
  split at h
  · rename_i entry hf
    have hv : entry.1 = value := by simpa using List.find?_some hf
    exact hv ▸ List.mem_of_find?_eq_some hf
  · exact absurd rfl h

/-- A partition is that of its value. -/
theorem partition_eq_of_mem {p : Partition} (hn : (t.partitions.map (·.1)).Nodup) (h : (value, p) ∈ t.partitions) :
    t.partition value = p := by
  have : ∀ {ps : List (Attribute × Partition)}, (ps.map (·.1)).Nodup → (value, p) ∈ ps →
      ps.find? (fun entry => entry.1 = value) = some (value, p) := by
    intro ps hn h
    induction ps with
    | nil => cases h
    | cons entry ps ih =>
      obtain ⟨hne, hn⟩ := List.nodup_cons.1 hn
      rcases List.mem_cons.1 h with rfl | h
      · simp
      · have : entry.1 ≠ value := fun e => hne (List.mem_map.2 ⟨_, h, e.symm⟩)
        simp [this, ih hn h]
  rw [partition, this hn h]

theorem mem_items : item ∈ t.items ↔ ∃ entry ∈ t.partitions, ∃ s, (s, item) ∈ entry.2 := by
  simp only [items, List.mem_flatMap, List.mem_map]
  refine ⟨fun ⟨entry, he, slot, hs, e⟩ => ⟨entry, he, slot.1, e ▸ hs⟩, ?_⟩
  rintro ⟨entry, he, s, hs⟩
  exact ⟨entry, he, _, hs, rfl⟩

/-! ## Steps -/

/-- What a put does. -/
theorem put_ok (h : t.put item = .ok (old, t')) : ∃ value sort, t.address item = .ok (value, sort) ∧
    t.checkIndexes item = .ok () ∧ old = (t.partition value).find sort ∧
    t' = { t with partitions := setPartition value ((t.partition value).insert sort item) t.partitions } := by
  unfold put at h
  cases ha : t.address item with
  | error e => rw [ha] at h; cases h
  | ok a =>
    rw [ha] at h
    cases hc : t.checkIndexes item with
    | error e => simp only [bind, Except.bind, hc] at h; cases h
    | ok u =>
      simp only [bind, Except.bind, hc] at h
      cases h
      exact ⟨a.1, a.2, rfl, rfl, rfl, rfl⟩

/-- What a delete does. -/
theorem delete_ok (h : t.delete key = .ok (old, t')) : ∃ value sort, t.address key = .ok (value, sort) ∧
    old = (t.partition value).find sort ∧
    t' = { t with partitions :=
      if ((t.partition value).erase sort).isEmpty then dropPartition value t.partitions
      else setPartition value ((t.partition value).erase sort) t.partitions } := by
  unfold delete at h
  cases ha : t.address key with
  | error e => rw [ha] at h; cases h
  | ok a =>
    rw [ha] at h
    cases h
    exact ⟨a.1, a.2, rfl, rfl, rfl⟩

/-! ## The invariant -/

/-- A table in order. -/
structure Sound (t : Table) : Prop where
  distinct : (t.partitions.map (·.1)).Nodup
  nonempty : ∀ entry ∈ t.partitions, entry.2 ≠ []
  ascending : ∀ entry ∈ t.partitions, Ascending entry.2
  address : ∀ entry ∈ t.partitions, ∀ slot ∈ entry.2,
    ∃ sort, t.address slot.2 = .ok (entry.1, sort) ∧ comparePart slot.1 sort = .eq
  ordered : ∀ item ∈ t.items, Fields.Ordered item
  indexes : ∀ item ∈ t.items, t.checkIndexes item = .ok ()

theorem empty_sound (shape : TableShape) : (empty shape).Sound where
  distinct := List.nodup_nil
  nonempty := nofun
  ascending := nofun
  address := nofun
  ordered := nofun
  indexes := nofun

/-- Every item of a table in order has an address. -/
theorem Sound.exists_address (h : t.Sound) (hi : item ∈ t.items) : ∃ address, t.address item = .ok address := by
  obtain ⟨entry, hentry, s, hslot⟩ := mem_items.1 hi
  obtain ⟨sort, haddress, -⟩ := h.address entry hentry _ hslot
  exact ⟨_, haddress⟩

theorem Sound.partition_ascending (h : t.Sound) (value : Attribute) : Ascending (t.partition value) := by
  by_cases hp : t.partition value = []
  · rw [hp]; exact List.Pairwise.nil
  · exact h.ascending _ (mem_partitions_of_ne_nil hp)

theorem mem_partitions_of_mem {slot : Option SortKey × Item} (h : slot ∈ t.partition value) :
    (value, t.partition value) ∈ t.partitions :=
  mem_partitions_of_ne_nil (List.ne_nil_of_mem h)

/-- A table stays in order when one of its partitions is changed to one in order, with items that stand there. -/
theorem Sound.setPartition (h : t.Sound) {p : Partition} (hne : p ≠ []) (hp : Ascending p)
    (hslots : ∀ slot ∈ p, (∃ sort, t.address slot.2 = .ok (value, sort) ∧ comparePart slot.1 sort = .eq) ∧
      Fields.Ordered slot.2 ∧ t.checkIndexes slot.2 = .ok ()) :
    Sound { t with partitions := Table.setPartition value p t.partitions } where
  distinct := nodup_setPartition h.distinct
  nonempty entry he := by
    rcases mem_setPartition he with rfl | he
    · exact hne
    · exact h.nonempty entry he
  ascending entry he := by
    rcases mem_setPartition he with rfl | he
    · exact hp
    · exact h.ascending entry he
  address entry he slot hs := by
    rcases mem_setPartition he with rfl | he
    · exact (hslots slot hs).1
    · exact h.address entry he slot hs
  ordered item hi := by
    obtain ⟨entry, he, s, hs⟩ := mem_items.1 hi
    rcases mem_setPartition he with rfl | he
    · exact (hslots _ hs).2.1
    · exact h.ordered item (mem_items.2 ⟨entry, he, s, hs⟩)
  indexes item hi := by
    obtain ⟨entry, he, s, hs⟩ := mem_items.1 hi
    rcases mem_setPartition he with rfl | he
    · exact (hslots _ hs).2.2
    · exact h.indexes item (mem_items.2 ⟨entry, he, s, hs⟩)

/-- What is known of an item in a partition. -/
theorem Sound.slot (h : t.Sound) {slot : Option SortKey × Item} (hs : slot ∈ t.partition value) :
    (∃ sort, t.address slot.2 = .ok (value, sort) ∧ comparePart slot.1 sort = .eq) ∧
      Fields.Ordered slot.2 ∧ t.checkIndexes slot.2 = .ok () := by
  have hm := mem_partitions_of_mem hs
  have hi : slot.2 ∈ t.items := mem_items.2 ⟨_, hm, slot.1, hs⟩
  exact ⟨h.address _ hm slot hs, h.ordered _ hi, h.indexes _ hi⟩

theorem Sound.put (h : t.Sound) (ho : Fields.Ordered item) (hp : t.put item = .ok (old, t')) : t'.Sound := by
  obtain ⟨value, sort, ha, hc, -, rfl⟩ := put_ok hp
  refine h.setPartition (Partition.insert_ne_nil _ _ _) (h.partition_ascending value).insert fun slot hs => ?_
  rcases Partition.mem_insert hs with rfl | ⟨hi, he, -⟩ | hs
  · exact ⟨⟨sort, ha, ReflCmp.compare_self⟩, ho, hc⟩
  · rw [hi]
    exact ⟨⟨sort, ha, OrientedCmp.eq_symm he⟩, ho, hc⟩
  · exact h.slot hs

theorem Sound.delete (h : t.Sound) (hd : t.delete key = .ok (old, t')) : t'.Sound := by
  obtain ⟨value, sort, ha, -, rfl⟩ := delete_ok hd
  split
  · -- the partition is gone
    have hm : ∀ {entry}, entry ∈ dropPartition value t.partitions → entry ∈ t.partitions :=
      fun he => (List.mem_filter.1 he).1
    have hi : ∀ {item}, item ∈ Table.items { t with partitions := dropPartition value t.partitions } → item ∈ t.items :=
      fun hi => by
        obtain ⟨entry, he, s, hs⟩ := mem_items.1 hi
        exact mem_items.2 ⟨entry, hm he, s, hs⟩
    exact ⟨h.distinct.sublist (List.filter_sublist.map _), fun e he => h.nonempty e (hm he),
      fun e he => h.ascending e (hm he), fun e he => h.address e (hm he), fun i hi' => h.ordered i (hi hi'),
      fun i hi' => h.indexes i (hi hi')⟩
  · rename_i hne
    refine h.setPartition (by simpa using hne) ((h.partition_ascending value).erase sort) fun slot hs => ?_
    exact h.slot (Partition.mem_of_mem_erase hs)

/-- The tables that puts and deletes make of an empty one. -/
inductive Reached (shape : TableShape) : Table → Prop
  | empty : Reached shape (empty shape)
  | put {t t' : Table} {item : Item} {old : Option Item} :
      Reached shape t → Fields.Ordered item → t.put item = .ok (old, t') → Reached shape t'
  | delete {t t' : Table} {key : Key} {old : Option Item} :
      Reached shape t → t.delete key = .ok (old, t') → Reached shape t'

/-- **Every table that is reached is in order.** -/
theorem Reached.sound {shape : TableShape} (h : Reached shape t) : t.Sound := by
  induction h with
  | empty => exact empty_sound shape
  | put _ ho hp ih => exact ih.put ho hp
  | delete _ hd ih => exact ih.delete hd

theorem Reached.shape_eq {shape : TableShape} (h : Reached shape t) : t.shape = shape := by
  induction h with
  | empty => rfl
  | put _ _ hp ih =>
    obtain ⟨_, _, _, _, _, rfl⟩ := put_ok hp
    exact ih
  | delete _ hd ih =>
    obtain ⟨_, _, _, _, rfl⟩ := delete_ok hd
    exact ih

/-! ## Distinct keys -/

/-- Two items with different keys. -/
def Apart (t : Table) (a b : Item) : Prop :=
  ∀ {va sa vb sb}, t.address a = .ok (va, sa) → t.address b = .ok (vb, sb) → va ≠ vb ∨ comparePart sa sb ≠ .eq

/-- **No two items have the same key.** -/
theorem Sound.items_apart (h : t.Sound) : t.items.Pairwise t.Apart := by
  refine List.pairwise_flatMap.2 ⟨fun entry he => ?_, ?_⟩
  · rw [List.pairwise_map]
    refine (h.ascending entry he).imp_of_mem fun {a b} ha hb hlt va sa vb sb ha' hb' => .inr fun heq => ?_
    obtain ⟨s, hs, hes⟩ := h.address entry he a ha
    obtain ⟨s', hs', hes'⟩ := h.address entry he b hb
    rw [hs] at ha'
    rw [hs'] at hb'
    cases ha'
    cases hb'
    have : comparePart a.1 b.1 = .eq := TransCmp.eq_trans (TransCmp.eq_trans hes heq) (OrientedCmp.eq_symm hes')
    rw [this] at hlt
    cases hlt
  · refine (List.pairwise_map.1 h.distinct).imp_of_mem fun {a b} ha hb hne x hx y hy va sa vb sb hx' hy' => .inl ?_
    obtain ⟨slot, hs, rfl⟩ := List.mem_map.1 hx
    obtain ⟨slot', hs', rfl⟩ := List.mem_map.1 hy
    obtain ⟨s, hs, -⟩ := h.address a ha slot hs
    obtain ⟨s', hs', -⟩ := h.address b hb slot' hs'
    rw [hs] at hx'
    rw [hs'] at hy'
    cases hx'
    cases hy'
    exact hne

end RecordStore.Table
