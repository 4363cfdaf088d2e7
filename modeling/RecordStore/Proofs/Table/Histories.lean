import Mathlib.Data.List.Induction
import RecordStore.Proofs.Table.Contents

/-!
# Tables after any calls

A table after any puts, gets and deletes is the map that `lastWritten` describes: at an address is what the last call
that wrote there left. Which calls write is up to the shape of the table and to their items and keys, not to what the
table holds.

A call changes what is at an address only by what it leaves there (`at?_call`), and its answer is what was at its own
address before (`call_answer`). So it is after any calls (`at?_after`), and **`after_eq_lastWritten`** says what the
table answers then, how many items it holds and where they stand.
-/

namespace RecordStore.Table

open Position (comparePart)
open RecordStore.Partition (Ascending)

/-- Where an item is in a table: the value of its partition key, and its sort key if the table has one. -/
abbrev Address := Attribute × Option SortKey

/-! ## Calls -/

/-- A call on a table. -/
inductive Call where
  | put (item : Item)
  | get (key : Key)
  | delete (key : Key)

/-- The answer of a call and the table after it. A call that is refused leaves the table as it is. -/
def call (t : Table) : Call → Except TableError (Option Item) × Table
  | .put item =>
    match t.put item with
    | .ok (old, t') => (.ok old, t')
    | .error e => (.error e, t)
  | .get key => (t.get key, t)
  | .delete key =>
    match t.delete key with
    | .ok (old, t') => (.ok old, t')
    | .error e => (.error e, t)

/-- The table after some calls, one after the other. -/
def after (t : Table) (calls : List Call) : Table :=
  calls.foldl (fun t c => (t.call c).2) t

namespace Call

/-- The address that a call of a table of some shape is about; why the call is refused, if it is. -/
def address (shape : TableShape) : Call → Except TableError Address
  | .put item => do
    let address ← (empty shape).address item
    (empty shape).checkIndexes item
    .ok address
  | .get key => (empty shape).address key
  | .delete key => (empty shape).address key

/-- What a call writes at its address: a put its item, a delete that there is none, and a get nothing at all. -/
def written : Call → Option (Option Item)
  | .put item => some (some item)
  | .get _ => none
  | .delete _ => some none

/-- What a call leaves at an address, if it writes there. -/
def leaves (shape : TableShape) (b : Address) (c : Call) : Option (Option Item) :=
  match c.address shape with
  | .ok address => if SameAddress address b then c.written else none
  | .error _ => none

end Call

/-- What the last of some calls that wrote at an address left there; nothing, if none did. -/
def lastWritten (shape : TableShape) (calls : List Call) (b : Address) : Option Item :=
  (calls.reverse.findSome? fun c => c.leaves shape b).join

variable {t : Table} {shape : TableShape} {calls : List Call} {c : Call} {b : Address}

theorem after_concat (t : Table) (calls : List Call) (c : Call) :
    t.after (calls ++ [c]) = ((t.after calls).call c).2 := by
  rw [after, List.foldl_append]
  rfl

/-- After one more call there is what it left, or what was there before. -/
theorem lastWritten_concat (shape : TableShape) (calls : List Call) (c : Call) (b : Address) :
    lastWritten shape (calls ++ [c]) b = (c.leaves shape b).getD (lastWritten shape calls b) := by
  rw [lastWritten, List.reverse_concat, List.findSome?_cons]
  cases c.leaves shape b with
  | none => rfl
  | some left => rfl

/-! ## One call -/

/-- What a call does: it answers what is at its address and leaves there what it writes, or it is refused. -/
theorem call_cases (t : Table) (c : Call) :
    (∃ e, c.address t.shape = .error e ∧ t.call c = (.error e, t)) ∨
    ∃ address, c.address t.shape = .ok address ∧ (t.call c).1 = .ok (t.at? address) ∧
      ∀ b, (t.call c).2.at? b = if SameAddress address b then c.written.getD (t.at? b) else t.at? b := by
  cases c with
  | put item =>
    -- only the shape of a table is looked at for the address
    change (∃ e, (do let address ← t.address item; t.checkIndexes item; .ok address) = .error e ∧ _) ∨
      ∃ address, (do let address ← t.address item; t.checkIndexes item; .ok address) = .ok address ∧ _
    cases ha : t.address item with
    | error e =>
      left
      refine ⟨e, rfl, ?_⟩
      simp only [call, put, ha, bind, Except.bind]
    | ok address =>
      cases hc : t.checkIndexes item with
      | error e =>
        left
        refine ⟨e, rfl, ?_⟩
        simp only [call, put, ha, hc, bind, Except.bind]
      | ok u =>
        right
        obtain ⟨t', hput⟩ := exists_put ha hc
        refine ⟨address, rfl, ?_, ?_⟩
        · simp only [call, hput]
        · intro b
          simp only [call, hput, at?_put hput ha]
          rfl
  | get key =>
    change (∃ e, t.address key = .error e ∧ _) ∨ ∃ address, t.address key = .ok address ∧ _
    cases ha : t.address key with
    | error e =>
      left
      refine ⟨e, rfl, ?_⟩
      simp only [call, get, ha, bind, Except.bind]
    | ok address =>
      right
      refine ⟨address, rfl, get_eq ha, ?_⟩
      intro b
      simp only [call, Call.written, Option.getD_none, ite_self]
  | delete key =>
    change (∃ e, t.address key = .error e ∧ _) ∨ ∃ address, t.address key = .ok address ∧ _
    cases ha : t.address key with
    | error e =>
      left
      refine ⟨e, rfl, ?_⟩
      simp only [call, delete, ha, bind, Except.bind]
    | ok address =>
      right
      obtain ⟨t', hdelete⟩ := exists_delete ha
      refine ⟨address, rfl, ?_, ?_⟩
      · simp only [call, hdelete]
      · intro b
        simp only [call, hdelete, at?_delete hdelete ha]
        rfl

/-- **The answer of a call** is what is at its address, if it is not refused. -/
theorem call_answer (t : Table) (c : Call) : (t.call c).1 = (c.address t.shape).map t.at? := by
  rcases call_cases t c with ⟨e, ha, hcall⟩ | ⟨address, ha, hcall, -⟩
  · rw [ha, hcall]
    rfl
  · rw [ha, hcall]
    rfl

/-- **A call that is refused** changes nothing. -/
theorem call_refused {e : TableError} (h : (t.call c).1 = .error e) : (t.call c).2 = t := by
  rcases call_cases t c with ⟨e', -, hcall⟩ | ⟨address, -, hcall, -⟩
  · rw [hcall]
  · rw [hcall] at h
    cases h

/-- **After a call** there is at an address what the call left there, or what was there before. -/
theorem at?_call (t : Table) (c : Call) (b : Address) : (t.call c).2.at? b = (c.leaves t.shape b).getD (t.at? b) := by
  rcases call_cases t c with ⟨e, ha, hcall⟩ | ⟨address, ha, -, hcall⟩
  · rw [hcall, Call.leaves, ha]
    rfl
  · rw [hcall, Call.leaves, ha]
    by_cases hb : SameAddress address b
    · simp only [hb, if_true]
    · simp only [hb, if_false]
      rfl

/-- A table that is reached is reached after one more call. -/
theorem Reached.call (h : t.Reached shape) (ho : ∀ item, c = .put item → Fields.Ordered item) :
    Reached shape (t.call c).2 := by
  cases c with
  | put item =>
    cases hput : t.put item with
    | error e =>
      simp only [Table.call, hput]
      exact h
    | ok result =>
      simp only [Table.call, hput]
      exact h.put (ho item rfl) hput
  | get key => exact h
  | delete key =>
    cases hdelete : t.delete key with
    | error e =>
      simp only [Table.call, hdelete]
      exact h
    | ok result =>
      simp only [Table.call, hdelete]
      exact h.delete hdelete

/-! ## Any calls -/

/-- The table after any calls is one that is reached. -/
theorem reached_after (shape : TableShape) (calls : List Call) (ho : ∀ item, .put item ∈ calls → Fields.Ordered item) :
    Reached shape ((empty shape).after calls) := by
  induction calls using List.reverseRecOn with
  | nil => exact .empty
  | append_singleton calls c ih =>
    rw [after_concat]
    have hreached := ih fun item hitem => ho item (List.mem_append_left _ hitem)
    refine hreached.call ?_
    rintro item rfl
    exact ho item (List.mem_append_right _ (List.mem_singleton.2 rfl))

/-- **After any calls** there is at an address what the last call that wrote there left. -/
theorem at?_after (shape : TableShape) (calls : List Call) (ho : ∀ item, .put item ∈ calls → Fields.Ordered item)
    (b : Address) : ((empty shape).after calls).at? b = lastWritten shape calls b := by
  induction calls using List.reverseRecOn with
  | nil => rfl
  | append_singleton calls c ih =>
    have ho' : ∀ item, .put item ∈ calls → Fields.Ordered item := fun item hitem =>
      ho item (List.mem_append_left _ hitem)
    rw [after_concat, at?_call, (reached_after shape calls ho').shape_eq, ih ho', lastWritten_concat]

/-! ## Counting -/

/-- The addresses of the items of a table. -/
def addresses (t : Table) : List Address :=
  t.partitions.flatMap fun entry => entry.2.map fun slot => (entry.1, slot.1)

/-- A table holds as many items as there are addresses of items. -/
theorem length_addresses (t : Table) : t.addresses.length = t.count := by
  simp only [addresses, count, items, List.length_flatMap, List.length_map]

/-- No two items of a table in order are at the same address. -/
theorem Sound.addresses_apart (h : t.Sound) : t.addresses.Pairwise fun a b => ¬ SameAddress a b := by
  refine List.pairwise_flatMap.2 ⟨?_, ?_⟩
  · intro entry hentry
    refine List.pairwise_map.2 ((h.ascending entry hentry).imp ?_)
    intro a b hlt hsame
    rw [hsame.2] at hlt
    cases hlt
  · refine (List.pairwise_map.1 h.distinct).imp ?_
    intro entry other hne x hx y hy hsame
    obtain ⟨slot, -, rfl⟩ := List.mem_map.1 hx
    obtain ⟨slot', -, rfl⟩ := List.mem_map.1 hy
    exact hne hsame.1

/-- There is an item just at the addresses of the items. -/
theorem Sound.isSome_at? (h : t.Sound) (b : Address) : (t.at? b).isSome ↔ ∃ a ∈ t.addresses, SameAddress a b := by
  constructor
  · intro hsome
    obtain ⟨item, hitem⟩ := Option.isSome_iff_exists.1 hsome
    obtain ⟨k, hk, heq⟩ := Partition.mem_of_find hitem
    exact ⟨(b.1, k), List.mem_flatMap.2 ⟨_, mem_partitions_of_mem hk, List.mem_map.2 ⟨_, hk, rfl⟩⟩, rfl, heq⟩
  · rintro ⟨a, ha, hvalue, hsort⟩
    obtain ⟨entry, hentry, ha⟩ := List.mem_flatMap.1 ha
    obtain ⟨slot, hslot, rfl⟩ := List.mem_map.1 ha
    have hpartition : t.partition b.1 = entry.2 := by
      rw [← hvalue]
      exact partition_eq_of_mem h.distinct hentry
    have hfound := (h.ascending entry hentry).find_of_mem hslot hsort
    rw [at?, hpartition, hfound]
    rfl

/-! ## The map -/

/--
**A table is a finite map.** After any calls on an empty table, a call answers what was last written at its address, and
is refused only for its own item or key; a call that is refused changes nothing. The table holds as many items as there
are addresses where something is. Every item stands in the partition and at the sort key of its own attributes, and no
partition is empty.
-/
theorem after_eq_lastWritten (shape : TableShape) (calls : List Call)
    (ho : ∀ item, .put item ∈ calls → Fields.Ordered item) :
    let t := (empty shape).after calls
    (∀ c, (t.call c).1 = (c.address shape).map (lastWritten shape calls)) ∧
    (∀ c e, (t.call c).1 = .error e → (t.call c).2 = t) ∧
    (∃ live : List Address, t.count = live.length ∧ live.Pairwise (fun a b => ¬ SameAddress a b) ∧
      ∀ b, (lastWritten shape calls b).isSome ↔ ∃ a ∈ live, SameAddress a b) ∧
    (∀ entry ∈ t.partitions, ∀ slot ∈ entry.2, ∃ sort, (empty shape).address slot.2 = .ok (entry.1, sort) ∧
      comparePart slot.1 sort = .eq) ∧
    ∀ entry ∈ t.partitions, entry.2 ≠ [] := by
  intro t
  have hreached : t.Reached shape := reached_after shape calls ho
  have hfound : t.at? = lastWritten shape calls := funext fun b => at?_after shape calls ho b
  refine ⟨?_, ?_, ⟨t.addresses, t.length_addresses.symm, hreached.sound.addresses_apart, ?_⟩, ?_, ?_⟩
  · intro c
    rw [call_answer, hreached.shape_eq, hfound]
  · intro c e h
    exact call_refused h
  · intro b
    rw [← hfound]
    exact hreached.sound.isSome_at? b
  · intro entry hentry slot hslot
    obtain ⟨sort, haddress, heq⟩ := hreached.sound.address entry hentry slot hslot
    refine ⟨sort, ?_, heq⟩
    -- only the shape of a table is looked at for the address
    rw [← hreached.shape_eq]
    exact haddress
  · exact hreached.sound.nonempty

/-- A number written in another way is the same sort key, and a put without a sort key is refused. -/
theorem after_eq_lastWritten_spelling :
    let shape : TableShape := ⟨"t", ⟨⟨"p", .text⟩, some ⟨"n", .number⟩⟩, []⟩
    let first : Item := [("n", .number "1"), ("p", .text "a")]
    let second : Item := [("n", .number "1.0"), ("p", .text "a"), ("v", .null true)]
    let calls : List Call := [.put first, .put second, .put [("p", .text "a")]]
    (∀ item, .put item ∈ calls → Fields.Ordered item) ∧
      (((empty shape).after calls).call (.delete [("n", .number "10e-1"), ("p", .text "a")])).1 =
        .ok (some second) := by
  intro shape first second calls
  have ho : ∀ item, .put item ∈ calls → Fields.Ordered item := by
    intro item hitem
    simp only [calls, List.mem_cons, Call.put.injEq, List.not_mem_nil, or_false] at hitem
    rcases hitem with rfl | rfl | rfl
    · exact List.pairwise_map.1 (show ["n", "p"].Pairwise (· < ·) by decide)
    · exact List.pairwise_map.1 (show ["n", "p", "v"].Pairwise (· < ·) by decide)
    · exact List.pairwise_singleton _ _
  refine ⟨ho, ?_⟩
  rw [(after_eq_lastWritten shape calls ho).1]
  decide

end RecordStore.Table
