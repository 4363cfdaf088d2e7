import RecordStore.Proofs.Collection.Mixing
import RecordStore.Proofs.Memory.Batches

/-!
# Batches of deletes

Ids go out in batches, and what the store leaves undone of a batch is sent again. `Collection.Without done s'` says that
the store is as it was but for the records with the ids `done`, which are gone. Every call of the store takes some
beginning of what is still to do (`Without.batchWrite`), hence so do the rounds of a batch and the batches one
after the other, whatever is planned to fail or to be left undone.

**`Collection.deleteMany_takes`**: records with a beginning of the ids are gone, and with all of them just if the
outcome says so; nothing is called for ids of which one is blank, and the store is called at most as often for each
batch (`Collection.CallsEach`) as it may be sent.
-/

namespace RecordStore

/-! ## Pieces of lists -/

section Pieces

variable {α : Type} {size : Nat}

theorem flatten_cut (hsize : 0 < size) : ∀ (n : Nat) (xs : List α), xs.length ≤ n →
    (chunksOf.cut size n xs).flatten = xs
  | 0, [], _ => rfl
  | _ + 1, [], _ => rfl
  | n + 1, x :: xs, h => by
    have hdrop : ((x :: xs).drop size).length ≤ n := by
      rw [List.length_drop]
      omega
    rw [chunksOf.cut, List.flatten_cons, flatten_cut hsize n _ hdrop, List.take_append_drop]

/-- The pieces of a list are the list. -/
theorem flatten_chunksOf (hsize : 0 < size) (xs : List α) : (chunksOf size xs).flatten = xs :=
  flatten_cut hsize xs.length xs (Nat.le_refl _)

theorem length_le_of_mem_cut : ∀ {n : Nat} {xs : List α}, ∀ piece ∈ chunksOf.cut size n xs, piece.length ≤ size
  | 0, _, _, h => by cases h
  | _ + 1, [], _, h => by cases h
  | _ + 1, _ :: _, _, h => by
    rcases List.mem_cons.1 h with rfl | h
    · exact List.length_take_le _ _
    · exact length_le_of_mem_cut _ h

/-- There are no more pieces than are needed. -/
theorem length_cut_mul_lt (hsize : 0 < size) : ∀ (n : Nat) (xs : List α),
    (chunksOf.cut size n xs).length * size < xs.length + size
  | 0, xs => by rw [chunksOf.cut, List.length_nil]; omega
  | _ + 1, [] => by rw [chunksOf.cut, List.length_nil]; omega
  | n + 1, x :: xs => by
    have hrest := length_cut_mul_lt hsize n ((x :: xs).drop size)
    rw [List.length_drop] at hrest
    rw [chunksOf.cut, List.length_cons, Nat.succ_mul]
    rcases Nat.lt_or_ge (x :: xs).length size with hshort | hlong
    · have hdrop : (x :: xs).drop size = [] := List.drop_eq_nil_of_le (Nat.le_of_lt hshort)
      have hcut : chunksOf.cut size n ([] : List α) = [] := by cases n <;> rfl
      rw [hdrop, hcut, List.length_nil, List.length_cons]
      omega
    · omega

end Pieces

/-! ## Records with some ids -/

namespace Entity

variable {e : Entity} {t : Table} {item : Item} {id : String} {ids : List String}

/-- An item is in the partition of an entity, under one of some ids. -/
def Among (e : Entity) (ids : List String) (item : Item) : Prop :=
  e.Owns item ∧ ∃ id ∈ ids, item.find e.sortField = some (.text id)

instance (e : Entity) (ids : List String) (item : Item) : Decidable (e.Among ids item) :=
  inferInstanceAs (Decidable (_ = _ ∧ _))

theorem among_append {more : List String} : e.Among (ids ++ more) item ↔ e.Among ids item ∨ e.Among more item := by
  simp only [Among, List.mem_append, or_and_right, exists_or, and_or_left]

/-- An item of a table of an entity stands at the address of an id if it has that id. -/
theorem standsAt_address (hs : t.Sound) (hkey : t.shape.key = e.keyShape) (hi : item ∈ t.items) :
    t.standsAt (e.address id) item = true ↔ e.Among [id] item := by
  constructor
  · intro hstands
    obtain ⟨⟨value, sort⟩, haddress⟩ := hs.exists_address hi
    rw [Table.standsAt, haddress] at hstands
    obtain ⟨hvalue, hsort⟩ := of_decide_eq_true hstands
    obtain ⟨hpartition, hpart⟩ := Table.address_parts haddress
    rw [hkey] at hpartition hpart
    obtain ⟨key, rfl, hkey⟩ := @Table.part_some_ok item ⟨e.sortField, .text⟩ sort hpart
    obtain ⟨a, hfind, -, hattribute⟩ := KeyField.sortKey_ok.1 hkey
    obtain rfl : .text e.partitionValue = value := hvalue
    have htext (n : String) : SortKey.text id ≠ .number n := SortKey.noConfusion
    obtain rfl : .text id = key := SortKey.eq_of_compare hsort htext
    refine ⟨(KeyField.value_ok.1 hpartition).1, id, List.mem_singleton_self id, ?_⟩
    cases a <;> cases hattribute
    exact hfind
  · rintro ⟨howns, id', hid', hfind⟩
    obtain rfl := List.mem_singleton.1 hid'
    rw [Table.standsAt, address_of_texts hkey howns hfind]
    exact decide_eq_true (sameAddress_iff.2 rfl)

end Entity

namespace Collection

variable {c : Collection} {t : Table} {s s₁ : MemoryStore} {ids done : List String}

/-- A batch of deletes for every 25 ids, and one for those left over. -/
theorem length_chunksOf_deleteChunk (ids : List String) :
    (chunksOf deleteChunk ids).length ≤ (ids.length + 24) / 25 := by
  have hcount := length_cut_mul_lt (by decide : 0 < deleteChunk) ids.length ids
  rw [chunksOf]
  rw [deleteChunk] at hcount ⊢
  omega

/-- The store is as it was but for the records with some ids, which are gone from their table. -/
structure Without (c : Collection) (t : Table) (s : MemoryStore) (done : List String) (s' : MemoryStore) : Prop where
  table : ∃ t', s'.tables.find c.entity.table = some t' ∧ t'.Sound ∧ t'.shape = t.shape ∧
    t'.items = t.items.filter fun item => ¬ c.entity.Among done item
  others : ∀ name, name ≠ c.entity.table → s'.tables.find name = s.tables.find name

theorem Without.start (ht : s.tables.find c.entity.table = some t) (hs : t.Sound) : c.Without t s [] s where
  table := by
    refine ⟨t, ht, hs, rfl, (List.filter_eq_self.2 fun item _ => ?_).symm⟩
    simp [Entity.Among]
  others _ _ := rfl

theorem Without.of_tables {s₂ : MemoryStore} (h : c.Without t s done s₁) (hs : s₂.tables = s₁.tables) :
    c.Without t s done s₂ where
  table := hs ▸ h.table
  others := hs ▸ h.others

/-- The entries of a batch that deletes the records with some ids. -/
def deletes (c : Collection) (ids : List String) : List WriteEntry :=
  ids.map fun id => .ofKey (c.entity.key id)

/-- How often the store is called for each of some batches, as far as they are sent: the `i`-th number says how many
calls more the first `i + 1` batches take than the first `i`. -/
def CallsEach (c : Collection) (chunks : List (List String)) (s : MemoryStore) (rounds : List Nat) : Prop :=
  ∀ i n, rounds[i]? = some n → (c.deleteChunks (chunks.take (i + 1)) s).2.faults.calls =
    List.replicate n .batchWriteItem ++ (c.deleteChunks (chunks.take i) s).2.faults.calls

theorem CallsEach.nil {chunks : List (List String)} : c.CallsEach chunks s [] := fun i n hn => by
  rw [List.getElem?_nil] at hn
  cases hn

/-- The calls for the first batch, whatever comes of it. -/
theorem CallsEach.single {rest : List (List String)} {m : Nat}
    (hcalls : (c.deleteRounds c.maxRounds (c.deletes ids) s).2.faults.calls =
      List.replicate m .batchWriteItem ++ s.faults.calls) : c.CallsEach (ids :: rest) s [m] := by
  have hfirst : (c.deleteChunks [ids] s).2 = (c.deleteRounds c.maxRounds (c.deletes ids) s).2 := by
    show ((c.deleteRounds c.maxRounds (c.deletes ids) >>= fun _ => c.deleteChunks []) s).2 = _
    rw [Call.bind_eq]
    cases c.deleteRounds c.maxRounds (c.deletes ids) s with
    | mk r s₂ => cases r <;> rfl
  rintro (_ | i) n hn
  · cases hn
    rw [List.take_succ_cons, List.take_zero, hfirst, hcalls]
    rfl
  · cases hn

/-- After a batch that is done the others are sent. -/
theorem CallsEach.cons {rest : List (List String)} {m : Nat} {rounds : List Nat}
    (hok : (c.deleteRounds c.maxRounds (c.deletes ids) s).1 = .ok ())
    (hcalls : (c.deleteRounds c.maxRounds (c.deletes ids) s).2.faults.calls =
      List.replicate m .batchWriteItem ++ s.faults.calls)
    (h : c.CallsEach rest (c.deleteRounds c.maxRounds (c.deletes ids) s).2 rounds) :
    c.CallsEach (ids :: rest) s (m :: rounds) := by
  have hbatches (chunks : List (List String)) : c.deleteChunks (ids :: chunks) s =
      c.deleteChunks chunks (c.deleteRounds c.maxRounds (c.deletes ids) s).2 :=
    Call.bind_of_ok hok
  rintro (_ | i) n hn
  · exact CallsEach.single hcalls 0 n hn
  · rw [List.take_succ_cons, List.take_succ_cons, hbatches, hbatches]
    exact h i n hn

section

variable (hkey : t.shape.key = c.entity.keyShape) (hne : c.entity.partitionField ≠ c.entity.sortField)

include hkey hne

/-- One delete. -/
theorem Without.delete (h : c.Without t s done s₁) (id : String) :
    ∃ s₂, MemoryStore.writeEntry c.entity.table (.ofKey (c.entity.key id)) s₁ = (.ok (), s₂) ∧
      c.Without t s (done ++ [id]) s₂ ∧ s₂.faults = s₁.faults := by
  obtain ⟨t₁, ht₁, hs₁, hshape, hitems⟩ := h.table
  have hkey₁ : t₁.shape.key = c.entity.keyShape := hshape ▸ hkey
  have haddress := Entity.address_key hne hkey₁ id
  obtain ⟨t₂, hdelete⟩ := Table.exists_delete haddress
  have hchange := MemoryStore.change_eq (f := (·.delete (c.entity.key id))) ht₁ hdelete
  refine ⟨s₁.setTable c.entity.table t₂, ?_, ⟨⟨t₂, ?_, hs₁.delete hdelete, ?_, ?_⟩, fun name hname => ?_⟩, rfl⟩
  · show (MemoryStore.change c.entity.table (·.delete (c.entity.key id)) >>= fun _ => pure ()) s₁ = _
    rw [Call.bind_of_eq hchange]
    rfl
  · rw [MemoryStore.setTable, Fields.find_put, if_pos rfl]
  · rw [Table.delete_shape hdelete, hshape]
  · have hstands : ∀ item ∈ t₁.items, (!t₁.standsAt (c.entity.address id) item) =
        decide (¬ c.entity.Among [id] item) := fun item hi => by
      rw [Bool.eq_iff_iff]
      simp [← Entity.standsAt_address hs₁ hkey₁ hi]
    rw [hs₁.items_delete hdelete haddress, List.filter_congr hstands, hitems, List.filter_filter]
    refine List.filter_congr fun item _ => ?_
    rw [Bool.eq_iff_iff]
    simp [Entity.among_append, and_comm]
  · rw [MemoryStore.setTable, Fields.find_put, if_neg (Ne.symm hname), h.others name hname]

/-- Deletes one after the other. -/
theorem Without.deletes : ∀ (ids : List String) {done : List String} {s₁ : MemoryStore}, c.Without t s done s₁ →
    ∃ s₂, MemoryStore.writeEntries c.entity.table (c.deletes ids) s₁ = (.ok (), s₂) ∧
      c.Without t s (done ++ ids) s₂ ∧ s₂.faults = s₁.faults
  | [], done, s₁, h => ⟨s₁, rfl, by rwa [List.append_nil], rfl⟩
  | id :: ids, done, s₁, h => by
    obtain ⟨s₂, hwrite, h, hfaults⟩ := h.delete hkey hne id
    obtain ⟨s₃, hrest, h, hfaults'⟩ := h.deletes ids
    refine ⟨s₃, ?_, by rwa [List.append_assoc, List.singleton_append] at h, hfaults'.trans hfaults⟩
    show (MemoryStore.writeEntry c.entity.table (.ofKey (c.entity.key id)) >>= fun _ =>
      MemoryStore.writeEntries c.entity.table (c.deletes ids)) s₁ = _
    rw [Call.bind_of_eq hwrite, hrest]

/-- A batch does a beginning of its deletes, and hands back the rest. -/
theorem Without.writeTables (h : c.Without t s done s₁) (undone : Nat) (ids : List String) :
    ∃ response s₂ now left, MemoryStore.writeTables undone [(c.entity.table, c.deletes ids)] s₁ = (.ok response, s₂) ∧
      ids = now ++ left ∧ (response.unprocessed.find c.entity.table).getD [] = c.deletes left ∧
      c.Without t s (done ++ now) s₂ ∧ s₂.faults = s₁.faults := by
  obtain ⟨t₁, ht₁, -⟩ := h.table
  generalize hcount : (c.deletes ids).length - min undone (c.deletes ids).length = count
  obtain ⟨s₂, hwrite, h, hfaults⟩ := h.deletes hkey hne (ids.take count)
  have htable : (MemoryStore.ask (fun s => (s.table? c.entity.table).map fun _ => ()) s₁ :
      Except StoreError Unit × MemoryStore) = (.ok (), s₁) := by
    rw [MemoryStore.ask, MemoryStore.table?, ht₁]
    rfl
  have hnow : (c.deletes ids).take count = c.deletes (ids.take count) := List.map_take.symm
  have hleft : (c.deletes ids).drop count = c.deletes (ids.drop count) := List.map_drop.symm
  refine ⟨⟨if (c.deletes (ids.drop count)).isEmpty then [] else [(c.entity.table, c.deletes (ids.drop count))]⟩, s₂,
    ids.take count, ids.drop count, ?_, (List.take_append_drop count ids).symm, ?_, h, hfaults⟩
  · simp only [MemoryStore.writeTables, hcount, hnow, hleft]
    rw [Call.bind_of_eq htable, Call.bind_of_eq hwrite]
    rfl
  · dsimp only
    split
    · rename_i hempty
      rw [List.isEmpty_iff.1 hempty]
      rfl
    · rw [Fields.find_cons, if_pos rfl]
      rfl

/-- A batch fails and changes nothing, or it does a beginning of its deletes and hands back the rest. -/
theorem Without.batchWrite (h : c.Without t s done s₁) (hsome : ids ≠ []) (hfew : ids.length ≤ deleteChunk)
    {r : Except StoreError BatchWriteResponse} {s₂ : MemoryStore}
    (hcall : MemoryStore.batchWrite ⟨[(c.entity.table, c.deletes ids)]⟩ s₁ = (r, s₂)) :
    s₂.faults.calls = .batchWriteItem :: s₁.faults.calls ∧
      ((∃ e, r = .error e) ∧ c.Without t s done s₂ ∨
        ∃ response now left, r = .ok response ∧ ids = now ++ left ∧
          (response.unprocessed.find c.entity.table).getD [] = c.deletes left ∧ c.Without t s (done ++ now) s₂) := by
  have hcalls := Faults.note_calls s₁.faults .batchWriteItem
  have hcheck : MemoryStore.checkBatch .batchWriteItem "requests" MemoryStore.maxBatchWrite
      (MemoryStore.batchSize (·.length) [(c.entity.table, c.deletes ids)]) = .ok () := by
    have hsize : (c.deletes ids).length = ids.length := by rw [Collection.deletes, List.length_map]
    exact MemoryStore.checkBatch_single _ _ (hsize ▸ List.length_pos_of_ne_nil hsome) (hsize ▸ hfew)
  rw [MemoryStore.batchWrite, MemoryStore.batch_eq, hcheck] at hcall
  cases hnote : (s₁.faults.note .batchWriteItem).1 with
  | error e =>
    rw [hnote] at hcall
    obtain ⟨rfl, rfl⟩ := Prod.mk.inj hcall
    exact ⟨hcalls, .inl ⟨⟨e, rfl⟩, h.of_tables rfl⟩⟩
  | ok _ =>
    rw [hnote] at hcall
    have htaken : c.Without t s done
        { s₁ with faults := ((s₁.faults.note .batchWriteItem).2.takeUndone .batchWriteItem).2 } := h.of_tables rfl
    obtain ⟨response, s₄, now, left, hwrite, hids, hleft, h, hsame⟩ :=
      htaken.writeTables hkey hne (s₁.faults.takeUndone .batchWriteItem).1 ids
    obtain ⟨rfl, rfl⟩ := Prod.mk.inj (hwrite.symm.trans hcall)
    exact ⟨hsame ▸ hcalls, .inr ⟨response, now, left, rfl, hids, hleft, h⟩⟩

/-- The rounds of a batch do a beginning of the ids, and the outcome says whether it is all of them. -/
theorem Without.deleteRounds : ∀ (n : Nat) {ids done : List String} {s₁ : MemoryStore}, ids.length ≤ deleteChunk →
    c.Without t s done s₁ → ∃ now left, ids = now ++ left ∧
      c.Without t s (done ++ now) (c.deleteRounds n (c.deletes ids) s₁).2 ∧
      ((c.deleteRounds n (c.deletes ids) s₁).1 = .ok () ↔ left = []) ∧
      ∃ m ≤ n, (c.deleteRounds n (c.deletes ids) s₁).2.faults.calls =
        List.replicate m .batchWriteItem ++ s₁.faults.calls
  | n, [], done, s₁, _, h => by
    have hnothing : c.deleteRounds n (c.deletes []) s₁ = (.ok (), s₁) := by cases n <;> rfl
    rw [hnothing]
    exact ⟨[], [], rfl, by rwa [List.append_nil], by simp, 0, Nat.zero_le n, rfl⟩
  | 0, id :: ids, done, s₁, _, h => by
    refine ⟨[], id :: ids, rfl, by rwa [List.append_nil], ⟨nofun, nofun⟩, 0, Nat.le_refl 0, rfl⟩
  | n + 1, id :: ids, done, s₁, hfew, h => by
    have hround : c.deleteRounds (n + 1) (c.deletes (id :: ids)) s₁ =
        (ofStore (MemoryStore.batchWrite ⟨[(c.entity.table, c.deletes (id :: ids))]⟩) >>= fun response =>
          c.deleteRounds n ((response.unprocessed.find c.entity.table).getD [])) s₁ := rfl
    have hstore := ofStore_eq (MemoryStore.batchWrite ⟨[(c.entity.table, c.deletes (id :: ids))]⟩) s₁
    cases hcall : MemoryStore.batchWrite ⟨[(c.entity.table, c.deletes (id :: ids))]⟩ s₁ with
    | mk r s₂ =>
      rw [hcall] at hstore
      obtain ⟨hcalls, ⟨⟨e, rfl⟩, h⟩ | ⟨response, now, left, rfl, hids, hleft, h⟩⟩ :=
        h.batchWrite hkey hne (List.cons_ne_nil id ids) hfew hcall
      · rw [hround, Call.bind_of_error (congrArg Prod.fst hstore), hstore]
        refine ⟨[], id :: ids, rfl, by rwa [List.append_nil], ⟨nofun, nofun⟩, 1, by omega, ?_⟩
        rw [hcalls]
        rfl
      · -- the rest goes out in the next round
        have hfew' : left.length ≤ deleteChunk := by
          have hlength := congrArg List.length hids
          rw [List.length_append] at hlength
          omega
        obtain ⟨more, left', hrest, h, hok, m, hm, hcalls'⟩ := h.deleteRounds n hfew'
        rw [hround, Call.bind_of_eq hstore, hleft]
        refine ⟨now ++ more, left', by rw [hids, hrest, List.append_assoc], by rwa [← List.append_assoc], hok, m + 1,
          by omega, ?_⟩
        rw [hcalls', hcalls, List.replicate_succ', List.append_assoc]
        rfl

/-- What batches one after the other come to, with how often each was sent. -/
theorem Without.deleteChunks : ∀ (chunks : List (List String)) {done : List String} {s₁ : MemoryStore},
    (∀ chunk ∈ chunks, chunk.length ≤ deleteChunk) → c.Without t s done s₁ → ∃ now left, chunks.flatten = now ++ left ∧
      c.Without t s (done ++ now) (c.deleteChunks chunks s₁).2 ∧
      ((c.deleteChunks chunks s₁).1 = .ok () ↔ left = []) ∧
      ∃ rounds : List Nat, rounds.length ≤ chunks.length ∧ (∀ n ∈ rounds, n ≤ c.maxRounds) ∧
        c.CallsEach chunks s₁ rounds ∧
        (c.deleteChunks chunks s₁).2.faults.calls = List.replicate rounds.sum .batchWriteItem ++ s₁.faults.calls
  | [], done, s₁, _, h => by
    have hnothing : c.deleteChunks [] s₁ = (.ok (), s₁) := rfl
    rw [hnothing]
    exact ⟨[], [], rfl, by rwa [List.append_nil], by simp, [], Nat.le_refl 0, List.forall_mem_nil _,
      CallsEach.nil, rfl⟩
  | ids :: rest, done, s₁, hfew, h => by
    obtain ⟨hids, hfew⟩ := List.forall_mem_cons.1 hfew
    have hbatches : c.deleteChunks (ids :: rest) s₁ =
        (c.deleteRounds c.maxRounds (c.deletes ids) >>= fun _ => c.deleteChunks rest) s₁ := rfl
    obtain ⟨now, left, hnow, h, hok, m, hm, hcalls⟩ := h.deleteRounds hkey hne c.maxRounds hids
    cases hfirst : (c.deleteRounds c.maxRounds (c.deletes ids) s₁).1 with
    | error e =>
      have hleft : left ≠ [] := fun hnil => by
        rw [hok.2 hnil] at hfirst
        cases hfirst
      rw [hbatches, Call.bind_of_error hfirst]
      refine ⟨now, left ++ rest.flatten, by rw [List.flatten_cons, hnow, List.append_assoc], h,
        ⟨nofun, fun hnil => absurd (List.append_eq_nil_iff.1 hnil).1 hleft⟩, [m], by simp, by simpa using hm,
        CallsEach.single hcalls, ?_⟩
      rw [List.sum_singleton, hcalls]
    | ok _ =>
      obtain rfl : left = [] := hok.1 hfirst
      obtain ⟨more, left', hmore, h, hok', rounds, hlength, hrounds, heach, hcalls'⟩ := h.deleteChunks rest hfew
      rw [hbatches, Call.bind_of_ok hfirst]
      refine ⟨now ++ more, left', ?_, by rwa [← List.append_assoc], hok', m :: rounds, by simpa using hlength,
        List.forall_mem_cons.2 ⟨hm, hrounds⟩, CallsEach.cons hfirst hcalls heach, ?_⟩
      · rw [List.flatten_cons, hnow, hmore, List.append_nil, List.append_assoc]
      · rw [hcalls', hcalls, List.sum_cons, Nat.add_comm, List.replicate_add, List.append_assoc]

/--
**Many deletes** take a beginning of the ids: the records with these are gone from the table, everything else is as it
was, and the outcome is good just if they are all of the ids. If some id is blank, the store is left as it was. The
store is called for batches of 25 ids each, one after the other; the `i`-th of `rounds` is how often it is called for
the `i`-th batch, which is at most as often as a batch may be sent, and there are no other calls.
-/
theorem deleteMany_takes (ht : s.tables.find c.entity.table = some t) (hs : t.Sound) (ids : List String) :
    ∃ k ≤ ids.length,
      (∃ t', (c.deleteMany ids s).2.tables.find c.entity.table = some t' ∧ t'.shape = t.shape ∧
        t'.items = t.items.filter fun item => ¬ c.entity.Among (ids.take k) item) ∧
      (∀ name, name ≠ c.entity.table → (c.deleteMany ids s).2.tables.find name = s.tables.find name) ∧
      ((c.deleteMany ids s).1 = .ok () ↔ k = ids.length) ∧
      ((∃ id ∈ ids, Text.isBlankText id = true) → k = 0 ∧ (c.deleteMany ids s).2 = s) ∧
      ∃ rounds : List Nat, rounds.length ≤ (ids.length + 24) / 25 ∧ (∀ n ∈ rounds, n ≤ c.maxRounds) ∧
        c.CallsEach (chunksOf deleteChunk ids) s rounds ∧
        (c.deleteMany ids s).2.faults.calls = List.replicate rounds.sum .batchWriteItem ++ s.faults.calls := by
  have hstart := Without.start ht hs
  cases hcheck : ids.forM checkId with
  | error e =>
    have hrefused : c.deleteMany ids s = (.error e, s) := by
      rw [deleteMany, hcheck]
      rfl
    have hsome : 0 ≠ ids.length := fun hnone => by
      rw [List.length_eq_zero_iff.1 hnone.symm] at hcheck
      cases hcheck
    have hfailed : (.error e : Except _ Unit) ≠ .ok () := by
      intro h
      cases h
    obtain ⟨t', ht', -, hshape, hitems⟩ := hstart.table
    rw [hrefused]
    exact ⟨0, Nat.zero_le _, ⟨t', ht', hshape, hitems⟩, fun _ _ => rfl, iff_of_false hfailed hsome,
      fun _ => ⟨rfl, rfl⟩, [], Nat.zero_le _, List.forall_mem_nil _, CallsEach.nil, rfl⟩
  | ok _ =>
    have hrun : c.deleteMany ids s = c.deleteChunks (chunksOf deleteChunk ids) s := by
      rw [deleteMany, hcheck]
      rfl
    have hblank : ¬ ∃ id ∈ ids, Text.isBlankText id = true := by
      rintro ⟨id, hid, hblank⟩
      rw [checkId_ok (forM_eq_ok.1 hcheck id hid)] at hblank
      cases hblank
    obtain ⟨now, left, hids, h, hok, rounds, hlength, hrounds, heach, hcalls⟩ :=
      hstart.deleteChunks hkey hne (chunksOf deleteChunk ids) length_le_of_mem_cut
    rw [flatten_chunksOf (by decide)] at hids
    obtain ⟨t', ht', -, hshape, hitems⟩ := h.table
    rw [hrun]
    refine ⟨now.length, by rw [hids, List.length_append]; omega, ⟨t', ht', hshape, ?_⟩, h.others, ?_,
      fun h => absurd h hblank, rounds, Nat.le_trans hlength (length_chunksOf_deleteChunk ids), hrounds, heach, hcalls⟩
    · rw [hitems, hids, List.nil_append, List.take_left]
    · rw [hok, hids, List.length_append, ← List.length_eq_zero_iff]
      omega

end

/-- A batch that may be sent once, and is left undone in part: the first id is done, and the outcome says that this is
not all. -/
theorem deleteMany_takes_undone :
    let shape : TableShape := ⟨"t", ⟨⟨"pk", .text⟩, some ⟨"id", .text⟩⟩, []⟩
    let item (entity id : String) : Item := [("id", .text id), ("pk", .text entity)]
    let c : Collection :=
      { entity := { table := "t", partitionValue := "user", partitionField := "pk" }, settings := { batchRounds := 1 } }
    ∃ t : Table, t.Reached shape ∧ t.items = [item "user" "1", item "user" "2", item "order" "1"] ∧
      let s : MemoryStore := ⟨[("t", t)], { undone := [(.batchWriteItem, 1)] }⟩
      (c.deleteMany ["1", "2"] s).1 = .error (c.leftUndone 1) ∧
        ∃ k < 2, ∃ t', (c.deleteMany ["1", "2"] s).2.tables.find "t" = some t' ∧
          t'.items = t.items.filter fun item => ¬ c.entity.Among (["1", "2"].take k) item := by
  intro shape item c
  have hordered : ∀ entity id, Fields.Ordered (item entity id) := fun _ _ =>
    List.pairwise_map.1 (show ["id", "pk"].Pairwise (· < ·) by decide)
  let t : Table := ⟨shape, [(.text "user", [(some (.text "1"), item "user" "1"), (some (.text "2"), item "user" "2")]),
    (.text "order", [(some (.text "1"), item "order" "1")])]⟩
  have hreached : t.Reached shape :=
    .put (.put (.put .empty (hordered "user" "1") rfl) (hordered "user" "2") (by rfl)) (hordered "order" "1") (by rfl)
  refine ⟨t, hreached, rfl, ?_⟩
  intro s
  have herror : (c.deleteMany ["1", "2"] s).1 = .error (c.leftUndone 1) := by
    unfold s t c item shape
    cbv
  obtain ⟨k, hk, ⟨t', ht', -, hitems⟩, -, hok, -⟩ :=
    deleteMany_takes (c := c) (t := t) rfl (by decide) (s := s) rfl hreached.sound ["1", "2"]
  refine ⟨herror, k, ?_, t', ht', hitems⟩
  refine Nat.lt_of_le_of_ne hk fun hall => ?_
  rw [hok.2 hall] at herror
  cases herror

end Collection

end RecordStore
