import Mathlib
import RecordStore.Proofs.Memory.Accepting
import RecordStore.Proofs.Memory.Writing

/-!
# Batches

A batch names keys to get or writes to do, table by table. Of what it names for one table a beginning is done and the
rest is handed back; `Part` says which. What the writes that are done make of the tables is said by
`MemoryStore.Applied`: each table has taken those that name it, in their order, and accepted every one. That no write is
lost for want of its table is said by `MemoryStore.Knows`.

* **`MemoryStore.batches_split`**: a batch that is answered names tables that are there, and is done but for what it
  hands back, and of that there is as much as was planned to be left undone;
* **`MemoryStore.batchWrite_refused`**: of a batch write that is refused, what comes before the first table that is not
  there or the first entry that is refused is done;
* **`MemoryStore.batchWrite_half_done`** is one of which something is done.
-/

namespace RecordStore

/-! ## What is left undone -/

namespace Faults

theorem lookup_filter_ne (operation other : Operation) : ∀ undone : List (Operation × Nat),
    (undone.filter fun entry => entry.1 ≠ operation).lookup other =
      if other = operation then none else undone.lookup other
  | [] => by simp
  | (op, n) :: undone => by
    by_cases hop : op = operation
    · rw [List.filter_cons_of_neg (by simp [hop]), lookup_filter_ne, List.lookup_cons]
      split
      · rfl
      · rename_i hother
        rw [hop, beq_false_of_ne hother]
    · rw [List.filter_cons_of_pos (by simp [hop]), List.lookup_cons, List.lookup_cons, lookup_filter_ne]
      by_cases hother : other = op
      · rw [hother, beq_self_eq_true, if_neg hop, if_neg hop]
      · rw [beq_false_of_ne hother]

/-- What is to be left undone is taken once; of other operations it stays. -/
theorem takeUndone_takeUndone (faults : Faults) (operation other : Operation) :
    ((faults.takeUndone operation).2.takeUndone other).1 =
      if other = operation then 0 else (faults.takeUndone other).1 := by
  rw [takeUndone, takeUndone, takeUndone]
  dsimp only
  rw [lookup_filter_ne]
  split <;> rfl

theorem note_undone (faults : Faults) (operation : Operation) :
    (faults.note operation).2.undone = faults.undone := by
  simp only [note]
  split <;> rfl

end Faults

/-! ## Parts of batches -/

/-- The entries of a batch for one table: those that are done and, behind them, those that are handed back. -/
structure Part (α : Type) where
  table : String
  done : List α
  left : List α

namespace Part

variable {α : Type}

/-- All entries for the table. -/
def entries (p : Part α) : String × List α :=
  (p.table, p.done ++ p.left)

/-- The entries that are done, each with its table. -/
def todo (p : Part α) : List (String × α) :=
  p.done.map (p.table, ·)

/-- What is handed back, if that is anything. -/
def handedBack (p : Part α) : Option (String × List α) :=
  if p.left.isEmpty then none else some (p.table, p.left)

/-- A batch cut into parts, from the end of each table, so that so many entries are left. -/
def cut : Nat → Fields (List α) → List (Part α)
  | _, [] => []
  | undone, (name, entries) :: rest =>
    let done := entries.length - min undone entries.length
    ⟨name, entries.take done, entries.drop done⟩ :: cut (undone - (entries.drop done).length) rest

theorem entries_cut : ∀ (undone : Nat) (tables : Fields (List α)), (cut undone tables).map entries = tables
  | _, [] => rfl
  | undone, (name, es) :: rest => by
    rw [cut, List.map_cons, entries_cut _ rest]
    dsimp only [entries]
    rw [List.take_append_drop]

/-- So many entries are left, or all if there are no more. -/
theorem left_cut : ∀ (undone : Nat) (tables : Fields (List α)),
    ((cut undone tables).map (·.left.length)).sum = min undone (MemoryStore.batchSize (·.length) tables)
  | undone, [] => (Nat.min_zero undone).symm
  | undone, (name, es) :: rest => by
    rw [cut, List.map_cons, List.sum_cons, left_cut _ rest, MemoryStore.batchSize]
    dsimp only
    rw [List.length_drop]
    omega

end Part

namespace Table

/-- What one write makes of a table. Beside an item to put, a key to delete does not count; a write with neither is
none. -/
def write (t : Table) (e : WriteEntry) : Except TableError Table :=
  match e.put, e.delete with
  | some item, _ => Prod.snd <$> t.put item
  | none, some key => Prod.snd <$> t.delete key
  | none, none => .ok t

end Table

namespace MemoryStore

variable {s s₁ s' : MemoryStore} {t t' : Table} {name : String} {e : StoreError}

/-- A batch for one table is of the size of what it names there. -/
theorem checkBatch_single {α : Type} {operation : Operation} {entries : String} {most : Nat} (size : α → Nat)
    (name : String) {batch : α} (hpos : 0 < size batch) (hmost : size batch ≤ most) :
    checkBatch operation entries most (batchSize size [(name, batch)]) = .ok () := by
  have hsize : batchSize size [(name, batch)] = size batch := Nat.add_zero _
  rw [hsize, checkBatch, if_neg (by omega)]

/-! ## Gets -/

/-- The part of a batch get for one table, with what is asked for and what is answered. -/
structure KeyPart extends Part Key where
  batch : KeyBatch
  items : List Item

namespace KeyPart

/-- The keys that are handed back are asked for as they were before. -/
def unprocessed (p : KeyPart) : Option (String × KeyBatch) :=
  p.handedBack.map fun left => (left.1, { p.batch with keys := left.2 })

/-- What is answered are the items with the keys that are done, in their order, or what the projection keeps of them. -/
def Found (s : MemoryStore) (p : KeyPart) : Prop :=
  ∃ t paths found, s.tables.find p.table = some t ∧ parseOptional Path.parseList p.batch.projection = .ok paths ∧
    List.Forall₂ (fun key item => t.get key = .ok item) p.done found ∧
    p.items = found.reduceOption.map (projected p.batch.names paths)

end KeyPart

/-- A batch get is answered in parts, of which so many keys are left, or all if there are no more. -/
structure GetSplit (s : MemoryStore) (undone : Nat) (r : BatchGetRequest) (response : BatchGetResponse)
    (parts : List KeyPart) : Prop where
  tables : r.tables = parts.map fun p => (p.table, p.batch)
  keys : ∀ p ∈ parts, p.batch.keys = p.done ++ p.left
  left : (parts.map (·.left.length)).sum = min undone (batchSize (·.keys.length) r.tables)
  found : ∀ p ∈ parts, p.Found s
  items : response.items = parts.map fun p => (p.table, p.items)
  unprocessed : response.unprocessed = parts.filterMap KeyPart.unprocessed

theorem table?_ok (h : s.table? name = .ok t) : s.tables.find name = some t := by
  unfold table? at h
  split at h
  · rename_i ht
    rw [ht, Except.ok.inj h]
  · cases h

theorem getAll_ok {b : KeyBatch} {paths : Option (List Path)} {keys : List Key} {items : List Item}
    (h : getAll t b paths keys = .ok items) : ∃ found,
      List.Forall₂ (fun key item => t.get key = .ok item) keys found ∧
        items = found.reduceOption.map (projected b.names paths) := by
  obtain ⟨found, hfound, h⟩ := bind_eq_ok.1 h
  refine ⟨found, (mapM_eq_ok.1 hfound).imp fun _ _ hget => mapError_eq_ok.1 hget, ?_⟩
  cases h
  rw [List.reduceOption, List.map_filterMap]
  rfl

/-- **One table after the other** is answered. -/
theorem getTables_ok {tables : Fields KeyBatch} {undone : Nat} {response : BatchGetResponse}
    (h : s.getTables undone tables = .ok response) : ∃ parts, GetSplit s undone ⟨tables⟩ response parts := by
  induction tables generalizing undone response with
  | nil =>
    cases h
    exact ⟨[], rfl, nofun, (Nat.min_zero undone).symm, nofun, rfl, rfl⟩
  | cons entry rest ih =>
    obtain ⟨name, b⟩ := entry
    obtain ⟨t, ht, h⟩ := bind_eq_ok.1 h
    obtain ⟨paths, hpaths, h⟩ := bind_eq_ok.1 h
    obtain ⟨items, hitems, h⟩ := bind_eq_ok.1 h
    obtain ⟨more, hmore, h⟩ := bind_eq_ok.1 h
    obtain ⟨found, hfound, rfl⟩ := getAll_ok hitems
    obtain ⟨parts, hsplit⟩ := ih hmore
    generalize hdone : b.keys.length - min undone b.keys.length = done at *
    let p : KeyPart := ⟨⟨name, b.keys.take done, b.keys.drop done⟩, b, found.reduceOption.map (projected b.names paths)⟩
    refine ⟨p :: parts, ?_, ?_, ?_, ?_, ?_, ?_⟩
    · rw [List.map_cons, ← hsplit.tables]
    · exact List.forall_mem_cons.2 ⟨(List.take_append_drop done b.keys).symm, hsplit.keys⟩
    · rw [List.map_cons, List.sum_cons, hsplit.left, batchSize]
      dsimp only [p]
      rw [List.length_drop]
      omega
    · exact List.forall_mem_cons.2 ⟨⟨t, paths, found, table?_ok ht, hpaths, hfound, rfl⟩, hsplit.found⟩
    · cases h
      rw [List.map_cons, ← hsplit.items]
    · cases h
      rw [List.filterMap_cons]
      dsimp only [KeyPart.unprocessed, Part.handedBack, p]
      rw [hsplit.unprocessed]
      split <;> rfl

/-! ## Writes -/

/-- The table of every part is there. -/
def Knows (s : MemoryStore) (parts : List (Part WriteEntry)) : Prop :=
  ∀ p ∈ parts, (s.tables.find p.table).isSome

/-- Those of some writes that name a table. -/
def writesTo (name : String) (writes : List (String × WriteEntry)) : List WriteEntry :=
  (writes.filter (·.1 = name)).map (·.2)

theorem writesTo_append (name : String) (writes more : List (String × WriteEntry)) :
    writesTo name (writes ++ more) = writesTo name writes ++ writesTo name more := by
  rw [writesTo, List.filter_append, List.map_append]
  rfl

/-- Between two states every table has taken those of some writes that name it, one after the other. Of writes to tables
that are not there this says nothing. -/
def Applied (writes : List (String × WriteEntry)) (s s' : MemoryStore) : Prop :=
  ∀ name, Option.Rel (fun t t' => (writesTo name writes).foldlM Table.write t = .ok t') (s.tables.find name)
    (s'.tables.find name)

namespace Applied

variable {writes more : List (String × WriteEntry)}

theorem nil (h : s'.tables = s.tables) : Applied [] s s' := by
  intro name
  rw [h]
  cases s.tables.find name with
  | none => exact .none
  | some t => exact .some rfl

theorem append (h : Applied writes s s₁) (hmore : Applied more s₁ s') : Applied (writes ++ more) s s' := by
  intro name
  have hfirst := h name
  have hthen := hmore name
  generalize s.tables.find name = a at hfirst ⊢
  generalize s₁.tables.find name = b at hfirst hthen
  generalize s'.tables.find name = d at hthen ⊢
  cases hfirst with
  | none =>
    cases hthen
    exact .none
  | some hwrites =>
    cases hthen with
    | some hrest =>
      refine .some ?_
      rw [writesTo_append, List.foldlM_append, hwrites]
      exact hrest

/-- One write, which its table accepts. -/
theorem single {entry : WriteEntry} (ht : s.tables.find name = some t) (hw : t.write entry = .ok t')
    (h : ∀ other, s'.tables.find other = if name = other then some t' else s.tables.find other) :
    Applied [(name, entry)] s s' := by
  intro other
  rw [h]
  by_cases hname : name = other
  · subst hname
    rw [if_pos rfl, ht]
    refine .some ?_
    rw [writesTo, List.filter_cons_of_pos (by simp), List.filter_nil, List.map_cons, List.map_nil, List.foldlM_cons, hw]
    rfl
  · rw [if_neg hname]
    have hnone : writesTo other [(name, entry)] = [] := by simp [writesTo, hname]
    rw [hnone]
    cases s.tables.find other with
    | none => exact .none
    | some t => exact .some rfl

/-- There are the same tables as before. -/
theorem isSome_find (h : Applied writes s s') (name : String) :
    (s'.tables.find name).isSome = (s.tables.find name).isSome := by
  have hname := h name
  generalize s.tables.find name = a at hname
  generalize s'.tables.find name = b at hname
  cases hname <;> rfl

/-- A table that is there stays there. -/
theorem find (h : Applied writes s s') (ht : s.tables.find name = some t) : ∃ t', s'.tables.find name = some t' := by
  refine Option.isSome_iff_exists.1 ?_
  rw [h.isSome_find, ht]
  rfl

/-- Tables that are there afterwards were there before. -/
theorem knows {parts : List (Part WriteEntry)} (h : Applied writes s s') (hk : s'.Knows parts) : s.Knows parts := by
  intro p hp
  rw [← h.isSome_find]
  exact hk p hp

end Applied

/-- **One write** is done or refused as its table says, and a refused one leaves the store as it was. -/
theorem writeEntry_cases (ht : s.tables.find name = some t) (entry : WriteEntry) :
    (∃ t' s', t.write entry = .ok t' ∧ writeEntry name entry s = (.ok (), s') ∧ Applied [(name, entry)] s s' ∧
      s'.faults = s.faults) ∨
    ∃ cause, t.write entry = .error cause ∧ writeEntry name entry s = (.error (ofTableError cause), s) := by
  -- a put and a delete are both changes of the table
  have hchange {α : Type} {f : Table → Except TableError (α × Table)} (hf : t.write entry = Prod.snd <$> f t)
      (heq : writeEntry name entry = (change name f >>= fun _ => pure ())) :
      (∃ t' s', t.write entry = .ok t' ∧ writeEntry name entry s = (.ok (), s') ∧ Applied [(name, entry)] s s' ∧
        s'.faults = s.faults) ∨
      ∃ cause, t.write entry = .error cause ∧ writeEntry name entry s = (.error (ofTableError cause), s) := by
    rw [hf, heq]
    cases hresult : f t with
    | ok result =>
      obtain ⟨a, t'⟩ := result
      rw [hresult] at hf
      refine .inl ⟨t', s.setTable name t', rfl, ?_, .single ht hf fun other => Fields.find_put _ _ _ _, rfl⟩
      rw [Call.bind_of_eq (change_eq ht hresult)]
      rfl
    | error cause =>
      refine .inr ⟨cause, rfl, ?_⟩
      have hrefused : change name f s = (.error (ofTableError cause), s) := by
        simp only [change, table?, ht, hresult, ofTable]
        rfl
      rw [Call.bind_of_error (congrArg Prod.fst hrefused), hrefused]
  obtain ⟨item?, key?⟩ := entry
  cases item? with
  | some item => exact hchange (f := (·.put item)) rfl rfl
  | none =>
    cases key? with
    | some key => exact hchange (f := (·.delete key)) rfl rfl
    | none =>
      refine .inl ⟨t, s, rfl, rfl, .single ht rfl fun other => ?_, rfl⟩
      by_cases hname : name = other
      · rw [if_pos hname, ← hname, ht]
      · rw [if_neg hname]

/-- **Writes to one table** are all done, or those before the first one that is refused. -/
theorem writeEntries_cases (entries : List WriteEntry) (ht : s.tables.find name = some t) :
    (∃ s', writeEntries name entries s = (.ok (), s') ∧ Applied (entries.map (name, ·)) s s' ∧
      s'.faults = s.faults) ∨
    ∃ done entry later t' cause s', entries = done ++ entry :: later ∧
      writeEntries name entries s = (.error (ofTableError cause), s') ∧ Applied (done.map (name, ·)) s s' ∧
      s'.tables.find name = some t' ∧ t'.write entry = .error cause := by
  induction entries generalizing s t with
  | nil => exact .inl ⟨s, rfl, .nil rfl, rfl⟩
  | cons entry rest ih =>
    have hstep : writeEntries name (entry :: rest) s =
        (writeEntry name entry >>= fun _ => writeEntries name rest) s := rfl
    obtain ⟨t₁, s₁, -, hrun, happlied, hfaults⟩ | ⟨cause, hw, hrun⟩ := writeEntry_cases ht entry
    · obtain ⟨t₁, ht₁⟩ := happlied.find ht
      rw [hstep, Call.bind_of_eq hrun]
      obtain ⟨s', hrest, hmore, hsame⟩ | ⟨done, refused, later, t', cause, s', rfl, hrest, hmore, ht', hw⟩ := ih ht₁
      · exact .inl ⟨s', hrest, happlied.append hmore, hsame.trans hfaults⟩
      · exact .inr ⟨entry :: done, refused, later, t', cause, s', rfl, hrest, happlied.append hmore, ht', hw⟩
    · rw [hstep, Call.bind_of_error (congrArg Prod.fst hrun), hrun]
      exact .inr ⟨[], entry, rest, t, cause, s, rfl, rfl, .nil rfl, ht, hw⟩

/--
How a batch write stops before its end: at the first table that is not there, or at the first entry that its table
refuses. What comes before has been done, each write by its table.
-/
inductive Stopped (parts : List (Part WriteEntry)) (s s' : MemoryStore) : StoreError → Prop
  | noTable (before : List (Part WriteEntry)) {after : List (Part WriteEntry)} {p : Part WriteEntry} :
      parts = before ++ p :: after → s.Knows before →
      Applied (before.flatMap Part.todo) s s' → s.tables.find p.table = none →
      Stopped parts s s' ⟨.notFound, "Table not found: " ++ p.table, none⟩
  | refused (before : List (Part WriteEntry)) {after : List (Part WriteEntry)} {p : Part WriteEntry}
      {done later : List WriteEntry} {entry : WriteEntry} {t : Table} {cause : TableError} :
      parts = before ++ p :: after → s.Knows (before ++ [p]) →
      p.done = done ++ entry :: later → Applied (before.flatMap Part.todo ++ done.map (p.table, ·)) s s' →
      s'.tables.find p.table = some t → t.write entry = .error cause → Stopped parts s s' (ofTableError cause)

/-- What is done before the other parts is done before it stops. -/
theorem Stopped.cons {parts : List (Part WriteEntry)} {p : Part WriteEntry} (ht : s.tables.find p.table = some t)
    (happlied : Applied p.todo s s₁) (h : Stopped parts s₁ s' e) : Stopped (p :: parts) s s' e := by
  have hcons {more : List (Part WriteEntry)} (hk : s₁.Knows more) : s.Knows (p :: more) :=
    List.forall_mem_cons.2 ⟨Option.isSome_of_eq_some ht, happlied.knows hk⟩
  cases h with
  | @noTable before _ q hparts hk hbefore hnone =>
    refine .noTable (p :: before) (by rw [hparts]; rfl) (hcons hk) (happlied.append hbefore) ?_
    rw [← Option.isNone_iff_eq_none, ← Option.isSome_eq_false_iff, ← happlied.isSome_find, hnone]
    rfl
  | refused before hparts hk hdone hbefore ht' hw =>
    refine .refused (p :: before) (by rw [hparts]; rfl) (hcons hk) hdone ?_ ht' hw
    rw [List.flatMap_cons, List.append_assoc]
    exact happlied.append hbefore

/-- **One table after the other** is written to, up to the end or up to where it stops. -/
theorem writeTables_cases (undone : Nat) (tables : Fields (List WriteEntry)) (s : MemoryStore) :
    (∃ s', writeTables undone tables s = (.ok ⟨(Part.cut undone tables).filterMap Part.handedBack⟩, s') ∧
      s.Knows (Part.cut undone tables) ∧ Applied ((Part.cut undone tables).flatMap Part.todo) s s' ∧
      s'.faults = s.faults) ∨
    ∃ e s', writeTables undone tables s = (.error e, s') ∧ Stopped (Part.cut undone tables) s s' e := by
  induction tables generalizing undone s with
  | nil => exact .inl ⟨s, rfl, List.forall_mem_nil _, .nil rfl, rfl⟩
  | cons entry rest ih =>
    obtain ⟨name, entries⟩ := entry
    rw [Part.cut]
    simp only [writeTables]
    generalize entries.length - min undone entries.length = done
    cases ht : s.tables.find name with
    | none =>
      have hask : ask (fun s => (s.table? name).map fun _ => ()) s =
          (.error ⟨.notFound, "Table not found: " ++ name, none⟩, s) := by
        simp only [ask, table?, ht]
        rfl
      rw [Call.bind_of_error (congrArg Prod.fst hask), hask]
      exact .inr ⟨_, s, rfl, .noTable [] rfl (List.forall_mem_nil _) (.nil rfl) ht⟩
    | some t =>
      have hask : ask (fun s => (s.table? name).map fun _ => ()) s = (.ok (), s) := by
        simp only [ask, table?, ht]
        rfl
      rw [Call.bind_of_eq hask]
      obtain ⟨s₁, hrun, happlied, hfaults⟩ | ⟨now, refused, later, t', cause, s', hdone, hrun, happlied, ht', hw⟩ :=
        writeEntries_cases (entries.take done) ht
      · rw [Call.bind_of_eq hrun]
        obtain ⟨s', hrest, hknown, hmore, hsame⟩ | ⟨e, s', hrest, hstopped⟩ :=
          ih (undone - (entries.drop done).length) s₁
        · rw [Call.bind_of_eq hrest]
          refine .inl ⟨s', ?_, List.forall_mem_cons.2 ⟨Option.isSome_of_eq_some ht, happlied.knows hknown⟩,
            happlied.append hmore, hsame.trans hfaults⟩
          rw [List.filterMap_cons, Part.handedBack]
          dsimp only
          split <;> rfl
        · rw [Call.bind_of_error (congrArg Prod.fst hrest), hrest]
          exact .inr ⟨e, s', rfl, hstopped.cons ht happlied⟩
      · rw [Call.bind_of_error (congrArg Prod.fst hrun), hrun]
        have hknown : s.Knows [⟨name, entries.take done, entries.drop done⟩] :=
          List.forall_mem_singleton.2 (Option.isSome_of_eq_some ht)
        exact .inr ⟨_, s', rfl, .refused [] rfl hknown hdone happlied ht' hw⟩

/-! ## Whole batches -/

/-- What was planned to be left undone of an operation is used up, and of no other. -/
def Spent (operation : Operation) (s s' : MemoryStore) : Prop :=
  ∀ other, (s'.faults.takeUndone other).1 = if other = operation then 0 else (s.faults.takeUndone other).1

/-- A batch fails by plan, or for the number of its entries, or it takes up what is planned to be left undone. -/
theorem batch_eq {α : Type} (operation : Operation) (check : Except StoreError Unit) (rest : Nat → Action α)
    (s : MemoryStore) :
    (do record operation; ask fun _ => check; let undone ← takeUndone operation; rest undone : Action α) s =
      match (s.faults.note operation).1, check with
      | .error e, _ => (.error e, { s with faults := (s.faults.note operation).2 })
      | .ok _, .error e => (.error e, { s with faults := (s.faults.note operation).2 })
      | .ok _, .ok _ => rest (s.faults.takeUndone operation).1
          { s with faults := ((s.faults.note operation).2.takeUndone operation).2 } := by
  cases hnote : (s.faults.note operation).1 with
  | error e =>
    have hrecord : (record operation s).1 = .error e := hnote
    rw [Call.bind_of_error hrecord]
    rfl
  | ok u =>
    have hrecord : (record operation s).1 = .ok u := hnote
    rw [Call.bind_of_ok hrecord]
    cases check with
    | error e => rfl
    | ok _ =>
      have hundone : (s.faults.takeUndone operation).1 = ((s.faults.note operation).2.takeUndone operation).1 := by
        rw [Faults.takeUndone, Faults.takeUndone, Faults.note_undone]
      rw [hundone]
      rfl

theorem spent_batch {operation : Operation}
    (h : s'.faults = ((s.faults.note operation).2.takeUndone operation).2) : Spent operation s s' := by
  intro other
  rw [h, Faults.takeUndone_takeUndone, Faults.takeUndone, Faults.takeUndone, Faults.note_undone]

/-- **A batch get** that is answered is split, and changes no table. -/
theorem batchGet_ok {r : BatchGetRequest} {response : BatchGetResponse} (h : batchGet r s = (.ok response, s')) :
    (∃ parts, GetSplit s (s.faults.takeUndone .batchGetItem).1 r response parts) ∧ s'.tables = s.tables ∧
      Spent .batchGetItem s s' := by
  rw [batchGet, batch_eq] at h
  split at h
  · cases h
  · cases h
  · obtain ⟨hresponse, rfl⟩ := Prod.mk.inj h
    obtain ⟨parts, hsplit⟩ := getTables_ok hresponse
    exact ⟨⟨parts, hsplit.tables, hsplit.keys, hsplit.left, hsplit.found, hsplit.items, hsplit.unprocessed⟩, rfl,
      spent_batch rfl⟩

/-- A batch write is answered in parts, of which so many entries are left, or all if there are no more. The tables of
all parts are there. -/
structure WriteSplit (s s' : MemoryStore) (undone : Nat) (r : BatchWriteRequest) (response : BatchWriteResponse)
    (parts : List (Part WriteEntry)) : Prop where
  tables : r.tables = parts.map Part.entries
  left : (parts.map (·.left.length)).sum = min undone (batchSize (·.length) r.tables)
  known : s.Knows parts
  applied : Applied (parts.flatMap Part.todo) s s'
  unprocessed : response.unprocessed = parts.filterMap Part.handedBack

/-- **A batch write** that is answered is split. -/
theorem batchWrite_ok {r : BatchWriteRequest} {response : BatchWriteResponse}
    (h : batchWrite r s = (.ok response, s')) :
    (∃ parts, WriteSplit s s' (s.faults.takeUndone .batchWriteItem).1 r response parts) ∧
      Spent .batchWriteItem s s' := by
  rw [batchWrite, batch_eq] at h
  split at h
  · cases h
  · cases h
  · obtain ⟨s₁, hrun, hknown, happlied, hfaults⟩ | ⟨e, s₁, hrun, -⟩ :=
      writeTables_cases (s.faults.takeUndone .batchWriteItem).1 r.tables
        { s with faults := ((s.faults.note .batchWriteItem).2.takeUndone .batchWriteItem).2 }
    · rw [hrun] at h
      cases h
      exact ⟨⟨_, (Part.entries_cut _ _).symm, Part.left_cut _ _, hknown, happlied, rfl⟩, spent_batch hfaults⟩
    · rw [hrun] at h
      cases h

/--
**A batch is done but for what it hands back.** A batch that is answered is split into parts, one for each of its tables
in their order, all of which are there. Of the entries for a table the first ones are done and the others are handed
back, all together as many as were planned to be left undone, or all if there are no more; the plan is used up. For keys
the answer lists the items that are there, in their order, and what is handed back asks for the same of the rest; no
table is changed. Writes that are done have been taken by their tables one after the other, and nothing else has.
-/
theorem batches_split (s s' : MemoryStore) :
    (∀ (r : BatchGetRequest) (response : BatchGetResponse), batchGet r s = (.ok response, s') →
      (∃ parts, GetSplit s (s.faults.takeUndone .batchGetItem).1 r response parts) ∧ s'.tables = s.tables ∧
        Spent .batchGetItem s s') ∧
    ∀ (r : BatchWriteRequest) (response : BatchWriteResponse), batchWrite r s = (.ok response, s') →
      (∃ parts, WriteSplit s s' (s.faults.takeUndone .batchWriteItem).1 r response parts) ∧
        Spent .batchWriteItem s s' :=
  ⟨fun _ _ => batchGet_ok, fun _ _ => batchWrite_ok⟩

/-- Two tables, of which the first hands back both of its keys and the second one of two, and then a write to each that
is done and one that is handed back. -/
theorem batches_split_twice :
    let item (id : String) : Item := [("id", .text id)]
    let table (name id : String) : Table := ⟨⟨name, ⟨⟨"id", .text⟩, none⟩, []⟩, [(.text id, [(none, item id)])]⟩
    let s : MemoryStore :=
      ⟨[("a", table "a" "1"), ("b", table "b" "2")], { undone := [(.batchGetItem, 3), (.batchWriteItem, 1)] }⟩
    let gets : BatchGetRequest :=
      ⟨[("a", { keys := [item "1", item "2"], consistent := some true }), ("b", { keys := [item "2", item "1"] })]⟩
    let answer : BatchGetResponse := ⟨[("a", []), ("b", [item "2"])],
      [("a", { keys := [item "1", item "2"], consistent := some true }), ("b", { keys := [item "1"] })]⟩
    let writes : BatchWriteRequest :=
      ⟨[("a", [.ofKey (item "1"), .ofItem (item "3")]), ("b", [.ofItem (item "4")])]⟩
    let left : BatchWriteResponse := ⟨[("a", [.ofItem (item "3")])]⟩
    ((batchGet gets s).1 = .ok answer ∧ (∃ parts, GetSplit s 3 gets answer parts) ∧
      Spent .batchGetItem s (batchGet gets s).2) ∧
    (batchWrite writes s).1 = .ok left ∧
      ((batchWrite writes s).2.tables.map fun entry => entry.2.items) = [[], [item "2", item "4"]] ∧
      (∃ parts, WriteSplit s (batchWrite writes s).2 1 writes left parts) ∧
      Spent .batchWriteItem s (batchWrite writes s).2 := by
  intro item table s gets answer writes left
  have hget : (batchGet gets s).1 = .ok answer := by
    unfold s gets answer table item
    cbv
  have hwrite : (batchWrite writes s).1 = .ok left := by
    unfold s writes left table item
    cbv
  have hitems : ((batchWrite writes s).2.tables.map fun entry => entry.2.items) = [[], [item "2", item "4"]] := by
    unfold s writes table item
    cbv
  have hgets : batchGet gets s = (.ok answer, (batchGet gets s).2) := Prod.ext hget rfl
  have hwrites : batchWrite writes s = (.ok left, (batchWrite writes s).2) := Prod.ext hwrite rfl
  obtain ⟨hgot, -, hspent⟩ := (batches_split s _).1 gets answer hgets
  obtain ⟨hwritten, hspent'⟩ := (batches_split s _).2 writes left hwrites
  exact ⟨⟨hget, hgot, hspent⟩, hwrite, hitems, hwritten, hspent'⟩

/--
**A batch write that is refused** by plan, or for the number of its entries, changes no table. Else it has stopped at
the first table that is not there or at the first entry that its table refuses: what comes before has been done, table
by table, and this entry and all that come later have not, nor has what is to be handed back.
-/
theorem batchWrite_refused {r : BatchWriteRequest} (h : batchWrite r s = (.error e, s')) :
    s'.tables = s.tables ∧ (s.faults.Plans .batchWriteItem e ∨ batchSize (·.length) r.tables = 0 ∨
        maxBatchWrite < batchSize (·.length) r.tables) ∨
      ∃ parts : List (Part WriteEntry), r.tables = parts.map Part.entries ∧
        (parts.map (·.left.length)).sum =
          min (s.faults.takeUndone .batchWriteItem).1 (batchSize (·.length) r.tables) ∧ Stopped parts s s' e := by
  rw [batchWrite, batch_eq] at h
  split at h
  · rename_i hnote
    cases h
    exact .inl ⟨rfl, .inl (Faults.plans_of_note hnote)⟩
  · rename_i hcheck
    cases h
    refine .inl ⟨rfl, .inr ?_⟩
    unfold checkBatch at hcheck
    split at hcheck
    · assumption
    · cases hcheck
  · obtain ⟨s₁, hrun, -⟩ | ⟨e', s₁, hrun, hstopped⟩ := writeTables_cases (s.faults.takeUndone .batchWriteItem).1
      r.tables { s with faults := ((s.faults.note .batchWriteItem).2.takeUndone .batchWriteItem).2 }
    · rw [hrun] at h
      cases h
    · rw [hrun] at h
      cases h
      refine .inr ⟨_, (Part.entries_cut _ _).symm, Part.left_cut _ _, ?_⟩
      -- the state from which the tables are written differs from the first one in its faults alone
      cases hstopped with
      | noTable before hparts hk happlied hnone => exact .noTable before hparts hk happlied hnone
      | refused before hparts hk hdone happlied ht hw => exact .refused before hparts hk hdone happlied ht hw

/-- A batch of which the first table takes all writes but one that is handed back, and the second refuses a key that is
no text after it has taken an item. -/
theorem batchWrite_refused_second :
    let item (id : String) : Item := [("id", .text id)]
    let table (name : String) : Table := ⟨⟨name, ⟨⟨"id", .text⟩, none⟩, []⟩, []⟩
    let s : MemoryStore := ⟨[("a", table "a"), ("b", table "b")], { undone := [(.batchWriteItem, 1)] }⟩
    let r : BatchWriteRequest :=
      ⟨[("a", [.ofItem (item "1"), .ofItem (item "2")]),
        ("b", [.ofItem (item "3"), .ofKey [("id", .number "4")], .ofItem (item "5")])]⟩
    let e : StoreError := ofTableError (.wrongType "id" (some .text) .number)
    (batchWrite r s).1 = .error e ∧
      ((batchWrite r s).2.tables.map fun entry => entry.2.items) = [[item "1"], [item "3"]] ∧
      ∃ parts : List (Part WriteEntry), r.tables = parts.map Part.entries ∧
        (parts.map (·.left.length)).sum = 1 ∧ Stopped parts s (batchWrite r s).2 e := by
  intro item table s r e
  have herror : (batchWrite r s).1 = .error e := by rfl
  have hitems : ((batchWrite r s).2.tables.map fun entry => entry.2.items) = [[item "1"], [item "3"]] := by rfl
  have hrun : batchWrite r s = (.error e, (batchWrite r s).2) := Prod.ext herror rfl
  obtain ⟨htables, -⟩ | ⟨parts, hparts, hleft, hstopped⟩ := batchWrite_refused hrun
  · rw [htables] at hitems
    cases hitems
  · exact ⟨herror, hitems, parts, hparts, hleft, hstopped⟩

/-- A batch write that is refused may have been done in part: an item is put before the one that has no key. -/
theorem batchWrite_half_done :
    ¬ ∀ (s s' : MemoryStore) (r : BatchWriteRequest) (e : StoreError), batchWrite r s = (.error e, s') →
      ∀ name, (s'.tables.find name).map Table.items = (s.tables.find name).map Table.items := by
  intro h
  let s : MemoryStore := ⟨[("t", .empty ⟨"t", ⟨⟨"id", .text⟩, none⟩, []⟩)], {}⟩
  let r : BatchWriteRequest := ⟨[("t", [.ofItem [("id", .text "1")], .ofItem [("x", .text "2")]])]⟩
  have herror : (batchWrite r s).1 = .error (ofTableError (.missingKey "id")) := by rfl
  have hrun : batchWrite r s = (.error (ofTableError (.missingKey "id")), (batchWrite r s).2) := Prod.ext herror rfl
  have hsame := h s _ r _ hrun "t"
  have hitems : ((batchWrite r s).2.tables.find "t").map Table.items = some [[("id", .text "1")]] := by rfl
  rw [hitems] at hsame
  cases hsame

end MemoryStore

end RecordStore
