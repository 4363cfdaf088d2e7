import RecordStore.Proofs.Paging.Starting

/-!
# How a page is filled

A page holds what the read returns of the items to be read from its start on, up to some place, and its cursor leads to
this place; without a cursor it holds all (`Page.Filled`). **`Page.rounds_fills`**: reads that follow on one another
fill a page, however many items each looks at and whichever of them fail, or one of the planned failures is gone. The
bound on their number is never reached, since each leaves fewer items to be read. If no read fails, the page is of its
size unless it is the last one (`Page.Sized`). **`Page.read_comes`** says the same of `Page.read`, **`Page.read_whole`**
that a page of no given size holds all that is read, and **`Page.read_sized`** that one of a size holds the first ones.
-/

namespace RecordStore

open MemoryStore (partOf taken)

/-! ## Where a page is cut -/

namespace TableRead

/-- The item of which the `n`-th of what is returned is returned. -/
theorem outputs_split (w : TableRead) : ∀ {items : List Item} {n : Nat}, n < (w.outputs items).length →
    ∃ before item after, items = before ++ item :: after ∧
      w.outputs (before ++ [item]) = (w.outputs items).take (n + 1) ∧ (w.outputs items)[n]? = some (w.output item)
  | [], _, h => by cases h
  | item :: items, n, h => by
    by_cases hsel : w.selects item = true
    · have hcons : ∀ xs, w.outputs (item :: xs) = w.output item :: w.outputs xs := fun xs => by
        rw [outputs_cons, outputs_singleton, if_pos hsel]; rfl
      rw [hcons] at h ⊢
      cases n with
      | zero => exact ⟨[], item, items, rfl, hcons [], rfl⟩
      | succ n =>
        obtain ⟨before, x, after, hi, htake, hget⟩ := outputs_split w (Nat.lt_of_succ_lt_succ h)
        refine ⟨item :: before, x, after, by rw [hi]; rfl, ?_, hget⟩
        rw [List.cons_append, hcons, htake]
        rfl
    · have hcons : ∀ xs, w.outputs (item :: xs) = w.outputs xs := fun xs => by
        rw [outputs_cons, outputs_singleton, if_neg hsel]; rfl
      rw [hcons] at h ⊢
      obtain ⟨before, x, after, hi, htake, hget⟩ := outputs_split w h
      exact ⟨item :: before, x, after, by rw [hi]; rfl, by rw [List.cons_append, hcons, htake], hget⟩

end TableRead

namespace Page

/-! ## What a page holds -/

/-- A page filled from the items to be read. -/
inductive Filled (t : Table) (w : TableRead) (items : List Item) : Page → Prop
  /-- All of them. -/
  | last : Filled t w items ⟨w.outputs items, none⟩
  /-- Some of them, with a cursor that leads to the rest. -/
  | more {done left : List Item} {key : Key} : items = done ++ left → w.outputs done ≠ [] →
      t.Leads w (some key) left → Filled t w items ⟨w.outputs done, cursorTo (some key)⟩

/-- What a selection reads of a table in order, page by page. -/
structure Readable (what : Selection) (descending : Bool) (t : Table) (w : TableRead) : Prop where
  sound : t.Sound
  partition : t.shape.key.partition.type ≠ .number
  plan : what.plan t descending = .ok w
  evaluates : w.Evaluates (t.rows w)
  keyFields : ∀ f, f ∈ what.keyFields ↔ f ∈ (t.shape.readOrder w.index).filterMap fun k => k.map (·.name)

/-- Each item is returned with the fields of its key. -/
def Keyed (what : Selection) (t : Table) (w : TableRead) : Prop :=
  ∀ item ∈ t.rows w, (keyFrom what.keyFields (w.output item)).isSome

/-- A page that holds as many items as it should: no more than its size, and just as many if another page follows. -/
structure Sized (size : Option Nat) (page : Page) : Prop where
  atMost : ∀ n ∈ size, page.items.length ≤ n
  more : page.nextCursor.isSome → size = some page.items.length

variable {what : Selection} {descending : Bool} {t : Table} {w : TableRead}

/-- A full page is filled from the items read so far and those left. -/
theorem full_filled (hr : Readable what descending t w) {size : Nat} (hsize : 0 < size) {done left : List Item}
    {last : Option Key} (hlen : size ≤ (w.outputs done).length) (hrows : done ++ left <:+ t.rows w)
    (hlast : ∀ key, last = some key → t.Leads w (some key) left) (hnone : last = none → left = []) :
    Filled t w (done ++ left) (full what (w.outputs done) size last) := by
  have hne : w.outputs done ≠ [] := List.ne_nil_of_length_pos (Nat.lt_of_lt_of_le hsize hlen)
  unfold full
  dsimp only
  split
  · -- the page is cut behind an item that has its key
    rename_i key hcut
    split at hcut
    · rename_i hlt
      obtain ⟨before, item, after, hdone, htake, hget⟩ := @TableRead.outputs_split w done (size - 1) (by omega)
      rw [Nat.sub_add_cancel hsize] at htake
      rw [hget, Option.bind_some] at hcut
      have hmem : item ∈ t.rows w := hrows.subset (by rw [hdone]; simp)
      have ho := hr.sound.ordered item (Table.mem_rows hmem).1
      have hkey := Table.keyFrom_eq hcut hr.keyFields ho (Table.within_output w item)
      rw [← htake, hkey]
      have hnext := Table.leads_of_suffix hrows (by rw [hdone, List.append_assoc, List.cons_append])
      refine .more (by rw [hdone]; simp) ?_ hnext
      rw [htake]
      exact List.ne_nil_of_length_pos (by rw [List.length_take]; omega)
    · cases hcut
  · cases last with
    | none =>
      cases hnone rfl
      rw [List.append_nil]
      exact .last
    | some key => exact .more rfl hne (hlast key rfl)

/-- A full page is of its size if items are returned with their keys. -/
theorem full_sized (hkeyed : Keyed what t w) {size : Nat} (hsize : 0 < size) {done left : List Item} {last : Option Key}
    (hlen : size ≤ (w.outputs done).length) (hrows : done ++ left <:+ t.rows w) :
    (full what (w.outputs done) size last).Sized (some size) := by
  unfold full
  by_cases hlt : size < (w.outputs done).length
  · -- the item at the cut has its key
    obtain ⟨before, item, after, hdone, -, hget⟩ := @TableRead.outputs_split w done (size - 1) (by omega)
    have hmem : item ∈ t.rows w := hrows.subset (by rw [hdone]; simp)
    obtain ⟨key, hkey⟩ := Option.isSome_iff_exists.1 (hkeyed item hmem)
    simp only [hlt, if_true, hget, Option.bind_some, hkey]
    have htake : ((w.outputs done).take size).length = size := by
      rw [List.length_take]
      omega
    exact ⟨fun n hn => by cases hn; exact Nat.le_of_eq htake, fun _ => by rw [htake]⟩
  · have heq : (w.outputs done).length = size := by omega
    simp only [hlt, if_false]
    exact ⟨fun n hn => by cases hn; exact Nat.le_of_eq heq, fun _ => by rw [heq]⟩

/-! ## One read after the other -/

section Steps

variable {σ : Type} [Store σ] {size cap : Option Nat} {n : Nat} {buffer : List Item} {start : Option Key} {st st' : σ}

theorem rounds_of_error {e : StoreError} (h : readPart what descending cap start st = (.error e, st')) :
    rounds what descending size cap (n + 1) buffer start st =
      if buffer.isEmpty then (.error (.store e), st') else (.ok ⟨buffer, cursorTo start⟩, st') := by
  rw [rounds, Call.bind_eq, Call.attempt_eq, Call.mapError_eq, h]
  cases buffer <;> rfl

theorem rounds_of_ok {items : List Item} {last : Option Key} :
    readPart what descending cap start st = (.ok (items, last), st') →
    rounds what descending size cap (n + 1) buffer start st =
      match size.filter fun size => size ≤ (buffer ++ items).length, last with
      | some size, _ => (.ok (full what (buffer ++ items) size last), st')
      | none, some key => rounds what descending size cap n (buffer ++ items) (some key) st'
      | none, none => (.ok ⟨buffer ++ items, none⟩, st') := by
  intro h
  rw [rounds, Call.bind_eq, Call.attempt_eq, Call.mapError_eq, h]
  simp only [Except.mapError]
  cases size.filter fun size => size ≤ (buffer ++ items).length <;> cases last <;> rfl

end Steps

/-! ## Pages of a store in memory -/

variable {s s' : MemoryStore} {start : Option Key} {items : List Item} {size cap : Option Nat}

/--
What filling a page comes to: a page, or a failure that was planned. If none happens, the page is of its size, as far as
items are returned with their keys.
-/
inductive Comes (what : Selection) (t : Table) (w : TableRead) (size : Option Nat) (items : List Item)
    (s : MemoryStore) : Except AccessError Page × MemoryStore → Prop
  | filled {page : Page} {s' : MemoryStore} : Filled t w items page → s'.tables = s.tables →
      s'.faults.failures.length ≤ s.faults.failures.length →
      (s'.faults.failures.length = s.faults.failures.length → (∀ n ∈ size, Keyed what t w) → page.Sized size) →
      Comes what t w size items s (.ok page, s')
  | failed {e : AccessError} {s' : MemoryStore} : s'.tables = s.tables →
      s'.faults.failures.length < s.faults.failures.length → Comes what t w size items s (.error e, s')

theorem Comes.mono {o : Except AccessError Page × MemoryStore} (h : Comes what t w size items s' o)
    (ht : s'.tables = s.tables) (hf : s'.faults.failures.length ≤ s.faults.failures.length) :
    Comes what t w size items s o := by
  cases h with
  | filled hp ht' hf' hsized =>
    refine .filled hp (ht'.trans ht) (Nat.le_trans hf' hf) fun heq => hsized ?_
    omega
  | failed ht' hf' => exact .failed (ht'.trans ht) (Nat.lt_of_lt_of_le hf' hf)

/-- A page of no given size holds all there is if no failure is planned. -/
theorem Comes.whole {page : Page} (h : Comes what t w none items s (.ok page, s')) (hs : t.Sound)
    (hf : s.faults.failures = []) : page = ⟨w.outputs items, none⟩ := by
  cases h with
  | filled hp _ hlen hsized =>
    rw [hf, List.length_nil] at hlen hsized
    have hwhole := hsized (Nat.le_zero.1 hlen) nofun
    cases hp with
    | last => rfl
    | more _ _ hl =>
      obtain ⟨token, htoken, -⟩ := hl.cursor hs
      have hnone := hwhole.more (by rw [htoken]; rfl)
      cases hnone

/-- One read is a part of a page, unless its call fails. -/
theorem exists_part (hr : Readable what descending t w) (ht : s.tables.find what.table = some t)
    (hcap : ∀ n ∈ cap, 0 < n) (hopens : t.Opens w start items) : ∃ r, t.Part w items r ∧
      readPart what descending cap start s = ((s.faults.note what.kind.operation).1.map fun _ => r,
        { s with faults := (s.faults.note what.kind.operation).2 }) := by
  obtain ⟨r, hread, hpart⟩ := hopens.read hr.evaluates s.faults cap
  refine ⟨taken r, hpart, ?_⟩
  rw [MemoryStore.readPart_eq ht hcap descending start, hr.plan]
  simp only [bind, Except.bind, hread]
  cases (s.faults.note what.kind.operation).1 <;> rfl

/-- One read is a part of a page, or a failure that was planned. -/
theorem readPart_part (hr : Readable what descending t w) (ht : s.tables.find what.table = some t)
    (hcap : ∀ n ∈ cap, 0 < n) (hopens : t.Opens w start items) :
    (∃ r s', readPart what descending cap start s = (.ok r, s') ∧ t.Part w items r ∧ s'.tables = s.tables ∧
      s'.faults.failures.length ≤ s.faults.failures.length) ∨
    ∃ e s', readPart what descending cap start s = (.error e, s') ∧ s'.tables = s.tables ∧
      s'.faults.failures.length < s.faults.failures.length := by
  obtain ⟨r, hpart, hread⟩ := exists_part hr ht hcap hopens
  rcases s.faults.note_cases what.kind.operation with ⟨e, hn, hlen⟩ | ⟨hn, hlen⟩
  · rw [hn] at hread
    exact .inr ⟨e, _, hread, rfl, Nat.lt_of_succ_le (Nat.le_of_eq hlen)⟩
  · rw [hn] at hread
    exact .inl ⟨r, _, hread, hpart, rfl, Nat.le_of_eq hlen⟩

/-- **Reads that follow on one another fill a page**, unless one fails before anything is returned. -/
theorem rounds_fills (hr : Readable what descending t w) (hsize : ∀ n ∈ size, 0 < n) (hcap : ∀ n ∈ cap, 0 < n) :
    ∀ {n : Nat} {done items : List Item} {start : Option Key} {s : MemoryStore},
    items.length < n → s.tables.find what.table = some t → done ++ items <:+ t.rows w → t.Opens w start items →
      (done ≠ [] → ∃ key, start = some key ∧ t.Leads w (some key) items) →
      Comes what t w size (done ++ items) s (rounds what descending size cap n (w.outputs done) start s)
  | 0, _, _, _, _, h, _, _, _, _ => absurd h (Nat.not_lt_zero _)
  | n + 1, done, items, start, s, hn, ht, hrows, hopens, hstart => by
    rcases readPart_part hr ht hcap hopens with ⟨r, s', hread, hpart, htables, hlen⟩ | ⟨e, s', hread, htables, hlen⟩
    · cases hpart with
      | last =>
        rw [rounds_of_ok hread, ← TableRead.outputs_append]
        cases hfull : size.filter fun size => size ≤ (w.outputs (done ++ items)).length with
        | none =>
          refine .filled .last htables hlen fun _ _ => ⟨?_, nofun⟩
          intro size' hsome
          have hnot := Option.filter_eq_none_iff.1 hfull size' hsome
          rw [decide_eq_true_eq] at hnot
          exact Nat.le_of_not_le hnot
        | some size' =>
          obtain ⟨hsome, hle⟩ := Option.filter_eq_some_iff.1 hfull
          rw [decide_eq_true_eq] at hle
          have hwhole : done ++ items ++ [] <:+ t.rows w := by rwa [List.append_nil]
          have hall := @full_filled _ _ _ _ hr size' (hsize _ hsome) _ _ none hle hwhole nofun fun _ => rfl
          rw [List.append_nil] at hall
          refine .filled hall htables hlen fun _ hkeyed => ?_
          rw [Option.mem_def.1 hsome]
          exact full_sized (hkeyed size' hsome) (hsize _ hsome) hle hwhole
      | @more now left key hi hnow hleads =>
        subst hi
        rw [← List.append_assoc] at hrows ⊢
        rw [rounds_of_ok hread, ← TableRead.outputs_append]
        cases hfull : size.filter fun size => size ≤ (w.outputs (done ++ now)).length with
        | none =>
          have hpos := List.length_pos_of_ne_nil hnow
          rw [List.length_append] at hn
          have hopens' := hleads.opens hr.sound hr.partition
          have hnext := rounds_fills hr hsize hcap (n := n) (s := s') (by omega) (by rw [htables]; exact ht) hrows
            hopens' fun _ => ⟨key, rfl, hleads⟩
          exact hnext.mono htables hlen
        | some size' =>
          obtain ⟨hsome, hle⟩ := Option.filter_eq_some_iff.1 hfull
          rw [decide_eq_true_eq] at hle
          refine .filled ?_ htables hlen fun _ hkeyed => ?_
          · exact full_filled hr (hsize _ hsome) hle hrows (by rintro _ ⟨⟩; exact hleads) nofun
          · rw [Option.mem_def.1 hsome]
            exact full_sized (hkeyed size' hsome) (hsize _ hsome) hle hrows
    · rw [rounds_of_error hread]
      split
      · exact .failed htables hlen
      · rename_i hne
        obtain ⟨key, rfl, hleads⟩ := hstart (by rintro rfl; exact hne rfl)
        exact .filled (.more rfl (by simpa using hne) hleads) htables (Nat.le_of_lt hlen) fun heq =>
          absurd heq (Nat.ne_of_lt hlen)

/-! ## Whole pages -/

theorem rows_length (t : Table) (w : TableRead) : (t.rows w).length ≤ t.count := by
  have hpositioned : (t.positioned (t.shape.readOrder w.index)).length ≤ t.count := List.length_filterMap_le _ _
  rw [Table.rows, List.length_map, Table.ordered]
  cases w.forward <;> simpa using hpositioned

/-- No table has more items than all of them. -/
theorem count_le_totalCount {name : String} (ht : s.tables.find name = some t) : t.count ≤ s.totalCount := by
  have h : ∀ {tables : Fields Table}, tables.find name = some t →
      t.count ≤ MemoryStore.batchSize (·.count) tables := by
    intro tables ht
    induction tables with
    | nil => cases ht
    | cons entry tables ih =>
      rw [Fields.find_cons] at ht
      rw [MemoryStore.batchSize]
      split at ht
      · cases ht; exact Nat.le_add_right _ _
      · exact Nat.le_trans (ih ht) (Nat.le_add_left _ _)
  exact h ht

theorem mem_positive? {given : Option Nat} {n : Nat} : n ∈ CapBounds.positive? given ↔ n ∈ given ∧ 0 < n := by
  rw [CapBounds.positive?, Option.mem_def, Option.filter_eq_some_iff, decide_eq_true_eq, Option.mem_def]

/-- Every read looks at an item at least if the bounds ask for it and the page is not of the greatest size. -/
theorem cap_pos {limits : CapBounds} (hmin : 0 < limits.min) {pageSize explicit : Option Nat}
    (hsize : ∀ n ∈ pageSize, n + 1 < Numeral.natBound) : ∀ n ∈ limits.cap pageSize explicit, 0 < n := by
  have hbounded : ∀ explicit, 0 < limits.bounded explicit := fun explicit => by
    change 0 < min (max (explicit.getD limits.default) limits.min) (max limits.max limits.min)
    omega
  intro n hn
  unfold CapBounds.cap at hn
  split at hn
  · cases hn
  · rename_i size hs
    cases hn
    split
    · have hlt := hsize size (Option.filter_eq_some_iff.1 hs).1
      rw [CapBounds.successor64, Nat.mod_eq_of_lt hlt]
      exact Nat.succ_pos size
    · exact hbounded _
  · cases hn
    exact hbounded _

/-- How much each read of a page looks at. -/
def capOf (settings : Settings) (paging : Paging) : Option Nat :=
  (CapBounds.ofSettings settings).cap (CapBounds.positive? paging.pageSize) paging.cap

theorem capOf_pos {settings : Settings} {paging : Paging} (hmin : 0 < settings.minCap)
    (hsize : ∀ n ∈ paging.pageSize, n + 1 < Numeral.natBound) : ∀ n ∈ capOf settings paging, 0 < n :=
  @cap_pos (CapBounds.ofSettings settings) hmin _ paging.cap fun n hn => hsize n (mem_positive?.1 hn).1

/-- A page is filled from its start on, by no more reads than the store says. -/
theorem read_eq_rounds {σ : Type} [Store σ] {st : σ} {settings : Settings} {paging : Paging}
    (hstart : Page.start settings paging.cursor = .ok start) : Page.read settings what paging st =
      rounds what paging.descending (CapBounds.positive? paging.pageSize) (capOf settings paging) (Store.readBound st)
        [] start st := by
  rw [Page.read, Call.bind_eq]
  simp only [Call.ofExcept, hstart, Call.bind_eq, Call.get_eq]
  rfl

theorem read_of_start {settings : Settings} {paging : Paging} (hstart : Page.start settings paging.cursor = .ok start) :
    Page.read settings what paging s = rounds what paging.descending (CapBounds.positive? paging.pageSize)
      (capOf settings paging) (s.totalCount + 1) [] start s :=
  read_eq_rounds hstart

/-- A page comes of a start that is read and a first read that succeeds. -/
theorem first_read {settings : Settings} {paging : Paging} {page : Page}
    (h : (Page.read settings what paging s).1 = .ok page) : ∃ start, Page.start settings paging.cursor = .ok start ∧
      ∃ r, (readPart what paging.descending (capOf settings paging) start s).1 = .ok r := by
  cases hstart : Page.start settings paging.cursor with
  | error e =>
    rw [Page.read, Call.bind_eq] at h
    simp only [Call.ofExcept, hstart] at h
    cases h
  | ok start =>
    refine ⟨start, rfl, ?_⟩
    rw [read_of_start hstart] at h
    generalize hread : readPart what paging.descending (capOf settings paging) start s = o
    obtain ⟨_ | r, s'⟩ := o
    · rw [rounds_of_error hread] at h
      cases h
    · exact ⟨r, rfl⟩

/-- **A page** is filled from the items to be read from its start on if every read looks at an item at least. -/
theorem read_comes (hr : Readable what descending t w) {settings : Settings} {paging : Paging}
    (hcap : ∀ n ∈ capOf settings paging, 0 < n) (hd : paging.descending = descending)
    (ht : s.tables.find what.table = some t) (hstart : Page.start settings paging.cursor = .ok start)
    (hopens : t.Opens w start items) :
    Comes what t w (CapBounds.positive? paging.pageSize) items s (Page.read settings what paging s) := by
  subst hd
  have hbound : items.length < s.totalCount + 1 := Nat.lt_succ_of_le
    (Nat.le_trans hopens.suffix.length_le (Nat.le_trans (rows_length t w) (count_le_totalCount ht)))
  rw [read_of_start hstart]
  exact @rounds_fills _ _ _ _ _ _ hr (fun n hn => (mem_positive?.1 hn).2) hcap _ [] _ _ _ hbound ht hopens.suffix
    hopens (fun h => absurd rfl h)

/-- The same under the bounds of the settings. -/
theorem read_fills (hr : Readable what descending t w) {settings : Settings} {paging : Paging}
    (hmin : 0 < settings.minCap) (hsize : ∀ n ∈ paging.pageSize, n + 1 < Numeral.natBound)
    (hd : paging.descending = descending) (ht : s.tables.find what.table = some t)
    (hstart : Page.start settings paging.cursor = .ok start) (hopens : t.Opens w start items) :
    Comes what t w (CapBounds.positive? paging.pageSize) items s (Page.read settings what paging s) :=
  read_comes hr (capOf_pos hmin hsize) hd ht hstart hopens

/-- Pages are read only of what can be planned. -/
theorem plan_of_read {settings : Settings} {paging : Paging} {page : Page} (hmin : 0 < settings.minCap)
    (hsize : ∀ n ∈ paging.pageSize, n + 1 < Numeral.natBound) (ht : s.tables.find what.table = some t)
    (h : (Page.read settings what paging s).1 = .ok page) : ∃ w, what.plan t paging.descending = .ok w := by
  obtain ⟨start, -, r, hread⟩ := first_read h
  rw [MemoryStore.readPart_eq ht (capOf_pos hmin hsize)] at hread
  obtain ⟨-, -, hread⟩ := bind_eq_ok.1 hread
  obtain ⟨w, hplan, -⟩ := bind_eq_ok.1 hread
  exact ⟨w, hplan⟩

/-- **A page of no given size** holds all that is read if no failure is planned. -/
theorem read_whole {settings : Settings} {paging : Paging} {page : Page} (hs : t.Sound)
    (hk : t.shape.key.partition.type ≠ .number) (hmin : 0 < settings.minCap) (hsize : paging.pageSize = none)
    (hcursor : paging.cursor = none) (ht : s.tables.find what.table = some t) (hf : s.faults.failures = [])
    (hfields : ∀ f, f ∈ what.keyFields ↔ f ∈ t.shape.keyNames (what.index.bind t.shape.index?))
    (he : ∀ w, what.plan t paging.descending = .ok w → w.Evaluates (t.rows w))
    (h : (Page.read settings what paging s).1 = .ok page) :
    ∃ w, what.plan t paging.descending = .ok w ∧ page = ⟨w.outputs (t.rows w), none⟩ := by
  have hsize' : ∀ n ∈ paging.pageSize, n + 1 < Numeral.natBound := by rw [hsize]; exact nofun
  obtain ⟨w, hplan⟩ := plan_of_read hmin hsize' ht h
  have hr : Readable what paging.descending t w := ⟨hs, hk, hplan, he w hplan, fun f => by
    rw [hfields, ← Table.mem_keyNames_iff, MemoryStore.plan_index hplan]⟩
  have hstart : Page.start settings paging.cursor = .ok none := by rw [hcursor]; rfl
  have hcomes := read_fills hr hmin hsize' rfl ht hstart (Table.Leads.start.opens hs hk)
  rw [hsize] at hcomes
  refine ⟨w, hplan, ?_⟩
  generalize Page.read settings what paging s = o at h hcomes
  obtain ⟨r, s'⟩ := o
  obtain rfl : r = .ok page := h
  exact Comes.whole hcomes hs hf

/--
**A page of a size** holds the first ones of what is returned from its start on if no failure is planned and items are
returned with their keys: as many as its size if it has a cursor, and all if it has none.
-/
theorem read_sized (hr : Readable what descending t w) {settings : Settings} {paging : Paging}
    (hmin : 0 < settings.minCap) {n : Nat} (hsize : paging.pageSize = some n) (hn : 0 < n)
    (hbound : n + 1 < Numeral.natBound) (hd : paging.descending = descending)
    (ht : s.tables.find what.table = some t) (hf : s.faults.failures = []) (hkeyed : Keyed what t w)
    (hstart : Page.start settings paging.cursor = .ok start) (hopens : t.Opens w start items) :
    ∃ page s', Page.read settings what paging s = (.ok page, s') ∧ page.items = (w.outputs items).take n ∧
      (page.nextCursor.isSome → page.items.length = n) ∧
      (page.nextCursor = none → (w.outputs items).length ≤ n) := by
  have hsize' : ∀ m ∈ paging.pageSize, m + 1 < Numeral.natBound := by
    rw [hsize]
    rintro _ ⟨⟩
    exact hbound
  have hpositive : CapBounds.positive? paging.pageSize = some n := mem_positive?.2 ⟨hsize, hn⟩
  have hcomes := read_fills hr hmin hsize' hd ht hstart hopens
  rw [hpositive] at hcomes
  generalize Page.read settings what paging s = o at hcomes
  cases hcomes with
  | failed _ hlen =>
    rw [hf] at hlen
    cases hlen
  | @filled page s' hfilled _ hlen hsized =>
    rw [hf, List.length_nil] at hlen hsized
    obtain ⟨hmost, hmore⟩ := hsized (Nat.le_zero.1 hlen) fun _ _ => hkeyed
    have hlength : page.nextCursor.isSome → page.items.length = n := fun h => (Option.some.inj (hmore h)).symm
    refine ⟨page, s', rfl, ?_, hlength, ?_⟩
    · cases hfilled with
      | last => exact (List.take_of_length_le (hmost n rfl)).symm
      | more hi _ hleads =>
        obtain ⟨token, htoken, -⟩ := hleads.cursor hr.sound
        have hdone := hlength (by rw [htoken]; rfl)
        rw [hi, TableRead.outputs_append, ← hdone, List.take_left]
    · intro hnone
      cases hfilled with
      | last => exact hmost n rfl
      | more _ _ hleads =>
        obtain ⟨token, htoken, -⟩ := hleads.cursor hr.sound
        rw [htoken] at hnone
        cases hnone

/-- **The cursor of a page** stands for a key from which a read can start, whatever cursor the page was read from. -/
theorem read_cursor (hr : Readable what descending t w) {settings : Settings} {paging : Paging} {page : Page}
    (hmin : 0 < settings.minCap) (hsize : ∀ n ∈ paging.pageSize, n + 1 < Numeral.natBound)
    (hd : paging.descending = descending) (ht : s.tables.find what.table = some t)
    (h : (Page.read settings what paging s).1 = .ok page) : ∀ token ∈ page.nextCursor, ∃ key,
      Cursor.decode token = .ok key ∧ Table.Stands (t.shape.readOrder w.index) key ∧
      ∀ settings, Page.start settings (some token) = .ok (some key) := by
  obtain ⟨start, hstart, r, hread⟩ := first_read h
  rcases hr.sound.opens_or_refused hr.partition w start with ⟨items, hopens⟩ | ⟨e, hrefused⟩
  · have hcomes := read_fills hr hmin hsize hd ht hstart hopens
    generalize Page.read settings what paging s = o at h hcomes
    obtain ⟨_, s'⟩ := o
    obtain rfl := h
    cases hcomes with
    | filled hfilled =>
      cases hfilled with
      | last => exact nofun
      | more _ _ hleads =>
        obtain ⟨token, htoken, hdecode, hnext⟩ := hleads.cursor hr.sound
        rw [htoken]
        rintro _ ⟨⟩
        exact ⟨_, hdecode, hleads.stands, hnext⟩
  · -- the first read would have been refused
    rw [MemoryStore.readPart_eq ht (capOf_pos hmin hsize), hd, hr.plan] at hread
    obtain ⟨-, -, hread⟩ := bind_eq_ok.1 hread
    simp only [bind, Except.bind, partOf, Table.read_eq, hrefused] at hread
    cases hread

end Page

end RecordStore
