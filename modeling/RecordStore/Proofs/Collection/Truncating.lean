import RecordStore.Proofs.Collection.Pages

/-!
# Reading all at once

A query that returns all its records is one page of no given size, of which the cursor is dropped. If a planned failure
hits a read after the first ones, the page ends there, and the records that its cursor would lead to are missing:
`Page.Unsized` says what such a page comes to.

**`Collection.reads_all_or_cut`**: what a query returns without an error is all that it would return without failures,
or a failure has happened and it is the beginning of that, up to the dropped cursor. `Collection.cut_short` is a query
that succeeds and misses a record.
-/

namespace RecordStore

namespace MemoryStore

variable {s : MemoryStore} {t : Table} {r : ScanRequest} {w : TableRead}

/-- What is read of a table has a limit that is accepted. -/
theorem tableRead_limit {keyCondition : Option (Option String)} {forward : Bool}
    (h : s.tableRead t r keyCondition forward = .ok w) : ∃ limit, checkLimit r.limit = .ok limit := by
  have heq : s.tableRead t r keyCondition forward = _ := tableRead_eq s t r keyCondition forward r.limit r.after
  rw [heq] at h
  obtain ⟨_, -, h⟩ := bind_eq_ok.1 h
  obtain ⟨limit, hlimit, -⟩ := bind_eq_ok.1 h
  exact ⟨limit, hlimit⟩

theorem read_limit {keyCondition : Option (Option String)} {forward : Bool} {response : ReadResponse}
    (h : s.read r keyCondition forward = .ok response) : ∃ limit, checkLimit r.limit = .ok limit := by
  obtain ⟨t, -, h⟩ := bind_eq_ok.1 h
  obtain ⟨w, hw, -⟩ := bind_eq_ok.1 h
  exact tableRead_limit hw

/-- A limit that is accepted is positive. -/
theorem pos_of_checkLimit {cap : Option Nat} {limit : Option Nat}
    (h : checkLimit (cap.map Numeral.saturate32) = .ok limit) : ∀ n ∈ cap, 0 < n := by
  rintro n hn
  rw [Option.mem_def.1 hn, Option.map_some, checkLimit] at h
  refine Nat.pos_of_ne_zero ?_
  rintro rfl
  cases h

/-- A part of a page is only read with a limit that is positive, if there is one. -/
theorem pos_of_readPart {what : Selection} {descending : Bool} {cap : Option Nat} {start : Option Key}
    {part : List Item × Option Key} (h : (Page.readPart what descending cap start s).1 = .ok part) :
    ∀ n ∈ cap, 0 < n := by
  unfold Page.readPart at h
  cases hk : what.kind with
  | query =>
    simp only [hk, Call.map_eq, Store.query, query, record_ask] at h
    obtain ⟨response, h, -⟩ := map_eq_ok.1 h
    obtain ⟨_, -, h⟩ := bind_eq_ok.1 h
    obtain ⟨limit, hlimit⟩ := read_limit h
    exact pos_of_checkLimit hlimit
  | scan =>
    simp only [hk, Call.map_eq, Store.scan, scan, record_ask] at h
    obtain ⟨response, h, -⟩ := map_eq_ok.1 h
    obtain ⟨_, -, h⟩ := bind_eq_ok.1 h
    obtain ⟨limit, hlimit⟩ := read_limit h
    exact pos_of_checkLimit hlimit

/-- A part of a page that was read was planned. -/
theorem plan_of_readPart {what : Selection} {descending : Bool} {cap : Option Nat} {start : Option Key}
    {part : List Item × Option Key} (ht : s.tables.find what.table = some t)
    (h : (Page.readPart what descending cap start s).1 = .ok part) : ∃ w, what.plan t descending = .ok w := by
  rw [readPart_eq ht (pos_of_readPart h)] at h
  obtain ⟨_, -, h⟩ := bind_eq_ok.1 h
  obtain ⟨w, hw, -⟩ := bind_eq_ok.1 h
  exact ⟨w, hw⟩

end MemoryStore

/-! ## Pages of no given size -/

namespace Page

variable {what : Selection} {descending : Bool} {t : Table} {w : TableRead} {s s' : MemoryStore} {cap : Option Nat}
  {start : Option Key} {items : List Item}

/-- A page of no given size does not depend on the key fields, since it is never cut. -/
theorem rounds_keyFields {σ : Type} [Store σ] (fields : List String) : ∀ (n : Nat) (buffer : List Item)
    (start : Option Key) (st : σ), rounds { what with keyFields := fields } descending none cap n buffer start st =
      rounds what descending none cap n buffer start st
  | 0, _, _, _ => rfl
  | n + 1, buffer, start, st => by
    have hsame : readPart { what with keyFields := fields } descending cap start st =
      readPart what descending cap start st := rfl
    cases hread : readPart what descending cap start st with
    | mk r st' =>
      cases r with
      | error e => rw [rounds_of_error hread, rounds_of_error (hsame.trans hread)]
      | ok part =>
        obtain ⟨items, last⟩ := part
        rw [rounds_of_ok hread, rounds_of_ok (hsame.trans hread)]
        cases last with
        | none => rfl
        | some key => exact rounds_keyFields fields n (buffer ++ items) (some key) st'

/--
What a page of no given size comes to: all that is to be read, or a failure has happened and it ends in a cursor that
leads to the rest, or the failure is all there is.
-/
inductive Unsized (t : Table) (w : TableRead) (items : List Item) (s : MemoryStore) :
    Except AccessError Page × MemoryStore → Prop
  | whole {s' : MemoryStore} : Unsized t w items s (.ok ⟨w.outputs items, none⟩, s')
  | cut {s' : MemoryStore} {done left : List Item} {key : Key} {token : String} : items = done ++ left →
      s'.faults.failures.length < s.faults.failures.length → t.Opens w (some key) left →
      (∀ settings, Page.start settings (some token) = .ok (some key)) →
      Unsized t w items s (.ok ⟨w.outputs done, some token⟩, s')
  | failed {s' : MemoryStore} {e : AccessError} : s'.faults.failures.length < s.faults.failures.length →
      Unsized t w items s (.error e, s')

/-- Without failures it is all that is to be read. -/
theorem Unsized.of_no_failures {o : Except AccessError Page × MemoryStore} (h : Unsized t w items s o)
    (hf : s.faults.failures = []) : o.1 = .ok ⟨w.outputs items, none⟩ := by
  cases h with
  | whole => rfl
  | cut _ hlen => rw [hf] at hlen; cases hlen
  | failed hlen => rw [hf] at hlen; cases hlen

/-- **A page of no given size** of what can be read from a start on. -/
theorem read_unsized (hs : t.Sound) (hk : t.shape.key.partition.type ≠ .number) {settings : Settings} {paging : Paging}
    (hplan : what.plan t paging.descending = .ok w) (he : w.Evaluates (t.rows w)) (hsize : paging.pageSize = none)
    (hcap : ∀ n ∈ capOf settings paging, 0 < n) (ht : s.tables.find what.table = some t)
    (hstart : Page.start settings paging.cursor = .ok start) (hopens : t.Opens w start items) :
    Unsized t w items s (Page.read settings what paging s) := by
  let keyed : Selection :=
    { what with keyFields := (t.shape.readOrder w.index).filterMap fun k => k.map (·.name) }
  have hr : Readable keyed paging.descending t w := ⟨hs, hk, hplan, he, fun f => Iff.rfl⟩
  have hbound : items.length < s.totalCount + 1 := Nat.lt_succ_of_le
    (Nat.le_trans hopens.suffix.length_le (Nat.le_trans (rows_length t w) (count_le_totalCount ht)))
  have hcomes := @rounds_fills _ _ _ _ none _ hr nofun hcap _ [] _ _ _ hbound ht hopens.suffix hopens
    fun h => absurd rfl h
  rw [read_of_start hstart, hsize]
  rw [show rounds keyed paging.descending none _ _ _ start s = _ from rounds_keyFields _ _ _ _ s] at hcomes
  change Unsized t w items s (rounds what paging.descending none (capOf settings paging) (s.totalCount + 1) [] start s)
  change Comes keyed t w none items s
    (rounds what paging.descending none (capOf settings paging) (s.totalCount + 1) [] start s) at hcomes
  generalize rounds what paging.descending none _ _ [] start s = o at hcomes ⊢
  cases hcomes with
  | failed _ hlen => exact .failed hlen
  | filled hfilled _ hlen hsized =>
    cases hfilled with
    | last => exact .whole
    | @more done left key hi _ hleads =>
      obtain ⟨token, htoken, -, hnext⟩ := hleads.cursor hs
      rw [htoken] at hsized ⊢
      refine .cut hi ?_ (hleads.opens hs hk) hnext
      refine Nat.lt_of_le_of_ne hlen fun heq => ?_
      -- a page of no size that was not cut by a failure has no cursor
      have hmore := (hsized heq nofun).more rfl
      cases hmore

end Page

namespace Collection

variable {c : Collection} {suffix : String} {what : Selection} {hidden : List String} {t : Table} {w : TableRead}
  {s s' : MemoryStore} {q : PageQuery}

/-- The conditions of a query that passes the checks say something of every item. -/
theorem says_of_select (hsuffix : ∀ ch ∈ suffix.toList, ch.isAlphanum = true)
    (hn : q.aliasCount c.entity < Numeral.natBound) (h : c.select suffix q = .ok (what, hidden)) :
    what.table = c.entity.table ∧
      (∃ range, Says what.expressions.names what.expressions.values what.keyText.join range) ∧
      ∃ filter, Says what.expressions.names what.expressions.values what.expressions.filter filter := by
  have hwordy := wordy_of_alphanumeric hsuffix
  cases q with
  | byKey q =>
    have hlength := length_pagedFields q.fields c.entity.keyFields q.paging
    simp only [PageQuery.aliasCount, PageQuery.conditions, PageQuery.fields, PageQuery.keyFields, PageQuery.index?]
      at hn
    obtain ⟨key, x, a', hdef, hx, -, rfl⟩ := selectByKey_ok h
    have hcount := (keyDefinition_ok hdef).1
    obtain ⟨hrange, hfilter⟩ := expressionsOf_meaning hwordy (by dsimp only; omega) hx
    exact ⟨rfl, ⟨_, hrange⟩, _, hfilter⟩
  | byIndex q =>
    obtain ⟨i, key, x, a', hi, hdef, hx, -, rfl⟩ := selectByIndex_ok h
    have hlength := length_pagedFields (q.fields <|> carriedBy i (indexKeyFields c.entity i))
      (indexKeyFields c.entity i) q.paging
    simp only [PageQuery.aliasCount, PageQuery.conditions, PageQuery.fields, PageQuery.keyFields, PageQuery.index?, hi,
      Option.bind_some] at hn
    have hcount := (keyDefinition_ok hdef).1
    obtain ⟨hrange, hfilter⟩ := expressionsOf_meaning hwordy (by dsimp only; omega) hx
    exact ⟨rfl, ⟨_, hrange⟩, _, hfilter⟩
  | byFilter q =>
    have hlength := length_pagedFields q.fields c.entity.keyFields q.paging
    simp only [PageQuery.aliasCount, PageQuery.conditions, PageQuery.fields, PageQuery.keyFields, PageQuery.index?]
      at hn
    obtain ⟨filter, a', hfilter, -, rfl⟩ := selectByFilter_ok h
    have hcount : (q.filter.getD {}).aliasCount = Definition.aliasCount? q.filter := by cases q.filter <;> rfl
    have hequals := (equals_holds (q.filter.getD {}) c.entity.partitionField (.string c.entity.partitionValue)).1
    obtain ⟨hmeaning, -⟩ := ofFilter_meaning hwordy (by dsimp only; omega) hfilter
    exact ⟨rfl, ⟨_, .nothing fun _ => rfl⟩, _, hmeaning⟩

/-- Whatever is then read, its conditions can be evaluated. -/
theorem evaluates_of_select (hsuffix : ∀ ch ∈ suffix.toList, ch.isAlphanum = true)
    (hn : q.aliasCount c.entity < Numeral.natBound) (h : c.select suffix q = .ok (what, hidden)) {descending : Bool}
    (hplan : what.plan t descending = .ok w) (items : List Item) : w.Evaluates items := by
  obtain ⟨-, ⟨range, hrange⟩, filter, hfilter⟩ := says_of_select hsuffix hn h
  rw [Selection.plan_eq] at hplan
  obtain ⟨-, hkey, hpass, -, hnames, hvalues, -⟩ := MemoryStore.tableRead_ok hplan
  change w.names = what.expressions.names at hnames
  change w.values = what.expressions.values at hvalues
  rw [← hnames, ← hvalues] at hrange hfilter
  intro item _
  exact ⟨TableRead.meets_ok (hrange.meets hkey item), fun _ => TableRead.meets_ok (hfilter.meets hpass item)⟩

/-- Without failures, a page of no given size is all that its cursor opens. -/
theorem page_whole (hselect : c.select suffix q = .ok (what, hidden)) (hs : t.Sound)
    (hk : t.shape.key.partition.type ≠ .number) (hplan : what.plan t q.paging.descending = .ok w)
    (he : w.Evaluates (t.rows w)) (hsize : q.paging.pageSize = none)
    (hcap : ∀ n ∈ Page.capOf c.settings q.paging, 0 < n) {cursor : Option String} {start : Option Key}
    {items : List Item} (hstart : Page.start c.settings cursor = .ok start) (hopens : t.Opens w start items)
    (ht : s.tables.find what.table = some t) (hf : s.faults.failures = []) :
    (c.page suffix (q.withPaging { q.paging with cursor }) s).1 =
      .ok ⟨(w.outputs items).map (visible hidden), none⟩ := by
  have hunsized : Page.Unsized t w items s (Page.read c.settings what { q.paging with cursor } s) :=
    Page.read_unsized hs hk hplan he hsize hcap ht hstart hopens
  rw [page_withCursor, hselect]
  show (c.recordsOf what { q.paging with cursor } hidden s).1 = _
  rw [recordsOf, Call.bind_of_ok (hunsized.of_no_failures hf)]
  rfl

/-- A page that was read from the start, of no given size: what can be read, and what reading it comes to. -/
theorem page_unsized (hsuffix : ∀ ch ∈ suffix.toList, ch.isAlphanum = true)
    (ht : s.tables.find c.entity.table = some t) (hs : t.Sound) (hk : t.shape.key.partition.type ≠ .number)
    (hn : q.aliasCount c.entity < Numeral.natBound) (hsize : q.paging.pageSize = none)
    (hcursor : q.paging.cursor = none) {page : PageOfRecords} (h : c.page suffix q s = (.ok page, s')) :
    ∃ all, (∀ s₀ : MemoryStore, s₀.tables = s.tables → s₀.faults.failures = [] →
        (c.page suffix q s₀).1 = .ok ⟨all, none⟩) ∧
      (page = ⟨all, none⟩ ∨
        s'.faults.failures.length < s.faults.failures.length ∧ ∃ token rest, page.nextCursor = some token ∧
          (∀ s₀ : MemoryStore, s₀.tables = s.tables → s₀.faults.failures = [] →
            (c.page suffix (q.withPaging { q.paging with cursor := some token }) s₀).1 = .ok ⟨rest, none⟩) ∧
          page.items ++ rest = all) := by
  rw [page_eq] at h
  obtain ⟨⟨what, hidden⟩, hselect, h⟩ := Call.bind_ofExcept_ok h
  obtain ⟨p, s₁, hread, h⟩ := Call.bind_ok h
  obtain ⟨hpage, rfl⟩ := Prod.mk.inj h
  obtain rfl : ⟨p.items.map (visible hidden), p.nextCursor⟩ = page := Except.ok.inj hpage
  obtain ⟨htable, -⟩ := says_of_select hsuffix hn hselect
  rw [← htable] at ht
  have hstart : Page.start c.settings q.paging.cursor = .ok none := by rw [hcursor]; rfl
  -- the first read has succeeded, so it looks at an item at least, and there is a plan
  obtain ⟨start, hstart', part, hpart⟩ := Page.first_read (by rw [hread])
  have hcap := MemoryStore.pos_of_readPart hpart
  obtain ⟨w, hw⟩ := MemoryStore.plan_of_readPart ht hpart
  have heval := evaluates_of_select hsuffix hn hselect hw
  have hclean : ∀ {cursor start items}, Page.start c.settings cursor = .ok start → t.Opens w start items →
      ∀ s₀ : MemoryStore, s₀.tables = s.tables → s₀.faults.failures = [] →
        (c.page suffix (q.withPaging { q.paging with cursor }) s₀).1 =
          .ok ⟨(w.outputs items).map (visible hidden), none⟩ := by
    intro cursor start items hcursor hopens s₀ htables
    have ht₀ : s₀.tables.find what.table = some t := by rw [htables]; exact ht
    exact page_whole hselect hs hk hw (heval _) hsize hcap hcursor hopens ht₀
  have hwhole := hclean hstart (Table.Leads.start.opens hs hk)
  rw [show q.withPaging { q.paging with cursor := q.paging.cursor } = q from q.withPaging_self] at hwhole
  refine ⟨_, hwhole, ?_⟩
  have hunsized := Page.read_unsized (s := s) hs hk hw (heval _) hsize hcap ht hstart
    (Table.Leads.start.opens hs hk)
  rw [hread] at hunsized
  cases hunsized with
  | whole => exact .inl rfl
  | @cut _ done left key token hi hlen hopens hnext =>
    refine .inr ⟨hlen, token, _, rfl, hclean (hnext c.settings) hopens, ?_⟩
    rw [← List.map_append, ← TableRead.outputs_append, ← hi]

/-! ## All records -/

/--
What a call `whole` for all records has returned between two states, against what it returns of the same tables where no
failure is planned: all of that, or the records up to a failure. Then the page that was returned had a cursor, and from
this cursor on just the rest is read.
-/
structure AllOrCut (whole : Call MemoryStore AccessError (List Record))
    (pages : Option String → Call MemoryStore AccessError PageOfRecords) (s s' : MemoryStore)
    (records all : List Record) : Prop where
  unhurt : ∀ s₀ : MemoryStore, s₀.tables = s.tables → s₀.faults.failures = [] → (whole s₀).1 = .ok all
  ends : records = all ∨ s'.faults.failures.length < s.faults.failures.length ∧ ∃ token rest,
    (pages none s).1 = .ok ⟨records, some token⟩ ∧
    (∀ s₀ : MemoryStore, s₀.tables = s.tables → s₀.faults.failures = [] →
      (pages (some token) s₀).1 = .ok ⟨rest, none⟩) ∧
    records ++ rest = all

/-- All records are those of a page of no given size. -/
theorem allOrCut_of_page (hsuffix : ∀ ch ∈ suffix.toList, ch.isAlphanum = true)
    (ht : s.tables.find c.entity.table = some t) (hs : t.Sound) (hk : t.shape.key.partition.type ≠ .number)
    (hn : q.aliasCount c.entity < Numeral.natBound) (hsize : q.paging.pageSize = none)
    (hcursor : q.paging.cursor = none) {records : List Record}
    (h : (do return (← c.page suffix q).items : Call MemoryStore AccessError (List Record)) s = (.ok records, s')) :
    ∃ all, AllOrCut (do return (← c.page suffix q).items)
      (fun cursor => c.page suffix (q.withPaging { q.paging with cursor })) s s' records all := by
  obtain ⟨page, s₁, hpage, h⟩ := Call.bind_ok h
  obtain ⟨hrecords, rfl⟩ := Prod.mk.inj h
  obtain rfl : page.items = records := Except.ok.inj hrecords
  obtain ⟨all, hall, hends⟩ := page_unsized hsuffix ht hs hk hn hsize hcursor hpage
  refine ⟨all, ⟨fun s₀ htables hf => ?_, ?_⟩⟩
  · have hclean := hall s₀ htables hf
    rw [Call.bind_of_ok hclean]
    rfl
  · rcases hends with rfl | ⟨hlen, token, rest, hnext, hrest, happend⟩
    · exact .inl rfl
    · refine .inr ⟨hlen, token, rest, ?_, hrest, happend⟩
      rw [PageQuery.withPaging_first hcursor, hpage, ← hnext]

/--
**All records, or those up to a failure.** If the aliases of a request do not run out, and a query by the keys of the
table or of an index returns records without an error, they are what it returns where no failure is planned, or a
planned failure has happened and they are the beginning of that; what they lack is what the dropped cursor leads to. So
nothing is missing if no failure has happened, or if the cursor leads to nothing.
-/
theorem reads_all_or_cut {shape : TableShape} (hsuffix : ∀ ch ∈ suffix.toList, ch.isAlphanum = true)
    (ht : s.tables.find c.entity.table = some t) (hreached : t.Reached shape)
    (hkey : shape.key = ⟨⟨c.entity.partitionField, .text⟩, some ⟨c.entity.sortField, .text⟩⟩) :
    (∀ (q : KeyQuery) (records : List Record) (s' : MemoryStore),
      (PageQuery.byKey q).aliasCount c.entity < Numeral.natBound → c.queryAll suffix q s = (.ok records, s') →
      ∃ all, AllOrCut (c.queryAll suffix q)
        (fun cursor => c.query suffix { q with paging := { unpaged q.paging with cursor } }) s s' records all) ∧
    ∀ (q : IndexQuery) (records : List Record) (s' : MemoryStore),
      (PageQuery.byIndex q).aliasCount c.entity < Numeral.natBound → c.indexQueryAll suffix q s = (.ok records, s') →
      ∃ all, AllOrCut (c.indexQueryAll suffix q)
        (fun cursor => c.indexQuery suffix { q with paging := { unpaged q.paging with cursor } }) s s' records all := by
  have hs := hreached.sound
  have hk : t.shape.key.partition.type ≠ .number := by
    rw [hreached.shape_eq, hkey]
    exact nofun
  constructor
  · intro q records s' hn h
    exact allOrCut_of_page (q := .byKey { q with paging := unpaged q.paging }) hsuffix ht hs hk hn rfl rfl h
  · intro q records s' hn h
    exact allOrCut_of_page (q := .byIndex { q with paging := unpaged q.paging }) hsuffix ht hs hk hn rfl rfl h

/-- Two items, of which the store looks at one in a read. The second read is planned to fail, and the call succeeds. -/
theorem reads_all_or_cut_first :
    let shape : TableShape := ⟨"t", ⟨⟨"pk", .text⟩, some ⟨"id", .text⟩⟩, []⟩
    let item (id : String) : Item := [("id", .text id), ("pk", .text "p")]
    let c : Collection := { entity := { table := "t", partitionValue := "p", partitionField := "pk" } }
    let q : KeyQuery := { partition := "p" }
    ∃ t : Table, t.Reached shape ∧
      let s : MemoryStore :=
        ⟨[("t", t)], { failures := [⟨.query, 2, .internal⟩], ceiling := some 1 }⟩
      ∃ s' all, c.queryAll "5f" q s = (.ok [Item.toRecord (item "a")], s') ∧
        AllOrCut (c.queryAll "5f" q) (fun cursor => c.query "5f" { q with paging := { unpaged q.paging with cursor } })
          s s' [Item.toRecord (item "a")] all := by
  intro shape item c q
  have hordered : ∀ id, Fields.Ordered (item id) := fun _ =>
    List.pairwise_map.1 (show ["id", "pk"].Pairwise (· < ·) by decide)
  have hreached : Table.Reached shape
      ⟨shape, [(.text "p", [(some (.text "a"), item "a"), (some (.text "b"), item "b")])]⟩ :=
    .put (.put .empty (hordered "a") (by rfl)) (hordered "b") (by rfl)
  refine ⟨_, hreached, ?_⟩
  intro s
  have hrecords : (c.queryAll "5f" q s).1 = .ok [Item.toRecord (item "a")] := by
    unfold c q s item shape
    cbv
  obtain ⟨all, hall⟩ := (@reads_all_or_cut c "5f" _ s shape (List.all_eq_true.1 rfl) rfl hreached rfl).1 q _ _
    (by decide) (Prod.ext hrecords rfl)
  exact ⟨_, all, Prod.ext hrecords rfl, hall⟩

/-- **A query that succeeds and misses a record**, because the second read has failed. -/
theorem cut_short :
    let shape : TableShape := ⟨"t", ⟨⟨"pk", .text⟩, some ⟨"id", .text⟩⟩, []⟩
    let item (id : String) : Item := [("id", .text id), ("pk", .text "p")]
    let c : Collection := { entity := { table := "t", partitionValue := "p", partitionField := "pk" } }
    let q : KeyQuery := { partition := "p" }
    let t : Table := ⟨shape, [(.text "p", [(some (.text "a"), item "a"), (some (.text "b"), item "b")])]⟩
    let faults : Faults := { ceiling := some 1 }
    (c.queryAll "5f" q (⟨[("t", t)], faults.failAt .query 2 .internal⟩ : MemoryStore)).1 =
        .ok [Item.toRecord (item "a")] ∧
      (c.queryAll "5f" q (⟨[("t", t)], faults⟩ : MemoryStore)).1 =
        .ok [Item.toRecord (item "a"), Item.toRecord (item "b")] := by
  intro shape item c q t faults
  constructor
  · unfold c q t faults item shape
    cbv
  · unfold c q t faults item shape
    cbv

end Collection

end RecordStore
