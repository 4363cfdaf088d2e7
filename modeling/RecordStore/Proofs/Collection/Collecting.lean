import RecordStore.Proofs.Collection.Saving
import RecordStore.Proofs.Collection.Truncating
import RecordStore.Proofs.Query.Drawing

/-!
# Reading to the end

A table serves a query if what passes the checks of it is read for just the items that the query looks for: `Served`.
`Collection.collect` is a client that follows the cursors of a query from page to page, with other aliases for each, up
to a page without a cursor. Each page shows some of the matching items and leaves the others to its cursor: `Advances`.
So by induction on the pages, the client has in the end what is shown of all matching items in their order:
`collect_eq_shown`.

`Collection.answer` is that list as a function of the query and the matching items, with the refusals that a query meets
before anything is read. A page of no given size has it (`page_eq_answer`) and so has the client (`collect_eq_answer`).
`exists_answer` puts the two together for all tables with the same matching items: what else is in a table is not seen.
-/

namespace RecordStore

open Compile (Follows)

theorem isOk_bind_ok {ε α β : Type} (x : Except ε α) (f : α → β) : (x >>= fun a => .ok (f a)).isOk = x.isOk := by
  cases x <;> rfl

theorem isOk_bind_congr {ε α β : Type} {x : Except ε α} {f g : α → Except ε β} (h : ∀ a, (f a).isOk = (g a).isOk) :
    (x >>= f).isOk = (x >>= g).isOk := by
  cases x with
  | error e => rfl
  | ok a => exact h a

namespace Collection

variable {c : Collection} {q : PageQuery}

/-! ## Queries that pass the checks -/

theorem isOk_compile {α : Type} {x : Compile α} {draws : Draws} {Uses : α → List String → Prop}
    (h : ∀ a, Follows x a draws Uses) (suffix : String) : (compile suffix x).isOk = draws.completes := by
  rw [← (h ⟨0, suffix⟩).completes, compile]
  cases (x ⟨0, suffix⟩).1 <;> rfl

theorem filterOf_follows (c : Collection) (filter : Option Definition) :
    ∃ draws, ∀ a, Follows (c.filterOf filter) a draws fun _ _ => True := by
  unfold filterOf
  cases filter.filter fun d => !d.isEmpty with
  | none => exact ⟨{}, fun a => .pure trivial⟩
  | some d =>
    have h := fun a => @Compile.definition_follows c.settings.refuseUnknown d [] a
    exact ⟨_, fun a => ⟨(h a).source, (h a).completes, fun _ _ => trivial⟩⟩

theorem expressionsOf_follows (c : Collection) (key : Definition) (filter : Option Definition) (fields : List String) :
    ∃ draws, ∀ a, Follows (c.expressionsOf key filter fields) a draws fun _ _ => True := by
  obtain ⟨draws, hfilter⟩ := c.filterOf_follows filter
  refine ⟨(key.keyDraws c.settings.refuseUnknown fields).andThen draws, fun a => ?_⟩
  refine (Compile.keyCondition_follows key fields a).bind fun k log b _ _ => ?_
  exact (hfilter b).map fun _ _ _ => trivial

/-- Whether a query passes the checks does not depend on its aliases. -/
theorem isOk_select (c : Collection) (q : PageQuery) (suffix suffix' : String) :
    (c.select suffix q).isOk = (c.select suffix' q).isOk := by
  have hexpressions : ∀ key filter fields, (compile suffix (c.expressionsOf key filter fields)).isOk =
      (compile suffix' (c.expressionsOf key filter fields)).isOk := by
    intro key filter fields
    obtain ⟨draws, hfollows⟩ := c.expressionsOf_follows key filter fields
    rw [isOk_compile hfollows, isOk_compile hfollows]
  cases q with
  | byKey q =>
    show (c.selectByKey suffix q).isOk = (c.selectByKey suffix' q).isOk
    unfold selectByKey
    split
    · rfl
    · refine isOk_bind_congr fun key => ?_
      dsimp only
      rw [isOk_bind_ok, isOk_bind_ok, hexpressions]
  | byIndex q =>
    show (c.selectByIndex suffix q).isOk = (c.selectByIndex suffix' q).isOk
    unfold selectByIndex
    refine isOk_bind_congr fun index => ?_
    split
    · rfl
    · refine isOk_bind_congr fun key => ?_
      dsimp only
      rw [isOk_bind_ok, isOk_bind_ok, hexpressions]
  | byFilter q =>
    show (c.selectByFilter suffix q).isOk = (c.selectByFilter suffix' q).isOk
    unfold selectByFilter
    dsimp only
    have hfollows := fun a => @Compile.definition_follows c.settings.refuseUnknown
      ((q.filter.getD {}).equals c.entity.partitionField (.string c.entity.partitionValue))
      (pagedFields q.fields c.entity.keyFields q.paging).1 a
    rw [isOk_bind_ok, isOk_bind_ok, isOk_compile hfollows, isOk_compile hfollows]

/-! ## What follows -/

end Collection

/-- Tables that have the same items of those that are looked for have the same ones after a key. -/
theorem Following.of_items {t t' : Table} {readOrder : List (Option KeyField)} {forward : Bool} {start : Option Key}
    {p : Item → Bool} {items : List Item} (h : Following t readOrder forward start p items)
    (hitems : ∀ item, p item = true → (item ∈ t.items ↔ item ∈ t'.items)) :
    Following t' readOrder forward start p items where
  mem item := by
    rw [h.mem]
    constructor
    · rintro ⟨hi, hp, hafter⟩
      exact ⟨(hitems item hp).1 hi, hp, hafter⟩
    · rintro ⟨hi, hp, hafter⟩
      exact ⟨(hitems item hp).2 hi, hp, hafter⟩
  inOrder := h.inOrder

namespace MemoryStore

variable {s : MemoryStore} {t : Table} {w : TableRead} {what : Selection} {descending : Bool}

/-- The error of a read that may look at no item. -/
def noLimit : StoreError := invalid "Limit must be greater than 0"

theorem read_of_noLimit {r : ScanRequest} {keyCondition : Option (Option String)} {forward : Bool}
    (ht : s.tables.find r.table = some t) (hl : r.limit = some 0)
    (hw : tableRead {} t { r with limit := none, after := [] } keyCondition forward = .ok w) :
    s.read r keyCondition forward = .error noLimit := by
  have htable : s.table? r.table = .ok t := by rw [table?, ht]
  have hread : s.tableRead t r keyCondition forward = _ := tableRead_eq s t r keyCondition forward r.limit r.after
  have hlimit : checkLimit r.limit = .error noLimit := by rw [hl]; rfl
  simp only [read, htable, hread, hw, hlimit, bind, Except.bind]

/-- What is planned is refused if its read may look at no item. -/
theorem readPart_of_noLimit (ht : s.tables.find what.table = some t) (hf : s.faults.failures = [])
    (hplan : what.plan t descending = .ok w) (start : Option Key) :
    (Page.readPart what descending (some 0) start s).1 = .error noLimit := by
  have hnote := note_of_no_failures hf what.kind.operation
  unfold Selection.plan at hplan
  unfold Page.readPart
  cases hk : what.kind with
  | query =>
    simp only [hk, ReadKind.operation] at hplan hnote
    have hforward : (if descending then some false else none).getD true = !descending := by cases descending <;> rfl
    simp only [Call.map_eq, Store.query, query, record_ask, hnote, hforward]
    have hread := @read_of_noLimit { s with faults := (s.faults.note .query).2 } t w
      (Page.request what (some 0) start) _ _ ht rfl hplan
    exact congrArg (Functor.map Page.ofResponse) hread
  | scan =>
    simp only [hk, ReadKind.operation] at hplan hnote
    simp only [Call.map_eq, Store.scan, scan, record_ask, hnote]
    have hread := @read_of_noLimit { s with faults := (s.faults.note .scan).2 } t w
      (Page.request what (some 0) start) _ _ ht rfl hplan
    exact congrArg (Functor.map Page.ofResponse) hread

end MemoryStore

namespace Table

variable {t : Table} {w : TableRead} {start : Option Key} {items items' : List Item}

/-- A start opens one list of items. -/
theorem Opens.unique (h : t.Opens w start items) (h' : t.Opens w start items') : items = items' :=
  Except.ok.inj ((h.ahead none).symm.trans (h'.ahead none))

/-- What a key leads to are the items after it. -/
theorem Leads.mem_iff {key : Key} (h : t.Leads w (some key) items) (hs : t.Sound)
    (hk : t.shape.key.partition.type ≠ .number) (item : Item) : item ∈ items ↔
      item ∈ t.rows w ∧ ∀ k ∈ some key, Precedes (t.shape.readOrder w.index) w.forward k item := by
  have hstands : ∀ k ∈ some key, Stands (t.shape.readOrder w.index) k := by
    rintro _ ⟨⟩
    exact h.stands
  obtain ⟨items', hopens, hmem⟩ := hs.opens hk hstands
  rw [(h.opens hs hk).unique hopens]
  exact hmem item

end Table

namespace Collection

variable {c : Collection} {q : PageQuery} {s : MemoryStore} {t : Table} {suffix : String} {what : Selection}
  {hidden : List String} {start : Option Key} {matching : List Item}

/-- What passes the checks for a query is read for just the items of a table that the query looks for. -/
def Served (c : Collection) (q : PageQuery) (t : Table) : Prop :=
  ∀ suffix what hidden, (∀ ch ∈ suffix.toList, ch.isAlphanum = true) → c.select suffix q = .ok (what, hidden) →
    ∃ w, Reads c q t what hidden w

/-- **A query** is served by a table that has the keys and indexes which the entity declares. -/
theorem served_of_fits (hs : t.Sound) (hfits : c.entity.Fits t.shape) (hn : q.aliasCount c.entity < Numeral.natBound) :
    c.Served q t :=
  fun _ _ _ hsuffix h => exists_reads hsuffix hs hfits hn h

/-- **A query of the table itself** is served whatever the indexes of the table are. -/
theorem served_direct (hs : t.Sound) (hkey : t.shape.key = c.entity.keyShape) (hq : ∀ i, q ≠ .byIndex i)
    (hn : q.aliasCount c.entity < Numeral.natBound) : c.Served q t := by
  intro suffix what hidden hsuffix h
  -- the indexes that are declared do not matter
  let bare : Collection := { c with entity := { c.entity with indexes := [] } }
  have hfits : bare.entity.Fits t.shape := ⟨hkey, nofun⟩
  cases q with
  | byKey q =>
    obtain ⟨w, hr⟩ := @exists_reads bare t suffix (.byKey q) what hidden hsuffix hs hfits hn h
    exact ⟨w, hr.readable, hr.asks, hr.kind, hr.table, hr.order, hr.forward, hr.selects, hr.shows, hr.keyed⟩
  | byIndex q => exact absurd rfl (hq q)
  | byFilter q =>
    obtain ⟨w, hr⟩ := @exists_reads bare t suffix (.byFilter q) what hidden hsuffix hs hfits hn h
    exact ⟨w, hr.readable, hr.asks, hr.kind, hr.table, hr.order, hr.forward, hr.selects, hr.shows, hr.keyed⟩

/-- What a query looks for, in its order. -/
theorem Reads.exists_following {w : TableRead} (h : Reads c q t what hidden w) : ∃ matching,
    Following t (q.readOrder c.entity t.shape) q.ascending none (q.wants c.entity) matching ∧
      matching.length ≤ t.count := by
  have hopens : t.Opens w none (t.rows w) := Table.Leads.start.opens h.readable.sound h.readable.partition
  refine ⟨(t.rows w).filter w.selects, h.following hopens fun item => ?_, ?_⟩
  · exact ⟨fun hi => ⟨hi, nofun⟩, fun hi => hi.1⟩
  · exact (List.length_filter_le _ _).trans (Page.rows_length t w)

/-- What a page can be of the items that follow: all of them, or the first ones and a cursor that leads to the rest. -/
inductive Advances (c : Collection) (q : PageQuery) (t : Table) (matching : List Item) : PageOfRecords → Prop
  | last : Advances c q t matching ⟨matching.map (q.shown c.entity), none⟩
  | more {now later : List Item} {key : Key} {token : String} : matching = now ++ later → now ≠ [] →
      Following t (q.readOrder c.entity t.shape) q.ascending (some key) (q.wants c.entity) later →
      Page.start c.settings (some token) = .ok (some key) →
      Table.Stands (q.readOrder c.entity t.shape) key → (CapBounds.positive? q.paging.pageSize).isSome →
      Advances c q t matching ⟨now.map (q.shown c.entity), some token⟩

/-- A page that is filled with what follows shows some of it and leaves the rest to its cursor. -/
theorem Reads.advances {w : TableRead} {items : List Item} {page : Page} (h : Reads c q t what hidden w)
    (hopens : t.Opens w start items) (hfilled : Page.Filled t w items page)
    (hsize : page.nextCursor.isSome → (CapBounds.positive? q.paging.pageSize).isSome) :
    Advances c q t (items.filter w.selects) ⟨page.items.map (visible hidden), page.nextCursor⟩ := by
  have hs := h.readable.sound
  have hk := h.readable.partition
  cases hfilled with
  | last =>
    rw [h.shown hopens.suffix.subset]
    exact .last
  | @more done left key hi hne hleads =>
    obtain ⟨token, htoken, -, hnext⟩ := hleads.cursor hs
    have hdone : done ⊆ t.rows w := fun item hitem =>
      hopens.suffix.subset (by rw [hi]; exact List.mem_append_left _ hitem)
    rw [htoken] at hsize
    rw [h.shown hdone, htoken]
    refine .more (by rw [hi, List.filter_append]) ?_ (h.following (hleads.opens hs hk) ?_) (hnext c.settings) ?_
      (hsize rfl)
    · intro hnil
      exact hne (by rw [TableRead.outputs, hnil, List.map_nil])
    · exact hleads.mem_iff hs hk
    · rw [← h.order]
      exact hleads.stands

/-- **A page** of what follows a cursor, if no failure is planned and each read looks at an item at least. -/
theorem page_advances (hserved : c.Served q t) (hsuffix : ∀ ch ∈ suffix.toList, ch.isAlphanum = true)
    (ht : s.tables.find c.entity.table = some t) (hselect : (c.select suffix q).isOk)
    (hcap : ∀ n ∈ Page.capOf c.settings q.paging, 0 < n) (hf : s.faults.failures = [])
    {cursor : Option String} (hstart : Page.start c.settings cursor = .ok start)
    (hstands : ∀ key ∈ start, Table.Stands (q.readOrder c.entity t.shape) key)
    (hfollowing : Following t (q.readOrder c.entity t.shape) q.ascending start (q.wants c.entity) matching) :
    ∃ page s', c.page suffix (q.withPaging { q.paging with cursor }) s = (.ok page, s') ∧ s'.tables = s.tables ∧
      s'.faults.failures = [] ∧ Advances c q t matching page := by
  cases hsel : c.select suffix q with
  | error e => rw [hsel] at hselect; cases hselect
  | ok selected =>
    obtain ⟨what, hidden⟩ := selected
    obtain ⟨w, hreads⟩ := hserved suffix what hidden hsuffix hsel
    have hr := hreads.readable
    rw [← hreads.order] at hstands
    obtain ⟨items, hopens, hmem⟩ := hr.sound.opens hr.partition hstands
    obtain rfl := hfollowing.unique (hreads.following hopens hmem)
    have hcap' : ∀ n ∈ Page.capOf c.settings { q.paging with cursor }, 0 < n := hcap
    have hcomes := Page.read_comes hr hcap' rfl (by rw [hreads.table]; exact ht) hstart hopens
    rw [page_withCursor, hsel]
    show ∃ page s', c.recordsOf what { q.paging with cursor } hidden s = (.ok page, s') ∧ _
    rw [recordsOf, Call.bind_eq]
    generalize Page.read c.settings what { q.paging with cursor } s = o at hcomes
    cases hcomes with
    | failed _ hlen =>
      rw [hf] at hlen
      cases hlen
    | @filled page s' hfilled htables hlen hsized =>
      rw [hf, List.length_nil] at hlen hsized
      refine ⟨_, s', rfl, htables, List.eq_nil_of_length_eq_zero (Nat.le_zero.1 hlen), ?_⟩
      refine hreads.advances hopens hfilled fun hcursor => ?_
      cases hpositive : CapBounds.positive? q.paging.pageSize with
      | some n => rfl
      | none =>
        -- a page of no given size has no cursor
        rw [hpositive] at hsized
        have hnone := (hsized (Nat.le_zero.1 hlen) (by rintro _ ⟨⟩)).more hcursor
        cases hnone

/-! ## To the end -/

/--
What a client collects that follows the cursors of a query, page after page, each with a suffix of its own for the
aliases. After a page without a cursor these are all records; if there are not enough suffixes it gives up.
-/
def collect {σ : Type} [Store σ] (c : Collection) (q : PageQuery) :
    List String → Option String → Call σ AccessError (Option (List Record))
  | [], _ => return none
  | suffix :: suffixes, cursor => do
    let page ← c.page suffix (q.withPaging { q.paging with cursor })
    match page.nextCursor with
    | none => return some page.items
    | some next => return (← c.collect q suffixes (some next)).map (page.items ++ ·)

/-- **From a cursor on, a client collects what follows.** -/
theorem collect_eq_shown (hserved : c.Served q t) (hcap : ∀ n ∈ Page.capOf c.settings q.paging, 0 < n)
    {suffixes : List String}
    (hsuffixes : ∀ suffix ∈ suffixes, (∀ ch ∈ suffix.toList, ch.isAlphanum = true) ∧ (c.select suffix q).isOk)
    {cursor : Option String} (ht : s.tables.find c.entity.table = some t) (hf : s.faults.failures = [])
    (hstart : Page.start c.settings cursor = .ok start)
    (hstands : ∀ key ∈ start, Table.Stands (q.readOrder c.entity t.shape) key)
    (hfollowing : Following t (q.readOrder c.entity t.shape) q.ascending start (q.wants c.entity) matching)
    (hlen : matching.length < suffixes.length) :
    (c.collect q suffixes cursor s).1 = .ok (some (matching.map (q.shown c.entity))) := by
  induction suffixes generalizing s cursor start matching with
  | nil => cases hlen
  | cons suffix suffixes ih =>
    obtain ⟨⟨hsuffix, hselect⟩, hsuffixes⟩ := List.forall_mem_cons.1 hsuffixes
    obtain ⟨page, s', hpage, htables, hf', hadvances⟩ := page_advances hserved hsuffix ht hselect hcap hf hstart
      hstands hfollowing
    rw [collect, Call.bind_eq, hpage]
    cases hadvances with
    | last => rfl
    | @more now later key token hmatching hne hlater hnext hstands' hsize =>
      have hpos := List.length_pos_of_ne_nil hne
      rw [hmatching, List.length_append, List.length_cons] at hlen
      have hrest := ih hsuffixes (by rw [htables]; exact ht) hf' hnext (by rintro _ ⟨⟩; exact hstands') hlater
        (by omega)
      dsimp only
      rw [Call.bind_of_ok hrest, hmatching, List.map_append]
      rfl

/-! ## What is answered -/

/--
What a query is answered with as a whole if it looks for some items: it is refused if it does not pass the checks, and
by the store if its reads may look at no item.
-/
def answer (c : Collection) (suffix : String) (q : PageQuery) (matching : List Item) :
    Except AccessError (List Record) :=
  match c.select suffix q with
  | .error e => .error e
  | .ok _ =>
    if Page.capOf c.settings q.paging = some 0 then .error (.store MemoryStore.noLimit)
    else .ok (matching.map (q.shown c.entity))

/-- An answer that is not refused is all records, and every read for it looks at an item at least. -/
theorem answer_ok {records : List Record} (h : c.answer suffix q matching = .ok records) :
    (c.select suffix q).isOk ∧ (∀ n ∈ Page.capOf c.settings q.paging, 0 < n) ∧
      records = matching.map (q.shown c.entity) := by
  unfold answer at h
  split at h
  · cases h
  · rename_i hselect
    split at h
    · cases h
    · rename_i hcap
      cases h
      refine ⟨by rw [hselect]; rfl, fun n hn => Nat.pos_of_ne_zero ?_, rfl⟩
      rintro rfl
      exact hcap hn

section

variable (hserved : c.Served q t) (ht : s.tables.find c.entity.table = some t) (hf : s.faults.failures = [])

include hserved ht hf

/-- A query that is refused is refused on its first page. -/
theorem page_of_answer_error {e : AccessError} (hsuffix : ∀ ch ∈ suffix.toList, ch.isAlphanum = true)
    (h : c.answer suffix q matching = .error e) :
    (c.page suffix (q.withPaging { q.paging with cursor := none }) s).1 = .error e := by
  unfold answer at h
  rw [page_withCursor]
  cases hsel : c.select suffix q with
  | error e' =>
    rw [hsel] at h
    cases h
    rfl
  | ok selected =>
    obtain ⟨what, hidden⟩ := selected
    rw [hsel] at h
    dsimp only at h
    split at h
    · rename_i hcap
      cases h
      obtain ⟨w, hreads⟩ := hserved suffix what hidden hsuffix hsel
      have hrefused := MemoryStore.readPart_of_noLimit (by rw [hreads.table]; exact ht) hf hreads.readable.plan none
      show (c.recordsOf what { q.paging with cursor := none } hidden s).1 = _
      have hcap' : Page.capOf c.settings { q.paging with cursor := none } = some 0 := hcap
      rw [recordsOf, Call.bind_eq, Page.read_of_start rfl, hcap',
        Page.rounds_of_error (Prod.ext hrefused rfl)]
      rfl
    · cases h

theorem collect_of_answer_error {e : AccessError} {suffixes : List String}
    (hsuffix : ∀ ch ∈ suffix.toList, ch.isAlphanum = true) (h : c.answer suffix q matching = .error e) :
    (c.collect q (suffix :: suffixes) none s).1 = .error e := by
  have hrefused := page_of_answer_error hserved ht hf hsuffix h
  rw [collect, Call.bind_of_error hrefused]

variable (hfollowing : Following t (q.readOrder c.entity t.shape) q.ascending none (q.wants c.entity) matching)

include hfollowing

/-- **A page of no given size is the answer.** -/
theorem page_eq_answer (hsuffix : ∀ ch ∈ suffix.toList, ch.isAlphanum = true)
    (hsize : CapBounds.positive? q.paging.pageSize = none) :
    (c.page suffix (q.withPaging { q.paging with cursor := none }) s).1 =
      (fun records => ⟨records, none⟩) <$> c.answer suffix q matching := by
  cases h : c.answer suffix q matching with
  | error e => exact page_of_answer_error hserved ht hf hsuffix h
  | ok records =>
    obtain ⟨hselect, hcap, rfl⟩ := answer_ok h
    have hstart : Page.start c.settings none = .ok none := rfl
    obtain ⟨page, s', hpage, -, -, hadvances⟩ := page_advances hserved hsuffix ht hselect hcap hf hstart nofun
      hfollowing
    rw [hpage]
    cases hadvances with
    | last => rfl
    | more _ _ _ _ _ hsome =>
      rw [hsize] at hsome
      cases hsome

/-- **What a client collects is the answer.** -/
theorem collect_eq_answer {suffixes : List String}
    (hsuffixes : ∀ x ∈ suffix :: suffixes, ∀ ch ∈ x.toList, ch.isAlphanum = true)
    (hlen : matching.length ≤ suffixes.length) :
    (c.collect q (suffix :: suffixes) none s).1 = some <$> c.answer suffix q matching := by
  cases h : c.answer suffix q matching with
  | error e => exact collect_of_answer_error hserved ht hf (hsuffixes suffix List.mem_cons_self) h
  | ok records =>
    obtain ⟨hselect, hcap, rfl⟩ := answer_ok h
    refine collect_eq_shown hserved hcap (fun suffix' hmem => ⟨hsuffixes suffix' hmem, ?_⟩) ht hf rfl nofun
      hfollowing (Nat.lt_succ_of_le hlen)
    rw [c.isOk_select q suffix' suffix]
    exact hselect

end

/--
**The answer to a query depends on the items that it looks for alone.** There is one for all tables that have the same
of these items, and for all stores that have such a table and where no failure is planned: a page of no given size is
this answer, and so is what a client collects that has a suffix for each item and one more.
-/
theorem exists_answer (hs : t.Sound) (hkey : t.shape.key = c.entity.keyShape) (hq : ∀ i, q ≠ .byIndex i)
    (hn : q.aliasCount c.entity < Numeral.natBound) (hsuffix : ∀ ch ∈ suffix.toList, ch.isAlphanum = true) :
    ∃ answer : Except AccessError (List Record), ∀ (t' : Table) (s : MemoryStore), t'.Sound → t'.shape = t.shape →
      (∀ item, q.wants c.entity item = true → (item ∈ t.items ↔ item ∈ t'.items)) →
      s.tables.find c.entity.table = some t' → s.faults.failures = [] →
      (CapBounds.positive? q.paging.pageSize = none →
        (c.page suffix (q.withPaging { q.paging with cursor := none }) s).1 = (⟨·, none⟩) <$> answer) ∧
      ∀ suffixes : List String, (∀ suffix ∈ suffixes, ∀ ch ∈ suffix.toList, ch.isAlphanum = true) →
        t.count ≤ suffixes.length → (c.collect q (suffix :: suffixes) none s).1 = some <$> answer := by
  have hserved : ∀ t' : Table, t'.Sound → t'.shape = t.shape → c.Served q t' :=
    fun t' hs' hshape => served_direct hs' (hshape ▸ hkey) hq hn
  cases hselect : c.select suffix q with
  | error e =>
    have hanswer : c.answer suffix q [] = .error e := by rw [answer, hselect]
    refine ⟨.error e, fun t' s hs' hshape _ ht hf => ⟨fun _ => ?_, fun suffixes _ _ => ?_⟩⟩
    · exact page_of_answer_error (hserved t' hs' hshape) ht hf hsuffix hanswer
    · exact collect_of_answer_error (hserved t' hs' hshape) ht hf hsuffix hanswer
  | ok selected =>
    obtain ⟨what, hidden⟩ := selected
    obtain ⟨w, hreads⟩ := hserved t hs rfl suffix what hidden hsuffix hselect
    obtain ⟨matching, hfollowing, hcount⟩ := hreads.exists_following
    refine ⟨c.answer suffix q matching, fun t' s hs' hshape hitems ht hf => ?_⟩
    have hfollowing' := hfollowing.of_items hitems
    rw [← hshape] at hfollowing'
    have hserved' := hserved t' hs' hshape
    refine ⟨fun hsize => page_eq_answer hserved' ht hf hfollowing' hsuffix hsize, fun suffixes hall hlen => ?_⟩
    have hsuffixes := List.forall_mem_cons.2 ⟨hsuffix, hall⟩
    exact collect_eq_answer hserved' ht hf hfollowing' hsuffixes (hcount.trans hlen)

end Collection

end RecordStore
