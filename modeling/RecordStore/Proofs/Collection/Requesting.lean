import Mathlib
import RecordStore.Proofs.Collection.Pages
import RecordStore.Proofs.Paging.Requesting

/-!
# What queries ask of a store

The expressions of a query are written by one part of the library and read by another.
**`Collection.requests_accepted`**: whatever a query asks, if it passes the checks that are made before anything reaches
the store, and goes on from a cursor of its own, then the store accepts every request for its page, the first one and
all that follow. So nothing but a planned failure can keep a request from being answered, or the page from being read.
-/

namespace RecordStore

/-- **What a selection asks** is sent in requests that are accepted, from every key that stands for a position. -/
theorem Selection.Asks.accepted {what : Selection} {t : Table} {range filter : Item → Bool} {fields : List String}
    (h : what.Asks t.shape range filter fields) {tables : Fields Table} (ht : tables.find what.table = some t)
    {cap : Option Nat} (hcap : ∀ n ∈ cap, 0 < n) (descending : Bool) {start : Option Key}
    (hstands : ∀ key ∈ start, Table.Stands (t.shape.readOrder (what.indexIn t.shape)) key) :
    (Page.sent what descending cap start).Accepted tables := by
  have hstart : ∃ position,
      Table.startPosition (t.shape.readOrder (what.indexIn t.shape)) (start.getD []) = .ok position := by
    cases start with
    | none => exact ⟨none, rfl⟩
    | some key =>
      obtain ⟨p, -, hposition⟩ := Table.startPosition_of_stands (hstands key rfl)
      exact ⟨some p, hposition⟩
  obtain ⟨position, hposition⟩ := hstart
  obtain ⟨w, haccepts⟩ := h.accepts hcap hposition
  unfold Page.sent
  cases hkind : what.kind with
  | query =>
    rw [Selection.keyText, hkind] at haccepts
    exact .query ht haccepts
  | scan =>
    rw [Selection.keyText, hkind] at haccepts
    exact .scan ht haccepts

theorem Page.operation_sent (what : Selection) (descending : Bool) (cap : Option Nat) (start : Option Key) :
    (Page.sent what descending cap start).operation = what.kind.operation := by
  unfold Page.sent
  cases what.kind <;> rfl

namespace Collection

open Recorded (Sees)

variable {c : Collection} {s : MemoryStore} {t : Table} {suffix : String} {shape : TableShape} {q : PageQuery}

/-- A query comes to the same whether or not a record is kept. -/
theorem sees_page {σ : Type} [Store σ] (c : Collection) (suffix : String) (q : PageQuery) :
    Sees (c.page suffix q : Call (Recorded σ) _ _) (c.page suffix q) := by
  rw [page_eq, page_eq]
  refine (Recorded.sees_ofExcept _).bind fun selected => ?_
  exact (Page.sees_read c.settings selected.1 q.paging).bind fun _ => Recorded.sees_ofExcept _

/--
**Every request for a page is accepted.** A query that passes the checks and goes on from the cursor of one of its pages
sends requests of its kind only, each of which the table accepts, whatever is in it, and so answers unless a failure
that was planned happens. The answer to the query is an error only if a failure that was planned for such requests has
happened. All this is so without the record, too.
-/
theorem requests_accepted (hsuffix : ∀ ch ∈ suffix.toList, ch.isAlphanum = true)
    (ht : s.tables.find c.entity.table = some t) (hreached : t.Reached shape) (hfits : c.entity.Fits shape)
    (hmin : 1 ≤ c.settings.minCap) (hn : q.aliasCount c.entity < Numeral.natBound) (hselect : (c.select suffix q).isOk)
    (hsize : ∀ n ∈ q.paging.pageSize, n + 1 < Numeral.natBound) (hcursor : Cursors c shape q q.paging.cursor) :
    let o := c.page suffix q (⟨s, []⟩ : Recorded MemoryStore)
    (o.1, o.2.store) = c.page suffix q s ∧ o.2.store.tables = s.tables ∧
      (∀ request ∈ o.2.requests, request.operation = q.kind.operation ∧ request.Accepted s.tables ∧
        request.Answered s.tables) ∧
      ∀ e, o.1 = .error e → ∃ f ∈ s.faults.failures, f.operation = q.kind.operation ∧ e = .store f.error := by
  intro o
  refine ⟨sees_page c suffix q ⟨s, []⟩, ?_⟩
  obtain rfl := hreached.shape_eq
  obtain ⟨start, -, hstart, hstands⟩ := hcursor.start hfits hn
  cases hsel : c.select suffix q with
  | error e => rw [hsel] at hselect; cases hselect
  | ok selected =>
    obtain ⟨what, hidden⟩ := selected
    obtain ⟨w, hreads⟩ := exists_reads hsuffix hreached.sound hfits hn hsel
    obtain ⟨range, filter, fields, hasks⟩ := hreads.asks
    have hindex : w.index = what.indexIn t.shape := MemoryStore.plan_index hreads.readable.plan
    have htable : s.tables.find what.table = some t := by rw [hreads.table]; exact ht
    generalize hread : Page.read c.settings what q.paging (⟨s, []⟩ : Recorded MemoryStore) = answer
    obtain ⟨r, st⟩ := answer
    rw [← hreads.order] at hstands
    obtain ⟨hasked, hfailed⟩ := Page.read_asked hreads.readable hmin hsize rfl htable (hstart _) hstands hread
    have ho : o = ((fun page => ⟨page.items.map (visible hidden), page.nextCursor⟩) <$> r, st) := by
      simp only [o, page_eq, Call.bind_eq, Call.ofExcept, hsel, recordsOf, hread]
      cases r <;> rfl
    rw [ho]
    refine ⟨hasked.tables, ?_, ?_⟩
    · intro request hrequest
      obtain ⟨start', hstands', rfl⟩ := hasked.requests request hrequest
      rw [hindex] at hstands'
      have haccepted := hasks.accepted htable (Page.capOf_pos hmin hsize) q.paging.descending hstands'
      exact ⟨by rw [Page.operation_sent, hreads.kind], haccepted, haccepted.answered⟩
    · intro e he
      cases r with
      | ok page => cases he
      | error e' =>
        cases he
        obtain ⟨_, rfl, f, hf, hoperation, rfl⟩ := hfailed _ rfl
        exact ⟨f, hf, by rw [hoperation, hreads.kind], rfl⟩

/-- The second page of a query by an index, downwards, of reads that look at one item each. The first page was cut in
the middle of a read, and of the second page the second read fails. -/
theorem requests_accepted_twice :
    let shape : TableShape :=
      ⟨"t", ⟨⟨"pk", .text⟩, some ⟨"id", .text⟩⟩, [⟨"by", ⟨⟨"g", .text⟩, some ⟨"n", .text⟩⟩⟩]⟩
    let item (id n x : String) : Item :=
      [("g", .text "1"), ("id", .text id), ("n", .text n), ("pk", .text "p"), ("x", .text x)]
    let c : Collection :=
      { entity := { table := "t", partitionValue := "p", partitionField := "pk"
                    indexes := [{ name := "by", partitionField := "g", sortField := "n" }] } }
    let q (size : Nat) (cursor : Option String) : PageQuery := .byIndex
      { index := "by", partitionField := "g", partition := .string "1", fields := some ["x"]
        paging := { pageSize := some size, cursor, descending := true } }
    let shown (x : String) : Record := [("x", .string x)]
    let first := "eyJnIjp7IlMiOiIxIn0sImlkIjp7IlMiOiJiIn0sIm4iOnsiUyI6IjkifSwicGsiOnsiUyI6InAifX0="
    let second := "eyJnIjp7IlMiOiIxIn0sImlkIjp7IlMiOiJjIn0sIm4iOnsiUyI6Ijg1In0sInBrIjp7IlMiOiJwIn19"
    let faults : Faults := { failures := [⟨.scan, 1, .internal⟩, ⟨.query, 2, .throttled⟩], ceiling := some 1 }
    ∃ t : Table, t.Reached shape ∧ t.items = [item "a" "8" "A", item "b" "9" "B", item "c" "85" "C"] ∧
      (c.page "5f" (q 1 none) (⟨[("t", t)], {}⟩ : MemoryStore)).1 = .ok ⟨[shown "B"], some first⟩ ∧
      let o := c.page "6a" (q 2 (some first)) (⟨⟨[("t", t)], faults⟩, []⟩ : Recorded MemoryStore)
      o.1 = .ok ⟨[shown "C"], some second⟩ ∧ o.2.requests.length = 2 ∧
        ∀ request ∈ o.2.requests, request.operation = .query ∧ request.Accepted [("t", t)] ∧
          request.Answered [("t", t)] := by
  intro shape item c q shown first second faults
  have hordered : ∀ id n x, Fields.Ordered (item id n x) := fun _ _ _ =>
    List.pairwise_map.1 (show ["g", "id", "n", "pk", "x"].Pairwise (· < ·) by decide)
  obtain ⟨t, ht⟩ : ∃ t : Table, ⟨shape, [(.text "p", [(some (.text "a"), item "a" "8" "A"),
      (some (.text "b"), item "b" "9" "B"), (some (.text "c"), item "c" "85" "C")])]⟩ = t := ⟨_, rfl⟩
  have hreached : t.Reached shape := by
    subst ht
    exact .put (.put (.put .empty (hordered "a" "8" "A") (by rfl)) (hordered "b" "9" "B") (by rfl))
      (hordered "c" "85" "C") (by rfl)
  have hfits : c.entity.Fits shape := .of_index rfl rfl rfl rfl
  have hfirst : (c.page "5f" (q 1 none) (⟨[("t", t)], {}⟩ : MemoryStore)).1 = .ok ⟨[shown "B"], some first⟩ := by
    subst ht
    unfold c q shown first item shape
    cbv
  have hcursor : Cursors c shape (q 2 (some first)) (some first) :=
    @Cursors.ofPage c shape (q 2 (some first)) c.settings "5f" { pageSize := some 1, descending := true } _ _ t _
      (by decide) (List.all_eq_true.1 rfl) (by decide) rfl rfl hreached (Prod.ext hfirst rfl)
  have hselect : (c.select "6a" (q 2 (some first))).isOk := by
    unfold c q first
    cbv
  obtain ⟨-, -, haccepted, -⟩ := @requests_accepted c ⟨[("t", t)], faults⟩ t "6a" shape (q 2 (some first))
    (List.all_eq_true.1 rfl) rfl hreached hfits (by decide) (by decide) hselect (by decide) hcursor
  have hsecond : (fun o => (o.1, o.2.requests.length))
      (c.page "6a" (q 2 (some first)) (⟨⟨[("t", t)], faults⟩, []⟩ : Recorded MemoryStore)) =
        (.ok ⟨[shown "C"], some second⟩, 2) := by
    subst ht
    unfold c q shown first second faults item shape
    cbv
  obtain ⟨hpage, hlength⟩ := Prod.mk.inj hsecond
  exact ⟨t, hreached, by subst ht; rfl, hfirst, hpage, hlength, haccepted⟩

end Collection

end RecordStore
