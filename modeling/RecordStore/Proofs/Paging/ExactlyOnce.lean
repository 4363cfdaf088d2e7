import Mathlib
import RecordStore.Proofs.Paging.Filling

/-!
# Every item once

`Page.collect` is a client that reads page after page and asks again after an error. **`Page.collect_eq_read`**:
whatever the sizes of the pages and the limits of their reads are and however many calls fail, such a client comes to a
page without a cursor, and what it has collected then is what one read without a limit and without faults returns, in
the same order.
-/

namespace RecordStore

namespace Page

/--
What a client has collected at the first page without a cursor. It follows the cursors of the pages, and after an error
it asks for the same page again; it gives up after some number of calls.
-/
def collect {σ : Type} [Store σ] (settings : Settings) (what : Selection) (paging : Paging) :
    Nat → Option String → σ → Option (List Item)
  | 0, _, _ => none
  | calls + 1, cursor, s =>
    match read settings what { paging with cursor } s with
    | (.error _, s) => collect settings what paging calls cursor s
    | (.ok page, s) =>
      match page.nextCursor with
      | none => some page.items
      | some next => (collect settings what paging calls (some next) s).map (page.items ++ ·)

variable {settings : Settings} {what : Selection} {paging : Paging} {t : Table} {w : TableRead} {s : MemoryStore}

/-- **From a cursor on, a client collects what is left to be read.** -/
theorem collect_eq_outputs (hr : Readable what paging.descending t w) (hmin : 0 < settings.minCap)
    (hsize : ∀ n ∈ paging.pageSize, n + 1 < Numeral.natBound) :
    ∀ {calls : Nat} {cursor : Option String} {start : Option Key} {items : List Item} {s : MemoryStore},
      s.tables.find what.table = some t → Page.start settings cursor = .ok start → t.Leads w start items →
      (w.outputs items).length + s.faults.failures.length < calls →
      collect settings what paging calls cursor s = some (w.outputs items)
  | 0, _, _, _, _, _, _, _, h => absurd h (Nat.not_lt_zero _)
  | calls + 1, cursor, start, items, s, ht, hstart, hl, hcalls => by
    have hopens := hl.opens hr.sound hr.partition
    have hcomes :=
      @read_fills what _ t w s start items hr settings { paging with cursor } hmin hsize rfl ht hstart hopens
    rw [collect]
    generalize read settings what { paging with cursor } s = o at hcomes
    cases hcomes with
    | failed htables hlen =>
      exact collect_eq_outputs hr hmin hsize (by rw [htables]; exact ht) hstart hl (by omega)
    | @filled page s' hfilled htables hlen _ =>
      cases hfilled with
      | last => rfl
      | @more done left key hi hne hleads =>
        obtain ⟨token, htoken, -, hnext⟩ := hleads.cursor hr.sound
        have hpos := List.length_pos_of_ne_nil hne
        rw [hi, TableRead.outputs_append, List.length_append] at hcalls
        have ht' : s'.tables.find what.table = some t := by rw [htables]; exact ht
        have hcalls' : (w.outputs left).length + s'.faults.failures.length < calls := by omega
        have hrest := collect_eq_outputs hr hmin hsize ht' (hnext settings) hleads hcalls'
        simp only [htoken, hrest, hi, TableRead.outputs_append, Option.map_some]

/-- A read without a limit and without faults that succeeds says what is read page by page. -/
theorem readable_of_read {descending : Bool} {items : List Item} {last : Option Key} (hs : t.Sound)
    (hk : t.shape.key.partition.type ≠ .number) (ht : s.tables.find what.table = some t)
    (hfields : ∀ f, f ∈ what.keyFields ↔ f ∈ t.shape.keyNames (what.index.bind t.shape.index?))
    (hread : (readPart what descending none none { s with faults := {} }).1 = .ok (items, last)) :
    ∃ w, Readable what descending t w ∧ items = w.outputs (t.rows w) := by
  rw [@MemoryStore.readPart_eq { s with faults := {} } t what ht none nofun] at hread
  obtain ⟨-, -, hread⟩ := bind_eq_ok.1 hread
  obtain ⟨w, hplan, hread⟩ := bind_eq_ok.1 hread
  rw [MemoryStore.partOf_start hplan] at hread
  obtain ⟨hlimit, hafter⟩ := MemoryStore.plan_start hplan
  cases hr : t.read w with
  | error e => rw [hr] at hread; cases hread
  | ok r =>
    rw [hr] at hread
    cases hread
    rw [Table.read_eq, Table.ahead_start t hafter] at hr
    obtain ⟨he, rfl⟩ := (TableRead.walk_unlimited hlimit).1 hr
    refine ⟨w, ⟨hs, hk, hplan, he, fun f => ?_⟩, rfl⟩
    rw [hfields, ← Table.mem_keyNames_iff, MemoryStore.plan_index hplan]

/--
**Pages hold every item once.** A client that starts without a cursor comes to a page without one after no more calls
than there are items and planned failures, and one.
-/
theorem collect_eq_read {shape : TableShape} {items : List Item} {last : Option Key}
    (ht : s.tables.find what.table = some t) (hreached : t.Reached shape)
    (hk : shape.key.partition.type ≠ .number) (hmin : 1 ≤ settings.minCap)
    (hsize : ∀ n ∈ paging.pageSize, n + 1 < Numeral.natBound)
    (hfields : ∀ f, f ∈ what.keyFields ↔ f ∈ shape.keyNames (what.index.bind shape.index?))
    (hread : (readPart what paging.descending none none { s with faults := {} }).1 = .ok (items, last)) :
    ∀ calls, items.length + s.faults.failures.length < calls →
      collect settings what paging calls none s = some items := by
  intro calls hcalls
  rw [← hreached.shape_eq] at hk hfields
  obtain ⟨w, hr, rfl⟩ := readable_of_read hreached.sound hk ht hfields hread
  exact collect_eq_outputs hr hmin hsize ht rfl .start hcalls

/-- Pages of two items of an index whose reads look at one item each, where two reads fail. -/
theorem collect_eq_read_faults :
    let shape : TableShape := ⟨"t", ⟨⟨"pk", .text⟩, some ⟨"sk", .number⟩⟩, [⟨"by", ⟨⟨"g", .number⟩, none⟩⟩]⟩
    let item (pk sk : String) : Item := [("g", .number "1"), ("pk", .text pk), ("sk", .number sk)]
    let what : Selection :=
      { table := "t", index := some "by", keyFields := ["pk", "sk", "g"]
        expressions := { keyCondition := some "#g = :v", names := [("#g", "g")], values := [(":v", .number "1.0")] } }
    let faults : Faults := { failures := [⟨.query, 2, .throttled⟩, ⟨.query, 4, .internal⟩], ceiling := some 1 }
    ∃ t : Table, t.Reached shape ∧
      collect {} what { pageSize := some 2, descending := true } 6 none (⟨[("t", t)], faults⟩ : MemoryStore) =
        some [item "b" "1", item "a" "10", item "a" "2"] := by
  intro shape item what faults
  have hordered : ∀ pk sk, Fields.Ordered (item pk sk) := fun _ _ =>
    List.pairwise_map.1 (show ["g", "pk", "sk"].Pairwise (· < ·) by decide)
  have hreached : Table.Reached shape _ := .put (.put (.put .empty (hordered "a" "10") (by rfl))
    (hordered "b" "1") (by rfl)) (hordered "a" "2") (by rfl)
  have hfields : ∀ f, f ∈ what.keyFields ↔ f ∈ shape.keyNames (what.index.bind shape.index?) := fun f => by
    simp [what, shape, TableShape.keyNames, TableShape.index?, KeyShape.attributes]
  exact ⟨_, hreached, collect_eq_read rfl hreached (by decide) (by decide) (by decide) hfields (by cbv) 6 (by decide)⟩

end Page

end RecordStore
