import RecordStore.Proofs.Paging.Filling
import RecordStore.Proofs.Store.Rules

/-!
# Pages of some fields

A read walks, counts and stops without regard to what it returns of the items. So of two reads that differ in this only,
one of whole items and one of some attributes of them (`TableRead.Narrows`), the second returns of each item that the
first one returns what it should: `Table.read_narrows`. Pages are filled by such reads in step, and cut at the same item
if its key can be told from what is returned. **`Page.relates_read`**: they hold the same stored items, have the same
cursors and fail with the same errors, whatever their limits, their starts and the faults are.
-/

namespace RecordStore

open Call (Relates relates_bind_same relates_get relates_ofExcept relates_pure relates_throw)

/-- What is returned of some items, each of which `G` holds of. -/
structure Narrowed (f : Item → Item) (G : Item → Prop) (items whole : List Item) : Prop where
  items : items = whole.map f
  stored : ∀ item ∈ whole, G item

namespace Narrowed

variable {f : Item → Item} {G H : Item → Prop} {items more whole wholes : List Item}

theorem nil : Narrowed f G [] [] := ⟨rfl, nofun⟩

theorem append (h : Narrowed f G items whole) (h' : Narrowed f G more wholes) :
    Narrowed f G (items ++ more) (whole ++ wholes) := by
  refine ⟨by rw [h.items, h'.items, List.map_append], fun item hi => ?_⟩
  exact (List.mem_append.1 hi).elim (h.stored item) (h'.stored item)

theorem take (h : Narrowed f G items whole) (n : Nat) : Narrowed f G (items.take n) (whole.take n) :=
  ⟨by rw [h.items, List.map_take], fun item hi => h.stored item (List.mem_of_mem_take hi)⟩

theorem imp (h : Narrowed f G items whole) (hG : ∀ item, G item → H item) : Narrowed f H items whole :=
  ⟨h.items, fun item hi => hG item (h.stored item hi)⟩

theorem length_eq (h : Narrowed f G items whole) : items.length = whole.length := by
  rw [h.items, List.length_map]

end Narrowed

/-! ## Reads of a table -/

namespace TableRead

/-- Of some items a read selects those that `whole` does, in the same order, and `whole` returns them as they are. -/
structure Narrows (whole w : TableRead) (items : List Item) : Prop where
  index : w.index = whole.index
  forward : w.forward = whole.forward
  key : ∀ item ∈ items, w.meets w.keyCondition item = whole.meets whole.keyCondition item
  filter : ∀ item ∈ items, w.meets w.filter item = whole.meets whole.filter item
  whole : whole.projection = none

variable {whole w : TableRead} {keyIn : Item → Key} {items : List Item}

theorem Narrows.subset {items' : List Item} (h : Narrows whole w items) (hs : items' ⊆ items) :
    Narrows whole w items' :=
  ⟨h.index, h.forward, fun item hi => h.key item (hs hi), fun item hi => h.filter item (hs hi), h.whole⟩

/-- Limits and starts have nothing to do with it. -/
theorem Narrows.part (h : Narrows whole w items) (limit : Option Nat) (after : Key) :
    Narrows { whole with limit, after } { w with limit, after } items :=
  ⟨h.index, h.forward, h.key, h.filter, h.whole⟩

theorem Narrows.output (h : Narrows whole w items) (item : Item) : whole.output item = item := by
  rw [TableRead.output, h.whole]

theorem Narrows.anyInRange : ∀ {items : List Item}, Narrows whole w items →
    w.anyInRange items = whole.anyInRange items
  | [], _ => rfl
  | item :: items, h => by
    rw [TableRead.anyInRange, TableRead.anyInRange, h.key item List.mem_cons_self,
      (h.subset (List.subset_cons_self item items)).anyInRange]

/-- What two walks return that differ in this only. -/
structure Outcomes (whole w : TableRead) (items : List Item) (r r' : ReadOutcome) : Prop where
  items : Narrowed w.output (fun item => item ∈ items ∧ whole.selects item = true) r.items r'.items
  scanned : r.scanned = r'.scanned
  lastKey : r.lastKey = r'.lastKey

theorem Narrows.walk (hl : w.limit = whole.limit) : ∀ {items : List Item} (scanned : Nat), Narrows whole w items →
    Agree (Outcomes whole w items) (w.walk keyIn scanned items) (whole.walk keyIn scanned items)
  | [], scanned, _ => .ok ⟨.nil, rfl, rfl⟩
  | item :: items, scanned, h => by
    have hrest := h.subset (List.subset_cons_self item items)
    have hwiden : ∀ x, x ∈ items ∧ whole.selects x = true → x ∈ item :: items ∧ whole.selects x = true :=
      fun x hx => ⟨List.mem_cons_of_mem item hx.1, hx.2⟩
    have hdone : ∀ n, w.isDone n = whole.isDone n := fun n => by rw [isDone, isDone, hl]
    rw [TableRead.walk, TableRead.walk, h.key item List.mem_cons_self]
    cases hkey : whole.meets whole.keyCondition item with
    | error e => exact .error e
    | ok inRange =>
      cases inRange with
      | false => exact (hrest.walk hl scanned).imp fun r r' hr => ⟨hr.items.imp hwiden, hr.scanned, hr.lastKey⟩
      | true =>
        show Agree _ (w.meets w.filter item >>= fun _ => _) (whole.meets whole.filter item >>= fun _ => _)
        rw [h.filter item List.mem_cons_self]
        cases hfilter : whole.meets whole.filter item with
        | error e => exact .error e
        | ok kept =>
          have hitem : Narrowed w.output (fun x => x ∈ item :: items ∧ whole.selects x = true)
              (if kept then [w.output item] else []) (if kept then [whole.output item] else []) := by
            cases kept with
            | false => exact .nil
            | true =>
              rw [h.output item]
              refine ⟨rfl, List.forall_mem_singleton.2 ⟨List.mem_cons_self, ?_⟩⟩
              rw [selects, inRange_of_ok hkey, passes_of_ok hfilter]
              rfl
          show Agree _ (if w.isDone (scanned + 1) then _ else _) (if whole.isDone (scanned + 1) then _ else _)
          rw [hdone, hrest.anyInRange]
          split
          · exact Agree.bind_same fun more _ => .ok ⟨hitem, rfl, rfl⟩
          · exact (hrest.walk hl (scanned + 1)).bind fun r r' hr =>
              .ok ⟨hitem.append (hr.items.imp hwiden), hr.scanned, hr.lastKey⟩

end TableRead

namespace Table

variable {t : Table} {whole w : TableRead}

/-- **Reads that differ in what they return** walk the same items and stop at the same one. -/
theorem read_narrows (h : TableRead.Narrows whole w t.items) (hl : w.limit = whole.limit)
    (hafter : w.after = whole.after) : Agree (TableRead.Outcomes whole w (t.rows whole)) (t.read w) (t.read whole) := by
  have hahead : t.ahead w = t.ahead whole := by rw [ahead, ahead, h.index, h.forward, hafter]
  rw [read_eq, read_eq, hahead, h.index]
  cases hitems : t.ahead whole with
  | error e => exact .error e
  | ok items =>
    have hrows : items ⊆ t.rows whole := (ahead_sublist hitems).subset
    refine ((h.subset fun item hi => (mem_rows (hrows hi)).1).walk hl 0).imp fun r r' hr => ?_
    exact ⟨hr.items.imp fun item hi => ⟨hrows hi.1, hi.2⟩, hr.scanned, hr.lastKey⟩

end Table

/-- The store of two runs from one store, which has a table under a name. -/
def MemoryStore.Twins (name : String) (t : Table) (s s' : MemoryStore) : Prop :=
  s = s' ∧ s.tables.find name = some t

/-! ## Parts of pages -/

namespace Page

open MemoryStore (Twins checkLimit taken)

/--
A selection is read as another one is, of which whole items are returned, and the keys of items can be told from what it
returns of them.
-/
structure Narrows (t : Table) (descending : Bool) (whole what : Selection) (w' w : TableRead) : Prop where
  table : what.table = whole.table
  kind : what.kind = whole.kind
  plan : what.plan t descending = .ok w
  wholePlan : whole.plan t descending = .ok w'
  reads : TableRead.Narrows w' w t.items

/-- What is on two pages, or parts of pages, that differ in what is returned only. -/
abbrev Kept (t : Table) (w' w : TableRead) (items whole : List Item) : Prop :=
  Narrowed w.output (fun item => item ∈ t.rows w' ∧ w'.selects item = true) items whole

variable {t : Table} {descending : Bool} {whole what : Selection} {w' w : TableRead}

theorem Narrows.readPart (h : Narrows t descending whole what w' w) (cap : Option Nat) (start : Option Key) :
    Relates (Twins whole.table t) (fun part part' => Kept t w' w part.1 part'.1 ∧ part.2 = part'.2)
      (Page.readPart what descending cap start) (Page.readPart whole descending cap start) := by
  rintro s _ ⟨rfl, ht⟩
  rw [MemoryStore.readPart_checked (by rw [h.table]; exact ht), MemoryStore.readPart_checked ht, h.kind]
  refine ⟨⟨rfl, ht⟩, Agree.bind_same fun _ _ => ?_⟩
  rw [h.plan, h.wholePlan]
  refine Agree.bind_same (x := checkLimit _) fun limit _ => ?_
  have hread := Table.read_narrows (h.reads.part (s.faults.limit limit) (start.getD [])) rfl rfl
  refine (hread.mapError _).map fun r r' hr => ⟨?_, ?_⟩
  · exact hr.items
  · show r.lastKey.filter _ = r'.lastKey.filter _
    rw [hr.lastKey]

/-! ## Pages -/

/-- Two pages that differ in what is returned only. -/
structure Pages (t : Table) (w' w : TableRead) (page whole : Page) : Prop where
  items : Kept t w' w page.items whole.items
  nextCursor : page.nextCursor = whole.nextCursor

/-- Full pages are cut at the same item if its key can be told from what is returned of it. -/
theorem full_narrows (hkey : ∀ item ∈ t.rows w', keyFrom what.keyFields (w.output item) = keyFrom whole.keyFields item)
    {buffer buffer' : List Item} (hb : Kept t w' w buffer buffer') (size : Nat) (storeKey : Option Key) :
    Pages t w' w (full what buffer size storeKey) (full whole buffer' size storeKey) := by
  have hcut : (buffer[size - 1]?).bind (keyFrom what.keyFields) =
      (buffer'[size - 1]?).bind (keyFrom whole.keyFields) := by
    rw [hb.items, List.getElem?_map]
    cases hget : buffer'[size - 1]? with
    | none => rfl
    | some item => exact hkey item (hb.stored item (List.mem_of_getElem? hget)).1
  unfold full
  rw [hcut, hb.length_eq]
  generalize (if size < buffer'.length then _ else _ : Option Key) = cut
  cases cut with
  | some key => exact ⟨hb.take size, rfl⟩
  | none => exact ⟨hb, rfl⟩

theorem Narrows.rounds (h : Narrows t descending whole what w' w) {size : Option Nat}
    (hkey : size.isSome → ∀ item ∈ t.rows w',
      keyFrom what.keyFields (w.output item) = keyFrom whole.keyFields item) (cap : Option Nat) :
    ∀ (n : Nat) {buffer buffer' : List Item} (start : Option Key), Kept t w' w buffer buffer' →
      Relates (Twins whole.table t) (Pages t w' w) (Page.rounds what descending size cap n buffer start)
        (Page.rounds whole descending size cap n buffer' start)
  | 0, _, _, _, hb => relates_pure ⟨hb, rfl⟩
  | n + 1, buffer, buffer', start, hb => by
    refine ((h.readPart cap start).mapError _).attempt.bind fun r r' hr => ?_
    cases hr with
    | error e =>
      have hempty : buffer.isEmpty = buffer'.isEmpty := by rw [hb.items, List.isEmpty_map]
      dsimp only
      rw [hempty]
      split
      · exact relates_throw e
      · exact relates_pure ⟨hb, rfl⟩
    | @ok part part' hpart =>
      obtain ⟨items, last⟩ := part
      obtain ⟨items', last'⟩ := part'
      obtain ⟨hitems, hlast⟩ := hpart
      obtain rfl : last = last' := hlast
      have hmore := hb.append hitems
      dsimp only
      rw [hmore.length_eq]
      cases hsize : size.filter fun size => size ≤ (buffer' ++ items').length with
      | some size' =>
        have hsome : size.isSome := by rw [(Option.filter_eq_some_iff.1 hsize).1]; rfl
        exact relates_pure (full_narrows (hkey hsome) hmore size' last)
      | none =>
        cases last with
        | some key => exact h.rounds hkey cap n (some key) hmore
        | none => exact relates_pure ⟨hmore, rfl⟩

/-- **Pages that differ in what is returned only** hold the same stored items, end at the same place and have the same
cursor, or are refused or fail with the same error. -/
theorem relates_read {settings : Settings} {paging : Paging} (h : Narrows t paging.descending whole what w' w)
    (hkey : (CapBounds.positive? paging.pageSize).isSome → ∀ item ∈ t.rows w',
      keyFrom what.keyFields (w.output item) = keyFrom whole.keyFields item) :
    Relates (Twins whole.table t) (Pages t w' w)
      (Page.read settings what paging) (Page.read settings whole paging) := by
  refine relates_bind_same fun start _ => relates_get.bind fun s s' hs => ?_
  obtain ⟨rfl, -⟩ := hs
  exact h.rounds hkey _ _ start .nil

end Page

end RecordStore
