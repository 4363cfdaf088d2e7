import Mathlib
import RecordStore.Proofs.Table.Keys

/-!
# What a read without a limit returns

An item is `Table.Complete` for a read if it has all key attributes of its order, each of its type. Complete items are
those that have a position (`Table.place_isOk_iff_complete`), and a read starts after any key that is complete, whether
an item is stored there or not (`Table.ahead_complete`).

**`Table.read_returns`**: a read without a limit counts the complete items beyond its start that meet the key condition,
and returns of those that pass the filter what is asked for, each once and in order; a start key that is not complete is
an error.
-/

namespace RecordStore

open Std (OrientedCmp)

namespace Table

variable {t : Table} {w : TableRead} {item : Item} {readOrder : List (Option KeyField)}

/-! ## Complete items -/

/-- An item with all key attributes of a read order, each of its type. -/
def Complete (readOrder : List (Option KeyField)) (item : Item) : Prop :=
  ∀ k, some k ∈ readOrder → ∃ a, item.find k.name = some a ∧ k.type.accepts a = true

/-- **Complete items** are those that have a position. -/
theorem place_isOk_iff_complete : (place readOrder item).isOk = true ↔ Complete readOrder item := by
  rw [place_isOk_iff]
  constructor
  · intro h k hk
    obtain ⟨s, hs⟩ := h (some k) hk
    obtain ⟨key, -, hkey⟩ := part_some_ok hs
    obtain ⟨a, ha, haccepts, -⟩ := KeyField.sortKey_ok.1 hkey
    exact ⟨a, ha, haccepts⟩
  · intro h k hk
    cases k with
    | none => exact ⟨none, rfl⟩
    | some k =>
      obtain ⟨a, ha, haccepts⟩ := h k hk
      exact part_of_accepts ha haccepts

theorem complete_iff_place : Complete readOrder item ↔ ∃ p, place readOrder item = .ok p := by
  rw [← place_isOk_iff_complete]
  cases place readOrder item with
  | ok p => exact ⟨fun _ => ⟨p, rfl⟩, fun _ => rfl⟩
  | error e => exact ⟨nofun, nofun⟩

/-- Why an item has no position: a key attribute is missing or has another type. -/
inductive Incomplete (readOrder : List (Option KeyField)) (item : Item) : TableError → Prop
  | missing {k : KeyField} : some k ∈ readOrder → item.find k.name = none →
      Incomplete readOrder item (.missingKey k.name)
  | wrong {k : KeyField} {a : Attribute} : some k ∈ readOrder → item.find k.name = some a →
      k.type.accepts a = false → Incomplete readOrder item (.wrongType k.name (some k.type) a.type)

theorem sortKey_error {k : KeyField} {e : TableError} (h : k.sortKey item = .error e) (hk : some k ∈ readOrder) :
    Incomplete readOrder item e := by
  rw [KeyField.sortKey, KeyField.value] at h
  cases hf : item.find k.name with
  | none =>
    rw [hf] at h
    cases h
    exact .missing hk hf
  | some a =>
    simp only [hf, KeyField.checkValue] at h
    cases ha : k.type.accepts a with
    | false =>
      rw [ha] at h
      cases h
      exact .wrong hk hf ha
    | true =>
      obtain ⟨key, hkey⟩ := KeyField.ofAttribute?_ok ha k.name
      simp [ha, hkey, bind, Except.bind] at h

/-- **An item without a position** is not complete. -/
theorem place_error {e : TableError} (h : place readOrder item = .error e) :
    ∃ cause, e = .badStartKey cause ∧ Incomplete readOrder item cause := by
  have hpart : ∃ k ∈ readOrder, part item k = .error e := by
    induction readOrder with
    | nil => cases h
    | cons k ks ih =>
      rw [place_cons] at h
      cases hk : part item k with
      | error e' =>
        rw [hk] at h
        cases h
        exact ⟨k, List.mem_cons_self, hk⟩
      | ok s =>
        cases hks : place ks item with
        | error e' =>
          rw [hk, hks] at h
          cases h
          obtain ⟨k', hk', he⟩ := ih hks
          exact ⟨k', List.mem_cons_of_mem _ hk', he⟩
        | ok p =>
          rw [hk, hks] at h
          cases h
  obtain ⟨k, hk, hpart⟩ := hpart
  cases k with
  | none => cases hpart
  | some k =>
    rw [part] at hpart
    split at hpart
    · cases hpart
    · cases hpart
      exact ⟨_, rfl, sortKey_error ‹_› hk⟩

/-- In the table and in its own indexes, a stored item that has the key attributes is complete. -/
theorem Sound.complete_iff_has (hs : t.Sound) {index : Option IndexShape} (hindex : ∀ i ∈ index, i ∈ t.shape.indexes)
    (hi : item ∈ t.items) :
    Complete (t.shape.readOrder index) item ↔ ∀ k, some k ∈ t.shape.readOrder index → item.has k.name = true := by
  constructor
  · intro h k hk
    obtain ⟨a, ha, -⟩ := h k hk
    exact Fields.has_iff.2 ⟨a, ha⟩
  · intro h
    rw [← place_isOk_iff_complete]
    cases index with
    | none => exact hs.place_table hi
    | some index =>
      refine (hs.place_index hi (hindex index rfl)).2 fun k hk => h k (List.mem_append_left _ ?_)
      rcases List.mem_cons.1 hk with rfl | hk
      · exact List.mem_cons_self
      · show some k ∈ [some index.key.partition, index.key.sort]
        rw [Option.mem_toList.1 hk]
        exact List.mem_cons_of_mem _ List.mem_cons_self

/-! ## The items that are walked -/

/-- No position in the order of a read comes before an earlier one. -/
theorem ordered_sorted (t : Table) (readOrder : List (Option KeyField)) (forward : Bool) :
    (t.ordered readOrder forward).Pairwise fun a b => ¬ Before forward b.1 a.1 := by
  have h := pairwise_ordered t readOrder
  cases forward with
  | true =>
    refine h.imp fun {a b} hab hba => hab ?_
    exact OrientedCmp.gt_iff_lt.2 hba
  | false =>
    rw [ordered_backward, List.pairwise_reverse]
    refine h.imp fun {a b} hab hba => hab ?_
    exact OrientedCmp.gt_iff_lt.2 hba

theorem mem_rows_iff : item ∈ t.rows w ↔ item ∈ t.items ∧ Complete (t.shape.readOrder w.index) item := by
  rw [(t.rows_perm w).mem_iff, List.mem_filter, place_isOk_iff_complete]

theorem Sound.nodup_rows (hs : t.Sound) (w : TableRead) : (t.rows w).Nodup :=
  (t.rows_perm w).nodup_iff.2 (hs.nodup_items.filter _)

/-- No item of a read stands before an earlier one. -/
theorem rows_sorted (t : Table) (w : TableRead) :
    (t.rows w).Pairwise fun a b => ¬ Precedes (t.shape.readOrder w.index) w.forward b a := by
  rw [rows, List.pairwise_map]
  refine (ordered_sorted t _ w.forward).imp_of_mem ?_
  rintro a b ha hb hab ⟨p, q, hp, hq, hbefore⟩
  rw [(mem_ordered.1 hb).2] at hp
  rw [(mem_ordered.1 ha).2] at hq
  cases hp
  cases hq
  exact hab hbefore

/-- A read against the order walks the items the other way round. -/
theorem rows_backward (t : Table) (w : TableRead) :
    t.rows { w with forward := false } = (t.rows { w with forward := true }).reverse := by
  rw [rows, ordered_backward, List.map_reverse]
  rfl

/-- **A read starts after any complete key**: it walks the items of its order that stand behind it. -/
theorem ahead_complete (h : w.after = [] ∨ Complete (t.shape.readOrder w.index) w.after) :
    ∃ items, t.ahead w = .ok items ∧ items.Sublist (t.rows w) ∧ ∀ item, item ∈ items ↔ item ∈ t.rows w ∧
      (w.after = [] ∨ Precedes (t.shape.readOrder w.index) w.forward w.after item) := by
  by_cases hafter : w.after = []
  · refine ⟨t.rows w, ahead_start t hafter, List.Sublist.refl _, fun item => ?_⟩
    exact ⟨fun hi => ⟨hi, .inl hafter⟩, fun hi => hi.1⟩
  · obtain ⟨start, hstart⟩ := complete_iff_place.1 (h.resolve_left hafter)
    have hposition : startPosition (t.shape.readOrder w.index) w.after = .ok (some start) := by
      rw [startPosition, if_neg (by simpa using hafter), hstart]
      rfl
    refine ⟨_, by rw [ahead, hposition]; rfl, List.filter_sublist.map _, fun item => ?_⟩
    rw [rows, List.mem_map, List.mem_map]
    constructor
    · rintro ⟨entry, hentry, rfl⟩
      obtain ⟨hmem, hbeyond⟩ := List.mem_filter.1 hentry
      exact ⟨⟨entry, hmem, rfl⟩, .inr ⟨start, entry.1, hstart, (mem_ordered.1 hmem).2, isBeyond_iff.1 hbeyond⟩⟩
    · rintro ⟨⟨entry, hmem, rfl⟩, hprecedes⟩
      obtain ⟨p, q, hp, hq, hbefore⟩ := hprecedes.resolve_left hafter
      rw [hstart] at hp
      rw [(mem_ordered.1 hmem).2] at hq
      cases hp
      cases hq
      exact ⟨entry, List.mem_filter.2 ⟨hmem, isBeyond_iff.2 hbefore⟩, rfl⟩

/-! ## What is returned -/

/-- The items that a read counts: complete ones beyond its start that meet the key condition. -/
def Counts (t : Table) (w : TableRead) (item : Item) : Prop :=
  item ∈ t.items ∧ Complete (t.shape.readOrder w.index) item ∧
    (w.after = [] ∨ Precedes (t.shape.readOrder w.index) w.forward w.after item) ∧
    w.meets w.keyCondition item = .ok true

theorem inRange_iff (he : w.Evaluates t.items) (hi : item ∈ t.items) :
    w.inRange item = true ↔ w.meets w.keyCondition item = .ok true := by
  rw [(he item hi).1, Except.ok.injEq]

theorem selects_iff (he : w.Evaluates t.items) (hi : item ∈ t.items) : w.selects item = true ↔
    w.meets w.keyCondition item = .ok true ∧ w.meets w.filter item = .ok true := by
  rw [TableRead.selects, Bool.and_eq_true, inRange_iff he hi]
  refine and_congr_right fun hk => ?_
  rw [(he item hi).2 ((inRange_iff he hi).2 hk), Except.ok.injEq]

/-- From the start or from a complete key. -/
theorem Sound.read_complete (hs : t.Sound) (hl : w.limit = none) (he : w.Evaluates t.items)
    (h : w.after = [] ∨ Complete (t.shape.readOrder w.index) w.after) :
    ∃ counted chosen : List Item, t.read w = .ok ⟨chosen.map w.output, counted.length, none⟩ ∧
      counted.Nodup ∧ (∀ item, item ∈ counted ↔ t.Counts w item) ∧
      chosen.Nodup ∧ (∀ item, item ∈ chosen ↔ t.Counts w item ∧ w.meets w.filter item = .ok true) ∧
      chosen.Pairwise fun a b => ¬ Precedes (t.shape.readOrder w.index) w.forward b a := by
  obtain ⟨items, hahead, hsublist, hitems⟩ := ahead_complete h
  have hstored : ∀ item ∈ items, item ∈ t.items := fun item hi => (mem_rows_iff.1 ((hitems item).1 hi).1).1
  have hnodup : items.Nodup := hsublist.nodup (hs.nodup_rows w)
  have hcounts : ∀ item, item ∈ items ∧ w.inRange item = true ↔ t.Counts w item := fun item => by
    rw [hitems, mem_rows_iff, Counts]
    constructor
    · rintro ⟨⟨⟨hi, hc⟩, hb⟩, hrange⟩
      exact ⟨hi, hc, hb, (inRange_iff he hi).1 hrange⟩
    · rintro ⟨hi, hc, hb, hk⟩
      exact ⟨⟨⟨hi, hc⟩, hb⟩, (inRange_iff he hi).2 hk⟩
  refine ⟨items.filter w.inRange, items.filter w.selects, ?_, hnodup.filter _, fun item => ?_, hnodup.filter _,
    fun item => ?_, ((rows_sorted t w).sublist hsublist).filter _⟩
  · rw [read_of_ahead hahead hl (he.sublist hstored), TableRead.rangeCount, List.countP_eq_length_filter]
    rfl
  · rw [List.mem_filter, hcounts]
  · rw [List.mem_filter, ← hcounts, and_assoc]
    refine and_congr_right fun hi => ?_
    rw [selects_iff he (hstored item hi), inRange_iff he (hstored item hi)]

/-- From the start, in the order of positions and against it. -/
theorem read_backward (hl : w.limit = none) (he : w.Evaluates t.items) (h : w.after = []) :
    ∃ r, t.read { w with forward := true } = .ok r ∧
      t.read { w with forward := false } = .ok { r with items := r.items.reverse } := by
  let items := t.rows { w with forward := true }
  have hitems : w.Evaluates items := he.sublist fun item hi => (mem_rows_iff.1 hi).1
  have hreverse : w.Evaluates items.reverse := hitems.sublist fun item hi => List.mem_reverse.1 hi
  have hahead : t.ahead { w with forward := false } = .ok (t.rows { w with forward := false }) := ahead_start t h
  rw [rows_backward] at hahead
  refine ⟨_, read_of_ahead (ahead_start t h) hl hitems, ?_⟩
  rw [read_of_ahead hahead hl hreverse]
  have houtputs : w.outputs items.reverse = (w.outputs items).reverse := by
    rw [TableRead.outputs, List.filter_reverse, List.map_reverse]
    rfl
  have hcount : w.rangeCount items.reverse = w.rangeCount items := List.countP_reverse
  exact congrArg Except.ok (congrArg₂ (ReadOutcome.mk · · none) houtputs hcount)

/-- From any other key. -/
theorem read_incomplete (hne : w.after ≠ []) (h : ¬ Complete (t.shape.readOrder w.index) w.after) :
    ∃ cause, t.read w = .error (.badStartKey cause) ∧ Incomplete (t.shape.readOrder w.index) w.after cause := by
  cases hp : place (t.shape.readOrder w.index) w.after with
  | ok p => exact absurd (complete_iff_place.2 ⟨p, hp⟩) h
  | error e =>
    obtain ⟨cause, rfl, hcause⟩ := place_error hp
    refine ⟨cause, ?_, hcause⟩
    rw [read_eq, ahead, startPosition, if_neg (by simpa using hne), hp]
    rfl

/--
**What a read without a limit returns**, of a table after any puts and deletes and where no expression fails. From the
start, or from any complete key, it counts the complete items beyond that meet the key condition, each once; it returns
what is asked for of those that pass the filter, in its order; and there is no last key. From the start, a read against
the order returns the same items the other way round. Any other start key is an error. And the stored items that are
complete, in the table or in one of its indexes, are those that have all key attributes.
-/
theorem read_returns {shape : TableShape} (hr : t.Reached shape) (hl : w.limit = none) (he : w.Evaluates t.items) :
    (w.after = [] ∨ Complete (shape.readOrder w.index) w.after →
      ∃ counted chosen : List Item, t.read w = .ok ⟨chosen.map w.output, counted.length, none⟩ ∧
        counted.Nodup ∧ (∀ item, item ∈ counted ↔ t.Counts w item) ∧
        chosen.Nodup ∧ (∀ item, item ∈ chosen ↔ t.Counts w item ∧ w.meets w.filter item = .ok true) ∧
        chosen.Pairwise fun a b => ¬ Precedes (shape.readOrder w.index) w.forward b a) ∧
    (w.after = [] → ∃ r, t.read { w with forward := true } = .ok r ∧
      t.read { w with forward := false } = .ok { r with items := r.items.reverse }) ∧
    (w.after ≠ [] → ¬ Complete (shape.readOrder w.index) w.after →
      ∃ cause, t.read w = .error (.badStartKey cause) ∧ Incomplete (shape.readOrder w.index) w.after cause) ∧
    ((∀ index ∈ w.index, index ∈ shape.indexes) → ∀ item ∈ t.items,
      (Complete (shape.readOrder w.index) item ↔
        ∀ k, some k ∈ shape.readOrder w.index → item.has k.name = true)) := by
  rw [← hr.shape_eq]
  exact ⟨hr.sound.read_complete hl he, read_backward hl he, read_incomplete,
    fun hindex item hi => hr.sound.complete_iff_has hindex hi⟩

/-- Against the order of an index, from a key that no item has. Of five items, one lies before the start, one is missing
from the index and one does not pass the filter; the others have one position. -/
theorem read_returns_backward :
    let index : IndexShape := ⟨"by", ⟨⟨"g", .text⟩, none⟩⟩
    let shape : TableShape := ⟨"t", ⟨⟨"p", .number⟩, none⟩, [index]⟩
    let a : Item := [("g", .text "x"), ("p", .number "1")]
    let b : Item := [("g", .text "x"), ("p", .number "1.0")]
    let c : Item := [("g", .text "x"), ("p", .number "2"), ("v", .text "")]
    let d : Item := [("g", .text "z"), ("p", .number "3")]
    let e : Item := [("p", .number "4")]
    let t : Table := ⟨shape, [(.number "1", [(none, a)]), (.number "1.0", [(none, b)]), (.number "2", [(none, c)]),
      (.number "3", [(none, d)]), (.number "4", [(none, e)])]⟩
    let w : TableRead :=
      { index := some index, keyCondition := some (.compare (.path ⟨"g", []⟩) .ge (.value ":g"))
        filter := some (.call .attributeNotExists [.path ⟨"v", []⟩]), values := [(":g", .text "x")], forward := false
        after := [("g", .text "y"), ("p", .number "0")] }
    t.Reached shape ∧ w.Evaluates t.items ∧ Complete (shape.readOrder w.index) w.after ∧
      t.read w = .ok ⟨[b, a], 3, none⟩ ∧
      ∀ item, item ∈ [b, a] ↔ t.Counts w item ∧ w.meets w.filter item = .ok true := by
  intro index shape a b c d e t w
  have ha : Fields.Ordered a := List.pairwise_map.1 (show ["g", "p"].Pairwise (· < ·) by decide)
  have hb : Fields.Ordered b := List.pairwise_map.1 (show ["g", "p"].Pairwise (· < ·) by decide)
  have hc : Fields.Ordered c := List.pairwise_map.1 (show ["g", "p", "v"].Pairwise (· < ·) by decide)
  have hd : Fields.Ordered d := List.pairwise_map.1 (show ["g", "p"].Pairwise (· < ·) by decide)
  have hlast : Fields.Ordered e := Fields.ordered_singleton _
  have hreached : t.Reached shape :=
    .put (.put (.put (.put (.put .empty ha (by rfl)) hb (by rfl)) hc (by rfl)) hd (by rfl)) hlast (by rfl)
  have he : w.Evaluates t.items := by
    unfold TableRead.Evaluates
    decide
  have hcomplete : Complete (shape.readOrder w.index) w.after :=
    place_isOk_iff_complete.1 (by decide)
  obtain ⟨counted, chosen, hread, -, -, -, hchosen, -⟩ := (read_returns hreached rfl he).1 (.inr hcomplete)
  have hresult : t.read w = .ok ⟨[b, a], 3, none⟩ := by
    unfold t w a b c d e shape index
    cbv
  rw [hresult] at hread
  have hsame : chosen = [b, a] := by
    have hoption := (ReadOutcome.mk.inj (Except.ok.inj hread)).1
    rw [hoption]
    exact (List.map_id _).symm
  exact ⟨hreached, he, hcomplete, hresult, hsame ▸ hchosen⟩

end Table

end RecordStore
