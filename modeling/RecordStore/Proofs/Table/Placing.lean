import Mathlib.Data.List.Forall2
import RecordStore.Proofs.Table.Sound
import RecordStore.Table.Read

/-!
# Where items stand in a read

The position of an item is given by its key attributes alone (`Table.place_ok`, `Table.place_keyIn`). Two items of a
table in order have positions that compare equal only if their partition values are spellings of one number
(`Table.Confused`). So the items of a read stand in strictly ascending order, or strictly descending, where none are
(`Table.Sound.ordered_pairwise_of_not_confused`), as in a table whose partition key is no number:
**`Table.Sound.ordered_pairwise`**.

**`Table.Sound.ahead_keyIn`**: a read that starts after the key of an item begins with the item that comes next.
-/

namespace RecordStore

open Position (comparePart)
open Std (TransCmp OrientedCmp ReflCmp)

/-! ## Key attributes -/

namespace KeyType

theorem number_of_accepts {a : Attribute} {k : KeyType} (hk : k = .number) (ha : k.accepts a = true) :
    ∃ n, a = .number n := by
  subst hk
  cases a with
  | number n => exact ⟨n, rfl⟩
  | _ => cases ha

theorem eq_number_of_accepts {n : String} {k : KeyType} (ha : k.accepts (.number n) = true) : k = .number := by
  cases k with
  | number => rfl
  | _ => cases ha

end KeyType

namespace KeyField

variable {k : KeyField} {item : Item}

theorem value_ok {a : Attribute} : k.value item = .ok a ↔ item.find k.name = some a ∧ k.type.accepts a = true := by
  unfold value checkValue
  cases hf : item.find k.name with
  | none => simp
  | some b =>
    by_cases hb : k.type.accepts b = true
    · simp only [hb, if_true, bind, Except.bind, Except.ok.injEq, Option.some.injEq]
      exact ⟨fun h => ⟨h, h ▸ hb⟩, fun h => h.1⟩
    · simp only [if_neg hb, bind, Except.bind]
      refine ⟨nofun, fun ⟨h, ha⟩ => ?_⟩
      cases h
      exact absurd ha hb

theorem sortKey_ok {s : SortKey} : k.sortKey item = .ok s ↔
    ∃ a, item.find k.name = some a ∧ k.type.accepts a = true ∧ SortKey.ofAttribute? k.name a = .ok s := by
  unfold sortKey
  cases hv : k.value item with
  | error e =>
    simp only [bind, Except.bind, reduceCtorEq, false_iff]
    rintro ⟨a, hf, ha, -⟩
    rw [value_ok.2 ⟨hf, ha⟩] at hv
    cases hv
  | ok a =>
    obtain ⟨hf, ha⟩ := value_ok.1 hv
    simp only [bind, Except.bind]
    refine ⟨fun h => ⟨a, hf, ha, h⟩, ?_⟩
    rintro ⟨b, hb, -, h⟩
    rw [hf] at hb
    cases hb
    exact h

/-- A value of the type of a key attribute is a key. -/
theorem ofAttribute?_ok {a : Attribute} (ha : k.type.accepts a = true) (name : String) :
    ∃ s, SortKey.ofAttribute? name a = .ok s := by
  cases a <;> first | exact ⟨_, rfl⟩ | (cases hk : k.type <;> simp [KeyType.accepts, hk, Attribute.type,
    KeyType.attributeType] at ha)

/-- Values that are no numbers are the same if their keys compare equal. -/
theorem eq_of_compare {a b : Attribute} {s s' : SortKey} {name : String} (hk : k.type ≠ .number)
    (ha : k.type.accepts a = true) (hs : SortKey.ofAttribute? name a = .ok s)
    (hs' : SortKey.ofAttribute? name b = .ok s') (h : SortKey.compare s s' = .eq) : a = b := by
  have hn : ∀ n, s ≠ .number n := by
    rintro n rfl
    cases a <;> cases hs
    exact hk (by cases hk : k.type <;> simp [KeyType.accepts, hk, Attribute.type, KeyType.attributeType] at ha ⊢)
  cases SortKey.eq_of_compare h hn
  cases a <;> cases b <;> cases hs <;> cases hs' <;> rfl

end KeyField

/-! ## Positions -/

theorem Position.compare_eq_iff : ∀ {p q : Position},
    Position.compare p q = .eq ↔ List.Forall₂ (fun a b => comparePart a b = .eq) p q
  | [], [] => ⟨fun _ => .nil, fun _ => rfl⟩
  | [], _ :: _ => ⟨nofun, nofun⟩
  | _ :: _, [] => ⟨nofun, nofun⟩
  | a :: p, b :: q => by
    rw [compare_cons, Ordering.then_eq_eq, List.forall₂_cons, compare_eq_iff (p := p)]

namespace Table

variable {t : Table} {item : Item} {p : Position} {readOrder : List (Option KeyField)}

/-- The part of a position that a key attribute gives. -/
def part (item : Item) : Option KeyField → Except TableError (Option SortKey)
  | none => .ok none
  | some k =>
    match k.sortKey item with
    | .ok key => .ok (some key)
    | .error cause => .error (.badStartKey cause)

theorem place_cons (k : Option KeyField) (ks : List (Option KeyField)) (item : Item) :
    place (k :: ks) item = (do let a ← part item k; let p ← place ks item; .ok (a :: p)) := by
  rw [place, List.mapM_cons]
  cases k <;> rfl

theorem place_ok : ∀ {readOrder : List (Option KeyField)} {p : Position},
    place readOrder item = .ok p ↔ List.Forall₂ (fun k a => part item k = .ok a) readOrder p
  | [], [] => ⟨fun _ => .nil, fun _ => rfl⟩
  | [], _ :: _ => ⟨nofun, nofun⟩
  | k :: ks, p => by
    rw [place_cons]
    cases hk : part item k with
    | error e =>
      simp only [bind, Except.bind, reduceCtorEq, false_iff]
      intro h
      cases h with | cons h _ => rw [hk] at h; cases h
    | ok a =>
      cases hks : place ks item with
      | error e =>
        simp only [bind, Except.bind, reduceCtorEq, false_iff]
        intro h
        cases h with | cons _ h => rw [place_ok.2 h] at hks; cases hks
      | ok q =>
        have hq := place_ok.1 hks
        simp only [bind, Except.bind, Except.ok.injEq]
        refine ⟨?_, fun h => ?_⟩
        · rintro rfl
          exact .cons hk hq
        · cases h with
          | cons ha hp =>
            rw [hk] at ha
            cases ha
            rw [place_ok.2 hp] at hks
            cases hks
            rfl

theorem part_congr {a b : Item} {k : Option KeyField} (h : ∀ f ∈ k, a.find f.name = b.find f.name) :
    part a k = part b k := by
  cases k with
  | none => rfl
  | some k => simp only [part, KeyField.sortKey, KeyField.value, h k rfl]

/-- The position depends on the key attributes alone. -/
theorem place_congr {a b : Item} : ∀ {readOrder : List (Option KeyField)},
    (∀ f, some f ∈ readOrder → a.find f.name = b.find f.name) → place readOrder a = place readOrder b
  | [], _ => rfl
  | k :: ks, h => by
    rw [place_cons, place_cons, place_congr fun f hf => h f (List.mem_cons_of_mem _ hf),
      part_congr fun f hf => h f (by cases hf; exact List.mem_cons_self)]

/-- The key of an item has its position. -/
theorem place_keyIn (readOrder : List (Option KeyField)) (item : Item) :
    place readOrder (keyIn readOrder item) = place readOrder item := by
  refine place_congr fun f hf => ?_
  have hname : f.name ∈ readOrder.filterMap fun k => k.map (·.name) := List.mem_filterMap.2 ⟨some f, hf, rfl⟩
  rw [keyIn, Fields.find_restrict, if_pos hname]

theorem part_some_ok {k : KeyField} {s : Option SortKey} (h : part item (some k) = .ok s) :
    ∃ key, s = some key ∧ k.sortKey item = .ok key := by
  simp only [part] at h
  split at h
  · cases h; exact ⟨_, rfl, ‹_›⟩
  · cases h

/-! ## Distinct positions -/

theorem address_ok {value : Attribute} {sort : Option SortKey} (hv : t.shape.key.partition.value item = .ok value)
    (hs : part item t.shape.key.sort = .ok sort) : t.address item = .ok (value, sort) := by
  unfold address
  cases hk : t.shape.key.sort with
  | none =>
    rw [hk] at hs
    cases hs
    simp only [hv, bind, Except.bind]
  | some k =>
    rw [hk] at hs
    obtain ⟨key, rfl, hkey⟩ := part_some_ok hs
    simp only [hv, hkey, bind, Except.bind]

theorem address_parts {value : Attribute} {sort : Option SortKey} (h : t.address item = .ok (value, sort)) :
    t.shape.key.partition.value item = .ok value ∧ part item t.shape.key.sort = .ok sort := by
  unfold address at h
  cases hv : t.shape.key.partition.value item with
  | error e => rw [hv] at h; cases h
  | ok v =>
    rw [hv] at h
    cases hk : t.shape.key.sort with
    | none =>
      rw [hk] at h
      cases h
      exact ⟨rfl, rfl⟩
    | some k =>
      simp only [hk, bind, Except.bind] at h
      cases hs : k.sortKey item with
      | error e => rw [hs] at h; cases h
      | ok s =>
        rw [hs] at h
        cases h
        exact ⟨rfl, by rw [part, hs]⟩

/-- The parts of two positions that compare equal. -/
theorem parts_eq {a b : Item} {p q : Position} (ha : place readOrder a = .ok p) (hb : place readOrder b = .ok q)
    (h : Position.compare p q = .eq) : ∀ k ∈ readOrder, ∃ s s', part a k = .ok s ∧ part b k = .ok s' ∧
      comparePart s s' = .eq := by
  have ha := place_ok.1 ha
  have hb := place_ok.1 hb
  have h := Position.compare_eq_iff.1 h
  clear * - ha hb h
  induction ha generalizing q with
  | nil => exact nofun
  | cons hx _ ih =>
    cases hb with
    | cons hy hb =>
      cases h with
      | cons hxy h =>
        exact List.forall_mem_cons.2 ⟨⟨_, _, hx, hy, hxy⟩, ih hb h⟩

/-- Two items with different spellings of one number as partition values, and sort keys that compare equal. -/
def Confused (t : Table) (a b : Item) : Prop :=
  ∃ m n s s', t.address a = .ok (.number m, s) ∧ t.address b = .ok (.number n, s') ∧ m ≠ n ∧
    SortKey.double m = SortKey.double n ∧ comparePart s s' = .eq

/-- Items with different keys have different positions, unless their partition values are spellings of one number. -/
theorem Apart.confused {a b : Item} {p q : Position} (h : t.Apart a b) (hro : ∀ k ∈ t.shape.key.parts, k ∈ readOrder)
    (ha : place readOrder a = .ok p) (hb : place readOrder b = .ok q) (heq : Position.compare p q = .eq) :
    t.Confused a b := by
  have hparts := parts_eq ha hb heq
  obtain ⟨_, _, hp, hp', hpp⟩ := hparts _ (hro (some t.shape.key.partition) (by simp [KeyShape.parts]))
  obtain ⟨s, s', hs, hs', hss⟩ := hparts _ (hro t.shape.key.sort (by simp [KeyShape.parts]))
  obtain ⟨v, rfl, hv⟩ := part_some_ok hp
  obtain ⟨v', rfl, hv'⟩ := part_some_ok hp'
  obtain ⟨x, hfx, hx, hvx⟩ := KeyField.sortKey_ok.1 hv
  obtain ⟨y, hfy, hy, hvy⟩ := KeyField.sortKey_ok.1 hv'
  have hax := address_ok (KeyField.value_ok.2 ⟨hfx, hx⟩) hs
  have hay := address_ok (KeyField.value_ok.2 ⟨hfy, hy⟩) hs'
  have hne : x ≠ y := fun hxy => (h hax hay).elim (fun hne => hne hxy) fun hne => hne hss
  by_cases hk : t.shape.key.partition.type = .number
  · obtain ⟨m, rfl⟩ := KeyType.number_of_accepts hk hx
    obtain ⟨n, rfl⟩ := KeyType.number_of_accepts hk hy
    cases hvx
    cases hvy
    exact ⟨m, n, s, s', hax, hay, fun hmn => hne (hmn ▸ rfl), SortKey.double_eq_of_compare hpp, hss⟩
  · exact absurd (KeyField.eq_of_compare hk hx hvx hvy hpp) hne

/-- No two items are confused where the partition key is no number. -/
theorem not_confused (hk : t.shape.key.partition.type ≠ .number) (a b : Item) : ¬ t.Confused a b := by
  rintro ⟨m, n, s, s', ha, -, -, -, -⟩
  obtain ⟨hv, -⟩ := address_parts ha
  exact hk (KeyType.eq_number_of_accepts (KeyField.value_ok.1 hv).2)

/-! ## The order of a read -/

/-- Whether a position comes before another in the order of a read. -/
def Before (forward : Bool) (a b : Position) : Prop :=
  (if forward then Position.compare a b else Position.compare b a) = .lt

theorem Before.trans {forward : Bool} {a b c : Position} (h : Before forward a b) (h' : Before forward b c) :
    Before forward a c := by
  cases forward with
  | true => exact @TransCmp.lt_trans _ Position.compare _ _ _ _ h h'
  | false => exact @TransCmp.lt_trans _ Position.compare _ _ _ _ h' h

theorem isBeyond_iff {forward : Bool} {start p : Position} :
    isBeyond forward start p = true ↔ Before forward start p := by
  cases forward with
  | true =>
    simp only [Before, if_true]
    rw [← @OrientedCmp.gt_iff_lt _ Position.compare, isBeyond]
    cases Position.compare p start <;> simp
  | false =>
    simp only [Before, isBeyond]
    cases Position.compare p start <;> simp

theorem Before.irrefl {forward : Bool} {a : Position} : ¬ Before forward a a := by
  cases forward <;> simp [Before, ReflCmp.compare_self]

theorem Before.asymm {forward : Bool} {a b : Position} (h : Before forward a b) : ¬ Before forward b a :=
  fun h' => Before.irrefl (h.trans h')

theorem mem_positioned {entry : Position × Item} :
    entry ∈ t.positioned readOrder ↔ entry.2 ∈ t.items ∧ place readOrder entry.2 = .ok entry.1 := by
  rw [positioned, List.mem_filterMap]
  constructor
  · rintro ⟨item, hi, h⟩
    split at h
    · cases h; exact ⟨hi, ‹_›⟩
    · cases h
  · rintro ⟨hi, hp⟩
    exact ⟨entry.2, hi, by rw [hp]⟩

theorem mem_ordered {forward : Bool} {entry : Position × Item} :
    entry ∈ t.ordered readOrder forward ↔ entry.2 ∈ t.items ∧ place readOrder entry.2 = .ok entry.1 := by
  rw [← mem_positioned, ordered]
  cases forward <;> simp [List.mem_mergeSort]

/-- A read against the order of positions goes the other way round. -/
theorem ordered_backward (t : Table) (readOrder : List (Option KeyField)) :
    t.ordered readOrder false = (t.ordered readOrder true).reverse := rfl

/-- No position in the order of a read is above a later one. -/
theorem pairwise_ordered (t : Table) (readOrder : List (Option KeyField)) :
    (t.ordered readOrder true).Pairwise fun a b => Position.compare a.1 b.1 ≠ .gt := by
  have h := @List.pairwise_mergeSort _ (fun a b : Position × Item => Position.compare a.1 b.1 ≠ .gt)
    (fun a b c hab hbc => by
      simp only [ne_eq, decide_eq_true_eq, ← Ordering.isLE_iff_ne_gt] at hab hbc ⊢
      exact TransCmp.isLE_trans hab hbc)
    (fun a b => by
      rw [@OrientedCmp.eq_swap _ Position.compare _ b.1]
      cases Position.compare a.1 b.1 <;> rfl)
    (t.positioned readOrder)
  exact h.imp fun h => by simpa using h

/-- No two positions of different items compare equal, unless some of these are confused. -/
theorem Sound.positioned_pairwise (hs : t.Sound) (hc : t.items.Pairwise fun a b => ¬ t.Confused a b)
    (hro : ∀ k ∈ t.shape.key.parts, k ∈ readOrder) :
    (t.positioned readOrder).Pairwise fun a b => Position.compare a.1 b.1 ≠ .eq := by
  rw [positioned, List.pairwise_filterMap]
  refine (hs.items_apart.and hc).imp fun {a b} hab x hx y hy heq => ?_
  split at hx <;> cases hx
  split at hy <;> cases hy
  exact hab.2 (Apart.confused hab.1 hro ‹_› ‹_› heq)

/-- Where no two items are confused, the items of a read stand in its order. -/
theorem Sound.ordered_pairwise_of_not_confused (hs : t.Sound) (hc : t.items.Pairwise fun a b => ¬ t.Confused a b)
    (hro : ∀ k ∈ t.shape.key.parts, k ∈ readOrder) (forward : Bool) :
    (t.ordered readOrder forward).Pairwise fun a b => Before forward a.1 b.1 := by
  have hsorted : (t.ordered readOrder true).Pairwise fun a b => Position.compare a.1 b.1 = .lt := by
    have hle := pairwise_ordered t readOrder
    have hne := ((List.mergeSort_perm (t.positioned readOrder) fun a b => Position.compare a.1 b.1 ≠ .gt).pairwise_iff
      fun {a b} hab h => hab (OrientedCmp.eq_symm h)).2 (hs.positioned_pairwise hc hro)
    refine (hle.and hne).imp fun {a b} h => ?_
    obtain ⟨h, h'⟩ := h
    cases hc : Position.compare a.1 b.1 with
    | lt => rfl
    | eq => exact absurd hc h'
    | gt => exact absurd hc h
  cases forward with
  | true => simpa only [Before, if_true] using hsorted
  | false =>
    rw [ordered_backward, List.pairwise_reverse]
    simpa only [Before, Bool.false_eq_true, if_false] using hsorted

/-- **The items of a read stand in its order.** -/
theorem Sound.ordered_pairwise (hs : t.Sound) (hk : t.shape.key.partition.type ≠ .number)
    (hro : ∀ k ∈ t.shape.key.parts, k ∈ readOrder) (forward : Bool) :
    (t.ordered readOrder forward).Pairwise fun a b => Before forward a.1 b.1 :=
  hs.ordered_pairwise_of_not_confused (List.pairwise_of_forall (not_confused hk)) hro forward

/-! ## Where a read begins -/

/-- The items of a read, in its order. -/
def rows (t : Table) (what : TableRead) : List Item :=
  (t.ordered (t.shape.readOrder what.index) what.forward).map (·.2)

/-- Whether an entry lies beyond the start of a read, if that has one. -/
def isAhead (forward : Bool) (start : Option Position) (entry : Position × Item) : Bool :=
  match start with
  | some position => isBeyond forward position entry.1
  | none => true

/-- The items that a read walks: those of its order beyond its start. -/
def ahead (t : Table) (what : TableRead) : Except TableError (List Item) := do
  let start ← startPosition (t.shape.readOrder what.index) what.after
  .ok (((t.ordered (t.shape.readOrder what.index) what.forward).filter (isAhead what.forward start)).map (·.2))

theorem read_eq (t : Table) (what : TableRead) :
    t.read what = (do let items ← t.ahead what; what.walk (keyIn (t.shape.readOrder what.index)) 0 items) := by
  simp only [read, ahead]
  cases startPosition (t.shape.readOrder what.index) what.after <;> rfl

/-- A read walks some of its items. -/
theorem ahead_sublist {what : TableRead} {items : List Item} (h : t.ahead what = .ok items) :
    items.Sublist (t.rows what) := by
  unfold ahead at h
  cases hstart : startPosition (t.shape.readOrder what.index) what.after with
  | error e =>
    rw [hstart] at h
    cases h
  | ok start =>
    rw [hstart] at h
    cases h
    exact List.filter_sublist.map _

/-- A read without a start walks all items. -/
theorem ahead_start (t : Table) {what : TableRead} (h : what.after = []) : t.ahead what = .ok (t.rows what) := by
  have hall := List.filter_eq_self (p := isAhead what.forward none)
    (l := t.ordered (t.shape.readOrder what.index) what.forward) |>.2 fun _ _ => rfl
  simp [ahead, rows, h, startPosition, bind, Except.bind, hall]

/-- The key attributes of the table are among those of a read order. -/
theorem parts_mem_readOrder (shape : TableShape) (index : Option IndexShape) :
    ∀ k ∈ shape.key.parts, k ∈ shape.readOrder index :=
  fun _ hk => List.mem_append_right _ hk

theorem part_ok_of_mem {k : Option KeyField} (h : place readOrder item = .ok p) (hk : k ∈ readOrder) :
    ∃ s, part item k = .ok s := by
  obtain ⟨s, _, hs, -, -⟩ := parts_eq h h ReflCmp.compare_self k hk
  exact ⟨s, hs⟩

/-- The key of an item that has a position is not empty. -/
theorem keyIn_ne_nil {k : KeyField} (hk : some k ∈ readOrder) (h : place readOrder item = .ok p) :
    keyIn readOrder item ≠ [] := by
  intro hnil
  rw [← place_keyIn, hnil] at h
  obtain ⟨s, hs⟩ := part_ok_of_mem h hk
  cases hs

/-- **A read that starts after the key of an item begins with the one that comes next.** -/
theorem Sound.ahead_keyIn (hs : t.Sound) (hk : t.shape.key.partition.type ≠ .number) {what : TableRead}
    {before after : List Item} {item : Item} (hrows : t.rows what = before ++ item :: after)
    (hafter : what.after = keyIn (t.shape.readOrder what.index) item) : t.ahead what = .ok after := by
  have hpair := hs.ordered_pairwise hk (parts_mem_readOrder t.shape what.index) what.forward
  obtain ⟨xs, zs, hxy, rfl, hzs⟩ := List.map_eq_append_iff.1 hrows
  obtain ⟨entry, ys, rfl, rfl, rfl⟩ := List.map_eq_cons_iff.1 hzs
  have hmem : entry ∈ t.ordered (t.shape.readOrder what.index) what.forward := by rw [hxy]; simp
  have hplace := (mem_ordered.1 hmem).2
  have hne := keyIn_ne_nil (parts_mem_readOrder t.shape what.index _ List.mem_cons_self) hplace
  have hstart : startPosition (t.shape.readOrder what.index) what.after = .ok (some entry.1) := by
    rw [startPosition, hafter, place_keyIn, hplace, if_neg (by simpa using hne)]
    rfl
  rw [hxy, List.pairwise_append] at hpair
  obtain ⟨-, hys, hbefore⟩ := hpair
  have hbeyond := (List.pairwise_cons.1 hys).1
  have hxs : xs.filter (isAhead what.forward (some entry.1)) = [] := by
    refine List.filter_eq_nil_iff.2 fun x hx h => ?_
    exact (hbefore x hx entry List.mem_cons_self).asymm (isBeyond_iff.1 h)
  have hself : ¬ isAhead what.forward (some entry.1) entry = true := fun h => (isBeyond_iff.1 h).irrefl
  have hall : ys.filter (isAhead what.forward (some entry.1)) = ys :=
    List.filter_eq_self.2 fun y hy => isBeyond_iff.2 (hbeyond y hy)
  simp only [ahead, hstart, bind, Except.bind, hxy, List.filter_append, hxs, List.filter_cons_of_neg hself, hall,
    List.nil_append]

end Table

end RecordStore
