import RecordStore.Proofs.Table.Placing

/-!
# What a walk returns

Where no expression fails (`TableRead.Evaluates`), a walk over some items returns of each item that is in range and
passes the filter what is asked for, up to the end or up to the item at which its limit is reached: **`walk_walked`**.
In the second case the last key is that of an item, behind which another one is in range.

**`walk_unlimited`**: without a limit, a walk succeeds just where no expression fails, and returns all.
-/

namespace RecordStore.TableRead

variable {what : TableRead} {keyIn : Item → Key} {scanned : Nat} {items : List Item} {r : ReadOutcome}

/-! ## Conditions -/

/-- Whether a condition holds of an item, without regard to errors. -/
def passes (what : TableRead) (condition : Option Expr) (item : Item) : Bool :=
  match what.meets condition item with
  | .ok b => b
  | .error _ => false

/-- Whether an item meets the key condition. -/
def inRange (what : TableRead) (item : Item) : Bool := what.passes what.keyCondition item

/-- Whether an item meets the key condition and passes the filter. -/
def selects (what : TableRead) (item : Item) : Bool := what.inRange item && what.passes what.filter item

/-- What a walk over some items returns. -/
def outputs (what : TableRead) (items : List Item) : List Item :=
  (items.filter what.selects).map what.output

/-- The key condition can be evaluated on all items, and the filter on those that meet it. -/
def Evaluates (what : TableRead) (items : List Item) : Prop :=
  ∀ item ∈ items, what.meets what.keyCondition item = .ok (what.inRange item) ∧
    (what.inRange item = true → what.meets what.filter item = .ok (what.passes what.filter item))

theorem Evaluates.sublist {items' : List Item} (h : what.Evaluates items) (hs : items' ⊆ items) :
    what.Evaluates items' :=
  fun item hi => h item (hs hi)

theorem inRange_of_ok {b : Bool} {item : Item} (h : what.meets what.keyCondition item = .ok b) :
    what.inRange item = b := by
  rw [inRange, passes, h]

theorem passes_of_ok {b : Bool} {condition : Option Expr} {item : Item} (h : what.meets condition item = .ok b) :
    what.passes condition item = b := by
  rw [passes, h]

theorem outputs_append (what : TableRead) (items items' : List Item) :
    what.outputs (items ++ items') = what.outputs items ++ what.outputs items' := by
  rw [outputs, List.filter_append, List.map_append]
  rfl

theorem outputs_cons (what : TableRead) (item : Item) (items : List Item) :
    what.outputs (item :: items) = what.outputs [item] ++ what.outputs items :=
  outputs_append what [item] items

theorem outputs_singleton (what : TableRead) (item : Item) :
    what.outputs [item] = if what.selects item then [what.output item] else [] := by
  by_cases h : what.selects item = true <;> simp [outputs, h]

/-- Items of which none is in range give nothing. -/
theorem outputs_eq_nil (h : items.any what.inRange = false) : what.outputs items = [] := by
  rw [List.any_eq_false] at h
  rw [outputs, List.filter_eq_nil_iff.2, List.map_nil]
  intro item hi hs
  rw [selects, Bool.and_eq_true] at hs
  exact h item hi hs.1

/-! ## Walking -/

theorem anyInRange_eq : ∀ {items : List Item}, what.Evaluates items →
    what.anyInRange items = .ok (items.any what.inRange)
  | [], _ => rfl
  | item :: items, h => by
    obtain ⟨hitem, hitems⟩ := List.forall_mem_cons.1 h
    rw [anyInRange, hitem.1, List.any_cons, anyInRange_eq hitems]
    cases what.inRange item <;> rfl

theorem walk_cons {item : Item} (h : what.Evaluates (item :: items)) :
    what.walk keyIn scanned (item :: items) =
      if what.inRange item then
        if what.isDone (scanned + 1) then
          .ok ⟨what.outputs [item], scanned + 1, if items.any what.inRange then some (keyIn item) else none⟩
        else do
          let result ← what.walk keyIn (scanned + 1) items
          .ok { result with items := what.outputs [item] ++ result.items }
      else what.walk keyIn scanned items := by
  obtain ⟨⟨hkey, hfilter⟩, hitems⟩ := List.forall_mem_cons.1 h
  rw [walk, hkey]
  cases hr : what.inRange item with
  | false => rfl
  | true =>
    have hout : what.outputs [item] = if what.passes what.filter item then [what.output item] else [] := by
      rw [outputs_singleton, selects, hr, Bool.true_and]
    simp only [hfilter hr, bind, Except.bind, if_true, hout, anyInRange_eq hitems]

/-- How many of some items are in range. -/
def rangeCount (what : TableRead) (items : List Item) : Nat := items.countP what.inRange

theorem rangeCount_cons (what : TableRead) (item : Item) (items : List Item) :
    what.rangeCount (item :: items) = what.rangeCount [item] + what.rangeCount items := by
  simp [rangeCount, List.countP_cons, Nat.add_comm]

/-- What a walk can come to. -/
inductive Walked (what : TableRead) (keyIn : Item → Key) (scanned : Nat) (items : List Item) : ReadOutcome → Prop
  /-- It has come to the end. -/
  | whole : Walked what keyIn scanned items ⟨what.outputs items, scanned + what.rangeCount items, none⟩
  /-- It has stopped at an item behind which another one is in range. -/
  | part {before after : List Item} {item : Item} :
      items = before ++ item :: after → what.inRange item = true → after.any what.inRange = true →
      what.isDone (scanned + what.rangeCount before + 1) = true →
      Walked what keyIn scanned items
        ⟨what.outputs (before ++ [item]), scanned + what.rangeCount before + 1, some (keyIn item)⟩

/-- One more item in front. -/
theorem Walked.cons {item : Item} (h : Walked what keyIn (scanned + what.rangeCount [item]) items r) :
    Walked what keyIn scanned (item :: items) { r with items := what.outputs [item] ++ r.items } := by
  cases h with
  | whole =>
    rw [← outputs_cons, Nat.add_assoc, ← rangeCount_cons]
    exact .whole
  | @part before after x hrows hx hafter hdone =>
    have hcount : scanned + what.rangeCount [item] + what.rangeCount before + 1 =
        scanned + what.rangeCount (item :: before) + 1 := by rw [rangeCount_cons what item before]; omega
    rw [hcount] at hdone ⊢
    rw [← outputs_cons]
    exact .part (by rw [hrows]; rfl) hx hafter hdone

/-- **What a walk comes to** where no expression fails. -/
theorem walk_walked : ∀ {items : List Item} {scanned : Nat}, what.Evaluates items →
    ∃ r, what.walk keyIn scanned items = .ok r ∧ Walked what keyIn scanned items r
  | [], scanned, _ => ⟨_, rfl, .whole⟩
  | item :: items, scanned, h => by
    have hitems : what.Evaluates items := h.sublist (List.subset_cons_self _ _)
    rw [walk_cons h]
    cases hr : what.inRange item with
    | false =>
      have hcount : what.rangeCount [item] = 0 := by simp [rangeCount, hr]
      obtain ⟨r, hw, hwalked⟩ := @walk_walked items (scanned + what.rangeCount [item]) hitems
      have hout : what.outputs [item] = [] := by rw [outputs_singleton, selects, hr]; rfl
      have := hwalked.cons
      rw [hout, List.nil_append] at this
      rw [hcount] at hw
      exact ⟨r, hw, this⟩
    | true =>
      have hcount : what.rangeCount [item] = 1 := by simp [rangeCount, hr]
      simp only [if_true]
      by_cases hdone : what.isDone (scanned + 1) = true
      · rw [if_pos hdone]
        refine ⟨_, rfl, ?_⟩
        cases hany : items.any what.inRange with
        | true => exact @Walked.part what keyIn scanned _ [] items item rfl hr hany hdone
        | false =>
          -- nothing in range follows, so this is the end
          have hnone : what.rangeCount items = 0 := List.countP_eq_zero.2 (List.any_eq_false.1 hany)
          have := @Walked.whole what keyIn scanned (item :: items)
          rwa [outputs_cons, outputs_eq_nil hany, List.append_nil, rangeCount_cons, hcount, hnone] at this
      · rw [if_neg hdone]
        obtain ⟨r, hw, hwalked⟩ := @walk_walked items (scanned + what.rangeCount [item]) hitems
        have := hwalked.cons
        rw [hcount] at hw
        exact ⟨_, by rw [hw]; rfl, this⟩

/-! ## Without a limit -/

theorem meets_ok {b : Bool} {condition : Option Expr} {item : Item} (h : what.meets condition item = .ok b) :
    what.meets condition item = .ok (what.passes condition item) := by
  rw [passes_of_ok h, h]

/-- A walk without a limit evaluates all expressions. -/
theorem evaluates_of_walk (hl : what.limit = none) : ∀ {items : List Item} {scanned : Nat} {r : ReadOutcome},
    what.walk keyIn scanned items = .ok r → what.Evaluates items
  | [], _, _, _ => nofun
  | item :: items, scanned, r, h => by
    rw [walk] at h
    cases hk : what.meets what.keyCondition item with
    | error e => rw [hk] at h; cases h
    | ok b =>
      simp only [hk, bind, Except.bind] at h
      cases b with
      | false =>
        refine List.forall_mem_cons.2 ⟨⟨meets_ok hk, fun hr => ?_⟩, evaluates_of_walk hl h⟩
        rw [inRange_of_ok hk] at hr
        cases hr
      | true =>
        cases hf : what.meets what.filter item with
        | error e => simp only [hf, if_true] at h; cases h
        | ok b =>
          have hdone : what.isDone (scanned + 1) = false := by rw [isDone, hl]
          simp only [hf, if_true, hdone, Bool.false_eq_true, if_false] at h
          cases hw : what.walk keyIn (scanned + 1) items with
          | error e => rw [hw] at h; cases h
          | ok r => exact List.forall_mem_cons.2 ⟨⟨meets_ok hk, fun _ => meets_ok hf⟩, evaluates_of_walk hl hw⟩

/-- **A walk without a limit** succeeds just where no expression fails, and returns all. -/
theorem walk_unlimited (hl : what.limit = none) :
    what.walk keyIn scanned items = .ok r ↔
      what.Evaluates items ∧ r = ⟨what.outputs items, scanned + what.rangeCount items, none⟩ := by
  have hwhole : ∀ {r}, Walked what keyIn scanned items r →
      r = ⟨what.outputs items, scanned + what.rangeCount items, none⟩ := by
    intro r h
    cases h with
    | whole => rfl
    | part _ _ _ hdone => rw [isDone, hl] at hdone; cases hdone
  refine ⟨fun h => ?_, ?_⟩
  · have he := evaluates_of_walk hl h
    obtain ⟨r', hw, hwalked⟩ := @walk_walked what keyIn items scanned he
    rw [hw] at h
    cases h
    exact ⟨he, hwhole hwalked⟩
  · rintro ⟨he, rfl⟩
    obtain ⟨r', hw, hwalked⟩ := @walk_walked what keyIn items scanned he
    rw [hw, hwhole hwalked]

end RecordStore.TableRead
