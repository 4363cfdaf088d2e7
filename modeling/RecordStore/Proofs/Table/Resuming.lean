import Mathlib
import RecordStore.Proofs.Paging.Starting

/-!
# Limited reads in turn

`Table.readInTurn` reads with one limit after the other, each time from the last key of the read before. A limited read
sees the first of the items that are still to be read and leaves the others (`Opens.stretch`), so that reads in turn see
one stretch of the items after the other (`Opens.stretches`).

**`Table.readInTurn_eq_read`**: together they return what one read without a limit returns.
-/

namespace RecordStore

namespace TableRead

/-- The same read from a key on, up to a limit. -/
def upTo (w : TableRead) (limit : Nat) (start : Key) : TableRead := { w with limit := some limit, after := start }

/-- The same read from the start to the end. -/
def unlimited (w : TableRead) : TableRead := { w with limit := none, after := [] }

variable {what : TableRead} {keyIn : Item → Key} {limit : Nat}

/-- A walk looks at no more items than its limit. -/
theorem walk_scanned_le (hl : what.limit = some limit) : ∀ {items : List Item} {scanned : Nat} {r : ReadOutcome},
    scanned < limit → what.walk keyIn scanned items = .ok r → r.scanned ≤ limit
  | [], scanned, r, hlt, h => by
    cases h
    exact Nat.le_of_lt hlt
  | item :: items, scanned, r, hlt, h => by
    rw [walk] at h
    cases hkey : what.meets what.keyCondition item with
    | error e => rw [hkey] at h; cases h
    | ok b =>
      simp only [hkey, bind, Except.bind] at h
      cases b with
      | false => exact walk_scanned_le hl hlt h
      | true =>
        cases hfilter : what.meets what.filter item with
        | error e => simp only [hfilter, if_true] at h; cases h
        | ok kept =>
          simp only [hfilter, if_true] at h
          by_cases hdone : what.isDone (scanned + 1) = true
          · rw [if_pos hdone] at h
            cases hmore : what.anyInRange items with
            | error e => rw [hmore] at h; cases h
            | ok more =>
              rw [hmore] at h
              cases h
              exact hlt
          · rw [if_neg hdone] at h
            have hlt' : scanned + 1 < limit := by
              rw [isDone, hl] at hdone
              simpa using hdone
            cases hrest : what.walk keyIn (scanned + 1) items with
            | error e => rw [hrest] at h; cases h
            | ok rest =>
              rw [hrest] at h
              cases h
              change rest.scanned ≤ limit
              exact walk_scanned_le hl hlt' hrest

theorem rangeCount_append (w : TableRead) (seen left : List Item) :
    w.rangeCount (seen ++ left) = w.rangeCount seen + w.rangeCount left :=
  List.countP_append

end TableRead

namespace Table

variable {t : Table} {w : TableRead} {start : Option Key} {limit : Nat} {limits : List Nat}
  {items seen left : List Item} {r : ReadOutcome} {outcomes : List ReadOutcome}

/-- The outcomes of reads with some limits in turn, each from the last key of the one before, until one has none. -/
def readInTurn (t : Table) (w : TableRead) : List Nat → Key → Except TableError (List ReadOutcome)
  | [], _ => .ok []
  | limit :: limits, start => do
    let r ← t.read (w.upTo limit start)
    match r.lastKey with
    | none => .ok [r]
    | some key => do
      let rest ← t.readInTurn w limits key
      .ok (r :: rest)

/-! ## One read -/

/-- What a read has come to that has seen the first of some items and left the others. -/
structure Stretch (t : Table) (w : TableRead) (limit : Nat) (seen left : List Item) (r : ReadOutcome) : Prop where
  items : r.items = w.outputs seen
  scanned : r.scanned = w.rangeCount seen
  bounded : r.scanned ≤ limit
  /-- There is a last key just if the read is to go on. -/
  follows : r.lastKey.isSome ↔ ∃ item ∈ left, w.inRange item = true
  /-- The last key is that of the last item seen, and the limit is reached there. -/
  stopped : ∀ key, r.lastKey = some key → r.scanned = limit ∧
    ∃ before item, seen = before ++ [item] ∧ key = keyIn (t.shape.readOrder w.index) item

/-- **A limited read** sees a stretch of the items that are to be read. -/
theorem Opens.stretch (h : t.Opens w start items) (he : w.Evaluates (t.rows w)) (hl : 1 ≤ limit) :
    ∃ r seen left, t.read (w.upTo limit (start.getD [])) = .ok r ∧ items = seen ++ left ∧
      t.Stretch w limit seen left r := by
  have hev : (w.upTo limit (start.getD [])).Evaluates items := TableRead.Evaluates.sublist he h.suffix.subset
  obtain ⟨r, hr, hwalked⟩ := @TableRead.walk_walked _ (keyIn (t.shape.readOrder w.index)) _ 0 hev
  have hread : t.read (w.upTo limit (start.getD [])) = .ok r := by
    rw [read_eq, TableRead.upTo, h.ahead (some limit)]
    exact hr
  have hbounded : r.scanned ≤ limit := TableRead.walk_scanned_le rfl hl hr
  cases hwalked with
  | whole =>
    refine ⟨_, items, [], hread, (List.append_nil items).symm, rfl, Nat.zero_add _, hbounded, ?_, nofun⟩
    constructor
    · nofun
    · rintro ⟨item, hitem, -⟩
      cases hitem
  | @part before after item hitems hitem hafter hdone =>
    refine ⟨_, before ++ [item], after, hread, ?_, rfl, ?_, hbounded, ?_, ?_⟩
    · rw [hitems, List.append_assoc]
      rfl
    · rw [TableRead.rangeCount_append]
      have hone : w.rangeCount [item] = 1 := List.countP_singleton.trans (if_pos hitem)
      rw [hone]
      exact congrArg (· + 1) (Nat.zero_add _)
    · have hany : ∃ x ∈ after, w.inRange x = true := List.any_eq_true.1 hafter
      exact ⟨fun _ => hany, fun _ => rfl⟩
    · intro key hkey
      cases hkey
      have hreached : limit ≤ 0 + w.rangeCount before + 1 := of_decide_eq_true hdone
      exact ⟨Nat.le_antisymm hbounded hreached, before, item, rfl, rfl⟩

/-! ## Reads in turn -/

/-- Reads in turn, each of which sees a stretch of what the ones before have left. -/
inductive Stretches (t : Table) (w : TableRead) : List Nat → List Item → List ReadOutcome → Prop
  | nil {items : List Item} : Stretches t w [] items []
  | last {limit : Nat} {limits : List Nat} {seen left : List Item} {r : ReadOutcome} :
      t.Stretch w limit seen left r → r.lastKey = none → Stretches t w (limit :: limits) (seen ++ left) [r]
  | more {limit : Nat} {limits : List Nat} {seen left : List Item} {r : ReadOutcome} {key : Key}
      {rest : List ReadOutcome} : t.Stretch w limit seen left r → r.lastKey = some key →
      Stretches t w limits left rest → Stretches t w (limit :: limits) (seen ++ left) (r :: rest)

/-- **Reads in turn** see one stretch after the other. -/
theorem Opens.stretches (hs : t.Sound) (hk : t.shape.key.partition.type ≠ .number) (he : w.Evaluates (t.rows w)) :
    ∀ {limits : List Nat} {start : Option Key} {items : List Item}, (∀ limit ∈ limits, 1 ≤ limit) →
      t.Opens w start items →
      ∃ outcomes, t.readInTurn w limits (start.getD []) = .ok outcomes ∧ Stretches t w limits items outcomes
  | [], _, _, _, _ => ⟨[], rfl, .nil⟩
  | limit :: limits, _, _, hl, h => by
    obtain ⟨hlimit, hlimits⟩ := List.forall_mem_cons.1 hl
    obtain ⟨r, seen, left, hread, rfl, hstretch⟩ := h.stretch he hlimit
    cases hkey : r.lastKey with
    | none =>
      refine ⟨[r], ?_, .last hstretch hkey⟩
      simp only [readInTurn, hread, bind, Except.bind, hkey]
    | some key =>
      obtain ⟨-, before, item, rfl, rfl⟩ := hstretch.stopped key hkey
      have hnext := (leads_of_suffix h.suffix (List.append_assoc before [item] left)).opens hs hk
      obtain ⟨rest, hrest, hstretches⟩ := Opens.stretches hs hk he hlimits hnext
      refine ⟨r :: rest, ?_, .more hstretch hkey hstretches⟩
      rw [Option.getD_some] at hrest
      simp only [readInTurn, hread, bind, Except.bind, hkey, hrest]

/-- No read in turn looks at more items than its limit. -/
theorem Stretches.bounded (h : Stretches t w limits items outcomes) :
    ∀ pair ∈ outcomes.zip limits, pair.1.scanned ≤ pair.2 := by
  induction h with
  | nil => exact nofun
  | last hstretch _ =>
    intro pair hpair
    rw [List.zip_cons_cons, List.zip_nil_left, List.mem_singleton] at hpair
    subst hpair
    exact hstretch.bounded
  | more hstretch _ _ ih =>
    rw [List.zip_cons_cons]
    exact List.forall_mem_cons.2 ⟨hstretch.bounded, ih⟩

/-- What some reads in turn, and one more, have come to. -/
structure Seen (t : Table) (w : TableRead) (items : List Item) (front : List ReadOutcome) (r : ReadOutcome)
    (seen left : List Item) : Prop where
  split : items = seen ++ left
  items : (front ++ [r]).flatMap (·.items) = w.outputs seen
  scanned : ((front ++ [r]).map (·.scanned)).sum = w.rangeCount seen
  follows : r.lastKey.isSome ↔ ∃ item ∈ left, w.inRange item = true
  stopped : ∀ key, r.lastKey = some key →
    ∃ before item, seen = before ++ [item] ∧ key = keyIn (t.shape.readOrder w.index) item

theorem Stretch.seen_alone (h : t.Stretch w limit seen left r) : t.Seen w (seen ++ left) [] r seen left where
  split := rfl
  items := by simpa using h.items
  scanned := by simpa using h.scanned
  follows := h.follows
  stopped key hkey := (h.stopped key hkey).2

/-- One more read in front. -/
theorem Seen.cons {first : ReadOutcome} {front : List ReadOutcome} {before : List Item}
    (hfirst : t.Stretch w limit before items first) (h : t.Seen w items front r seen left) :
    t.Seen w (before ++ items) (first :: front) r (before ++ seen) left where
  split := by rw [h.split, List.append_assoc]
  items := by rw [List.cons_append, List.flatMap_cons, h.items, hfirst.items, TableRead.outputs_append]
  scanned := by
    rw [List.cons_append, List.map_cons, List.sum_cons, h.scanned, hfirst.scanned, TableRead.rangeCount_append]
  follows := h.follows
  stopped key hkey := by
    obtain ⟨before', item, rfl, hitem⟩ := h.stopped key hkey
    exact ⟨before ++ before', item, (List.append_assoc _ _ _).symm, hitem⟩

/-- Whichever of the reads in turn is looked at, it and those before it have seen the first of the items. -/
theorem Stretches.seen_upTo (h : Stretches t w limits items outcomes) {front back : List ReadOutcome} :
    outcomes = front ++ r :: back → ∃ seen left, t.Seen w items front r seen left := by
  induction h generalizing front with
  | nil =>
    intro heq
    cases front <;> cases heq
  | @last limit limits seen left r' hstretch hkey =>
    intro heq
    cases front with
    | nil =>
      cases heq
      exact ⟨seen, left, hstretch.seen_alone⟩
    | cons other front => cases front <;> cases heq
  | @more limit limits seen left r' key rest hstretch hkey _ ih =>
    intro heq
    cases front with
    | nil =>
      cases heq
      exact ⟨seen, left, hstretch.seen_alone⟩
    | cons other front =>
      cases heq
      obtain ⟨seen', left', hseen⟩ := ih rfl
      exact ⟨seen ++ seen', left', hseen.cons hstretch⟩

/-- Limits that together are as large as the number of items in range come to the end. -/
theorem Stretches.stops (h : Stretches t w limits items outcomes) (hne : limits ≠ [])
    (hlong : w.rangeCount items ≤ limits.sum) :
    ∃ front last, outcomes = front ++ [last] ∧ last.lastKey = none := by
  induction h with
  | nil => exact absurd rfl hne
  | @last limit limits seen left r _ hkey => exact ⟨[], r, rfl, hkey⟩
  | @more limit limits seen left r key rest hstretch hkey _ ih =>
    -- the limit is used up, and at least one item in range is left
    obtain ⟨hfull, -⟩ := hstretch.stopped key hkey
    obtain ⟨item, hitem, hrange⟩ := hstretch.follows.1 (by rw [hkey]; rfl)
    have hpos : 0 < w.rangeCount left := List.countP_pos_iff.2 ⟨item, hitem, hrange⟩
    rw [TableRead.rangeCount_append, ← hstretch.scanned, hfull, List.sum_cons] at hlong
    have hleft : w.rangeCount left ≤ limits.sum := by omega
    have hlimits : limits ≠ [] := by
      rintro rfl
      rw [List.sum_nil] at hleft
      omega
    obtain ⟨front, last, rfl, hlast⟩ := ih hlimits hleft
    exact ⟨r :: front, last, rfl, hlast⟩

/-- Reads in turn of which the last one has no last key have returned everything. -/
theorem Seen.whole {front : List ReadOutcome} (h : t.Seen w items front r seen left) (hkey : r.lastKey = none) :
    (front ++ [r]).flatMap (·.items) = w.outputs items ∧
      ((front ++ [r]).map (·.scanned)).sum = w.rangeCount items := by
  have hnone : left.any w.inRange = false := by
    rw [List.any_eq_false]
    intro item hitem hrange
    have hsome := h.follows.2 ⟨item, hitem, hrange⟩
    rw [hkey] at hsome
    cases hsome
  have hcount : w.rangeCount left = 0 := List.countP_eq_zero.2 (List.any_eq_false.1 hnone)
  rw [h.items, h.scanned, h.split, TableRead.outputs_append, TableRead.rangeCount_append, hcount]
  rw [TableRead.outputs_eq_nil hnone, List.append_nil]
  exact ⟨rfl, rfl⟩

/--
**Limited reads in turn compose to the read without a limit**, on a table whose partition key is no number and where no
expression of the read fails. Each of them succeeds and looks at no more items than its limit; it has a last key, which
is that of the last item it saw, just if an item in range follows there. Once a read has no last key, all the items that
were returned are those of the read without a limit, and as many were looked at; and this comes when the limits together
are as large as what that read looks at, if not before.
-/
theorem readInTurn_eq_read {shape : TableShape} (hr : t.Reached shape) (hk : shape.key.partition.type ≠ .number)
    (he : w.Evaluates t.items) (limits : List Nat) (hl : ∀ limit ∈ limits, 1 ≤ limit) :
    ∃ whole outcomes, t.read w.unlimited = .ok whole ∧ t.readInTurn w limits [] = .ok outcomes ∧
      (∀ pair ∈ outcomes.zip limits, pair.1.scanned ≤ pair.2) ∧
      (∀ front r back, outcomes = front ++ r :: back → ∃ seen left, t.Seen w (t.rows w) front r seen left) ∧
      (∀ front last, outcomes = front ++ [last] → last.lastKey = none →
        outcomes.flatMap (·.items) = whole.items ∧ (outcomes.map (·.scanned)).sum = whole.scanned) ∧
      (limits ≠ [] → whole.scanned ≤ limits.sum →
        ∃ front last, outcomes = front ++ [last] ∧ last.lastKey = none) := by
  have hs : t.Sound := hr.sound
  rw [← hr.shape_eq] at hk
  have hrows : w.Evaluates (t.rows w) := he.sublist fun item hitem => (mem_rows hitem).1
  obtain ⟨outcomes, hturns, hstretches⟩ := Opens.stretches hs hk hrows hl (Leads.start.opens hs hk)
  have hwhole : t.read w.unlimited = .ok ⟨w.outputs (t.rows w), 0 + w.rangeCount (t.rows w), none⟩ := by
    rw [read_eq, TableRead.unlimited, ahead_start t rfl]
    exact (TableRead.walk_unlimited rfl).2 ⟨hrows, rfl⟩
  rw [Nat.zero_add] at hwhole
  refine ⟨_, outcomes, hwhole, hturns, hstretches.bounded, ?_, ?_, hstretches.stops⟩
  · intro front r back heq
    exact hstretches.seen_upTo heq
  · rintro front last rfl hkey
    obtain ⟨seen, left, hseen⟩ := hstretches.seen_upTo rfl
    exact hseen.whole hkey

/-- Reads of one item each, against the order of an index that one of three items is missing from. -/
theorem readInTurn_eq_read_backward :
    let shape : TableShape := ⟨"t", ⟨⟨"pk", .text⟩, some ⟨"sk", .number⟩⟩, [⟨"by", ⟨⟨"g", .number⟩, none⟩⟩]⟩
    let a : Item := [("g", .number "1.0"), ("pk", .text "a"), ("sk", .number "10")]
    let b : Item := [("g", .number "1"), ("pk", .text "b"), ("sk", .number "7"), ("v", .text "")]
    let c : Item := [("pk", .text "c"), ("sk", .number "7"), ("v", .text "")]
    let w : TableRead :=
      { index := some ⟨"by", ⟨⟨"g", .number⟩, none⟩⟩, filter := some (.call .attributeNotExists [.path ⟨"v", []⟩])
        forward := false }
    let t : Table :=
      ⟨shape, [(.text "a", [(some (.number "10"), a)]), (.text "b", [(some (.number "7"), b)]),
        (.text "c", [(some (.number "7"), c)])]⟩
    t.Reached shape ∧ w.Evaluates t.items ∧ ∃ outcomes, t.readInTurn w [1, 1, 5] [] = .ok outcomes ∧
      outcomes.flatMap (·.items) = [a] ∧ (outcomes.map (·.scanned)).sum = 2 := by
  intro shape a b c w t
  have ha : Fields.Ordered a := List.pairwise_map.1 (show ["g", "pk", "sk"].Pairwise (· < ·) by decide)
  have hb : Fields.Ordered b := List.pairwise_map.1 (show ["g", "pk", "sk", "v"].Pairwise (· < ·) by decide)
  have hc : Fields.Ordered c := List.pairwise_map.1 (show ["pk", "sk", "v"].Pairwise (· < ·) by decide)
  have hreached : t.Reached shape := .put (.put (.put .empty ha (by rfl)) hb (by rfl)) hc (by rfl)
  have he : w.Evaluates t.items := by
    unfold TableRead.Evaluates
    decide
  obtain ⟨whole, outcomes, hwhole, hturns, -, -, htotal, hstops⟩ :=
    readInTurn_eq_read hreached (by decide) he [1, 1, 5] (by decide)
  have hread : t.read w.unlimited = .ok ⟨[a], 2, none⟩ := by
    unfold t w a b c shape
    cbv
  rw [hread] at hwhole
  cases hwhole
  obtain ⟨front, last, heq, hlast⟩ := hstops (by decide) (by decide)
  obtain ⟨hitems, hscanned⟩ := htotal front last heq hlast
  exact ⟨hreached, he, outcomes, hturns, hitems, hscanned⟩

end Table

end RecordStore
