import Mathlib
import RecordStore.Proofs.Collection.Expressions
import RecordStore.Proofs.Memory.Accepting
import RecordStore.Proofs.Paging.Starting

/-!
# What queries select

A query is made into a selection, which a store then reads. `Selection.Asks` says what a selection asks of the tables of
a shape: the items of a range that pass a filter, with some of their attributes. **`Selection.Asks.accepts`**: such a
table accepts the requests for this. **`Selection.Asks.planned`**: what is asked is what is then read.

**`Collection.asks_of_query`** and **`Collection.asks_of_filter`**: the selections of queries ask what the queries say,
and `Collection.Serves` is what all kinds of queries are made into. The fields that are read along for the sake of the
next page are hidden again (`Collection.visible_only`).
-/

namespace RecordStore

/-! ## What a selection asks -/

/-- A condition that was read says of every item what its text says. -/
theorem Says.meets {w : TableRead} {text : Option String} {condition : Option Expr} {p : Item → Bool}
    (h : Says w.names w.values text p) (hread : MemoryStore.parseOptional Expr.parse text = .ok condition)
    (item : Item) :
    w.meets condition item = .ok (p item) := by
  cases h with
  | nothing hp =>
    cases hread
    rw [TableRead.meets, hp]
  | text hparse hmeans =>
    rw [MemoryStore.parseOptional, hparse] at hread
    cases hread
    have heval := hmeans.eval item
    simp only [TableRead.meets, TableRead.scope, heval]

/-- A condition that says something is read, and all its aliases stand for something. -/
theorem Says.read {names : NameAliases} {values : ValueAliases} {text : Option String} {p : Item → Bool}
    (h : Says names values text p) : ∃ condition, MemoryStore.parseOptional Expr.parse text = .ok condition ∧
      ∀ e ∈ condition, e.check names values = .ok () := by
  cases h with
  | nothing _ => exact ⟨none, rfl, nofun⟩
  | text hparse hmeans =>
    refine ⟨_, by rw [MemoryStore.parseOptional, hparse]; rfl, ?_⟩
    rintro _ ⟨⟩
    exact hmeans.check

/-- A projection on some fields is read, and all its aliases stand for something. -/
theorem Projects.read {names : NameAliases} {text : Option String} {fields : List String}
    (h : Projects names text fields) : ∃ projection, MemoryStore.parseOptional Path.parseList text = .ok projection ∧
      ∀ paths ∈ projection, ∀ p ∈ paths, Expr.checkPath names p = .ok () := by
  cases h with
  | all => exact ⟨none, rfl, nofun⟩
  | @fields s paths fields _ hparse hsteps hresolve =>
    refine ⟨_, by rw [MemoryStore.parseOptional, hparse]; rfl, ?_⟩
    rintro _ ⟨⟩
    exact checkPath_of_forall₂ hresolve hsteps

namespace Selection

/-- The key condition, for which only a query has a place. -/
def keyText (what : Selection) : Option (Option String) :=
  match what.kind with
  | .query => some what.expressions.keyCondition
  | .scan => none

/-- Whether items are read in the order of their positions, which a scan always does. -/
def forward (what : Selection) (descending : Bool) : Bool :=
  match what.kind with
  | .query => !descending
  | .scan => true

/-- The index of the tables of a shape that is read. -/
def indexIn (what : Selection) (shape : TableShape) : Option IndexShape :=
  what.index.bind shape.index?

/--
What a selection asks of the tables of a shape: to read the items in a range that pass a filter, with some of their
attributes, or with all. A query fixes the partition key of what it reads.
-/
structure Asks (what : Selection) (shape : TableShape) (range filter : Item → Bool) (fields : List String) : Prop where
  index : MemoryStore.findIndex shape what.index = .ok (what.indexIn shape)
  range : Says what.expressions.names what.expressions.values what.keyText.join range
  pins : what.kind = .query → ∃ text e, what.expressions.keyCondition = some text ∧ Expr.parse text = .ok e ∧
    e.pins what.expressions.names (shape.keyOf (what.indexIn shape)).partition.name = true
  filter : Says what.expressions.names what.expressions.values what.expressions.filter filter
  fields : Projects what.expressions.names what.expressions.projection fields
  keyFields : ∀ f, f ∈ what.keyFields ↔ f ∈ shape.keyNames (what.indexIn shape)

/-- The read that is planned for a selection of the items of which `p` holds, with some of their attributes. -/
structure Planned (what : Selection) (t : Table) (descending : Bool) (p : Item → Bool) (fields : List String)
    (w : TableRead) : Prop where
  plan : what.plan t descending = .ok w
  index : w.index = what.indexIn t.shape
  forward : w.forward = what.forward descending
  evaluates : ∀ items, w.Evaluates items
  selects : ∀ item, w.selects item = p item
  output : ∀ item : Item, Fields.Ordered item → w.output item = item.only fields

variable {what : Selection} {t : Table} {w : TableRead} {descending : Bool} {range filter : Item → Bool}
  {fields : List String}

theorem plan_eq (what : Selection) (t : Table) (descending : Bool) : what.plan t descending =
    MemoryStore.tableRead {} t (Page.request what none none) what.keyText (what.forward descending) := by
  rw [plan, keyText, forward]
  cases what.kind <;> rfl

/-- The conditions of a read say of every item what was asked for. -/
theorem Asks.meets {shape : TableShape} (h : what.Asks shape range filter fields)
    (hnames : w.names = what.expressions.names) (hvalues : w.values = what.expressions.values)
    (hkey : MemoryStore.parseOptional Expr.parse what.keyText.join = .ok w.keyCondition)
    (hfilter : MemoryStore.parseOptional Expr.parse what.expressions.filter = .ok w.filter) (item : Item) :
    w.meets w.keyCondition item = .ok (range item) ∧ w.meets w.filter item = .ok (filter item) := by
  have hsaysKey := h.range
  have hsaysFilter := h.filter
  rw [← hnames, ← hvalues] at hsaysKey hsaysFilter
  exact ⟨hsaysKey.meets hkey item, hsaysFilter.meets hfilter item⟩

/-- **What a selection asks is accepted** by the tables of its shape, from every start that has a position. -/
theorem Asks.accepts (h : what.Asks t.shape range filter fields) {cap : Option Nat} (hcap : ∀ n ∈ cap, 0 < n)
    {start : Option Key} {position : Option Position}
    (hstart : Table.startPosition (t.shape.readOrder (what.indexIn t.shape)) (start.getD []) = .ok position) :
    ∃ w, MemoryStore.Accepts t (Page.request what cap start) what.keyText w := by
  obtain ⟨key, hkey, hresolvesKey⟩ := h.range.read
  obtain ⟨pass, hpass, hresolvesPass⟩ := h.filter.read
  obtain ⟨projection, hprojection, hresolves⟩ := h.fields.read
  let w : TableRead :=
    { index := what.indexIn t.shape, keyCondition := key, filter := pass, projection := projection
      names := what.expressions.names, values := what.expressions.values }
  refine ⟨w, h.index, hkey, hpass, hprojection, rfl, rfl, hresolvesKey, hresolvesPass, hresolves, ?_,
    MemoryStore.saturate32_pos hcap, ⟨position, hstart⟩, ?_⟩
  · intro hquery
    cases hkind : what.kind with
    | scan => rw [keyText, hkind] at hquery; cases hquery
    | query =>
      obtain ⟨text, e, htext, hparse, hpins⟩ := h.pins hkind
      rw [keyText, hkind] at hkey
      simp only [Option.join_some, htext, MemoryStore.parseOptional, hparse] at hkey
      cases hkey
      exact ⟨e, rfl, hpins⟩
  · intro item _
    obtain ⟨hk, hf⟩ := @Asks.meets what w range filter fields t.shape h rfl rfl hkey hpass item
    exact ⟨TableRead.meets_ok hk, fun _ => TableRead.meets_ok hf⟩

/-- **What a selection asks can be read**, and is what is then read. -/
theorem Asks.planned (h : what.Asks t.shape range filter fields) (descending : Bool) :
    ∃ w, what.Planned t descending (fun item => range item && filter item) fields w := by
  obtain ⟨_, haccepts⟩ := @Asks.accepts what t range filter fields h none nofun none none rfl
  obtain ⟨w, hw⟩ : ∃ w, MemoryStore.tableRead {} t (Page.request what none none) what.keyText
      (what.forward descending) = .ok w := ⟨_, haccepts.tableRead {} _⟩
  obtain ⟨hindex, hkey, hfilter, hprojection, hnames, hvalues, hforward⟩ := MemoryStore.tableRead_ok hw
  have hmeets := h.meets hnames hvalues hkey hfilter
  refine ⟨w, by rw [plan_eq, hw], Except.ok.inj (hindex.symm.trans h.index), hforward, ?_, ?_, ?_⟩
  · intro items item _
    obtain ⟨hk, hf⟩ := hmeets item
    exact ⟨TableRead.meets_ok hk, fun _ => TableRead.meets_ok hf⟩
  · intro item
    obtain ⟨hk, hf⟩ := hmeets item
    rw [TableRead.selects, TableRead.inRange_of_ok hk, TableRead.passes_of_ok hf]
  · intro item ho
    have hprojects := h.fields
    have hsame : w.names = what.expressions.names := hnames
    rw [← hsame] at hprojects
    exact hprojects.output hprojection ho

end Selection

/-! ## Fields that are read along -/

namespace Fields

theorem foldl_remove {α : Type} : ∀ (names : List String) (m : Fields α),
    names.foldl (fun m name => m.remove name) m = m.filter fun entry => !names.contains entry.1
  | [], m => (List.filter_eq_self.2 fun _ _ => rfl).symm
  | name :: names, m => by
    rw [List.foldl_cons, foldl_remove names, remove, List.filter_filter]
    apply List.filter_congr
    intro entry _
    rw [List.contains_cons, Bool.not_or, Bool.and_comm]
    rfl

end Fields

theorem length_eraseDups_le : ∀ names : List String, names.eraseDups.length ≤ names.length
  | [] => Nat.le_refl 0
  | name :: names => by
    rw [List.eraseDups_cons, List.length_cons, List.length_cons]
    have hfilter := List.length_filter_le (fun b => !b == name) names
    exact Nat.succ_le_succ ((length_eraseDups_le _).trans hfilter)
termination_by names => names.length
decreasing_by exact Nat.lt_succ_of_le (List.length_filter_le _ _)

theorem Item.toRecord_eq_map : ∀ item : Item, item.toRecord = item.map fun entry => (entry.1, entry.2.toJson)
  | [] => rfl
  | (name, a) :: rest => by
    rw [List.map_cons, ← toRecord_eq_map rest]
    rfl

namespace Collection

open Aliases (Wordy)

variable {c : Collection} {suffix : String}

theorem pagedFields_all {fields : Option (List String)} (h : fields.getD [] = []) (keyFields : List String)
    (paging : Paging) : pagedFields fields keyFields paging = ([], []) := by
  rw [pagedFields, h]

/-- The fields that are read are those asked for and the hidden ones, none of which is asked for. -/
theorem pagedFields_eq (fields : Option (List String)) (keyFields : List String) (paging : Paging) :
    ∃ hidden, pagedFields fields keyFields paging = (fields.getD [] ++ hidden, hidden) ∧
      (∀ name ∈ hidden, name ∉ fields.getD []) ∧ hidden.length ≤ keyFields.length ∧
      (fields.getD [] = [] → hidden = []) ∧
      (fields.getD [] ≠ [] → (CapBounds.positive? paging.pageSize).isSome →
        ∀ f ∈ keyFields, f ∈ fields.getD [] ++ hidden) := by
  unfold pagedFields
  cases hfields : fields.getD [] with
  | nil => exact ⟨[], rfl, nofun, Nat.zero_le _, fun _ => rfl, fun h => absurd rfl h⟩
  | cons first rest =>
    refine ⟨_, rfl, ?_, ?_, nofun, ?_⟩
    · intro name hname
      split at hname
      · simpa using (List.mem_filter.1 hname).2
      · cases hname
    · split
      · exact Nat.le_trans (List.length_filter_le _ _) (length_eraseDups_le _)
      · exact Nat.zero_le _
    · intro _ hsize f hf
      rw [if_pos hsize, List.mem_append, List.mem_filter, List.mem_eraseDups]
      by_cases hmem : f ∈ first :: rest
      · exact .inl hmem
      · exact .inr ⟨hf, by simpa using hmem⟩

/-- **What is hidden** of an item is not asked for, and all else is shown. -/
theorem visible_only {shown hidden : List String} (hdisjoint : ∀ name ∈ hidden, name ∉ shown)
    (hnil : shown = [] → hidden = []) (item : Item) :
    visible hidden (item.only (shown ++ hidden)) = Item.toRecord (item.only shown) := by
  cases shown with
  | nil => rw [hnil rfl]; rfl
  | cons first rest =>
    rw [visible, Fields.foldl_remove, Item.toRecord_eq_map, Item.toRecord_eq_map, List.filter_map]
    congr 1
    rw [Item.only, Item.only, if_neg (by simp), if_neg (by simp), Fields.restrict, Fields.restrict, List.filter_filter]
    apply List.filter_congr
    intro entry _
    have hhidden := hdisjoint entry.1
    simp only [Function.comp, List.contains_eq_mem, List.mem_append, ← decide_not, ← Bool.decide_and]
    rw [decide_eq_decide]
    tauto

/-! ## Conditions on keys -/

theorem compile_ok {α : Type} {x : Compile α} {r : α} (h : compile suffix x = .ok r) :
    ∃ a', x ⟨0, suffix⟩ = (.ok r, a') := by
  unfold compile at h
  generalize x ⟨0, suffix⟩ = o at h
  obtain ⟨_ | r', a'⟩ := o
  · cases h
  · cases h
    exact ⟨a', rfl⟩

/-- A condition on keys asks for the partition last. -/
theorem keyDefinition_leaves {sort : Option Definition} {sortField partitionField : String} {partition : Json}
    {key : Definition} (h : keyDefinition sort sortField partitionField partition = .ok key) :
    ∃ ls, key = { leaves := ls ++ [.equals partitionField partition] } := by
  unfold keyDefinition at h
  cases sort with
  | none =>
    cases h
    exact ⟨[], rfl⟩
  | some d =>
    obtain ⟨leaves, -, hkey⟩ := bind_eq_ok.1 h
    cases hkey
    exact ⟨leaves, rfl⟩

/-- A condition on keys asks what the one on the sort key does, and for the partition. -/
theorem keyDefinition_ok {sort : Option Definition} {sortField partitionField : String} {partition : Json}
    {key : Definition} (h : keyDefinition sort sortField partitionField partition = .ok key) :
    key.aliasCount = Definition.aliasCount? sort + 2 ∧ ∀ item, key.holds item =
      (sort.all (fun d => d.holds item) && (Leaf.equals partitionField partition).holds item) := by
  unfold keyDefinition at h
  cases sort with
  | none =>
    cases h
    exact ⟨rfl, fun item => by simp [Definition.holds, Definition.required, Definition.alternatives]⟩
  | some d =>
    obtain ⟨leaves, hleaves, hkey⟩ := bind_eq_ok.1 h
    cases hkey
    unfold sortConditions at hleaves
    split at hleaves
    · cases hleaves
    · rename_i hd
      cases hleaves
      -- nothing is asked in groups
      simp only [Bool.or_eq_true, Bool.not_eq_true', not_or, List.isEmpty_eq_false_iff, not_not, ne_eq] at hd
      obtain ⟨⟨⟨hall, hany⟩, -⟩, -⟩ := hd
      refine ⟨?_, fun item => ?_⟩
      · simp [Definition.aliasCount?, Definition.aliasCount, Definition.all, Definition.required,
          Definition.alternatives, hall, hany, Leaf.equals, Leaf.aliasCount]
      · simp [Definition.holds, Definition.required, Definition.alternatives, hall, hany]

/-- A definition with one more field asks what it did before, and for the value of this field. -/
theorem equals_holds (d : Definition) (field : String) (value : Json) :
    (d.equals field value).aliasCount = d.aliasCount + 2 ∧ ∀ item, (d.equals field value).holds item =
      (d.holds item && (Leaf.equals field value).holds item) := by
  constructor
  · simp [Definition.aliasCount, Definition.all, Definition.required, Definition.alternatives, Definition.equals,
      Leaf.equals, Leaf.aliasCount]
    omega
  · intro item
    simp only [Definition.holds, Definition.required, Definition.alternatives, Definition.equals, List.all_append,
      List.all_cons, List.all_nil, Bool.and_true]
    ac_rfl

/-! ## Selections -/

/-- What a query by the keys of the table reads. -/
theorem selectByKey_ok {q : KeyQuery} {what : Selection} {hidden : List String}
    (h : c.selectByKey suffix q = .ok (what, hidden)) : ∃ key x a',
      keyDefinition q.sort c.entity.sortField c.entity.partitionField (.string q.partition) = .ok key ∧
      c.expressionsOf key q.filter (pagedFields q.fields c.entity.keyFields q.paging).1 ⟨0, suffix⟩ = (.ok x, a') ∧
      hidden = (pagedFields q.fields c.entity.keyFields q.paging).2 ∧
      what = { table := c.entity.table, kind := .query, expressions := x, keyFields := c.entity.keyFields } := by
  unfold selectByKey at h
  split at h
  · cases h
  · obtain ⟨key, hkey, h⟩ := bind_eq_ok.1 h
    obtain ⟨x, hx, h⟩ := bind_eq_ok.1 h
    obtain ⟨a', hx⟩ := compile_ok hx
    cases h
    exact ⟨key, x, a', hkey, hx, rfl, rfl⟩

/-- What a query by the keys of an index reads. -/
theorem selectByIndex_ok {q : IndexQuery} {what : Selection} {hidden : List String}
    (h : c.selectByIndex suffix q = .ok (what, hidden)) : ∃ i key x a',
      c.entity.indexes.find? (fun i => i.name = q.index) = some i ∧
      keyDefinition q.sort i.sortField i.partitionField q.partition = .ok key ∧
      c.expressionsOf key q.filter (pagedFields (q.fields <|> carriedBy i (indexKeyFields c.entity i))
        (indexKeyFields c.entity i) q.paging).1 ⟨0, suffix⟩ = (.ok x, a') ∧
      hidden = (pagedFields (q.fields <|> carriedBy i (indexKeyFields c.entity i))
        (indexKeyFields c.entity i) q.paging).2 ∧
      what = { table := c.entity.table, index := some i.name, kind := .query, expressions := x,
               keyFields := indexKeyFields c.entity i } := by
  unfold selectByIndex at h
  obtain ⟨i, hfind, h⟩ := bind_eq_ok.1 h
  have hi : c.entity.indexes.find? (fun i => i.name = q.index) = some i := by
    unfold EntityIndex.find at hfind
    split at hfind
    · cases hfind
    · split at hfind
      · cases hfind
      · rename_i hsome
        obtain ⟨_, -, hfind⟩ := bind_eq_ok.1 hfind
        split at hfind
        · cases hfind
          exact hsome
        · cases hfind
  split at h
  · cases h
  · obtain ⟨key, hkey, h⟩ := bind_eq_ok.1 h
    obtain ⟨x, hx, h⟩ := bind_eq_ok.1 h
    obtain ⟨a', hx⟩ := compile_ok hx
    cases h
    exact ⟨i, key, x, a', hi, hkey, hx, rfl, rfl⟩

/-- What a filter alone reads. -/
theorem selectByFilter_ok {q : FilterQuery} {what : Selection} {hidden : List String}
    (h : c.selectByFilter suffix q = .ok (what, hidden)) : ∃ filter a',
      Compile.definition c.settings.refuseUnknown
        ((q.filter.getD {}).equals c.entity.partitionField (.string c.entity.partitionValue))
        (pagedFields q.fields c.entity.keyFields q.paging).1 ⟨0, suffix⟩ = (.ok filter, a') ∧
      hidden = (pagedFields q.fields c.entity.keyFields q.paging).2 ∧
      what = { table := c.entity.table, kind := .scan, expressions := .ofFilter filter,
               keyFields := c.entity.keyFields } := by
  unfold selectByFilter at h
  obtain ⟨filter, hfilter, h⟩ := bind_eq_ok.1 h
  obtain ⟨a', hfilter⟩ := compile_ok hfilter
  cases h
  exact ⟨filter, a', hfilter, rfl, rfl⟩

/-! ## What selections ask -/

theorem wordy_of_alphanumeric (h : ∀ ch ∈ suffix.toList, ch.isAlphanum = true) : Wordy ⟨0, suffix⟩ := by
  intro ch hch
  rw [Token.isWordPart, h ch hch, Bool.true_or]

/-- **A query asks** for what its condition on keys and its filter hold of. -/
theorem asks_of_query {what : Selection} {shape : TableShape} {fields : List String} {sort filter : Option Definition}
    {sortField partitionField : String} {partition : Json} {key : Definition} {a' : Aliases}
    (hsuffix : ∀ ch ∈ suffix.toList, ch.isAlphanum = true)
    (hn : Definition.aliasCount? sort + 2 + fields.length + Definition.aliasCount? filter < Numeral.natBound)
    (hkind : what.kind = .query) (hkey : keyDefinition sort sortField partitionField partition = .ok key)
    (hx : c.expressionsOf key filter fields ⟨0, suffix⟩ = (.ok what.expressions, a'))
    (hindex : MemoryStore.findIndex shape what.index = .ok (what.indexIn shape))
    (hpartition : (shape.keyOf (what.indexIn shape)).partition.name = partitionField)
    (hnames : ∀ f, f ∈ what.keyFields ↔ f ∈ shape.keyNames (what.indexIn shape)) :
    what.Asks shape key.holds (fun item => filter.all fun d => d.holds item) fields := by
  have hwordy := wordy_of_alphanumeric hsuffix
  have hcount : 0 + (key.aliasCount + fields.length) + Definition.aliasCount? filter < Numeral.natBound := by
    rw [(keyDefinition_ok hkey).1]
    omega
  obtain ⟨hrange, hfilter⟩ := expressionsOf_meaning hwordy hcount hx
  refine ⟨hindex, by rw [Selection.keyText, hkind]; exact hrange, fun _ => ?_, hfilter,
    expressionsOf_projects hwordy hcount hx, hnames⟩
  obtain ⟨ls, hls⟩ := keyDefinition_leaves hkey
  obtain ⟨text, e, htext, hparse, hpins⟩ := expressionsOf_pins hwordy hls hcount hx
  refine ⟨text, e, htext, hparse, ?_⟩
  rw [← hpartition] at hpins
  exact hpins

/-- **A filter alone asks** for what it holds of. -/
theorem asks_of_filter {what : Selection} {shape : TableShape} {fields : List String} {strict : Bool} {d : Definition}
    {f : Compiled} {a' : Aliases} (hsuffix : ∀ ch ∈ suffix.toList, ch.isAlphanum = true)
    (hn : d.aliasCount + fields.length < Numeral.natBound) (hkind : what.kind = .scan)
    (h : Compile.definition strict d fields ⟨0, suffix⟩ = (.ok f, a')) (hx : what.expressions = .ofFilter f)
    (hindex : MemoryStore.findIndex shape what.index = .ok (what.indexIn shape))
    (hnames : ∀ f, f ∈ what.keyFields ↔ f ∈ shape.keyNames (what.indexIn shape)) :
    what.Asks shape (fun _ => true) d.holds fields := by
  have hcount : 0 + (d.aliasCount + fields.length) < Numeral.natBound := by omega
  obtain ⟨hfilter, hfields⟩ := ofFilter_meaning (wordy_of_alphanumeric hsuffix) hcount h
  rw [← hx] at hfilter hfields
  have hkey : what.keyText.join = none := by rw [Selection.keyText, hkind]; rfl
  refine ⟨hindex, ?_, ?_, hfilter, hfields, hnames⟩
  · rw [hkey]
    exact .nothing fun _ => rfl
  · intro hquery
    rw [hkind] at hquery
    cases hquery

/-! ## Key fields -/

/-- The key fields of an index are those of the table and its own. -/
theorem mem_indexKeyFields {e : Entity} {i : EntityIndex} {name : String} :
    name ∈ indexKeyFields e i ↔ name ∈ e.keyFields ++ [i.partitionField, i.sortField] := by
  have hadd : ∀ (fields : List String) (added : String),
      name ∈ (if fields.contains added then fields else fields ++ [added]) ↔ name ∈ fields ++ [added] := by
    intro fields added
    split
    · rename_i hmem
      simp only [List.mem_append, List.mem_singleton]
      constructor
      · exact Or.inl
      · rintro (h | rfl)
        · exact h
        · simpa using hmem
    · rfl
  simp only [indexKeyFields, List.foldl_cons, List.foldl_nil, hadd, List.mem_append, List.mem_cons, List.not_mem_nil,
    or_false, or_assoc]

theorem findIndex_ok {shape : TableShape} {name : String} {index : IndexShape}
    (h : (some name).bind shape.index? = some index) :
    MemoryStore.findIndex shape (some name) = .ok ((some name).bind shape.index?) := by
  rw [Option.bind_some] at h
  rw [MemoryStore.findIndex, Option.bind_some, h]

/-- The key fields of an entity are those of a table with its key. -/
theorem mem_keyFields {e : Entity} {shape : TableShape}
    (hkey : shape.key = ⟨⟨e.partitionField, .text⟩, some ⟨e.sortField, .text⟩⟩) (f : String) :
    f ∈ e.keyFields ↔ f ∈ shape.keyNames none := by
  rw [TableShape.keyNames, hkey]
  rfl

/-- The key fields of an index are those of a table with its key and an index with its own. -/
theorem mem_indexKeyNames {e : Entity} {i : EntityIndex} {shape : TableShape} {index : IndexShape}
    {first second : KeyType} (hkey : shape.key = ⟨⟨e.partitionField, .text⟩, some ⟨e.sortField, .text⟩⟩)
    (hindexKey : index.key = ⟨⟨i.partitionField, first⟩, some ⟨i.sortField, second⟩⟩) (f : String) :
    f ∈ indexKeyFields e i ↔ f ∈ shape.keyNames (some index) := by
  rw [mem_indexKeyFields, TableShape.keyNames, hkey, Option.map_some, Option.getD_some, hindexKey]
  rfl

/-! ## What serves a query -/

variable {shape : TableShape} {what : Selection} {hidden : List String}

/--
A selection that serves a query of an entity: it reads the table or an index, and asks for the items in a range that
pass a filter, with the fields of a page, of which some are hidden.
-/
structure Serves (what : Selection) (hidden : List String) (e : Entity) (shape : TableShape)
    (index : Option IndexShape) (kind : ReadKind) (fields : Option (List String)) (paging : Paging)
    (range filter : Item → Bool) : Prop where
  table : what.table = e.table
  index : what.indexIn shape = index
  kind : what.kind = kind
  hidden : hidden = (pagedFields fields what.keyFields paging).2
  asks : what.Asks shape range filter (pagedFields fields what.keyFields paging).1

/-- What serves a query by the keys of the table. -/
theorem serves_byKey {q : KeyQuery} (hsuffix : ∀ ch ∈ suffix.toList, ch.isAlphanum = true)
    (hkey : shape.key = ⟨⟨c.entity.partitionField, .text⟩, some ⟨c.entity.sortField, .text⟩⟩)
    (hn : Definition.aliasCount? q.sort + 2 + (pagedFields q.fields c.entity.keyFields q.paging).1.length +
      Definition.aliasCount? q.filter < Numeral.natBound)
    (h : c.selectByKey suffix q = .ok (what, hidden)) : ∃ key,
      keyDefinition q.sort c.entity.sortField c.entity.partitionField (.string q.partition) = .ok key ∧
      Serves what hidden c.entity shape none .query q.fields q.paging key.holds
        fun item => q.filter.all fun d => d.holds item := by
  obtain ⟨key, x, a', hdef, hx, hhidden, rfl⟩ := selectByKey_ok h
  refine ⟨key, hdef, rfl, rfl, rfl, hhidden, ?_⟩
  refine asks_of_query hsuffix hn rfl hdef hx rfl ?_ (mem_keyFields hkey)
  rw [Selection.indexIn, Option.bind_none, TableShape.keyOf, hkey]

/-- What serves a query by the keys of an index. -/
theorem serves_byIndex {q : IndexQuery} {i : EntityIndex} {index : IndexShape} {first second : KeyType}
    (hsuffix : ∀ ch ∈ suffix.toList, ch.isAlphanum = true)
    (hkey : shape.key = ⟨⟨c.entity.partitionField, .text⟩, some ⟨c.entity.sortField, .text⟩⟩)
    (hi : c.entity.indexes.find? (fun i => i.name = q.index) = some i) (hindex : shape.index? i.name = some index)
    (hindexKey : index.key = ⟨⟨i.partitionField, first⟩, some ⟨i.sortField, second⟩⟩)
    {fields : Option (List String)} (hfields : fields = (q.fields <|> carriedBy i (indexKeyFields c.entity i)))
    (hn : Definition.aliasCount? q.sort + 2 + (pagedFields fields (indexKeyFields c.entity i) q.paging).1.length +
      Definition.aliasCount? q.filter < Numeral.natBound)
    (h : c.selectByIndex suffix q = .ok (what, hidden)) : ∃ key,
      keyDefinition q.sort i.sortField i.partitionField q.partition = .ok key ∧
      Serves what hidden c.entity shape (some index) .query fields q.paging key.holds
        fun item => q.filter.all fun d => d.holds item := by
  subst hfields
  obtain ⟨i', key, x, a', hi', hdef, hx, hhidden, rfl⟩ := selectByIndex_ok h
  obtain rfl : i = i' := Option.some.inj (hi.symm.trans hi')
  refine ⟨key, hdef, rfl, hindex, rfl, hhidden, ?_⟩
  have hfound : (some i.name).bind shape.index? = some index := hindex
  refine asks_of_query hsuffix hn rfl hdef hx (findIndex_ok hfound) ?_ ?_
  · rw [Selection.indexIn, hfound, TableShape.keyOf, hindexKey]
  · rw [Selection.indexIn, hfound]
    exact mem_indexKeyNames hkey hindexKey

/-- What serves a filter alone. -/
theorem serves_byFilter {q : FilterQuery} (hsuffix : ∀ ch ∈ suffix.toList, ch.isAlphanum = true)
    (hkey : shape.key = ⟨⟨c.entity.partitionField, .text⟩, some ⟨c.entity.sortField, .text⟩⟩)
    (hn : Definition.aliasCount? q.filter + 2 + (pagedFields q.fields c.entity.keyFields q.paging).1.length <
      Numeral.natBound)
    (h : c.selectByFilter suffix q = .ok (what, hidden)) :
    Serves what hidden c.entity shape none .scan q.fields q.paging (fun _ => true)
      ((q.filter.getD {}).equals c.entity.partitionField (.string c.entity.partitionValue)).holds := by
  obtain ⟨filter, a', hfilter, hhidden, rfl⟩ := selectByFilter_ok h
  refine ⟨rfl, rfl, rfl, hhidden, ?_⟩
  refine asks_of_filter hsuffix ?_ rfl hfilter rfl rfl (mem_keyFields hkey)
  have hcount : (q.filter.getD {}).aliasCount = Definition.aliasCount? q.filter := by cases q.filter <;> rfl
  rw [(equals_holds _ _ _).1, hcount]
  exact hn

end Collection

end RecordStore
