import RecordStore.Expression.Parser
import RecordStore.Proofs.Expression.Equality
import RecordStore.Proofs.Table.Numbers
import RecordStore.Proofs.Table.Rows

/-!
# Keys in three places

A key value is looked at in three ways: a get takes the partition value as it is and compares the sort key by its place
in the order of keys, a read orders items by the places of all key values, and a condition compares values. Texts and
bytes are the same in all three ways. A number has many spellings, which are different partition values of one place,
and two zeros, which are different places of one value.

**`keys_agree_iff`**: the items of all reads of a table have different positions just if none are `Table.Confused`, and
a get and a read of one key find the same just if no item of the table is a `Table.Rival` of the key.
-/

namespace RecordStore

open Position (comparePart)
open Std (TransCmp OrientedCmp ReflCmp)

/-! ## Values that conditions take as equal -/

namespace Attribute

/-- A value that is a decimal numeral if it is a number. -/
def Decimal (a : Attribute) : Prop :=
  ∀ n, a = .number n → (Numeral.parse? n.toList).isSome = true

/-- Two values that are the same, or are numbers of one value. -/
def Alike (a b : Attribute) : Prop :=
  a = b ∨ ∃ m n, a = .number m ∧ b = .number n ∧ (SortKey.double m).signedPlace = (SortKey.double n).signedPlace

theorem Decimal.numeral {n : String} (h : (Attribute.number n).Decimal) : ∃ m, Numeral.parse? n.toList = some m :=
  Option.isSome_iff_exists.1 (h n rfl)

theorem alike_number_iff {m n : String} :
    Alike (.number m) (.number n) ↔ (SortKey.double m).signedPlace = (SortKey.double n).signedPlace := by
  constructor
  · rintro (h | ⟨m', n', hm, hn, h⟩)
    · cases h
      rfl
    · cases hm
      cases hn
      exact h
  · exact fun h => .inr ⟨m, n, rfl, rfl, h⟩

theorem alike_iff_eq {a b : Attribute} (h : a.type ≠ .number) : Alike a b ↔ a = b := by
  constructor
  · rintro (heq | ⟨_, _, rfl, -, -⟩)
    · exact heq
    · exact absurd rfl h
  · exact .inl

/-- **A condition takes two key values as equal** just if they are the same or are numbers of one value. -/
theorem holds_eq_iff {k : KeyType} {a b : Attribute} (ha : k.accepts a = true) (hb : k.accepts b = true)
    (hda : a.Decimal) (hdb : b.Decimal) : holds .eq a b = true ↔ Alike a b := by
  have htype : a.type = b.type := (of_decide_eq_true ha).trans (of_decide_eq_true hb).symm
  by_cases hnumber : a.type = .number
  · cases a with
    | number m =>
      cases b with
      | number n =>
        obtain ⟨x, hx⟩ := hda.numeral
        obtain ⟨y, hy⟩ := hdb.numeral
        rw [holds_number hx hy, alike_number_iff]
        exact decide_eq_true_iff.trans compare_eq_iff_eq
      | _ => cases htype
    | _ => cases hnumber
  · rw [alike_iff_eq hnumber]
    exact holds_eq_iff_eq fun h => hnumber h.1

end Attribute

namespace Table

variable {t : Table} {item key : Item} {address : Attribute × Option SortKey}

/-! ## The read of a key -/

/-- The condition that a key attribute, by its alias, is the value of an alias. -/
def isValue (name value : String) : Expr :=
  .compare (.path ⟨name, []⟩) .eq (.value value)

/-- The read of the items with a key: their partition key is that of the key, and their sort key if there is one. -/
def point (shape : KeyShape) (key : Key) : TableRead :=
  match shape.sort with
  | none =>
    { keyCondition := some (isValue "#p" ":p")
      names := [("#p", shape.partition.name)]
      values := ((key.find shape.partition.name).map fun a => (":p", a)).toList }
  | some sort =>
    { keyCondition := some (.and (isValue "#p" ":p") (isValue "#s" ":s"))
      names := [("#p", shape.partition.name), ("#s", sort.name)]
      values := ((key.find shape.partition.name).map fun a => (":p", a)).toList ++
        ((key.find sort.name).map fun a => (":s", a)).toList }

/-- The conditions of such a read are the texts that a request would have. -/
example : Expr.parse "#p = :p" = .ok (isValue "#p" ":p") ∧
    Expr.parse "#p = :p AND #s = :s" = .ok (.and (isValue "#p" ":p") (isValue "#s" ":s")) := by
  decide +kernel

/-- A condition of a key attribute compares its value in an item with the value of the alias. -/
theorem eval_isValue {name value field : String} {a b : Attribute} {scope : Scope}
    (hresolve : Scope.resolve scope.names name = some field) (hitem : scope.item.find field = some a)
    (hvalue : scope.values.find value = some b) :
    (isValue name value).eval scope = .ok (Attribute.holds .eq a b) := by
  have hlookup : scope.lookup ⟨name, []⟩ = some a := by
    rw [Scope.lookup, hresolve]
    change (scope.item.find field).bind _ = some a
    rw [hitem]
    rfl
  have hleft : scope.operand (.path ⟨name, []⟩) = .ok (some a) := congrArg Except.ok hlookup
  have hright : scope.operand (.value value) = .ok (some b) := by rw [Scope.operand, hvalue]
  rw [isValue, Expr.eval, hleft, hright]
  rfl

/-! ## Keys and items -/

/-- All key attributes of an item that are numbers are decimal numerals. -/
def DecimalKeys (t : Table) (item : Item) : Prop :=
  ∀ k ∈ t.shape.key.attributes, ∀ a, item.find k.name = some a → a.Decimal

/-- A condition takes a key attribute of an item as that of a key. -/
def AlikeAt (key item : Item) (k : KeyField) : Prop :=
  ∃ a b, item.find k.name = some a ∧ key.find k.name = some b ∧ a.Alike b

/-- A condition on the key attributes takes an item as one with the key. -/
def AlikeKeys (t : Table) (key item : Item) : Prop :=
  ∀ k ∈ t.shape.key.attributes, AlikeAt key item k

/-- An item stands where a get of a key looks. -/
def StandsAt (t : Table) (key item : Item) : Prop :=
  ∃ a b, t.address item = .ok a ∧ t.address key = .ok b ∧ SameAddress a b

/-- An item that a condition takes as one with the key, and that a get of the key does not find. -/
def Rival (t : Table) (key item : Item) : Prop :=
  t.AlikeKeys key item ∧ ¬ t.StandsAt key item

/-- What has an address has all key attributes, each of its type. -/
theorem attributes_of_address (h : t.address item = .ok address) :
    ∀ k ∈ t.shape.key.attributes, ∃ a, item.find k.name = some a ∧ k.type.accepts a = true := by
  obtain ⟨hpartition, hsort⟩ := address_parts h
  refine List.forall_mem_cons.2 ⟨⟨_, KeyField.value_ok.1 hpartition⟩, fun k hk => ?_⟩
  rw [Option.mem_toList.1 hk] at hsort
  obtain ⟨s, -, hs⟩ := part_some_ok hsort
  obtain ⟨a, ha, haccepts, -⟩ := KeyField.sortKey_ok.1 hs
  exact ⟨a, ha, haccepts⟩

/-- What stands where a get of a key looks has key attributes that a condition takes as those of the key. -/
theorem StandsAt.alikeKeys (h : t.StandsAt key item) : t.AlikeKeys key item := by
  obtain ⟨⟨v, s⟩, ⟨v', s'⟩, hitem, hkey, hv, hs⟩ := h
  obtain ⟨hpartition, hsort⟩ := address_parts hitem
  obtain ⟨hpartition', hsort'⟩ := address_parts hkey
  refine List.forall_mem_cons.2 ⟨⟨v, v', ?_, ?_, .inl hv⟩, fun k hk => ?_⟩
  · exact (KeyField.value_ok.1 hpartition).1
  · exact (KeyField.value_ok.1 hpartition').1
  · rw [Option.mem_toList.1 hk] at hsort hsort'
    obtain ⟨x, rfl, hx⟩ := part_some_ok hsort
    obtain ⟨y, rfl, hy⟩ := part_some_ok hsort'
    obtain ⟨a, ha, haccepts, hax⟩ := KeyField.sortKey_ok.1 hx
    obtain ⟨b, hb, hbaccepts, hby⟩ := KeyField.sortKey_ok.1 hy
    refine ⟨a, b, ha, hb, ?_⟩
    by_cases hnumber : k.type = .number
    · obtain ⟨m, rfl⟩ := KeyType.number_of_accepts hnumber haccepts
      obtain ⟨n, rfl⟩ := KeyType.number_of_accepts hnumber hbaccepts
      cases hax
      cases hby
      have hdouble : SortKey.double m = SortKey.double n := SortKey.double_eq_of_compare hs
      exact Attribute.alike_number_iff.2 (congrArg Binary64.signedPlace hdouble)
    · exact .inl (KeyField.eq_of_compare hnumber haccepts hax hby hs)

/-- A condition of one key attribute. -/
theorem eval_isValue_iff (scope : Scope) (name value : String) {k : KeyField} {a b : Attribute}
    (hresolve : Scope.resolve scope.names name = some k.name) (hvalue : scope.values.find value = key.find k.name)
    (ha : scope.item.find k.name = some a ∧ k.type.accepts a = true) (hda : a.Decimal)
    (hb : key.find k.name = some b ∧ k.type.accepts b = true) (hdb : b.Decimal) :
    ∃ r, (isValue name value).eval scope = .ok r ∧ (r = true ↔ AlikeAt key scope.item k) := by
  refine ⟨_, eval_isValue hresolve ha.1 (hvalue.trans hb.1), ?_⟩
  rw [Attribute.holds_eq_iff ha.2 hb.2 hda hdb]
  constructor
  · exact fun h => ⟨a, b, ha.1, hb.1, h⟩
  · rintro ⟨a', b', ha', hb', h⟩
    rw [ha.1] at ha'
    rw [hb.1] at hb'
    cases ha'
    cases hb'
    exact h

/-- **The read of a key** takes the items whose key attributes a condition takes as those of the key. -/
theorem meets_point {address' : Attribute × Option SortKey} (hkey : t.address key = .ok address)
    (hitem : t.address item = .ok address') (hdkey : t.DecimalKeys key) (hditem : t.DecimalKeys item) :
    ∃ r, (point t.shape.key key).meets (point t.shape.key key).keyCondition item = .ok r ∧
      (r = true ↔ t.AlikeKeys key item) := by
  obtain ⟨⟨b, hb⟩, hsortKey⟩ := List.forall_mem_cons.1 (attributes_of_address hkey)
  obtain ⟨⟨a, ha⟩, hsortItem⟩ := List.forall_mem_cons.1 (attributes_of_address hitem)
  obtain ⟨hdb, hdkeySort⟩ := List.forall_mem_cons.1 hdkey
  obtain ⟨hda, hditemSort⟩ := List.forall_mem_cons.1 hditem
  have halike : t.AlikeKeys key item ↔ AlikeAt key item t.shape.key.partition ∧
      ∀ k ∈ t.shape.key.sort.toList, AlikeAt key item k := List.forall_mem_cons
  rw [halike]
  cases hsort : t.shape.key.sort with
  | none =>
    have hpoint : point t.shape.key key = ⟨none, some (isValue "#p" ":p"), none, none,
        [("#p", t.shape.key.partition.name)], [(":p", b)], true, none, []⟩ := by
      simp only [point, hsort, hb]
      rfl
    obtain ⟨r, heval, hr⟩ := eval_isValue_iff ⟨item, [("#p", t.shape.key.partition.name)], [(":p", b)]⟩ "#p" ":p"
      rfl hb.1.symm ha (hda a ha.1) hb (hdb b hb.1)
    refine ⟨r, by rw [hpoint, TableRead.meets, TableRead.scope, heval], ?_⟩
    rw [hr, Option.toList_none]
    exact ⟨fun h => ⟨h, nofun⟩, fun h => h.1⟩
  | some k =>
    rw [hsort, Option.toList_some, List.forall_mem_singleton] at hsortKey hsortItem
    rw [hsort, Option.toList_some, List.forall_mem_singleton] at hdkeySort hditemSort
    obtain ⟨d, hd⟩ := hsortKey
    obtain ⟨c, hc⟩ := hsortItem
    have hpoint : point t.shape.key key = ⟨none, some (.and (isValue "#p" ":p") (isValue "#s" ":s")), none, none,
        [("#p", t.shape.key.partition.name), ("#s", k.name)], [(":p", b), (":s", d)], true, none, []⟩ := by
      simp only [point, hsort, hb, hd]
      rfl
    let scope : Scope := ⟨item, [("#p", t.shape.key.partition.name), ("#s", k.name)], [(":p", b), (":s", d)]⟩
    obtain ⟨r, heval, hr⟩ := eval_isValue_iff scope "#p" ":p" rfl hb.1.symm ha (hda a ha.1) hb (hdb b hb.1)
    obtain ⟨r', heval', hr'⟩ := eval_isValue_iff scope "#s" ":s" rfl hd.1.symm hc (hditemSort c hc.1) hd
      (hdkeySort d hd.1)
    have hand : (Expr.and (isValue "#p" ":p") (isValue "#s" ":s")).eval scope = .ok (r && r') := by
      rw [Expr.eval, heval, heval']
      cases r <;> rfl
    refine ⟨r && r', by rw [hpoint, TableRead.meets, TableRead.scope, hand], ?_⟩
    rw [Bool.and_eq_true, hr, hr', Option.toList_some, List.forall_mem_singleton]

/-- The address depends on the key attributes alone. -/
theorem address_congr {a b : Item} (h : ∀ k ∈ t.shape.key.attributes, a.find k.name = b.find k.name) :
    t.address a = t.address b := by
  obtain ⟨hpartition, hsort⟩ := List.forall_mem_cons.1 h
  have hvalue : t.shape.key.partition.value a = t.shape.key.partition.value b := by
    rw [KeyField.value, KeyField.value, hpartition]
  unfold address
  rw [hvalue]
  cases hk : t.shape.key.sort with
  | none => rfl
  | some k =>
    rw [hk, Option.toList_some, List.forall_mem_singleton] at hsort
    have hkey : k.sortKey a = k.sortKey b := by
      rw [KeyField.sortKey, KeyField.sortKey, KeyField.value, KeyField.value, hsort]
    simp only [hkey]

/-! ## Reads of a table -/

/-- No item is twice in a table. -/
theorem Sound.nodup_items (hs : t.Sound) : t.items.Nodup := by
  refine hs.items_apart.imp_of_mem ?_
  intro a b ha _ hapart heq
  subst heq
  obtain ⟨_, haddress⟩ := hs.exists_address ha
  rcases hapart haddress haddress with hne | hne
  · exact hne rfl
  · exact hne ReflCmp.compare_self

/-- The read of a key reads the whole table, without a filter, a projection or a limit. -/
theorem point_rest (shape : KeyShape) (key : Key) : (point shape key).index = none ∧ (point shape key).filter = none ∧
    (point shape key).projection = none ∧ (point shape key).limit = none ∧ (point shape key).after = [] := by
  unfold point
  split <;> exact ⟨rfl, rfl, rfl, rfl, rfl⟩

/-- **The read of a key** returns the items whose key attributes a condition takes as those of the key, each once. -/
theorem Sound.read_point (hs : t.Sound) (hd : ∀ item ∈ t.items, t.DecimalKeys item) (hkey : t.address key = .ok address)
    (hdkey : t.DecimalKeys key) :
    ∃ r, t.read (point t.shape.key key) = .ok r ∧ r.items.Nodup ∧
      ∀ item, item ∈ r.items ↔ item ∈ t.items ∧ t.AlikeKeys key item := by
  have hmeets : ∀ item ∈ t.items, ∃ r, (point t.shape.key key).meets (point t.shape.key key).keyCondition item = .ok r ∧
      (r = true ↔ t.AlikeKeys key item) := fun item hi => by
    obtain ⟨_, haddress⟩ := hs.exists_address hi
    exact meets_point hkey haddress hdkey (hd item hi)
  obtain ⟨hindex, hfilter, hprojection, hlimit, hafter⟩ := point_rest t.shape.key key
  generalize point t.shape.key key = w at hmeets hindex hfilter hprojection hlimit hafter
  -- the read walks all items of the table
  have hrows : (t.rows w).Perm t.items := by
    have hperm := t.rows_perm w
    rwa [hindex, List.filter_eq_self.2 fun item hi => hs.place_table hi] at hperm
  have hpasses : ∀ item, w.meets w.filter item = .ok true := fun item => by rw [hfilter, TableRead.meets]
  have hevaluates : w.Evaluates (t.rows w) := fun item hi => by
    obtain ⟨r, hr, -⟩ := hmeets item (hrows.mem_iff.1 hi)
    exact ⟨TableRead.meets_ok hr, fun _ => TableRead.meets_ok (hpasses item)⟩
  have hread := read_of_ahead (ahead_start t hafter) hlimit hevaluates
  have houtputs : w.outputs (t.rows w) = (t.rows w).filter w.inRange := by
    have houtput : w.output = id := funext fun item => by rw [TableRead.output, hprojection]; rfl
    have hselects : w.selects = w.inRange := funext fun item => by
      rw [TableRead.selects, TableRead.passes_of_ok (hpasses item), Bool.and_true]
    rw [TableRead.outputs, houtput, hselects, List.map_id]
  refine ⟨_, hread, ?_, fun item => ?_⟩
  · rw [houtputs]
    exact (hrows.nodup_iff.2 hs.nodup_items).filter _
  · rw [houtputs, List.mem_filter, hrows.mem_iff]
    refine and_congr_right fun hi => ?_
    obtain ⟨r, hr, halike⟩ := hmeets item hi
    rw [TableRead.inRange_of_ok hr, halike]

/-- What a get of a key finds is the item that stands there. -/
theorem Sound.get_eq_some_iff (hs : t.Sound) (hkey : t.address key = .ok address) :
    ∃ found, t.get key = .ok found ∧ ∀ item, found = some item ↔ item ∈ t.items ∧ t.StandsAt key item := by
  refine ⟨_, get_eq hkey, fun item => ?_⟩
  rw [hs.at?_eq_some_iff]
  constructor
  · rintro ⟨hi, a, ha, hsame⟩
    exact ⟨hi, a, address, ha, hkey, hsame⟩
  · rintro ⟨hi, a, b, ha, hb, hsame⟩
    rw [hkey] at hb
    cases hb
    exact ⟨hi, a, ha, hsame⟩

/-- What is found and what is read are the same item, or nothing both. -/
theorem agree_iff {α : Type} {found : Option α} {read : List α} (hn : read.Nodup) :
    ((∀ a, found = some a ↔ read = [a]) ∧ (found = none ↔ read = [])) ↔ ∀ a, found = some a ↔ a ∈ read := by
  constructor
  · rintro ⟨hsome, hnone⟩ a
    cases found with
    | none =>
      rw [hnone.1 rfl]
      exact ⟨nofun, nofun⟩
    | some b =>
      rw [(hsome b).1 rfl, List.mem_singleton, Option.some.injEq, eq_comm]
  · intro h
    cases found with
    | none =>
      have hread : read = [] := List.eq_nil_iff_forall_not_mem.2 fun a ha => nomatch (h a).2 ha
      rw [hread]
      exact ⟨fun a => ⟨nofun, nofun⟩, ⟨fun _ => rfl, fun _ => rfl⟩⟩
    | some b =>
      have hread : read = [b] := by
        refine List.perm_singleton.1 ((List.perm_ext_iff_of_nodup hn (List.pairwise_singleton _ b)).2 fun a => ?_)
        rw [← h a, List.mem_singleton, Option.some.injEq, eq_comm]
      rw [hread]
      refine ⟨fun a => ?_, ⟨nofun, nofun⟩⟩
      rw [Option.some.injEq, List.cons.injEq]
      exact ⟨fun h => ⟨h, rfl⟩, fun h => h.1⟩

/-- **Where a get and a read of one key agree.** They find the same just if the key has no rival. -/
theorem Sound.get_agrees_iff (hs : t.Sound) (hd : ∀ item ∈ t.items, t.DecimalKeys item)
    (hkey : t.address key = .ok address) (hdkey : t.DecimalKeys key) :
    ∃ found r, t.get key = .ok found ∧ t.read (point t.shape.key key) = .ok r ∧
      (((∀ item, found = some item ↔ r.items = [item]) ∧ (found = none ↔ r.items = [])) ↔
        ∀ item ∈ t.items, ¬ t.Rival key item) := by
  obtain ⟨found, hget, hfound⟩ := hs.get_eq_some_iff hkey
  obtain ⟨r, hread, hnodup, hitems⟩ := hs.read_point hd hkey hdkey
  refine ⟨found, r, hget, hread, ?_⟩
  rw [agree_iff hnodup]
  constructor
  · rintro h item hi ⟨halike, hnot⟩
    have hmem := (hitems item).2 ⟨hi, halike⟩
    exact hnot ((hfound item).1 ((h item).2 hmem)).2
  · intro h item
    rw [hfound, hitems]
    refine and_congr_right fun hi => ⟨StandsAt.alikeKeys, fun halike => ?_⟩
    exact not_not.1 fun hnot => h item hi ⟨halike, hnot⟩

/-! ## Positions -/

/-- The position of an item in a read of the table is its address. -/
theorem place_of_address {n : String} {s : Option SortKey} (h : t.address item = .ok (.number n, s)) :
    place (t.shape.readOrder none) item = .ok [some (.number n), s] := by
  obtain ⟨hvalue, hsort⟩ := address_parts h
  have hpartition : part item (some t.shape.key.partition) = .ok (some (.number n)) := by
    rw [part, KeyField.sortKey, hvalue]
    rfl
  exact place_ok.2 (.cons hpartition (.cons hsort .nil))

/-- Items whose partition values are spellings of one number have one position in a read of the table. -/
theorem Confused.compare_eq {a b : Item} (h : t.Confused a b) : ∃ p q, place (t.shape.readOrder none) a = .ok p ∧
    place (t.shape.readOrder none) b = .ok q ∧ Position.compare p q = .eq := by
  obtain ⟨m, n, s, s', ha, hb, -, hdouble, hsort⟩ := h
  refine ⟨_, _, place_of_address ha, place_of_address hb, Position.compare_eq_iff.2 ?_⟩
  exact .cons (SortKey.compare_number_eq_iff.2 hdouble) (.cons hsort .nil)

/-- **Where positions are distinct.** The items of all reads stand in strict order just if no two are confused. -/
theorem Sound.ordered_iff (hs : t.Sound) :
    (∀ index forward, (t.ordered (t.shape.readOrder index) forward).Pairwise fun a b => Before forward a.1 b.1) ↔
      t.items.Pairwise fun a b => ¬ t.Confused a b := by
  refine ⟨fun h => ?_, fun h index forward =>
    hs.ordered_pairwise_of_not_confused h (parts_mem_readOrder t.shape index) forward⟩
  have hordered : (t.ordered (t.shape.readOrder none) true).Pairwise fun a b => Position.compare a.1 b.1 ≠ .eq := by
    refine (h none true).imp fun {a b} hlt heq => ?_
    have hlt : Position.compare a.1 b.1 = .lt := hlt
    rw [hlt] at heq
    cases heq
  have hpositioned : (t.positioned (t.shape.readOrder none)).Pairwise fun a b => Position.compare a.1 b.1 ≠ .eq :=
    ((List.mergeSort_perm _ _).pairwise_iff fun {a b} hab h => hab (OrientedCmp.eq_symm h)).1 hordered
  rw [positioned, List.pairwise_filterMap] at hpositioned
  refine hpositioned.imp fun {a b} hne hconfused => ?_
  obtain ⟨p, q, hp, hq, heq⟩ := hconfused.compare_eq
  exact hne (p, a) (by rw [hp]) (q, b) (by rw [hq]) heq

/-! ## Agreement -/

/--
**Where keys agree.** In a table after any puts and deletes, the items of all reads, of the table and of its indexes,
have different positions in strict order just if no two are spelt differently at one place. A get of a key and a read of
the items with this key find the same just if no other item has key values of the same value.
-/
theorem keys_agree_iff {shape : TableShape} (hr : t.Reached shape) (hd : ∀ item ∈ t.items, t.DecimalKeys item) :
    ((∀ index forward, (t.ordered (shape.readOrder index) forward).Pairwise fun a b => Before forward a.1 b.1) ↔
      t.items.Pairwise fun a b => ¬ t.Confused a b) ∧
    ∀ key address, t.address key = .ok address → t.DecimalKeys key →
      ∃ found r, t.get key = .ok found ∧ t.read (point shape.key key) = .ok r ∧
        (((∀ item, found = some item ↔ r.items = [item]) ∧ (found = none ↔ r.items = [])) ↔
          ∀ item ∈ t.items, ¬ t.Rival key item) := by
  rw [← hr.shape_eq]
  exact ⟨hr.sound.ordered_iff, fun key address hkey hdkey => hr.sound.get_agrees_iff hd hkey hdkey⟩

/-- Of two numbers, the one is found and read under its own spelling. -/
theorem keys_agree_iff_numbers :
    let shape : TableShape := ⟨"t", ⟨⟨"p", .number⟩, none⟩, []⟩
    let one : Item := [("p", .number "1")]
    let two : Item := [("p", .number "2")]
    ∃ t : Table, t.Reached shape ∧ (∀ item ∈ t.items, t.DecimalKeys item) ∧ t.items = [one, two] ∧
      ∃ found r, t.get one = .ok found ∧ t.read (point shape.key one) = .ok r ∧
        (∀ item, found = some item ↔ r.items = [item]) ∧ (found = none ↔ r.items = []) := by
  intro shape one two
  let t : Table := ⟨shape, [(.number "1", [(none, one)]), (.number "2", [(none, two)])]⟩
  have hr : t.Reached shape := by
    let first : Table := ⟨shape, [(.number "1", [(none, one)])]⟩
    have hfirst : (empty shape).put one = .ok (none, first) := rfl
    have hsecond : first.put two = .ok (none, t) := rfl
    exact (Reached.empty.put (Fields.ordered_singleton _) hfirst).put (Fields.ordered_singleton _) hsecond
  have hdecimal : ∀ n : String, (Numeral.parse? n.toList).isSome = true → t.DecimalKeys [("p", .number n)] := by
    intro n hn k hk a ha m hm
    cases List.mem_singleton.1 hk
    cases ha
    cases hm
    exact hn
  have hd : ∀ item ∈ t.items, t.DecimalKeys item := by
    intro item hi
    rcases List.mem_cons.1 hi with rfl | hi
    · exact hdecimal "1" rfl
    · cases List.mem_singleton.1 hi
      exact hdecimal "2" rfl
  have hrivals : ∀ item ∈ t.items, ¬ t.Rival one item := by
    intro item hi hrival
    rcases List.mem_cons.1 hi with rfl | hi
    · exact hrival.2 ⟨_, _, rfl, rfl, rfl, rfl⟩
    · cases List.mem_singleton.1 hi
      obtain ⟨a, b, ha, hb, halike⟩ := hrival.1 _ List.mem_cons_self
      cases ha
      cases hb
      exact absurd (Attribute.alike_number_iff.1 halike) (by decide +kernel)
  obtain ⟨found, r, hget, hread, hagree⟩ := (keys_agree_iff hr hd).2 one (.number "1", none) rfl (hdecimal "1" rfl)
  exact ⟨t, hr, hd, rfl, found, r, hget, hread, hagree.2 hrivals⟩

/-- Two spellings of one number: a get of the one does not find the item of the other, which a read finds, and two items
of these have one position. -/
theorem keys_disagree :
    let shape : TableShape := ⟨"t", ⟨⟨"p", .number⟩, none⟩, []⟩
    let one : Item := [("p", .number "1")]
    let other : Item := [("p", .number "1.0")]
    ∃ t t' : Table, (empty shape).put one = .ok (none, t) ∧ t.get other = .ok none ∧
      t.read (point shape.key other) = .ok ⟨[one], 1, none⟩ ∧
      t.put other = .ok (none, t') ∧ t'.items = [one, other] ∧
      ∃ p q, place (shape.readOrder none) one = .ok p ∧ place (shape.readOrder none) other = .ok q ∧
        Position.compare p q = .eq := by
  intro shape one other
  exact ⟨_, _, rfl, rfl, by decide +kernel, rfl, rfl, _, _, rfl, rfl, by decide +kernel⟩

end Table

end RecordStore
