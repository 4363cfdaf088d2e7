import RecordStore.Collection.Query
import RecordStore.Proofs.Query.Pinning
import RecordStore.Proofs.Query.Projecting

/-!
# What the expressions of a request say

The condition on keys and the filter of one request are compiled one after the other and share their aliases. Each still
says what its definition does: **`Collection.expressionsOf_meaning`**, since no alias of one stands for something else
in the other. `Says` is what it means for the text of a condition, which may be absent, to say something of items.

`Collection.expressionsOf_projects` and `Collection.ofFilter_meaning` say what a request of some fields returns, and
`Collection.expressionsOf_pins` that a condition on keys fixes the field that it asks for last.
-/

namespace RecordStore

open Fields (Within Issued)

/-- A condition that may be absent says what `p` does, with what some aliases stand for. -/
inductive Says (names : NameAliases) (values : ValueAliases) : Option String → (Item → Bool) → Prop
  | nothing {p : Item → Bool} : (∀ item, p item = true) → Says names values none p
  | text {s : String} {e : Expr} {p : Item → Bool} : Expr.parse s = .ok e → Expr.Means names values e p →
      Says names values (some s) p

/-- A definition in which nothing is asked holds of every item. -/
theorem Definition.holds_of_isEmpty {d : Definition} (h : d.isEmpty = true) (item : Item) : d.holds item = true := by
  rw [isEmpty, all, List.isEmpty_iff, List.append_eq_nil_iff] at h
  simp [holds, h.1, h.2]

/-- Of a definition that may be absent, what it takes of aliases. -/
def Definition.aliasCount? (d : Option Definition) : Nat := (d.map aliasCount).getD 0

namespace Compile

variable {strict : Bool} {d : Definition} {fields : List String} {a a' : Aliases} {c : Compiled}

/-- Without fields there is no projection. -/
theorem definition_projection (h : definition strict d [] a = (.ok c, a')) : c.projection = none := by
  obtain ⟨_, _, projected, _, _, _, _, hp, rfl⟩ := definition_ok h
  cases hp
  rfl

/-- What has drawn aliases from `a` to `a'` and says `p`, also among more aliases. -/
structure Speaks (a a' : Aliases) (c : Compiled) (p : Item → Bool) : Prop where
  names : Issued (Aliases.nameAlias a.suffix) a.next a'.next c.names
  values : Issued (Aliases.valueAlias a.suffix) a.next a'.next c.values
  meaning : ∀ {names : NameAliases} {values : ValueAliases}, Within c.names names → Within c.values values →
    Says names values c.condition? p

theorem definition_speaks (ha : a.Wordy) (hn : a.next + (d.aliasCount + fields.length) < Numeral.natBound)
    (h : definition strict d fields a = (.ok c, a')) :
    a' = { a with next := a.next + (d.aliasCount + fields.length) } ∧ Speaks a a' c d.holds := by
  obtain ⟨hsource, hnames, hvalues, hempty, he⟩ := definition_yields ha hn h
  refine ⟨hsource, hnames, hvalues, fun hwn hwv => ?_⟩
  unfold Compiled.condition?
  cases hd : d.isEmpty with
  | true =>
    rw [if_pos (by simpa using hempty.2 hd)]
    exact .nothing (Definition.holds_of_isEmpty hd)
  | false =>
    have hne : c.expression ≠ "" := fun h => by rw [hempty.1 h] at hd; cases hd
    obtain ⟨e, hp, hm⟩ := he hd
    rw [if_neg (by simpa using hne)]
    exact .text hp (hm hwn hwv)

end Compile

namespace Collection

open Call (bind_ok)
open Compile (Speaks)

variable {c : Collection} {key : Definition} {filter : Option Definition} {fields : List String} {a a' : Aliases}
  {x : Expressions}

/-- A filter that is not there, or asks nothing, says nothing. -/
theorem filterOf_speaks {r : Compiled} (ha : a.Wordy)
    (hn : a.next + Definition.aliasCount? filter < Numeral.natBound) (h : c.filterOf filter a = (.ok r, a')) :
    Speaks a a' r (fun item => filter.all fun d => d.holds item) ∧ r.projection = none := by
  unfold filterOf at h
  cases hd : filter.filter fun d => !d.isEmpty with
  | some d =>
    rw [hd] at h
    obtain ⟨rfl, -⟩ := Option.filter_eq_some_iff.1 hd
    have hn' : a.next + (d.aliasCount + List.length ([] : List String)) < Numeral.natBound := hn
    obtain ⟨-, hs⟩ := Compile.definition_speaks ha hn' h
    exact ⟨hs, Compile.definition_projection h⟩
  | none =>
    rw [hd] at h
    obtain ⟨rfl, rfl⟩ := Compile.pure_ok h
    refine ⟨⟨.nil _ _, .nil _ _, fun _ _ => .nothing fun item => ?_⟩, rfl⟩
    cases filter with
    | none => rfl
    | some d =>
      have hempty : d.isEmpty = true := by simpa [Option.filter_some] using hd
      exact Definition.holds_of_isEmpty hempty item

/-- What the expressions of a request are put together of, with aliases that stand for the same in all of it. -/
structure Parts (a a' : Aliases) (x : Expressions) (k f : Compiled) (key : Item → Bool) (filter : Item → Bool) :
    Prop where
  key : ∃ a₁, Speaks a a₁ k key
  filter : ∃ a₁, Speaks a₁ a' f filter
  projection : f.projection = none
  whole : x = (Expressions.ofKeyCondition k).addFilter f
  keyNames : Within k.names x.names
  keyValues : Within k.values x.values
  filterNames : Within f.names x.names
  filterValues : Within f.values x.values

theorem expressionsOf_parts (ha : a.Wordy)
    (hn : a.next + (key.aliasCount + fields.length) + Definition.aliasCount? filter < Numeral.natBound)
    (h : c.expressionsOf key filter fields a = (.ok x, a')) :
    ∃ k f a₁, Compile.definition c.settings.refuseUnknown key fields a = (.ok k, a₁) ∧
      Parts a a' x k f key.holds fun item => filter.all fun d => d.holds item := by
  obtain ⟨k, a₁, hk, h⟩ := bind_ok h
  obtain ⟨f, a₂, hf, h⟩ := bind_ok h
  obtain ⟨rfl, rfl⟩ := Compile.pure_ok h
  obtain ⟨_, a₀, hcheck, hk⟩ := bind_ok hk
  obtain ⟨-, rfl⟩ := Compile.ofExcept_ok hcheck
  obtain ⟨rfl, hkey⟩ := Compile.definition_speaks ha (by omega) hk
  obtain ⟨hfilter, hproj⟩ := @filterOf_speaks c filter { a with next := a.next + _ } _ _ ha hn hf
  -- the aliases of the filter come behind those of the condition on keys
  have hnames : Within k.names (k.names.merge f.names) :=
    Fields.within_merge_left hfilter.names.ordered (hkey.names.disjoint Aliases.nameAlias_inj hfilter.names)
  have hvalues : Within k.values (k.values.merge f.values) :=
    Fields.within_merge_left hfilter.values.ordered (hkey.values.disjoint Aliases.valueAlias_inj hfilter.values)
  exact ⟨k, f, _, hk, ⟨_, hkey⟩, ⟨_, hfilter⟩, hproj, rfl, hnames, hvalues,
    Fields.within_merge_right hfilter.names.ordered, Fields.within_merge_right hfilter.values.ordered⟩

/-- **The expressions of a request** say what the condition on keys and the filter do. -/
theorem expressionsOf_meaning (ha : a.Wordy)
    (hn : a.next + (key.aliasCount + fields.length) + Definition.aliasCount? filter < Numeral.natBound)
    (h : c.expressionsOf key filter fields a = (.ok x, a')) :
    Says x.names x.values x.keyCondition key.holds ∧
      Says x.names x.values x.filter (fun item => filter.all fun d => d.holds item) := by
  obtain ⟨k, f, _, -, hparts⟩ := expressionsOf_parts ha hn h
  obtain ⟨_, hkey⟩ := hparts.key
  obtain ⟨_, hfilter⟩ := hparts.filter
  have hk : x.keyCondition = k.condition? := by rw [hparts.whole]; rfl
  have hf : x.filter = f.condition? := by
    rw [hparts.whole]
    simp [Expressions.addFilter, Expressions.ofKeyCondition]
  rw [hk, hf]
  exact ⟨hkey.meaning hparts.keyNames hparts.keyValues, hfilter.meaning hparts.filterNames hparts.filterValues⟩

/-- The projection of a request is the one on its fields. -/
theorem expressionsOf_projects (ha : a.Wordy)
    (hn : a.next + (key.aliasCount + fields.length) + Definition.aliasCount? filter < Numeral.natBound)
    (h : c.expressionsOf key filter fields a = (.ok x, a')) : Projects x.names x.projection fields := by
  obtain ⟨k, f, _, hk, hparts⟩ := expressionsOf_parts ha hn h
  have hx : x.projection = k.projection := by
    rw [hparts.whole]
    simp [Expressions.addFilter, Expressions.ofKeyCondition, hparts.projection]
  rw [hx]
  exact Compile.definition_projects ha (by omega) hk hparts.keyNames

/-- A condition on keys that asks for the value of a field last fixes this field. -/
theorem expressionsOf_pins {ls : List Leaf} {field : String} {value : Json} (ha : a.Wordy)
    (hkey : key = { leaves := ls ++ [.equals field value] })
    (hn : a.next + (key.aliasCount + fields.length) + Definition.aliasCount? filter < Numeral.natBound)
    (h : c.expressionsOf key filter fields a = (.ok x, a')) :
    ∃ text e, x.keyCondition = some text ∧ Expr.parse text = .ok e ∧ e.pins x.names field = true := by
  obtain ⟨k, f, _, hk, hparts⟩ := expressionsOf_parts ha hn h
  have hdefinition : a.next + (key.aliasCount + fields.length) < Numeral.natBound := by omega
  obtain ⟨-, -, -, hempty, hexpresses⟩ := Compile.definition_yields ha hdefinition hk
  have hne : key.isEmpty = false := by
    rw [hkey]
    simp [Definition.isEmpty, Definition.all, Definition.required]
  obtain ⟨e, hparse, -⟩ := hexpresses hne
  have htext : k.condition? = some k.expression := by
    have hexpression : k.expression ≠ "" := fun hnil => by rw [hempty.1 hnil] at hne; cases hne
    rw [Compiled.condition?, if_neg (by simpa using hexpression)]
  refine ⟨k.expression, e, ?_, hparse, ?_⟩
  · rw [hparts.whole]
    exact htext
  · subst hkey
    exact Compile.definition_pins ha hdefinition hk hparse hparts.keyNames

/-- The expressions of a request with a filter alone say what the filter does, and return the fields. -/
theorem ofFilter_meaning {strict : Bool} {d : Definition} {f : Compiled} (ha : a.Wordy)
    (hn : a.next + (d.aliasCount + fields.length) < Numeral.natBound)
    (h : Compile.definition strict d fields a = (.ok f, a')) :
    let x := Expressions.ofFilter f
    Says x.names x.values x.filter d.holds ∧ Projects x.names x.projection fields := by
  intro x
  obtain ⟨-, hspeaks⟩ := Compile.definition_speaks ha hn h
  have hnames : Within f.names x.names := Fields.within_merge_right hspeaks.names.ordered
  have hvalues : Within f.values x.values := Fields.within_merge_right hspeaks.values.ordered
  have hfilter : x.filter = f.condition? := by simp [x, Expressions.ofFilter, Expressions.addFilter]
  have hprojection : x.projection = f.projection := by simp [x, Expressions.ofFilter, Expressions.addFilter]
  rw [hfilter, hprojection]
  exact ⟨hspeaks.meaning hnames hvalues, Compile.definition_projects ha hn h hnames⟩

end Collection

end RecordStore
