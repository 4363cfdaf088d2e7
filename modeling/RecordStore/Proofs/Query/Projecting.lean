import RecordStore.Memory.Store
import RecordStore.Proofs.Expression.Printing
import RecordStore.Proofs.Query.Compiling

/-!
# What projections keep

The text of a projection on aliases is read as the paths to what these stand for: **`Compile.parse_projectionText`**.
`Projects names text fields` says that a projection, which may be absent, keeps just the attributes in `fields`, or all
if there are none, and **`Compile.definition_projects`** that a compiled definition has the projection on its fields.

**`Projects.output`**: what is returned of an item is the item with these attributes alone.
-/

namespace RecordStore

open Fields (Within numbered)

/-! ## Texts -/

theorem Condition.IsNameAlias.written {name : String} (h : Condition.IsNameAlias name) :
    Path.Written ⟨name, []⟩ := by
  obtain ⟨w, hw, rfl⟩ := h
  exact ⟨.nameAlias hw, List.forall_mem_nil _⟩

namespace Compile

/-- **The text of a projection** on aliases is read as the paths to what these stand for. -/
theorem parse_projectionText {name : String} {names : List String}
    (h : ∀ n ∈ name :: names, Condition.IsNameAlias n) :
    Path.parseList (", ".intercalate (name :: names)) = .ok ((name :: names).map fun n => ⟨n, []⟩) := by
  have hwritten : ∀ p ∈ (name :: names).map fun n => Path.mk n [], p.Written :=
    List.forall_mem_map.2 fun n hn => (h n hn).written
  have htext : Path.listText ((name :: names).map fun n => ⟨n, []⟩) = ", ".intercalate (name :: names) := by
    simp [Path.listText, Path.text, Function.comp_def]
  rw [← htext]
  exact Path.parseList_listText (List.cons_ne_nil _ _) hwritten

end Compile

/-! ## Meaning -/

/-- A projection, which may be absent, that keeps some attributes, or all if there are none. -/
inductive Projects (names : NameAliases) : Option String → List String → Prop
  | all : Projects names none []
  | fields {s : String} {paths : List Path} {fields : List String} : fields ≠ [] → Path.parseList s = .ok paths →
      (∀ p ∈ paths, p.steps = []) →
      List.Forall₂ (fun p field => Scope.resolve names p.head = some field) paths fields →
      Projects names (some s) fields

/-- The paths to attributes themselves have no aliases but those that stand for the attributes. -/
theorem checkPath_of_forall₂ {names : NameAliases} {paths : List Path} {fields : List String}
    (h : List.Forall₂ (fun p field => Scope.resolve names p.head = some field) paths fields)
    (hsteps : ∀ p ∈ paths, p.steps = []) : ∀ p ∈ paths, Expr.checkPath names p = .ok () := by
  induction h with
  | nil => exact nofun
  | cons hp _ ih =>
    obtain ⟨hfirst, hrest⟩ := List.forall_mem_cons.1 hsteps
    refine List.forall_mem_cons.2 ⟨?_, ih hrest⟩
    simp [Expr.checkPath, Path.names, hfirst, hp]

/-- What is put on of an item for a path. -/
def Scope.keep (s : Scope) (out : Item) (p : Path) : Item :=
  match Scope.resolve s.names p.head with
  | some name =>
    match s.item.find name with
    | some a => Fields.put name a out
    | none => out
  | none => out

theorem Scope.find_keep {s : Scope} {p : Path} {field : String} (h : Scope.resolve s.names p.head = some field)
    (out : Item) (k : String) :
    Fields.find (s.keep out p) k = if k = field then (s.item.find k).or (Fields.find out k) else Fields.find out k := by
  simp only [keep, h]
  cases hfield : s.item.find field with
  | none =>
    dsimp only
    split
    · rename_i hk
      rw [hk, hfield, Option.none_or]
    · rfl
  | some a =>
    dsimp only
    rw [Fields.find_put]
    by_cases hk : k = field
    · rw [if_pos hk.symm, if_pos hk, hk, hfield, Option.some_or]
    · rw [if_neg (Ne.symm hk), if_neg hk]

theorem Scope.ordered_keep {s : Scope} {out : Item} (h : Fields.Ordered out) (p : Path) :
    Fields.Ordered (s.keep out p) := by
  unfold keep
  split
  · split
    · exact h.put
    · exact h
  · exact h

/-- What is put together of an item for the paths to some attributes. -/
theorem Scope.find_project {s : Scope} {paths : List Path} {fields : List String}
    (h : List.Forall₂ (fun p field => Scope.resolve s.names p.head = some field) paths fields) :
    ∀ (out : Item), Fields.Ordered out → Fields.Ordered (paths.foldl s.keep out) ∧ ∀ k,
      Fields.find (paths.foldl s.keep out) k =
        if k ∈ fields then (s.item.find k).or (Fields.find out k) else Fields.find out k := by
  induction h with
  | nil =>
    intro out ho
    exact ⟨ho, fun k => rfl⟩
  | @cons p field paths fields hp _ ih =>
    intro out ho
    obtain ⟨hordered, hfind⟩ := ih (s.keep out p) (ordered_keep ho p)
    refine ⟨hordered, ?_⟩
    intro k
    rw [List.foldl_cons, hfind, find_keep hp]
    by_cases hk : k = field
    · cases s.item.find k <;> simp [hk]
    · simp [hk]

/-- The attributes of an item that are asked for; all if there are none. -/
def Item.only (fields : List String) (item : Item) : Item :=
  if fields.isEmpty then item else Fields.restrict item fields

/-- An attribute that is asked for is still there as it was. -/
theorem Item.find_only {fields : List String} {f : String} (item : Item) (hf : fields ≠ [] → f ∈ fields) :
    (item.only fields).find f = item.find f := by
  rw [only]
  split
  · rfl
  · rename_i hne
    rw [Fields.find_restrict, if_pos (hf (by simpa using hne))]

theorem Item.has_only {fields : List String} {f : String} (item : Item) (hf : fields ≠ [] → f ∈ fields) :
    (item.only fields).has f = item.has f := by
  rw [Fields.has, Fields.has, find_only item hf]

/-- **What is returned of an item** is the item with the attributes alone that the projection keeps. -/
theorem Projects.output {w : TableRead} {text : Option String} {fields : List String}
    (h : Projects w.names text fields)
    (hread : MemoryStore.parseOptional Path.parseList text = .ok w.projection) {item : Item}
    (ho : Fields.Ordered item) : w.output item = item.only fields := by
  cases h with
  | all =>
    have hw : w.projection = none := (Except.ok.inj hread).symm
    rw [TableRead.output, hw]
    rfl
  | @fields s paths fields hne hparse _ hresolve =>
    rw [MemoryStore.parseOptional, hparse] at hread
    have hw : w.projection = some paths := (Except.ok.inj hread).symm
    have hresolve' :
        List.Forall₂ (fun p field => Scope.resolve (w.scope item).names p.head = some field) paths fields := hresolve
    obtain ⟨hordered, hfind⟩ := Scope.find_project hresolve' [] Fields.ordered_nil
    have hempty : fields.isEmpty = false := by simpa using hne
    have hkept : item.only fields = Fields.restrict item fields := by simp [Item.only, hempty]
    rw [TableRead.output, hw, hkept]
    refine hordered.ext (ho.restrict fields) ?_
    intro k
    rw [hfind k, Fields.find_restrict, Fields.find_nil, Option.or_none]
    rfl

namespace Compile

/-- **A compiled definition** has the projection on its fields, also among more aliases. -/
theorem definition_projects {strict : Bool} {d : Definition} {fields : List String} {a a' : Aliases} {c : Compiled}
    (ha : a.Wordy) (hn : a.next + (d.aliasCount + fields.length) < Numeral.natBound)
    (h : definition strict d fields a = (.ok c, a')) {names : NameAliases} (hw : Within c.names names) :
    Projects names c.projection fields := by
  obtain ⟨required, alternatives, _, -, -, -, -, -, rfl⟩ := definition_parts ha hn h
  cases fields with
  | nil => exact .all
  | cons field fields =>
    refine .fields nofun (parse_projectionText ?_) ?_ ?_
    · intro name hname
      obtain ⟨i, -, -, rfl⟩ := @Fields.mem_numbered _ _ (field :: fields) _ _ hname
      exact Aliases.nameAlias_isNameAlias ha i
    · intro p hp
      obtain ⟨name, -, rfl⟩ := List.mem_map.1 hp
      rfl
    · refine List.forall₂_map_left_iff.2 (@Fields.forall₂_numbered _ _ _ (field :: fields) _ ?_)
      rintro ⟨name, f⟩ hentry
      -- each alias of the projection is found, since they are all different
      have hnodup := Fields.nodup_numbered (@Aliases.nameAlias_inj a.suffix) (a.next + d.aliasCount) (field :: fields)
      have hfound := hw _ _ (Fields.find_merge_of_mem hnodup hentry)
      obtain ⟨i, -, -, rfl⟩ := Fields.mem_numbered (List.mem_map_of_mem hentry)
      exact Condition.Refers.resolve ⟨Aliases.nameAlias_isNameAlias ha i, hfound⟩

end Compile

end RecordStore
