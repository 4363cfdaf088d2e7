import RecordStore.Proofs.Expression.Aliases
import RecordStore.Proofs.Query.Assembling
import RecordStore.Proofs.Query.Projecting

/-!
# Aliases are bound and used

A store refuses a text with an alias that stands for nothing as it does one that stands for something but is in no text.
`Tight texts names values` says that the aliases in some texts are just those of two maps.

The aliases of a condition are those of its tree (`Expr.parse_aliases`), and joining conditions puts their trees and
their maps together alike: `BoundCondition.Tight` says of a bound condition that the aliases of its tree are those of
its maps, and `Compile.Made.tight` that it holds of all conditions that are made.

**`Compile.definition_tight`**: a compiled definition is tight, with its projection.
-/

namespace RecordStore

open Token (nameAliases valueAliases)

/-! ## Texts and maps -/

/-- Texts that can be cut into tokens, and the aliases in them are those in two maps. -/
structure Tight (texts : List String) (names : NameAliases) (values : ValueAliases) : Prop where
  read : ∀ text ∈ texts, (Token.tokenize text).isOk = true
  names : ∀ s, s ∈ names.names ↔ s ∈ texts.flatMap nameAliases
  values : ∀ s, s ∈ values.names ↔ s ∈ texts.flatMap valueAliases

namespace Tight

variable {texts more : List String} {names names' : NameAliases} {values values' : ValueAliases}

theorem nil : Tight [] [] [] := ⟨nofun, fun _ => Iff.rfl, fun _ => Iff.rfl⟩

/-- No text has no alias. -/
theorem empty : Tight [""] [] [] := ⟨List.forall_mem_singleton.2 rfl, fun _ => Iff.rfl, fun _ => Iff.rfl⟩

/-- Texts of two kinds, with what the aliases of both stand for. -/
theorem merge (h : Tight texts names values) (h' : Tight more names' values') :
    Tight (texts ++ more) (names.merge names') (values.merge values') := by
  refine ⟨List.forall_mem_append.2 ⟨h.read, h'.read⟩, fun s => ?_, fun s => ?_⟩
  · rw [Fields.mem_names_merge, h.names, h'.names, List.flatMap_append, List.mem_append]
  · rw [Fields.mem_names_merge, h.values, h'.values, List.flatMap_append, List.mem_append]

/-- The order of texts does not matter, nor does an empty one. -/
theorem congr (h : Tight texts names values) (hsub : more ⊆ texts) (hrest : ∀ text ∈ texts, text ∈ more ∨ text = "") :
    Tight more names values := by
  have hmem : ∀ {aliases : String → List String}, aliases "" = [] → ∀ s,
      s ∈ texts.flatMap aliases ↔ s ∈ more.flatMap aliases := by
    intro aliases hempty s
    simp only [List.mem_flatMap]
    constructor
    · rintro ⟨text, htext, hs⟩
      rcases hrest text htext with hmore | rfl
      · exact ⟨text, hmore, hs⟩
      · rw [hempty] at hs
        cases hs
    · rintro ⟨text, htext, hs⟩
      exact ⟨text, hsub htext, hs⟩
  exact ⟨fun text htext => h.read text (hsub htext), fun s => (h.names s).trans (hmem rfl s),
    fun s => (h.values s).trans (hmem rfl s)⟩

/-- A map is empty just where no text has an alias of its kind. -/
theorem nonEmpty?_eq_none_iff {α : Type} {m : Fields α} {aliases : List String}
    (h : ∀ s, s ∈ m.names ↔ s ∈ aliases) : m.nonEmpty? = none ↔ aliases = [] := by
  cases m with
  | nil =>
    refine iff_of_true rfl (List.eq_nil_iff_forall_not_mem.2 fun s hs => ?_)
    exact List.not_mem_nil ((h s).2 hs)
  | cons entry m =>
    refine iff_of_false nofun fun hnil => ?_
    have hmem := (h entry.1).1 List.mem_cons_self
    rw [hnil] at hmem
    cases hmem

end Tight

/-! ## Operands of trees -/

namespace Condition

/-- The operands of a chain are those of its members. -/
theorem operands_chain {join : Expr → Expr → Expr} (hjoin : ∀ l r, (join l r).operands = l.operands ++ r.operands) :
    ∀ (es : List Expr) (e : Expr), (es.foldl join e).operands = (e :: es).flatMap Expr.operands
  | [], e => by rw [List.foldl_nil, List.flatMap_singleton]
  | l :: es, e => by
    rw [List.foldl_cons, operands_chain hjoin es, List.flatMap_cons, hjoin, List.append_assoc, List.flatMap_cons,
      List.flatMap_cons]

theorem operands_all : ∀ {cs : List Condition}, cs ≠ [] →
    (Condition.all cs).toExpr.operands = cs.flatMap (·.toExpr.operands)
  | [], h => absurd rfl h
  | c :: cs, _ => by
    rw [toExpr, toExprs_eq_map, operands_chain fun _ _ => rfl, List.flatMap_cons, List.flatMap_map, List.flatMap_cons]

theorem operands_any : ∀ {cs : List Condition}, cs ≠ [] →
    (Condition.any cs).toExpr.operands = cs.flatMap (·.toExpr.operands)
  | [], h => absurd rfl h
  | c :: cs, _ => by
    rw [toExpr, toExprs_eq_map, operands_chain fun _ _ => rfl, List.flatMap_cons, List.flatMap_map, List.flatMap_cons]

end Condition

open Condition (IsNameAlias IsValueAlias)

theorem Condition.IsNameAlias.isAliased {name : String} (h : IsNameAlias name) : IsAliased name := by
  obtain ⟨w, -, rfl⟩ := h
  simp [IsAliased]

/-- The tree of a test has its name alias and the aliases of its values. -/
theorem Test.condition_operands {test : Test} {keys : List String} (name : String)
    (hl : keys.length = test.values.length) :
    (∀ s, s ∈ (test.condition name keys).toExpr.names ↔ s = name) ∧
      ∀ s, s ∈ (test.condition name keys).toExpr.valueAliases ↔ s ∈ keys := by
  cases test with
  | compare op operand | beginsWith front | contains part | notContains part =>
    obtain ⟨key, rfl⟩ := List.length_eq_one_iff.1 hl
    simp [condition, Condition.toExpr, Expr.names, Expr.valueAliases, Expr.operands, Operand.names,
      Operand.valueAliases, Path.names]
  | between low high =>
    obtain ⟨l, h, rfl⟩ := List.length_eq_two.1 hl
    simp [condition, Condition.toExpr, Expr.names, Expr.valueAliases, Expr.operands, Operand.names,
      Operand.valueAliases, Path.names]
  | among first others =>
    obtain ⟨key, keys, rfl⟩ := List.exists_cons_of_length_eq_add_one hl
    have hoperands : ((among first others).condition name (key :: keys)).toExpr.operands =
        (key :: keys).flatMap fun v => [.path ⟨name, []⟩, .value v] := by
      rw [condition, Condition.toExpr_disjunction, Condition.operands_any (by simp), List.flatMap_map]
      rfl
    simp [Expr.names, Expr.valueAliases, hoperands, Operand.names, Operand.valueAliases, Path.names,
      List.flatMap_assoc]
  | «exists» | notExists =>
    obtain rfl := List.length_eq_zero_iff.1 hl
    simp [condition, Condition.toExpr, Expr.names, Expr.valueAliases, Expr.operands, Operand.names,
      Operand.valueAliases, Path.names]

/-! ## Conditions -/

namespace BoundCondition

/-- The condition can be read, and its aliases are those in its maps. -/
structure Tight (b : BoundCondition) : Prop where
  sound : b.condition.Sound
  names : ∀ s, s ∈ b.names.names ↔ s ∈ b.condition.toExpr.nameAliases
  values : ∀ s, s ∈ b.values.names ↔ s ∈ b.condition.toExpr.valueAliases

variable {bs : List BoundCondition}

theorem soundAll_of_tight (h : ∀ b ∈ bs, b.Tight) : Condition.SoundAll (bs.map (·.condition)) := by
  refine Condition.soundAll_iff.2 ?_
  rw [List.forall_mem_map]
  exact fun b hb => (h b hb).sound

/-- A tree with the operands of some conditions has the aliases in the maps of all of them. -/
theorem aliases_of_operands {e : Expr} (h : ∀ b ∈ bs, b.Tight)
    (he : e.operands = bs.flatMap (·.condition.toExpr.operands)) :
    (∀ s, s ∈ (allNames bs).names ↔ s ∈ e.nameAliases) ∧
      ∀ s, s ∈ (allValues bs).names ↔ s ∈ e.valueAliases := by
  constructor
  · intro s
    rw [mem_allNames, Expr.nameAliases, Expr.names, he, List.flatMap_assoc, List.filter_flatMap, List.mem_flatMap]
    exact exists_congr fun b => and_congr_right fun hb => (h b hb).names s
  · intro s
    rw [mem_allValues, Expr.valueAliases, he, List.flatMap_assoc, List.mem_flatMap]
    exact exists_congr fun b => and_congr_right fun hb => (h b hb).values s

/-- Tight conditions that are joined are tight. -/
theorem Tight.all {b : BoundCondition} (h : ∀ b ∈ bs, b.Tight) (hb : BoundCondition.all bs = some b) : b.Tight := by
  obtain ⟨hne, rfl⟩ := eq_of_all hb
  have hne' : bs.map (·.condition) ≠ [] := by simpa using hne
  have hoperands : (Condition.conjunction (bs.map (·.condition))).toExpr.operands =
      bs.flatMap (·.condition.toExpr.operands) := by
    rw [Condition.toExpr_conjunction, Condition.operands_all hne', List.flatMap_map]
  obtain ⟨hnames, hvalues⟩ := aliases_of_operands h hoperands
  exact ⟨Condition.sound_conjunction hne' (soundAll_of_tight h), hnames, hvalues⟩

end BoundCondition

namespace Compile

variable {strict : Bool} {a a' : Aliases} {n : Nat} {fields : List String} {bs : List BoundCondition}

theorem bind_tight (ha : a.Wordy) (field : String) (test : Test) : (test.bind field a).1.Tight := by
  obtain ⟨name, keys, hname, hl, hkeys, hcondition, hnames, hvalues⟩ := Test.bind_drawn ha field test
  obtain ⟨hn, hv⟩ := Test.condition_operands name hl
  refine ⟨hcondition ▸ Test.condition_sound hname hl hkeys, fun s => ?_, fun s => ?_⟩
  · rw [hnames, hcondition, Expr.nameAliases, List.mem_filter, hn]
    have hsingle : s ∈ Fields.names [(name, field)] ↔ s = name := List.mem_singleton
    rw [hsingle, decide_eq_true_iff]
    exact ⟨fun hs => ⟨hs, hs ▸ hname.isAliased⟩, And.left⟩
  · rw [hvalues, hcondition, hv]

/-- **All conditions that are made are tight.** -/
theorem Made.tight (h : Made a n fields bs a') : a.Wordy → ∀ b ∈ bs, b.Tight := by
  induction h with
  | nil => exact fun _ => nofun
  | bind field test a => exact fun ha => List.forall_mem_singleton.2 (bind_tight ha field test)
  | append h _ ih ih' => exact fun ha => List.forall_mem_append.2 ⟨ih ha, ih' (h.wordy ha)⟩
  | all _ hb ih => exact fun ha => List.forall_mem_singleton.2 (.all (ih ha) hb)

/-! ## Definitions -/

theorem operands_sides {required alternatives : List Condition} (hne : required ≠ [] ∨ alternatives ≠ []) :
    (sides required alternatives).operands = (required ++ alternatives).flatMap (·.toExpr.operands) := by
  rw [List.flatMap_append]
  cases alternatives with
  | nil =>
    rw [List.flatMap_nil, List.append_nil]
    exact Condition.operands_all (hne.resolve_right (by simp))
  | cons c cs =>
    cases required with
    | nil => exact Condition.operands_any (by simp)
    | cons r rs =>
      have hboth : (sides (r :: rs) (c :: cs)).operands =
        (Condition.all (r :: rs)).toExpr.operands ++ (Condition.any (c :: cs)).toExpr.operands := rfl
      rw [hboth, Condition.operands_all (by simp), Condition.operands_any (by simp)]

/-- The text of both sides, with what the aliases of all conditions stand for. -/
theorem joinSides_tight {required alternatives : List BoundCondition} (h : ∀ b ∈ required ++ alternatives, b.Tight) :
    Tight [joinSides required alternatives] (BoundCondition.allNames (required ++ alternatives))
      (BoundCondition.allValues (required ++ alternatives)) := by
  by_cases hnone : required = [] ∧ alternatives = []
  · obtain ⟨rfl, rfl⟩ := hnone
    exact .empty
  · have hne : required ≠ [] ∨ alternatives ≠ [] := Classical.not_and_iff_not_or_not.1 hnone
    have hne' : required.map (·.condition) ≠ [] ∨ alternatives.map (·.condition) ≠ [] := by simpa using hne
    obtain ⟨hr, hs⟩ := List.forall_mem_append.1 h
    have hparse := parse_joinSides (BoundCondition.soundAll_of_tight hr) (BoundCondition.soundAll_of_tight hs) hne
    have hoperands := operands_sides hne'
    rw [← List.map_append, List.flatMap_map] at hoperands
    obtain ⟨hnames, hvalues⟩ := BoundCondition.aliases_of_operands h hoperands
    obtain ⟨hread, hn, hv⟩ := Expr.parse_aliases hparse
    refine ⟨List.forall_mem_singleton.2 hread, fun s => ?_, fun s => ?_⟩
    · rw [hnames, List.flatMap_singleton, hn]
    · rw [hvalues, List.flatMap_singleton, hv]

end Compile

namespace Compile

variable {strict : Bool} {a a' : Aliases} {fields : List String}

/-- The text of a projection has the aliases that it is made of. -/
theorem projectionText_aliases {name : String} {names : List String} (h : ∀ n ∈ name :: names, IsNameAlias n) :
    (Token.tokenize (", ".intercalate (name :: names))).isOk = true ∧
      nameAliases (", ".intercalate (name :: names)) = name :: names ∧
      valueAliases (", ".intercalate (name :: names)) = [] := by
  obtain ⟨hread, hn, hv⟩ := Path.parseList_aliases (parse_projectionText h)
  have hnames : ((name :: names).map fun n => Path.mk n []).flatMap Path.names = name :: names := by
    rw [List.flatMap_map]
    exact List.flatMap_singleton' _
  refine ⟨hread, hn.trans ?_, hv⟩
  rw [hnames]
  exact List.filter_eq_self.2 fun n hn => decide_eq_true (h n hn).isAliased

theorem isNameAlias_of_mem_bindNames : ∀ (fields : List String) {a : Aliases}, a.Wordy →
    ∀ name ∈ (bindNames fields a).1.map (·.1), IsNameAlias name
  | [], _, _ => nofun
  | _ :: fields, a, ha => List.forall_mem_cons.2 ⟨Aliases.nameAlias_isNameAlias ha a.next,
      isNameAlias_of_mem_bindNames fields (a := a.advance) ha⟩

/-- A projection, with what its aliases stand for. -/
theorem projection_tight (ha : a.Wordy) (fields : List String) :
    Tight (projectionText ((bindNames fields a).1.map (·.1))).toList (bindNames fields a).1 [] := by
  have halias := isNameAlias_of_mem_bindNames fields ha
  generalize (bindNames fields a).1 = projected at halias
  cases projected with
  | nil => exact .nil
  | cons entry projected =>
    obtain ⟨hread, hnames, hvalues⟩ := projectionText_aliases halias
    have htext : (projectionText ((entry :: projected).map (·.1))).toList =
      [", ".intercalate (entry.1 :: projected.map (·.1))] := rfl
    rw [htext]
    refine ⟨List.forall_mem_singleton.2 hread, fun s => ?_, fun s => ?_⟩
    · rw [List.flatMap_singleton, hnames]
      rfl
    · rw [List.flatMap_singleton, hvalues]
      rfl

end Compile

/-- The texts of a compiled definition. -/
def Compiled.texts (c : Compiled) : List String := c.expression :: c.projection.toList

/-- **A compiled definition is tight.** -/
theorem Compile.definition_tight {strict : Bool} {d : Definition} {fields : List String} {a a' : Aliases}
    {c : Compiled} (ha : a.Wordy) (h : definition strict d fields a = (.ok c, a')) :
    Tight c.texts c.names c.values := by
  obtain ⟨required, alternatives, b, hmade, rfl⟩ := definition_made h
  exact (joinSides_tight (hmade.tight ha)).merge (projection_tight (hmade.wordy ha) fields)

/-- Behind a compiled definition, aliases can be drawn as before it. -/
theorem Compile.wordy_of_definition {strict : Bool} {d : Definition} {fields : List String} {a a' : Aliases}
    {c : Compiled} (ha : a.Wordy) (h : definition strict d fields a = (.ok c, a')) : a'.Wordy := by
  have hwordy := (@definition_follows strict d fields a).wordy ha
  rw [h] at hwordy
  exact hwordy

end RecordStore
