import RecordStore.Proofs.Query.Drawing

/-!
# What a condition on keys is compiled to

`Expr.IsKeyCondition op e` says that `e` asks about a key what the operator `op` does: a comparison other than `<>`, a
range or a beginning, of the alias of a name against aliases of values. Each operator of a definition that passes
`Compile.checkKey` is compiled to such a condition, and a leaf to the conjunction of those of its operators.

How these are joined is not checked. **`Compile.keyCondition_conjuncts`**: what a condition on keys is read as has just
the conditions of its operators for conjuncts as long as there is at most one alternative, and with more of them an OR
behind those of the required side. An operator that is not for keys is refused wherever it is, and draws no alias.
-/

namespace RecordStore

open Condition (IsNameAlias IsValueAlias)

/-! ## Conditions of one operator -/

/-- What an operator for keys asks, of the alias of a name against aliases of values. -/
inductive Expr.IsKeyCondition : Operator → Expr → Prop
  | compare {op : Comparison} {name value : String} : op ≠ .ne → IsNameAlias name → IsValueAlias value →
      IsKeyCondition (.compare op) (.compare (.path ⟨name, []⟩) op (.value value))
  | between {name low high : String} : IsNameAlias name → IsValueAlias low → IsValueAlias high →
      IsKeyCondition .between (.between (.path ⟨name, []⟩) (.value low) (.value high))
  | beginsWith {name front : String} : IsNameAlias name → IsValueAlias front →
      IsKeyCondition .beginsWith (.call .beginsWith [.path ⟨name, []⟩, .value front])

/-- An expression is what a tag asks about a key. -/
def Expr.IsAskedBy (tag : String) (e : Expr) : Prop := ∃ op, Operator.ofTag? tag = some op ∧ e.IsKeyCondition op

/-- The tag is that of an operator that may be used on a key. -/
def Operator.IsKeyTag (tag : String) : Prop := ∃ op, Operator.ofTag? tag = some op ∧ op.isForKeys = true

theorem Operator.ofTag?_tag (op : Operator) : Operator.ofTag? op.tag = some op := by
  cases op with
  | compare op => cases op <;> rfl
  | _ => rfl

theorem Expr.IsKeyCondition.conjuncts {op : Operator} {e : Expr} (h : e.IsKeyCondition op) : e.conjuncts = [e] := by
  cases h <;> rfl

/-- All that some tags ask are conditions on keys. -/
theorem Expr.isKeyCondition_of_asked {tags : List String} {es : List Expr} (h : List.Forall₂ Expr.IsAskedBy tags es) :
    ∀ e ∈ es, ∃ op, e.IsKeyCondition op := by
  induction h with
  | nil => exact nofun
  | cons he _ ih =>
    obtain ⟨op, -, hkey⟩ := he
    exact List.forall_mem_cons.2 ⟨⟨op, hkey⟩, ih⟩

namespace Test

variable {field : String} {operand : Json} {test : Test}

theorem checkBetween_ok (h : checkBetween field operand = .ok test) : ∃ low high, test = .between low high := by
  unfold checkBetween at h
  split at h
  · split at h
    · cases h; exact ⟨_, _, rfl⟩
    · cases h
    · cases h
  · cases h
  · cases h

/-- The condition of an operator for keys. -/
theorem condition_isKeyCondition {op : Operator} (hop : op.isForKeys = true) (h : check field op operand = .ok test)
    {name : String} (hname : IsNameAlias name) {keys : List String} (hl : keys.length = test.values.length)
    (hv : ∀ key ∈ keys, IsValueAlias key) : (test.condition name keys).toExpr.IsKeyCondition op := by
  cases op with
  | compare op =>
    cases h
    obtain ⟨key, rfl⟩ := List.length_eq_one_iff.1 hl
    refine .compare ?_ hname (hv key List.mem_cons_self)
    rintro rfl
    cases hop
  | between =>
    obtain ⟨low, high, rfl⟩ := checkBetween_ok h
    obtain ⟨l, h, rfl⟩ := List.length_eq_two.1 hl
    exact .between hname (hv l (by simp)) (hv h (by simp))
  | beginsWith =>
    simp only [check] at h
    split at h
    · cases h
      obtain ⟨key, rfl⟩ := List.length_eq_one_iff.1 hl
      exact .beginsWith hname (hv key List.mem_cons_self)
    · cases h
  | contains | notContains | among | «exists» | notExists => cases hop

end Test

/-! ## Conditions that are put together -/

namespace BoundCondition

/-- The condition can be read, and its conjuncts are what some tags ask about keys. -/
structure AsksKeys (tags : List String) (b : BoundCondition) : Prop where
  sound : b.condition.Sound
  conjuncts : List.Forall₂ Expr.IsAskedBy tags b.condition.toExpr.conjuncts

variable {α : Type} {tags : α → List String} {xs : List α} {bs : List BoundCondition}

theorem AsksKeys.soundAll (h : List.Forall₂ (fun x b => AsksKeys (tags x) b) xs bs) :
    Condition.SoundAll (bs.map (·.condition)) := by
  induction h with
  | nil => trivial
  | cons hb _ ih => exact ⟨hb.sound, ih⟩

/-- The conjuncts of conditions are what their tags ask, in turn. -/
theorem AsksKeys.flatten (h : List.Forall₂ (fun x b => AsksKeys (tags x) b) xs bs) :
    List.Forall₂ Expr.IsAskedBy (xs.flatMap tags) ((bs.map (·.condition)).flatMap (·.toExpr.conjuncts)) := by
  induction h with
  | nil => exact .nil
  | cons hb _ ih => exact List.rel_append hb.conjuncts ih

/-- Conditions that are joined ask what they ask apart. -/
theorem AsksKeys.all {b : BoundCondition} (h : List.Forall₂ (fun x b => AsksKeys (tags x) b) xs bs)
    (hb : BoundCondition.all bs = some b) : b.AsksKeys (xs.flatMap tags) := by
  obtain ⟨hne, heq⟩ := eq_of_all hb
  have hcondition : b.condition = .conjunction (bs.map (·.condition)) := congrArg (·.condition) heq
  have hne' : bs.map (·.condition) ≠ [] := by simpa using hne
  refine ⟨hcondition ▸ Condition.sound_conjunction hne' (soundAll h), ?_⟩
  rw [hcondition, Condition.toExpr_conjunction, Condition.conjuncts_all hne']
  exact flatten h

end BoundCondition

open BoundCondition (AsksKeys)
open Operator (IsKeyTag)

namespace Compile

open Call (bind_ok)

variable {strict : Bool} {a a' : Aliases}

theorem bind_asksKeys {field : String} {op : Operator} {operand : Json} {test : Test} (ha : a.Wordy) {tag : String}
    (htag : Operator.ofTag? tag = some op) (hop : op.isForKeys = true) (h : Test.check field op operand = .ok test) :
    (test.bind field a).1.AsksKeys [tag] := by
  obtain ⟨name, keys, hname, hl, hv, hcondition, -⟩ := Test.bind_drawn ha field test
  have hkey := Test.condition_isKeyCondition hop h hname hl hv
  refine ⟨hcondition ▸ Test.condition_sound hname hl hv, ?_⟩
  rw [hcondition, hkey.conjuncts]
  exact .cons ⟨op, htag, hkey⟩ .nil

theorem clause_asksKeys {field : String} {c : Clause} {o : Option BoundCondition} (ha : a.Wordy)
    (hc : IsKeyTag c.tag) (h : clause strict field c a = (.ok o, a')) : ∃ b, o = some b ∧ b.AsksKeys [c.tag] := by
  obtain ⟨op, htag, hop⟩ := hc
  obtain ⟨t, a₁, hcheck, h⟩ := bind_ok h
  obtain ⟨ht, rfl⟩ := ofExcept_ok hcheck
  simp only [Test.checkClause, htag] at ht
  obtain ⟨test, htest, rfl⟩ := map_eq_ok.1 ht
  obtain ⟨b, a₂, hlift, h⟩ := bind_ok h
  obtain ⟨rfl, -⟩ := pure_ok h
  have hb := bind_asksKeys ha htag hop htest
  rw [lift_ok hlift] at hb
  exact ⟨b, rfl, hb⟩

theorem clauses_asksKeys {field : String} : ∀ {cs : List Clause} {a a' : Aliases} {bs : List BoundCondition},
    a.Wordy → (∀ c ∈ cs, IsKeyTag c.tag) → clauses strict field cs a = (.ok bs, a') →
    List.Forall₂ (fun c b => AsksKeys [c.tag] b) cs bs
  | [], _, _, _, _, _, h => by
    obtain ⟨rfl, -⟩ := pure_ok h
    exact .nil
  | c :: cs, a, a', bs, ha, hcs, h => by
    obtain ⟨hc, hcs⟩ := List.forall_mem_cons.1 hcs
    have hwordy := (@clause_follows strict field c a).wordy ha
    obtain ⟨o, a₁, hclause, h⟩ := bind_ok h
    obtain ⟨bs, a₂, hclauses, h⟩ := bind_ok h
    obtain ⟨rfl, -⟩ := pure_ok h
    rw [hclause] at hwordy
    obtain ⟨b, rfl, hb⟩ := clause_asksKeys ha hc hclause
    exact .cons hb (clauses_asksKeys hwordy hcs hclauses)

/-- What is asked of a field. -/
theorem conditions_asksKeys {l : Leaf} {bs : List BoundCondition} (ha : a.Wordy) (hl : ∀ tag ∈ l.tags, IsKeyTag tag)
    (h : conditions strict l a = (.ok bs, a')) : List.Forall₂ (fun tag b => AsksKeys [tag] b) l.tags bs := by
  obtain ⟨field, condition⟩ := l
  cases condition with
  | equals value =>
    obtain ⟨b, a₁, hlift, h⟩ := bind_ok h
    obtain ⟨rfl, -⟩ := pure_ok h
    have hcheck : Test.check field (.compare .eq) value = .ok (.compare .eq (.ofJson value)) := rfl
    have hb := bind_asksKeys ha (Operator.ofTag?_tag (.compare .eq)) rfl hcheck
    have hdraw : (Test.compare .eq (.ofJson value)).bind field a = (b, a₁) := lift_ok hlift
    rw [hdraw] at hb
    exact .cons hb .nil
  | operators cs =>
    refine List.forall₂_map_left_iff.2 (clauses_asksKeys ha (fun c hc => hl _ ?_) h)
    exact List.mem_map_of_mem hc

theorem leaf_asksKeys {l : Leaf} {b : BoundCondition} (ha : a.Wordy) (hl : ∀ tag ∈ l.tags, IsKeyTag tag)
    (h : leaf strict l a = (.ok b, a')) : b.AsksKeys l.tags := by
  obtain ⟨bs, a₁, hconditions, h⟩ := bind_ok h
  have hbs := conditions_asksKeys ha hl hconditions
  cases hall : BoundCondition.all bs with
  | none => rw [hall] at h; cases (ofExcept_ok h).1
  | some c =>
    rw [hall] at h
    obtain ⟨rfl, -⟩ := pure_ok h
    have := AsksKeys.all hbs hall
    rwa [List.flatMap_singleton'] at this

theorem leaves_asksKeys : ∀ {ls : List Leaf} {a a' : Aliases} {bs : List BoundCondition}, a.Wordy →
    (∀ l ∈ ls, ∀ tag ∈ l.tags, IsKeyTag tag) → leaves strict ls a = (.ok bs, a') →
    List.Forall₂ (fun l b => AsksKeys l.tags b) ls bs
  | [], _, _, _, _, _, h => by
    obtain ⟨rfl, -⟩ := pure_ok h
    exact .nil
  | l :: ls, a, a', bs, ha, hls, h => by
    obtain ⟨hl, hls⟩ := List.forall_mem_cons.1 hls
    have hwordy := (@leaf_follows strict l a).wordy ha
    obtain ⟨b, a₁, hleaf, h⟩ := bind_ok h
    obtain ⟨bs, a₂, hleaves, h⟩ := bind_ok h
    obtain ⟨rfl, -⟩ := pure_ok h
    rw [hleaf] at hwordy
    exact .cons (leaf_asksKeys ha hl hleaf) (leaves_asksKeys hwordy hls hleaves)

/-! ## What is checked -/

/-- A leaf passes if its tags are for keys, and is refused for the first that is not. -/
theorem checkKeyLeaf_cases (l : Leaf) : (checkKeyLeaf l = .ok () ∧ ∀ tag ∈ l.tags, IsKeyTag tag) ∨
    ∃ tag ∈ l.tags, ¬ IsKeyTag tag ∧ checkKeyLeaf l = .error (.notForKeys l.field tag) := by
  have hkey (tag : String) : (!(Operator.ofTag? tag).any Operator.isForKeys) = true ↔ ¬ IsKeyTag tag := by
    simp [IsKeyTag, Option.any_eq_false]
  unfold checkKeyLeaf
  split
  · rename_i tag h
    have hfound := List.find?_some h
    exact .inr ⟨tag, List.mem_of_find?_eq_some h, (hkey tag).1 hfound, rfl⟩
  · rename_i h
    exact .inl ⟨rfl, fun tag htag => not_not.1 fun hnot => List.find?_eq_none.1 h tag htag ((hkey tag).2 hnot)⟩

/-- Leaves pass if all their tags are for keys, and are refused for one that is not. -/
theorem checkKeyLeaves_cases : ∀ ls : List Leaf,
    (ls.forM checkKeyLeaf = .ok () ∧ ∀ l ∈ ls, ∀ tag ∈ l.tags, IsKeyTag tag) ∨
      ∃ l ∈ ls, ∃ tag ∈ l.tags, ¬ IsKeyTag tag ∧ ls.forM checkKeyLeaf = .error (.notForKeys l.field tag)
  | [] => .inl ⟨rfl, nofun⟩
  | l :: ls => by
    rw [List.forM_eq_forM, List.forM_cons]
    rcases checkKeyLeaf_cases l with ⟨h, hl⟩ | ⟨tag, htag, hnot, h⟩
    · rw [h]
      rcases checkKeyLeaves_cases ls with ⟨hrest, hls⟩ | ⟨l', hl', tag, htag, hnot, hrest⟩
      · exact .inl ⟨hrest, List.forall_mem_cons.2 ⟨hl, hls⟩⟩
      · exact .inr ⟨l', List.mem_cons_of_mem l hl', tag, htag, hnot, hrest⟩
    · rw [h]
      exact .inr ⟨l, List.mem_cons_self, tag, htag, hnot, rfl⟩

/-! ## How the sides are joined -/

variable {required alternatives : List Condition}

/-- The conjuncts of alternatives stand behind those of the other side. -/
theorem conjuncts_sides (ha : alternatives ≠ []) : (sides required alternatives).conjuncts =
    required.flatMap (·.toExpr.conjuncts) ++ (Condition.any alternatives).toExpr.conjuncts := by
  obtain ⟨c, cs, rfl⟩ := List.exists_cons_of_ne_nil ha
  cases required with
  | nil => rfl
  | cons first rest =>
    have hsides : sides (first :: rest) (c :: cs) =
        .and (Condition.all (first :: rest)).toExpr (Condition.any (c :: cs)).toExpr := rfl
    rw [hsides, Expr.conjuncts, Condition.conjuncts_all (List.cons_ne_nil first rest)]

/-- The conjuncts of both sides are those of all members if there is at most one alternative. -/
theorem conjuncts_sides_single (h : alternatives.length ≤ 1) (hne : required ≠ [] ∨ alternatives ≠ []) :
    (sides required alternatives).conjuncts = (required ++ alternatives).flatMap (·.toExpr.conjuncts) := by
  match alternatives, h with
  | [], _ => rw [sides, Condition.conjuncts_all (hne.resolve_right fun h => h rfl), List.append_nil]
  | [c], _ =>
    -- a disjunction of one member is that member
    have hone : (Condition.any [c]).toExpr = c.toExpr := by rw [Condition.toExpr, Condition.toExprs, List.foldl_nil]
    rw [conjuncts_sides (List.cons_ne_nil c []), hone, List.flatMap_append, List.flatMap_singleton]

/-- A disjunction of several members is an OR. -/
theorem toExpr_any_several (h : 2 ≤ alternatives.length) : ∃ l r, (Condition.any alternatives).toExpr = .or l r := by
  match alternatives, h with
  | c :: d :: cs, _ =>
    rw [Condition.toExpr, Condition.toExprs_eq_map]
    rcases List.eq_nil_or_concat ((d :: cs).map Condition.toExpr) with hnil | ⟨es, e, hconcat⟩
    · cases hnil
    · rw [hconcat, List.concat_eq_append, List.foldl_append]
      exact ⟨_, e, rfl⟩

/-- Several alternatives are an OR behind the conjuncts of the other side. -/
theorem conjuncts_sides_several (h : 2 ≤ alternatives.length) :
    ∃ l r, (sides required alternatives).conjuncts = required.flatMap (·.toExpr.conjuncts) ++ [.or l r] := by
  obtain ⟨l, r, hor⟩ := @toExpr_any_several alternatives h
  have hne : alternatives ≠ [] := by
    rintro rfl
    cases h
  have hsingle : (Expr.or l r).conjuncts = [.or l r] := by
    rw [Expr.conjuncts]
    intro _ _ hand
    cases hand
  exact ⟨l, r, by rw [conjuncts_sides hne, hor, hsingle]⟩

/-! ## Conditions on keys -/

/-- The two sides that a definition for keys is compiled to. -/
theorem keyCondition_sides {d : Definition} {fields : List String} {c : Compiled} (ha : a.Wordy)
    (h : keyCondition strict d fields a = (.ok c, a')) :
    ∃ required alternatives, c.expression = joinSides required alternatives ∧
      List.Forall₂ (fun l b => AsksKeys l.tags b) d.required required ∧
      List.Forall₂ (fun l b => AsksKeys l.tags b) d.alternatives alternatives := by
  obtain ⟨_, _, hcheck, h⟩ := bind_ok h
  obtain ⟨hcheck, rfl⟩ := ofExcept_ok hcheck
  have hkeys : ∀ l ∈ d.all, ∀ tag ∈ l.tags, IsKeyTag tag := by
    rcases checkKeyLeaves_cases d.all with ⟨-, hkeys⟩ | ⟨l, -, tag, -, -, hrefused⟩
    · exact hkeys
    · rw [checkKey, hrefused] at hcheck
      cases hcheck
  obtain ⟨hrequired, halternatives⟩ := List.forall_mem_append.1 hkeys
  obtain ⟨required, alternatives, _, a₁, _, hr, hs, -, rfl⟩ := definition_ok h
  have hwordy := (@leaves_follows strict d.required a).wordy ha
  rw [hr] at hwordy
  exact ⟨required, alternatives, rfl, leaves_asksKeys ha hrequired hr, leaves_asksKeys hwordy halternatives hs⟩

/-- What a condition on keys is read as: two sides, whose conjuncts are what the tags on each side ask. -/
theorem keyCondition_read {d : Definition} {fields : List String} {c : Compiled} (ha : a.Wordy)
    (h : keyCondition strict d fields a = (.ok c, a')) (hne : c.expression ≠ "") :
    ∃ required alternatives : List Condition, Expr.parse c.expression = .ok (sides required alternatives) ∧
      (required ≠ [] ∨ alternatives ≠ []) ∧ alternatives.length = d.alternatives.length ∧
      List.Forall₂ Expr.IsAskedBy (d.required.flatMap Leaf.tags) (required.flatMap (·.toExpr.conjuncts)) ∧
      List.Forall₂ Expr.IsAskedBy (d.alternatives.flatMap Leaf.tags) (alternatives.flatMap (·.toExpr.conjuncts)) := by
  obtain ⟨required, alternatives, hc, hr, hs⟩ := keyCondition_sides ha h
  have hsome : required ≠ [] ∨ alternatives ≠ [] := by
    refine Classical.not_and_iff_not_or_not.1 ?_
    rintro ⟨rfl, rfl⟩
    exact hne hc
  refine ⟨required.map (·.condition), alternatives.map (·.condition), ?_, by simpa using hsome,
    by rw [List.length_map, hs.length_eq], AsksKeys.flatten hr, AsksKeys.flatten hs⟩
  rw [hc]
  exact parse_joinSides (AsksKeys.soundAll hr) (AsksKeys.soundAll hs) hsome

/-- A definition with a tag that is not for keys is refused for such a tag, and draws nothing. -/
theorem keyCondition_refused {d : Definition} {l : Leaf} (hl : l ∈ d.all) {tag : String} (htag : tag ∈ l.tags)
    (hnot : ¬ IsKeyTag tag) (fields : List String) (a : Aliases) :
    ∃ l ∈ d.all, ∃ tag ∈ l.tags, ¬ IsKeyTag tag ∧
      keyCondition strict d fields a = (.error (.notForKeys l.field tag), a) := by
  rcases checkKeyLeaves_cases d.all with ⟨-, hkeys⟩ | ⟨l', hl', tag', htag', hnot', hrefused⟩
  · exact absurd (hkeys l hl tag htag) hnot
  · refine ⟨l', hl', tag', htag', hnot', ?_⟩
    rw [keyCondition, checkKey, hrefused]
    rfl

/--
**What a condition on keys is read as.** Its conjuncts are what the tags of the definition ask, in turn, just if there
is at most one alternative; of several an OR is made, which stands behind the conjuncts of the required side. If some
tag is not that of an operator for keys, the definition is refused for one that is not, and draws no alias.
-/
theorem keyCondition_conjuncts (strict : Bool) (d : Definition) (fields : List String) (start : Nat) (suffix : String) :
    (∀ c a', keyCondition strict d fields (.startingAt start suffix) = (.ok c, a') → c.expression ≠ "" →
      ∃ e, Expr.parse c.expression = .ok e ∧
        (List.Forall₂ Expr.IsAskedBy (d.all.flatMap Leaf.tags) e.conjuncts ↔ d.alternatives.length ≤ 1) ∧
        (2 ≤ d.alternatives.length → ∃ asked l r, e.conjuncts = asked ++ [.or l r] ∧
          List.Forall₂ Expr.IsAskedBy (d.required.flatMap Leaf.tags) asked)) ∧
    ∀ l ∈ d.all, ∀ tag ∈ l.tags, ¬ IsKeyTag tag → ∃ l ∈ d.all, ∃ tag ∈ l.tags, ¬ IsKeyTag tag ∧
      keyCondition strict d fields (.startingAt start suffix) =
        (.error (.notForKeys l.field tag), .startingAt start suffix) := by
  refine ⟨fun c a' h hne => ?_, fun l hl tag htag hnot => keyCondition_refused hl htag hnot fields _⟩
  obtain ⟨required, alternatives, hparse, hsome, hlength, hr, hs⟩ :=
    keyCondition_read (Aliases.startingAt_wordy start suffix) h hne
  refine ⟨_, hparse, ⟨fun hall => ?_, fun hfew => ?_⟩, fun hmany => ?_⟩
  · by_contra hmany
    obtain ⟨l, r, hconjuncts⟩ := @conjuncts_sides_several required alternatives (by omega)
    -- no operator for keys asks for the OR of several alternatives
    obtain ⟨op, hop⟩ := Expr.isKeyCondition_of_asked hall (.or l r)
      (hconjuncts ▸ List.mem_append_right _ List.mem_cons_self)
    cases hop
  · rw [conjuncts_sides_single (hlength ▸ hfew) hsome, List.flatMap_append, Definition.all, List.flatMap_append]
    exact List.rel_append hr hs
  · obtain ⟨l, r, hconjuncts⟩ := @conjuncts_sides_several required alternatives (by omega)
    exact ⟨_, l, r, hconjuncts, hr⟩

/-- A range beside the value of another field, and beside an operator that is not for keys. -/
theorem keyCondition_conjuncts_range :
    let range : Leaf := .op "n" .between (.array [.number (.whole 1), .number (.whole 2)])
    (∃ c a' e, keyCondition false ⟨[range, .equals "p" (.string "x")], [], []⟩ [] (.startingAt 0 "t") = (.ok c, a') ∧
      Expr.parse c.expression = .ok e ∧ List.Forall₂ Expr.IsAskedBy ["$between", "$eq"] e.conjuncts) ∧
    ∃ field tag, keyCondition false ⟨[range], [], [[.op "q" .among (.array [.null])]]⟩ [] (.startingAt 0 "t") =
      (.error (.notForKeys field tag), .startingAt 0 "t") := by
  intro range
  obtain ⟨hjoined, -⟩ := keyCondition_conjuncts false ⟨[range, .equals "p" (.string "x")], [], []⟩ [] 0 "t"
  obtain ⟨-, hrefused⟩ := keyCondition_conjuncts false ⟨[range], [], [[.op "q" .among (.array [.null])]]⟩ [] 0 "t"
  constructor
  · obtain ⟨e, hparse, hasked, -⟩ := hjoined _ _ rfl (by decide)
    exact ⟨_, _, e, rfl, hparse, hasked.2 (by decide)⟩
  · have hnot : ¬ IsKeyTag "$in" := by
      rintro ⟨op, hop, hkey⟩
      cases hop
      cases hkey
    obtain ⟨l, -, tag, -, -, h⟩ := hrefused _ (List.mem_cons_of_mem _ List.mem_cons_self) "$in" List.mem_cons_self hnot
    exact ⟨l.field, tag, h⟩

/-- Two alternatives are let through, and make an OR. -/
theorem alternatives_joined :
    let d : Definition := ⟨[], [], [[.equals "a" (.number (.whole 1))], [.equals "b" (.number (.whole 2))]]⟩
    ∃ c a', keyCondition true d [] (.startingAt 0 "t") = (.ok c, a') ∧
      c.expression = "#n0t = :v1t OR #n2t = :v3t" ∧
      ∃ e l r, Expr.parse c.expression = .ok e ∧ .or l r ∈ e.conjuncts := by
  intro d
  have h : keyCondition true d [] (.startingAt 0 "t") = _ := rfl
  refine ⟨_, _, h, rfl, ?_⟩
  obtain ⟨required, alternatives, hparse, -, hlength, -⟩ :=
    keyCondition_read (Aliases.startingAt_wordy 0 "t") h (by decide)
  obtain ⟨l, r, hconjuncts⟩ := @conjuncts_sides_several required alternatives (by rw [hlength]; decide)
  exact ⟨_, l, r, hparse, hconjuncts ▸ List.mem_append_right _ List.mem_cons_self⟩

end Compile

end RecordStore
