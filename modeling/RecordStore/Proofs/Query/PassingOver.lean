import RecordStore.Proofs.Query.Keying

/-!
# Passing over unknown operators

A clause whose tag is no operator is refused or passed over. `Definition.known` is a definition without such clauses.
Passing over them is to compile what is left: the conditions, the aliases drawn and the errors are the same
(`Compile.leaves_known`).

`Compile.Spares refused x y` says that a strict computation `x` comes to the same as `y`, which passes over unknown
operators, or is refused for a reason in `refused`. There is a lemma for each function of the compiler, and the reasons
are that one of the clauses has an unknown tag (`Compile.leaves_spare`).

**`Compile.definition_known`** puts both together. A condition on keys is the same in both modes
(`Compile.keyCondition_eq`), since unknown tags are not for keys.
-/

namespace RecordStore

/-! ## What is left -/

/-- Whether the tag of a clause is that of an operator. -/
def Clause.isKnown (c : Clause) : Bool := (Operator.ofTag? c.tag).isSome

theorem Clause.isKnown_eq_false_iff {c : Clause} : c.isKnown = false ↔ Operator.ofTag? c.tag = none := by
  rw [isKnown, Option.isSome_eq_false_iff, Option.isNone_iff_eq_none]

/-- What is asked of a field, without the clauses of unknown tags. -/
def LeafCondition.known : LeafCondition → LeafCondition
  | .equals value => .equals value
  | .operators cs => .operators (cs.filter Clause.isKnown)

/-- A leaf without the clauses of unknown tags; it stays also if no clause is left. -/
def Leaf.known (l : Leaf) : Leaf := { l with condition := l.condition.known }

/-- A definition without the clauses of unknown tags. -/
def Definition.known (d : Definition) : Definition :=
  ⟨d.leaves.map .known, d.allOf.map (·.map .known), d.anyOf.map (·.map .known)⟩

namespace Definition

variable (d : Definition)

theorem required_known : d.known.required = d.required.map .known := by
  simp only [required, known, List.map_append, List.map_flatten]

theorem alternatives_known : d.known.alternatives = d.alternatives.map .known := by
  simp only [alternatives, known, List.map_flatten]

end Definition

/-! ## What is refused -/

/-- An error says that a clause of a leaf has an unknown tag. -/
def Leaf.Refuses (l : Leaf) (e : CompileError) : Prop :=
  ∃ cs, l.condition = .operators cs ∧
    ∃ c ∈ cs, Operator.ofTag? c.tag = none ∧ e = .unknownOperator l.field c.tag

namespace Compile

variable {α β : Type} {field : String} {c : Clause}

/-! ## Compiling what is left -/

/-- The condition of a known tag is the same in both modes. -/
theorem clause_of_known (h : c.isKnown = true) : clause false field c = clause true field c := by
  obtain ⟨op, hop⟩ := Option.isSome_iff_exists.1 h
  simp only [clause, Test.checkClause, hop]

/-- An unknown tag is passed over. -/
theorem clause_passed_over (h : c.isKnown = false) : clause false field c = pure none := by
  have hcheck : Test.checkClause false field c = .ok none := by
    rw [Test.checkClause, Clause.isKnown_eq_false_iff.1 h]
    rfl
  rw [clause, hcheck]
  rfl

/-- An unknown tag is refused. -/
theorem clause_refused (h : c.isKnown = false) :
    clause true field c = ofExcept (.error (.unknownOperator field c.tag)) := by
  have hcheck : Test.checkClause true field c = .error (.unknownOperator field c.tag) := by
    rw [Test.checkClause, Clause.isKnown_eq_false_iff.1 h]
    rfl
  rw [clause, hcheck]
  rfl

theorem clauses_known (field : String) : ∀ cs : List Clause,
    clauses false field cs = clauses true field (cs.filter Clause.isKnown)
  | [] => rfl
  | c :: cs => by
    cases hc : c.isKnown with
    | true =>
      rw [List.filter_cons_of_pos hc, clauses, clauses, clause_of_known hc, clauses_known field cs]
    | false =>
      rw [List.filter_cons_of_neg (by rw [hc]; exact Bool.false_ne_true), clauses, clause_passed_over hc,
        ← clauses_known field cs, pure_bind]
      simp only [Option.toList_none, List.nil_append, bind_pure]

theorem conditions_known (l : Leaf) : conditions false l = conditions true l.known := by
  obtain ⟨field, condition⟩ := l
  cases condition with
  | equals value => rfl
  | operators cs => exact clauses_known field cs

/-- A leaf of which no clause is left is refused in both modes, since nothing is asked. -/
theorem leaf_known (l : Leaf) : leaf false l = leaf true l.known := by
  rw [leaf, leaf, conditions_known]
  rfl

/-- **What is passed over might as well not be there.** -/
theorem leaves_known : ∀ ls : List Leaf, leaves false ls = leaves true (ls.map Leaf.known)
  | [] => rfl
  | l :: ls => by rw [List.map_cons, leaves, leaves, leaf_known, leaves_known ls]

/-! ## Compiling strictly -/

/-- A strict computation comes to the same as another, or is refused for one of some reasons. -/
def Spares (refused : CompileError → Prop) (x y : Compile α) : Prop :=
  ∀ a, x a = y a ∨ ∃ e, (x a).1 = .error e ∧ refused e

variable {refused : CompileError → Prop} {x y : Compile α}

theorem spares_refl (x : Compile α) : Spares refused x x := fun _ => .inl rfl

theorem Spares.imp {refused' : CompileError → Prop} (h : Spares refused x y) (himp : ∀ e, refused e → refused' e) :
    Spares refused' x y := by
  intro a
  rcases h a with heq | ⟨e, he, hr⟩
  · exact .inl heq
  · exact .inr ⟨e, he, himp e hr⟩

theorem Spares.bind {f g : α → Compile β} (h : Spares refused x y) (hf : ∀ r, Spares refused (f r) (g r)) :
    Spares refused (x >>= f) (y >>= g) := by
  intro a
  rcases h a with heq | ⟨e, he, hr⟩
  · rw [Call.bind_eq, Call.bind_eq, ← heq]
    rcases x a with ⟨_ | r, a'⟩
    · exact .inl rfl
    · exact hf r a'
  · exact .inr ⟨e, by rw [Call.bind_of_error he], hr⟩

theorem Spares.map {f : α → β} (h : Spares refused x y) : Spares refused (f <$> x) (f <$> y) := by
  rw [← bind_pure_comp, ← bind_pure_comp]
  exact h.bind fun r => spares_refl _

theorem clause_spares (field : String) (c : Clause) :
    Spares (fun e => Operator.ofTag? c.tag = none ∧ e = .unknownOperator field c.tag)
      (clause true field c) (clause false field c) := by
  cases hc : c.isKnown with
  | true =>
    rw [clause_of_known hc]
    exact spares_refl _
  | false =>
    intro a
    rw [clause_refused hc]
    exact .inr ⟨_, rfl, Clause.isKnown_eq_false_iff.1 hc, rfl⟩

theorem clauses_spare (field : String) : ∀ cs : List Clause,
    Spares (fun e => ∃ c ∈ cs, Operator.ofTag? c.tag = none ∧ e = .unknownOperator field c.tag)
      (clauses true field cs) (clauses false field cs)
  | [] => spares_refl _
  | c :: cs => by
    refine ((clause_spares field c).imp fun e he => ⟨c, List.mem_cons_self, he⟩).bind fun o => ?_
    refine ((clauses_spare field cs).imp ?_).map
    rintro e ⟨c', hc', he⟩
    exact ⟨c', List.mem_cons_of_mem c hc', he⟩

theorem leaf_spares (l : Leaf) : Spares l.Refuses (leaf true l) (leaf false l) := by
  have hconditions : Spares l.Refuses (conditions true l) (conditions false l) := by
    obtain ⟨field, condition⟩ := l
    cases condition with
    | equals value => exact spares_refl _
    | operators cs => exact (clauses_spare field cs).imp fun e he => ⟨cs, rfl, he⟩
  exact hconditions.bind fun bs => spares_refl _

/-- **A strict computation is the same up to the first unknown tag**, and is refused there. -/
theorem leaves_spare : ∀ ls : List Leaf,
    Spares (fun e => ∃ l ∈ ls, l.Refuses e) (leaves true ls) (leaves false ls)
  | [] => spares_refl _
  | l :: ls => by
    refine ((leaf_spares l).imp fun e he => ⟨l, List.mem_cons_self, he⟩).bind fun b => ?_
    refine ((leaves_spare ls).imp ?_).map
    rintro e ⟨l', hl', he⟩
    exact ⟨l', List.mem_cons_of_mem l hl', he⟩

theorem definition_spares (d : Definition) (fields : List String) :
    Spares (fun e => ∃ l ∈ d.all, l.Refuses e) (definition true d fields) (definition false d fields) := by
  refine ((leaves_spare d.required).imp ?_).bind fun required => ?_
  · rintro e ⟨l, hl, he⟩
    exact ⟨l, List.mem_append_left _ hl, he⟩
  refine ((leaves_spare d.alternatives).imp ?_).bind fun alternatives => spares_refl _
  rintro e ⟨l, hl, he⟩
  exact ⟨l, List.mem_append_right _ hl, he⟩

/-! ## Both modes -/

/-- Conditions on keys are the same in both modes: an unknown tag is refused before anything is compiled. -/
theorem keyCondition_eq (d : Definition) (fields : List String) :
    keyCondition true d fields = keyCondition false d fields := by
  rw [keyCondition, keyCondition]
  cases hkey : checkKey d with
  | error e => rfl
  | ok u =>
    funext a
    rcases definition_spares d fields a with heq | ⟨-, -, l, hl, cs, hcs, c, hc, hunknown, -⟩
    · exact heq
    · -- the check would have refused this clause
      have hleaf : checkKeyLeaf l = .ok () := forM_eq_ok.1 hkey l hl
      have htag : c.tag ∈ l.tags := by
        rw [Leaf.tags, hcs]
        exact List.mem_map_of_mem hc
      rcases checkKeyLeaf_cases l with ⟨-, hkeys⟩ | ⟨tag, -, -, herror⟩
      · obtain ⟨op, hop, -⟩ := hkeys c.tag htag
        rw [hunknown] at hop
        cases hop
      · rw [hleaf] at herror
        cases herror

/--
**To pass over unknown operators is to compile what is left without them.** From any source of aliases, a definition
that is compiled so comes to the same as what is left of it does in strict mode: the same expression with the same
aliases, or the same error, and the same source. So if the strict mode accepts a definition, the other comes to the same
answer, and whenever the outcomes differ, the strict mode has refused a clause of the definition for its unknown tag.
-/
theorem definition_known (d : Definition) (fields : List String) (a : Aliases) :
    definition false d fields a = definition true d.known fields a ∧
      (∀ c a', definition true d fields a = (.ok c, a') → definition false d fields a = (.ok c, a')) ∧
      ∀ e a', definition true d fields a = (.error e, a') → definition false d fields a ≠ (.error e, a') →
        ∃ l ∈ d.all, ∃ cs, l.condition = .operators cs ∧
          ∃ c ∈ cs, Operator.ofTag? c.tag = none ∧ e = .unknownOperator l.field c.tag := by
  refine ⟨?_, ?_, ?_⟩
  · rw [definition, definition, d.required_known, d.alternatives_known, ← leaves_known, ← leaves_known]
  · intro c a' hstrict
    rcases definition_spares d fields a with heq | ⟨e, he, -⟩
    · rw [← heq, hstrict]
    · rw [hstrict] at he
      cases he
  · intro e a' hstrict hdiffer
    rcases definition_spares d fields a with heq | ⟨e', he', hrefuses⟩
    · rw [← heq] at hdiffer
      exact absurd hstrict hdiffer
    · rw [hstrict] at he'
      cases he'
      exact hrefuses

/-- A known and an unknown tag on one field: the one mode passes over the second, the other refuses it. -/
theorem definition_known_beside :
    let d : Definition := ⟨[⟨"a", .operators [⟨"$gt", .bool true⟩, ⟨"$like", .null⟩]⟩], [], []⟩
    let a := Aliases.startingAt 7 "t"
    d.known = ⟨[.op "a" (.compare .gt) (.bool true)], [], []⟩ ∧
      definition true d ["b"] a = (.error (.unknownOperator "a" "$like"), ⟨9, "t"⟩) ∧
      definition false d ["b"] a = definition true d.known ["b"] a ∧
      (definition false d ["b"] a).1.isOk = true ∧
      ∃ l ∈ d.all, ∃ cs, l.condition = .operators cs ∧
        ∃ c ∈ cs, Operator.ofTag? c.tag = none ∧ CompileError.unknownOperator "a" "$like" =
          .unknownOperator l.field c.tag := by
  intro d a
  obtain ⟨hsame, -, hrefused⟩ := definition_known d ["b"] a
  exact ⟨rfl, rfl, hsame, rfl, hrefused _ _ rfl nofun⟩

end Compile

end RecordStore
