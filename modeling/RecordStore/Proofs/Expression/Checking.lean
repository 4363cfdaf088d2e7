import RecordStore.Expression.Eval
import RecordStore.Proofs.Expression.Aliases
import RecordStore.Proofs.Fields
import RecordStore.Proofs.Store.Calls

/-!
# Checking aliases

`Expr.references` are the aliases of an expression, those of names and of values together, from left to right. The check
reports the first of them that stands for nothing (`Expr.check_eq`).

If all of them stand for something, the operands can be looked up in every item (`Scope.Finds`), and nothing is left
that can fail but a call: with no path as its first argument, or for a type that is no text (`Scope.Answers`).
`Expr.eval_settles` says so by one case for each kind of expression, whichever side AND and OR pass over and wherever a
list of candidates is left.

**`Expr.check_exact`** puts both together.
-/

namespace RecordStore

/-! ## References -/

/-- An alias that an expression refers to: of a name, with its `#`, or of a value, with its colon. -/
inductive Reference where
  | name (s : String)
  | value (s : String)
deriving DecidableEq, Repr

namespace Reference

/-- Whether the alias stands for something. -/
def isBound (names : NameAliases) (values : ValueAliases) : Reference → Bool
  | .name s => names.has s
  | .value s => values.has s

/-- What is wrong with an alias that stands for nothing. -/
def error : Reference → ExprError
  | .name s => .unresolvedName s
  | .value s => .unresolvedValue s

/-- Reports the first of some aliases that stands for nothing. -/
def report (names : NameAliases) (values : ValueAliases) (rs : List Reference) : Except ExprError Unit :=
  match rs.find? fun r => !r.isBound names values with
  | some r => .error r.error
  | none => .ok ()

variable {names : NameAliases} {values : ValueAliases} {rs : List Reference}

theorem report_append (rs rs' : List Reference) :
    report names values (rs ++ rs') = (do report names values rs; report names values rs') := by
  unfold report
  rw [List.find?_append]
  cases rs.find? fun r => !r.isBound names values <;> rfl

theorem report_eq_ok : report names values rs = .ok () ↔ ∀ r ∈ rs, r.isBound names values = true := by
  have hnone : report names values rs = .ok () ↔ (rs.find? fun r => !r.isBound names values) = none := by
    unfold report
    cases rs.find? fun r => !r.isBound names values <;> simp
  rw [hnone, List.find?_eq_none]
  simp only [Bool.not_eq_true', Bool.not_eq_false]

/-- What is reported is the first alias that stands for nothing: those before it stand for something. -/
theorem report_eq_error {e : ExprError} : report names values rs = .error e ↔
    ∃ before r after, rs = before ++ r :: after ∧ (∀ b ∈ before, b.isBound names values = true) ∧
      r.isBound names values = false ∧ e = r.error := by
  have hsome : report names values rs = .error e ↔
      ∃ r, (rs.find? fun r => !r.isBound names values) = some r ∧ e = r.error := by
    unfold report
    cases rs.find? fun r => !r.isBound names values <;> simp [eq_comm]
  rw [hsome]
  simp only [List.find?_eq_some_iff_append, Bool.not_eq_true', Bool.not_not]
  constructor
  · rintro ⟨r, ⟨hr, before, after, rfl, hbefore⟩, rfl⟩
    exact ⟨before, r, after, rfl, hbefore, hr, rfl⟩
  · rintro ⟨before, r, after, rfl, hbefore, hr, rfl⟩
    exact ⟨r, ⟨hr, before, after, rfl, hbefore⟩, rfl⟩

end Reference

open Reference (report)

/-- The aliases that an operand refers to, from left to right. -/
def Operand.references : Operand → List Reference
  | .path p | .size p => (p.names.filter fun name => IsAliased name).map .name
  | .value s => [.value s]

namespace Expr

/-- The aliases that an expression refers to, from left to right. -/
def references (e : Expr) : List Reference := e.operands.flatMap Operand.references

theorem name_mem_references {e : Expr} {s : String} : .name s ∈ e.references ↔ s ∈ e.nameAliases := by
  have hoperand : ∀ o : Operand, Reference.name s ∈ o.references ↔ s ∈ o.names ∧ IsAliased s := by
    rintro (p | v | p) <;> simp [Operand.references, Operand.names]
  simp only [references, nameAliases, names, List.mem_filter, List.mem_flatMap, hoperand, decide_eq_true_eq]
  constructor
  · rintro ⟨o, ho, hs, haliased⟩
    exact ⟨⟨o, ho, hs⟩, haliased⟩
  · rintro ⟨⟨o, ho, hs⟩, haliased⟩
    exact ⟨o, ho, hs, haliased⟩

theorem value_mem_references {e : Expr} {s : String} : .value s ∈ e.references ↔ s ∈ e.valueAliases := by
  have hoperand : ∀ o : Operand, Reference.value s ∈ o.references ↔ s ∈ o.valueAliases := by
    rintro (p | v | p) <;> simp [Operand.references, Operand.valueAliases]
  simp only [references, valueAliases, List.mem_flatMap, hoperand]

/-! ## What is checked -/

variable {names : NameAliases} {values : ValueAliases}

theorem resolve_isNone (name : String) :
    (Scope.resolve names name).isNone = (decide (IsAliased name) && !names.has name) := by
  change (if IsAliased name then names.find name else some name).isNone = _
  by_cases h : IsAliased name
  · rw [if_pos h, decide_eq_true h, Bool.true_and, Fields.has, Option.not_isSome]
  · rw [if_neg h, decide_eq_false h, Bool.false_and, Option.isNone_some]

theorem checkPath_eq (p : Path) :
    checkPath names p = report names values ((p.names.filter fun name => IsAliased name).map .name) := by
  simp only [checkPath, report, resolve_isNone, List.find?_map, List.find?_filter, Function.comp_def,
    Reference.isBound, Bool.decide_and, Bool.decide_eq_true]
  generalize p.names.find? _ = missing
  cases missing <;> rfl

theorem checkOperand_eq (o : Operand) : checkOperand names values o = report names values o.references := by
  cases o with
  | path p => exact checkPath_eq p
  | size p => exact checkPath_eq p
  | value s =>
    cases h : values.has s <;> simp [checkOperand, Operand.references, report, Reference.isBound, Reference.error, h]

theorem checkOperands_eq : ∀ os : List Operand,
    checkOperands names values os = report names values (os.flatMap Operand.references)
  | [] => rfl
  | o :: os => by
    rw [checkOperands, List.flatMap_cons, Reference.report_append, checkOperand_eq, checkOperands_eq os]

/-- **The check** reports the first alias that stands for nothing. -/
theorem check_eq (e : Expr) : e.check names values = report names values e.references := by
  induction e with
  | compare left op right => exact checkOperands_eq _
  | between value low high => exact checkOperands_eq _
  | among value candidates => exact checkOperands_eq _
  | and left right ihl ihr | or left right ihl ihr =>
    change (do check names values left; check names values right) =
      report names values ((left.operands ++ right.operands).flatMap Operand.references)
    rw [ihl, ihr, List.flatMap_append, Reference.report_append]
    rfl
  | not inner ih => exact ih
  | call f arguments => exact checkOperands_eq _

end Expr

/-! ## What can fail -/

/-- An error says that a function is called in a way that it cannot be. -/
def ExprError.IsMisuse (e : ExprError) : Prop := ∃ f, e = .noArguments f ∨ e = .notAPath f ∨ e = .typeNotText f

namespace Scope

variable {s : Scope} {f : Function} {os : List Operand}

/-- All of some operands can be looked up, whether or not they are there. -/
def Finds (s : Scope) (os : List Operand) : Prop := ∀ o ∈ os, ∃ a, s.operand o = .ok a

/-- A function can be called with some arguments: the first is a path, and what is asked for as a type is a text. -/
def Answers (s : Scope) (f : Function) (arguments : List Operand) : Prop :=
  ∃ p rest, arguments = .path p :: rest ∧
    (f = .attributeType → ∃ o more tag, rest = o :: more ∧ s.operand o = .ok (some (.text tag)))

theorem operand_value {v : String} {a : Attribute} (h : s.values.find v = some a) :
    s.operand (.value v) = .ok (some a) := by
  rw [operand, h]

/-- Operands whose aliases stand for something can be looked up in every item. -/
theorem finds_of_bound {item : Item} {names : NameAliases} {values : ValueAliases}
    (h : ∀ r ∈ os.flatMap Operand.references, r.isBound names values = true) : Finds ⟨item, names, values⟩ os := by
  intro o ho
  cases o with
  | path p => exact ⟨_, rfl⟩
  | size p => exact ⟨_, rfl⟩
  | value v =>
    obtain ⟨a, ha⟩ := Fields.has_iff.1 (h (.value v) (List.mem_flatMap.2 ⟨_, ho, List.mem_singleton_self _⟩))
    exact ⟨some a, operand_value ha⟩

theorem isAmong_ok (a : Attribute) : ∀ {os : List Operand}, s.Finds os → ∃ b, s.isAmong a os = .ok b
  | [], _ => ⟨false, rfl⟩
  | o :: os, h => by
    obtain ⟨⟨x, hx⟩, hos⟩ := List.forall_mem_cons.1 h
    rw [isAmong, hx]
    cases x with
    | none => exact isAmong_ok a hos
    | some b =>
      change ∃ r, (if Attribute.holds .eq a b then Except.ok true else s.isAmong a os) = .ok r
      split
      · exact ⟨true, rfl⟩
      · exact isAmong_ok a hos

/-- A function is applied to whatever there is, save that a type that is asked for is a text. -/
theorem apply_cases (f : Function) (target argument : Option Attribute) :
    (∃ b, apply f target argument = .ok b) ∨
      f = .attributeType ∧ (∀ tag, argument ≠ some (.text tag)) ∧
        apply f target argument = .error (.typeNotText f) := by
  cases f with
  | attributeType =>
    by_cases h : ∃ tag, argument = some (.text tag)
    · obtain ⟨tag, rfl⟩ := h
      exact .inl ⟨_, rfl⟩
    · refine .inr ⟨rfl, not_exists.1 h, ?_⟩
      simp only [apply]
      split
      · exact absurd ⟨_, rfl⟩ h
      · rfl
  | beginsWith | contains => cases target <;> cases argument <;> exact .inl ⟨_, rfl⟩
  | attributeExists | attributeNotExists => exact .inl ⟨_, rfl⟩

/-- What follows the path is looked up before the function is applied. -/
theorem call_path {p : Path} {rest : List Operand} (h : s.Finds rest) :
    ∃ argument, s.call f (.path p :: rest) = apply f (s.lookup p) argument ∧
      ∀ o more, rest = o :: more → s.operand o = .ok argument := by
  cases rest with
  | nil => exact ⟨none, rfl, nofun⟩
  | cons o more =>
    obtain ⟨argument, hargument⟩ := h o List.mem_cons_self
    refine ⟨argument, ?_, fun _ _ e => by cases e; exact hargument⟩
    change (do let a ← s.operand o; apply f (s.lookup p) a) = _
    rw [hargument]
    rfl

/-- What is asked for has a value, or one of some calls cannot be answered, and then it fails for misuse. -/
def Settles (s : Scope) (calls : List (Function × List Operand)) (x : Except ExprError Bool) : Prop :=
  (∃ b, x = .ok b) ∨ (∃ call ∈ calls, ¬ s.Answers call.1 call.2) ∧ ∃ e, x = .error e ∧ e.IsMisuse

section Settling

variable {calls calls' : List (Function × List Operand)} {x : Except ExprError Bool}

theorem settles_ok {b : Bool} : s.Settles calls (.ok b) := .inl ⟨b, rfl⟩

theorem Settles.mono (h : s.Settles calls x) (hsub : calls ⊆ calls') : s.Settles calls' x :=
  h.imp_right fun ⟨⟨call, hmem, hno⟩, herror⟩ => ⟨⟨call, hsub hmem, hno⟩, herror⟩

theorem Settles.bind {next : Bool → Except ExprError Bool} (h : s.Settles calls x)
    (hnext : ∀ b, s.Settles calls (next b)) : s.Settles calls (x >>= next) := by
  rcases h with ⟨b, rfl⟩ | ⟨hcall, e, rfl, he⟩
  · exact hnext b
  · exact .inr ⟨hcall, e, rfl, he⟩

end Settling

/-- **A call fails** only where it cannot be answered, and then for misuse. -/
theorem call_settles (h : s.Finds os) : s.Settles [(f, os)] (s.call f os) := by
  have hmisuse {e : ExprError} (hno : ¬ s.Answers f os) (he : e.IsMisuse) : s.Settles [(f, os)] (.error e) :=
    .inr ⟨⟨_, List.mem_singleton_self _, hno⟩, e, rfl, he⟩
  cases os with
  | nil => exact hmisuse (fun ⟨_, _, e, _⟩ => nomatch e) ⟨f, .inl rfl⟩
  | cons o rest =>
    cases o with
    | value v | size p => exact hmisuse (fun ⟨_, _, e, _⟩ => nomatch e) ⟨f, .inr (.inl rfl)⟩
    | path p =>
      obtain ⟨argument, hcall, hargument⟩ :=
        call_path (f := f) (p := p) fun o ho => h o (List.mem_cons_of_mem _ ho)
      rw [hcall]
      rcases apply_cases f (s.lookup p) argument with hok | ⟨hf, hnotext, herror⟩
      · exact .inl hok
      · rw [herror]
        refine hmisuse ?_ ⟨f, .inr (.inr rfl)⟩
        rintro ⟨_, _, ⟨⟩, htype⟩
        obtain ⟨o, more, tag, hrest, ho⟩ := htype hf
        exact hnotext tag (Except.ok.inj ((hargument o more hrest).symm.trans ho))

end Scope

namespace Expr

/-! ## Whole expressions -/

variable {s : Scope}

/-- The calls in an expression, from left to right. -/
def calls : Expr → List (Function × List Operand)
  | .and left right | .or left right => left.calls ++ right.calls
  | .not inner => inner.calls
  | .call f arguments => [(f, arguments)]
  | .compare .. | .between .. | .among .. => []

/-- **An expression whose operands can be looked up** has a value, or one of its calls fails. -/
theorem eval_settles {e : Expr} (h : s.Finds e.operands) : s.Settles e.calls (e.eval s) := by
  induction e with
  | compare left op right =>
    obtain ⟨⟨l, hl⟩, hrest⟩ := List.forall_mem_cons.1 h
    obtain ⟨r, hr⟩ := List.forall_mem_singleton.1 hrest
    rw [eval, hl, hr]
    cases l <;> cases r <;> exact Scope.settles_ok
  | between value low high =>
    obtain ⟨⟨v, hv⟩, hrest⟩ := List.forall_mem_cons.1 h
    obtain ⟨⟨lo, hlo⟩, hrest⟩ := List.forall_mem_cons.1 hrest
    obtain ⟨hi, hhi⟩ := List.forall_mem_singleton.1 hrest
    rw [eval, hv, hlo, hhi]
    cases v <;> cases lo <;> cases hi <;> exact Scope.settles_ok
  | among value candidates =>
    obtain ⟨⟨a, ha⟩, hcandidates⟩ := List.forall_mem_cons.1 h
    rw [eval, ha]
    cases a with
    | none => exact Scope.settles_ok
    | some a => exact .inl (Scope.isAmong_ok a hcandidates)
  | and left right ihl ihr | or left right ihl ihr =>
    obtain ⟨hleft, hright⟩ := List.forall_mem_append.1 h
    -- The right side is evaluated only if the left one does not decide; its calls are among all of them either way.
    refine ((ihl hleft).mono (List.subset_append_left _ _)).bind fun b => ?_
    have hnext := (ihr hright).mono (List.subset_append_right left.calls _)
    cases b <;> first | exact hnext | exact Scope.settles_ok
  | not inner ih => exact (ih h).bind fun _ => Scope.settles_ok
  | call f arguments => exact Scope.call_settles h

/-- After the check all aliases stand for something. -/
theorem isBound_of_check {names : NameAliases} {values : ValueAliases} {e : Expr} (h : e.check names values = .ok ()) :
    ∀ r ∈ e.references, r.isBound names values = true :=
  Reference.report_eq_ok.1 ((check_eq e).symm.trans h)

/--
**The check is exact**: it succeeds just if every alias of a name and every alias of a value stands for something, and
else reports the first, from left to right, that does not. **It is enough**: after it an evaluation finds all aliases
in every item, and it has a value if all calls can be answered.
-/
theorem check_exact (names : NameAliases) (values : ValueAliases) (e : Expr) :
    (e.check names values = .ok () ↔
      (∀ name ∈ e.nameAliases, ∃ n, names.find name = some n) ∧
        ∀ name ∈ e.valueAliases, ∃ a, values.find name = some a) ∧
    (∀ error, e.check names values = .error error ↔
      ∃ before r after, e.references = before ++ r :: after ∧ (∀ b ∈ before, b.isBound names values = true) ∧
        r.isBound names values = false ∧ error = r.error) ∧
    (e.check names values = .ok () → ∀ item : Item,
      (∀ name, e.eval ⟨item, names, values⟩ ≠ .error (.unresolvedName name) ∧
        e.eval ⟨item, names, values⟩ ≠ .error (.unresolvedValue name)) ∧
      ((∀ call ∈ e.calls, Scope.Answers ⟨item, names, values⟩ call.1 call.2) →
        ∃ b, e.eval ⟨item, names, values⟩ = .ok b)) := by
  refine ⟨?_, fun error => ?_, fun hcheck item => ?_⟩
  · rw [check_eq, Reference.report_eq_ok]
    simp only [← name_mem_references, ← value_mem_references, ← Fields.has_iff]
    constructor
    · exact fun h => ⟨fun _ hname => h _ hname, fun _ hvalue => h _ hvalue⟩
    · rintro ⟨hnames, hvalues⟩ (name | name) hmem
      · exact hnames name hmem
      · exact hvalues name hmem
  · rw [check_eq, Reference.report_eq_error]
  · have hsettles : Scope.Settles ⟨item, names, values⟩ e.calls (e.eval ⟨item, names, values⟩) :=
      eval_settles (Scope.finds_of_bound (isBound_of_check hcheck))
    rcases hsettles with ⟨b, hb⟩ | ⟨⟨call, hmem, hno⟩, error, herror, f, hmisuse⟩
    · rw [hb]
      exact ⟨fun _ => ⟨nofun, nofun⟩, fun _ => ⟨b, rfl⟩⟩
    · rw [herror]
      refine ⟨fun name => ?_, fun hall => absurd (hall call hmem) hno⟩
      rcases hmisuse with rfl | rfl | rfl <;> exact ⟨nofun, nofun⟩

/--
Of a size, a step of a path, a list of candidates and an argument no alias is passed over, though an evaluation passes
over all of them where the left side of OR decides. With all aliases there is a value in every item; with two of them
missing the first is reported, and yet the empty item has a value.
-/
theorem check_exact_unvisited :
    let e : Expr := .or (.call .attributeNotExists [.path ⟨"#a", []⟩])
      (.and (.call .attributeType [.path ⟨"a", [.field "#b"]⟩, .value ":t"])
        (.not (.among (.size ⟨"#c", []⟩) [.path ⟨"d", []⟩, .value ":v"])))
    let names : NameAliases := [("#a", "a"), ("#b", "b"), ("#c", "c")]
    let values : ValueAliases := [(":t", .text "S"), (":v", .number "2")]
    (e.check names values = .ok () ∧ ∀ item, ∃ b, e.eval ⟨item, names, values⟩ = .ok b) ∧
      e.check [("#a", "a"), ("#c", "c")] [(":t", .text "S")] = .error (.unresolvedName "#b") ∧
      e.eval ⟨[], [("#a", "a"), ("#c", "c")], [(":t", .text "S")]⟩ = .ok true := by
  intro e names values
  have hcheck : e.check names values = .ok () := by decide
  refine ⟨⟨hcheck, fun item => ?_⟩, ?_, by decide⟩
  · have hanswers : ∀ call ∈ e.calls, Scope.Answers ⟨item, names, values⟩ call.1 call.2 := by
      intro call hmem
      rcases List.mem_cons.1 hmem with rfl | hmem
      · exact ⟨_, _, rfl, nofun⟩
      · obtain rfl := List.mem_singleton.1 hmem
        exact ⟨_, _, rfl, fun _ => ⟨_, _, "S", rfl, rfl⟩⟩
    exact ((check_exact names values e).2.2 hcheck item).2 hanswers
  · exact ((check_exact _ _ e).2.1 _).2
      ⟨[.name "#a"], .name "#b", [.value ":t", .name "#c", .value ":v"], rfl, by decide, by decide, rfl⟩

end Expr

end RecordStore
