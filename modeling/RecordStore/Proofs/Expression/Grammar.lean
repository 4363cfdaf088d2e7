import Mathlib.Data.List.Forall2
import RecordStore.Expression.Parser

/-!
# The grammar of conditions

`Token.Derives level ts e` says that the tokens `ts` are a condition of a level of the grammar and that `e` is the
tree of it; below it stand the relations for names, paths, operands and their lists.

**`Derives.reads`**: what is derived is read, at every level, with four calls of fuel for each token, whatever follows
that could not be read as a part of it. So **`Derives.complete`**: a text whose tokens are a condition is read as its
tree.
-/

namespace RecordStore.Token

/-! ## Paths and operands -/

/-- A token that is a name of a path. -/
inductive IsName : Token → String → Prop
  | word (name : String) : IsName (.word name) name
  | nameAlias (name : String) : IsName (.nameAlias name) ("#" ++ name)

/-- The steps of a path behind its first name. -/
inductive StepsOf : List Token → List PathStep → Prop
  | nil : StepsOf [] []
  | field {t : Token} {name : String} {ts : List Token} {steps : List PathStep} :
      IsName t name → StepsOf ts steps → StepsOf (.dot :: t :: ts) (.field name :: steps)
  | index (i : Nat) {ts : List Token} {steps : List PathStep} :
      StepsOf ts steps → StepsOf (.leftBracket :: .number i :: .rightBracket :: ts) (.index i :: steps)

/-- A path. -/
inductive PathOf : List Token → Path → Prop
  | mk {t : Token} {head : String} {ts : List Token} {steps : List PathStep} :
      IsName t head → StepsOf ts steps → PathOf (t :: ts) ⟨head, steps⟩

/-- An operand. -/
inductive OperandOf : List Token → Operand → Prop
  | value (name : String) : OperandOf [.valueAlias name] (.value (":" ++ name))
  | size {ts : List Token} {p : Path} : PathOf ts p → OperandOf (.size :: .leftParen :: (ts ++ [.rightParen])) (.size p)
  | path {ts : List Token} {p : Path} : PathOf ts p → OperandOf ts (.path p)

/-- One or more of a kind with commas between them. -/
inductive CommasOf {α : Type} (Of : List Token → α → Prop) : List Token → List α → Prop
  | one {ts : List Token} {a : α} : Of ts a → CommasOf Of ts [a]
  | more {ts us : List Token} {a : α} {as : List α} :
      Of ts a → CommasOf Of us as → CommasOf Of (ts ++ .comma :: us) (a :: as)

/-! ## Conditions -/

/-- The levels of the grammar, from the loosest to the tightest binding. -/
inductive Level where
  | or
  | and
  | not
  | primary
deriving DecidableEq, Repr

/-- Conditions of a level, with their trees. -/
inductive Derives : Level → List Token → Expr → Prop
  | orOne {ts : List Token} {e : Expr} : Derives .and ts e → Derives .or ts e
  | orMore {ts us : List Token} {l r : Expr} :
      Derives .or ts l → Derives .and us r → Derives .or (ts ++ .or :: us) (.or l r)
  | andOne {ts : List Token} {e : Expr} : Derives .not ts e → Derives .and ts e
  | andMore {ts us : List Token} {l r : Expr} :
      Derives .and ts l → Derives .not us r → Derives .and (ts ++ .and :: us) (.and l r)
  | not {ts : List Token} {e : Expr} : Derives .not ts e → Derives .not (.not :: ts) (.not e)
  | notOne {ts : List Token} {e : Expr} : Derives .primary ts e → Derives .not ts e
  | parens {ts : List Token} {e : Expr} :
      Derives .or ts e → Derives .primary (.leftParen :: (ts ++ [.rightParen])) e
  | call {f : Function} {ts : List Token} {os : List Operand} :
      CommasOf OperandOf ts os → os.length = f.arity →
      Derives .primary (.function f :: .leftParen :: (ts ++ [.rightParen])) (.call f os)
  | compare {ts us : List Token} {l r : Operand} (op : Comparison) :
      OperandOf ts l → OperandOf us r → Derives .primary (ts ++ .compare op :: us) (.compare l op r)
  | between {ts us vs : List Token} {o l h : Operand} :
      OperandOf ts o → OperandOf us l → OperandOf vs h →
      Derives .primary (ts ++ .between :: (us ++ .and :: vs)) (.between o l h)
  | among {ts us : List Token} {o : Operand} {os : List Operand} :
      OperandOf ts o → CommasOf OperandOf us os →
      Derives .primary (ts ++ .among :: .leftParen :: (us ++ [.rightParen])) (.among o os)

/-! ## Reading paths and operands -/

/-- Tokens that do not go on with a path. -/
def EndsPath (ts : List Token) : Prop :=
  ts.head? ≠ some .dot ∧ ts.head? ≠ some .leftBracket

theorem endsPath_cons {t : Token} {ts : List Token} : EndsPath (t :: ts) ↔ t ≠ .dot ∧ t ≠ .leftBracket := by
  simp [EndsPath]

theorem endsPath_nil : EndsPath [] := ⟨nofun, nofun⟩

theorem IsName.read {t : Token} {name : String} (h : IsName t name) (rest : List Token) :
    pathName (t :: rest) = .ok (name, rest) := by
  cases h <;> rfl

/-- Where no step comes next, there are no more steps. -/
theorem pathSteps_end : ∀ {rest : List Token}, EndsPath rest → pathSteps rest = .ok ([], rest)
  | [], _ => rfl
  | t :: rest, h => by
    obtain ⟨hd, hb⟩ := endsPath_cons.1 h
    cases t <;> first | rfl | contradiction

theorem StepsOf.read {ts : List Token} {steps : List PathStep} (h : StepsOf ts steps) {rest : List Token}
    (hrest : EndsPath rest) : pathSteps (ts ++ rest) = .ok (steps, rest) := by
  induction h with
  | nil => exact pathSteps_end hrest
  | field hn _ ih =>
    cases hn <;> simp only [List.cons_append, pathSteps, ih] <;> rfl
  | index i _ ih => simp only [List.cons_append, pathSteps, ih]; rfl

theorem PathOf.read {ts : List Token} {p : Path} (h : PathOf ts p) (rest : List Token) (hrest : EndsPath rest) :
    path (ts ++ rest) = .ok (p, rest) := by
  cases h with
  | mk hn hs =>
    simp only [path, List.cons_append, hn.read, bind, Except.bind, hs.read hrest]

/-- A path starts with a name. -/
theorem PathOf.cases_head {ts : List Token} {p : Path} (h : PathOf ts p) :
    ∃ t name us, IsName t name ∧ ts = t :: us := by
  cases h with
  | mk hn _ => exact ⟨_, _, _, hn, rfl⟩

theorem OperandOf.read {ts : List Token} {o : Operand} (h : OperandOf ts o) (rest : List Token)
    (hrest : EndsPath rest) : operand (ts ++ rest) = .ok (o, rest) := by
  cases h with
  | value name => rfl
  | @size ts p hp =>
    have hread := hp.read (.rightParen :: rest) (endsPath_cons.2 ⟨nofun, nofun⟩)
    simp [operand, expect, bind, Except.bind, hread]
  | path hp =>
    obtain ⟨t, name, us, hn, rfl⟩ := hp.cases_head
    have hread := hp.read rest hrest
    cases hn <;> simp only [operand, List.cons_append, bind, Except.bind] at hread ⊢ <;> rw [hread]

/-- An operand starts with a name, a value alias or a size. -/
theorem OperandOf.cases_head {ts : List Token} {o : Operand} (h : OperandOf ts o) :
    ∃ t us, ts = t :: us ∧ ((∃ name, IsName t name) ∨ (∃ name, t = .valueAlias name) ∨ t = .size) := by
  cases h with
  | value name => exact ⟨_, _, rfl, .inr (.inl ⟨name, rfl⟩)⟩
  | size hp => exact ⟨_, _, rfl, .inr (.inr rfl)⟩
  | path hp =>
    obtain ⟨t, name, us, hn, rfl⟩ := hp.cases_head
    exact ⟨t, us, rfl, .inl ⟨name, hn⟩⟩

/-! ## Reading lists -/

/-- The reader reads what is of a kind, whatever follows that does not go on with it. -/
def Reader.Reads {α : Type} (read : Reader α) (Of : List Token → α → Prop) : Prop :=
  ∀ ⦃ts : List Token⦄ ⦃a : α⦄, Of ts a → ∀ rest, EndsPath rest → read (ts ++ rest) = .ok (a, rest)

section Lists

variable {α : Type} {item : Reader α} {Of : List Token → α → Prop} {ts rest : List Token} {as : List α}

/-- Where no comma comes next, there is no more. -/
theorem afterCommas_end (hcomma : rest.head? ≠ some .comma) (fuel : Nat) :
    afterCommas item fuel rest = .ok ([], rest) := by
  rw [afterCommas]
  rintro _ _ - rfl
  exact hcomma rfl

/-- What stands behind a comma is read with a call of fuel for each token. -/
theorem CommasOf.afterCommas (hitem : item.Reads Of) (h : CommasOf Of ts as) (hrest : EndsPath rest)
    (hcomma : rest.head? ≠ some .comma) : ∀ fuel : Nat, ts.length + 1 ≤ fuel →
      afterCommas item fuel (.comma :: (ts ++ rest)) = .ok (as, rest) := by
  induction h with
  | one ha =>
    intro fuel hf
    obtain ⟨n, rfl⟩ : ∃ n, fuel = n + 1 := ⟨fuel - 1, by omega⟩
    simp only [Token.afterCommas, bind, Except.bind, hitem ha rest hrest, afterCommas_end hcomma]
  | @more ts us a as ha _ ih =>
    intro fuel hf
    simp only [List.length_append, List.length_cons] at hf
    obtain ⟨n, rfl⟩ : ∃ n, fuel = n + 1 := ⟨fuel - 1, by omega⟩
    have hread := hitem ha (.comma :: (us ++ rest)) (endsPath_cons.2 ⟨nofun, nofun⟩)
    have hmore := ih n (by omega)
    simp only [Token.afterCommas, bind, Except.bind, List.append_assoc, List.cons_append, hread, hmore]

/-- **A list with commas** is read, whatever follows that goes on neither with it nor with its last member. -/
theorem CommasOf.read (hitem : item.Reads Of) (h : CommasOf Of ts as) (hrest : EndsPath rest)
    (hcomma : rest.head? ≠ some .comma) : commaList item (ts ++ rest) = .ok (as, rest) := by
  cases h with
  | one ha => simp only [commaList, bind, Except.bind, hitem ha rest hrest, afterCommas_end hcomma]
  | @more ts us a as ha has =>
    have hread := hitem ha (.comma :: (us ++ rest)) (endsPath_cons.2 ⟨nofun, nofun⟩)
    simp only [commaList, bind, Except.bind, List.append_assoc, List.cons_append, hread]
    rw [has.afterCommas hitem hrest hcomma _ (by simp)]

end Lists

/-- Operands in parentheses. -/
theorem CommasOf.operands {ts : List Token} {os : List Operand} (h : CommasOf OperandOf ts os) (rest : List Token) :
    operands (.leftParen :: (ts ++ .rightParen :: rest)) = .ok (os, rest) := by
  have hends : EndsPath (.rightParen :: rest) := endsPath_cons.2 ⟨nofun, nofun⟩
  have hread := h.read (fun _ _ ho => ho.read) hends nofun
  simp [Token.operands, expect, bind, Except.bind, hread]

/-! ## Reading conditions -/

/-- The reader of a level. -/
def Level.reader : Level → Nat → Reader Expr
  | .or => orLevel
  | .and => andLevel
  | .not => notLevel
  | .primary => Token.primary

/-- Tokens that do not go on with a condition of a level. -/
def Level.Ends : Level → List Token → Prop
  | .or, ts => EndsPath ts ∧ ts.head? ≠ some .and ∧ ts.head? ≠ some .or
  | .and, ts => EndsPath ts ∧ ts.head? ≠ some .and
  | .not, ts | .primary, ts => EndsPath ts

/-- The calls that a level needs beyond four for each token. -/
def Level.calls : Level → Nat
  | .or => 4
  | .and => 3
  | .not => 2
  | .primary => 1

theorem moreOr_end : ∀ {fuel : Nat} {e : Expr} {rest : List Token}, rest.head? ≠ some .or →
    moreOr fuel e rest = .ok (e, rest)
  | 0, _, _, _ => by rw [moreOr]; simp
  | _ + 1, _, [], _ => by rw [moreOr]; simp
  | _ + 1, _, t :: rest, h => by
    cases t <;> first | exact absurd rfl h | (rw [moreOr]; simp)

theorem moreAnd_end : ∀ {fuel : Nat} {e : Expr} {rest : List Token}, rest.head? ≠ some .and →
    moreAnd fuel e rest = .ok (e, rest)
  | 0, _, _, _ => by rw [moreAnd]; simp
  | _ + 1, _, [], _ => by rw [moreAnd]; simp
  | _ + 1, _, t :: rest, h => by
    cases t <;> first | exact absurd rfl h | (rw [moreAnd]; simp)

/-- A test is read by `primary` from the operand on. -/
theorem primary_operand {ts us : List Token} {o : Operand} (ho : OperandOf ts o) (hus : EndsPath us) (fuel : Nat) :
    primary (fuel + 1) (ts ++ us) = test o us := by
  have hread := ho.read us hus
  obtain ⟨t, ts', rfl, h⟩ := ho.cases_head
  rcases h with ⟨name, hn⟩ | ⟨name, rfl⟩ | rfl
  · cases hn <;> simp only [List.cons_append, primary] at hread ⊢ <;> simp only [hread, bind, Except.bind]
  · simp only [List.cons_append, primary] at hread ⊢; simp only [hread, bind, Except.bind]
  · simp only [List.cons_append, primary] at hread ⊢; simp only [hread, bind, Except.bind]

/-- How a condition of a level is read when `rest` follows: the readers of chains are left with `rest`. -/
def Reads : Level → Nat → List Token → Expr → List Token → Prop
  | .or, fuel, ts, e, rest =>
    Level.Ends .and rest → ∃ left, 4 * rest.length + 3 ≤ left ∧ orLevel fuel (ts ++ rest) = moreOr left e rest
  | .and, fuel, ts, e, rest =>
    EndsPath rest → ∃ left, 4 * rest.length + 2 ≤ left ∧ andLevel fuel (ts ++ rest) = moreAnd left e rest
  | .not, fuel, ts, e, rest => EndsPath rest → notLevel fuel (ts ++ rest) = .ok (e, rest)
  | .primary, fuel, ts, e, rest => EndsPath rest → primary fuel (ts ++ rest) = .ok (e, rest)

/-- Chains end where their operator does not come next. -/
theorem Reads.finish {level : Level} {fuel : Nat} {ts rest : List Token} {e : Expr} (h : Reads level fuel ts e rest)
    (hrest : level.Ends rest) : level.reader fuel (ts ++ rest) = .ok (e, rest) := by
  cases level with
  | or =>
    obtain ⟨left, _, hl⟩ := h ⟨hrest.1, hrest.2.1⟩
    exact hl.trans (moreOr_end hrest.2.2)
  | and =>
    obtain ⟨left, _, hl⟩ := h hrest.1
    exact hl.trans (moreAnd_end hrest.2)
  | not => exact h hrest
  | primary => exact h hrest

/-- No primary condition starts with NOT. -/
theorem Derives.primary_ne_not {ts rest us : List Token} {e : Expr} (h : Derives .primary ts e) :
    ts ++ rest ≠ .not :: us := by
  intro hus
  cases h with
  | parens _ | call _ _ => simp at hus
  | compare _ ho _ | between ho _ _ | among ho _ =>
    obtain ⟨t, ts', rfl, h⟩ := ho.cases_head
    rcases h with ⟨name, hn⟩ | ⟨name, rfl⟩ | rfl
    · cases hn <;> simp at hus
    · simp at hus
    · simp at hus

/-- Every condition is read, with four calls for each token and those of its level. -/
theorem Derives.chain {level : Level} {ts : List Token} {e : Expr} (h : Derives level ts e) :
    ∀ (fuel : Nat) (rest : List Token), 4 * (ts.length + rest.length) + level.calls ≤ fuel →
      Reads level fuel ts e rest := by
  induction h with
  | @orOne ts e _ ih =>
    intro fuel rest hf hrest
    simp only [Level.calls] at hf ih
    obtain ⟨n, rfl⟩ : ∃ n, fuel = n + 1 := ⟨fuel - 1, by omega⟩
    have hread := (ih n rest (by omega)).finish hrest
    refine ⟨n, by omega, ?_⟩
    simp only [Level.reader] at hread
    simp only [orLevel, hread, bind, Except.bind]
  | @orMore ts us l r _ _ ihl ihr =>
    intro fuel rest hf hrest
    simp only [Level.calls, List.length_append, List.length_cons] at hf ihl ihr
    have hl := ihl fuel (.or :: (us ++ rest)) (by simp; omega)
    obtain ⟨left, hleft, hread⟩ := hl ⟨endsPath_cons.2 ⟨nofun, nofun⟩, nofun⟩
    simp only [List.length_cons, List.length_append] at hleft
    obtain ⟨n, rfl⟩ : ∃ n, left = n + 1 := ⟨left - 1, by omega⟩
    have hr := (ihr n rest (by omega)).finish hrest
    refine ⟨n, by omega, ?_⟩
    simp only [Level.reader] at hr
    simp only [List.append_assoc, List.cons_append, hread, moreOr, hr, bind, Except.bind]
  | @andOne ts e _ ih =>
    intro fuel rest hf hrest
    simp only [Level.calls] at hf ih
    obtain ⟨n, rfl⟩ : ∃ n, fuel = n + 1 := ⟨fuel - 1, by omega⟩
    have hread := (ih n rest (by omega)).finish hrest
    refine ⟨n, by omega, ?_⟩
    simp only [Level.reader] at hread
    simp only [andLevel, hread, bind, Except.bind]
  | @andMore ts us l r _ _ ihl ihr =>
    intro fuel rest hf hrest
    simp only [Level.calls, List.length_append, List.length_cons] at hf ihl ihr
    have hl := ihl fuel (.and :: (us ++ rest)) (by simp; omega)
    obtain ⟨left, hleft, hread⟩ := hl (endsPath_cons.2 ⟨nofun, nofun⟩)
    simp only [List.length_cons, List.length_append] at hleft
    obtain ⟨n, rfl⟩ : ∃ n, left = n + 1 := ⟨left - 1, by omega⟩
    have hr := (ihr n rest (by omega)).finish hrest
    refine ⟨n, by omega, ?_⟩
    simp only [Level.reader] at hr
    simp only [List.append_assoc, List.cons_append, hread, moreAnd, hr, bind, Except.bind]
  | @not ts e _ ih =>
    intro fuel rest hf hrest
    simp only [Level.calls, List.length_cons] at hf ih
    obtain ⟨n, rfl⟩ : ∃ n, fuel = n + 1 := ⟨fuel - 1, by omega⟩
    have hread := ih n rest (by omega) hrest
    simp only [List.cons_append, notLevel, hread, bind, Except.bind]
  | @notOne ts e h ih =>
    intro fuel rest hf hrest
    simp only [Level.calls] at hf ih
    obtain ⟨n, rfl⟩ : ∃ n, fuel = n + 1 := ⟨fuel - 1, by omega⟩
    have hread := ih n rest (by omega) hrest
    rw [notLevel, hread]
    exact fun us => h.primary_ne_not
  | @parens ts e _ ih =>
    intro fuel rest hf hrest
    simp only [Level.calls, List.length_cons, List.length_append, List.length_nil] at hf ih
    obtain ⟨n, rfl⟩ : ∃ n, fuel = n + 1 := ⟨fuel - 1, by omega⟩
    have hread := (ih n (.rightParen :: rest) (by simp; omega)).finish
      ⟨endsPath_cons.2 ⟨nofun, nofun⟩, nofun, nofun⟩
    simp only [Level.reader] at hread
    simp [primary, hread, expect, bind, Except.bind]
  | @call f ts os hos harity =>
    intro fuel rest hf hrest
    simp only [Level.calls] at hf
    obtain ⟨n, rfl⟩ : ∃ n, fuel = n + 1 := ⟨fuel - 1, by omega⟩
    simp [primary, Token.call, hos.operands, harity, bind, Except.bind]
  | @compare ts us l r op hl hr =>
    intro fuel rest hf hrest
    simp only [Level.calls] at hf
    obtain ⟨n, rfl⟩ : ∃ n, fuel = n + 1 := ⟨fuel - 1, by omega⟩
    rw [List.append_assoc, List.cons_append, primary_operand hl (by simp [endsPath_cons])]
    simp only [test, hr.read rest hrest, bind, Except.bind]
  | @between ts us vs o l h ho hlow hhigh =>
    intro fuel rest hf hrest
    simp only [Level.calls] at hf
    obtain ⟨n, rfl⟩ : ∃ n, fuel = n + 1 := ⟨fuel - 1, by omega⟩
    rw [List.append_assoc, List.cons_append, primary_operand ho (by simp [endsPath_cons])]
    have hread := hlow.read (.and :: (vs ++ rest)) (endsPath_cons.2 ⟨nofun, nofun⟩)
    simp [test, expect, hread, hhigh.read rest hrest, bind, Except.bind]
  | @among ts us o os ho hos =>
    intro fuel rest hf hrest
    simp only [Level.calls] at hf
    obtain ⟨n, rfl⟩ : ∃ n, fuel = n + 1 := ⟨fuel - 1, by omega⟩
    rw [List.append_assoc, List.cons_append, primary_operand ho (by simp [endsPath_cons])]
    simp [test, hos.operands, bind, Except.bind]

/-- **What is derived is read**, whatever follows that does not go on with it. -/
theorem Derives.reads {level : Level} {ts : List Token} {e : Expr} (h : Derives level ts e) {fuel : Nat}
    {rest : List Token}
    (hf : 4 * (ts.length + rest.length) + level.calls ≤ fuel) (hrest : level.Ends rest) :
    level.reader fuel (ts ++ rest) = .ok (e, rest) :=
  (h.chain fuel rest hf).finish hrest

/-- **A text whose tokens are a condition is read as the tree of it.** -/
theorem Derives.complete {s : String} {ts : List Token} {e : Expr} (hs : tokenize s = .ok ts) (h : Derives .or ts e) :
    Expr.parse s = .ok e := by
  have hfuel : 4 * (ts.length + ([] : List Token).length) + Level.or.calls ≤ 4 * (ts.length + 1) := by
    simp only [Level.calls, List.length_nil]
    omega
  have hread := h.reads hfuel ⟨endsPath_nil, nofun, nofun⟩
  simp only [Level.reader, List.append_nil] at hread
  simp only [Expr.parse, hs, Token.complete, hread, bind, Except.bind]

/-! ## Chains -/

/-- Conditions of which each follows an AND. -/
theorem Derives.andChain {ts : List Token} {e : Expr} (h : Derives .and ts e) {uss : List (List Token)}
    {es : List Expr} (hs : List.Forall₂ (Derives .not) uss es) :
    Derives .and (ts ++ uss.flatMap (Token.and :: ·)) (es.foldl .and e) := by
  induction hs generalizing ts e with
  | nil => simpa using h
  | cons hu _ ih => simpa using ih (h.andMore hu)

/-- Conditions of which each follows an OR. -/
theorem Derives.orChain {ts : List Token} {e : Expr} (h : Derives .or ts e) {uss : List (List Token)}
    {es : List Expr} (hs : List.Forall₂ (Derives .and) uss es) :
    Derives .or (ts ++ uss.flatMap (Token.or :: ·)) (es.foldl .or e) := by
  induction hs generalizing ts e with
  | nil => simpa using h
  | cons hu _ ih => simpa using ih (h.orMore hu)

end RecordStore.Token
