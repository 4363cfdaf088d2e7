import RecordStore.Proofs.Expression.Grammar
import RecordStore.Proofs.Expression.Scanning

/-!
# What is read is a condition

The other half of the grammar: whatever a reader takes off the front of some tokens is derived, with the tree that the
reader gives (`Reader.Takes`). There is one lemma for each reader, and those of the levels of the grammar stand in one
recursion on the fuel.

**`Expr.parse_eq_ok_iff`**: a text is read as a tree just if it is written for tokens that are a condition with that
tree.
-/

namespace RecordStore

namespace Token

/-- What the reader takes off the front is of a kind. -/
def Reader.Takes {α : Type} (read : Reader α) (Of : List Token → α → Prop) : Prop :=
  ∀ ⦃ts : List Token⦄ ⦃a : α⦄ ⦃rest : List Token⦄, read ts = .ok (a, rest) → ∃ us, ts = us ++ rest ∧ Of us a

/-! ## Paths and operands -/

theorem expect_eq_ok {t : Token} {ts rest : List Token} (h : expect t ts = .ok rest) : ts = t :: rest := by
  cases ts with
  | nil => cases h
  | cons u ts =>
    rw [expect] at h
    split at h
    · cases h
      simp [*]
    · cases h

theorem pathName_eq_ok {ts rest : List Token} {name : String} (h : pathName ts = .ok (name, rest)) :
    ∃ t, ts = t :: rest ∧ IsName t name := by
  unfold pathName at h
  split at h <;> cases h
  · exact ⟨_, rfl, .word name⟩
  · exact ⟨_, rfl, .nameAlias _⟩

theorem pathSteps_takes : Reader.Takes pathSteps StepsOf := by
  intro ts steps rest h
  induction ts using pathSteps.induct generalizing steps rest with
  | case1 name ts ih | case2 name ts ih =>
    rw [pathSteps] at h
    obtain ⟨⟨more, rest⟩, hmore, h⟩ := bind_eq_ok.1 h
    cases h
    obtain ⟨us, rfl, hus⟩ := ih hmore
    exact ⟨_, rfl, .field (by constructor) hus⟩
  | case4 i ts ih =>
    rw [pathSteps] at h
    obtain ⟨⟨more, rest⟩, hmore, h⟩ := bind_eq_ok.1 h
    cases h
    obtain ⟨us, rfl, hus⟩ := ih hmore
    exact ⟨_, rfl, .index i hus⟩
  | case3 | case5 | case6 =>
    rw [pathSteps] at h
    · cases h
    all_goals assumption
  | case7 =>
    rw [pathSteps] at h
    · cases h
      exact ⟨[], rfl, .nil⟩
    all_goals assumption

theorem path_takes : Reader.Takes path PathOf := by
  intro ts p rest h
  obtain ⟨⟨head, mid⟩, hhead, h⟩ := bind_eq_ok.1 h
  obtain ⟨⟨steps, rest⟩, hsteps, h⟩ := bind_eq_ok.1 h
  cases h
  obtain ⟨t, rfl, ht⟩ := pathName_eq_ok hhead
  obtain ⟨us, rfl, hus⟩ := pathSteps_takes hsteps
  exact ⟨t :: us, rfl, .mk ht hus⟩

theorem operand_takes : Reader.Takes operand OperandOf := by
  intro ts o rest h
  unfold operand at h
  split at h
  · cases h
    exact ⟨[_], rfl, .value _⟩
  · obtain ⟨mid, hopen, h⟩ := bind_eq_ok.1 h
    obtain ⟨⟨p, mid⟩, hp, h⟩ := bind_eq_ok.1 h
    obtain ⟨rest, hclose, h⟩ := bind_eq_ok.1 h
    cases h
    obtain rfl := expect_eq_ok hopen
    obtain ⟨us, rfl, hus⟩ := path_takes hp
    obtain rfl := expect_eq_ok hclose
    exact ⟨_, by simp, .size hus⟩
  · obtain ⟨⟨p, rest⟩, hp, h⟩ := bind_eq_ok.1 h
    cases h
    obtain ⟨us, rfl, hus⟩ := path_takes hp
    exact ⟨us, rfl, .path hus⟩

/-- What stands behind one of a kind, each after a comma. -/
theorem afterCommas_takes {α : Type} {item : Reader α} {Of : List Token → α → Prop} (hitem : item.Takes Of) :
    ∀ (fuel : Nat) {vs : List Token} {a : α}, Of vs a →
      Reader.Takes (afterCommas item fuel) fun us as => CommasOf Of (vs ++ us) (a :: as)
  | 0, vs, a, ha => by
    intro ts as rest h
    cases h
    exact ⟨[], rfl, by simpa using .one ha⟩
  | fuel + 1, vs, a, ha => by
    intro ts as rest h
    by_cases hcomma : ts.head? = some .comma
    · obtain ⟨ts, rfl⟩ := List.head?_eq_some_iff.1 hcomma
      obtain ⟨⟨b, mid⟩, hb, h⟩ := bind_eq_ok.1 h
      obtain ⟨⟨bs, rest⟩, hbs, h⟩ := bind_eq_ok.1 h
      cases h
      obtain ⟨us, rfl, hus⟩ := hitem hb
      obtain ⟨ws, rfl, hws⟩ := afterCommas_takes hitem fuel hus hbs
      exact ⟨.comma :: (us ++ ws), by simp, .more ha hws⟩
    · rw [afterCommas_end hcomma] at h
      cases h
      exact ⟨[], rfl, by simpa using .one ha⟩

theorem commaList_takes {α : Type} {item : Reader α} {Of : List Token → α → Prop} (hitem : item.Takes Of) :
    Reader.Takes (commaList item) (CommasOf Of) := by
  intro ts as rest h
  obtain ⟨⟨a, mid⟩, ha, h⟩ := bind_eq_ok.1 h
  obtain ⟨⟨more, rest⟩, hmore, h⟩ := bind_eq_ok.1 h
  cases h
  obtain ⟨us, rfl, hus⟩ := hitem ha
  obtain ⟨vs, rfl, hvs⟩ := afterCommas_takes hitem _ hus hmore
  exact ⟨us ++ vs, by simp, hvs⟩

theorem operands_takes :
    Reader.Takes operands fun us os => ∃ vs, us = .leftParen :: (vs ++ [.rightParen]) ∧ CommasOf OperandOf vs os := by
  intro ts os rest h
  obtain ⟨mid, hopen, h⟩ := bind_eq_ok.1 h
  obtain ⟨⟨os, mid⟩, hos, h⟩ := bind_eq_ok.1 h
  obtain ⟨rest, hclose, h⟩ := bind_eq_ok.1 h
  cases h
  obtain rfl := expect_eq_ok hopen
  obtain rfl := expect_eq_ok hclose
  obtain ⟨vs, rfl, hvs⟩ := commaList_takes operand_takes hos
  exact ⟨_, by simp, vs, rfl, hvs⟩

/-! ## Conditions -/

/-- What is asked of an operand. -/
theorem test_takes {vs : List Token} {left : Operand} (hl : OperandOf vs left) :
    Reader.Takes (test left) fun us e => Derives .primary (vs ++ us) e := by
  intro ts e rest h
  unfold test at h
  split at h
  · obtain ⟨⟨right, rest⟩, hr, h⟩ := bind_eq_ok.1 h
    cases h
    obtain ⟨us, rfl, hus⟩ := operand_takes hr
    exact ⟨_, rfl, .compare _ hl hus⟩
  · obtain ⟨⟨low, mid⟩, hlow, h⟩ := bind_eq_ok.1 h
    obtain ⟨mid', hand, h⟩ := bind_eq_ok.1 h
    obtain ⟨⟨high, rest⟩, hhigh, h⟩ := bind_eq_ok.1 h
    cases h
    obtain ⟨us, rfl, hus⟩ := operand_takes hlow
    obtain rfl := expect_eq_ok hand
    obtain ⟨ws, rfl, hws⟩ := operand_takes hhigh
    exact ⟨.between :: (us ++ .and :: ws), by simp, .between hl hus hws⟩
  · obtain ⟨⟨os, rest⟩, hos, h⟩ := bind_eq_ok.1 h
    cases h
    obtain ⟨_, rfl, us, rfl, hus⟩ := operands_takes hos
    exact ⟨_, rfl, .among hl hus⟩
  · cases h

/-- The arguments of a function. -/
theorem call_takes (f : Function) : Reader.Takes (call f) fun us e => Derives .primary (.function f :: us) e := by
  intro ts e rest h
  obtain ⟨⟨os, rest⟩, hos, h⟩ := bind_eq_ok.1 h
  dsimp only at h
  split at h
  · cases h
    obtain ⟨_, rfl, us, rfl, hus⟩ := operands_takes hos
    exact ⟨_, rfl, .call hus ‹_›⟩
  · cases h

mutual

theorem orLevel_takes : ∀ fuel : Nat, Reader.Takes (orLevel fuel) (Derives .or)
  | 0 => by
    intro ts e rest h
    rw [orLevel] at h
    cases h
  | fuel + 1 => by
    intro ts e rest h
    rw [orLevel] at h
    obtain ⟨⟨left, mid⟩, hl, hmore⟩ := bind_eq_ok.1 h
    obtain ⟨us, rfl, hus⟩ := andLevel_takes fuel hl
    obtain ⟨vs, rfl, hvs⟩ := moreOr_takes fuel (.orOne hus) hmore
    exact ⟨us ++ vs, by simp, hvs⟩

theorem moreOr_takes : ∀ (fuel : Nat) {vs : List Token} {left : Expr}, Derives .or vs left →
    Reader.Takes (moreOr fuel left) fun us e => Derives .or (vs ++ us) e
  | 0, vs, left, hl => by
    intro ts e rest h
    rw [moreOr] at h
    · cases h
      exact ⟨[], rfl, by simpa using hl⟩
    · exact nofun
  | fuel + 1, vs, left, hl => by
    intro ts e rest h
    by_cases hor : ts.head? = some .or
    · obtain ⟨ts, rfl⟩ := List.head?_eq_some_iff.1 hor
      rw [moreOr] at h
      obtain ⟨⟨right, mid⟩, hr, hmore⟩ := bind_eq_ok.1 h
      obtain ⟨us, rfl, hus⟩ := andLevel_takes fuel hr
      obtain ⟨ws, rfl, hws⟩ := moreOr_takes fuel (hl.orMore hus) hmore
      exact ⟨.or :: (us ++ ws), by simp, by simpa using hws⟩
    · rw [moreOr_end hor] at h
      cases h
      exact ⟨[], rfl, by simpa using hl⟩

theorem andLevel_takes : ∀ fuel : Nat, Reader.Takes (andLevel fuel) (Derives .and)
  | 0 => by
    intro ts e rest h
    rw [andLevel] at h
    cases h
  | fuel + 1 => by
    intro ts e rest h
    rw [andLevel] at h
    obtain ⟨⟨left, mid⟩, hl, hmore⟩ := bind_eq_ok.1 h
    obtain ⟨us, rfl, hus⟩ := notLevel_takes fuel hl
    obtain ⟨vs, rfl, hvs⟩ := moreAnd_takes fuel (.andOne hus) hmore
    exact ⟨us ++ vs, by simp, hvs⟩

theorem moreAnd_takes : ∀ (fuel : Nat) {vs : List Token} {left : Expr}, Derives .and vs left →
    Reader.Takes (moreAnd fuel left) fun us e => Derives .and (vs ++ us) e
  | 0, vs, left, hl => by
    intro ts e rest h
    rw [moreAnd] at h
    · cases h
      exact ⟨[], rfl, by simpa using hl⟩
    · exact nofun
  | fuel + 1, vs, left, hl => by
    intro ts e rest h
    by_cases hand : ts.head? = some .and
    · obtain ⟨ts, rfl⟩ := List.head?_eq_some_iff.1 hand
      rw [moreAnd] at h
      obtain ⟨⟨right, mid⟩, hr, hmore⟩ := bind_eq_ok.1 h
      obtain ⟨us, rfl, hus⟩ := notLevel_takes fuel hr
      obtain ⟨ws, rfl, hws⟩ := moreAnd_takes fuel (hl.andMore hus) hmore
      exact ⟨.and :: (us ++ ws), by simp, by simpa using hws⟩
    · rw [moreAnd_end hand] at h
      cases h
      exact ⟨[], rfl, by simpa using hl⟩

theorem notLevel_takes : ∀ fuel : Nat, Reader.Takes (notLevel fuel) (Derives .not)
  | 0 => by
    intro ts e rest h
    rw [notLevel] at h
    cases h
  | fuel + 1 => by
    intro ts e rest h
    by_cases hnot : ts.head? = some .not
    · obtain ⟨ts, rfl⟩ := List.head?_eq_some_iff.1 hnot
      rw [notLevel] at h
      obtain ⟨⟨e, mid⟩, he, h⟩ := bind_eq_ok.1 h
      cases h
      obtain ⟨us, rfl, hus⟩ := notLevel_takes fuel he
      exact ⟨.not :: us, rfl, .not hus⟩
    · rw [notLevel] at h
      · obtain ⟨us, rfl, hus⟩ := primary_takes fuel h
        exact ⟨us, rfl, .notOne hus⟩
      · rintro _ rfl
        exact hnot rfl

theorem primary_takes : ∀ fuel : Nat, Reader.Takes (primary fuel) (Derives .primary)
  | 0 => by
    intro ts e rest h
    rw [primary] at h
    cases h
  | fuel + 1 => by
    intro ts e rest h
    by_cases hparen : ts.head? = some .leftParen
    · obtain ⟨ts, rfl⟩ := List.head?_eq_some_iff.1 hparen
      rw [primary] at h
      obtain ⟨⟨e, mid⟩, he, h⟩ := bind_eq_ok.1 h
      obtain ⟨rest, hclose, h⟩ := bind_eq_ok.1 h
      cases h
      obtain ⟨us, rfl, hus⟩ := orLevel_takes fuel he
      obtain rfl := expect_eq_ok hclose
      exact ⟨.leftParen :: (us ++ [.rightParen]), by simp, .parens hus⟩
    by_cases hfunction : ∃ f, ts.head? = some (.function f)
    · obtain ⟨f, hf⟩ := hfunction
      obtain ⟨ts, rfl⟩ := List.head?_eq_some_iff.1 hf
      rw [primary] at h
      obtain ⟨us, rfl, hus⟩ := call_takes f h
      exact ⟨.function f :: us, rfl, hus⟩
    · rw [primary] at h
      · obtain ⟨⟨left, mid⟩, hl, htest⟩ := bind_eq_ok.1 h
        obtain ⟨us, rfl, hus⟩ := operand_takes hl
        obtain ⟨vs, rfl, hvs⟩ := test_takes hus htest
        exact ⟨us ++ vs, by simp, hvs⟩
      · rintro _ rfl
        exact hparen rfl
      · rintro f _ rfl
        exact hfunction ⟨f, rfl⟩

end

/-- What is read as a whole is derived as a whole. -/
theorem complete_eq_ok {α : Type} {read : Reader α} {Of : List Token → α → Prop} (hread : read.Takes Of)
    {ts : List Token} {a : α} (h : complete read ts = .ok a) : Of ts a := by
  obtain ⟨⟨b, rest⟩, hb, h⟩ := bind_eq_ok.1 h
  cases rest with
  | cons t rest => cases h
  | nil =>
    cases h
    obtain ⟨us, rfl, hus⟩ := hread hb
    rwa [List.append_nil]

end Token

/-- **The language of conditions**: a text is read as a tree just if it is written for tokens that are a condition with
that tree. -/
theorem Expr.parse_eq_ok_iff {s : String} {e : Expr} :
    Expr.parse s = .ok e ↔ ∃ ts, Token.Scans s.toList ts ∧ Token.Derives .or ts e := by
  constructor
  · intro h
    obtain ⟨ts, hts, h⟩ := bind_eq_ok.1 h
    exact ⟨ts, Token.lex_eq_ok_iff.1 hts, Token.complete_eq_ok (Token.orLevel_takes _) h⟩
  · rintro ⟨ts, hts, h⟩
    exact h.complete (Token.lex_eq_ok_iff.2 hts)

/-- AND binds tighter than OR, both to the left, and keywords are read in letters of either case. -/
example : Expr.parse "a=:x Or b=:x oR NOT c<>:x aNd d=:x" = .ok
    (.or (.or (.compare (.path ⟨"a", []⟩) .eq (.value ":x")) (.compare (.path ⟨"b", []⟩) .eq (.value ":x")))
      (.and (.not (.compare (.path ⟨"c", []⟩) .ne (.value ":x")))
        (.compare (.path ⟨"d", []⟩) .eq (.value ":x")))) := by
  cbv

end RecordStore
