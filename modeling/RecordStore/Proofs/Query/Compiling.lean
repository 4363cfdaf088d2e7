import RecordStore.Proofs.Query.Binding
import RecordStore.Proofs.Store.Calls

/-!
# Compilation preserves meaning

`Compile.Yields a count bs ps a'` is what a computation that draws `count` aliases makes from the source `a`: conditions
`bs` that say `ps`, with aliases in turn, and the source `a'`. There is a lemma for each function of the compiler.

**`Compile.definition_yields`**: a compiled definition is an expression that means what the definition does, also where
its aliases are only some of many. `Compile.definition_sound` says this of a source of aliases that starts anywhere.
-/

namespace RecordStore

open Fields (Within Issued)

/-- The text can be read and, wherever what the aliases stand for is found, holds of the items of which `p` does. -/
def Compiled.Expresses (c : Compiled) (p : Item → Bool) : Prop :=
  ∃ e, Expr.parse c.expression = .ok e ∧
    ∀ {names : NameAliases} {values : ValueAliases}, Within c.names names → Within c.values values →
      Expr.Means names values e p

namespace Compile

open BoundCondition (Expresses DrawnInTurn)
open Call (bind_ok)

/-! ## Computations -/

theorem pure_ok {α : Type} {x r : α} {a a' : Aliases} (h : (pure x : Compile α) a = (.ok r, a')) : x = r ∧ a = a' := by
  cases h; exact ⟨rfl, rfl⟩

theorem ofExcept_ok {α : Type} {x : Except CompileError α} {r : α} {a a' : Aliases}
    (h : ofExcept x a = (.ok r, a')) : x = .ok r ∧ a = a' := Prod.mk.inj h

theorem lift_ok {α : Type} {draw : StateM Aliases α} {r : α} {a a' : Aliases} (h : lift draw a = (.ok r, a')) :
    draw a = (r, a') := by
  unfold lift at h
  split at h
  cases h
  assumption

/-! ## What is yielded -/

/-- Conditions `bs` that say `ps`, with aliases drawn in turn from `a`, of which `count` are taken. -/
structure Yields (a : Aliases) (count : Nat) (bs : List BoundCondition) (ps : List (Item → Bool)) (a' : Aliases) :
    Prop where
  source : a' = { a with next := a.next + count }
  drawn : DrawnInTurn a.suffix a.next (a.next + count) bs
  meaning : List.Forall₂ Expresses bs ps

theorem Yields.nil (a : Aliases) : Yields a 0 [] [] a := ⟨rfl, .nil _ _, .nil⟩

theorem Yields.append {a b a' : Aliases} {m n : Nat} {bs cs : List BoundCondition} {ps qs : List (Item → Bool)}
    (h : Yields a m bs ps b) (h' : Yields b n cs qs a') : Yields a (m + n) (bs ++ cs) (ps ++ qs) a' := by
  obtain ⟨rfl, hd, hs⟩ := h
  obtain ⟨rfl, hd', hs'⟩ := h'
  refine ⟨by simp [Nat.add_assoc], ?_, List.rel_append hs hs'⟩
  rw [← Nat.add_assoc]
  exact hd.append hd'

theorem bind_yields {field : String} {test : Test} {a a' : Aliases} {b : BoundCondition} (ha : a.Wordy)
    (hn : a.next + (1 + test.values.length) < Numeral.natBound) (h : test.bind field a = (b, a')) :
    Yields a (1 + test.values.length) [b] [fun item => test.holds (item.find field)] a' := by
  obtain ⟨hd, hs⟩ := @Test.bind_expresses field test a ha hn
  have ha' : (test.bind field a).2 = { a with next := a.next + (1 + test.values.length) } := by rw [Test.bind_eq hn]
  rw [h] at hd hs ha'
  exact ⟨ha', hd.cons (.nil _ _), .cons hs .nil⟩

/-- What a clause is checked to be. -/
theorem checkClause_ok {strict : Bool} {field : String} {c : Clause} {o : Option Test}
    (h : Test.checkClause strict field c = .ok o) :
    (o = none ∧ c.aliasCount = 0 ∧ ∀ a, c.holds a = true) ∨
      ∃ test, o = some test ∧ c.aliasCount = 1 + test.values.length ∧ ∀ a, c.holds a = test.holds a := by
  unfold Test.checkClause at h
  split at h
  · rename_i op hop
    cases hc : Test.check field op c.operand with
    | error e => rw [hc] at h; cases h
    | ok test =>
      rw [hc] at h; cases h
      obtain ⟨hl, hh⟩ := Test.check_holds hc
      refine .inr ⟨test, rfl, ?_, fun a => ?_⟩
      · simp only [Clause.aliasCount, hop, hl]
      · simp only [Clause.holds, hop, hh]
  · rename_i hop
    split at h
    · cases h
    · cases h
      exact .inl ⟨rfl, by simp only [Clause.aliasCount, hop], fun a => by simp only [Clause.holds, hop]⟩

theorem clause_yields {strict : Bool} {field : String} {c : Clause} {a a' : Aliases} {o : Option BoundCondition}
    (ha : a.Wordy) (hn : a.next + c.aliasCount < Numeral.natBound) (h : clause strict field c a = (.ok o, a')) :
    ∃ ps, Yields a c.aliasCount o.toList ps a' ∧ ∀ item, ps.all (· item) = c.holds (Fields.find item field) := by
  obtain ⟨t, b, hcheck, h⟩ := bind_ok h
  obtain ⟨ht, rfl⟩ := ofExcept_ok hcheck
  rcases checkClause_ok ht with ⟨rfl, hcount, hholds⟩ | ⟨test, rfl, hcount, hholds⟩
  · obtain ⟨rfl, rfl⟩ := pure_ok h
    rw [hcount]
    exact ⟨[], .nil a, fun item => (hholds _).symm⟩
  · rw [hcount] at hn ⊢
    have hb : ∃ b, o = some b ∧ test.bind field a = (b, a') := by
      obtain ⟨b, c, hlift, h⟩ := bind_ok h
      obtain ⟨rfl, rfl⟩ := pure_ok h
      exact ⟨b, rfl, lift_ok hlift⟩
    obtain ⟨b, rfl, hbind⟩ := hb
    exact ⟨_, bind_yields ha hn hbind, fun item => by simp [hholds]⟩

theorem clauses_yields {strict : Bool} {field : String} : ∀ {cs : List Clause} {a a' : Aliases}
    {bs : List BoundCondition}, a.Wordy → a.next + (cs.map Clause.aliasCount).sum < Numeral.natBound →
    clauses strict field cs a = (.ok bs, a') →
    ∃ ps, Yields a (cs.map Clause.aliasCount).sum bs ps a' ∧
      ∀ item, ps.all (· item) = cs.all fun c => c.holds (Fields.find item field)
  | [], a, _, _, _, _, h => by
    obtain ⟨rfl, rfl⟩ := pure_ok h
    exact ⟨[], .nil a, fun _ => rfl⟩
  | c :: cs, a, a', bs, ha, hn, h => by
    rw [List.map_cons, List.sum_cons] at hn ⊢
    obtain ⟨o, b, hc, h⟩ := bind_ok h
    obtain ⟨bs, b', hcs, h⟩ := bind_ok h
    obtain ⟨rfl, rfl⟩ := pure_ok h
    obtain ⟨ps, hy, hps⟩ := clause_yields ha (by omega) hc
    obtain rfl := hy.source
    obtain ⟨qs, hy', hqs⟩ := clauses_yields (a := { a with next := a.next + c.aliasCount }) ha
      (by dsimp only; omega) hcs
    exact ⟨ps ++ qs, hy.append hy', fun item => by rw [List.all_append, hps, hqs, List.all_cons]⟩

/-- What is asked of a field. -/
theorem conditions_yields {strict : Bool} {l : Leaf} {a a' : Aliases} {bs : List BoundCondition}
    (ha : a.Wordy) (hn : a.next + l.aliasCount < Numeral.natBound) (h : conditions strict l a = (.ok bs, a')) :
    ∃ ps, Yields a l.aliasCount bs ps a' ∧ ∀ item, ps.all (· item) = l.holds item := by
  obtain ⟨field, condition⟩ := l
  cases condition with
  | equals value =>
    obtain ⟨b, c, hlift, h⟩ := bind_ok h
    obtain ⟨rfl, rfl⟩ := pure_ok h
    have hy := @bind_yields _ (.compare .eq (.ofJson value)) a c b ha hn (lift_ok hlift)
    exact ⟨_, hy, fun item => by simp [Leaf.holds, Test.holds, Operator.holds]⟩
  | operators cs => exact clauses_yields ha hn h

theorem leaf_yields {strict : Bool} {l : Leaf} {a a' : Aliases} {b : BoundCondition}
    (ha : a.Wordy) (hn : a.next + l.aliasCount < Numeral.natBound) (h : leaf strict l a = (.ok b, a')) :
    Yields a l.aliasCount [b] [l.holds] a' := by
  obtain ⟨bs, a₁, hc, h⟩ := bind_ok h
  obtain ⟨ps, hy, hps⟩ := conditions_yields ha hn hc
  cases hb : BoundCondition.all bs with
  | none => rw [hb] at h; cases (ofExcept_ok h).1
  | some c =>
    rw [hb] at h
    obtain ⟨rfl, rfl⟩ := pure_ok h
    obtain ⟨hd, hs⟩ := BoundCondition.all_expresses hy.meaning hy.drawn hb
    have hp : (fun item => ps.all (· item)) = l.holds := funext hps
    exact ⟨hy.source, hd.cons (.nil _ _), .cons (hp ▸ hs) .nil⟩

theorem leaves_yields {strict : Bool} : ∀ {ls : List Leaf} {a a' : Aliases} {bs : List BoundCondition},
    a.Wordy → a.next + (ls.map Leaf.aliasCount).sum < Numeral.natBound → leaves strict ls a = (.ok bs, a') →
    Yields a (ls.map Leaf.aliasCount).sum bs (ls.map Leaf.holds) a'
  | [], a, _, _, _, _, h => by
    obtain ⟨rfl, rfl⟩ := pure_ok h
    exact .nil a
  | l :: ls, a, a', bs, ha, hn, h => by
    rw [List.map_cons, List.sum_cons] at hn
    obtain ⟨b, a₁, hl, h⟩ := bind_ok h
    obtain ⟨bs, a₂, hls, h⟩ := bind_ok h
    obtain ⟨rfl, rfl⟩ := pure_ok h
    have hy := leaf_yields ha (by omega) hl
    obtain rfl := hy.source
    exact hy.append (leaves_yields (a := { a with next := a.next + l.aliasCount }) ha (by dsimp only; omega) hls)

/-! ## Definitions -/

/-- What a definition is compiled from. -/
theorem definition_ok {strict : Bool} {d : Definition} {fields : List String} {a a' : Aliases} {c : Compiled}
    (h : definition strict d fields a = (.ok c, a')) :
    ∃ required alternatives projected a₁ a₂, leaves strict d.required a = (.ok required, a₁) ∧
      leaves strict d.alternatives a₁ = (.ok alternatives, a₂) ∧ bindNames fields a₂ = (projected, a') ∧
      c = ⟨joinSides required alternatives,
        Fields.merge (BoundCondition.allNames (required ++ alternatives)) projected,
        BoundCondition.allValues (required ++ alternatives), projectionText (projected.map (·.1))⟩ := by
  obtain ⟨required, a₁, hr, h⟩ := bind_ok h
  obtain ⟨alternatives, a₂, hs, h⟩ := bind_ok h
  obtain ⟨projected, a₃, hp, h⟩ := bind_ok h
  obtain ⟨rfl, rfl⟩ := pure_ok h
  exact ⟨required, alternatives, projected, a₁, a₂, hr, hs, lift_ok hp, rfl⟩

/-- What the two sides of a definition and its projection are compiled to, with aliases in turn. -/
theorem definition_parts {strict : Bool} {d : Definition} {fields : List String} {a a' : Aliases} {c : Compiled}
    (ha : a.Wordy) (hn : a.next + (d.aliasCount + fields.length) < Numeral.natBound)
    (h : definition strict d fields a = (.ok c, a')) :
    ∃ required alternatives b, leaves strict d.required a = (.ok required, b) ∧
      List.Forall₂ Expresses required (d.required.map Leaf.holds) ∧
      List.Forall₂ Expresses alternatives (d.alternatives.map Leaf.holds) ∧
      DrawnInTurn a.suffix a.next (a.next + d.aliasCount) (required ++ alternatives) ∧
      a' = { a with next := a.next + (d.aliasCount + fields.length) } ∧
      c = ⟨joinSides required alternatives,
        Fields.merge (BoundCondition.allNames (required ++ alternatives))
          (Fields.numbered (Aliases.nameAlias a.suffix) (a.next + d.aliasCount) fields),
        BoundCondition.allValues (required ++ alternatives),
        projectionText ((Fields.numbered (Aliases.nameAlias a.suffix) (a.next + d.aliasCount) fields).map (·.1))⟩ := by
  have hsum : d.aliasCount = (d.required.map Leaf.aliasCount).sum + (d.alternatives.map Leaf.aliasCount).sum := by
    rw [Definition.aliasCount, Definition.all, List.map_append, List.sum_append]
  obtain ⟨required, alternatives, projected, a₁, a₂, hr, hs, hp, hc⟩ := definition_ok h
  -- both sides, and the aliases of both in turn
  have hyr := leaves_yields ha (by omega) hr
  obtain rfl := hyr.source
  have hys := leaves_yields (a := { a with next := a.next + (d.required.map Leaf.aliasCount).sum }) ha
    (by dsimp only; omega) hs
  obtain rfl := hys.source
  have hdrawn := (hyr.append hys).drawn
  rw [← hsum] at hdrawn
  -- the projection
  have hnext : a.next + (d.required.map Leaf.aliasCount).sum + (d.alternatives.map Leaf.aliasCount).sum =
      a.next + d.aliasCount := by omega
  dsimp only at hp
  rw [hnext, bindNames_eq _ _ (by dsimp only; omega)] at hp
  obtain ⟨rfl, rfl⟩ := Prod.mk.inj hp
  exact ⟨required, alternatives, _, hr, hyr.meaning, hys.meaning, hdrawn, by simp [Nat.add_assoc], hc⟩

/-- Two sides mean that all of one hold and, unless there are none, one of the other. -/
theorem means_sides {names : NameAliases} {values : ValueAliases} {required alternatives : List Condition}
    {ps qs : List (Item → Bool)} (hne : required ≠ [] ∨ alternatives ≠ [])
    (hr : List.Forall₂ (fun c p => Expr.Means names values c.toExpr p) required ps)
    (hs : List.Forall₂ (fun c p => Expr.Means names values c.toExpr p) alternatives qs) :
    Expr.Means names values (sides required alternatives)
      fun item => ps.all (· item) && (qs.isEmpty || qs.any (· item)) := by
  cases hs with
  | nil =>
    have := Condition.means_all (hne.resolve_right (by simp)) hr
    simpa [sides] using this
  | cons hq hqs =>
    have hany := Condition.means_any (by simp) (.cons hq hqs)
    cases hr with
    | nil => simpa [sides] using hany
    | cons hp hps =>
      have := (Condition.means_all (by simp) (.cons hp hps)).and hany
      simpa [sides] using this

/-- Two sides put together to a text. -/
theorem joinSides_expresses {required alternatives : List BoundCondition} {ps qs : List (Item → Bool)}
    (hr : List.Forall₂ Expresses required ps) (hs : List.Forall₂ Expresses alternatives qs)
    (hne : required ≠ [] ∨ alternatives ≠ []) {c : Compiled} (hc : c.expression = joinSides required alternatives)
    (hw : ∀ b ∈ required ++ alternatives, Within b.names c.names ∧ Within b.values c.values) :
    c.Expresses fun item => ps.all (· item) && (qs.isEmpty || qs.any (· item)) := by
  have hparse := parse_joinSides (BoundCondition.soundAll_of_expresses hr)
    (BoundCondition.soundAll_of_expresses hs) hne
  refine ⟨_, hc ▸ hparse, fun hn hv => ?_⟩
  have hwide : ∀ b ∈ required ++ alternatives, Within b.names _ ∧ Within b.values _ :=
    fun b hb => ⟨(hw b hb).1.trans hn, (hw b hb).2.trans hv⟩
  rw [List.forall_mem_append] at hwide
  exact means_sides (by simpa using hne) (BoundCondition.means_of_expresses hr hwide.1)
    (BoundCondition.means_of_expresses hs hwide.2)

/-- No text is no expression. -/
theorem parse_empty (e : Expr) : Expr.parse "" ≠ .ok e := nofun

/-- **A compiled definition** means what the definition does, and its aliases are fresh. -/
theorem definition_yields {strict : Bool} {d : Definition} {fields : List String} {a a' : Aliases} {c : Compiled}
    (ha : a.Wordy) (hn : a.next + (d.aliasCount + fields.length) < Numeral.natBound)
    (h : definition strict d fields a = (.ok c, a')) :
    a' = { a with next := a.next + (d.aliasCount + fields.length) } ∧
      Issued (Aliases.nameAlias a.suffix) a.next a'.next c.names ∧
      Issued (Aliases.valueAlias a.suffix) a.next a'.next c.values ∧
      (c.expression = "" ↔ d.isEmpty = true) ∧ (d.isEmpty = false → c.Expresses d.holds) := by
  obtain ⟨required, alternatives, _, -, hr, hs, hdrawn, rfl, hc⟩ := definition_parts ha hn h
  obtain ⟨hnames, hvalues, hw⟩ := hdrawn.all
  obtain ⟨hall, hwn⟩ := hnames.merge_numbered Aliases.nameAlias_inj fields
  have hexpr : c.expression = joinSides required alternatives := by rw [hc]
  have hwide : ∀ b ∈ required ++ alternatives, Within b.names c.names ∧ Within b.values c.values := by
    rw [hc]
    exact fun b hb => ⟨(hw b hb).1.trans hwn, (hw b hb).2⟩
  have hempty : d.isEmpty = true ↔ required = [] ∧ alternatives = [] := by
    have hlr := hr.length_eq
    have hls := hs.length_eq
    rw [Definition.isEmpty, Definition.all, List.isEmpty_iff, List.append_eq_nil_iff]
    simp only [← List.length_eq_zero_iff, hlr, hls, List.length_map]
  rw [Nat.add_assoc] at hall
  refine ⟨rfl, hc ▸ hall, hc ▸ hvalues.widen (Nat.le_refl _) (by dsimp only; omega), ?_⟩
  by_cases hd : required = [] ∧ alternatives = []
  · have hd' := hempty.2 hd
    obtain ⟨rfl, rfl⟩ := hd
    exact ⟨⟨fun _ => hd', fun _ => hexpr⟩, fun h => by simp [hd'] at h⟩
  · have he := joinSides_expresses hr hs (Classical.not_and_iff_not_or_not.1 hd) hexpr hwide
    refine ⟨⟨fun hnil => ?_, fun h => absurd (hempty.1 h) hd⟩, fun _ => ?_⟩
    · -- a text that can be read is not empty
      obtain ⟨e, hp, -⟩ := he
      exact absurd (hnil ▸ hp) (parse_empty e)
    · obtain ⟨e, hp, hm⟩ := he
      refine ⟨e, hp, fun hn hv => ⟨(hm hn hv).check, fun item => ((hm hn hv).eval item).trans ?_⟩⟩
      simp [Definition.holds, Function.comp_def]

/--
**Compilation preserves meaning.** With a source of aliases that starts anywhere and does not run out, the expression of
a compiled definition is empty just where nothing is asked, and else it is read, its aliases stand for something, and it
holds of just the items of which the definition does.
-/
theorem definition_sound (strict : Bool) (d : Definition) (fields : List String) (start : Nat) (suffix : String)
    (hn : start + (d.aliasCount + fields.length) < Numeral.natBound) {c : Compiled} {a' : Aliases}
    (h : definition strict d fields (.startingAt start suffix) = (.ok c, a')) :
    (c.expression = "" ↔ d.isEmpty = true) ∧
      (d.isEmpty = false → ∃ e, Expr.parse c.expression = .ok e ∧ e.check c.names c.values = .ok () ∧
        ∀ item, e.eval ⟨item, c.names, c.values⟩ = .ok (d.holds item)) := by
  obtain ⟨-, -, -, hempty, he⟩ := definition_yields (Aliases.startingAt_wordy start suffix) hn h
  refine ⟨hempty, fun hd => ?_⟩
  obtain ⟨e, hp, hm⟩ := he hd
  have hmeans := hm (.refl _) (.refl _)
  exact ⟨e, hp, hmeans.check, hmeans.eval⟩

/-- A field at the top beside two alternatives. -/
theorem definition_sound_either :
    let d : Definition :=
      ⟨[.equals "a" (.bool true)], [], [[.op "b" .beginsWith (.string "x")], [.op "c" .exists .null]]⟩
    ∃ c a', definition true d ["a"] (.startingAt 7 "T-") = (.ok c, a') ∧
      c.expression = "(#n7t = :v8t) AND (begins_with(#n9t, :v10t) OR attribute_exists(#n11t))" ∧
      ∃ e, Expr.parse c.expression = .ok e ∧ e.check c.names c.values = .ok () ∧
        ∀ item, e.eval ⟨item, c.names, c.values⟩ = .ok (d.holds item) :=
  ⟨_, _, rfl, rfl, (definition_sound true _ ["a"] 7 "T-" (by decide) rfl).2 rfl⟩

end Compile

end RecordStore
