import RecordStore.Proofs.Expression.Grammar
import RecordStore.Proofs.Expression.Lexing
import RecordStore.Query.Compiler

/-!
# The texts of condition trees

`Condition.toExpr` is the tree that a condition stands for: groups become chains of AND and OR. It is what the text of
the condition is read as if the condition is sound (`Condition.Sound`): its aliases are aliases, its functions have as
many arguments as they take, and no group of it is empty.

**`Condition.Sound.rendered`**: the text is written for tokens that are a condition with that tree.
**`Condition.Sound.text_parses`** and **`Compile.parse_joinSides`** follow, for one condition and for the two sides of a
definition.
-/

namespace RecordStore

open Token (Derives Writes Opens Separates IsWord)

namespace Condition

/-! ## Trees -/

mutual

/-- The tree of a condition. An empty group has no text that could be read; its tree is of no account. -/
def toExpr : Condition → Expr
  | .compare name op value => .compare (.path ⟨name, []⟩) op (.value value)
  | .between name low high => .between (.path ⟨name, []⟩) (.value low) (.value high)
  | .call f name (some value) => .call f [.path ⟨name, []⟩, .value value]
  | .call f name none => .call f [.path ⟨name, []⟩]
  | .not inner => .not inner.toExpr
  | .all (c :: cs) => (toExprs cs).foldl .and c.toExpr
  | .any (c :: cs) => (toExprs cs).foldl .or c.toExpr
  | .all [] | .any [] => .call .attributeExists []

/-- The trees of some conditions. -/
def toExprs : List Condition → List Expr
  | [] => []
  | c :: rest => c.toExpr :: toExprs rest

end

/-- An alias of a name. -/
def IsNameAlias (s : String) : Prop := ∃ w, IsWord w ∧ s = "#" ++ String.ofList w

/-- An alias of a value. -/
def IsValueAlias (s : String) : Prop := ∃ w, IsWord w ∧ s = ":" ++ String.ofList w

mutual

/-- A condition whose text can be read. -/
def Sound : Condition → Prop
  | .compare name _ value => IsNameAlias name ∧ IsValueAlias value
  | .between name low high => IsNameAlias name ∧ IsValueAlias low ∧ IsValueAlias high
  | .call f name (some value) => f.arity = 2 ∧ IsNameAlias name ∧ IsValueAlias value
  | .call f name none => f.arity = 1 ∧ IsNameAlias name
  | .not inner => inner.Sound
  | .all members | .any members => members ≠ [] ∧ SoundAll members

/-- Conditions whose texts can be read. -/
def SoundAll : List Condition → Prop
  | [] => True
  | c :: rest => c.Sound ∧ SoundAll rest

end

theorem soundAll_iff : ∀ {cs : List Condition}, SoundAll cs ↔ ∀ c ∈ cs, c.Sound
  | [] => by simp [SoundAll]
  | c :: cs => by simp [SoundAll, @soundAll_iff cs]

theorem toExprs_eq_map : ∀ cs : List Condition, toExprs cs = cs.map toExpr
  | [] => rfl
  | c :: cs => by rw [toExprs, toExprs_eq_map cs, List.map_cons]

/-! ## Conjuncts -/

/-- The conjuncts of a chain of AND are those of its members. -/
theorem conjuncts_andChain : ∀ (es : List Expr) (e : Expr),
    (es.foldl .and e).conjuncts = (e :: es).flatMap Expr.conjuncts
  | [], e => by rw [List.foldl_nil, List.flatMap_singleton]
  | l :: es, e => by
    rw [List.foldl_cons, conjuncts_andChain es, List.flatMap_cons, Expr.conjuncts, List.append_assoc,
      List.flatMap_cons, List.flatMap_cons]

/-- The conjuncts of a conjunction are those of its members. -/
theorem conjuncts_all : ∀ {cs : List Condition}, cs ≠ [] →
    (Condition.all cs).toExpr.conjuncts = cs.flatMap (·.toExpr.conjuncts)
  | [], h => absurd rfl h
  | c :: cs, _ => by
    rw [toExpr, toExprs_eq_map, conjuncts_andChain, List.flatMap_cons, List.flatMap_map, List.flatMap_cons]

/-! ## Texts -/

/-- The text of a condition is written for some tokens, and these are a condition with its tree. -/
def Rendered (c : Condition) (ts : List Token) : Prop :=
  Derives .not ts c.toExpr ∧ Writes c.text ts

theorem textJoined_cons_cons (word : String) (c d : Condition) (cs : List Condition) :
    textJoined word (c :: d :: cs) = text c ++ word ++ textJoined word (d :: cs) := by
  rw [textJoined]
  exact nofun

/-- Conditions with a word between them. -/
theorem writes_textJoined {word : String} {t : Token} (ht : Separates word [t]) {c : Condition} {ts : List Token}
    (hc : Writes c.text ts) {cs : List Condition} {uss : List (List Token)}
    (hs : List.Forall₂ Rendered cs uss) :
    Writes (textJoined word (c :: cs)) (ts ++ uss.flatMap (t :: ·)) := by
  induction hs generalizing c ts with
  | nil => simpa [textJoined] using hc
  | cons hu _ ih =>
    have := hc.join ht (ih hu.2)
    rw [textJoined_cons_cons]
    simpa using this

theorem derives_path {name : String} (h : IsNameAlias name) :
    ∃ t, Token.OperandOf [t] (.path ⟨name, []⟩) ∧ Writes name [t] := by
  obtain ⟨w, hw, rfl⟩ := h
  exact ⟨_, .path (.mk (.nameAlias _) .nil), Token.writes_nameAlias hw⟩

theorem derives_value {value : String} (h : IsValueAlias value) :
    ∃ t, Token.OperandOf [t] (.value value) ∧ Writes value [t] := by
  obtain ⟨w, hw, rfl⟩ := h
  exact ⟨_, .value _, Token.writes_valueAlias hw⟩

/-- What the members of a group are written for. -/
theorem derives_all {c : Condition} {ts : List Token} (hc : Rendered c ts) {cs : List Condition}
    {uss : List (List Token)} (hs : List.Forall₂ Rendered cs uss) :
    Derives .and (ts ++ uss.flatMap (Token.and :: ·)) (toExpr (.all (c :: cs))) := by
  rw [toExpr, toExprs_eq_map]
  refine Derives.andChain (.andOne hc.1) ?_
  rw [List.forall₂_map_right_iff]
  exact hs.flip.imp fun _ _ h => h.1

theorem derives_any {c : Condition} {ts : List Token} (hc : Rendered c ts) {cs : List Condition}
    {uss : List (List Token)} (hs : List.Forall₂ Rendered cs uss) :
    Derives .or (ts ++ uss.flatMap (Token.or :: ·)) (toExpr (.any (c :: cs))) := by
  rw [toExpr, toExprs_eq_map]
  refine Derives.orChain (.orOne (.andOne hc.1)) ?_
  rw [List.forall₂_map_right_iff]
  exact hs.flip.imp fun _ _ h => .andOne h.1

/-- A group in parentheses. -/
theorem derives_parens {s : String} {ts : List Token} {e : Expr} (hd : Derives .or ts e) (hs : Writes s ts) :
    Derives .not (.leftParen :: (ts ++ [.rightParen])) e ∧
      Writes ("(" ++ s ++ ")") (.leftParen :: (ts ++ [.rightParen])) := by
  refine ⟨.notOne (.parens hd), ?_⟩
  rw [String.append_assoc]
  exact Token.opens_leftParen.writes (hs.opens Token.separates_rightParen).toWrites

mutual

/-- **The text of a sound condition** is written for tokens that are a condition with its tree. -/
theorem Sound.rendered : ∀ {c : Condition}, c.Sound → ∃ ts, Rendered c ts
  | .compare name op value, h => by
    obtain ⟨t, ht, hname⟩ := derives_path h.1
    obtain ⟨u, hu, hvalue⟩ := derives_value h.2
    refine ⟨_, .notOne (.compare op ht hu), ?_⟩
    have := hname.join (Token.separates_compare op) hvalue
    simpa [text, String.append_assoc] using this
  | .between name low high, h => by
    obtain ⟨t, ht, hname⟩ := derives_path h.1
    obtain ⟨u, hu, hlow⟩ := derives_value h.2.1
    obtain ⟨v, hv, hhigh⟩ := derives_value h.2.2
    refine ⟨_, .notOne (.between ht hu hv), ?_⟩
    have := (hname.join Token.separates_between hlow).join Token.separates_lowerAnd hhigh
    simpa [text, String.append_assoc] using this
  | .call f name (some value), h => by
    obtain ⟨t, ht, hname⟩ := derives_path h.2.1
    obtain ⟨u, hu, hvalue⟩ := derives_value h.2.2
    refine ⟨_, .notOne (.call (.more ht (.one hu)) h.1.symm), ?_⟩
    have := (Token.opens_function f).writes
      ((hname.join Token.separates_comma hvalue).opens Token.separates_rightParen).toWrites
    simpa [text, String.append_assoc] using this
  | .call f name none, h => by
    obtain ⟨t, ht, hname⟩ := derives_path h.2
    refine ⟨_, .notOne (.call (.one ht) h.1.symm), ?_⟩
    have := (Token.opens_function f).writes (hname.opens Token.separates_rightParen).toWrites
    simpa [text, String.append_assoc] using this
  | .not inner, h => by
    obtain ⟨ts, hd, hs⟩ := Sound.rendered (c := inner) h
    exact ⟨_, .not hd, Token.opens_not.writes hs⟩
  | .all [], h => absurd rfl h.1
  | .any [], h => absurd rfl h.1
  | .all [c], h => Sound.rendered (c := c) h.2.1
  | .any [c], h => Sound.rendered (c := c) h.2.1
  | .all (c :: d :: cs), h => by
    obtain ⟨ts, hc⟩ := Sound.rendered (c := c) h.2.1
    obtain ⟨uss, hs⟩ := @SoundAll.rendered (d :: cs) h.2.2
    exact ⟨_, derives_parens (.orOne (derives_all hc hs)) (writes_textJoined Token.separates_and hc.2 hs)⟩
  | .any (c :: d :: cs), h => by
    obtain ⟨ts, hc⟩ := Sound.rendered (c := c) h.2.1
    obtain ⟨uss, hs⟩ := @SoundAll.rendered (d :: cs) h.2.2
    exact ⟨_, derives_parens (derives_any hc hs) (writes_textJoined Token.separates_or hc.2 hs)⟩

theorem SoundAll.rendered : ∀ {cs : List Condition}, SoundAll cs → ∃ uss, List.Forall₂ Rendered cs uss
  | [], _ => ⟨[], .nil⟩
  | c :: cs, h => by
    obtain ⟨ts, hc⟩ := Sound.rendered (c := c) h.1
    obtain ⟨uss, hs⟩ := SoundAll.rendered h.2
    exact ⟨ts :: uss, .cons hc hs⟩

end

/-- **The text of a sound condition is read as its tree.** -/
theorem Sound.text_parses {c : Condition} (h : c.Sound) : Expr.parse c.text = .ok c.toExpr := by
  obtain ⟨ts, hd, hs⟩ := h.rendered
  exact Derives.complete hs.tokenize (.orOne (.andOne hd))

/-- Groups of one have no parentheses, and a conjunction of three is a chain to the left. -/
theorem Sound.text_parses_nested :
    let c : Condition := .not (.all [.any [.compare "#a" .lt ":b"], .not (.call .attributeExists "#c_1" none),
      .any [.between "#0" ":1" ":2", .call .beginsWith "#a" (some ":p")]])
    c.Sound ∧
      c.text = "NOT (#a < :b AND NOT attribute_exists(#c_1) AND (#0 between :1 and :2 OR begins_with(#a, :p)))" ∧
      Expr.parse c.text = .ok (.not (.and
        (.and (.compare (.path ⟨"#a", []⟩) .lt (.value ":b")) (.not (.call .attributeExists [.path ⟨"#c_1", []⟩])))
        (.or (.between (.path ⟨"#0", []⟩) (.value ":1") (.value ":2"))
          (.call .beginsWith [.path ⟨"#a", []⟩, .value ":p"])))) := by
  have hname : ∀ w, w ≠ [] ∧ w.all Token.isWordPart = true → IsNameAlias ("#" ++ String.ofList w) :=
    fun w hw => ⟨w, ⟨hw.1, List.all_eq_true.1 hw.2⟩, rfl⟩
  have hvalue : ∀ w, w ≠ [] ∧ w.all Token.isWordPart = true → IsValueAlias (":" ++ String.ofList w) :=
    fun w hw => ⟨w, ⟨hw.1, List.all_eq_true.1 hw.2⟩, rfl⟩
  have ha := hname ['a'] ⟨nofun, rfl⟩
  have hsound : Sound (.not (.all [.any [.compare "#a" .lt ":b"], .not (.call .attributeExists "#c_1" none),
      .any [.between "#0" ":1" ":2", .call .beginsWith "#a" (some ":p")]])) :=
    ⟨nofun, ⟨nofun, ⟨ha, hvalue ['b'] ⟨nofun, rfl⟩⟩, trivial⟩,
      ⟨rfl, hname ['c', '_', '1'] ⟨nofun, rfl⟩⟩,
      ⟨nofun, ⟨hname ['0'] ⟨nofun, rfl⟩, hvalue ['1'] ⟨nofun, rfl⟩, hvalue ['2'] ⟨nofun, rfl⟩⟩,
        ⟨rfl, ha, hvalue ['p'] ⟨nofun, rfl⟩⟩, trivial⟩, trivial⟩
  exact ⟨hsound, rfl, Sound.text_parses hsound⟩

/-- The members of a conjunction with AND between them. -/
theorem joined_and {cs : List Condition} (h : SoundAll cs) (hne : cs ≠ []) :
    ∃ ts, Derives .and ts (toExpr (.all cs)) ∧ Writes (textJoined " AND " cs) ts := by
  obtain ⟨c, cs, rfl⟩ := List.exists_cons_of_ne_nil hne
  obtain ⟨ts, hc⟩ := h.1.rendered
  obtain ⟨uss, hs⟩ := SoundAll.rendered h.2
  exact ⟨_, derives_all hc hs, writes_textJoined Token.separates_and hc.2 hs⟩

/-- The members of a disjunction with OR between them. -/
theorem joined_or {cs : List Condition} (h : SoundAll cs) (hne : cs ≠ []) :
    ∃ ts, Derives .or ts (toExpr (.any cs)) ∧ Writes (textJoined " OR " cs) ts := by
  obtain ⟨c, cs, rfl⟩ := List.exists_cons_of_ne_nil hne
  obtain ⟨ts, hc⟩ := h.1.rendered
  obtain ⟨uss, hs⟩ := SoundAll.rendered h.2
  exact ⟨_, derives_any hc hs, writes_textJoined Token.separates_or hc.2 hs⟩

end Condition

/-! ## The sides of a definition -/

namespace Compile

open Condition (SoundAll textJoined)

theorem joinText_eq (word : String) : ∀ bs : List BoundCondition,
    joinText word bs = textJoined word (bs.map (·.condition))
  | [] => rfl
  | [b] => by simp [joinText, textJoined, BoundCondition.text]
  | b :: c :: bs => by
    have ih := joinText_eq word (c :: bs)
    simp only [joinText, List.map_cons] at ih ⊢
    rw [String.intercalate_cons_cons, ih, Condition.textJoined_cons_cons, BoundCondition.text]

/-- The tree of both sides. -/
def sides : List Condition → List Condition → Expr
  | required, [] => (Condition.all required).toExpr
  | [], alternatives => (Condition.any alternatives).toExpr
  | required, alternatives => .and (Condition.all required).toExpr (Condition.any alternatives).toExpr

/-- **The text of both sides is read** as the tree of them. -/
theorem parse_joinSides {required alternatives : List BoundCondition}
    (hr : SoundAll (required.map (·.condition))) (ha : SoundAll (alternatives.map (·.condition)))
    (hne : required ≠ [] ∨ alternatives ≠ []) :
    Expr.parse (joinSides required alternatives) =
      .ok (sides (required.map (·.condition)) (alternatives.map (·.condition))) := by
  cases required with
  | nil =>
    cases alternatives with
    | nil => simp at hne
    | cons a as =>
      obtain ⟨ts, hd, hs⟩ := Condition.joined_or ha (by simp)
      rw [← joinText_eq] at hs
      exact Derives.complete hs.tokenize hd
  | cons r rs =>
    obtain ⟨ts, hd, hs⟩ := Condition.joined_and hr (by simp)
    rw [← joinText_eq] at hs
    cases alternatives with
    | nil => exact Derives.complete hs.tokenize (.orOne hd)
    | cons a as =>
      obtain ⟨us, hd', hs'⟩ := Condition.joined_or ha (by simp)
      rw [← joinText_eq] at hs'
      obtain ⟨hleft, hls⟩ := Condition.derives_parens (.orOne hd) hs
      obtain ⟨hright, hrs⟩ := Condition.derives_parens hd' hs'
      have hboth := hls.join Token.separates_and hrs
      have htext : joinSides (r :: rs) (a :: as) =
          "(" ++ joinText " AND " (r :: rs) ++ ")" ++ " AND " ++ ("(" ++ joinText " OR " (a :: as) ++ ")") := by
        have hmid : ") AND (" = ")" ++ (" AND " ++ "(") := rfl
        simp only [joinSides, hmid, String.append_assoc]
      rw [htext]
      refine Derives.complete hboth.tokenize ?_
      simpa [sides] using Derives.orOne (.andMore (.andOne hleft) hright)

end Compile

end RecordStore
