import RecordStore.Proofs.Expression.Parsing

/-!
# The aliases of an expression

Which aliases an expression uses can be told from its text, from the tokens of it, and from the tree that these are
read as. `Token.nameAliases` and `Token.valueAliases` are the aliases among some tokens, and `Expr.nameAliases` and
`Expr.valueAliases` those of a tree, all from left to right.

**`Token.Derives.has`**: what tokens are read as has just their names and aliases, each as often as it stands there.
**`Expr.parse_aliases`** and **`Path.parseList_aliases`** say it of a text that is read.
-/

namespace RecordStore

/-! ## Aliases of tokens -/

namespace Token

/-- The name that a token is in a path. -/
def pathName? : Token → Option String
  | .word name => some name
  | .nameAlias name => some ("#" ++ name)
  | _ => none

/-- The alias of a name, with its `#`, that a token is. -/
def nameAlias? : Token → Option String
  | .nameAlias name => some ("#" ++ name)
  | _ => none

/-- The alias of a value, with its colon, that a token is. -/
def valueAlias? : Token → Option String
  | .valueAlias name => some (":" ++ name)
  | _ => none

/-- The tokens of a text; none if it cannot be cut into tokens. -/
def tokensOf (s : String) : List Token :=
  (tokenize s).toOption.getD []

/-- The aliases of names in a text. -/
def nameAliases (s : String) : List String := (tokensOf s).filterMap nameAlias?

/-- The aliases of values in a text. -/
def valueAliases (s : String) : List String := (tokensOf s).filterMap valueAlias?

theorem tokensOf_eq {s : String} {ts : List Token} (h : tokenize s = .ok ts) : tokensOf s = ts := by
  rw [tokensOf, h]
  rfl

end Token

/-! ## Aliases of trees -/

/-- Whether a name is an alias, as it is where names are resolved. -/
def IsAliased (name : String) : Prop := name.toList.head? = some '#'

instance : DecidablePred IsAliased := fun name => inferInstanceAs (Decidable (name.toList.head? = some '#'))

namespace Operand

/-- The names along the path of an operand. -/
def names : Operand → List String
  | .path p | .size p => p.names
  | .value _ => []

/-- The aliases of values that an operand is. -/
def valueAliases : Operand → List String
  | .value name => [name]
  | .path _ | .size _ => []

end Operand

namespace Expr

/-- The operands of an expression, from left to right. -/
def operands : Expr → List Operand
  | .compare left _ right => [left, right]
  | .between value low high => [value, low, high]
  | .among value candidates => value :: candidates
  | .and left right | .or left right => left.operands ++ right.operands
  | .not inner => inner.operands
  | .call _ arguments => arguments

/-- The names along the paths of an expression. -/
def names (e : Expr) : List String := e.operands.flatMap Operand.names

/-- The names along the paths of an expression that are aliases. -/
def nameAliases (e : Expr) : List String := e.names.filter fun name => IsAliased name

/-- The aliases of values in an expression. -/
def valueAliases (e : Expr) : List String := e.operands.flatMap Operand.valueAliases

/-- Every operand of a conjunct is one of the whole expression. -/
theorem operands_of_conjunct : ∀ {e c : Expr}, c ∈ e.conjuncts → c.operands ⊆ e.operands
  | .and l r, c, h => by
    rw [conjuncts, List.mem_append] at h
    rcases h with h | h
    · exact fun o ho => List.mem_append_left _ (operands_of_conjunct h ho)
    · exact fun o ho => List.mem_append_right _ (operands_of_conjunct h ho)
  | .compare .., c, h | .between .., c, h | .among .., c, h | .or .., c, h | .not .., c, h | .call .., c, h => by
    obtain rfl := List.mem_singleton.1 h
    exact List.Subset.refl _

end Expr

/-! ## What tokens are read as -/

namespace Token

/-- The tokens have these names along paths and these aliases of values, from left to right. -/
structure Has (ts : List Token) (names values : List String) : Prop where
  names : ts.filterMap pathName? = names
  values : ts.filterMap valueAlias? = values

variable {t : Token} {ts us : List Token} {ns ms vs ws : List String}

theorem Has.nil : Has [] [] [] := ⟨rfl, rfl⟩

theorem Has.append (h : Has ts ns vs) (h' : Has us ms ws) : Has (ts ++ us) (ns ++ ms) (vs ++ ws) :=
  ⟨by rw [List.filterMap_append, h.names, h'.names], by rw [List.filterMap_append, h.values, h'.values]⟩

/-- A token that is neither a name nor an alias of a value. -/
theorem has_mark (hn : pathName? t = none) (hv : valueAlias? t = none) : Has [t] [] [] :=
  ⟨by rw [List.filterMap_cons_none hn]; rfl, by rw [List.filterMap_cons_none hv]; rfl⟩

theorem IsName.has {name : String} (h : IsName t name) : Has [t] [name] [] := by
  cases h <;> exact ⟨rfl, rfl⟩

/-- The names along the steps of a path. -/
def stepNames (steps : List PathStep) : List String :=
  steps.filterMap fun
    | .field name => some name
    | .index _ => none

theorem StepsOf.has {steps : List PathStep} (h : StepsOf ts steps) : Has ts (stepNames steps) [] := by
  induction h with
  | nil => exact .nil
  | field hn _ ih => exact (has_mark (t := .dot) rfl rfl).append (hn.has.append ih)
  | index i _ ih =>
    exact (has_mark (t := .leftBracket) rfl rfl).append
      ((has_mark (t := .number i) rfl rfl).append ((has_mark (t := .rightBracket) rfl rfl).append ih))

theorem PathOf.has {p : Path} (h : PathOf ts p) : Has ts p.names [] := by
  cases h with
  | mk hn hs => exact hn.has.append hs.has

/-- In parentheses there are the same aliases. -/
theorem Has.parens (h : Has ts ns vs) : Has (.leftParen :: (ts ++ [.rightParen])) ns vs := by
  have hboth := (has_mark (t := .leftParen) rfl rfl).append (h.append (has_mark (t := .rightParen) rfl rfl))
  simpa using hboth

theorem OperandOf.has {o : Operand} (h : OperandOf ts o) : Has ts o.names o.valueAliases := by
  cases h with
  | value name => exact ⟨rfl, rfl⟩
  | size hp => exact (has_mark (t := .size) rfl rfl).append hp.has.parens
  | path hp => exact hp.has

/-- A list has the aliases of its members. -/
theorem CommasOf.has {α : Type} {Of : List Token → α → Prop} {names values : α → List String} {as : List α}
    (hof : ∀ ⦃us : List Token⦄ ⦃a : α⦄, Of us a → Has us (names a) (values a)) (h : CommasOf Of ts as) :
    Has ts (as.flatMap names) (as.flatMap values) := by
  induction h with
  | one ha => simpa using hof ha
  | more ha _ ih => exact (hof ha).append ((has_mark (t := .comma) rfl rfl).append ih)

/-- **What is derived has the aliases of its tree**: one case for each rule of the grammar. -/
theorem Derives.has {level : Level} {e : Expr} (h : Derives level ts e) : Has ts e.names e.valueAliases := by
  induction h with
  | orOne _ ih | andOne _ ih | notOne _ ih => exact ih
  | orMore _ _ ihl ihr =>
    have hboth := ihl.append ((has_mark (t := .or) rfl rfl).append ihr)
    simpa [Expr.names, Expr.valueAliases, Expr.operands] using hboth
  | andMore _ _ ihl ihr =>
    have hboth := ihl.append ((has_mark (t := .and) rfl rfl).append ihr)
    simpa [Expr.names, Expr.valueAliases, Expr.operands] using hboth
  | not _ ih => exact (has_mark (t := .not) rfl rfl).append ih
  | parens _ ih => exact ih.parens
  | @call f _ _ hos _ =>
    exact (has_mark (t := .function f) rfl rfl).append (hos.has fun _ _ ho => ho.has).parens
  | compare op hl hr =>
    have hboth := hl.has.append ((has_mark (t := .compare op) rfl rfl).append hr.has)
    simpa [Expr.names, Expr.valueAliases, Expr.operands] using hboth
  | between ho hl hh =>
    have hall := ho.has.append ((has_mark (t := .between) rfl rfl).append
      (hl.has.append ((has_mark (t := .and) rfl rfl).append hh.has)))
    simpa [Expr.names, Expr.valueAliases, Expr.operands] using hall
  | among ho hos =>
    exact ho.has.append ((has_mark (t := .among) rfl rfl).append (hos.has fun _ _ ho => ho.has).parens)

/-! ## Texts -/

/-- A word does not look like an alias. -/
def Plain (t : Token) : Prop := ∀ name, t = .word name → ¬ IsAliased name

theorem not_isAliased_of_isWord {w : List Char} (h : IsWord w) : ¬ IsAliased (String.ofList w) := by
  intro hhead
  rw [IsAliased, String.toList_ofList] at hhead
  have hpart := h.2 _ (List.mem_of_mem_head? hhead)
  revert hpart
  decide

/-- The tokens of a text are plain, since words are made of letters, digits and underscores. -/
theorem Scans.plain {cs : List Char} {ts : List Token} (h : Scans cs ts) : ∀ t ∈ ts, t.Plain := by
  induction h with
  | nil => exact List.forall_mem_nil _
  | gap _ _ ih => exact ih
  | @mark c t cs ts hmem _ ih =>
    refine List.forall_mem_cons.2 ⟨?_, ih⟩
    rintro name rfl
    simp [marks] at hmem
  | compare _ _ ih => exact List.forall_mem_cons.2 ⟨by rintro _ ⟨⟩, ih⟩
  | @word w cs t ts hw _ ht _ ih =>
    refine List.forall_mem_cons.2 ⟨?_, ih⟩
    rintro name rfl
    cases ht with
    | keyword hmem _ => simp [keywords, Function.all] at hmem
    | name _ _ => exact not_isAliased_of_isWord hw
  | nameAlias _ _ _ ih | valueAlias _ _ _ ih => exact List.forall_mem_cons.2 ⟨by rintro _ ⟨⟩, ih⟩

/-- Of plain tokens, those that are aliases are the names that look like aliases. -/
theorem nameAlias?_eq (h : t.Plain) : nameAlias? t = (pathName? t).filter fun name => IsAliased name := by
  cases t with
  | word name =>
    have hname := h name rfl
    rw [pathName?, Option.filter_some, if_neg (by simpa using hname)]
    rfl
  | nameAlias name =>
    have hname : IsAliased ("#" ++ name) := by simp [IsAliased]
    rw [pathName?, Option.filter_some, if_pos (by simpa using hname)]
    rfl
  | _ => rfl

theorem filterMap_nameAlias? : ∀ {ts : List Token}, (∀ t ∈ ts, t.Plain) →
    ts.filterMap nameAlias? = (ts.filterMap pathName?).filter fun name => IsAliased name
  | [], _ => rfl
  | t :: ts, h => by
    obtain ⟨ht, hts⟩ := List.forall_mem_cons.1 h
    rw [List.filterMap_cons, List.filterMap_cons, nameAlias?_eq ht, filterMap_nameAlias? hts]
    cases pathName? t with
    | none => rfl
    | some name => by_cases hname : IsAliased name <;> simp [Option.filter_some, hname]

/-- What is known of the tokens of a text is known of the text. -/
theorem Has.text {s : String} (hts : tokenize s = .ok ts) (h : Has ts ns vs) :
    (tokenize s).isOk = true ∧ (nameAliases s = ns.filter fun name => IsAliased name) ∧ valueAliases s = vs := by
  have hplain := (lex_eq_ok_iff.1 hts).plain
  refine ⟨by rw [hts]; rfl, ?_, ?_⟩
  · rw [nameAliases, tokensOf_eq hts, filterMap_nameAlias? hplain, h.names]
  · rw [valueAliases, tokensOf_eq hts, h.values]

end Token

/-- **A text that is read** has the aliases of its tree. -/
theorem Expr.parse_aliases {s : String} {e : Expr} (h : Expr.parse s = .ok e) :
    (Token.tokenize s).isOk = true ∧ Token.nameAliases s = e.nameAliases ∧ Token.valueAliases s = e.valueAliases := by
  obtain ⟨ts, hts, h⟩ := bind_eq_ok.1 h
  exact (Token.complete_eq_ok (Token.orLevel_takes _) h).has.text hts

/-- **A projection that is read** has the aliases of its paths. -/
theorem Path.parseList_aliases {s : String} {ps : List Path} (h : Path.parseList s = .ok ps) :
    (Token.tokenize s).isOk = true ∧
      (Token.nameAliases s = (ps.flatMap Path.names).filter fun name => IsAliased name) ∧
      Token.valueAliases s = [] := by
  obtain ⟨ts, hts, h⟩ := bind_eq_ok.1 h
  have hps := Token.complete_eq_ok (Token.commaList_takes Token.path_takes) h
  have hhas : Token.Has ts (ps.flatMap Path.names) (ps.flatMap fun _ => []) := hps.has fun _ _ hp => hp.has
  rw [List.flatMap_eq_nil_iff.2 fun _ _ => rfl] at hhas
  exact hhas.text hts

end RecordStore
