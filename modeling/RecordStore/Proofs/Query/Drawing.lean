import RecordStore.Proofs.Query.Compiling

/-!
# What compilation draws

Which aliases the compilation of a definition draws can be told from the definition alone, also where it is refused
midway. `Draws` are the kinds of the aliases that a computation draws, in turn, and whether it comes to an end, and
`Compile.Follows x a draws Uses` says that the computation `x` draws just these from the source `a`: it leaves the
source that `Aliases.issue` leaves, and what it makes uses the aliases that were issued.

There is a lemma for each function of the compiler; **`Compile.definition_follows`** is the one for definitions, and
`Definition.length_draws` says how many aliases are drawn for one that is compiled.
-/

namespace RecordStore

/-! ## Names of maps -/

namespace Fields

variable {α : Type} {m first second : Fields α} {name k : String} {v : α}

theorem mem_names_iff : k ∈ m.names ↔ m.has k = true := by
  rw [has_iff, names, List.mem_map]
  constructor
  · rintro ⟨entry, hentry, rfl⟩
    refine Option.ne_none_iff_exists'.1 fun hnone => ?_
    exact find_eq_none_iff.1 hnone entry hentry rfl
  · rintro ⟨v, hv⟩
    exact ⟨(k, v), mem_of_find hv, rfl⟩

theorem mem_names_put : k ∈ (put name v m).names ↔ k = name ∨ k ∈ m.names := by
  rw [mem_names_iff, mem_names_iff, has, find_put, has]
  by_cases h : name = k
  · simp [h]
  · simp [h, Ne.symm h]

theorem mem_names_merge : ∀ {first second : Fields α},
    k ∈ (merge first second).names ↔ k ∈ first.names ∨ k ∈ second.names
  | first, [] => by simp [merge_nil, names]
  | first, entry :: second => by
    rw [merge_cons, mem_names_merge, mem_names_put, names, names, names, List.map_cons, List.mem_cons]
    tauto

theorem mem_names_foldl_merge : ∀ {ms : List (Fields α)} {first : Fields α},
    k ∈ (ms.foldl merge first).names ↔ k ∈ first.names ∨ ∃ m ∈ ms, k ∈ m.names
  | [], _ => by simp
  | m :: ms, first => by
    rw [List.foldl_cons, mem_names_foldl_merge, mem_names_merge, List.exists_mem_cons_iff, or_assoc]

end Fields

/-! ## Issuing -/

/-- What an alias is for. -/
inductive AliasKind where
  | name
  | value
deriving DecidableEq, Repr

namespace Aliases

variable {suffix : String} {m n : Nat} {kind other : AliasKind}

/-- Issues an alias of a kind. -/
def draw : AliasKind → StateM Aliases String
  | .name => drawName
  | .value => drawValue

/-- Issues aliases of some kinds, one after the other. -/
def issue : List AliasKind → StateM Aliases (List String)
  | [] => pure []
  | kind :: rest => do
    let drawn ← draw kind
    let more ← issue rest
    return drawn :: more

/-- The alias of a kind with a number. -/
def aliasOf (suffix : String) : AliasKind → Nat → String
  | .name => nameAlias suffix
  | .value => valueAlias suffix

theorem draw_eq (kind : AliasKind) (a : Aliases) : draw kind a = (aliasOf a.suffix kind a.next, a.advance) := by
  cases kind <;> rfl

theorem issue_cons (kind : AliasKind) (kinds : List AliasKind) (a : Aliases) :
    issue (kind :: kinds) a =
      (aliasOf a.suffix kind a.next :: (issue kinds a.advance).1, (issue kinds a.advance).2) := by
  have hstep : issue (kind :: kinds) a =
    ((draw kind a).1 :: (issue kinds (draw kind a).2).1, (issue kinds (draw kind a).2).2) := rfl
  rw [hstep, draw_eq]

theorem issue_append : ∀ (kinds more : List AliasKind) (a : Aliases),
    issue (kinds ++ more) a =
      ((issue kinds a).1 ++ (issue more (issue kinds a).2).1, (issue more (issue kinds a).2).2)
  | [], _, _ => rfl
  | kind :: kinds, more, a => by
    rw [List.cons_append, issue_cons, issue_append kinds more, issue_cons]
    rfl

theorem length_issue : ∀ (kinds : List AliasKind) (a : Aliases), (issue kinds a).1.length = kinds.length
  | [], _ => rfl
  | kind :: kinds, a => by rw [issue_cons, List.length_cons, length_issue kinds, List.length_cons]

/-- The source has moved on by as many numbers as there were kinds. -/
theorem issue_source : ∀ (kinds : List AliasKind) (a : Aliases), a.next + kinds.length < Numeral.natBound →
    (issue kinds a).2 = { a with next := a.next + kinds.length }
  | [], _, _ => rfl
  | kind :: kinds, a, h => by
    rw [List.length_cons] at h
    rw [issue_cons, advance_eq (by omega), issue_source kinds _ (by dsimp only; omega), List.length_cons,
      Nat.add_right_comm]
    rfl

/-- The alias of a name is never that of a value, and the numbers tell aliases of one kind apart. -/
theorem aliasOf_inj (h : aliasOf suffix kind m = aliasOf suffix other n) : m = n := by
  cases kind <;> cases other
  · exact nameAlias_inj h
  · have hhead := congrArg (fun s : String => s.toList.head?) h
    simp [aliasOf, nameAlias, valueAlias] at hhead
  · have hhead := congrArg (fun s : String => s.toList.head?) h
    simp [aliasOf, nameAlias, valueAlias] at hhead
  · exact valueAlias_inj h

theorem issue_suffix : ∀ (kinds : List AliasKind) (a : Aliases), (issue kinds a).2.suffix = a.suffix
  | [], _ => rfl
  | kind :: kinds, a => by rw [issue_cons, issue_suffix kinds]; rfl

theorem isValueAlias_of_mem_issue : ∀ {n : Nat} {a : Aliases} {s : String}, a.Wordy →
    s ∈ (issue (List.replicate n .value) a).1 → Condition.IsValueAlias s
  | 0, _, _, _, h => by cases h
  | n + 1, a, s, ha, h => by
    rw [List.replicate_succ, issue_cons] at h
    rcases List.mem_cons.1 h with rfl | h
    · exact valueAlias_isValueAlias ha a.next
    · exact isValueAlias_of_mem_issue (a := a.advance) ha h

/-- What is issued has numbers that count on from the next one, around the range of numbers. -/
theorem mem_issue : ∀ {kinds : List AliasKind} {a : Aliases} {s : String}, s ∈ (issue kinds a).1 →
    ∃ kind k n, k < kinds.length ∧ n % Numeral.natBound = (a.next + k) % Numeral.natBound ∧
      s = aliasOf a.suffix kind n
  | [], _, _, h => by cases h
  | kind :: kinds, a, s, h => by
    rw [issue_cons] at h
    rcases List.mem_cons.1 h with rfl | h
    · exact ⟨kind, 0, a.next, Nat.succ_pos _, rfl, rfl⟩
    · obtain ⟨other, k, n, hk, hn, hs⟩ := mem_issue h
      refine ⟨other, k + 1, n, Nat.succ_lt_succ hk, ?_, hs⟩
      rw [hn, advance]
      dsimp only
      rw [Nat.mod_add_mod]
      congr 1
      omega

/-- **No alias is issued twice** within the range of numbers, wherever they start. -/
theorem nodup_issue_of_le : ∀ (kinds : List AliasKind) (a : Aliases), kinds.length ≤ Numeral.natBound →
    (issue kinds a).1.Nodup
  | [], _, _ => List.nodup_nil
  | kind :: kinds, a, hlength => by
    rw [List.length_cons] at hlength
    rw [issue_cons]
    refine List.nodup_cons.2 ⟨fun h => ?_, nodup_issue_of_le kinds _ (by omega)⟩
    -- a later alias is less than a whole range away
    obtain ⟨other, k, n, hk, hn, hs⟩ := mem_issue h
    obtain rfl := aliasOf_inj hs
    rw [advance] at hn
    dsimp only at hn
    rw [Nat.mod_add_mod] at hn
    have hdvd := (Nat.modEq_iff_dvd' (by omega)).1 (show a.next ≡ a.next + 1 + k [MOD Numeral.natBound] from hn)
    have hle := Nat.le_of_dvd (by omega) hdvd
    omega

/-- No alias is issued twice, as long as the numbers do not run out. -/
theorem nodup_issue (kinds : List AliasKind) (a : Aliases) (h : a.next + kinds.length < Numeral.natBound) :
    (issue kinds a).1.Nodup :=
  nodup_issue_of_le kinds a (by omega)

end Aliases

open Aliases (issue)

/-! ## Plans of drawing -/

/-- The kinds of the aliases that a computation draws, in turn, and whether it then comes to an end. -/
structure Draws where
  kinds : List AliasKind := []
  completes : Bool := true
deriving DecidableEq, Repr

namespace Draws

/-- Nothing is drawn, and the computation is refused. -/
def refused : Draws := { completes := false }

/-- What is drawn first, and what after it unless the computation was refused. -/
def andThen (p q : Draws) : Draws :=
  if p.completes then ⟨p.kinds ++ q.kinds, q.completes⟩ else p

/-- What computations draw one after the other, up to the first that is refused. -/
def inTurn : List Draws → Draws
  | [] => {}
  | p :: ps => p.andThen (inTurn ps)

theorem andThen_assoc (p q r : Draws) : (p.andThen q).andThen r = p.andThen (q.andThen r) := by
  unfold andThen
  cases hp : p.completes <;> cases hq : q.completes <;> simp [hp, hq]

theorem inTurn_append (ps qs : List Draws) : inTurn (ps ++ qs) = (inTurn ps).andThen (inTurn qs) := by
  induction ps with
  | nil => simp [inTurn, andThen]
  | cons p ps ih => rw [List.cons_append, inTurn, ih, inTurn, andThen_assoc]

/-- A computation that comes to an end draws so many aliases. -/
def Counts (p : Draws) (n : Nat) : Prop := p.completes = true → p.kinds.length = n

theorem Counts.andThen {p q : Draws} {m n : Nat} (hp : p.Counts m) (hq : q.Counts n) :
    (p.andThen q).Counts (m + n) := by
  unfold Draws.andThen
  intro h
  split at h
  · rename_i hcompletes
    rw [if_pos hcompletes, List.length_append, hp hcompletes, hq h]
  · contradiction

theorem counts_inTurn {α : Type} {draws : α → Draws} {count : α → Nat} (h : ∀ x, (draws x).Counts (count x)) :
    ∀ xs : List α, (inTurn (xs.map draws)).Counts (xs.map count).sum
  | [] => fun _ => rfl
  | x :: xs => by
    rw [List.map_cons, List.map_cons, List.sum_cons]
    exact (h x).andThen (counts_inTurn h xs)

end Draws

/-- What it draws to bind a test. -/
def Test.draws (test : Test) : Draws := ⟨.name :: List.replicate test.values.length .value, true⟩

/-- What it draws to compile a clause. -/
def Clause.draws (strict : Bool) (field : String) (c : Clause) : Draws :=
  match Test.checkClause strict field c with
  | .ok (some test) => test.draws
  | .ok none => {}
  | .error _ => .refused

/-- What it draws to compile what is asked of a field. -/
def Leaf.conditionDraws (strict : Bool) (l : Leaf) : Draws :=
  match l.condition with
  | .equals _ => ⟨[.name, .value], true⟩
  | .operators cs => .inTurn (cs.map (Clause.draws strict l.field))

/-- What it draws to compile a leaf, which is refused in the end if nothing is asked. -/
def Leaf.draws (strict : Bool) (l : Leaf) : Draws :=
  (l.conditionDraws strict).andThen (if (l.conditionDraws strict).kinds.isEmpty then .refused else {})

/-- What it draws to compile a definition and a projection on some fields. -/
def Definition.draws (strict : Bool) (d : Definition) (fields : List String) : Draws :=
  (Draws.inTurn (d.all.map (Leaf.draws strict))).andThen ⟨List.replicate fields.length .name, true⟩

/-- What it draws to compile a definition as a condition on keys. -/
def Definition.keyDraws (strict : Bool) (d : Definition) (fields : List String) : Draws :=
  match Compile.checkKey d with
  | .ok _ => d.draws strict fields
  | .error _ => .refused

section

variable {strict : Bool}

theorem Clause.counts_draws (field : String) (c : Clause) : (c.draws strict field).Counts c.aliasCount := by
  unfold draws
  split
  · rename_i test h
    intro _
    rcases Compile.checkClause_ok h with ⟨hnone, -⟩ | ⟨other, heq, hcount, -⟩
    · cases hnone
    · cases heq
      rw [Test.draws, List.length_cons, List.length_replicate, hcount, Nat.add_comm]
  · rename_i h
    intro _
    rcases Compile.checkClause_ok h with ⟨-, hcount, -⟩ | ⟨test, heq, -⟩
    · exact hcount.symm
    · cases heq
  · exact nofun

theorem Leaf.counts_draws (l : Leaf) : (l.draws strict).Counts l.aliasCount := by
  have hcondition : (l.conditionDraws strict).Counts l.aliasCount := by
    obtain ⟨field, condition⟩ := l
    cases condition with
    | equals value => exact fun _ => rfl
    | operators cs => exact Draws.counts_inTurn (Clause.counts_draws field) cs
  refine hcondition.andThen (n := 0) ?_
  split
  · exact nofun
  · exact fun _ => rfl

/-- A definition that is compiled takes an alias for each of its names and values, and for each field. -/
theorem Definition.length_draws {d : Definition} {fields : List String}
    (h : (d.draws strict fields).completes = true) :
    (d.draws strict fields).kinds.length = d.aliasCount + fields.length :=
  (Draws.counts_inTurn Leaf.counts_draws d.all).andThen (fun _ => List.length_replicate) h

end

/-! ## What a computation draws -/

namespace Compile

variable {α β : Type} {strict : Bool} {a : Aliases} {p q : Draws}

/-- The computation draws as planned, and what it makes uses the aliases that were issued. -/
structure Follows (x : Compile α) (a : Aliases) (draws : Draws) (Uses : α → List String → Prop) : Prop where
  source : (x a).2 = (issue draws.kinds a).2
  completes : (x a).1.isOk = draws.completes
  uses : ∀ r, (x a).1 = .ok r → Uses r (issue draws.kinds a).1

/-- A source stays one whose suffix can end a word. -/
theorem Follows.wordy {x : Compile α} {Uses : α → List String → Prop} (h : Follows x a p Uses)
    (ha : a.Wordy) : (x a).2.Wordy := by
  rw [h.source, Aliases.Wordy, Aliases.issue_suffix]
  exact ha

theorem Follows.pure {Uses : α → List String → Prop} {x : α} (h : Uses x []) :
    Follows (Pure.pure x : Compile α) a {} Uses :=
  ⟨rfl, rfl, fun _ hr => by cases hr; exact h⟩

theorem Follows.refused {Uses : α → List String → Prop} (e : CompileError) :
    Follows (ofExcept (.error e) : Compile α) a .refused Uses :=
  ⟨rfl, rfl, fun _ hr => by cases hr⟩

/-- Of two computations the second draws behind the first, unless that was refused. -/
theorem Follows.bind {x : Compile α} {f : α → Compile β} {Uses : α → List String → Prop}
    {Whole : β → List String → Prop} (hx : Follows x a p Uses)
    (hf : ∀ r log b, issue p.kinds a = (log, b) → Uses r log →
      Follows (f r) b q fun s more => Whole s (log ++ more)) :
    Follows (x >>= f) a (p.andThen q) Whole := by
  obtain ⟨hsource, hcompletes, huses⟩ := hx
  have hbind := Call.bind_eq x f a
  rcases hxa : x a with ⟨r | r, b⟩
  · rw [hxa] at hbind hsource hcompletes
    have hp : p.andThen q = p := by
      rw [Draws.andThen, ← hcompletes]
      rfl
    rw [hp]
    exact ⟨by rw [hbind]; exact hsource, by rw [hbind]; exact hcompletes, fun s hs => by rw [hbind] at hs; cases hs⟩
  · rw [hxa] at hbind hsource hcompletes huses
    have hp : p.andThen q = ⟨p.kinds ++ q.kinds, q.completes⟩ := by
      rw [Draws.andThen, ← hcompletes]
      rfl
    have hb : (issue p.kinds a).2 = b := hsource.symm
    obtain ⟨hsource', hcompletes', huses'⟩ := hf r _ b (Prod.ext rfl hb) (huses r rfl)
    refine ⟨?_, ?_, fun s hs => ?_⟩
    · rw [hp, Aliases.issue_append, hb, hbind]
      exact hsource'
    · rw [hp, hbind]
      exact hcompletes'
    · rw [hp, Aliases.issue_append, hb]
      rw [hbind] at hs
      exact huses' s hs

theorem Follows.map {x : Compile α} {f : α → β} {Uses : α → List String → Prop} {Whole : β → List String → Prop}
    (hx : Follows x a p Uses) (h : ∀ r log, Uses r log → Whole (f r) log) : Follows (f <$> x) a p Whole := by
  obtain ⟨hsource, hcompletes, huses⟩ := hx
  have hmap := Call.map_eq f x a
  refine ⟨by rw [hmap]; exact hsource, ?_, fun s hs => ?_⟩
  · rw [hmap, ← hcompletes]
    cases (x a).1 <;> rfl
  · rw [hmap] at hs
    obtain ⟨r, hr, rfl⟩ := map_eq_ok.1 hs
    exact h r _ (huses r hr)

/-- Drawing alone is never refused. -/
theorem Follows.lift {draw : StateM Aliases α} {kinds : List AliasKind} {Uses : α → List String → Prop}
    (hsource : (draw a).2 = (issue kinds a).2) (huses : Uses (draw a).1 (issue kinds a).1) :
    Follows (Compile.lift draw) a ⟨kinds, true⟩ Uses :=
  ⟨hsource, rfl, fun r hr => by cases hr; exact huses⟩

/-! ## Conditions -/

end Compile

theorem Test.bindValues_issue : ∀ (vs : List Attribute) (a : Aliases),
    (Test.bindValues vs a).1.map (·.1) = (issue (List.replicate vs.length .value) a).1 ∧
      (Test.bindValues vs a).2 = (issue (List.replicate vs.length .value) a).2
  | [], _ => ⟨rfl, rfl⟩
  | v :: vs, a => by
    obtain ⟨hnames, hsource⟩ := Test.bindValues_issue vs a.advance
    rw [List.length_cons, List.replicate_succ, Aliases.issue_cons, ← hnames, ← hsource]
    exact ⟨rfl, rfl⟩

theorem Compile.bindNames_issue : ∀ (fields : List String) (a : Aliases),
    (Compile.bindNames fields a).1.map (·.1) = (issue (List.replicate fields.length .name) a).1 ∧
      (Compile.bindNames fields a).2 = (issue (List.replicate fields.length .name) a).2
  | [], _ => ⟨rfl, rfl⟩
  | field :: fields, a => by
    obtain ⟨hnames, hsource⟩ := Compile.bindNames_issue fields a.advance
    rw [List.length_cons, List.replicate_succ, Aliases.issue_cons, ← hnames, ← hsource]
    exact ⟨rfl, rfl⟩

/-- A test is bound under a name alias, with an alias for each of its values. -/
theorem Test.bind_drawn {a : Aliases} (ha : a.Wordy) (field : String) (test : Test) :
    ∃ name keys, Condition.IsNameAlias name ∧ keys.length = test.values.length ∧
      (∀ key ∈ keys, Condition.IsValueAlias key) ∧ (test.bind field a).1.condition = test.condition name keys ∧
      (test.bind field a).1.names = [(name, field)] ∧ ∀ s, s ∈ (test.bind field a).1.values.names ↔ s ∈ keys := by
  obtain ⟨hvalues, -⟩ := Test.bindValues_issue test.values a.advance
  have hl := Aliases.length_issue (List.replicate test.values.length .value) a.advance
  rw [List.length_replicate] at hl
  refine ⟨Aliases.nameAlias a.suffix a.next, (issue (List.replicate test.values.length .value) a.advance).1,
    Aliases.nameAlias_isNameAlias ha a.next, hl, fun _ => Aliases.isValueAlias_of_mem_issue (a := a.advance) ha, ?_,
    rfl, fun s => ?_⟩
  · rw [← hvalues]
    rfl
  · have hbound : (test.bind field a).1.values = Fields.ofList (Test.bindValues test.values a.advance).1 := rfl
    rw [hbound, Fields.ofList_eq_merge, Fields.mem_names_merge, ← hvalues]
    simp [Fields.names]

namespace BoundCondition

variable {bs cs : List BoundCondition} {log more : List String}

/-- The aliases of a condition. -/
def aliases (b : BoundCondition) : List String := b.names.names ++ b.values.names

/-- The aliases of some conditions are those in a list. -/
structure Use (bs : List BoundCondition) (log : List String) : Prop where
  mem_iff : ∀ s, s ∈ bs.flatMap aliases ↔ s ∈ log
  nil_iff : bs = [] ↔ log = []

theorem Use.nil : Use [] [] := ⟨fun _ => Iff.rfl, iff_of_true rfl rfl⟩

theorem Use.append (h : Use bs log) (h' : Use cs more) : Use (bs ++ cs) (log ++ more) := by
  refine ⟨fun s => ?_, ?_⟩
  · rw [List.flatMap_append, List.mem_append, h.mem_iff, h'.mem_iff, List.mem_append]
  · rw [List.append_eq_nil_iff, List.append_eq_nil_iff, h.nil_iff, h'.nil_iff]

theorem mem_allNames {s : String} : s ∈ (allNames bs).names ↔ ∃ b ∈ bs, s ∈ b.names.names := by
  rw [allNames, ← List.foldl_map, Fields.mem_names_foldl_merge]
  simp [Fields.names]

theorem mem_allValues {s : String} : s ∈ (allValues bs).names ↔ ∃ b ∈ bs, s ∈ b.values.names := by
  rw [allValues, ← List.foldl_map, Fields.mem_names_foldl_merge]
  simp [Fields.names]

/-- The maps of all conditions have the aliases of each. -/
theorem mem_allAliases {s : String} :
    s ∈ (allNames bs).names ++ (allValues bs).names ↔ s ∈ bs.flatMap aliases := by
  rw [List.mem_append, mem_allNames, mem_allValues, List.mem_flatMap, ← exists_or]
  simp only [aliases, List.mem_append, and_or_left]

/-- What conditions are joined to, of which there is one at least. -/
theorem eq_of_all {b : BoundCondition} (hb : BoundCondition.all bs = some b) :
    bs ≠ [] ∧ b = ⟨.conjunction (bs.map (·.condition)), allNames bs, allValues bs⟩ := by
  cases bs with
  | nil => cases hb
  | cons c bs => exact ⟨nofun, (Option.some.inj hb).symm⟩

/-- Conditions that are joined use what they use apart. -/
theorem Use.all {b : BoundCondition} (h : Use bs log) (hb : BoundCondition.all bs = some b) : Use [b] log := by
  obtain ⟨hne, heq⟩ := eq_of_all hb
  refine ⟨fun s => ?_, iff_of_false nofun fun hlog => hne (h.nil_iff.2 hlog)⟩
  rw [← h.mem_iff, ← @mem_allAliases bs, heq, List.flatMap_singleton]
  rfl

end BoundCondition

open BoundCondition (Use)

namespace Compile

variable {strict : Bool} {a : Aliases}

theorem bind_follows (field : String) (test : Test) (a : Aliases) :
    Follows (lift (test.bind field)) a test.draws fun b log => Use [b] log := by
  obtain ⟨hvalues, hsource⟩ := Test.bindValues_issue test.values a.advance
  refine .lift ?_ ⟨fun s => ?_, iff_of_false (List.cons_ne_nil _ _) ?_⟩
  · rw [Aliases.issue_cons, ← hsource]
    rfl
  · rw [Aliases.issue_cons, ← hvalues, List.mem_cons, List.flatMap_singleton, BoundCondition.aliases, List.mem_append]
    have hbound : s ∈ (Fields.ofList (Test.bindValues test.values a.advance).1).names ↔
        s ∈ (Test.bindValues test.values a.advance).1.map (·.1) := by
      rw [Fields.ofList_eq_merge, Fields.mem_names_merge]
      simp [Fields.names]
    refine or_congr ?_ hbound
    exact List.mem_singleton
  · rw [Aliases.issue_cons]
    exact List.cons_ne_nil _ _

theorem clause_follows (field : String) (c : Clause) (a : Aliases) :
    Follows (clause strict field c) a (c.draws strict field) fun o log => Use o.toList log := by
  unfold clause Clause.draws
  cases Test.checkClause strict field c with
  | error e => exact .refused e
  | ok o =>
    cases o with
    | none => exact .pure .nil
    | some test => exact (bind_follows field test a).map fun _ _ h => h

theorem clauses_follows (field : String) : ∀ (cs : List Clause) (a : Aliases),
    Follows (clauses strict field cs) a (.inTurn (cs.map (Clause.draws strict field))) Use
  | [], _ => .pure .nil
  | c :: cs, a => by
    refine (clause_follows field c a).bind fun o log b _ ho => ?_
    refine (clauses_follows field cs b).map fun bs more hbs => ?_
    exact ho.append hbs

theorem conditions_follows (l : Leaf) (a : Aliases) :
    Follows (conditions strict l) a (l.conditionDraws strict) Use := by
  obtain ⟨field, condition⟩ := l
  cases condition with
  | equals value => exact (bind_follows field (.compare .eq (.ofJson value)) a).map fun _ _ h => h
  | operators cs => exact clauses_follows field cs a

theorem leaf_follows (l : Leaf) (a : Aliases) :
    Follows (leaf strict l) a (l.draws strict) fun b log => Use [b] log := by
  refine (conditions_follows l a).bind fun bs log b hissue huse => ?_
  -- nothing is asked just where no alias was drawn
  have hempty : (l.conditionDraws strict).kinds.isEmpty = true ↔ bs = [] := by
    have hlength := Aliases.length_issue (l.conditionDraws strict).kinds a
    rw [hissue] at hlength
    rw [huse.nil_iff, List.isEmpty_iff, ← List.length_eq_zero_iff, ← List.length_eq_zero_iff, hlength]
  cases hall : BoundCondition.all bs with
  | none =>
    have hbs : bs = [] := by
      cases bs with
      | nil => rfl
      | cons c bs => cases hall
    rw [if_pos (hempty.2 hbs)]
    exact .refused _
  | some c =>
    have hbs : bs ≠ [] := by
      rintro rfl
      cases hall
    rw [if_neg fun h => hbs (hempty.1 h)]
    exact .pure (by rw [List.append_nil]; exact huse.all hall)

theorem leaves_follows : ∀ (ls : List Leaf) (a : Aliases),
    Follows (leaves strict ls) a (.inTurn (ls.map (Leaf.draws strict))) Use
  | [], _ => .pure .nil
  | l :: ls, a => by
    refine (leaf_follows l a).bind fun c log b _ hc => ?_
    refine (leaves_follows ls b).map fun cs more hcs => ?_
    exact hc.append hcs

end Compile

/-- The aliases of a compiled definition. -/
def Compiled.aliases (c : Compiled) : List String := c.names.names ++ c.values.names

namespace Compile

variable {strict : Bool}

/-- **The compilation of a definition** draws as planned, and the compiled definition has just these aliases. -/
theorem definition_follows (d : Definition) (fields : List String) (a : Aliases) :
    Follows (definition strict d fields) a (d.draws strict fields) fun c log => ∀ s, s ∈ c.aliases ↔ s ∈ log := by
  have hdraws : d.draws strict fields = (Draws.inTurn (d.required.map (Leaf.draws strict))).andThen
      ((Draws.inTurn (d.alternatives.map (Leaf.draws strict))).andThen
        ⟨List.replicate fields.length .name, true⟩) := by
    rw [Definition.draws, Definition.all, List.map_append, Draws.inTurn_append, Draws.andThen_assoc]
  rw [hdraws]
  refine (leaves_follows d.required a).bind fun required log b _ hr => ?_
  refine (leaves_follows d.alternatives b).bind fun alternatives more b' _ hs => ?_
  obtain ⟨hnames, hsource⟩ := bindNames_issue fields b'
  have hprojected : Follows (lift (bindNames fields)) b' ⟨List.replicate fields.length .name, true⟩
      fun projected rest => projected.map (·.1) = rest := .lift hsource hnames
  refine hprojected.map ?_
  rintro projected rest rfl s
  have hsides := (hr.append hs).mem_iff s
  rw [← BoundCondition.mem_allAliases, List.mem_append] at hsides
  rw [Compiled.aliases, List.mem_append, Fields.mem_names_merge, ← List.append_assoc, List.mem_append, ← hsides]
  tauto

theorem keyCondition_follows (d : Definition) (fields : List String) (a : Aliases) :
    Follows (keyCondition strict d fields) a (d.keyDraws strict fields) fun c log =>
      ∀ s, s ∈ c.aliases ↔ s ∈ log := by
  unfold keyCondition Definition.keyDraws
  cases checkKey d with
  | error e => exact .refused e
  | ok u => exact definition_follows d fields a

end Compile

end RecordStore
