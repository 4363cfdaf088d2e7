import RecordStore.Proofs.Collection.Expressions
import RecordStore.Proofs.Query.Drawing

/-!
# Sessions of compilation

A session compiles definitions one after the other with one source of aliases; some may be refused, also midway, and
what these drew stays drawn. `Compile.session` is what comes of a session, and `Compile.issued` the aliases that are
issued to each of its calls. As long as the numbers do not run out, none is issued twice, whatever the suffix begins
with.

So any two results of a session can go into one request: `Compiled.Undisturbed k f` says that in the request with `k`
for its key condition and `f` for its filter no alias loses what it stands for, and that the store makes of the key
condition, the filter and the projection what it makes of them apart.

**`Compile.session_undisturbed`** is all of this for every session.
-/

namespace RecordStore

open Fields (Within)

/-! ## What the store makes of expressions -/

namespace MemoryStore

/-- Whether an item meets a condition that may be absent: it is read, its aliases are checked, and it is evaluated. -/
def judge (names : NameAliases) (values : ValueAliases) (condition : Option String) (item : Item) :
    Except StoreError Bool := do
  match ← parseOptional Expr.parse condition with
  | none => .ok true
  | some e =>
    ofExpr (e.check names values)
    ofExpr (e.eval ⟨item, names, values⟩)

/-- What a projection that may be absent selects of an item. -/
def select (names : NameAliases) (projection : Option String) (item : Item) : Except StoreError Item := do
  let paths ← parseOptional Path.parseList projection
  return projected names paths item

end MemoryStore

open MemoryStore (judge select)

theorem Says.judge {names : NameAliases} {values : ValueAliases} {condition : Option String} {p : Item → Bool}
    (h : Says names values condition p) (item : Item) : judge names values condition item = .ok (p item) := by
  cases h with
  | nothing hp => exact congrArg Except.ok (hp item).symm
  | @text s e p hparse hmeans =>
    have hread : MemoryStore.parseOptional Expr.parse (some s) = .ok (some e) := by
      rw [MemoryStore.parseOptional, hparse]
      rfl
    have hjudge : MemoryStore.judge names values (some s) item =
        (MemoryStore.ofExpr (e.check names values) >>= fun _ => MemoryStore.ofExpr (e.eval ⟨item, names, values⟩)) := by
      rw [MemoryStore.judge, hread]
      rfl
    rw [hjudge, hmeans.check, hmeans.eval]
    rfl

/-- A projection selects the same wherever it keeps the same attributes. -/
theorem Projects.select_eq {names other : NameAliases} {projection : Option String} {fields : List String}
    (h : Projects names projection fields) (h' : Projects other projection fields) (item : Item) :
    ∃ out, select names projection item = .ok out ∧ select other projection item = .ok out := by
  cases h with
  | all => exact ⟨item, rfl, rfl⟩
  | @fields s paths fields _ hparse _ hresolve =>
    cases h' with
    | @fields _ paths' _ _ hparse' _ hresolve' =>
      have hpaths : paths = paths' := Except.ok.inj (hparse.symm.trans hparse')
      subst hpaths
      -- both put together the same attributes
      obtain ⟨hordered, hfind⟩ := @Scope.find_project ⟨item, names, []⟩ _ _ hresolve [] Fields.ordered_nil
      obtain ⟨hordered', hfind'⟩ := @Scope.find_project ⟨item, other, []⟩ _ _ hresolve' [] Fields.ordered_nil
      have hout : Scope.project ⟨item, names, []⟩ paths = Scope.project ⟨item, other, []⟩ paths :=
        hordered.ext hordered' fun k => (hfind k).trans (hfind' k).symm
      refine ⟨Scope.project ⟨item, names, []⟩ paths, ?_, ?_⟩
      · simp only [select, MemoryStore.parseOptional, hparse]
        rfl
      · simp only [select, MemoryStore.parseOptional, hparse, hout]
        rfl

/-! ## Results in one request -/

namespace Compiled

/-- No alias of one result is one of the other. -/
structure Apart (k f : Compiled) : Prop where
  names : ∀ s, k.names.has s = true → f.names.has s = false
  values : ∀ s, k.values.has s = true → f.values.has s = false

/-- In one request with a condition on keys and a filter each of them comes to what it comes to alone. -/
structure Undisturbed (k f : Compiled) (x : Expressions) : Prop where
  bindings : Within k.names x.names ∧ Within k.values x.values ∧ Within f.names x.names ∧ Within f.values x.values
  keyCondition : ∀ item, ∃ b, judge k.names k.values k.condition? item = .ok b ∧
    judge x.names x.values x.keyCondition item = .ok b
  filter : ∀ item, ∃ b, judge f.names f.values f.condition? item = .ok b ∧
    judge x.names x.values x.filter item = .ok b
  /-- The projection is the one of the condition on keys, or of the filter if that has none. -/
  projection : ∀ item, ∃ out, select x.names x.projection item = .ok out ∧
    if k.projection.isSome then select k.names k.projection item = .ok out
    else select f.names f.projection item = .ok out

/-- What a result says and keeps, also among more aliases. -/
structure Stands (c : Compiled) : Prop where
  names : c.names.Ordered
  values : c.values.Ordered
  meaning : ∃ p, ∀ {names : NameAliases} {values : ValueAliases}, Within c.names names → Within c.values values →
    Says names values c.condition? p
  projects : ∃ fields, ∀ {names : NameAliases}, Within c.names names → Projects names c.projection fields

theorem Apart.symm {k f : Compiled} (h : k.Apart f) : f.Apart k := by
  constructor
  · exact fun s hs => Bool.eq_false_iff.2 fun hs' => Bool.eq_false_iff.1 (h.names s hs') hs
  · exact fun s hs => Bool.eq_false_iff.2 fun hs' => Bool.eq_false_iff.1 (h.values s hs') hs

theorem Stands.judge_eq {c : Compiled} (h : c.Stands) {names : NameAliases} {values : ValueAliases}
    (hn : Within c.names names) (hv : Within c.values values) (item : Item) :
    ∃ b, judge c.names c.values c.condition? item = .ok b ∧ judge names values c.condition? item = .ok b := by
  obtain ⟨p, hmeaning⟩ := h.meaning
  exact ⟨p item, (hmeaning (.refl _) (.refl _)).judge item, (hmeaning hn hv).judge item⟩

theorem Stands.select_eq {c : Compiled} (h : c.Stands) {names : NameAliases} (hn : Within c.names names)
    (item : Item) :
    ∃ out, select names c.projection item = .ok out ∧ select c.names c.projection item = .ok out := by
  obtain ⟨fields, hprojects⟩ := h.projects
  exact (hprojects hn).select_eq (hprojects (.refl _)) item

/-- A result goes into one request with itself or with one that has none of its aliases. -/
theorem Stands.undisturbed {k f : Compiled} (hk : k.Stands) (hf : f.Stands) (h : k = f ∨ k.Apart f) :
    Undisturbed k f ((Expressions.ofKeyCondition k).addFilter f) := by
  have hnames : Within k.names (k.names.merge f.names) := by
    rcases h with rfl | h
    · exact Fields.within_merge_right hk.names
    · exact Fields.within_merge_left hf.names h.names
  have hvalues : Within k.values (k.values.merge f.values) := by
    rcases h with rfl | h
    · exact Fields.within_merge_right hk.values
    · exact Fields.within_merge_left hf.values h.values
  have hnames' : Within f.names (k.names.merge f.names) := Fields.within_merge_right hf.names
  have hvalues' : Within f.values (k.values.merge f.values) := Fields.within_merge_right hf.values
  have hfilter : ((Expressions.ofKeyCondition k).addFilter f).filter = f.condition? := by
    simp [Expressions.addFilter, Expressions.ofKeyCondition]
  refine ⟨⟨hnames, hvalues, hnames', hvalues'⟩, hk.judge_eq hnames hvalues, ?_, fun item => ?_⟩
  · rw [hfilter]
    exact hf.judge_eq hnames' hvalues'
  · cases hp : k.projection with
    | some s =>
      obtain ⟨out, hmerged, hown⟩ := hk.select_eq hnames item
      rw [hp] at hmerged hown
      have hx : ((Expressions.ofKeyCondition k).addFilter f).projection = some s := by
        simp [Expressions.addFilter, Expressions.ofKeyCondition, hp]
      rw [hx]
      exact ⟨out, hmerged, hown⟩
    | none =>
      obtain ⟨out, hmerged, hown⟩ := hf.select_eq hnames' item
      have hx : ((Expressions.ofKeyCondition k).addFilter f).projection = f.projection := by
        simp [Expressions.addFilter, Expressions.ofKeyCondition, hp]
      rw [hx]
      exact ⟨out, hmerged, hown⟩

end Compiled

/-! ## Sessions -/

/-- A call in a session: a definition to compile, as a condition on keys or not, with a projection on some fields. -/
structure CompileCall where
  isKey : Bool := false
  definition : Definition
  fields : List String := []
deriving DecidableEq, Repr

namespace CompileCall

/-- Compiles the definition of a call. -/
def run (strict : Bool) (c : CompileCall) : Compile Compiled :=
  if c.isKey then Compile.keyCondition strict c.definition c.fields
  else Compile.definition strict c.definition c.fields

/-- What a call draws. -/
def draws (strict : Bool) (c : CompileCall) : Draws :=
  if c.isKey then c.definition.keyDraws strict c.fields else c.definition.draws strict c.fields

variable {strict : Bool} {c : CompileCall} {a a' : Aliases} {r : Compiled}

theorem run_follows (c : CompileCall) (a : Aliases) :
    Compile.Follows (c.run strict) a (c.draws strict) fun r log => ∀ s, s ∈ r.aliases ↔ s ∈ log := by
  unfold run draws
  split
  · exact Compile.keyCondition_follows c.definition c.fields a
  · exact Compile.definition_follows c.definition c.fields a

/-- A call that succeeds compiles its definition, and draws what that takes. -/
theorem run_ok (h : c.run strict a = (.ok r, a')) :
    Compile.definition strict c.definition c.fields a = (.ok r, a') ∧
      (c.draws strict).kinds.length = c.definition.aliasCount + c.fields.length := by
  have hcompletes : (c.draws strict).completes = true := by
    rw [← (run_follows c a).completes, h]
    rfl
  unfold run at h
  unfold draws at hcompletes ⊢
  split at h
  · rename_i hkey
    rw [if_pos hkey] at hcompletes ⊢
    obtain ⟨u, b, hcheck, h⟩ := Call.bind_ok h
    obtain ⟨hok, rfl⟩ := Compile.ofExcept_ok hcheck
    have hdraws : c.definition.keyDraws strict c.fields = c.definition.draws strict c.fields := by
      rw [Definition.keyDraws, hok]
    rw [hdraws] at hcompletes ⊢
    exact ⟨h, Definition.length_draws hcompletes⟩
  · rename_i hkey
    rw [if_neg hkey] at hcompletes ⊢
    exact ⟨h, Definition.length_draws hcompletes⟩

theorem run_stands (ha : a.Wordy) (hn : a.next + (c.draws strict).kinds.length < Numeral.natBound)
    (h : (c.run strict a).1 = .ok r) : r.Stands := by
  obtain ⟨hdefinition, hlength⟩ := run_ok (Prod.ext h rfl)
  rw [hlength] at hn
  obtain ⟨-, hspeaks⟩ := Compile.definition_speaks ha hn hdefinition
  exact ⟨hspeaks.names.ordered, hspeaks.values.ordered, ⟨_, hspeaks.meaning⟩,
    ⟨_, Compile.definition_projects ha hn hdefinition⟩⟩

end CompileCall

namespace Compile

/-- Compiles the definitions of calls one after the other. -/
def session (strict : Bool) : List CompileCall → StateM Aliases (List (Except CompileError Compiled))
  | [] => pure []
  | c :: rest => do
    let result ← (c.run strict).run
    let more ← session strict rest
    return result :: more

/-- The aliases that are issued to each call of a session. -/
def issued (strict : Bool) : List CompileCall → StateM Aliases (List (List String))
  | [] => pure []
  | c :: rest => do
    let log ← Aliases.issue (c.draws strict).kinds
    let more ← issued strict rest
    return log :: more

/-- How many aliases a session draws. -/
def drawCount (strict : Bool) (calls : List CompileCall) : Nat :=
  (calls.map fun c => (c.draws strict).kinds.length).sum

variable {strict : Bool} {c : CompileCall} {calls : List CompileCall} {a : Aliases}

theorem session_cons (c : CompileCall) (calls : List CompileCall) (a : Aliases) :
    session strict (c :: calls) a =
      ((c.run strict a).1 :: (session strict calls (c.run strict a).2).1,
        (session strict calls (c.run strict a).2).2) := rfl

theorem issued_cons (c : CompileCall) (calls : List CompileCall) (a : Aliases) :
    issued strict (c :: calls) a =
      ((Aliases.issue (c.draws strict).kinds a).1 ::
          (issued strict calls (Aliases.issue (c.draws strict).kinds a).2).1,
        (issued strict calls (Aliases.issue (c.draws strict).kinds a).2).2) := rfl

/-- A session leaves the source that issuing its aliases leaves, and its results have the aliases issued to them. -/
theorem session_issued : ∀ (calls : List CompileCall) (a : Aliases),
    (session strict calls a).2 = (issued strict calls a).2 ∧
      List.Forall₂ (fun result log => ∀ r, result = .ok r → ∀ s, s ∈ r.aliases ↔ s ∈ log)
        (session strict calls a).1 (issued strict calls a).1
  | [], _ => ⟨rfl, .nil⟩
  | c :: calls, a => by
    obtain ⟨hsource, -, huses⟩ := @CompileCall.run_follows strict c a
    obtain ⟨hrest, hresults⟩ := session_issued calls (c.run strict a).2
    rw [session_cons, issued_cons, ← hsource]
    exact ⟨hrest, .cons huses hresults⟩

/-- All aliases of a session are issued one after the other. -/
theorem issued_eq_issue : ∀ (calls : List CompileCall) (a : Aliases),
    (issued strict calls a).1.flatten = (Aliases.issue (calls.flatMap fun c => (c.draws strict).kinds) a).1 ∧
      (issued strict calls a).2 = (Aliases.issue (calls.flatMap fun c => (c.draws strict).kinds) a).2
  | [], _ => ⟨rfl, rfl⟩
  | c :: calls, a => by
    obtain ⟨hlogs, hsource⟩ := issued_eq_issue calls (Aliases.issue (c.draws strict).kinds a).2
    rw [issued_cons, List.flatMap_cons, Aliases.issue_append, List.flatten_cons, hlogs, hsource]
    exact ⟨rfl, rfl⟩

theorem length_kinds (calls : List CompileCall) :
    (calls.flatMap fun c => (c.draws strict).kinds).length = drawCount strict calls := List.length_flatMap

/-- Every result of a session stands. -/
theorem session_stands : ∀ {calls : List CompileCall} {a : Aliases}, a.Wordy →
    a.next + drawCount strict calls < Numeral.natBound → ∀ r, Except.ok r ∈ (session strict calls a).1 → r.Stands
  | [], _, _, _, _, h => by cases h
  | c :: calls, a, ha, hn, r, h => by
    rw [drawCount, List.map_cons, List.sum_cons] at hn
    rw [session_cons] at h
    rcases List.mem_cons.1 h with h | h
    · exact CompileCall.run_stands ha (by omega) h.symm
    · -- the rest draws behind this call, whether that was refused or not
      have hsource : (c.run strict a).2 = { a with next := a.next + (c.draws strict).kinds.length } := by
        rw [(CompileCall.run_follows c a).source, Aliases.issue_source _ _ (by omega)]
      rw [hsource] at h
      exact session_stands (a := { a with next := a.next + (c.draws strict).kinds.length }) ha
        (by rw [drawCount]; dsimp only; omega) r h

/-- Results to which different aliases were issued have none in common. -/
theorem apart_of_disjoint {k f : Compiled} {log more : List String} (hk : ∀ s, s ∈ k.aliases ↔ s ∈ log)
    (hf : ∀ s, s ∈ f.aliases ↔ s ∈ more) (hd : log.Disjoint more) : k.Apart f := by
  constructor
  · intro s hs
    refine Bool.eq_false_iff.2 fun hs' => hd ((hk s).1 ?_) ((hf s).1 ?_)
    · exact List.mem_append_left _ (Fields.mem_names_iff.2 hs)
    · exact List.mem_append_left _ (Fields.mem_names_iff.2 hs')
  · intro s hs
    refine Bool.eq_false_iff.2 fun hs' => hd ((hk s).1 ?_) ((hf s).1 ?_)
    · exact List.mem_append_right _ (Fields.mem_names_iff.2 hs)
    · exact List.mem_append_right _ (Fields.mem_names_iff.2 hs')

/-- What is related to one thing each. -/
theorem exists_related {α β : Type} {R : α → β → Prop} {xs : List α} {ys : List β} (h : List.Forall₂ R xs ys) :
    ∀ x ∈ xs, ∃ y ∈ ys, R x y := by
  induction h with
  | nil => exact nofun
  | @cons x y xs ys hxy _ ih =>
    refine List.forall_mem_cons.2 ⟨⟨y, List.mem_cons_self, hxy⟩, fun x' hx' => ?_⟩
    obtain ⟨y', hy', hxy'⟩ := ih x' hx'
    exact ⟨y', List.mem_cons_of_mem _ hy', hxy'⟩

/-- Results whose aliases were issued to them alone have no alias in common. -/
theorem pairwise_apart {results : List (Except CompileError Compiled)} {logs : List (List String)}
    (h : List.Forall₂ (fun result log => ∀ r, result = .ok r → ∀ s, s ∈ r.aliases ↔ s ∈ log) results logs)
    (hd : logs.Pairwise List.Disjoint) :
    results.Pairwise fun first second => ∀ k f, first = .ok k → second = .ok f → k.Apart f := by
  induction h with
  | nil => exact .nil
  | @cons result log results logs hresult hresults ih =>
    obtain ⟨hfirst, hrest⟩ := List.pairwise_cons.1 hd
    refine List.pairwise_cons.2 ⟨fun second hsecond k f hk hf => ?_, ih hrest⟩
    obtain ⟨more, hmore, huses⟩ := exists_related hresults second hsecond
    exact apart_of_disjoint (hresult k hk) (huses f hf) (hfirst more hmore)

/--
**Sessions keep their aliases apart.** If the numbers do not run out, no alias of a session is issued twice, and no two
of its results have an alias in common; and in a request with any two of them each comes to what it comes to alone.
-/
theorem session_undisturbed (strict : Bool) (calls : List CompileCall) (start : Nat) (suffix : String)
    (hn : start + drawCount strict calls < Numeral.natBound) :
    let a := Aliases.startingAt start suffix
    let results := (session strict calls a).1
    let logs := (issued strict calls a).1
    (session strict calls a).2 = { a with next := start + drawCount strict calls } ∧ logs.flatten.Nodup ∧
      List.Forall₂ (fun result log => ∀ r, result = .ok r → ∀ s, s ∈ r.aliases ↔ s ∈ log) results logs ∧
      (results.Pairwise fun first second => ∀ k f, first = .ok k → second = .ok f → k.Apart f) ∧
      ∀ k f, .ok k ∈ results → .ok f ∈ results → k.Undisturbed f ((Expressions.ofKeyCondition k).addFilter f) := by
  intro a results logs
  obtain ⟨hsource, hresults⟩ := @session_issued strict calls a
  obtain ⟨hflatten, hissued⟩ := @issued_eq_issue strict calls a
  have hcount : a.next + (calls.flatMap fun c => (c.draws strict).kinds).length < Numeral.natBound := by
    rw [length_kinds]
    exact hn
  have hnodup : logs.flatten.Nodup := by
    rw [hflatten]
    exact Aliases.nodup_issue _ a hcount
  have hapart := pairwise_apart hresults (List.nodup_flatten.1 hnodup).2
  have hstands := session_stands (Aliases.startingAt_wordy start suffix) hn
  refine ⟨?_, hnodup, hresults, hapart, fun k f hk hf => (hstands k hk).undisturbed (hstands f hf) ?_⟩
  · rw [hsource, hissued, Aliases.issue_source _ _ hcount, length_kinds]
    rfl
  · -- two results are one and the same, or have no alias in common
    have hpairs : ∀ first ∈ results, ∀ second ∈ results, ∀ k f,
        first = .ok k → second = .ok f → k = f ∨ k.Apart f := by
      have hsymm : Std.Symm fun first second : Except CompileError Compiled =>
          ∀ k f, first = .ok k → second = .ok f → k = f ∨ k.Apart f :=
        ⟨fun first second h k f hk hf => (h f k hf hk).imp Eq.symm Compiled.Apart.symm⟩
      refine List.Pairwise.forall_of_forall (fun result _ k f hk hf => ?_) (hapart.imp fun h k f hk hf => ?_)
      · exact .inl (Except.ok.inj (hk.symm.trans hf))
      · exact .inr (h k f hk hf)
    exact hpairs _ hk _ hf k f rfl rfl

/--
Two results of a session with a call between them that is refused after it has drawn aliases. The suffix begins with
digits, and so may a number behind which it stands.
-/
theorem session_undisturbed_refused :
    let calls : List CompileCall :=
      [⟨true, ⟨[.equals "kind" (.string "user")], [], []⟩, ["id"]⟩,
       ⟨false, ⟨[.equals "a" .null, .op "b" .among (.array [])], [], []⟩, []⟩,
       ⟨false, ⟨[], [], [[.op "age" (.compare .gt) (.number (.whole 1))]]⟩, []⟩]
    let a := Aliases.startingAt 1 "1X-"
    1 + drawCount true calls < Numeral.natBound ∧ ∃ k f e, (session true calls a).1 = [.ok k, .error e, .ok f] ∧
      (issued true calls a).1 = [["#n11x", ":v21x", "#n31x"], ["#n41x", ":v51x"], ["#n61x", ":v71x"]] ∧
      k.Apart f ∧ k.Undisturbed f ((Expressions.ofKeyCondition k).addFilter f) := by
  intro calls a
  obtain ⟨k, e, f, hresults⟩ : ∃ k e f, (session true calls a).1 = [.ok k, .error e, .ok f] := ⟨_, _, _, rfl⟩
  obtain ⟨-, -, -, hapart, hundisturbed⟩ := session_undisturbed true calls 1 "1X-" (by decide)
  rw [show Aliases.startingAt 1 "1X-" = a from rfl, hresults] at hapart hundisturbed
  refine ⟨by decide, k, f, e, hresults, by decide +kernel, ?_, ?_⟩
  · exact (List.pairwise_cons.1 hapart).1 (.ok f) (by simp) k f rfl rfl
  · exact hundisturbed k f (by simp) (by simp)

end Compile

end RecordStore
