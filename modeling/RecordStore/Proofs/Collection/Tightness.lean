import RecordStore.Proofs.Collection.Keeping
import RecordStore.Proofs.Collection.Selecting
import RecordStore.Proofs.Paging.Requesting
import RecordStore.Proofs.Query.Tightness

/-!
# The aliases of requests

The expressions of one request are compiled one after the other, and their maps are merged. Each is tight, so the
expressions of the request are: `Collection.expressionsOf_tight`, `Collection.ofFilter_tight`. All requests for a page
carry the same expressions, so whatever the store answers they are tight as well (`Selection.Tight.keeps_readPart`).

**`Collection.aliases_bound_and_used`**: this holds of all that is compiled and of every query and scan that any task of
a collection sends.
-/

namespace RecordStore

open Call (Keeps)
open Token (nameAliases valueAliases)

/-! ## Expressions -/

/-- The texts of the expressions of a request. -/
def Expressions.texts (x : Expressions) : List String :=
  x.keyCondition.toList ++ x.filter.toList ++ x.projection.toList

/-- The aliases in the expressions of a request are those in its maps. -/
def Expressions.Tight (x : Expressions) : Prop := RecordStore.Tight x.texts x.names x.values

/-- The aliases in the texts of a query or a scan are those in its maps. -/
def Request.Tight : Request → Prop
  | .query r => RecordStore.Tight (r.keyCondition.toList ++ r.filter.toList ++ r.projection.toList) r.names r.values
  | .scan r => RecordStore.Tight (r.filter.toList ++ r.projection.toList) r.names r.values
  | .put _ | .get _ | .delete _ | .batchGet _ | .batchWrite _ => True

/-- The expressions that a selection is read with are tight, and only a query has a condition on keys. -/
structure Selection.Tight (what : Selection) : Prop where
  expressions : what.expressions.Tight
  scan : what.kind = .scan → what.expressions.keyCondition = none

namespace Compiled

variable {c : Compiled}

/-- A text that is left out where nothing is asked. -/
theorem mem_condition? {text : String} : text ∈ c.condition?.toList ↔ text = c.expression ∧ text ≠ "" := by
  unfold condition?
  split
  · rename_i h
    have hempty : c.expression = "" := by simpa using h
    rw [hempty]
    simp
  · rename_i h
    have hne : c.expression ≠ "" := by simpa using h
    rw [Option.toList_some, List.mem_singleton]
    exact ⟨fun heq => ⟨heq, heq ▸ hne⟩, And.left⟩

/-- Without a text that is empty, a compiled definition is still tight. -/
theorem tight_sent (h : RecordStore.Tight c.texts c.names c.values) :
    RecordStore.Tight (c.condition?.toList ++ c.projection.toList) c.names c.values := by
  refine h.congr ?_ ?_
  · intro text
    rw [texts, List.mem_append, List.mem_cons, mem_condition?]
    exact Or.imp_left And.left
  · intro text
    rw [texts, List.mem_cons, List.mem_append, mem_condition?]
    tauto

end Compiled

namespace Collection

open Call (bind_ok)

variable {c : Collection} {key : Definition} {filter : Option Definition} {fields : List String} {a a' : Aliases}
  {x : Expressions}

/-- A filter that is not there, or asks nothing, has no alias. -/
theorem filterOf_tight {f : Compiled} (ha : a.Wordy) (h : c.filterOf filter a = (.ok f, a')) :
    RecordStore.Tight f.texts f.names f.values ∧ f.projection = none := by
  unfold filterOf at h
  cases hd : filter.filter fun d => !d.isEmpty with
  | some d =>
    rw [hd] at h
    exact ⟨Compile.definition_tight ha h, Compile.definition_projection h⟩
  | none =>
    rw [hd] at h
    obtain ⟨rfl, -⟩ := Compile.pure_ok h
    exact ⟨.empty, rfl⟩

/-- **The expressions of a request** with a condition on keys are tight. -/
theorem expressionsOf_tight (ha : a.Wordy) (h : c.expressionsOf key filter fields a = (.ok x, a')) : x.Tight := by
  obtain ⟨k, a₁, hk, h⟩ := bind_ok h
  obtain ⟨f, a₂, hf, h⟩ := bind_ok h
  obtain ⟨rfl, rfl⟩ := Compile.pure_ok h
  obtain ⟨_, a₀, hcheck, hk⟩ := bind_ok hk
  obtain ⟨-, rfl⟩ := Compile.ofExcept_ok hcheck
  obtain ⟨hfilter, hprojection⟩ := filterOf_tight (Compile.wordy_of_definition ha hk) hf
  have htexts : ((Expressions.ofKeyCondition k).addFilter f).texts =
      k.condition?.toList ++ f.condition?.toList ++ k.projection.toList := by
    simp [Expressions.texts, Expressions.addFilter, Expressions.ofKeyCondition, hprojection]
  refine ((Compiled.tight_sent (Compile.definition_tight ha hk)).merge (Compiled.tight_sent hfilter)).congr ?_ ?_ <;>
    intro text <;> simp only [htexts, hprojection, Option.toList_none, List.append_nil, List.mem_append] <;> tauto

/-- The expressions of a request with a filter alone are tight. -/
theorem ofFilter_tight {strict : Bool} {d : Definition} {f : Compiled} (ha : a.Wordy)
    (h : Compile.definition strict d fields a = (.ok f, a')) : (Expressions.ofFilter f).Tight := by
  have htexts : (Expressions.ofFilter f).texts = f.condition?.toList ++ f.projection.toList := by
    simp [Expressions.texts, Expressions.addFilter, Expressions.ofFilter]
  rw [Expressions.Tight, htexts]
  exact RecordStore.Tight.nil.merge (Compiled.tight_sent (Compile.definition_tight ha h))

/-- **What a query reads** after it has passed the checks is asked for in tight requests. -/
theorem select_tight {suffix : String} {q : PageQuery} {what : Selection} {hidden : List String}
    (hsuffix : ∀ ch ∈ suffix.toList, ch.isAlphanum = true) (h : c.select suffix q = .ok (what, hidden)) :
    what.Tight := by
  have hwordy := wordy_of_alphanumeric hsuffix
  cases q with
  | byKey q =>
    obtain ⟨_, _, _, -, hx, -, rfl⟩ := selectByKey_ok h
    exact ⟨expressionsOf_tight hwordy hx, nofun⟩
  | byIndex q =>
    obtain ⟨_, _, _, _, -, -, hx, -, rfl⟩ := selectByIndex_ok h
    exact ⟨expressionsOf_tight hwordy hx, nofun⟩
  | byFilter q =>
    obtain ⟨_, _, hfilter, -, rfl⟩ := selectByFilter_ok h
    exact ⟨ofFilter_tight hwordy hfilter, fun _ => rfl⟩

end Collection

/-! ## Requests -/

/-- A request for a part of a page. -/
theorem Selection.Tight.sent {what : Selection} (h : what.Tight) (descending : Bool) (cap : Option Nat)
    (start : Option Key) : (Page.sent what descending cap start).Tight := by
  obtain ⟨hexpressions, hscan⟩ := h
  unfold Page.sent
  cases hkind : what.kind with
  | query => exact hexpressions
  | scan =>
    have htexts : what.expressions.texts =
        what.expressions.filter.toList ++ what.expressions.projection.toList := by
      rw [Expressions.texts, hscan hkind, Option.toList_none, List.nil_append]
    rw [Expressions.Tight, htexts] at hexpressions
    exact hexpressions

namespace Recorded

variable {σ : Type} [Store σ]

/-- All requests on the record are tight. -/
def AllTight (st : Recorded σ) : Prop := ∀ request ∈ st.requests, request.Tight

/-- A request under keys has no expression with values. -/
theorem keptByKeys : Store.KeptByKeys (@AllTight σ) := by
  have hpass : ∀ {α : Type} (request : Request) (call : Call σ StoreError α), request.Tight →
      Keeps AllTight (pass request call) fun _ => True :=
    fun _ _ hrequest st hst => ⟨List.forall_mem_cons.2 ⟨hrequest, hst⟩, fun _ _ => trivial⟩
  exact { get := fun r => hpass (.get r) (Store.get r) trivial
          batchGet := fun r => hpass (.batchGet r) (Store.batchGet r) trivial
          put := fun r => hpass (.put r) (Store.put r) trivial
          delete := fun r => hpass (.delete r) (Store.delete r) trivial
          batchWrite := fun r => hpass (.batchWrite r) (Store.batchWrite r) trivial }

/-- A read of what is asked for in tight requests. -/
theorem keeps_readPart {what : Selection} (h : what.Tight) (descending : Bool) (cap : Option Nat)
    (start : Option Key) :
    Keeps (@AllTight σ) (Page.readPart what descending cap start) fun _ => True := by
  intro st hst
  rw [AllTight, Page.requests_readPart]
  exact ⟨List.forall_mem_cons.2 ⟨h.sent descending cap start, hst⟩, fun _ _ => trivial⟩

/-- **A task** leaves tight requests on the record. -/
theorem keeps_run (c : Collection) {task : Task} (hsuffix : ∀ ch ∈ task.suffix.toList, ch.isAlphanum = true) :
    Keeps (@AllTight σ) (task.run c) fun _ => True :=
  task.keeps_of_kept keptByKeys fun _ => c.keeps_page fun _ _ h =>
    keeps_readPart (Collection.select_tight hsuffix h) _

end Recorded

/--
**Aliases are bound and used.** Whatever definition is compiled, with whatever projection and from whatever source of
aliases, the aliases in its texts are those in its maps, and a map is missing just where there are none of its kind. The
name aliases stand for the field of each clause that is not passed over, once for each clause, and for the fields of the
projection, unless they are more than there are numbers.

The same holds of the texts and maps of every query and scan that a task of a collection sends, whatever the store is
and answers, and so of all that a sequence of tasks leaves on the record.
-/
theorem Collection.aliases_bound_and_used :
    (∀ (strict : Bool) (d : Definition) (fields : List String) (start : Nat) (suffix : String) (c : Compiled)
      (a' : Aliases), Compile.definition strict d fields (.startingAt start suffix) = (.ok c, a') →
        Tight c.texts c.names c.values ∧
        (c.names.nonEmpty? = none ↔ c.texts.flatMap nameAliases = []) ∧
        (c.values.nonEmpty? = none ↔ c.texts.flatMap valueAliases = []) ∧
        (d.aliasCount + fields.length ≤ Numeral.natBound →
          c.names.Ordered ∧ (c.names.map (·.2)).Perm (d.fields ++ fields))) ∧
    ∀ (σ : Type) [Store σ] (c : Collection) (task : Task) (st : Recorded σ),
      (∀ ch ∈ task.suffix.toList, ch.isAlphanum = true) → (∀ request ∈ st.requests, request.Tight) →
        ∀ request ∈ (task.run c st).2.requests, request.Tight := by
  refine ⟨fun strict d fields start suffix c a' h => ?_, fun σ _ c task st hsuffix hst => ?_⟩
  · have htight := Compile.definition_tight (Aliases.startingAt_wordy start suffix) h
    exact ⟨htight, Tight.nonEmpty?_eq_none_iff htight.names, Tight.nonEmpty?_eq_none_iff htight.values,
      fun hn => Compile.definition_bindsEach hn h⟩
  · exact (Recorded.keeps_run c hsuffix st hst).1

/-- A list of candidates under one name and a tag that is passed over, beside an alternative and a projection on one of
the fields again; and the two reads for a query with a filter and one field of each item. -/
theorem Collection.aliases_bound_and_used_passing_over :
    let d : Definition :=
      ⟨[⟨"g", .operators [⟨"$in", .array [.bool true, .null]⟩, ⟨"$odd", .null⟩]⟩], [], [[.op "h" .exists .null]]⟩
    let shape : TableShape := ⟨"t", ⟨⟨"pk", .text⟩, some ⟨"id", .text⟩⟩, []⟩
    let item (id : String) : Item := [("id", .text id), ("pk", .text "p"), ("x", .text "X")]
    let s : MemoryStore :=
      ⟨[("t", ⟨shape, [(.text "p", [(some (.text "a"), item "a"), (some (.text "b"), item "b")])]⟩)],
        { ceiling := some 1 }⟩
    let c : Collection := { entity := { table := "t", partitionValue := "p", partitionField := "pk" } }
    let q : KeyQuery :=
      { partition := "p", filter := some ⟨[.equals "x" (.string "X")], [], []⟩, fields := some ["x"] }
    ∃ compiled a', Compile.definition false d ["x", "g"] (.startingAt 7 "T-") = (.ok compiled, a') ∧
      compiled.texts = ["((#n7t = :v8t OR #n7t = :v9t)) AND (attribute_exists(#n10t))", "#n11t, #n12t"] ∧
      Tight compiled.texts compiled.names compiled.values ∧
      (compiled.names.map (·.2)).Perm ["g", "h", "x", "g"] ∧
      ((Task.page "5f" (.byKey q)).run c (⟨s, []⟩ : Recorded MemoryStore)).2.requests.length = 2 ∧
      ∀ request ∈ ((Task.page "5f" (.byKey q)).run c (⟨s, []⟩ : Recorded MemoryStore)).2.requests,
        request.Tight := by
  intro d shape item s c q
  have hsent : ((Task.page "5f" (.byKey q)).run c (⟨s, []⟩ : Recorded MemoryStore)).2.requests.length = 2 := by
    unfold q c s item shape
    cbv
  obtain ⟨hcompiled, htasks⟩ := Collection.aliases_bound_and_used
  obtain ⟨htight, -, -, hnames⟩ := hcompiled false d ["x", "g"] 7 "T-" _ _ rfl
  obtain ⟨-, hperm⟩ := hnames (by decide)
  have hsuffix : ∀ ch ∈ "5f".toList, ch.isAlphanum = true := List.all_eq_true.1 rfl
  exact ⟨_, _, rfl, by decide +kernel, htight, hperm, hsent,
    htasks MemoryStore c (.page "5f" (.byKey q)) ⟨s, []⟩ hsuffix (List.forall_mem_nil _)⟩

end RecordStore
