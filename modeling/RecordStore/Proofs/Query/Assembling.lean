import RecordStore.Proofs.Query.Drawing

/-!
# What compiled conditions are made of

`Compile.Made a n fields bs a'` says how some bound conditions come about: tests are bound, one after the other, to
`fields` from the source `a`, which takes `n` aliases and leaves the source `a'`, and the conditions are listed and
joined. There is a lemma for each function of the compiler, and what holds of all conditions that are made is shown by
induction, as are the two facts here: the suffix stays (`Compile.Made.suffix`), and if no alias was issued twice then
each field has a name alias of its own (`Compile.Made.bindsEach`).

**`Compile.definition_bindsEach`**: the name aliases of a compiled definition stand for the fields of its clauses, each
once for each clause, and the fields of its projection.
-/

namespace RecordStore

open Aliases (issue)

/-! ## Fields of clauses -/

/-- The field of a clause, unless the clause is passed over. -/
def Clause.fields (field : String) (c : Clause) : List String :=
  if (Operator.ofTag? c.tag).isSome then [field] else []

/-- The field of a leaf, once for each clause that is not passed over. -/
def Leaf.fields (l : Leaf) : List String :=
  match l.condition with
  | .equals _ => [l.field]
  | .operators cs => cs.flatMap (Clause.fields l.field)

/-- The fields of a definition, each once for each clause on it. -/
def Definition.fields (d : Definition) : List String := d.all.flatMap Leaf.fields

theorem Test.fields_of_checkClause {strict : Bool} {field : String} {c : Clause} {o : Option Test}
    (h : Test.checkClause strict field c = .ok o) : c.fields field = o.toList.map fun _ => field := by
  unfold Test.checkClause at h
  unfold Clause.fields
  split at h
  · rename_i hop
    obtain ⟨test, -, rfl⟩ := map_eq_ok.1 h
    simp [hop]
  · rename_i hop
    split at h
    · cases h
    · cases h
      simp [hop]

/-! ## Name aliases of conditions -/

namespace BoundCondition

variable {fields more : List String} {bs cs : List BoundCondition} {log log' : List String}

/-- All that the name aliases of some conditions stand for, condition by condition. -/
def nameEntries (bs : List BoundCondition) : List (String × String) := bs.flatMap (·.names)

theorem allNames_eq (bs : List BoundCondition) : allNames bs = Fields.merge [] (nameEntries bs) := by
  rw [allNames, ← List.foldl_map, Fields.foldl_merge, nameEntries, List.flatMap]

/-- The name aliases of some conditions are issued ones, one for each of some fields. -/
structure BindsEach (fields : List String) (bs : List BoundCondition) (log : List String) : Prop where
  nodup : ((nameEntries bs).map (·.1)).Nodup
  issued : (nameEntries bs).map (·.1) ⊆ log
  fields : ((nameEntries bs).map (·.2)).Perm fields

theorem BindsEach.nil : BindsEach [] [] [] := ⟨.nil, List.Subset.refl _, .nil⟩

theorem BindsEach.append (h : BindsEach fields bs log) (h' : BindsEach more cs log') (hlog : (log ++ log').Nodup) :
    BindsEach (fields ++ more) (bs ++ cs) (log ++ log') := by
  have happend : nameEntries (bs ++ cs) = nameEntries bs ++ nameEntries cs := List.flatMap_append
  rw [List.nodup_append] at hlog
  refine ⟨?_, ?_, ?_⟩
  · rw [happend, List.map_append, List.nodup_append]
    exact ⟨h.nodup, h'.nodup, fun s hs t ht => hlog.2.2 s (h.issued hs) t (h'.issued ht)⟩
  · rw [happend, List.map_append]
    exact List.append_subset.2 ⟨fun s hs => List.mem_append_left _ (h.issued hs),
      fun s hs => List.mem_append_right _ (h'.issued hs)⟩
  · rw [happend, List.map_append]
    exact h.fields.append h'.fields

theorem BindsEach.all {b : BoundCondition} (h : BindsEach fields bs log) (hb : BoundCondition.all bs = some b) :
    BindsEach fields [b] log := by
  obtain ⟨-, rfl⟩ := eq_of_all hb
  have hentries : nameEntries [⟨.conjunction (bs.map (·.condition)), allNames bs, allValues bs⟩] = allNames bs := by
    simp [nameEntries]
  have hperm : (allNames bs).Perm (nameEntries bs) := by
    rw [allNames_eq]
    exact Fields.perm_merge h.nodup
  refine ⟨?_, ?_, ?_⟩
  · rw [hentries]
    exact (hperm.map (·.1)).nodup_iff.2 h.nodup
  · rw [hentries]
    exact fun s hs => h.issued ((hperm.map (·.1)).subset hs)
  · rw [hentries]
    exact (hperm.map (·.2)).trans h.fields

end BoundCondition

open BoundCondition (BindsEach)

namespace Compile

open Call (bind_ok)

/-! ## How conditions are made -/

/-- How bound conditions come about: on which fields, and how many aliases are drawn. -/
inductive Made : Aliases → Nat → List String → List BoundCondition → Aliases → Prop
  | nil (a : Aliases) : Made a 0 [] [] a
  | bind (field : String) (test : Test) (a : Aliases) :
      Made a (1 + test.values.length) [field] [(test.bind field a).1] (test.bind field a).2
  | append {a b a' : Aliases} {m n : Nat} {fields more : List String} {bs cs : List BoundCondition} :
      Made a m fields bs b → Made b n more cs a' → Made a (m + n) (fields ++ more) (bs ++ cs) a'
  | all {a a' : Aliases} {n : Nat} {fields : List String} {bs : List BoundCondition} {b : BoundCondition} :
      Made a n fields bs a' → BoundCondition.all bs = some b → Made a n fields [b] a'

variable {strict : Bool} {a a' : Aliases} {n : Nat} {fields : List String} {bs : List BoundCondition}

theorem made_of_bind {field : String} {test : Test} {b : BoundCondition} (h : test.bind field a = (b, a')) :
    Made a (1 + test.values.length) [field] [b] a' := by
  have hmade := Made.bind field test a
  rw [h] at hmade
  exact hmade

theorem clause_made {field : String} {c : Clause} {o : Option BoundCondition}
    (h : clause strict field c a = (.ok o, a')) : Made a c.aliasCount (c.fields field) o.toList a' := by
  obtain ⟨t, b, hcheck, h⟩ := bind_ok h
  obtain ⟨ht, rfl⟩ := ofExcept_ok hcheck
  rw [Test.fields_of_checkClause ht]
  rcases checkClause_ok ht with ⟨rfl, hcount, -⟩ | ⟨test, rfl, hcount, -⟩
  · obtain ⟨rfl, rfl⟩ := pure_ok h
    rw [hcount]
    exact .nil a
  · obtain ⟨b, a₁, hlift, h⟩ := bind_ok h
    obtain ⟨rfl, rfl⟩ := pure_ok h
    rw [hcount]
    exact made_of_bind (lift_ok hlift)

theorem clauses_made {field : String} : ∀ {cs : List Clause} {a a' : Aliases} {bs : List BoundCondition},
    clauses strict field cs a = (.ok bs, a') →
      Made a (cs.map Clause.aliasCount).sum (cs.flatMap (Clause.fields field)) bs a'
  | [], a, _, _, h => by
    obtain ⟨rfl, rfl⟩ := pure_ok h
    exact .nil a
  | c :: cs, a, a', bs, h => by
    obtain ⟨o, b, hc, h⟩ := bind_ok h
    obtain ⟨bs, b', hcs, h⟩ := bind_ok h
    obtain ⟨rfl, rfl⟩ := pure_ok h
    exact (clause_made hc).append (clauses_made hcs)

theorem conditions_made {l : Leaf} (h : conditions strict l a = (.ok bs, a')) :
    Made a l.aliasCount l.fields bs a' := by
  obtain ⟨field, condition⟩ := l
  cases condition with
  | equals value =>
    obtain ⟨b, a₁, hlift, h⟩ := bind_ok h
    obtain ⟨rfl, rfl⟩ := pure_ok h
    have hmade : Made a (1 + 1) [field] [b] a₁ := made_of_bind (lift_ok hlift)
    exact hmade
  | operators cs => exact clauses_made h

theorem leaf_made {l : Leaf} {b : BoundCondition} (h : leaf strict l a = (.ok b, a')) :
    Made a l.aliasCount l.fields [b] a' := by
  obtain ⟨bs, a₁, hc, h⟩ := bind_ok h
  cases hb : BoundCondition.all bs with
  | none => rw [hb] at h; cases (ofExcept_ok h).1
  | some c =>
    rw [hb] at h
    obtain ⟨rfl, rfl⟩ := pure_ok h
    exact (conditions_made hc).all hb

theorem leaves_made : ∀ {ls : List Leaf} {a a' : Aliases} {bs : List BoundCondition},
    leaves strict ls a = (.ok bs, a') → Made a (ls.map Leaf.aliasCount).sum (ls.flatMap Leaf.fields) bs a'
  | [], a, _, _, h => by
    obtain ⟨rfl, rfl⟩ := pure_ok h
    exact .nil a
  | l :: ls, a, a', bs, h => by
    obtain ⟨b, a₁, hl, h⟩ := bind_ok h
    obtain ⟨bs, a₂, hls, h⟩ := bind_ok h
    obtain ⟨rfl, rfl⟩ := pure_ok h
    exact (leaf_made hl).append (leaves_made hls)

/-- What both sides of a definition are made of, and what is drawn for the projection after it. -/
theorem definition_made {d : Definition} {c : Compiled} (h : definition strict d fields a = (.ok c, a')) :
    ∃ required alternatives b, Made a d.aliasCount d.fields (required ++ alternatives) b ∧
      c = ⟨joinSides required alternatives,
        Fields.merge (BoundCondition.allNames (required ++ alternatives)) (bindNames fields b).1,
        BoundCondition.allValues (required ++ alternatives),
        projectionText ((bindNames fields b).1.map (·.1))⟩ := by
  obtain ⟨required, alternatives, projected, a₁, a₂, hr, hs, hp, hc⟩ := definition_ok h
  have hboth := (leaves_made hr).append (leaves_made hs)
  rw [← List.flatMap_append, ← List.sum_append, ← List.map_append] at hboth
  refine ⟨required, alternatives, a₂, hboth, ?_⟩
  rw [hp]
  exact hc

/-! ## What is drawn -/

/-- What is made of aliases ends in the suffix of their source. -/
theorem Made.suffix (h : Made a n fields bs a') : a'.suffix = a.suffix := by
  induction h with
  | nil => rfl
  | bind field test a =>
    have hsource : (test.bind field a).2 = (Test.bindValues test.values a.advance).2 := rfl
    rw [hsource, (Test.bindValues_issue test.values a.advance).2, Aliases.issue_suffix]
    rfl
  | append _ _ ih ih' => exact ih'.trans ih
  | all _ _ ih => exact ih

theorem Made.wordy (h : Made a n fields bs a') (ha : a.Wordy) : a'.Wordy := by
  rw [Aliases.Wordy, h.suffix]
  exact ha

/-- **Each field has a name alias of its own** among those that were issued, unless one was issued twice. -/
theorem Made.bindsEach (h : Made a n fields bs a') :
    ∃ kinds, kinds.length = n ∧ (issue kinds a).2 = a' ∧
      ((issue kinds a).1.Nodup → BindsEach fields bs (issue kinds a).1) := by
  induction h with
  | nil a => exact ⟨[], rfl, rfl, fun _ => .nil⟩
  | bind field test a =>
    obtain ⟨-, hsource⟩ := Test.bindValues_issue test.values a.advance
    refine ⟨.name :: List.replicate test.values.length .value, ?_, ?_, fun _ => ⟨?_, ?_, .refl _⟩⟩
    · rw [List.length_cons, List.length_replicate, Nat.add_comm]
    · rw [Aliases.issue_cons, ← hsource]
      rfl
    · exact List.nodup_singleton _
    · rw [Aliases.issue_cons]
      exact List.cons_subset_cons _ (List.nil_subset _)
  | append _ _ ih ih' =>
    obtain ⟨kinds, rfl, rfl, hbinds⟩ := ih
    obtain ⟨more, rfl, rfl, hbinds'⟩ := ih'
    refine ⟨kinds ++ more, List.length_append, by rw [Aliases.issue_append], fun hnodup => ?_⟩
    rw [Aliases.issue_append] at hnodup ⊢
    obtain ⟨hfirst, hsecond, -⟩ := List.nodup_append.1 hnodup
    exact (hbinds hfirst).append (hbinds' hsecond) hnodup
  | all _ hb ih =>
    obtain ⟨kinds, hlength, hsource, hbinds⟩ := ih
    exact ⟨kinds, hlength, hsource, fun hnodup => (hbinds hnodup).all hb⟩

theorem bindNames_fields : ∀ (fields : List String) (a : Aliases), (bindNames fields a).1.map (·.2) = fields
  | [], _ => rfl
  | field :: fields, a => by
    have hstep : (bindNames (field :: fields) a).1 =
      (Aliases.nameAlias a.suffix a.next, field) :: (bindNames fields a.advance).1 := rfl
    rw [hstep, List.map_cons, bindNames_fields fields]

/--
**The name aliases of a compiled definition** are distinct, and stand for the fields of its clauses, each once for each
clause, and the fields of its projection. Only the range of numbers bounds how many there may be.
-/
theorem definition_bindsEach {d : Definition} {c : Compiled} (hn : d.aliasCount + fields.length ≤ Numeral.natBound)
    (h : definition strict d fields a = (.ok c, a')) :
    c.names.Ordered ∧ (c.names.map (·.2)).Perm (d.fields ++ fields) := by
  obtain ⟨required, alternatives, b, hmade, rfl⟩ := definition_made h
  obtain ⟨kinds, hlength, hsource, hbinds⟩ := hmade.bindsEach
  obtain ⟨hnames, -⟩ := bindNames_issue fields b
  -- both sides and the projection draw from one source
  have hnodup : (issue (kinds ++ List.replicate fields.length .name) a).1.Nodup :=
    Aliases.nodup_issue_of_le _ a (by rw [List.length_append, List.length_replicate, hlength]; exact hn)
  rw [Aliases.issue_append, hsource, ← hnames] at hnodup
  obtain ⟨hfirst, hsecond, hapart⟩ := List.nodup_append.1 hnodup
  have hsides := hbinds hfirst
  have hall : (BoundCondition.allNames (required ++ alternatives)).Perm
      (BoundCondition.nameEntries (required ++ alternatives)) := by
    rw [BoundCondition.allNames_eq]
    exact Fields.perm_merge hsides.nodup
  have hdistinct : (BoundCondition.allNames (required ++ alternatives) ++ (bindNames fields b).1).names.Nodup := by
    rw [Fields.names, List.map_append, List.nodup_append]
    refine ⟨(hall.map (·.1)).nodup_iff.2 hsides.nodup, hsecond, fun s hs t ht => ?_⟩
    exact hapart s (hsides.issued ((hall.map (·.1)).subset hs)) t ht
  refine ⟨Fields.Ordered.merge _ ?_, ?_⟩
  · rw [BoundCondition.allNames_eq]
    exact Fields.ordered_nil.merge _
  · refine ((Fields.perm_merge hdistinct).map (·.2)).trans ?_
    rw [List.map_append, bindNames_fields]
    exact ((hall.map (·.2)).trans hsides.fields).append_right fields

end Compile

end RecordStore
