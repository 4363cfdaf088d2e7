import RecordStore.Proofs.Store.Rules
import RecordStore.Query.Compiler

/-!
# What definitions are refused for

Why a definition is refused depends neither on the aliases that it draws nor on the fields of its projection.
`Compile.Alike R x y` says that two computations, from any two sources of aliases, are refused for the same reason or
have answers that `R` relates. There is a lemma for each function of the compiler; **`Compile.definition_alike`** is the
one for definitions.
-/

namespace RecordStore.Compile

open Call (Relates relates_ofExcept relates_pure)

/-- Whatever aliases they draw, two computations are refused for the same reason, or have answers that `R` relates. -/
abbrev Alike {α β : Type} (R : α → β → Prop) (x : Compile α) (y : Compile β) : Prop :=
  Relates (fun _ _ : Aliases => True) R x y

variable {α β : Type} {R : α → β → Prop} (strict : Bool)

theorem alike_refused (e : CompileError) : Alike R (ofExcept (.error e)) (ofExcept (.error e)) :=
  relates_ofExcept (.error e)

/-- Drawing alone is never refused. -/
theorem alike_lift {draw : StateM Aliases α} {draw' : StateM Aliases β} (h : ∀ a b, R a b) :
    Alike R (lift draw) (lift draw') :=
  fun _ _ _ => ⟨trivial, .ok (h _ _)⟩

theorem clause_alike (field : String) (c : Clause) :
    Alike (fun o o' => o.toList.length = o'.toList.length) (clause strict field c) (clause strict field c) := by
  unfold clause
  cases Test.checkClause strict field c with
  | error e => exact alike_refused e
  | ok o =>
    cases o with
    | none => exact relates_pure rfl
    | some test =>
      have hbound : Alike (fun _ _ => True) (lift (test.bind field)) (lift (test.bind field)) :=
        alike_lift fun _ _ => trivial
      exact hbound.map (f := some) (g := some) fun _ _ _ => rfl

theorem clauses_alike (field : String) : ∀ cs : List Clause,
    Alike (fun bs bs' => bs.length = bs'.length) (clauses strict field cs) (clauses strict field cs)
  | [] => relates_pure rfl
  | c :: cs => by
    refine (clause_alike strict field c).bind fun o o' ho => ?_
    refine (clauses_alike field cs).map fun bs bs' hbs => ?_
    rw [List.length_append, List.length_append, ho, hbs]

theorem conditions_alike (l : Leaf) :
    Alike (fun bs bs' => bs.length = bs'.length) (conditions strict l) (conditions strict l) := by
  obtain ⟨field, condition⟩ := l
  cases condition with
  | equals value => exact (alike_lift (R := fun _ _ => True) fun _ _ => trivial).map fun _ _ _ => rfl
  | operators cs => exact clauses_alike strict field cs

/-- A leaf is refused in the end if nothing is asked, whatever the aliases. -/
theorem leaf_alike (l : Leaf) : Alike (fun _ _ => True) (leaf strict l) (leaf strict l) := by
  refine (conditions_alike strict l).bind fun bs bs' hlength => ?_
  cases bs with
  | nil =>
    obtain rfl : bs' = [] := List.eq_nil_of_length_eq_zero hlength.symm
    exact alike_refused _
  | cons b bs =>
    cases bs' with
    | nil => cases hlength
    | cons b' bs' => exact relates_pure trivial

theorem leaves_alike : ∀ ls : List Leaf, Alike (fun _ _ => True) (leaves strict ls) (leaves strict ls)
  | [] => relates_pure trivial
  | l :: ls => (leaf_alike strict l).bind fun _ _ _ => (leaves_alike ls).map fun _ _ _ => trivial

/-- **A definition is refused for the same reason** with any aliases and any fields. -/
theorem definition_alike (d : Definition) (fields fields' : List String) :
    Alike (fun _ _ => True) (definition strict d fields) (definition strict d fields') :=
  (leaves_alike strict d.required).bind fun _ _ _ => (leaves_alike strict d.alternatives).bind fun _ _ _ =>
    (alike_lift (R := fun _ _ => True) fun _ _ => trivial).map fun _ _ _ => trivial

/-- So is a condition on keys. -/
theorem keyCondition_alike (d : Definition) (fields fields' : List String) :
    Alike (fun _ _ => True) (keyCondition strict d fields) (keyCondition strict d fields') := by
  unfold keyCondition
  cases checkKey d with
  | error e => exact alike_refused e
  | ok _ => exact definition_alike strict d fields fields'

end RecordStore.Compile
