import RecordStore.Proofs.Query.Compiling

/-!
# Conditions that fix a field

A definition whose last field at the top must equal a value, and that has no groups, is compiled to a chain of AND with
this equality among its members: **`Compile.definition_pins`**. So the store finds the partition that it reads.
-/

namespace RecordStore

open Fields (Within)

namespace Compile

open BoundCondition (Expresses)
open Call (bind_ok)

variable {strict : Bool} {fields : List String} {a a' : Aliases}

/-- The condition of a leaf behind others comes last. -/
theorem leaves_concat {l : Leaf} : ∀ {ls : List Leaf} {a a' : Aliases} {bs : List BoundCondition},
    leaves strict (ls ++ [l]) a = (.ok bs, a') → ∃ cs b a₁ a₂, bs = cs ++ [b] ∧ leaf strict l a₁ = (.ok b, a₂)
  | [], a, _, _, h => by
    obtain ⟨b, a₁, hl, h⟩ := bind_ok h
    obtain ⟨rest, a₂, hrest, h⟩ := bind_ok h
    obtain ⟨rfl, -⟩ := pure_ok hrest
    obtain ⟨rfl, -⟩ := pure_ok h
    exact ⟨[], b, a, a₁, rfl, hl⟩
  | first :: ls, _, _, _, h => by
    rw [List.cons_append] at h
    obtain ⟨b, a₁, -, h⟩ := bind_ok h
    obtain ⟨rest, a₂, hrest, h⟩ := bind_ok h
    obtain ⟨rfl, -⟩ := pure_ok h
    obtain ⟨cs, b', a₃, a₄, rfl, hl⟩ := leaves_concat hrest
    exact ⟨b :: cs, b', a₃, a₄, rfl, hl⟩

/-- The condition of equality with a value. -/
theorem leaf_equals {field : String} {value : Json} {b : BoundCondition}
    (h : leaf strict (.equals field value) a = (.ok b, a')) :
    ∃ name v, b.condition = .compare name .eq v ∧ b.names.find name = some field := by
  cases h
  refine ⟨_, _, rfl, ?_⟩
  exact if_pos rfl

/-- **A definition that asks for the value of a field last** is an expression that fixes this field. -/
theorem definition_pins {ls : List Leaf} {field : String} {value : Json} {c : Compiled} (ha : a.Wordy)
    (hn : a.next + (Definition.aliasCount { leaves := ls ++ [.equals field value] } + fields.length) <
      Numeral.natBound)
    (h : definition strict { leaves := ls ++ [.equals field value] } fields a = (.ok c, a')) {e : Expr}
    (hparse : Expr.parse c.expression = .ok e) {names : NameAliases} (hw : Within c.names names) :
    e.pins names field = true := by
  obtain ⟨required, alternatives, _, hleaves, hr, hs, hdrawn, -, rfl⟩ := definition_parts ha hn h
  obtain rfl : alternatives = [] := List.forall₂_nil_right_iff.1 hs
  rw [Definition.required, List.flatten_nil, List.append_nil] at hleaves
  obtain ⟨cs, b, _, _, rfl, hleaf⟩ := leaves_concat hleaves
  obtain ⟨name, v, hcondition, hfield⟩ := leaf_equals hleaf
  have hmem : b ∈ cs ++ [b] := List.mem_append_right _ List.mem_cons_self
  have hsound := BoundCondition.soundAll_of_expresses hr
  -- the alias in the equality stands for the field
  have hrefers : Condition.Refers names name field := by
    have hb : b.condition.Sound := Condition.soundAll_iff.1 hsound _ (List.mem_map_of_mem hmem)
    rw [hcondition] at hb
    obtain ⟨hnames, -, hwithin⟩ := hdrawn.all
    obtain ⟨-, hmore⟩ := hnames.merge_numbered Aliases.nameAlias_inj fields
    have hwide := ((hwithin b (List.mem_append_left _ hmem)).1.trans hmore).trans hw
    exact ⟨hb.1, hwide _ _ hfield⟩
  have hread : Expr.parse (joinSides (cs ++ [b]) []) = _ := parse_joinSides hsound trivial (.inl (by simp))
  rw [hread] at hparse
  obtain rfl := Except.ok.inj hparse
  refine List.any_eq_true.2 ⟨.compare (.path ⟨name, []⟩) .eq (.value v), ?_, ?_⟩
  · rw [List.map_nil, sides, Condition.conjuncts_all (by simp)]
    refine List.mem_flatMap.2 ⟨b.condition, List.mem_map_of_mem hmem, ?_⟩
    rw [hcondition]
    exact List.mem_cons_self
  · simp [Expr.fixes, Expr.isKey, Expr.isValue, hrefers.resolve]

end Compile

end RecordStore
