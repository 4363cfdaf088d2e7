import RecordStore.Proofs.Fields
import RecordStore.Proofs.Store.Calls
import RecordStore.Query.Definition

/-!
# Which documents are definitions

`Definition.WellShaped fields` says what an object must look like to be read as a definition, and `Definition.ofFields`
what it is read as: a leaf for each field at the top that is no group, and for each field of each member of a group.
**`Definition.ofJson_eq_ok`**: it is read just if it is well-shaped, and else refused with an error about its shape.

A name that starts as a tag does (`Definition.IsTag`) is refused at the top unless it is a group. Inside a member it is
not: **`Definition.leaves_follow_keys`** says where the fields of the leaves come from, and when one of them is a tag.
-/

namespace RecordStore

/-- The errors about the shape of a definition. -/
def CompileError.IsShape : CompileError → Prop
  | .notAnObject _ | .unknownGroup _ | .groupNotArray _ _ | .memberNotObject _ _ => True
  | _ => False

namespace Definition

/-! ## Shapes -/

/-- A name that starts as a tag does. -/
def IsTag (name : String) : Prop := name.toList.head? = some '$'

/-- The tag of a group. -/
def IsGroup (name : String) : Prop := name = allTag ∨ name = anyTag

instance (name : String) : Decidable (IsTag name) := inferInstanceAs (Decidable (_ = _))

instance (name : String) : Decidable (IsGroup name) := inferInstanceAs (Decidable (_ ∨ _))

/-- The members of a group of an object; a group that is not there has none. -/
def members (fields : Fields Json) (tag : String) : List (Fields Json) :=
  match fields.find tag with
  | some (.array items) => items.filterMap Json.fields?
  | _ => []

/-- The fields of an object that are no groups. -/
def bare (fields : Fields Json) : Fields Json :=
  fields.filter fun field => ¬ IsGroup field.1

/-- The leaves of the members of a group. -/
def groupLeaves (members : List (Fields Json)) : List (List Leaf) :=
  members.map fun member => member.map Leaf.ofField

/-- What an object is read as. -/
def ofFields (fields : Fields Json) : Definition where
  leaves := (bare fields).map Leaf.ofField
  allOf := groupLeaves (members fields allTag)
  anyOf := groupLeaves (members fields anyTag)

/-- A group is an array of objects. -/
def IsMembers (j : Json) : Prop := ∃ members : List (Fields Json), j = .array (members.map .object)

/-- No name at the top is a tag unless it is that of a group, and each group is an array of objects. -/
structure WellShaped (fields : Fields Json) : Prop where
  known : ∀ field ∈ fields, IsTag field.1 → IsGroup field.1
  groups : ∀ field ∈ fields, IsGroup field.1 → IsMembers field.2

/-! ## Groups -/

theorem memberOfJson_eq_ok {tag : String} {j : Json} {leaves : List Leaf} :
    memberOfJson tag j = .ok leaves ↔ ∃ fields, j = .object fields ∧ leaves = fields.map Leaf.ofField := by
  cases j <;> simp [memberOfJson, eq_comm]

theorem mapM_memberOfJson_eq_ok {tag : String} : ∀ {items : List Json} {group : List (List Leaf)},
    items.mapM (memberOfJson tag) = .ok group ↔ ∃ members, items = members.map .object ∧ group = groupLeaves members
  | [], group => by
    constructor
    · intro h
      cases h
      exact ⟨[], rfl, rfl⟩
    · rintro ⟨members, hitems, rfl⟩
      obtain rfl := List.map_eq_nil_iff.1 hitems.symm
      rfl
  | item :: items, group => by
    rw [List.mapM_cons, bind_eq_ok]
    constructor
    · rintro ⟨leaves, hitem, h⟩
      obtain ⟨rest, hrest, h⟩ := bind_eq_ok.1 h
      cases h
      obtain ⟨fields, rfl, rfl⟩ := memberOfJson_eq_ok.1 hitem
      obtain ⟨members, rfl, rfl⟩ := mapM_memberOfJson_eq_ok.1 hrest
      exact ⟨fields :: members, rfl, rfl⟩
    · rintro ⟨members, hitems, rfl⟩
      cases members with
      | nil => cases hitems
      | cons fields members =>
        obtain ⟨rfl, hrest⟩ := List.cons.inj hitems
        refine ⟨_, memberOfJson_eq_ok.2 ⟨fields, rfl, rfl⟩, bind_eq_ok.2 ⟨groupLeaves members, ?_, rfl⟩⟩
        exact mapM_memberOfJson_eq_ok.2 ⟨members, hrest, rfl⟩

/-- A group is read just if it is an array of objects, as the leaves of these. -/
theorem groupOfJson_eq_ok {tag : String} {j : Json} {group : List (List Leaf)} :
    groupOfJson tag j = .ok group ↔ ∃ members, j = .array (members.map .object) ∧ group = groupLeaves members := by
  cases j with
  | array items => simp only [groupOfJson, mapM_memberOfJson_eq_ok, Json.array.injEq]
  | _ => simp [groupOfJson]

theorem memberOfJson_error {tag : String} {j : Json} {e : CompileError} (h : memberOfJson tag j = .error e) :
    e.IsShape := by
  cases j <;> cases h <;> trivial

theorem groupOfJson_error {tag : String} {j : Json} {e : CompileError} (h : groupOfJson tag j = .error e) :
    e.IsShape := by
  cases j with
  | array items =>
    obtain ⟨item, -, h⟩ := mapM_eq_error (f := memberOfJson tag) h
    exact memberOfJson_error h
  | _ => cases h; trivial

/-! ## Objects -/

theorem members_cons_self {name : String} {members' : List (Fields Json)} {rest : Fields Json} :
    members ((name, .array (members'.map .object)) :: rest) name = members' := by
  simp only [members, Fields.find_cons, if_true, List.filterMap_map]
  exact List.filterMap_some

theorem members_cons_of_ne {name tag : String} {value : Json} {rest : Fields Json} (h : name ≠ tag) :
    members ((name, value) :: rest) tag = members rest tag := by
  simp only [members, Fields.find_cons, if_neg h]

/-- A group that is not there has no members. -/
theorem members_of_notMem {fields : Fields Json} {tag : String} (h : tag ∉ fields.map (·.1)) :
    members fields tag = [] := by
  have hfind : fields.find tag = none :=
    Fields.find_eq_none_iff.2 fun entry hentry heq => h (heq ▸ List.mem_map_of_mem hentry)
  rw [members, hfind]

theorem wellShaped_cons {name : String} {value : Json} {rest : Fields Json} : WellShaped ((name, value) :: rest) ↔
    (IsTag name → IsGroup name) ∧ (IsGroup name → IsMembers value) ∧ WellShaped rest := by
  constructor
  · rintro ⟨hknown, hgroups⟩
    obtain ⟨hk, hknown⟩ := List.forall_mem_cons.1 hknown
    obtain ⟨hg, hgroups⟩ := List.forall_mem_cons.1 hgroups
    exact ⟨hk, hg, hknown, hgroups⟩
  · rintro ⟨hk, hg, hrest⟩
    exact ⟨List.forall_mem_cons.2 ⟨hk, hrest.known⟩, List.forall_mem_cons.2 ⟨hg, hrest.groups⟩⟩

/-- The leaves of a group after an object is read: those of its own group, or if it has none, the earlier ones. -/
def regroup (fields : Fields Json) (tag : String) (earlier : List (List Leaf)) : List (List Leaf) :=
  if tag ∈ fields.map (·.1) then groupLeaves (members fields tag) else earlier

/-- A definition after an object is read behind it. -/
def extend (d : Definition) (fields : Fields Json) : Definition where
  leaves := d.leaves ++ (bare fields).map Leaf.ofField
  allOf := regroup fields allTag d.allOf
  anyOf := regroup fields anyTag d.anyOf

theorem extend_nothing (fields : Fields Json) : extend {} fields = ofFields fields := by
  have hgroup (tag : String) : regroup fields tag [] = groupLeaves (members fields tag) := by
    rw [regroup]
    split
    · rfl
    · rename_i h
      rw [members_of_notMem h]
      rfl
  simp only [extend, ofFields, hgroup, List.nil_append]

section

variable {d : Definition} {name tag : String} {value : Json} {ms : List (Fields Json)} {rest : Fields Json}
  {earlier : List (List Leaf)}

theorem regroup_of_notMem (h : tag ∉ rest.map (·.1)) : regroup rest tag earlier = earlier := if_neg h

theorem regroup_cons_self :
    regroup ((name, .array (ms.map .object)) :: rest) name earlier = groupLeaves ms := by
  rw [regroup, List.map_cons, if_pos List.mem_cons_self, members_cons_self]

theorem regroup_cons_of_ne (h : name ≠ tag) :
    regroup ((name, value) :: rest) tag earlier = regroup rest tag earlier := by
  simp only [regroup, List.map_cons, List.mem_cons, Ne.symm h, false_or, members_cons_of_ne h]

theorem bare_cons_of_group (h : IsGroup name) : bare ((name, value) :: rest) = bare rest := by
  simp [bare, h]

theorem bare_cons_of_not_group (h : ¬ IsGroup name) :
    bare ((name, value) :: rest) = (name, value) :: bare rest := by
  simp [bare, h]

theorem allTag_ne_anyTag : allTag ≠ anyTag := by decide

theorem extend_all (hrest : allTag ∉ rest.map (·.1)) :
    extend d ((allTag, .array (ms.map .object)) :: rest) = extend { d with allOf := groupLeaves ms } rest := by
  simp only [extend, bare_cons_of_group (.inl rfl), regroup_cons_self, regroup_of_notMem hrest,
    regroup_cons_of_ne allTag_ne_anyTag]

theorem extend_any (hrest : anyTag ∉ rest.map (·.1)) :
    extend d ((anyTag, .array (ms.map .object)) :: rest) = extend { d with anyOf := groupLeaves ms } rest := by
  simp only [extend, bare_cons_of_group (.inr rfl), regroup_cons_self, regroup_of_notMem hrest,
    regroup_cons_of_ne allTag_ne_anyTag.symm]

theorem extend_bare (hname : ¬ IsGroup name) : extend d ((name, value) :: rest) =
    extend { d with leaves := d.leaves ++ [Leaf.ofField (name, value)] } rest := by
  obtain ⟨hall, hany⟩ := not_or.1 hname
  simp only [extend, bare_cons_of_not_group hname, regroup_cons_of_ne hall, regroup_cons_of_ne hany, List.map_cons,
    List.append_assoc, List.singleton_append]

end

/-- The fields of an object are added just if it is well-shaped. -/
theorem addFields_eq_ok {d' : Definition} : ∀ {fields : Fields Json} {d : Definition}, (fields.map (·.1)).Nodup →
    (addFields d fields = .ok d' ↔ WellShaped fields ∧ d' = extend d fields)
  | [], d, _ => by
    have hd : extend d [] = d := by simp [extend, bare, regroup]
    rw [addFields, Except.ok.injEq, hd, eq_comm]
    exact ⟨fun h => ⟨⟨nofun, nofun⟩, h⟩, fun h => h.2⟩
  | (name, value) :: rest, d, hn => by
    obtain ⟨hnew, hn⟩ := List.nodup_cons.1 hn
    -- a group is read if its value is an array of objects, and the rest behind it
    have hgroup {tag : String} {f : List (List Leaf) → Definition} (hg : IsGroup name)
        (hf : ∀ ms, value = .array (ms.map .object) →
          extend d ((name, value) :: rest) = extend (f (groupLeaves ms)) rest) :
        (groupOfJson tag value >>= fun group => addFields (f group) rest) = .ok d' ↔
          WellShaped ((name, value) :: rest) ∧ d' = extend d ((name, value) :: rest) := by
      simp only [bind_eq_ok, groupOfJson_eq_ok, addFields_eq_ok hn, wellShaped_cons]
      constructor
      · rintro ⟨_, ⟨ms, hms, rfl⟩, hshape, rfl⟩
        exact ⟨⟨fun _ => hg, fun _ => ⟨ms, hms⟩, hshape⟩, (hf ms hms).symm⟩
      · rintro ⟨⟨-, hms, hshape⟩, rfl⟩
        obtain ⟨ms, hms⟩ := hms hg
        exact ⟨_, ⟨ms, hms, rfl⟩, hshape, hf ms hms⟩
    rw [addFields]
    split
    · rename_i hname
      obtain rfl : name = allTag := hname
      exact hgroup (.inl rfl) fun ms hms => hms ▸ extend_all hnew
    split
    · rename_i hname
      obtain rfl : name = anyTag := hname
      exact hgroup (.inr rfl) fun ms hms => hms ▸ extend_any hnew
    rename_i hall hany
    have hbare : ¬ IsGroup name := not_or.2 ⟨hall, hany⟩
    split
    · rename_i htag
      exact ⟨nofun, fun h => absurd ((wellShaped_cons.1 h.1).1 htag) hbare⟩
    · rename_i htag
      rw [addFields_eq_ok hn, wellShaped_cons, extend_bare hbare]
      exact ⟨fun ⟨hshape, h⟩ => ⟨⟨fun h => absurd h htag, fun h => absurd h hbare, hshape⟩, h⟩,
        fun ⟨⟨_, _, hshape⟩, h⟩ => ⟨hshape, h⟩⟩

/-- An object whose fields cannot be added is refused for its shape. -/
theorem addFields_error {e : CompileError} : ∀ {fields : Fields Json} {d : Definition},
    addFields d fields = .error e → e.IsShape
  | [], d, h => by cases h
  | (name, value) :: rest, d, h => by
    rw [addFields] at h
    split at h
    · rcases bind_eq_error.1 h with h | ⟨group, -, h⟩
      · exact groupOfJson_error h
      · exact addFields_error h
    split at h
    · rcases bind_eq_error.1 h with h | ⟨group, -, h⟩
      · exact groupOfJson_error h
      · exact addFields_error h
    split at h
    · cases h; trivial
    · exact addFields_error h

/-! ## Documents -/

variable {j : Json} {d : Definition}

/-- A document is read just if it is a well-shaped object, leaf for leaf. -/
theorem ofJson_eq_ok (hj : j.Ordered) :
    ofJson j = .ok d ↔ ∃ fields, j = .object fields ∧ WellShaped fields ∧ d = ofFields fields := by
  cases j with
  | object fields =>
    rw [ofJson, addFields_eq_ok hj.1.nodup_names, extend_nothing]
    constructor
    · intro h
      exact ⟨fields, rfl, h⟩
    · rintro ⟨_, hfields, h⟩
      cases hfields
      exact h
  | _ =>
    constructor
    · intro h
      cases h
    · rintro ⟨_, hfields, -⟩
      cases hfields

theorem ofJson_error {e : CompileError} (h : ofJson j = .error e) : e.IsShape := by
  cases j with
  | object fields => exact addFields_error h
  | _ => cases h; trivial

/-- A document that is no well-shaped object is refused for its shape. -/
theorem ofJson_refused_iff (hj : j.Ordered) :
    (∃ e, ofJson j = .error e ∧ e.IsShape) ↔ ∀ fields, j = .object fields → ¬ WellShaped fields := by
  constructor
  · rintro ⟨e, he, -⟩ fields hfields hshape
    rw [(ofJson_eq_ok hj).2 ⟨fields, hfields, hshape, rfl⟩] at he
    cases he
  · intro h
    cases hr : ofJson j with
    | error e => exact ⟨e, rfl, ofJson_error hr⟩
    | ok d =>
      obtain ⟨fields, hfields, hshape, -⟩ := (ofJson_eq_ok hj).1 hr
      exact absurd hshape (h fields hfields)

/-! ## Where the fields of the leaves come from -/

theorem ofField_field (field : String × Json) : (Leaf.ofField field).field = field.1 := by
  obtain ⟨name, value⟩ := field
  cases value <;> rfl

/-- The fields of the leaves of an object are its names. -/
theorem map_ofField_field (fields : Fields Json) : (fields.map Leaf.ofField).map (·.field) = fields.names := by
  rw [List.map_map, Fields.names]
  exact List.map_congr_left fun field _ => ofField_field field

theorem groupLeaves_fields (members : List (Fields Json)) :
    (groupLeaves members).map (·.map (·.field)) = members.map Fields.names := by
  rw [groupLeaves, List.map_map]
  exact List.map_congr_left fun member _ => map_ofField_field member

/-- No leaf of a group is for a tag just if no name in its members is one. -/
theorem forall_groupLeaves {members : List (Fields Json)} :
    (∀ leaf ∈ (groupLeaves members).flatten, ¬ IsTag leaf.field) ↔ ∀ member ∈ members, ∀ name ∈ member.names,
      ¬ IsTag name := by
  simp only [groupLeaves, List.mem_flatten, List.mem_map, Fields.names]
  constructor
  · rintro h member hmember _ ⟨field, hfield, rfl⟩
    exact ofField_field field ▸ h _ ⟨_, ⟨member, hmember, rfl⟩, List.mem_map_of_mem hfield⟩
  · rintro h _ ⟨_, ⟨member, hmember, rfl⟩, hleaf⟩
    obtain ⟨field, hfield, rfl⟩ := List.mem_map.1 hleaf
    exact ofField_field field ▸ h member hmember _ ⟨field, hfield, rfl⟩

/-- No leaf at the top is for a tag, as a tag at the top is that of a group or refused. -/
theorem WellShaped.leaves_not_tag {fields : Fields Json} (h : WellShaped fields) :
    ∀ leaf ∈ (ofFields fields).leaves, ¬ IsTag leaf.field := by
  intro leaf hleaf htag
  obtain ⟨field, hfield, rfl⟩ := List.mem_map.1 hleaf
  obtain ⟨hfield, hbare⟩ := List.mem_filter.1 hfield
  exact of_decide_eq_true hbare (h.known field hfield (ofField_field field ▸ htag))

/-- **The leaves of a definition follow the names in its document**: those at the top the names that are no group, those
of a group the names in its members. A document with a tag at the top that is no group is refused, and no leaf there is
for a tag; in the members of a group a leaf is for a tag just if a name is one. -/
theorem leaves_follow_keys (hj : j.Ordered) :
    (∀ d, ofJson j = .ok d → ∃ fields, j = .object fields ∧ WellShaped fields ∧ d = ofFields fields ∧
      d.leaves.map (·.field) = (bare fields).names ∧
      d.allOf.map (·.map (·.field)) = (members fields allTag).map Fields.names ∧
      d.anyOf.map (·.map (·.field)) = (members fields anyTag).map Fields.names ∧
      (∀ leaf ∈ d.leaves, ¬ IsTag leaf.field) ∧
      ((∀ leaf ∈ d.all, ¬ IsTag leaf.field) ↔
        ∀ member ∈ members fields allTag ++ members fields anyTag, ∀ name ∈ member.names, ¬ IsTag name)) ∧
    ((∃ e, ofJson j = .error e ∧ e.IsShape) ↔ ∀ fields, j = .object fields → ¬ WellShaped fields) := by
  refine ⟨fun d hd => ?_, ofJson_refused_iff hj⟩
  obtain ⟨fields, hfields, hshape, rfl⟩ := (ofJson_eq_ok hj).1 hd
  have htop := hshape.leaves_not_tag
  refine ⟨fields, hfields, hshape, rfl, map_ofField_field _, groupLeaves_fields _, groupLeaves_fields _, htop, ?_⟩
  rw [all, required, alternatives, List.append_assoc]
  simp only [List.forall_mem_append]
  rw [and_iff_right htop]
  exact and_congr forall_groupLeaves forall_groupLeaves

/-- A document with a field at the top and two in a member of a group. -/
theorem leaves_follow_keys_grouped :
    let j : Json := .object [("$or", .array [.object [("b", .null), ("c", .null)]]), ("a", .null)]
    j.Ordered ∧ ∃ d, ofJson j = .ok d ∧ d.leaves.map (·.field) = ["a"] ∧
      d.anyOf.map (·.map (·.field)) = [["b", "c"]] ∧ ∀ leaf ∈ d.all, ¬ IsTag leaf.field := by
  intro j
  have hj : j.Ordered := by
    simp only [j, Json.Ordered, Json.OrderedItems, Json.OrderedFields, Fields.Ordered]
    decide
  refine ⟨hj, _, rfl, ?_⟩
  obtain ⟨fields, hfields, -, -, hleaves, -, hany, -, htags⟩ := (leaves_follow_keys hj).1 _ rfl
  obtain rfl := Json.object.inj hfields
  exact ⟨hleaves, hany, htags.2 (by decide)⟩

/-- A group in a member of a group is taken for a field. -/
theorem nested_group_read :
    ∃ d, ofJson (.object [("$or", .array [.object [("$nor", .array [])]])]) = .ok d ∧
      ∃ leaf ∈ d.all, IsTag leaf.field :=
  ⟨_, rfl, _, List.mem_singleton_self _, rfl⟩

end Definition

end RecordStore
