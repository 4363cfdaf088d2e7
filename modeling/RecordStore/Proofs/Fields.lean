import RecordStore.Fields

/-!
# Laws of named fields

What the operations on `Fields` do to the value under a name, and that they keep the names ascending:

* `find_put`, `find_merge`, `find_ofList`, `find_restrict`;
* `Ordered.put`, `Ordered.merge`, `ordered_ofList`, `Ordered.restrict`;
* `perm_put`, `perm_merge`: what is set under new names is added to the entries;
* **`Ordered.ext`**: two maps with ascending names and the same values under all names are the same list.
-/

namespace RecordStore.Fields

variable {α β : Type} {m first second : Fields α} {name k : String} {v : α}

/-! ## Looking up -/

@[simp] theorem find_nil (k : String) : find ([] : Fields α) k = none := rfl

theorem find_cons (entry : String × α) (m : Fields α) (k : String) :
    find (entry :: m) k = if entry.1 = k then some entry.2 else find m k := rfl

/-- A value that is found is an entry. -/
theorem mem_of_find : ∀ {m : Fields α}, find m k = some v → (k, v) ∈ m
  | [], h => by cases h
  | (l, w) :: m, h => by
    rw [find_cons] at h
    split at h
    · rename_i hl
      cases h; cases hl
      exact List.mem_cons_self
    · exact List.mem_cons_of_mem _ (mem_of_find h)

/-- A name that is not found is none of the names. -/
theorem find_eq_none_iff : ∀ {m : Fields α}, find m k = none ↔ ∀ entry ∈ m, entry.1 ≠ k
  | [] => by simp
  | entry :: m => by
    rw [find_cons]
    by_cases h : entry.1 = k
    · simp [h]
    · simp [h, find_eq_none_iff (m := m)]

theorem has_iff : has m k = true ↔ ∃ v, find m k = some v := by
  simp [has, Option.isSome_iff_exists]

/-! ## Ascending names -/

theorem ordered_nil : Ordered ([] : Fields α) := List.Pairwise.nil

theorem ordered_cons {entry : String × α} :
    Ordered (entry :: m) ↔ (∀ other ∈ m, entry.1 < other.1) ∧ Ordered m := List.pairwise_cons

theorem ordered_singleton (entry : String × α) : Ordered [entry] := List.pairwise_singleton _ _

/-- An entry of a map is what is found under its name. -/
theorem Ordered.find_of_mem : ∀ {m : Fields α}, m.Ordered → (k, v) ∈ m → find m k = some v
  | [], _, h => by cases h
  | (l, w) :: m, ho, h => by
    obtain ⟨hl, ho⟩ := ordered_cons.1 ho
    rw [find_cons]
    rcases List.mem_cons.1 h with h | h
    · cases h; rw [if_pos rfl]
    · have hne : l ≠ k := fun e => String.lt_irrefl k (e ▸ hl _ h)
      rw [if_neg hne]
      exact ho.find_of_mem h

/-- A name below all names of a map is not found in it. -/
theorem find_eq_none_of_lt (h : ∀ entry ∈ m, k < entry.1) : find m k = none :=
  find_eq_none_iff.2 fun entry he e => String.lt_irrefl k (e ▸ h entry he)

/-- **Extensionality**: two maps with the same values under all names are the same list. -/
theorem Ordered.ext : ∀ {a b : Fields α}, a.Ordered → b.Ordered → (∀ k, find a k = find b k) → a = b
  | [], [], _, _, _ => rfl
  | [], (k, v) :: b, _, _, h => by have := h k; simp [find_cons] at this
  | (k, v) :: a, [], _, _, h => by have := h k; simp [find_cons] at this
  | (k, v) :: a, (l, w) :: b, ha, hb, h => by
    obtain ⟨hka, hoa⟩ := ordered_cons.1 ha
    obtain ⟨hlb, hob⟩ := ordered_cons.1 hb
    have hkl : k = l := by
      refine String.le_antisymm (fun hlk => ?_) (fun hkl => ?_)
      · -- a smaller head of the second map would be missing in the first
        have hl := h l
        rw [find_eq_none_of_lt (m := (k, v) :: a)
          (List.forall_mem_cons.2 ⟨hlk, fun e he => String.lt_trans hlk (hka e he)⟩)] at hl
        simp [find_cons] at hl
      · have hk := h k
        rw [find_eq_none_of_lt (m := (l, w) :: b)
          (List.forall_mem_cons.2 ⟨hkl, fun e he => String.lt_trans hkl (hlb e he)⟩)] at hk
        simp [find_cons] at hk
    subst hkl
    have hv : v = w := by have := h k; simpa [find_cons] using this
    have hab : a = b := by
      refine hoa.ext hob fun n => ?_
      by_cases hn : k = n
      · subst hn
        rw [find_eq_none_of_lt hka, find_eq_none_of_lt hlb]
      · have := h n
        simpa [find_cons, hn] using this
    rw [hv, hab]

/-! ## Setting a value -/

theorem find_put (name : String) (value : α) : ∀ (m : Fields α) (k : String),
    find (put name value m) k = if name = k then some value else find m k
  | [], k => rfl
  | (l, w) :: m, k => by
    rw [put]
    split
    · rfl
    split
    · rename_i h; subst h
      by_cases h : name = k <;> simp [find_cons, h]
    · rename_i hne
      rw [find_cons, find_put name value m k, find_cons]
      by_cases h : l = k
      · have : name ≠ k := fun e => hne (e.trans h.symm)
        simp [h, this]
      · simp [h]

theorem mem_put {entry : String × α} : ∀ {m : Fields α}, entry ∈ put name v m → entry = (name, v) ∨ entry ∈ m
  | [], h => by simpa [put] using h
  | (l, w) :: m, h => by
    rw [put] at h
    split at h
    · simpa using h
    split at h
    · rcases List.mem_cons.1 h with h | h
      · exact .inl h
      · exact .inr (List.mem_cons_of_mem _ h)
    · rcases List.mem_cons.1 h with h | h
      · exact .inr (h ▸ List.mem_cons_self)
      · exact (mem_put h).imp_right (List.mem_cons_of_mem _)

theorem Ordered.put : ∀ {m : Fields α}, m.Ordered → (Fields.put name v m).Ordered
  | [], _ => ordered_singleton _
  | (l, w) :: m, h => by
    obtain ⟨hl, ho⟩ := ordered_cons.1 h
    rw [Fields.put]
    split
    · rename_i hlt
      exact ordered_cons.2 ⟨List.forall_mem_cons.2 ⟨hlt, fun e he => String.lt_trans hlt (hl e he)⟩, h⟩
    split
    · rename_i heq; subst heq
      exact ordered_cons.2 ⟨hl, ho⟩
    · rename_i hlt hne
      refine ordered_cons.2 ⟨fun e he => ?_, ho.put⟩
      rcases mem_put he with rfl | he
      · -- neither below nor equal, so above
        exact Classical.byContradiction fun h => hne (String.le_antisymm h hlt)
      · exact hl e he

/-! ## Joining maps -/

theorem merge_nil (first : Fields α) : merge first [] = first := rfl

theorem merge_cons (first : Fields α) (entry : String × α) (second : Fields α) :
    merge first (entry :: second) = merge (put entry.1 entry.2 first) second := rfl

/-- An entry of a joined map is one of either map. -/
theorem mem_merge {entry : String × α} : ∀ {first : Fields α} {second : List (String × α)},
    entry ∈ merge first second → entry ∈ first ∨ entry ∈ second
  | _, [], h => .inl h
  | first, other :: second, h => by
    rw [merge_cons] at h
    rcases mem_merge h with h | h
    · rcases mem_put h with rfl | h
      · exact .inr List.mem_cons_self
      · exact .inl h
    · exact .inr (List.mem_cons_of_mem _ h)

theorem Ordered.merge : ∀ {first : Fields α} (second : Fields α), first.Ordered → (Fields.merge first second).Ordered
  | _, [], h => h
  | _, _ :: second, h => (h.put).merge second

/-- Where both maps have a name, the second counts. -/
theorem find_merge : ∀ {first second : Fields α} (_ : second.Ordered) (k : String),
    find (merge first second) k = (find second k).or (find first k)
  | first, [], _, k => by simp [merge_nil]
  | first, (l, w) :: second, h, k => by
    obtain ⟨hl, ho⟩ := ordered_cons.1 h
    rw [merge_cons, find_merge ho, find_put, find_cons]
    by_cases h : l = k
    · subst h
      simp [find_eq_none_of_lt hl]
    · simp [h]

theorem ordered_ofList (entries : List (String × α)) : (ofList entries).Ordered :=
  ordered_nil.merge entries

theorem ofList_eq_merge (entries : List (String × α)) : ofList entries = merge [] entries := rfl

/-- A name that is none of the entries keeps its value. -/
theorem find_merge_of_notMem : ∀ {first : Fields α} {second : List (String × α)}, k ∉ second.map (·.1) →
    find (merge first second) k = find first k
  | _, [], _ => rfl
  | first, entry :: second, h => by
    rw [List.map_cons, List.mem_cons, not_or] at h
    rw [merge_cons, find_merge_of_notMem h.2, find_put, if_neg (Ne.symm h.1)]

/-- Of entries with distinct names each is found. -/
theorem find_merge_of_mem : ∀ {first : Fields α} {second : List (String × α)}, (second.map (·.1)).Nodup →
    (k, v) ∈ second → find (merge first second) k = some v
  | _, [], _, h => by cases h
  | first, entry :: second, hn, h => by
    obtain ⟨hne, hn⟩ := List.nodup_cons.1 hn
    rw [merge_cons]
    rcases List.mem_cons.1 h with rfl | h
    · rw [find_merge_of_notMem hne, find_put, if_pos rfl]
    · exact find_merge_of_mem hn h

/-- Entries that are all those of one map under their names put its values there. -/
theorem find_merge_of_agree {m : Fields α} : ∀ {first : Fields α} {second : List (String × α)},
    (∀ entry ∈ second, find m entry.1 = some entry.2) →
      find (merge first second) k = if k ∈ second.map (·.1) then find m k else find first k
  | _, [], _ => rfl
  | first, (l, w) :: second, h => by
    obtain ⟨hl, h⟩ := List.forall_mem_cons.1 h
    rw [merge_cons, find_merge_of_agree h, find_put]
    by_cases hk : k = l
    · subst hk
      simp [hl]
    · simp only [List.map_cons, List.mem_cons, hk, Ne.symm hk, false_or, if_false]

theorem find_ofList_of_mem {entries : List (String × α)} (hn : (entries.map (·.1)).Nodup) (h : (k, v) ∈ entries) :
    find (ofList entries) k = some v := find_merge_of_mem hn h

/-- A name of the map of some entries is the name of one. -/
theorem mem_of_has_ofList {entries : List (String × α)} (h : has (ofList entries) k = true) :
    k ∈ entries.map (·.1) := by
  refine Classical.byContradiction fun hk => ?_
  rw [has, ofList_eq_merge, find_merge_of_notMem hk] at h
  cases h

/-- An entry of the map of some entries is one of them. -/
theorem mem_of_mem_ofList {entry : String × α} {entries : List (String × α)} (h : entry ∈ ofList entries) :
    entry ∈ entries :=
  (mem_merge h).resolve_left List.not_mem_nil

/-- The map of entries that are one already is that map. -/
theorem Ordered.ofList_eq (h : m.Ordered) : ofList m = m :=
  (ordered_ofList m).ext h fun k => by rw [ofList_eq_merge, find_merge h]; simp

/-- The names of a map are distinct. -/
theorem Ordered.nodup_names (h : m.Ordered) : (m.map (·.1)).Nodup := by
  rw [List.nodup_iff_pairwise_ne, List.pairwise_map]
  refine List.Pairwise.imp ?_ h
  intro a b hlt heq
  rw [heq] at hlt
  exact String.lt_irrefl b.1 hlt

/-- The map of the entries of a map in any order is that map. -/
theorem Ordered.ofList_of_perm (h : m.Ordered) {entries : List (String × α)} (hp : entries.Perm m) :
    ofList entries = m := by
  have hnodup : (entries.map (·.1)).Nodup := (hp.map (·.1)).nodup_iff.2 h.nodup_names
  refine (ordered_ofList entries).ext h fun k => ?_
  cases hk : find m k with
  | some v =>
    have hmem : (k, v) ∈ entries := hp.mem_iff.2 (mem_of_find hk)
    exact find_ofList_of_mem hnodup hmem
  | none =>
    rw [find_eq_none_iff] at hk ⊢
    intro entry he heq
    have hhas : has (ofList entries) k = true := has_iff.2 ⟨entry.2, heq ▸ (ordered_ofList entries).find_of_mem he⟩
    obtain ⟨other, hother, rfl⟩ := List.mem_map.1 (mem_of_has_ofList hhas)
    exact hk other (hp.mem_iff.1 hother) rfl

/-! ## Entries of joined maps -/

theorem perm_put : ∀ {m : Fields α}, name ∉ m.names → (put name v m).Perm ((name, v) :: m)
  | [], _ => .refl _
  | (k, w) :: m, h => by
    rw [names, List.map_cons, List.mem_cons, not_or] at h
    rw [put]
    split
    · exact .refl _
    rw [if_neg h.1]
    exact ((perm_put h.2).cons (k, w)).trans (.swap _ _ m)

/-- Entries under names that are new and distinct are all there. -/
theorem perm_merge : ∀ {first : Fields α} {second : List (String × α)}, (first ++ second).names.Nodup →
    (merge first second).Perm (first ++ second)
  | first, [], _ => by rw [List.append_nil]; exact .refl first
  | first, (k, w) :: second, h => by
    have hmiddle : (first ++ (k, w) :: second).Perm ((k, w) :: (first ++ second)) := List.perm_middle
    have hnew : k ∉ first.names := by
      rw [names, (hmiddle.map Prod.fst).nodup_iff, List.map_cons, List.nodup_cons, List.map_append] at h
      exact fun hmem => h.1 (List.mem_append_left _ hmem)
    have hput : (put k w first ++ second).Perm (first ++ (k, w) :: second) :=
      ((perm_put hnew).append_right second).trans hmiddle.symm
    rw [merge_cons]
    exact (perm_merge ((hput.map Prod.fst).nodup_iff.2 h)).trans hput

/-- Maps that are merged one after the other are one list of entries. -/
theorem foldl_merge : ∀ (ms : List (Fields α)) (first : Fields α), ms.foldl merge first = merge first ms.flatten
  | [], _ => rfl
  | m :: ms, first => by
    rw [List.foldl_cons, foldl_merge ms, List.flatten_cons, merge, merge, merge, List.foldl_append]

/-! ## Leaving names out -/

theorem find_filter (p : String → Bool) : ∀ (m : Fields α) (k : String),
    find (m.filter fun entry => p entry.1) k = if p k then find m k else none
  | [], k => by simp
  | (l, w) :: m, k => by
    by_cases hp : p l
    · rw [List.filter_cons_of_pos (by simpa using hp), find_cons, find_filter p m k, find_cons]
      by_cases hk : l = k
      · subst hk; simp [hp]
      · simp [hk]
    · rw [List.filter_cons_of_neg (by simpa using hp), find_filter p m k, find_cons]
      by_cases hk : l = k
      · subst hk; simp [hp]
      · simp [hk]

theorem find_restrict (m : Fields α) (kept : List String) (k : String) :
    find (restrict m kept) k = if k ∈ kept then find m k else none := by
  rw [restrict, find_filter fun l => kept.contains l]
  simp

theorem Ordered.filter (h : m.Ordered) (p : String × α → Bool) : Ordered (m.filter p) :=
  List.Pairwise.filter p h

theorem Ordered.restrict (h : m.Ordered) (kept : List String) : (Fields.restrict m kept).Ordered := h.filter _

/-! ## Maps with more entries -/

/-- What is found in the first map is found in the second one too. -/
def Within (first second : Fields α) : Prop :=
  ∀ k v, find first k = some v → find second k = some v

theorem Within.refl (m : Fields α) : Within m m := fun _ _ h => h

theorem Within.trans {a b c : Fields α} (hab : Within a b) (hbc : Within b c) : Within a c :=
  fun k v h => hbc k v (hab k v h)

/-- The map that is merged in is found in the result. -/
theorem within_merge_right (h : second.Ordered) : Within second (merge first second) := fun k v hk => by
  rw [find_merge h, hk]; rfl

/-- The map that is merged into is found in the result if no name is in both. -/
theorem within_merge_left (h : second.Ordered) (hd : ∀ k, has first k = true → has second k = false) :
    Within first (merge first second) := fun k v hk => by
  have : find second k = none := by
    have := hd k (has_iff.2 ⟨v, hk⟩)
    simpa [has] using this
  rw [find_merge h, this, hk]; rfl

end RecordStore.Fields
