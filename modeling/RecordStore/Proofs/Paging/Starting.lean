import RecordStore.Proofs.Cursor
import RecordStore.Proofs.Memory.Reading
import RecordStore.Proofs.Table.Rows

/-!
# Where pages start

A page starts where the read starts or after some key: `Table.Opens t w start items` says that from `start` on just
`items` are to be read, and `Table.Leads t w start items` that it is so since `start` is the key of the item before
them. **`Table.Opens.read`**: a part of a page is what such a read returns of some of these items, and the key that
comes with it leads to the rest. **`Table.Leads.cursor`**: the cursor to a key is read as a start at this key.
**`Table.keyFrom_eq`**: the key of an item that a page is cut at is its key in the order of the read.

**`Table.Sound.opens`**: a key need not be that of an item that is there. Every key that has a position opens the items
that come after this position.
-/

namespace RecordStore

open MemoryStore (partOf taken)

/-- The names of the key attributes of a table and of the index that is read. -/
def TableShape.keyNames (shape : TableShape) (index : Option IndexShape) : List String :=
  (shape.key.attributes ++ (index.map (·.key.attributes)).getD []).map (·.name)

namespace Table

variable {t : Table} {w : TableRead} {start : Option Key} {items : List Item}

/-- From a start on, some items of a read are to be read. -/
inductive Leads (t : Table) (w : TableRead) : Option Key → List Item → Prop
  /-- From the start on, all items. -/
  | start : Leads t w none (t.rows w)
  /-- After the key of an item, the items that come next. -/
  | after {before after : List Item} {item : Item} : t.rows w = before ++ item :: after →
      Leads t w (some (keyIn (t.shape.readOrder w.index) item)) after

/-- From a start on, some items of a read are walked, and they are the last ones of it. -/
structure Opens (t : Table) (w : TableRead) (start : Option Key) (items : List Item) : Prop where
  ahead : ∀ limit, t.ahead { w with limit := limit, after := start.getD [] } = .ok items
  suffix : items <:+ t.rows w

/-- A key that leads to some items opens them. -/
theorem Leads.opens (h : t.Leads w start items) (hs : t.Sound) (hk : t.shape.key.partition.type ≠ .number) :
    t.Opens w start items := by
  cases h with
  | start => exact ⟨fun limit => ahead_start t rfl, List.suffix_refl _⟩
  | @after before after item hrows =>
    constructor
    · intro limit
      exact @Sound.ahead_keyIn t hs hk { w with limit := limit, after := _ } _ _ _ hrows rfl
    · exact ⟨before ++ [item], by rw [hrows, List.append_assoc]; rfl⟩

/-- The key of an item among the last ones leads to what comes next. -/
theorem leads_of_suffix (h : items <:+ t.rows w) {before after : List Item} {item : Item}
    (hi : items = before ++ item :: after) : t.Leads w (some (keyIn (t.shape.readOrder w.index) item)) after := by
  obtain ⟨front, hfront⟩ := h
  exact @Leads.after t w (front ++ before) after item (by rw [← hfront, hi, List.append_assoc])

/-! ## Keys that open something -/

theorem mem_rows {item : Item} (h : item ∈ t.rows w) :
    item ∈ t.items ∧ ∃ p, place (t.shape.readOrder w.index) item = .ok p := by
  obtain ⟨entry, he, rfl⟩ := List.mem_map.1 h
  exact ⟨(mem_ordered.1 he).1, _, (mem_ordered.1 he).2⟩

/-- What lies beyond a position is the end of what stands in order. -/
theorem filter_isAhead_suffix {forward : Bool} (p : Option Position) : ∀ {entries : List (Position × Item)},
    entries.Pairwise (fun a b => Before forward a.1 b.1) → entries.filter (isAhead forward p) <:+ entries
  | [], _ => List.suffix_refl _
  | entry :: entries, h => by
    obtain ⟨hentry, hentries⟩ := List.pairwise_cons.1 h
    by_cases hahead : isAhead forward p entry = true
    · -- then all that follows lies beyond the position
      have hall : ∀ e ∈ entry :: entries, isAhead forward p e = true := by
        refine List.forall_mem_cons.2 ⟨hahead, ?_⟩
        intro e he
        cases p with
        | none => rfl
        | some p => exact isBeyond_iff.2 ((isBeyond_iff.1 hahead).trans (hentry e he))
      rw [List.filter_eq_self.2 hall]
    · rw [List.filter_cons_of_neg hahead]
      exact (filter_isAhead_suffix p hentries).trans (List.suffix_cons _ _)

/-- A start that stands for a position opens what lies beyond it. -/
theorem opens_beyond (hs : t.Sound) (hk : t.shape.key.partition.type ≠ .number) {p : Option Position}
    (hp : startPosition (t.shape.readOrder w.index) (start.getD []) = .ok p) :
    t.Opens w start (((t.ordered (t.shape.readOrder w.index) w.forward).filter (isAhead w.forward p)).map (·.2)) := by
  constructor
  · intro limit
    simp only [ahead, hp, bind, Except.bind]
  · have hpairs := hs.ordered_pairwise hk (parts_mem_readOrder t.shape w.index) w.forward
    exact (filter_isAhead_suffix p hpairs).map _

/-- A key that a read can start after: there is something in it, and it has a position. -/
def Stands (readOrder : List (Option KeyField)) (key : Key) : Prop :=
  key ≠ [] ∧ ∃ p, place readOrder key = .ok p

theorem startPosition_of_stands {readOrder : List (Option KeyField)} {key : Key} (h : Stands readOrder key) :
    ∃ p, place readOrder key = .ok p ∧ startPosition readOrder key = .ok (some p) := by
  obtain ⟨hne, p, hp⟩ := h
  refine ⟨p, hp, ?_⟩
  rw [startPosition, if_neg (by simpa using hne), hp]
  rfl

/-- The key of an item that is read stands for a position. -/
theorem stands_keyIn {item : Item} (h : item ∈ t.rows w) :
    Stands (t.shape.readOrder w.index) (keyIn (t.shape.readOrder w.index) item) := by
  obtain ⟨-, p, hp⟩ := mem_rows h
  refine ⟨keyIn_ne_nil (parts_mem_readOrder t.shape w.index _ List.mem_cons_self) hp, p, ?_⟩
  rw [place_keyIn, hp]

/-- A key that leads to some items stands for a position. -/
theorem Leads.stands {key : Key} (h : t.Leads w (some key) items) : Stands (t.shape.readOrder w.index) key := by
  cases h with
  | @after before after item hrows =>
    have hmem : item ∈ t.rows w := by rw [hrows]; simp
    exact stands_keyIn hmem

/-- **A key that has a position opens the items after it**, whether or not it is the key of an item that is there. -/
theorem Sound.opens (hs : t.Sound) (hk : t.shape.key.partition.type ≠ .number)
    (hstart : ∀ key ∈ start, Stands (t.shape.readOrder w.index) key) :
    ∃ items, t.Opens w start items ∧ ∀ item, item ∈ items ↔
      item ∈ t.rows w ∧ ∀ key ∈ start, Precedes (t.shape.readOrder w.index) w.forward key item := by
  cases start with
  | none =>
    refine ⟨_, Leads.start.opens hs hk, ?_⟩
    intro item
    simp
  | some key =>
    obtain ⟨p, hp, hposition⟩ := startPosition_of_stands (hstart key rfl)
    refine ⟨_, opens_beyond hs hk hposition, ?_⟩
    intro item
    simp only [rows, List.mem_map, List.mem_filter, Option.mem_some_iff, forall_eq']
    constructor
    · rintro ⟨entry, ⟨he, hahead⟩, rfl⟩
      exact ⟨⟨entry, he, rfl⟩, p, entry.1, hp, (mem_ordered.1 he).2, isBeyond_iff.1 hahead⟩
    · rintro ⟨⟨entry, he, rfl⟩, p', q, hp', hq, hbefore⟩
      rw [hp] at hp'
      rw [(mem_ordered.1 he).2] at hq
      cases hp'
      cases hq
      exact ⟨entry, ⟨he, isBeyond_iff.2 hbefore⟩, rfl⟩

/-- A start opens some items, or every read from there on is refused. -/
theorem Sound.opens_or_refused (hs : t.Sound) (hk : t.shape.key.partition.type ≠ .number) (w : TableRead)
    (start : Option Key) :
    (∃ items, t.Opens w start items) ∨
      ∃ e, ∀ limit, t.ahead { w with limit := limit, after := start.getD [] } = .error e := by
  cases hp : startPosition (t.shape.readOrder w.index) (start.getD []) with
  | ok p => exact .inl ⟨_, opens_beyond hs hk hp⟩
  | error e =>
    refine .inr ⟨e, ?_⟩
    intro limit
    simp only [ahead, hp, bind, Except.bind]

/-! ## Parts -/

/-- What a part of a page holds of the items to be read, and where it leads. -/
inductive Part (t : Table) (w : TableRead) (items : List Item) : List Item × Option Key → Prop
  /-- All of them. -/
  | last : Part t w items (w.outputs items, none)
  /-- Some of them, with a key that leads to the rest. -/
  | more {done left : List Item} {key : Key} : items = done ++ left → done ≠ [] → t.Leads w (some key) left →
      Part t w items (w.outputs done, some key)

/-- The key that a part leads to stands for a position. -/
theorem Part.stands {part : List Item × Option Key} (h : t.Part w items part) :
    ∀ key ∈ part.2, Stands (t.shape.readOrder w.index) key := by
  cases h with
  | last => exact nofun
  | more _ _ hleads =>
    rintro _ ⟨⟩
    exact hleads.stands

/-- **A part of a page** holds what the read returns of some of the items to be read. -/
theorem Opens.read (h : t.Opens w start items) (he : w.Evaluates (t.rows w)) (faults : Faults) (cap : Option Nat) :
    ∃ r, t.read (partOf faults w cap start) = .ok r ∧ t.Part w items (taken r) := by
  have hev : (partOf faults w cap start).Evaluates items := TableRead.Evaluates.sublist he h.suffix.subset
  obtain ⟨r, hr, hwalked⟩ := @TableRead.walk_walked _ (keyIn (t.shape.readOrder w.index)) _ 0 hev
  refine ⟨r, by rw [read_eq, partOf, h.ahead]; exact hr, ?_⟩
  cases hwalked with
  | whole => exact .last
  | @part before after item hi _ _ _ =>
    have hmem : item ∈ t.rows w := h.suffix.subset (by rw [hi]; simp)
    obtain ⟨hne, -⟩ := stands_keyIn hmem
    have htaken : (some (keyIn (t.shape.readOrder w.index) item)).filter (fun key => !key.isEmpty) =
        some (keyIn (t.shape.readOrder w.index) item) := by
      rw [Option.filter_some, if_pos (by simpa using hne)]
    rw [taken, htaken]
    exact .more (by rw [hi, List.append_assoc]; rfl) (by simp) (leads_of_suffix h.suffix hi)

/-! ## Cursors -/

/-- The key attributes of a read order are those of the table and of the index. -/
theorem mem_keyNames_iff {shape : TableShape} {index : Option IndexShape} {name : String} :
    name ∈ shape.keyNames index ↔ name ∈ (shape.readOrder index).filterMap fun k => k.map (·.name) := by
  have hparts : ∀ key : KeyShape, (key.parts.filterMap fun k => k.map (·.name)) = key.attributes.map (·.name) := by
    rintro ⟨partition, _ | sort⟩ <;> rfl
  cases index <;> simp [TableShape.keyNames, TableShape.readOrder, List.filterMap_append, hparts, or_comm]

/-- The name of a key attribute in a read order. -/
theorem mem_keyNames {readOrder : List (Option KeyField)} {name : String}
    (h : name ∈ readOrder.filterMap fun k => k.map (·.name)) : ∃ k, some k ∈ readOrder ∧ k.name = name := by
  obtain ⟨k, hk, hname⟩ := List.mem_filterMap.1 h
  cases k with
  | none => cases hname
  | some k => exact ⟨k, hk, Option.some.inj hname⟩

/-- The key attributes of an item that has a position are scalars. -/
theorem isScalar_of_place {readOrder : List (Option KeyField)} {item : Item} {p : Position} {k : KeyField}
    {a : Attribute} (h : place readOrder item = .ok p) (hk : some k ∈ readOrder) (ha : item.find k.name = some a) :
    a.isScalar = true := by
  obtain ⟨s, hs⟩ := part_ok_of_mem h hk
  obtain ⟨key, -, hkey⟩ := part_some_ok hs
  obtain ⟨b, hb, htype, -⟩ := KeyField.sortKey_ok.1 hkey
  rw [ha] at hb
  cases hb
  cases a <;> cases hk : k.type <;>
    simp_all [KeyType.accepts, Attribute.type, KeyType.attributeType, Attribute.isScalar]

theorem keyIn_scalars {readOrder : List (Option KeyField)} {item : Item} {p : Position}
    (h : place readOrder item = .ok p) (ho : Fields.Ordered item) :
    ∀ entry ∈ keyIn readOrder item, entry.2.isScalar = true := by
  rintro ⟨name, a⟩ he
  obtain ⟨hi, hname⟩ := List.mem_filter.1 he
  obtain ⟨k, hk, rfl⟩ := mem_keyNames (by simpa using hname)
  exact isScalar_of_place h hk (ho.find_of_mem hi)

/-- **The cursor to a key** that leads somewhere stands for this key and is read as a start at it. -/
theorem Leads.cursor {key : Key} (h : t.Leads w (some key) items) (hs : t.Sound) :
    ∃ token, Page.cursorTo (some key) = some token ∧ Cursor.decode token = .ok key ∧
      ∀ settings, Page.start settings (some token) = .ok (some key) := by
  cases h with
  | @after before after item hrows =>
    have hmem : item ∈ t.rows w := by rw [hrows]; simp
    obtain ⟨hi, p, hp⟩ := mem_rows hmem
    have ho := hs.ordered item hi
    obtain ⟨hne, -⟩ := stands_keyIn hmem
    have htoken := Cursor.encode?_of_ne_nil hne
    have hdecode := Cursor.decode_encode? htoken (ho.restrict _) (keyIn_scalars hp ho)
    refine ⟨_, htoken, hdecode, fun settings => ?_⟩
    have hblank := Cursor.isBlankText_encode? htoken
    simp only [Page.start, Option.filter_some, hblank, Bool.not_false, if_true, hdecode]

/-! ## Keys of what is returned -/

theorem mapM_find {out : Item} : ∀ {fields : List String} {entries : List (String × Attribute)},
    (fields.mapM fun field => (out.find field).map (field, ·)) = some entries →
      entries.map (·.1) = fields ∧ ∀ entry ∈ entries, out.find entry.1 = some entry.2
  | [], entries, h => by cases h; exact ⟨rfl, nofun⟩
  | field :: fields, entries, h => by
    rw [List.mapM_cons] at h
    obtain ⟨entry, he, h⟩ := Option.bind_eq_some_iff.1 h
    obtain ⟨rest, hr, h⟩ := Option.bind_eq_some_iff.1 h
    obtain ⟨a, ha, rfl⟩ := Option.map_eq_some_iff.1 he
    cases h
    obtain ⟨hnames, hrest⟩ := mapM_find hr
    exact ⟨by rw [List.map_cons, hnames], List.forall_mem_cons.2 ⟨ha, hrest⟩⟩

theorem mapM_isSome {out : Item} : ∀ {fields : List String}, (∀ f ∈ fields, out.has f = true) →
    (fields.mapM fun field => (out.find field).map (field, ·)).isSome
  | [], _ => rfl
  | field :: fields, h => by
    obtain ⟨hfield, hfields⟩ := List.forall_mem_cons.1 h
    obtain ⟨a, ha⟩ := Fields.has_iff.1 hfield
    obtain ⟨entries, hentries⟩ := Option.isSome_iff_exists.1 (mapM_isSome hfields)
    simp only [List.mapM_cons, ha, hentries, Option.map_some, Option.bind_eq_bind, Option.bind_some, Option.pure_def,
      Option.isSome_some]

theorem mapM_congr {a b : Item} : ∀ {fields : List String}, (∀ f ∈ fields, a.find f = b.find f) →
    (fields.mapM fun field => (a.find field).map (field, ·)) = fields.mapM fun field => (b.find field).map (field, ·)
  | [], _ => rfl
  | field :: fields, h => by
    obtain ⟨hfield, hfields⟩ := List.forall_mem_cons.1 h
    rw [List.mapM_cons, List.mapM_cons, hfield, mapM_congr hfields]

/-- The key of an item depends on the key fields alone. -/
theorem keyFrom_congr {fields : List String} {a b : Item} (h : ∀ f ∈ fields, a.find f = b.find f) :
    Page.keyFrom fields a = Page.keyFrom fields b := by
  rw [Page.keyFrom, Page.keyFrom, mapM_congr h]

/-- What has all of some fields has a key of them. -/
theorem keyFrom_isSome {fields : List String} {out : Item} (hne : fields ≠ []) (h : ∀ f ∈ fields, out.has f = true) :
    (Page.keyFrom fields out).isSome := by
  rw [Page.keyFrom, if_neg (by simpa using hne), Option.isSome_map]
  exact mapM_isSome h

/-- An item that has a position has all key attributes. -/
theorem has_of_place {readOrder : List (Option KeyField)} {item : Item} {p : Position} {name : String}
    (h : place readOrder item = .ok p) (hname : name ∈ readOrder.filterMap fun k => k.map (·.name)) :
    item.has name = true := by
  obtain ⟨k, hk, rfl⟩ := mem_keyNames hname
  exact has_of_part (part_ok_of_mem h hk)

/-- The key of an item of which only some attributes are there is its key. -/
theorem keyFrom_eq {fields names : List String} {out item : Item} {key : Key} (h : Page.keyFrom fields out = some key)
    (hf : ∀ f, f ∈ fields ↔ f ∈ names) (ho : Fields.Ordered item) (hw : Fields.Within out item) :
    key = Fields.restrict item names := by
  unfold Page.keyFrom at h
  split at h
  · cases h
  obtain ⟨entries, he, rfl⟩ := Option.map_eq_some_iff.1 h
  obtain ⟨hnames, hagree⟩ := mapM_find he
  refine (Fields.ordered_ofList entries).ext (ho.restrict _) fun k => ?_
  rw [Fields.ofList_eq_merge, Fields.find_merge_of_agree (m := item) fun e he => hw _ _ (hagree e he), hnames,
    Fields.find_restrict]
  simp only [hf, Fields.find_nil]

theorem within_project (s : Scope) : ∀ (paths : List Path) {out : Item}, Fields.Within out s.item →
    Fields.Within (paths.foldl (fun out p =>
      match Scope.resolve s.names p.head with
      | some name =>
        match s.item.find name with
        | some a => Fields.put name a out
        | none => out
      | none => out) out) s.item
  | [], _, h => h
  | p :: paths, out, h => by
    rw [List.foldl_cons]
    refine within_project s paths ?_
    split
    · split
      · rename_i name _ a ha
        intro k v hk
        rw [Fields.find_put] at hk
        split at hk
        · subst_vars; cases hk; exact ha
        · exact h k v hk
      · exact h
    · exact h

/-- What is returned of an item are attributes of the item. -/
theorem within_output (w : TableRead) (item : Item) : Fields.Within (w.output item) item := by
  unfold TableRead.output
  split
  · exact within_project _ _ nofun
  · exact Fields.Within.refl item

end Table

end RecordStore
