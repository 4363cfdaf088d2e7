import RecordStore.Proofs.Table.Order
import RecordStore.Table.Basic

/-!
# Laws of partitions

What is found in a partition after an insertion (`find_insert`) and after an erasure (`find_erase`), and that both keep
its sort keys strictly ascending (`Ascending.insert`, `Ascending.erase`).
-/

namespace RecordStore.Partition

open Position (comparePart)
open Std (TransCmp OrientedCmp)

variable {p : Partition} {s s' : Option SortKey} {item : Item}

/-- The sort keys are strictly ascending. -/
def Ascending (p : Partition) : Prop :=
  p.Pairwise fun a b => comparePart a.1 b.1 = .lt

/-! ## Looking up -/

theorem find_cons (entry : Option SortKey × Item) (p : Partition) (s : Option SortKey) :
    find (entry :: p) s = if comparePart entry.1 s = .eq then some entry.2 else find p s := by
  by_cases h : comparePart entry.1 s = .eq <;> simp [find, same, h]

/-- What is found is an entry. -/
theorem mem_of_find : ∀ {p : Partition}, find p s = some item → ∃ k, (k, item) ∈ p ∧ comparePart k s = .eq
  | [], h => by cases h
  | entry :: p, h => by
    rw [find_cons] at h
    split at h
    · rename_i he
      cases h
      exact ⟨entry.1, List.mem_cons_self, he⟩
    · obtain ⟨k, hk, he⟩ := mem_of_find h
      exact ⟨k, List.mem_cons_of_mem _ hk, he⟩

/-- An entry is what is found at its key. -/
theorem Ascending.find_of_mem : ∀ {p : Partition}, p.Ascending → ∀ {k : Option SortKey}, (k, item) ∈ p →
    comparePart k s = .eq → find p s = some item
  | [], _, _, h, _ => by cases h
  | entry :: p, ha, k, h, hk => by
    obtain ⟨hlt, ha⟩ := List.pairwise_cons.1 ha
    rw [find_cons]
    rcases List.mem_cons.1 h with rfl | h
    · rw [if_pos hk]
    · have : comparePart entry.1 s = .lt := TransCmp.lt_of_lt_of_eq (hlt _ h) hk
      rw [if_neg (by rw [this]; exact nofun)]
      exact Ascending.find_of_mem ha h hk

/-! ## Inserting -/

theorem find_insert (s : Option SortKey) (item : Item) : ∀ (p : Partition) (s' : Option SortKey),
    find (insert s item p) s' = if comparePart s s' = .eq then some item else find p s'
  | [], s' => find_cons (s, item) [] s'
  | (k, other) :: p, s' => by
    rw [insert]
    split
    · exact find_cons _ _ s'
    · rename_i heq
      rw [find_cons, find_cons, TransCmp.congr_left heq]
      split <;> rfl
    · rename_i hgt
      rw [find_cons, find_cons, find_insert s item p s']
      split
      · rename_i hk
        rw [if_neg]
        rw [TransCmp.gt_of_gt_of_eq hgt hk]
        exact nofun
      · rfl

/-- An entry after an insertion is the new one, the new item in the place of another, or one from before. -/
theorem mem_insert : ∀ {p : Partition} {entry : Option SortKey × Item}, entry ∈ insert s item p →
    entry = (s, item) ∨ (entry.2 = item ∧ comparePart s entry.1 = .eq ∧ ∃ old, (entry.1, old) ∈ p) ∨ entry ∈ p
  | [], entry, h => .inl (List.mem_singleton.1 h)
  | (k, other) :: p, entry, h => by
    rw [insert] at h
    split at h
    · rcases List.mem_cons.1 h with h | h
      · exact .inl h
      · exact .inr (.inr h)
    · rename_i heq
      rcases List.mem_cons.1 h with rfl | h
      · exact .inr (.inl ⟨rfl, heq, other, List.mem_cons_self⟩)
      · exact .inr (.inr (List.mem_cons_of_mem _ h))
    · rcases List.mem_cons.1 h with rfl | h
      · exact .inr (.inr List.mem_cons_self)
      · rcases mem_insert h with h | ⟨hi, he, old, hm⟩ | h
        · exact .inl h
        · exact .inr (.inl ⟨hi, he, old, List.mem_cons_of_mem _ hm⟩)
        · exact .inr (.inr (List.mem_cons_of_mem _ h))

theorem insert_ne_nil (s : Option SortKey) (item : Item) (p : Partition) : insert s item p ≠ [] := by
  cases p with
  | nil => exact nofun
  | cons entry p => rw [insert]; split <;> exact nofun

theorem Ascending.insert : ∀ {p : Partition}, p.Ascending → (Partition.insert s item p).Ascending
  | [], _ => List.pairwise_singleton _ _
  | (k, other) :: p, h => by
    obtain ⟨hlt, ha⟩ := List.pairwise_cons.1 h
    rw [Partition.insert]
    split
    · rename_i hs
      exact List.pairwise_cons.2 ⟨List.forall_mem_cons.2 ⟨hs, fun e he => TransCmp.lt_trans hs (hlt e he)⟩, h⟩
    · exact List.pairwise_cons.2 ⟨hlt, ha⟩
    · rename_i hs
      refine List.pairwise_cons.2 ⟨fun e he => ?_, Ascending.insert ha⟩
      have hks : comparePart k s = .lt := OrientedCmp.lt_of_gt hs
      rcases mem_insert he with rfl | ⟨-, heq, -⟩ | he
      · exact hks
      · exact TransCmp.lt_of_lt_of_eq hks heq
      · exact hlt e he

/-! ## Erasing -/

theorem find_erase (s : Option SortKey) : ∀ (p : Partition) (s' : Option SortKey),
    find (erase s p) s' = if comparePart s s' = .eq then none else find p s'
  | [], s' => by simp [erase, find]
  | entry :: p, s' => by
    have ih := find_erase s p s'
    rw [erase] at ih ⊢
    by_cases h : comparePart entry.1 s = .eq
    · rw [List.filter_cons_of_neg (by simp [same, h]), ih, find_cons, TransCmp.congr_left h]
      split <;> rfl
    · rw [List.filter_cons_of_pos (by simp [same, h]), find_cons, ih, find_cons]
      split
      · rename_i he
        rw [if_neg fun hs => h (TransCmp.eq_trans he (OrientedCmp.eq_symm hs))]
      · rfl

theorem Ascending.erase (h : p.Ascending) (s : Option SortKey) : (Partition.erase s p).Ascending :=
  List.Pairwise.filter _ h

theorem mem_of_mem_erase {entry : Option SortKey × Item} (h : entry ∈ erase s p) : entry ∈ p :=
  (List.mem_filter.1 h).1

end RecordStore.Partition
