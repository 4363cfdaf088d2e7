import Mathlib.Tactic.SplitIfs
import RecordStore.Cursor

/-!
# The order of texts

Texts are ordered by code points. **`Text.utf8_lt_utf8`**: this is the order of their UTF-8 bytes.
-/

namespace RecordStore.Text

open Cursor (utf8)

/-- The UTF-8 bytes of a code point, as numbers. -/
def units (v : Nat) : List Nat :=
  if v ≤ 0x7f then [v]
  else if v ≤ 0x7ff then [v / 64 % 0x20 + 0xc0, v % 0x40 + 0x80]
  else if v ≤ 0xffff then [v / 4096 % 0x10 + 0xe0, v / 64 % 0x40 + 0x80, v % 0x40 + 0x80]
  else [v / 262144 % 0x08 + 0xf0, v / 4096 % 0x40 + 0x80, v / 64 % 0x40 + 0x80, v % 0x40 + 0x80]

theorem utf8EncodeChar_eq (c : Char) : String.utf8EncodeChar c = (units c.val.toNat).map UInt8.ofNat := by
  unfold String.utf8EncodeChar units
  simp only
  split_ifs <;> rfl

theorem units_lt (v : Nat) : ∀ n ∈ units v, n < 256 := by
  unfold units
  split_ifs <;> simp only [List.forall_mem_cons, List.not_mem_nil, false_implies, implies_true, and_true] <;> omega

/-- The bytes of a smaller code point come first, whatever follows. -/
theorem units_append_lt {v w : Nat} (h : v < w) (hw : w < 0x110000) (r r' : List Nat) :
    units v ++ r < units w ++ r' := by
  have hdiv : ∀ n, n / 4096 = n / 64 / 64 ∧ n / 262144 = n / 64 / 64 / 64 := fun n => by omega
  unfold units
  rw [(hdiv v).1, (hdiv v).2, (hdiv w).1, (hdiv w).2]
  split_ifs <;> simp only [List.cons_append, List.nil_append, List.cons_lt_cons_iff] <;> omega

/-- Numbers of bytes that are in order are bytes in order. -/
theorem map_ofNat_lt : ∀ {l l' : List Nat}, (∀ n ∈ l, n < 256) → (∀ n ∈ l', n < 256) → l < l' →
    l.map UInt8.ofNat < l'.map UInt8.ofNat
  | [], [], _, _, h => absurd h (List.lt_irrefl _)
  | [], _ :: _, _, _, _ => List.nil_lt_cons _ _
  | _ :: _, [], _, _, h => absurd h (List.not_lt_nil _)
  | m :: l, n :: l', hl, hl', h => by
    obtain ⟨hm, hl⟩ := List.forall_mem_cons.1 hl
    obtain ⟨hn, hl'⟩ := List.forall_mem_cons.1 hl'
    rw [List.map_cons, List.map_cons, List.cons_lt_cons_iff]
    rcases List.cons_lt_cons_iff.1 h with hmn | ⟨heq, hrest⟩
    · apply Or.inl
      rw [UInt8.lt_iff_toNat_lt, UInt8.toNat_ofNat', UInt8.toNat_ofNat']
      omega
    · exact .inr ⟨congrArg UInt8.ofNat heq, map_ofNat_lt hl hl' hrest⟩

theorem flatMap_units_lt : ∀ {a b : List Char}, a < b →
    (a.flatMap fun c => units c.val.toNat) < b.flatMap fun c => units c.val.toNat
  | [], [], h => absurd h (List.lt_irrefl _)
  | [], d :: b, _ => by
    have hne : units d.val.toNat ≠ [] := by unfold units; split_ifs <;> exact List.cons_ne_nil _ _
    obtain ⟨n, rest, hn⟩ := List.exists_cons_of_ne_nil hne
    rw [List.flatMap_cons, hn]
    exact List.nil_lt_cons _ _
  | _ :: _, [], h => absurd h (List.not_lt_nil _)
  | c :: a, d :: b, h => by
    rw [List.flatMap_cons, List.flatMap_cons]
    rcases List.cons_lt_cons_iff.1 h with hcd | ⟨rfl, hab⟩
    · have hd : d.val.toNat < 0x110000 := by
        have := d.valid
        simp only [UInt32.isValidChar, Nat.isValidChar] at this
        omega
      exact units_append_lt hcd hd _ _
    · exact List.append_left_lt (flatMap_units_lt hab)

theorem utf8_eq (s : String) : utf8 s = (s.toList.flatMap fun c => units c.val.toNat).map UInt8.ofNat := by
  have hs : utf8 s = s.toList.flatMap String.utf8EncodeChar := by
    rw [utf8, String.toUTF8_eq_toByteArray, ← String.utf8Encode_toList, List.utf8Encode]
    simp
  rw [hs, List.map_flatMap, funext utf8EncodeChar_eq]

/-- **The order of texts is that of their bytes.** -/
theorem utf8_lt_utf8 {a b : String} (h : a < b) : utf8 a < utf8 b := by
  have hbytes : ∀ s : String, ∀ n ∈ s.toList.flatMap fun c => units c.val.toNat, n < 256 := fun s n hn => by
    obtain ⟨c, -, hc⟩ := List.mem_flatMap.1 hn
    exact units_lt _ n hc
  rw [utf8_eq, utf8_eq]
  exact map_ofNat_lt (hbytes a) (hbytes b) (flatMap_units_lt h)

end RecordStore.Text
