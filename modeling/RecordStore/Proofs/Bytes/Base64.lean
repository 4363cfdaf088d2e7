import RecordStore.Bytes.Base64
import RecordStore.Text.Blank

/-!
# Base64 both ways

**`decode_encode`**: the text of some bytes stands for just these bytes, and it is the only one that does
(**`decode?_eq_some_iff`**). It has no blanks (`isBlank_of_mem_encodeChars`).
-/

namespace RecordStore.Base64

/-- Six bits are read from their character. -/
theorem digit?_digit : ∀ {n : Nat}, n < 64 → digit? (digit n) = some n := by
  decide

theorem digit_ne_pad : ∀ {n : Nat}, n < 64 → digit n ≠ '=' := by
  decide

theorem isBlank_digit : ∀ {n : Nat}, n < 64 → Text.isBlank (digit n) = false := by
  decide

/-- A group that does not end in the padding is read before what follows. -/
theorem decodeChars_group {a b c d : Char} (hd : d ≠ '=') (rest : List Char) :
    decodeChars (a :: b :: c :: d :: rest) =
      (do let head ← three? a b c d; let tail ← decodeChars rest; some (head ++ tail)) := by
  rw [decodeChars]
  · rintro rfl rfl
    exact absurd rfl hd
  · rintro rfl
    exact absurd rfl hd

theorem lastOne?_encode (a : UInt8) : lastOne? (digit (a.toNat / 4)) (digit (a.toNat % 4 * 16)) = some [a] := by
  have ha := a.toNat_lt
  have hbyte : a.toNat / 4 * 4 + a.toNat % 4 * 16 / 16 = a.toNat := by omega
  simp only [lastOne?, digit?_digit (n := a.toNat / 4) (by omega), digit?_digit (n := a.toNat % 4 * 16) (by omega),
    bind, Option.bind]
  rw [if_pos (by omega), hbyte, UInt8.ofNat_toNat]

theorem lastTwo?_encode (a b : UInt8) : lastTwo? (digit (a.toNat / 4)) (digit (a.toNat % 4 * 16 + b.toNat / 16))
    (digit (b.toNat % 16 * 4)) = some [a, b] := by
  have ha := a.toNat_lt
  have hb := b.toNat_lt
  have hfirst : a.toNat / 4 * 4 + (a.toNat % 4 * 16 + b.toNat / 16) / 16 = a.toNat := by omega
  have hsecond : (a.toNat % 4 * 16 + b.toNat / 16) % 16 * 16 + b.toNat % 16 * 4 / 4 = b.toNat := by omega
  simp only [lastTwo?, digit?_digit (n := a.toNat / 4) (by omega),
    digit?_digit (n := a.toNat % 4 * 16 + b.toNat / 16) (by omega), digit?_digit (n := b.toNat % 16 * 4) (by omega),
    bind, Option.bind]
  rw [if_pos (by omega), hfirst, hsecond, UInt8.ofNat_toNat, UInt8.ofNat_toNat]

theorem three?_encode (a b c : UInt8) : three? (digit (a.toNat / 4)) (digit (a.toNat % 4 * 16 + b.toNat / 16))
    (digit (b.toNat % 16 * 4 + c.toNat / 64)) (digit (c.toNat % 64)) = some [a, b, c] := by
  have ha := a.toNat_lt
  have hb := b.toNat_lt
  have hc := c.toNat_lt
  have hfirst : a.toNat / 4 * 4 + (a.toNat % 4 * 16 + b.toNat / 16) / 16 = a.toNat := by omega
  have hsecond : (a.toNat % 4 * 16 + b.toNat / 16) % 16 * 16 + (b.toNat % 16 * 4 + c.toNat / 64) / 4 = b.toNat := by
    omega
  have hthird : (b.toNat % 16 * 4 + c.toNat / 64) % 4 * 64 + c.toNat % 64 = c.toNat := by omega
  simp only [three?, digit?_digit (n := a.toNat / 4) (by omega),
    digit?_digit (n := a.toNat % 4 * 16 + b.toNat / 16) (by omega),
    digit?_digit (n := b.toNat % 16 * 4 + c.toNat / 64) (by omega), digit?_digit (n := c.toNat % 64) (by omega),
    bind, Option.bind]
  rw [hfirst, hsecond, hthird, UInt8.ofNat_toNat, UInt8.ofNat_toNat, UInt8.ofNat_toNat]

theorem decodeChars_encodeChars : ∀ bytes : List UInt8, decodeChars (encodeChars bytes) = some bytes
  | [] => rfl
  | [a] => by
    rw [encodeChars, decodeChars, lastOne?_encode]
  | [a, b] => by
    have hb := b.toNat_lt
    rw [encodeChars, decodeChars, lastTwo?_encode]
    intro h
    exact absurd h (digit_ne_pad (by omega))
  | a :: b :: c :: rest => by
    rw [encodeChars, decodeChars_group (digit_ne_pad (Nat.mod_lt _ (by decide))), three?_encode,
      decodeChars_encodeChars rest]
    rfl

/-- **The text of some bytes stands for these bytes.** -/
theorem decode_encode (bytes : List UInt8) : decode? (encode bytes) = some bytes := by
  rw [decode?, encode, String.toList_ofList, decodeChars_encodeChars]

/-- No character of such a text is a blank. -/
theorem isBlank_of_mem_encodeChars : ∀ {bytes : List UInt8} {c : Char}, c ∈ encodeChars bytes →
    Text.isBlank c = false
  | [], _, h => by cases h
  | [a], c, h => by
    have ha := a.toNat_lt
    simp only [encodeChars, List.mem_cons, List.not_mem_nil, or_false] at h
    rcases h with rfl | rfl | rfl | rfl
    · exact isBlank_digit (by omega)
    · exact isBlank_digit (by omega)
    · decide
    · decide
  | [a, b], c, h => by
    have ha := a.toNat_lt
    have hb := b.toNat_lt
    simp only [encodeChars, List.mem_cons, List.not_mem_nil, or_false] at h
    rcases h with rfl | rfl | rfl | rfl
    · exact isBlank_digit (by omega)
    · exact isBlank_digit (by omega)
    · exact isBlank_digit (by omega)
    · decide
  | a :: b :: d :: rest, c, h => by
    have ha := a.toNat_lt
    have hb := b.toNat_lt
    have hd := d.toNat_lt
    simp only [encodeChars, List.mem_cons] at h
    rcases h with rfl | rfl | rfl | rfl | h
    · exact isBlank_digit (by omega)
    · exact isBlank_digit (by omega)
    · exact isBlank_digit (by omega)
    · exact isBlank_digit (by omega)
    · exact isBlank_of_mem_encodeChars h

theorem encodeChars_ne_nil : ∀ {bytes : List UInt8}, bytes ≠ [] → encodeChars bytes ≠ []
  | [], h => absurd rfl h
  | [_], _ | [_, _], _ | _ :: _ :: _ :: _, _ => by simp [encodeChars]

/-! ## Texts that stand for bytes -/

/-- A character of a range is given by its distance from the first one. -/
theorem ofNat_add_sub {c first : Char} (h : first ≤ c) : Char.ofNat (first.toNat + (c.toNat - first.toNat)) = c := by
  have hle : first.toNat ≤ c.toNat := h
  rw [Nat.add_sub_cancel' hle, Char.ofNat_toNat]

/-- A character of the alphabet is that of the six bits that it stands for. -/
theorem digit_of_digit? {c : Char} {n : Nat} (h : digit? c = some n) : n < 64 ∧ digit n = c := by
  unfold digit? at h
  split at h
  · rename_i hc
    have hhigh : c.toNat ≤ 90 := hc.2
    obtain rfl := Option.some.inj h
    have hn : c.toNat - 'A'.toNat < 26 := by change c.toNat - 65 < 26; omega
    exact ⟨by omega, by rw [digit, if_pos hn, ofNat_add_sub hc.1]⟩
  split at h
  · rename_i hc
    have hhigh : c.toNat ≤ 122 := hc.2
    obtain rfl := Option.some.inj h
    have hn : c.toNat - 'a'.toNat < 26 := by change c.toNat - 97 < 26; omega
    refine ⟨by omega, ?_⟩
    rw [digit, if_neg (by omega), if_pos (by omega), Nat.add_sub_cancel, ofNat_add_sub hc.1]
  split at h
  · rename_i hc
    have hhigh : c.toNat ≤ 57 := hc.2
    obtain rfl := Option.some.inj h
    have hn : c.toNat - '0'.toNat < 10 := by change c.toNat - 48 < 10; omega
    refine ⟨by omega, ?_⟩
    rw [digit, if_neg (by omega), if_neg (by omega), if_pos (by omega), Nat.add_sub_cancel, ofNat_add_sub hc.1]
  split at h
  · rename_i hc
    cases h
    exact ⟨by decide, hc.symm⟩
  split at h
  · rename_i hc
    cases h
    exact ⟨by decide, hc.symm⟩
  · cases h

theorem encodeChars_lastOne? {a b : Char} {bytes : List UInt8} (h : lastOne? a b = some bytes) :
    encodeChars bytes = [a, b, '=', '='] := by
  obtain ⟨x, hx, h⟩ := Option.bind_eq_some_iff.1 h
  obtain ⟨y, hy, h⟩ := Option.bind_eq_some_iff.1 h
  obtain ⟨hx64, hxa⟩ := digit_of_digit? hx
  obtain ⟨hy64, hyb⟩ := digit_of_digit? hy
  split at h
  · rename_i hspare
    cases h
    have hbyte : x * 4 + y / 16 < 256 := by omega
    have hfirst : (x * 4 + y / 16) / 4 = x := by omega
    have hsecond : (x * 4 + y / 16) % 4 * 16 = y := by omega
    rw [encodeChars, UInt8.toNat_ofNat_of_lt' hbyte, hfirst, hsecond, hxa, hyb]
  · cases h

theorem encodeChars_lastTwo? {a b c : Char} {bytes : List UInt8} (h : lastTwo? a b c = some bytes) :
    encodeChars bytes = [a, b, c, '='] := by
  obtain ⟨x, hx, h⟩ := Option.bind_eq_some_iff.1 h
  obtain ⟨y, hy, h⟩ := Option.bind_eq_some_iff.1 h
  obtain ⟨z, hz, h⟩ := Option.bind_eq_some_iff.1 h
  obtain ⟨hx64, hxa⟩ := digit_of_digit? hx
  obtain ⟨hy64, hyb⟩ := digit_of_digit? hy
  obtain ⟨hz64, hzc⟩ := digit_of_digit? hz
  split at h
  · rename_i hspare
    cases h
    have hbyte : x * 4 + y / 16 < 256 := by omega
    have hbyte' : y % 16 * 16 + z / 4 < 256 := by omega
    have hfirst : (x * 4 + y / 16) / 4 = x := by omega
    have hsecond : (x * 4 + y / 16) % 4 * 16 + (y % 16 * 16 + z / 4) / 16 = y := by omega
    have hthird : (y % 16 * 16 + z / 4) % 16 * 4 = z := by omega
    rw [encodeChars, UInt8.toNat_ofNat_of_lt' hbyte, UInt8.toNat_ofNat_of_lt' hbyte', hfirst, hsecond, hthird,
      hxa, hyb, hzc]
  · cases h

theorem encodeChars_three? {a b c d : Char} {bytes : List UInt8} (h : three? a b c d = some bytes)
    (rest : List UInt8) : encodeChars (bytes ++ rest) = a :: b :: c :: d :: encodeChars rest := by
  obtain ⟨x, hx, h⟩ := Option.bind_eq_some_iff.1 h
  obtain ⟨y, hy, h⟩ := Option.bind_eq_some_iff.1 h
  obtain ⟨z, hz, h⟩ := Option.bind_eq_some_iff.1 h
  obtain ⟨w, hw, h⟩ := Option.bind_eq_some_iff.1 h
  obtain ⟨hx64, hxa⟩ := digit_of_digit? hx
  obtain ⟨hy64, hyb⟩ := digit_of_digit? hy
  obtain ⟨hz64, hzc⟩ := digit_of_digit? hz
  obtain ⟨hw64, hwd⟩ := digit_of_digit? hw
  cases h
  have hbyte : x * 4 + y / 16 < 256 := by omega
  have hbyte' : y % 16 * 16 + z / 4 < 256 := by omega
  have hbyte'' : z % 4 * 64 + w < 256 := by omega
  have hfirst : (x * 4 + y / 16) / 4 = x := by omega
  have hsecond : (x * 4 + y / 16) % 4 * 16 + (y % 16 * 16 + z / 4) / 16 = y := by omega
  have hthird : (y % 16 * 16 + z / 4) % 16 * 4 + (z % 4 * 64 + w) / 64 = z := by omega
  have hfourth : (z % 4 * 64 + w) % 64 = w := by omega
  simp only [List.cons_append, List.nil_append]
  rw [encodeChars, UInt8.toNat_ofNat_of_lt' hbyte, UInt8.toNat_ofNat_of_lt' hbyte', UInt8.toNat_ofNat_of_lt' hbyte'',
    hfirst, hsecond, hthird, hfourth, hxa, hyb, hzc, hwd]

/-- Characters that stand for some bytes are the text of these bytes. -/
theorem encodeChars_of_decodeChars {cs : List Char} {bytes : List UInt8} (h : decodeChars cs = some bytes) :
    encodeChars bytes = cs := by
  fun_induction decodeChars cs generalizing bytes with
  | case1 =>
    cases h
    rfl
  | case2 a b => exact encodeChars_lastOne? h
  | case3 a b c _ => exact encodeChars_lastTwo? h
  | case4 a b c d rest _ _ ih =>
    obtain ⟨head, hhead, h⟩ := Option.bind_eq_some_iff.1 h
    obtain ⟨tail, htail, h⟩ := Option.bind_eq_some_iff.1 h
    cases h
    rw [encodeChars_three? hhead, ih htail]
  | case5 => cases h

/-- **A text that stands for some bytes is their only text.** -/
theorem decode?_eq_some_iff {text : String} {bytes : List UInt8} : decode? text = some bytes ↔ text = encode bytes := by
  constructor
  · intro h
    rw [encode, encodeChars_of_decodeChars h, String.ofList_toList]
  · rintro rfl
    exact decode_encode bytes

end RecordStore.Base64
