import RecordStore.Expression.Basic
import RecordStore.Proofs.Attribute.Document
import RecordStore.Proofs.Number.Exact

/-!
# Numbers in documents of attributes

`Attribute.numeralAt?` is the numeral at a place in an attribute, a member of a set of numbers included, and
`Json.at?` is what stands at the same place of its document. **`Attribute.numbers_shown`**: there stands the numeral
itself as a string, or a number with a text of its own. That text denotes the number of the numeral just if the numeral
is a whole number of 64 bits, or is printed unchanged by the double nearest to it; numerals of up to fifteen digits
are, those of more than seventeen are not. Only the numerals that are beyond all finite doubles stand as strings.
-/

namespace RecordStore

/-- The numeral at a place in an attribute. -/
def Attribute.numeralAt? : List PathStep → Attribute → Option String
  | [], .number s => some s
  | [.index i], .numbers ss => ss[i]?
  | .index i :: rest, .list items => items[i]?.bind fun a => numeralAt? rest a
  | .field name :: rest, .map fields => (Fields.find fields name).bind fun a => numeralAt? rest a
  | _, _ => none

namespace Json

/-- What stands at a place in a document. -/
def at? : List PathStep → Json → Option Json
  | [], j => some j
  | .index i :: rest, .array items => items[i]?.bind fun j => at? rest j
  | .field name :: rest, .object fields => (Fields.find fields name).bind fun j => at? rest j
  | _ :: _, _ => none

/-- A document is a number whose text is read as a numeral. -/
def Shows (j : Json) (n : Numeral) : Prop :=
  ∃ number : JsonNumber, j = .number number ∧ Numeral.parse? number.chars = some n

/-- A document has the number of a numeral: it is the text of the numeral, or shows one for the same number. -/
def Keeps (j : Json) (s : String) (n : Numeral) : Prop :=
  j = .string s ∨ ∃ m, j.Shows m ∧ m.value = n.value

variable {i : ℤ} {x : Binary64} {m n : Numeral} {s : String}

/-- A whole number shows itself. -/
theorem shows_whole (h : JsonNumber.fits i = true) : ∃ m, (Json.number (.whole i)).Shows m ∧ m.value = i := by
  obtain ⟨-, m, hparse, hm⟩ := Numeral.of_integer? (Numeral.integer?_toString h)
  exact ⟨m, ⟨_, rfl, hparse⟩, hm⟩

/-- A finite double shows a numeral for the number that is printed, which is read as the double. -/
theorem shows_double (h : x.isFinite = true) :
    ∃ m, (Json.number (.double x)).Shows m ∧ m.value = x.printed ∧ Binary64.ofNumeral m = x := by
  obtain ⟨m, hparse, hm, hread⟩ := Binary64.value_chars h
  exact ⟨m, ⟨_, rfl, hparse⟩, hm, hread⟩

/-- A document shows one numeral. -/
theorem Shows.unique {j : Json} (hm : j.Shows m) (hn : j.Shows n) : m = n := by
  obtain ⟨number, rfl, hm⟩ := hm
  obtain ⟨_, ⟨⟩, hn⟩ := hn
  exact Option.some.inj (hm.symm.trans hn)

/-- A finite double has the number of a numeral just if that number is printed. -/
theorem keeps_double_iff (h : x.isFinite = true) :
    (Json.number (.double x)).Keeps s n ↔ x.printed = n.value := by
  obtain ⟨m, hshows, hm, -⟩ := shows_double h
  rw [← hm]
  refine ⟨fun hkeeps => ?_, fun heq => .inr ⟨m, hshows, heq⟩⟩
  rcases hkeeps with hstring | ⟨m', hshows', hm'⟩
  · cases hstring
  · rw [hshows.unique hshows', hm']

end Json

namespace Attribute

open Binary64 (ofNumeral)

variable {a : Attribute} {path : List PathStep} {s : String} {n : Numeral}

/-! ## Places -/

/-- The documents of the attributes in a list are in their places. -/
theorem getElem?_toJsonItems : ∀ (items : List Attribute) (i : ℕ), (toJsonItems items)[i]? = items[i]?.map toJson
  | [], _ => rfl
  | _ :: _, 0 => rfl
  | _ :: rest, i + 1 => by
    rw [toJsonItems, List.getElem?_cons_succ, List.getElem?_cons_succ, getElem?_toJsonItems rest i]

/-- The document of a field is found under its name. -/
theorem find_toJsonFields (name : String) : ∀ fields : List (String × Attribute),
    Fields.find (toJsonFields fields) name = (Fields.find fields name).map toJson
  | [] => rfl
  | (k, a) :: rest => by
    rw [toJsonFields, Fields.find_cons, Fields.find_cons, find_toJsonFields name rest]
    split <;> rfl

/-- **The document of a numeral** stands in its place. -/
theorem at?_toJson (h : numeralAt? path a = some s) : Json.at? path (toJson a) = some (numeralToJson s) := by
  fun_induction numeralAt? path a with
  | case1 t =>
    cases h
    rfl
  | case2 i ss =>
    rw [toJson, Json.at?, List.getElem?_map, h]
    rfl
  | case3 i rest items ih =>
    obtain ⟨inner, hinner, h⟩ := Option.bind_eq_some_iff.1 h
    rw [toJson, Json.at?, getElem?_toJsonItems, hinner]
    exact ih inner h
  | case4 name rest fields ih =>
    obtain ⟨inner, hinner, h⟩ := Option.bind_eq_some_iff.1 h
    rw [toJson, Json.at?, find_toJsonFields, hinner]
    exact ih inner h
  | case5 => cases h

/-! ## The documents of numerals -/

/-- The three documents of a numeral. -/
theorem numeralToJson_cases (hn : Numeral.parse? s.toList = some n) :
    (∃ i, Numeral.integer? s.toList = some i ∧ JsonNumber.fits i = true ∧ n.value = i ∧
      numeralToJson s = .number (.whole i)) ∨
      Numeral.integer? s.toList = none ∧
        ((ofNumeral n).isFinite = true ∧ numeralToJson s = .number (.double (ofNumeral n)) ∨
          (ofNumeral n).isFinite = false ∧ numeralToJson s = .string s) := by
  rw [numeralToJson]
  cases hi : Numeral.integer? s.toList with
  | some i =>
    obtain ⟨hfits, n', hn', hvalue⟩ := Numeral.of_integer? hi
    obtain rfl : n = n' := Option.some.inj (hn.symm.trans hn')
    exact .inl ⟨i, rfl, hfits, hvalue, rfl⟩
  | none =>
    rw [Binary64.parse?, hn]
    refine .inr ⟨rfl, ?_⟩
    cases hfin : (ofNumeral n).isFinite with
    | true => exact .inl ⟨rfl, if_pos hfin⟩
    | false => exact .inr ⟨rfl, if_neg (by rw [hfin]; exact Bool.false_ne_true)⟩

/-- The document of a numeral is its text, or shows one that is read as the same double. -/
theorem shows_nearest (hn : Numeral.parse? s.toList = some n) : numeralToJson s = .string s ∨
    ∃ m, (numeralToJson s).Shows m ∧ (ofNumeral m).signedPlace = (ofNumeral n).signedPlace := by
  rcases numeralToJson_cases hn with ⟨i, -, hfits, hvalue, hj⟩ | ⟨-, ⟨hfin, hj⟩ | ⟨-, hj⟩⟩ <;> rw [hj]
  · obtain ⟨m, hshows, hm⟩ := Json.shows_whole hfits
    have heq := hm.trans hvalue.symm
    exact .inr ⟨m, hshows, le_antisymm (Binary64.signedPlace_mono heq.le) (Binary64.signedPlace_mono heq.ge)⟩
  · obtain ⟨m, hshows, -, hread⟩ := Json.shows_double hfin
    exact .inr ⟨m, hshows, by rw [hread]⟩
  · exact .inl rfl

/-- The document of a numeral is its text just if the numeral is beyond all finite doubles. -/
theorem numeralToJson_eq_string_iff (hn : Numeral.parse? s.toList = some n) :
    numeralToJson s = .string s ↔ (ofNumeral n).isFinite = false := by
  rcases numeralToJson_cases hn with ⟨i, -, hfits, hvalue, hj⟩ | ⟨-, ⟨hfin, hj⟩ | ⟨hfin, hj⟩⟩ <;> rw [hj]
  · simp [Numeral.isFinite_of_fits hfits hvalue]
  · simp [hfin]
  · simp [hfin]

/-- What a numeral must be for its document to keep its number. -/
theorem keeps_iff (hn : Numeral.parse? s.toList = some n) : (numeralToJson s).Keeps s n ↔
    (Numeral.integer? s.toList).isSome = true ∨ (ofNumeral n).isFinite = false ∨
      (ofNumeral n).printed = n.value := by
  rcases numeralToJson_cases hn with ⟨i, hi, hfits, hvalue, hj⟩ | ⟨hi, ⟨hfin, hj⟩ | ⟨hfin, hj⟩⟩ <;> rw [hj, hi]
  · obtain ⟨m, hshows, hm⟩ := Json.shows_whole hfits
    exact iff_of_true (.inr ⟨m, hshows, hm.trans hvalue.symm⟩) (.inl rfl)
  · rw [Json.keeps_double_iff hfin, hfin]
    simp
  · exact iff_of_true (.inl rfl) (.inr (.inl hfin))

/-- A numeral of at most fifteen digits in the range of full precision has its number in its document. -/
theorem keeps_of_hasDigits (hn : Numeral.parse? s.toList = some n) (hdigits : n.HasDigits 15)
    (hrange : n.FullPrecision) : (numeralToJson s).Keeps s n := by
  rw [keeps_iff hn]
  cases hfin : (ofNumeral n).isFinite with
  | true => exact .inr (.inr (Numeral.printed_ofNumeral hfin hdigits hrange))
  | false => exact .inr (.inl rfl)

/-- A numeral of more than seventeen digits has its number in its document only if it is a whole number of 64 bits, or
its document is its text. -/
theorem hasDigits_of_keeps (hn : Numeral.parse? s.toList = some n) (h : (numeralToJson s).Keeps s n)
    (hi : Numeral.integer? s.toList = none) (hfin : (ofNumeral n).isFinite = true) : n.HasDigits 17 := by
  rw [keeps_iff hn, hi, hfin] at h
  rcases h with h | h | h
  · cases h
  · cases h
  · exact Numeral.hasDigits_of_printed hfin h

/-- **Numbers are shown as the nearest doubles**: where a numeral stands in an attribute, at any depth, there stands in
the document either the numeral itself as a string, and this just if the numeral is beyond all finite doubles, or a
number that is read as the same double. The number is kept just if the numeral is a whole number of 64 bits, beyond all
finite doubles, or printed unchanged by the double. A numeral of at most fifteen significant digits is, in the range
where doubles have their full precision; one of more than seventeen never is. -/
theorem numbers_shown (hat : numeralAt? path a = some s) (hn : Numeral.parse? s.toList = some n) :
    ∃ j, Json.at? path (toJson a) = some j ∧
      (j = .string s ∨ ∃ m, j.Shows m ∧ (ofNumeral m).signedPlace = (ofNumeral n).signedPlace) ∧
      (j = .string s ↔ (ofNumeral n).isFinite = false) ∧
      (j.Keeps s n ↔ (Numeral.integer? s.toList).isSome = true ∨ (ofNumeral n).isFinite = false ∨
        (ofNumeral n).printed = n.value) ∧
      (n.HasDigits 15 → n.FullPrecision → j.Keeps s n) ∧
      (j.Keeps s n → Numeral.integer? s.toList = none → (ofNumeral n).isFinite = true → n.HasDigits 17) :=
  ⟨_, at?_toJson hat, shows_nearest hn, numeralToJson_eq_string_iff hn, keeps_iff hn, keeps_of_hasDigits hn,
    hasDigits_of_keeps hn⟩

/-- A member of a set of numbers inside a list inside a map keeps its number, a decimal fraction. -/
theorem numbers_shown_nested :
    let a : Attribute := .map [("deep", .list [.null true, .numbers ["7", "-0.10"]])]
    let path : List PathStep := [.field "deep", .index 1, .index 1]
    let n : Numeral := ⟨true, 10, -2⟩
    numeralAt? path a = some "-0.10" ∧ Numeral.parse? "-0.10".toList = some n ∧ n.HasDigits 15 ∧ n.FullPrecision ∧
      ∃ j, Json.at? path (toJson a) = some j ∧ j ≠ .string "-0.10" ∧ j.Keeps "-0.10" n := by
  intro a path n
  have hdigits : n.HasDigits 15 := by
    refine ⟨1, -1, by norm_num, ?_⟩
    rw [Numeral.magnitude]
    norm_num [n]
  have hrange : n.FullPrecision := by
    right
    calc (2 : ℚ) ^ (-1022 : ℤ) ≤ (2 : ℚ) ^ (-4 : ℤ) := zpow_le_zpow_right₀ (by norm_num) (by norm_num)
      _ ≤ (10 : ℕ) * (10 : ℚ) ^ (-2 : ℤ) := by norm_num
  obtain ⟨j, hj, -, hstring, -, hkeeps, -⟩ := @numbers_shown a path "-0.10" n rfl rfl
  have hfin : (ofNumeral n).isFinite = true := by decide +kernel
  refine ⟨rfl, rfl, hdigits, hrange, j, hj, fun h => ?_, hkeeps hdigits hrange⟩
  exact absurd (hfin.symm.trans (hstring.1 h)) (by decide)

/-- A whole number of more than 64 bits becomes a double, whose text denotes another number. -/
theorem numbers_shown_rounded :
    let s := "18446744073709551617"
    Numeral.parse? s.toList = some ⟨false, 18446744073709551617, 0⟩ ∧
      toJson (.number s) = .number (.double ⟨false, 1087 * Binary64.binade⟩) ∧
        ¬(toJson (.number s)).Keeps s ⟨false, 18446744073709551617, 0⟩ := by
  intro s
  have hdocument : toJson (.number s) = .number (.double ⟨false, 1087 * Binary64.binade⟩) := by decide +kernel
  have hshortest : Binary64.shortest ⟨false, 1087 * Binary64.binade⟩ = ⟨18446744073709552, 3⟩ := by decide +kernel
  refine ⟨by decide +kernel, hdocument, ?_⟩
  rw [hdocument, Json.keeps_double_iff rfl, Binary64.printed, Binary64.shown, hshortest, Decimal.value, Numeral.value,
    Numeral.magnitude]
  norm_num [Binary64.binade]

end Attribute

end RecordStore
