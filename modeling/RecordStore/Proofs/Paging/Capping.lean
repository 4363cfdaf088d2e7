import RecordStore.Proofs.Paging.Requesting

/-!
# How much a read may look at

What a read of a page may look at is between the bounds that are set, or it is one more than the page holds
(`CapBounds.Covers`), with two exceptions: the number after the greatest page size is zero (`CapBounds.Overflows`), and
so is whatever is asked for between bounds that are zero (`CapBounds.Vanishes`). **`CapBounds.Grants.covers_or`**: in
these, and only in these, nothing is left to look at.

**`Page.limit_usable_iff`**: every read for a page sends this limit, as a number of 32 bits, and a store in memory
accepts it but for the two exceptions.
-/

namespace RecordStore

open Numeral (natBound int32Max saturate32)

namespace CapBounds

variable {limits : CapBounds} {pageSize explicit : Option Nat} {c n : Nat}

/-- The page size is the greatest number of 64 bits, and the limit, which falls short of it, is raised to the next. -/
def Overflows (limits : CapBounds) (pageSize explicit : Option Nat) : Prop :=
  ∃ size ∈ positive? pageSize, limits.bounded (positive? explicit) < size ∧ natBound ≤ size + 1

/-- Both bounds are zero, and no page has a size to which the limit is raised. -/
def Vanishes (limits : CapBounds) (pageSize : Option Nat) : Prop :=
  (∀ n ∈ pageSize, n = 0) ∧ limits.min = 0 ∧ limits.max = 0

/-- A limit is usable: positive, no less than it should be, and no more than it may be raised to. -/
structure Covers (limits : CapBounds) (pageSize : Option Nat) (c : Nat) : Prop where
  pos : 1 ≤ c
  least : limits.min ≤ c
  page : ∀ n ∈ pageSize, n ≤ c
  most : c ≤ limits.min ∨ c ≤ limits.max ∨ ∃ n ∈ pageSize, c ≤ n + 1

theorem positive?_eq_none_iff : positive? pageSize = none ↔ ∀ n ∈ pageSize, n = 0 := by
  rw [positive?, Option.filter_eq_none_iff]
  simp

theorem bounded_eq (limits : CapBounds) (explicit : Option Nat) : limits.bounded explicit =
    Min.min (Max.max (explicit.getD limits.default) limits.min) (Max.max limits.max limits.min) := rfl

theorem min_le_bounded (explicit : Option Nat) : limits.min ≤ limits.bounded explicit := by
  rw [bounded_eq]
  omega

theorem bounded_le (explicit : Option Nat) :
    limits.bounded explicit ≤ limits.min ∨ limits.bounded explicit ≤ limits.max := by
  rw [bounded_eq]
  omega

/-- What is asked for comes to nothing only between bounds that are zero. -/
theorem bounded_eq_zero_iff (hn : 0 < n) : limits.bounded (some n) = 0 ↔ limits.min = 0 ∧ limits.max = 0 := by
  rw [bounded_eq, Option.getD_some]
  omega

theorem successor64_of_lt (h : n + 1 < natBound) : successor64 n = n + 1 := Nat.mod_eq_of_lt h

/-- The number after the greatest is zero. -/
theorem successor64_of_le (hn : n < natBound) (h : natBound ≤ n + 1) : successor64 n = 0 := by
  have heq : n + 1 = natBound := by omega
  rw [successor64, heq, Nat.mod_self]

/-- What is left for a read to look at: what is asked for between the bounds, or else the number after the page size. -/
inductive Grants (limits : CapBounds) (pageSize explicit : Option Nat) : Nat → Prop
  /-- No page has a size. -/
  | unsized {n : Nat} : positive? pageSize = none → n ∈ positive? explicit →
      Grants limits pageSize explicit (limits.bounded (some n))
  | enough {size : Nat} : size ∈ positive? pageSize → size ≤ limits.bounded (positive? explicit) →
      Grants limits pageSize explicit (limits.bounded (positive? explicit))
  | raised {size : Nat} : size ∈ positive? pageSize → limits.bounded (positive? explicit) < size →
      Grants limits pageSize explicit (successor64 size)

theorem cap_cases (h : c ∈ limits.cap pageSize explicit) : limits.Grants pageSize explicit c := by
  cases hsize : positive? pageSize with
  | none =>
    cases hasked : positive? explicit with
    | none =>
      rw [cap, hsize, hasked] at h
      cases h
    | some n =>
      rw [cap, hsize, hasked] at h
      cases h
      exact .unsized hsize hasked
  | some size =>
    rw [cap, hsize] at h
    cases h
    split
    · exact .raised hsize ‹_›
    · exact .enough hsize (Nat.le_of_not_lt ‹_›)

theorem cap_eq_none_iff :
    limits.cap pageSize explicit = none ↔ (∀ n ∈ pageSize, n = 0) ∧ ∀ n ∈ explicit, n = 0 := by
  rw [← positive?_eq_none_iff, ← positive?_eq_none_iff]
  unfold cap
  split <;> simp_all

theorem not_vanishes {size : Nat} (hs : size ∈ positive? pageSize) : ¬ limits.Vanishes pageSize := by
  rintro ⟨hzero, -⟩
  obtain ⟨hmem, hpos⟩ := Page.mem_positive?.1 hs
  exact Nat.ne_of_gt hpos (hzero size hmem)

theorem overflows_iff {size : Nat} (hs : size ∈ positive? pageSize) :
    limits.Overflows pageSize explicit ↔ limits.bounded (positive? explicit) < size ∧ natBound ≤ size + 1 := by
  constructor
  · rintro ⟨n, hn, h⟩
    cases Option.mem_unique hn hs
    exact h
  · exact fun h => ⟨size, hs, h⟩

theorem not_overflows_of_unsized (h : positive? pageSize = none) : ¬ limits.Overflows pageSize explicit := by
  rintro ⟨size, hs, -⟩
  rw [h] at hs
  cases hs

/-- A limit within the bounds is usable if it is positive and no less than the page size. -/
theorem covers_bounded (hpos : 0 < limits.bounded explicit) (hpage : ∀ n ∈ pageSize, n ≤ limits.bounded explicit) :
    limits.Covers pageSize (limits.bounded explicit) :=
  ⟨hpos, min_le_bounded _, hpage, (bounded_le _).imp_right .inl⟩

/-- The number after the page size is usable if it is used because the bounds fall short. -/
theorem covers_next {size : Nat} (hsize : size ∈ pageSize) (hlt : limits.bounded explicit < size) :
    limits.Covers pageSize (size + 1) where
  pos := Nat.succ_pos size
  least := (min_le_bounded explicit).trans (hlt.le.trans (Nat.le_succ size))
  page _ hn := Option.mem_unique hn hsize ▸ Nat.le_succ size
  most := .inr (.inr ⟨size, hsize, le_rfl⟩)

/-- **A limit is usable** but for the two exceptions, and in these it is zero. -/
theorem Grants.covers_or (h : limits.Grants pageSize explicit c) (hfits : ∀ n ∈ pageSize, n < natBound) :
    limits.Covers pageSize c ∧ ¬ (limits.Overflows pageSize explicit ∨ limits.Vanishes pageSize) ∨
      c = 0 ∧ (limits.Overflows pageSize explicit ∨ limits.Vanishes pageSize) := by
  cases h with
  | @unsized n hnone hasked =>
    have hzero := positive?_eq_none_iff.1 hnone
    have hiff := @bounded_eq_zero_iff limits n (Page.mem_positive?.1 hasked).2
    by_cases hbounds : limits.min = 0 ∧ limits.max = 0
    · exact .inr ⟨hiff.2 hbounds, .inr ⟨hzero, hbounds⟩⟩
    · have hpos : 0 < limits.bounded (some n) := Nat.pos_of_ne_zero fun h => hbounds (hiff.1 h)
      refine .inl ⟨covers_bounded hpos fun m hm => ?_, not_or.2 ⟨not_overflows_of_unsized hnone, fun h => hbounds h.2⟩⟩
      rw [hzero m hm]
      exact Nat.zero_le _
  | @enough size hs hle =>
    obtain ⟨hmem, hpos⟩ := Page.mem_positive?.1 hs
    have hcovers := covers_bounded (hpos.trans_le hle) fun m hm => Option.mem_unique hm hmem ▸ hle
    have hoverflows : ¬ limits.Overflows pageSize explicit := fun h =>
      absurd ((overflows_iff hs).1 h).1 (Nat.not_lt.2 hle)
    exact .inl ⟨hcovers, not_or.2 ⟨hoverflows, not_vanishes hs⟩⟩
  | @raised size hs hlt =>
    obtain ⟨hmem, -⟩ := Page.mem_positive?.1 hs
    by_cases hnext : size + 1 < natBound
    · have hoverflows : ¬ limits.Overflows pageSize explicit := fun h =>
        absurd ((overflows_iff hs).1 h).2 (Nat.not_le.2 hnext)
      rw [successor64_of_lt hnext]
      exact .inl ⟨covers_next hmem hlt, not_or.2 ⟨hoverflows, not_vanishes hs⟩⟩
    · have hle := Nat.le_of_not_lt hnext
      exact .inr ⟨successor64_of_le (hfits size hmem) hle, .inl ((overflows_iff hs).2 ⟨hlt, hle⟩)⟩

/-- What counts as none once counts as none again. -/
theorem cap_positive? : limits.cap (positive? pageSize) explicit = limits.cap pageSize explicit := by
  have hagain : positive? (positive? pageSize) = positive? pageSize := by
    rw [positive?, positive?, Option.filter_filter]
    simp only [Bool.and_self]
  unfold cap
  rw [hagain]

end CapBounds

/-! ## What is sent -/

/-- The limit of a request that reads. -/
def Request.limit? : Request → Option Int
  | .query r => r.limit
  | .scan r => r.limit
  | _ => none

namespace Page

open CapBounds (positive?)

/-- All requests on the record have one limit. -/
def Limited {σ : Type} (limit : Option Int) (st : Recorded σ) : Prop := ∀ request ∈ st.requests, request.limit? = limit

theorem limited_nil {σ : Type} {limit : Option Int} (st : σ) : Limited limit (⟨st, []⟩ : Recorded σ) :=
  List.forall_mem_nil _

section Sending

variable {σ : Type} [Store σ] {what : Selection} {descending : Bool} {size cap : Option Nat}

theorem limit?_sent (start : Option Key) : (sent what descending cap start).limit? = cap.map saturate32 := by
  unfold sent
  cases what.kind <;> rfl

theorem Limited.readPart {st : Recorded σ} (h : Limited (cap.map saturate32) st) (start : Option Key) :
    Limited (cap.map saturate32) (Page.readPart what descending cap start st).2 := by
  unfold Limited
  rw [requests_readPart]
  exact List.forall_mem_cons.2 ⟨limit?_sent start, h⟩

/-- **All reads for a page** have one limit, whatever the store answers. -/
theorem Limited.rounds : ∀ {n : Nat} {buffer : List Item} {start : Option Key} {st : Recorded σ},
    Limited (cap.map saturate32) st →
      Limited (cap.map saturate32) (Page.rounds what descending size cap n buffer start st).2
  | 0, _, _, _, h => h
  | n + 1, buffer, start, st, h => by
    have hread := @Limited.readPart _ _ what descending cap st h start
    generalize hpart : Page.readPart what descending cap start st = o at hread
    obtain ⟨_ | ⟨items, last⟩, st'⟩ := o
    · rw [rounds_of_error hpart]
      split <;> exact hread
    · rw [rounds_of_ok hpart]
      split
      · exact hread
      · exact Limited.rounds hread
      · exact hread

theorem limited_read (settings : Settings) (what : Selection) (paging : Paging) (st : σ) :
    Limited ((capOf settings paging).map saturate32) (read settings what paging (⟨st, []⟩ : Recorded σ)).2 := by
  cases hstart : Page.start settings paging.cursor with
  | error e =>
    rw [Page.read, Call.bind_eq]
    simp only [Call.ofExcept, hstart]
    exact limited_nil st
  | ok start =>
    rw [read_eq_rounds hstart]
    exact Limited.rounds (limited_nil st)

end Sending

/-- A limit of 32 bits is left of a positive number. -/
theorem saturate32_range {c : Nat} (h : 1 ≤ c) : 1 ≤ saturate32 c ∧ saturate32 c ≤ int32Max := by
  unfold saturate32 int32Max
  omega

/--
**The limit of a read.** None is sent just if neither the page has a size nor a limit is asked for, zero being none. But
for the two exceptions, one that is sent is positive, no less than the lower bound and the page size, no more than the
greater bound or the number after the page size, and of 32 bits, and a store in memory accepts it. In the exceptions it
is zero, and a store in memory refuses it.
-/
theorem limit_usable_iff (settings : Settings) (what : Selection) (paging : Paging)
    (hsize : ∀ n ∈ paging.pageSize, n < natBound) :
    let limits := CapBounds.ofSettings settings
    let cap := limits.cap paging.pageSize paging.cap
    let excepted := limits.Overflows paging.pageSize paging.cap ∨ limits.Vanishes paging.pageSize
    (cap = none ↔ (∀ n ∈ paging.pageSize, n = 0) ∧ ∀ n ∈ paging.cap, n = 0) ∧
    (¬ excepted →
      (∀ c ∈ cap, limits.Covers paging.pageSize c ∧ 1 ≤ saturate32 c ∧ saturate32 c ≤ int32Max) ∧
        ∃ limit, MemoryStore.checkLimit (cap.map saturate32) = .ok limit) ∧
    (excepted → ∀ c ∈ cap, c = 0 ∧
      MemoryStore.checkLimit (cap.map saturate32) = .error (MemoryStore.invalid "Limit must be greater than 0")) ∧
    ∀ {σ : Type} [Store σ] (st : σ), ∀ request ∈ (read settings what paging (⟨st, []⟩ : Recorded σ)).2.requests,
      request.limit? = cap.map saturate32 := by
  intro limits cap excepted
  have hcases : ∀ c ∈ cap, limits.Covers paging.pageSize c ∧ ¬ excepted ∨ c = 0 ∧ excepted := fun c hc =>
    (CapBounds.cap_cases hc).covers_or hsize
  refine ⟨CapBounds.cap_eq_none_iff, fun hfit => ?_, fun hexcepted c hc => ?_, fun st => ?_⟩
  · have hcovers : ∀ c ∈ cap, limits.Covers paging.pageSize c := fun c hc =>
      (hcases c hc).elim And.left fun h => absurd h.2 hfit
    exact ⟨fun c hc => ⟨hcovers c hc, saturate32_range (hcovers c hc).pos⟩, _,
      MemoryStore.checkLimit_cap fun c hc => (hcovers c hc).pos⟩
  · obtain ⟨-, hfit⟩ | ⟨rfl, -⟩ := hcases c hc
    · exact absurd hexcepted hfit
    · refine ⟨rfl, ?_⟩
      rw [Option.mem_def.1 hc]
      rfl
  · have hcap : capOf settings paging = cap := CapBounds.cap_positive?
    exact hcap ▸ limited_read settings what paging st

/-- Bounds the wrong way round, and the greatest page size but one: the limit is raised to the greatest number. -/
theorem limit_usable_iff_greatest :
    let settings : Settings := { minCap := 700, maxCap := 5 }
    let paging : Paging := { pageSize := some (natBound - 2), cap := some 3 }
    (CapBounds.ofSettings settings).cap paging.pageSize paging.cap = some (natBound - 1) ∧
      (CapBounds.ofSettings settings).Covers paging.pageSize (natBound - 1) ∧
      (∃ limit, MemoryStore.checkLimit (some int32Max) = .ok limit) ∧
      ∀ request ∈ (read settings { table := "t" } paging (⟨({} : MemoryStore), []⟩ : Recorded MemoryStore)).2.requests,
        request.limit? = some int32Max := by
  intro settings paging
  have hcap : (CapBounds.ofSettings settings).cap paging.pageSize paging.cap = some (natBound - 1) := by decide
  have hlimit : (some (natBound - 1)).map saturate32 = some int32Max := by decide
  obtain ⟨-, hfit, -, hsent⟩ := limit_usable_iff settings { table := "t" } paging (by decide)
  rw [hcap, hlimit] at hfit
  have hexcepted : ¬ ((CapBounds.ofSettings settings).Overflows paging.pageSize paging.cap ∨
      (CapBounds.ofSettings settings).Vanishes paging.pageSize) := by
    rintro (h | ⟨h, -⟩)
    · have hsize : natBound - 2 ∈ positive? paging.pageSize := rfl
      have hnext := ((CapBounds.overflows_iff hsize).1 h).2
      exact absurd hnext (by decide)
    · exact absurd (h _ rfl) (by decide)
  obtain ⟨hcovers, haccepted⟩ := hfit hexcepted
  refine ⟨hcap, (hcovers _ rfl).1, haccepted, fun request hrequest => ?_⟩
  rw [hsent _ request hrequest, hcap, hlimit]

/--
Bounds that are set to zero in the environment leave nothing to look at, and a store refuses the read. So does the
number after the greatest page size.
-/
theorem limit_lost :
    let settings := Settings.ofEnvironment
      [("DYNAQUERY_MAX_EVALUATION_LIMIT", "0"), ("DYNAQUERY_MIN_EVALUATION_LIMIT", "0")]
    let shape : TableShape := ⟨"t", ⟨⟨"id", .text⟩, none⟩, []⟩
    let refusal := MemoryStore.invalid "Limit must be greater than 0"
    (CapBounds.ofSettings settings).cap (some 0) (some 15) = some 0 ∧
      (read settings { table := "t", kind := .scan } { cap := some 15 }
        (⟨[("t", .empty shape)], {}⟩ : MemoryStore)).1 = .error (.store refusal) ∧
      (CapBounds.ofSettings {}).cap (some (natBound - 1)) none = some 0 := by
  decide

end Page

end RecordStore
