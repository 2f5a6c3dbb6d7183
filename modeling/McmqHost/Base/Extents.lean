import Mathlib.Algebra.Order.Ring.Int
import Mathlib.Data.Set.Card
import Mathlib.Order.Bounds.Basic
import Mathlib.Order.CompletePartialOrder
import Mathlib.Data.Set.Lattice
import Mathlib.Order.Interval.Set.Basic

/-!
# Lists of free extents

A free store keeps the free addresses as a list of extents, sorted by base, none
empty, no two touching. First fit and release are defined on such lists; both keep
the representation, first fit removes exactly an aligned extent and the padding in
front of it, and release adds exactly the released addresses. First fit is the lowest
fit, because no aligned range of free addresses crosses a gap. The represented set
determines the list, so returning every address restores the list itself. A free extent
ends where an address is taken, so there are hardly more of them than blocks in use.
-/

/-- A half-open run of addresses. -/
structure Extent where
  /-- First address. -/
  base : Nat
  /-- Number of addresses. -/
  len : Nat
deriving DecidableEq, Repr

namespace Extent

/-- First address after the extent. -/
def stop (extent : Extent) : Nat := extent.base + extent.len

/-- The addresses of the extent. -/
def bytes (extent : Extent) : Set Nat := Set.Ico extent.base extent.stop

@[simp] theorem mem_bytes {extent : Extent} {address : Nat} :
    address ∈ extent.bytes ↔ extent.base ≤ address ∧ address < extent.base + extent.len := Iff.rfl

end Extent

namespace Extents

/-- The addresses that some listed extent holds. -/
def cover (extents : List Extent) : Set Nat := {address | ∃ extent ∈ extents, address ∈ extent.bytes}

@[simp] theorem mem_cover {extents : List Extent} {address : Nat} :
    address ∈ cover extents ↔ ∃ extent ∈ extents, address ∈ extent.bytes := Iff.rfl

@[simp] theorem cover_nil : cover [] = ∅ := by
  ext address
  simp

@[simp] theorem cover_cons (extent : Extent) (rest : List Extent) :
    cover (extent :: rest) = extent.bytes ∪ cover rest := by
  ext address
  simp

@[simp] theorem cover_append (front back : List Extent) :
    cover (front ++ back) = cover front ∪ cover back := by
  ext address
  simp [or_and_right, exists_or]

/-- Sorted by base, no extent empty, no two extents overlapping or touching. -/
structure Coalesced (extents : List Extent) : Prop where
  /-- Each extent ends before the next begins, with a gap between them. -/
  apart : extents.Pairwise (fun left right => left.stop < right.base)
  /-- No listed extent is empty. -/
  positive : ∀ extent ∈ extents, 0 < extent.len

theorem coalesced_nil : Coalesced [] := ⟨.nil, by simp⟩

theorem coalesced_singleton {extent : Extent} (positive : 0 < extent.len) : Coalesced [extent] :=
  ⟨List.pairwise_singleton _ _, by simpa using positive⟩

theorem coalesced_cons {extent : Extent} {rest : List Extent} :
    Coalesced (extent :: rest) ↔
      0 < extent.len ∧ (∀ later ∈ rest, extent.stop < later.base) ∧ Coalesced rest := by
  constructor
  · rintro ⟨apart, positive⟩
    rw [List.pairwise_cons] at apart
    exact ⟨positive _ List.mem_cons_self, apart.1, apart.2,
      fun later inside => positive later (List.mem_cons_of_mem extent inside)⟩
  · rintro ⟨nonempty, gap, apart, positive⟩
    refine ⟨List.pairwise_cons.mpr ⟨gap, apart⟩, ?_⟩
    intro later inside
    obtain rfl | inside := List.mem_cons.mp inside
    · exact nonempty
    · exact positive later inside

theorem coalesced_append {front back : List Extent} :
    Coalesced (front ++ back) ↔ Coalesced front ∧ Coalesced back ∧
      ∀ left ∈ front, ∀ right ∈ back, left.stop < right.base := by
  constructor
  · rintro ⟨apart, positive⟩
    obtain ⟨left, right, across⟩ := List.pairwise_append.mp apart
    exact ⟨⟨left, fun extent inside => positive extent (List.mem_append_left back inside)⟩,
      ⟨right, fun extent inside => positive extent (List.mem_append_right front inside)⟩, across⟩
  · rintro ⟨left, right, across⟩
    refine ⟨List.pairwise_append.mpr ⟨left.apart, right.apart, across⟩, ?_⟩
    intro extent inside
    obtain inside | inside := List.mem_append.mp inside
    · exact left.positive extent inside
    · exact right.positive extent inside

/-- The base of a listed extent is one of its addresses. -/
theorem base_mem_cover {extents : List Extent} (coalesced : Coalesced extents) {extent : Extent}
    (inside : extent ∈ extents) : extent.base ∈ cover extents := by
  have positive := coalesced.positive extent inside
  exact ⟨extent, inside, le_refl _, by unfold Extent.stop; omega⟩

/-- An extent that ends before every address of a coalesced list begins it. -/
theorem coalesced_cons_of_cover {extent : Extent} {rest : List Extent} (positive : 0 < extent.len)
    (coalesced : Coalesced rest) (gap : ∀ address ∈ cover rest, extent.stop < address) :
    Coalesced (extent :: rest) :=
  coalesced_cons.mpr
    ⟨positive, fun _ inside => gap _ (base_mem_cover coalesced inside), coalesced⟩

/-- **Canonical form.** Coalesced lists of the same addresses are equal. -/
theorem coalesced_unique {first second : List Extent} (left : Coalesced first)
    (right : Coalesced second) (same : cover first = cover second) : first = second := by
  induction first generalizing second with
  | nil =>
    cases second with
    | nil => rfl
    | cons extent rest =>
      have inside := base_mem_cover right List.mem_cons_self
      rw [← same] at inside
      simp at inside
  | cons extent rest ih =>
    cases second with
    | nil =>
      have inside := base_mem_cover left List.mem_cons_self
      rw [same] at inside
      simp at inside
    | cons other more =>
      obtain ⟨positive, gap, tail⟩ := coalesced_cons.mp left
      obtain ⟨otherPositive, otherGap, otherTail⟩ := coalesced_cons.mp right
      have member : ∀ address, (address ∈ extent.bytes ∨ address ∈ cover rest) ↔
          (address ∈ other.bytes ∨ address ∈ cover more) := by
        intro address
        have := Set.ext_iff.mp same address
        simpa only [cover_cons, Set.mem_union] using this
      have above : ∀ address ∈ cover rest, extent.stop < address := by
        rintro address ⟨later, inside, lower, -⟩
        exact Nat.lt_of_lt_of_le (gap later inside) lower
      have otherAbove : ∀ address ∈ cover more, other.stop < address := by
        rintro address ⟨later, inside, lower, -⟩
        exact Nat.lt_of_lt_of_le (otherGap later inside) lower
      simp only [Extent.stop] at above otherAbove
      -- The least address is the common base; the least gap above it is the common end.
      have bases : extent.base = other.base := by
        have low := (member extent.base).mp (Or.inl (by simp [positive]))
        have high := (member other.base).mpr (Or.inl (by simp [otherPositive]))
        rcases low with low | low <;> rcases high with high | high
        · simp only [Extent.mem_bytes] at low high; omega
        · have := above _ high; simp only [Extent.mem_bytes] at low; omega
        · have := otherAbove _ low; simp only [Extent.mem_bytes] at high; omega
        · have := above _ high; have := otherAbove _ low; omega
      have stops : extent.base + extent.len = other.base + other.len := by
        by_contra differ
        obtain short | short := Nat.lt_or_gt_of_ne differ
        · have := (member (extent.base + extent.len)).mpr (Or.inl (by simp; omega))
          rcases this with this | this
          · simp only [Extent.mem_bytes] at this; omega
          · have := above _ this; omega
        · have := (member (other.base + other.len)).mp (Or.inl (by simp; omega))
          rcases this with this | this
          · simp only [Extent.mem_bytes] at this; omega
          · have := otherAbove _ this; omega
      have equal : extent = other := by
        cases extent; cases other
        simp only [Extent.mk.injEq] at bases stops ⊢
        omega
      subst equal
      rw [ih tail otherTail]
      ext address
      have := member address
      constructor
      · intro inside
        have far := above _ inside
        rcases this.mp (Or.inr inside) with near | near
        · simp only [Extent.mem_bytes] at near; omega
        · exact near
      · intro inside
        have far := otherAbove _ inside
        rcases this.mpr (Or.inr inside) with near | near
        · simp only [Extent.mem_bytes] at near; omega
        · exact near

/-- No two listed extents share an address. -/
def Exclusive (extents : List Extent) : Prop :=
  extents.Pairwise (fun left right => Disjoint left.bytes right.bytes)

theorem exclusive_cons {extent : Extent} {rest : List Extent} :
    Exclusive (extent :: rest) ↔ Disjoint extent.bytes (cover rest) ∧ Exclusive rest := by
  rw [Exclusive, List.pairwise_cons]
  refine and_congr_left' ?_
  simp only [Set.disjoint_left, mem_cover, not_exists, not_and]
  exact ⟨fun apart byte here later inside => apart later inside here,
    fun apart later inside byte here => apart here later inside⟩

theorem cover_perm {first second : List Extent} (perm : first.Perm second) :
    cover first = cover second := by
  ext address
  simp [perm.mem_iff]

/-- Extents cover nothing exactly when each is empty. -/
theorem cover_eq_empty {extents : List Extent} :
    cover extents = ∅ ↔ ∀ extent ∈ extents, extent.bytes = ∅ := by
  induction extents with
  | nil => simp
  | cons extent rest ih => simp [ih]

/-- Removing one extent removes its addresses and no other. -/
theorem cover_erase {extents : List Extent} {extent : Extent} (exclusive : Exclusive extents)
    (inside : extent ∈ extents) :
    cover (extents.erase extent) = cover extents \ extent.bytes ∧
      Exclusive (extents.erase extent) := by
  have perm := List.perm_cons_erase inside
  have ⟨apart, rest⟩ := exclusive_cons.mp
    ((perm.pairwise_iff fun apart => Disjoint.symm apart).mp exclusive)
  refine ⟨?_, rest⟩
  rw [cover_perm perm, cover_cons, Set.union_sdiff_left, sdiff_eq_left.mpr apart.symm]

/-! ## First fit -/

/-- Addresses skipped so that the next address is a multiple of `align`. -/
def padding (base align : Nat) : Nat :=
  if base % align ≠ 0 then align - base % align else 0

/-- The extent holds `len` addresses from its first multiple of `align`. -/
def Fits (len align : Nat) (extent : Extent) : Prop := len + padding extent.base align ≤ extent.len

instance (len align : Nat) (extent : Extent) : Decidable (Fits len align extent) :=
  inferInstanceAs (Decidable (_ ≤ _))

/-- What is left of an extent after its first `count` addresses are taken. -/
def trim (extent : Extent) (count : Nat) : List Extent :=
  if extent.len = count then [] else [⟨extent.base + count, extent.len - count⟩]

/-- Take `len` aligned addresses from the first extent that fits, with their padding. -/
def firstFit (len align : Nat) : List Extent → Option (Nat × List Extent)
  | [] => none
  | extent :: rest =>
    if Fits len align extent then
      some (extent.base + padding extent.base align,
        trim extent (len + padding extent.base align) ++ rest)
    else (firstFit len align rest).map fun found => (found.1, extent :: found.2)

/-- Padding reaches a multiple of the alignment. -/
theorem padding_aligned (base : Nat) {align : Nat} (positive : 0 < align) :
    (base + padding base align) % align = 0 := by
  unfold padding
  split
  · have below := Nat.mod_lt base positive
    have split := Nat.mod_add_div base align
    rw [show base + (align - base % align) = align * (base / align + 1) by
      rw [Nat.mul_add, Nat.mul_one]; omega]
    exact Nat.mul_mod_right _ _
  · rename_i aligned
    simpa using aligned

/-- An aligned base needs no padding. -/
theorem padding_of_aligned {base align : Nat} (aligned : base % align = 0) :
    padding base align = 0 := by
  simp [padding, aligned]

theorem padding_lt (base : Nat) {align : Nat} (positive : 0 < align) :
    padding base align < align := by
  unfold padding
  split <;> omega

/-- First fit refuses exactly when no extent fits. -/
theorem firstFit_none {len align : Nat} {extents : List Extent} :
    firstFit len align extents = none ↔ ∀ extent ∈ extents, ¬ Fits len align extent := by
  induction extents with
  | nil => simp [firstFit]
  | cons extent rest ih =>
    by_cases fits : Fits len align extent
    · simp [firstFit, fits]
    · simp [firstFit, fits, ih]

/-- First fit splits the list at the first extent that fits. -/
theorem firstFit_some {len align address : Nat} {extents left : List Extent}
    (found : firstFit len align extents = some (address, left)) :
    ∃ front extent back, extents = front ++ extent :: back ∧ Fits len align extent ∧
      (∀ earlier ∈ front, ¬ Fits len align earlier) ∧
      address = extent.base + padding extent.base align ∧
      left = front ++ trim extent (len + padding extent.base align) ++ back := by
  induction extents generalizing address left with
  | nil => simp [firstFit] at found
  | cons extent rest ih =>
    by_cases fits : Fits len align extent
    · simp only [firstFit, fits, ↓reduceIte, Option.some.injEq, Prod.mk.injEq] at found
      exact ⟨[], extent, rest, rfl, fits, by simp, found.1.symm, by simp [found.2]⟩
    · simp only [firstFit, fits, ↓reduceIte, Option.map_eq_some_iff, Prod.exists,
        Prod.mk.injEq] at found
      obtain ⟨inner, after, deeper, rfl, rfl⟩ := found
      obtain ⟨front, hit, back, rfl, hitFits, missed, placed, rest⟩ := ih deeper
      refine ⟨extent :: front, hit, back, rfl, hitFits, ?_, placed, by simp [rest]⟩
      intro earlier inside
      obtain rfl | inside := List.mem_cons.mp inside
      · exact fits
      · exact missed earlier inside

/-- Trimming removes exactly the first addresses. -/
theorem cover_trim {extent : Extent} {count : Nat} (fits : count ≤ extent.len) :
    cover (trim extent count) = Set.Ico (extent.base + count) extent.stop := by
  unfold trim
  split
  · rename_i all
    rw [cover_nil, Extent.stop, all, Set.Ico_self]
  · ext address
    simp only [cover_cons, cover_nil, Set.union_empty, Extent.mem_bytes, Set.mem_Ico, Extent.stop]
    omega

theorem coalesced_trim {extent : Extent} {count : Nat} (fits : count ≤ extent.len) :
    Coalesced (trim extent count) := by
  unfold trim
  split
  · exact coalesced_nil
  · exact coalesced_singleton (by simp only; omega)

section Taken

variable {len align address : Nat} {extents left : List Extent}

/-- First fit keeps the representation. -/
theorem firstFit_coalesced (coalesced : Coalesced extents)
    (found : firstFit len align extents = some (address, left)) : Coalesced left := by
  obtain ⟨front, extent, back, rfl, fits, -, -, rfl⟩ := firstFit_some found
  obtain ⟨before, here, across⟩ := coalesced_append.mp coalesced
  obtain ⟨positive, gap, after⟩ := coalesced_cons.mp here
  have inner : ∀ piece ∈ trim extent (len + padding extent.base align),
      extent.base ≤ piece.base ∧ piece.stop = extent.stop := by
    intro piece inside
    unfold Fits at fits
    unfold trim at inside
    split at inside
    · simp at inside
    · obtain rfl := List.mem_singleton.mp inside
      simp only [Extent.stop]
      omega
  refine coalesced_append.mpr ⟨coalesced_append.mpr ⟨before, coalesced_trim fits, ?_⟩, after, ?_⟩
  · intro earlier inFront piece inTrim
    exact Nat.lt_of_lt_of_le (across earlier inFront extent List.mem_cons_self)
      (inner piece inTrim).1
  · intro earlier inside later inBack
    obtain inFront | inTrim := List.mem_append.mp inside
    · exact across earlier inFront later (List.mem_cons_of_mem extent inBack)
    · rw [(inner earlier inTrim).2]
      exact gap later inBack

/-- First fit removes the first extent that fits up to the end of the block, and nothing else. -/
theorem firstFit_taken (coalesced : Coalesced extents)
    (found : firstFit len align extents = some (address, left)) :
    ∃ extent, extents.find? (fun extent => Fits len align extent) = some extent ∧
      address = extent.base + padding extent.base align ∧
      Set.Ico extent.base (address + len) ⊆ cover extents ∧
      cover left = cover extents \ Set.Ico extent.base (address + len) := by
  obtain ⟨front, extent, back, rfl, fits, missed, rfl, rfl⟩ := firstFit_some found
  obtain ⟨-, here, across⟩ := coalesced_append.mp coalesced
  obtain ⟨positive, gap, -⟩ := coalesced_cons.mp here
  have first : (front ++ extent :: back).find? (fun extent => Fits len align extent) =
      some extent := by
    rw [List.find?_append, List.find?_eq_none.mpr (by simpa using missed), Option.none_or]
    exact List.find?_cons_of_pos (by simpa using fits)
  unfold Fits at fits
  refine ⟨extent, first, rfl, ?_, ?_⟩
  · intro byte inside
    simp only [Set.mem_Ico] at inside
    exact ⟨extent, by simp, by simp only [Extent.mem_bytes]; omega⟩
  · have below : ∀ byte ∈ cover front, byte < extent.base := by
      rintro byte ⟨earlier, inside, -, upper⟩
      exact Nat.lt_trans upper (across earlier inside extent List.mem_cons_self)
    have above : ∀ byte ∈ cover back, extent.base + extent.len ≤ byte := by
      rintro byte ⟨later, inside, lower, -⟩
      exact Nat.le_trans (Nat.le_of_lt (gap later inside)) lower
    ext byte
    have low := below byte
    have high := above byte
    simp only [cover_append, cover_cons, cover_trim fits, Set.mem_union, Set.mem_Ico, Set.mem_sdiff,
      Extent.mem_bytes, Extent.stop]
    constructor
    · rintro ((inFront | trimmed) | inBack)
      · exact ⟨Or.inl inFront, by have := low inFront; omega⟩
      · exact ⟨Or.inr (Or.inl (by omega)), by omega⟩
      · exact ⟨Or.inr (Or.inr inBack), by have := high inBack; omega⟩
    · rintro ⟨inFront | here | inBack, outside⟩
      · exact Or.inl (Or.inl inFront)
      · exact Or.inl (Or.inr (by omega))
      · exact Or.inr inBack

/-- First fit removes the taken extent and the padding in front of it, and nothing else. -/
theorem firstFit_cover (coalesced : Coalesced extents)
    (found : firstFit len align extents = some (address, left)) :
    ∃ extent ∈ extents, address = extent.base + padding extent.base align ∧
      Set.Ico extent.base (address + len) ⊆ cover extents ∧
      cover left = cover extents \ Set.Ico extent.base (address + len) := by
  obtain ⟨extent, first, taken⟩ := firstFit_taken coalesced found
  exact ⟨extent, List.mem_of_find?_eq_some first, taken⟩

/-- The address that first fit returns is a multiple of the alignment. -/
theorem firstFit_aligned (positive : 0 < align)
    (found : firstFit len align extents = some (address, left)) : address % align = 0 := by
  obtain ⟨-, extent, -, -, -, -, rfl, -⟩ := firstFit_some found
  exact padding_aligned extent.base positive

end Taken

/-! ## Lowest fit -/

/-- Aligned addresses from which `len` addresses are free. -/
def placements (len align : Nat) (free : Set Nat) : Set Nat :=
  {address | address % align = 0 ∧ Set.Ico address (address + len) ⊆ free}

variable {len align address : Nat} {extents left : List Extent}

/-- Padding is the distance to the first aligned address. -/
theorem padding_least {base : Nat} (positive : 0 < align) (above : base ≤ address)
    (aligned : address % align = 0) : base + padding base align ≤ address := by
  have reached := padding_aligned base positive
  have below := padding_lt base positive
  by_contra beyond
  have dividesEnd := Nat.dvd_of_mod_eq_zero reached
  have divides := Nat.dvd_of_mod_eq_zero aligned
  have gap := Nat.dvd_sub dividesEnd divides
  have far := Nat.le_of_dvd (by omega) gap
  omega

/-- An extent fits exactly when it holds a placement. -/
theorem fits_iff {extent : Extent} (positive : 0 < align) :
    Fits len align extent ↔
      ∃ address, extent.base ≤ address ∧ address % align = 0 ∧ address + len ≤ extent.stop := by
  unfold Fits
  constructor
  · intro fits
    refine ⟨extent.base + padding extent.base align, Nat.le_add_right _ _,
      padding_aligned _ positive, ?_⟩
    simp only [Extent.stop]
    omega
  · rintro ⟨address, above, aligned, within⟩
    have least := padding_least positive above aligned
    simp only [Extent.stop] at within
    omega

/-- A range of free addresses lies in one extent. -/
theorem Coalesced.interval (coalesced : Coalesced extents) (nonempty : 0 < len)
    (inside : Set.Ico address (address + len) ⊆ cover extents) :
    ∃ extent ∈ extents, extent.base ≤ address ∧ address + len ≤ extent.stop := by
  induction extents with
  | nil =>
    have first := inside (show address ∈ Set.Ico address (address + len) from ⟨le_refl _, by omega⟩)
    simp at first
  | cons extent rest ih =>
    obtain ⟨positive, gap, after⟩ := coalesced_cons.mp coalesced
    have later : ∀ byte ∈ cover rest, extent.stop < byte := by
      rintro byte ⟨other, listed, lower, -⟩
      exact Nat.lt_of_lt_of_le (gap other listed) lower
    have first := inside (show address ∈ Set.Ico address (address + len) from ⟨le_refl _, by omega⟩)
    rw [cover_cons] at first
    obtain ⟨lower, upper⟩ | behind := first
    · refine ⟨extent, List.mem_cons_self, lower, ?_⟩
      -- were the range longer, it would hold the end of the extent, which is not free
      by_contra beyond
      have last := inside (show extent.stop ∈ Set.Ico address (address + len) from
        ⟨by omega, by omega⟩)
      rw [cover_cons] at last
      obtain ⟨-, upper⟩ | behind := last
      · exact Nat.lt_irrefl _ upper
      · exact Nat.lt_irrefl _ (later _ behind)
    · have start := later _ behind
      have inRest : Set.Ico address (address + len) ⊆ cover rest := by
        intro byte within
        have free := inside within
        rw [cover_cons] at free
        obtain ⟨-, upper⟩ | free := free
        · have above := within.1
          omega
        · exact free
      obtain ⟨other, listed, held⟩ := ih after inRest
      exact ⟨other, List.mem_cons_of_mem _ listed, held⟩

/-- First fit finds the lowest placement. -/
theorem firstFit_least (coalesced : Coalesced extents) (nonempty : 0 < len) (positive : 0 < align)
    (found : firstFit len align extents = some (address, left)) :
    IsLeast (placements len align (cover extents)) address := by
  obtain ⟨extent, -, placed, taken, -⟩ := firstFit_cover coalesced found
  refine ⟨⟨firstFit_aligned positive found, ?_⟩, ?_⟩
  · exact (Set.Ico_subset_Ico_left (by omega)).trans taken
  · rintro other ⟨aligned, free⟩
    obtain ⟨hit, listed, above, within⟩ := coalesced.interval nonempty free
    obtain ⟨front, first, back, rfl, held, missed, rfl, -⟩ := firstFit_some found
    have fits : Fits len align hit := (fits_iff positive).mpr ⟨other, above, aligned, within⟩
    have notFront : hit ∉ front := fun early => missed hit early fits
    obtain early | listed := List.mem_append.mp listed
    · exact absurd early notFront
    · obtain rfl | later := List.mem_cons.mp listed
      · exact padding_least positive above aligned
      · have gap := (coalesced_cons.mp (coalesced_append.mp coalesced).2.1).2.1 hit later
        simp only [Fits, Extent.stop] at held gap
        omega

/-- First fit refuses only when there is no placement. -/
theorem firstFit_refuses (coalesced : Coalesced extents) (nonempty : 0 < len) (positive : 0 < align)
    (refused : firstFit len align extents = none) : placements len align (cover extents) = ∅ := by
  apply Set.eq_empty_of_forall_notMem
  rintro other ⟨aligned, free⟩
  obtain ⟨hit, listed, above, within⟩ := coalesced.interval nonempty free
  exact firstFit_none.mp refused hit listed ((fits_iff positive).mpr ⟨other, above, aligned, within⟩)

/-! ## Release -/

/-- Merge the first extent with its successor when they touch. -/
def join : List Extent → List Extent
  | first :: second :: rest =>
    if first.stop = second.base then ⟨first.base, first.len + second.len⟩ :: rest
    else first :: second :: rest
  | short => short

/-- Merge at the first two junctions of the list, in order. -/
def settle : List Extent → List Extent
  | first :: second :: rest =>
    if first.stop = second.base then join (⟨first.base, first.len + second.len⟩ :: rest)
    else first :: join (second :: rest)
  | short => short

/-- Insert behind `previous`, whose base is below the released one, and merge around it. -/
def releaseAfter (released previous : Extent) : List Extent → List Extent
  | [] => settle [previous, released]
  | later :: rest =>
    if later.base < released.base then previous :: releaseAfter released later rest
    else settle (previous :: released :: later :: rest)

/-- Insert an extent by base and merge it with the neighbours it touches. -/
def release (released : Extent) : List Extent → List Extent
  | [] => settle [released]
  | first :: rest =>
    if released.base ≤ first.base then settle (released :: first :: rest)
    else releaseAfter released first rest

/-- Two touching extents hold the addresses of the merged one. -/
theorem bytes_merged {first second : Extent} (touch : first.stop = second.base) :
    Extent.bytes ⟨first.base, first.len + second.len⟩ = first.bytes ∪ second.bytes := by
  ext address
  simp only [Extent.stop] at touch
  simp only [Extent.mem_bytes, Set.mem_union]
  omega

@[simp] theorem cover_join (extents : List Extent) : cover (join extents) = cover extents := by
  unfold join
  split
  · split
    · rename_i touch
      simp only [cover_cons, bytes_merged touch, Set.union_assoc]
    · rfl
  · rfl

@[simp] theorem cover_settle (extents : List Extent) : cover (settle extents) = cover extents := by
  unfold settle
  split
  · split
    · rename_i touch
      simp only [cover_join, cover_cons, bytes_merged touch, Set.union_assoc]
    · simp only [cover_cons, cover_join]
  · rfl

theorem cover_releaseAfter (released previous : Extent) (rest : List Extent) :
    cover (releaseAfter released previous rest) =
      released.bytes ∪ (previous.bytes ∪ cover rest) := by
  induction rest generalizing previous with
  | nil => simp [releaseAfter, Set.union_comm]
  | cons later rest ih =>
    unfold releaseAfter
    split
    · rw [cover_cons, ih, cover_cons, Set.union_left_comm]
    · simp only [cover_settle, cover_cons, Set.union_left_comm]

/-- Release adds exactly the released addresses. -/
theorem cover_release (released : Extent) (extents : List Extent) :
    cover (release released extents) = released.bytes ∪ cover extents := by
  unfold release
  split
  · simp
  · split
    · simp
    · rw [cover_releaseAfter, cover_cons]

theorem coalesced_join {first : Extent} {rest : List Extent} (positive : 0 < first.len)
    (coalesced : Coalesced rest) (ordered : ∀ later ∈ rest, first.stop ≤ later.base) :
    Coalesced (join (first :: rest)) := by
  cases rest with
  | nil => exact coalesced_singleton positive
  | cons second rest =>
    obtain ⟨secondPositive, gap, tail⟩ := coalesced_cons.mp coalesced
    have close := ordered second List.mem_cons_self
    simp only [join]
    split
    · rename_i touch
      refine coalesced_cons.mpr ⟨by simp only; omega, ?_, tail⟩
      intro later inside
      have far := gap later inside
      simp only [Extent.stop] at touch far ⊢
      omega
    · refine coalesced_cons.mpr ⟨positive, ?_, coalesced⟩
      intro later inside
      obtain rfl | inside := List.mem_cons.mp inside
      · omega
      · have far := gap later inside
        simp only [Extent.stop] at far close ⊢
        omega

/-- Settling restores the representation when only the first two junctions may touch. -/
theorem coalesced_settle {first second : Extent} {rest : List Extent} (positive : 0 < first.len)
    (secondPositive : 0 < second.len) (coalesced : Coalesced rest)
    (ordered : first.stop ≤ second.base) (later : ∀ extent ∈ rest, second.stop ≤ extent.base) :
    Coalesced (settle (first :: second :: rest)) := by
  simp only [settle]
  split
  · rename_i touch
    refine coalesced_join (by simp only; omega) coalesced ?_
    intro extent inside
    have far := later extent inside
    simp only [Extent.stop] at touch far ⊢
    omega
  · rename_i apart
    refine coalesced_cons_of_cover positive (coalesced_join secondPositive coalesced later) ?_
    rw [cover_join, cover_cons]
    rintro address (near | ⟨extent, inside, lower, -⟩)
    · simp only [Extent.mem_bytes] at near
      simp only [Extent.stop] at apart ordered ⊢
      omega
    · have far := later extent inside
      simp only [Extent.stop] at apart ordered far ⊢
      omega

/-- An extent disjoint from another that begins above it ends before it. -/
theorem stop_le_of_disjoint {left right : Extent} (positive : 0 < right.len)
    (ordered : left.base ≤ right.base) (disjoint : Disjoint left.bytes right.bytes) :
    left.stop ≤ right.base := by
  by_contra overlap
  have inside : right.base ∈ left.bytes := ⟨ordered, by omega⟩
  exact Set.disjoint_left.mp disjoint inside (by simp [positive])

theorem coalesced_releaseAfter {released previous : Extent} {rest : List Extent}
    (positive : 0 < released.len) (ordered : previous.base < released.base)
    (coalesced : Coalesced (previous :: rest))
    (disjoint : ∀ extent ∈ previous :: rest, Disjoint released.bytes extent.bytes) :
    Coalesced (releaseAfter released previous rest) := by
  induction rest generalizing previous with
  | nil =>
    obtain ⟨previousPositive, -, -⟩ := coalesced_cons.mp coalesced
    refine coalesced_settle previousPositive positive coalesced_nil ?_ (by simp)
    exact stop_le_of_disjoint positive ordered.le
      (disjoint previous List.mem_cons_self).symm
  | cons later rest ih =>
    obtain ⟨previousPositive, gap, tail⟩ := coalesced_cons.mp coalesced
    unfold releaseAfter
    split
    · rename_i beyond
      refine coalesced_cons_of_cover previousPositive
        (ih beyond tail (fun extent inside => disjoint extent (List.mem_cons_of_mem _ inside))) ?_
      have first := gap later List.mem_cons_self
      rw [cover_releaseAfter]
      rintro address (inReleased | inLater | ⟨extent, inside, lower, -⟩)
      · simp only [Extent.mem_bytes] at inReleased
        omega
      · simp only [Extent.mem_bytes] at inLater
        omega
      · have far := gap extent (List.mem_cons_of_mem later inside)
        omega
    · rename_i below
      refine coalesced_settle previousPositive positive tail ?_ ?_
      · exact stop_le_of_disjoint positive ordered.le (disjoint previous List.mem_cons_self).symm
      · intro extent inside
        have extentPositive := tail.positive extent inside
        have above : later.base ≤ extent.base := by
          obtain rfl | deeper := List.mem_cons.mp inside
          · exact le_refl _
          · have := (coalesced_cons.mp tail).2.1 extent deeper
            simp only [Extent.stop] at this
            omega
        exact stop_le_of_disjoint extentPositive (by omega)
          (disjoint extent (List.mem_cons_of_mem previous inside))

/-- Release of a nonempty disjoint extent keeps the representation. -/
theorem coalesced_release {released : Extent} {extents : List Extent} (positive : 0 < released.len)
    (coalesced : Coalesced extents) (disjoint : Disjoint released.bytes (cover extents)) :
    Coalesced (release released extents) := by
  have apart : ∀ extent ∈ extents, Disjoint released.bytes extent.bytes := by
    intro extent inside
    exact disjoint.mono_right
      (fun byte member => mem_cover.mpr ⟨extent, inside, member⟩ : extent.bytes ≤ cover extents)
  cases extents with
  | nil => exact coalesced_singleton positive
  | cons first rest =>
    obtain ⟨firstPositive, gap, tail⟩ := coalesced_cons.mp coalesced
    simp only [release]
    split
    · rename_i below
      refine coalesced_settle positive firstPositive tail ?_
        (fun later inside => (gap later inside).le)
      exact stop_le_of_disjoint firstPositive below (apart first List.mem_cons_self)
    · exact coalesced_releaseAfter positive (by omega) coalesced apart

/-- Released in front of every extent, an extent is settled there. -/
theorem release_front {released : Extent} {extents : List Extent}
    (first : ∀ extent ∈ extents.head?, released.base ≤ extent.base) :
    release released extents = settle (released :: extents) := by
  cases extents with
  | nil => rfl
  | cons extent rest => simp [release, first extent (by simp)]

theorem releaseAfter_split {released previous last : Extent} {front below above : List Extent}
    (split : previous :: below = front ++ [last])
    (under : ∀ extent ∈ below, extent.base < released.base)
    (behind : ∀ extent ∈ above.head?, released.base ≤ extent.base) :
    releaseAfter released previous (below ++ above) =
      front ++ settle (last :: released :: above) := by
  induction below generalizing previous front with
  | nil =>
    obtain rfl : front = [] := by simpa using congrArg List.length split
    obtain rfl : previous = last := by simpa using split
    cases above with
    | nil => rfl
    | cons later above =>
      have stay : ¬ later.base < released.base := Nat.not_lt.mpr (behind later (by simp))
      simp [releaseAfter, stay]
  | cons later below ih =>
    cases front with
    | nil => simp at split
    | cons first front =>
      simp only [List.cons_append, List.cons.injEq] at split
      obtain ⟨rfl, rest⟩ := split
      have go := ih rest (fun extent inside => under extent (List.mem_cons_of_mem later inside))
      simp only [List.cons_append, releaseAfter, under later List.mem_cons_self, ↓reduceIte, go]

/-- Released behind the last extent with a lower base, an extent is settled there. -/
theorem release_behind {released last : Extent} {front above : List Extent}
    (under : ∀ extent ∈ front ++ [last], extent.base < released.base)
    (behind : ∀ extent ∈ above.head?, released.base ≤ extent.base) :
    release released (front ++ last :: above) = front ++ settle (last :: released :: above) := by
  obtain ⟨first, below, split⟩ : ∃ first below, front ++ [last] = first :: below := by
    cases front with
    | nil => exact ⟨last, [], rfl⟩
    | cons first front => exact ⟨first, front ++ [last], rfl⟩
  rw [show front ++ last :: above = first :: (below ++ above) by
    rw [← List.cons_append, ← split]; simp]
  have beyond : ¬ released.base ≤ first.base :=
    Nat.not_le.mpr (under first (by rw [split]; simp))
  simp only [release, beyond, ↓reduceIte]
  exact releaseAfter_split split.symm
    (fun extent inside => under extent (by rw [split]; exact List.mem_cons_of_mem _ inside)) behind

/-- A disjoint extent put in at its base keeps the list sorted. -/
theorem sorted_insert {released : Extent} {below above : List Extent} (positive : 0 < released.len)
    (coalesced : Coalesced (below ++ above))
    (disjoint : Disjoint released.bytes (cover (below ++ above)))
    (under : ∀ extent ∈ below, extent.base < released.base)
    (behind : ∀ extent ∈ above.head?, released.base ≤ extent.base) :
    (below ++ released :: above).Pairwise (fun left right => left.stop ≤ right.base) := by
  have apart : ∀ extent ∈ below ++ above, Disjoint released.bytes extent.bytes := by
    intro extent inside
    exact disjoint.mono_right
      (fun byte member => mem_cover.mpr ⟨extent, inside, member⟩ :
        extent.bytes ≤ cover (below ++ above))
  obtain ⟨left, right, across⟩ := coalesced_append.mp coalesced
  have lower : ∀ extent ∈ below, extent.stop ≤ released.base := by
    intro extent inside
    exact stop_le_of_disjoint positive (under extent inside).le
      (apart extent (List.mem_append_left above inside)).symm
  have upper : ∀ extent ∈ above, released.stop ≤ extent.base := by
    intro extent inside
    refine stop_le_of_disjoint (right.positive extent inside) ?_
      (apart extent (List.mem_append_right below inside))
    cases above with
    | nil => simp at inside
    | cons first above =>
      have start := behind first (by simp)
      obtain rfl | deeper := List.mem_cons.mp inside
      · exact start
      · have := (coalesced_cons.mp right).2.1 extent deeper
        simp only [Extent.stop] at this
        omega
  refine List.pairwise_append.mpr ⟨left.apart.imp (fun gap => gap.le),
    List.pairwise_cons.mpr ⟨upper, right.apart.imp (fun gap => gap.le)⟩, ?_⟩
  intro earlier inBelow later inside
  obtain rfl | inAbove := List.mem_cons.mp inside
  · exact lower earlier inBelow
  · exact (across earlier inBelow later inAbove).le

/-! ## Total length -/

/-- Number of addresses in all extents. -/
def total (extents : List Extent) : Nat := (extents.map (·.len)).sum

@[simp] theorem total_nil : total [] = 0 := rfl

@[simp] theorem total_cons (extent : Extent) (rest : List Extent) :
    total (extent :: rest) = extent.len + total rest := by
  simp [total]

@[simp] theorem total_append (front back : List Extent) :
    total (front ++ back) = total front + total back := by
  simp [total]

/-- Removing a listed extent takes its length away. -/
theorem total_erase {extents : List Extent} {extent : Extent} (listed : extent ∈ extents) :
    extent.len + total (extents.erase extent) = total extents := by
  have same := ((List.perm_cons_erase listed).map (·.len)).sum_nat
  rw [List.map_cons, List.sum_cons] at same
  exact same.symm

theorem total_trim {extent : Extent} {count : Nat} (fits : count ≤ extent.len) :
    total (trim extent count) + count = extent.len := by
  unfold trim
  split
  · rename_i all
    rw [total_nil, all, Nat.zero_add]
  · rw [total_cons, total_nil]
    simp only
    omega

/-- First fit takes the request and the padding in front of it from the first extent that fits. -/
theorem firstFit_total {len align address : Nat} {extents left : List Extent}
    (found : firstFit len align extents = some (address, left)) :
    ∃ extent, extents.find? (fun extent => Fits len align extent) = some extent ∧
      address = extent.base + padding extent.base align ∧
      total left + (len + padding extent.base align) = total extents := by
  obtain ⟨front, extent, back, rfl, fits, missed, placed, rfl⟩ := firstFit_some found
  refine ⟨extent, ?_, placed, ?_⟩
  · rw [List.find?_append, List.find?_eq_none.mpr (by simpa using missed), Option.none_or]
    exact List.find?_cons_of_pos (by simpa using fits)
  · have trimmed := total_trim fits
    simp only [total_append, total_cons]
    omega

@[simp] theorem total_join (extents : List Extent) : total (join extents) = total extents := by
  unfold join
  split
  · split
    · simp [Nat.add_assoc]
    · rfl
  · rfl

@[simp] theorem total_settle (extents : List Extent) : total (settle extents) = total extents := by
  unfold settle
  split
  · split
    · simp [Nat.add_assoc]
    · simp
  · rfl

theorem total_releaseAfter (released previous : Extent) (rest : List Extent) :
    total (releaseAfter released previous rest) = released.len + total (previous :: rest) := by
  induction rest generalizing previous with
  | nil =>
    rw [releaseAfter, total_settle]
    simp [Nat.add_comm]
  | cons later rest ih =>
    rw [releaseAfter]
    split
    · rw [total_cons, ih, total_cons previous]
      omega
    · simp only [total_settle, total_cons]
      omega

/-- Release adds the length of the released extent, however it is merged. -/
theorem total_release (released : Extent) (extents : List Extent) :
    total (release released extents) = released.len + total extents := by
  cases extents with
  | nil => simp [release]
  | cons first rest =>
    rw [release]
    split
    · simp
    · exact total_releaseAfter released first rest

/-! ## Aligned bases -/

/-- Every extent begins at a multiple of `unit`. -/
def Aligned (unit : Nat) (extents : List Extent) : Prop := ∀ extent ∈ extents, extent.base % unit = 0

section Aligned

variable {unit : Nat} {extents : List Extent}

theorem aligned_cons {extent : Extent} {rest : List Extent} :
    Aligned unit (extent :: rest) ↔ extent.base % unit = 0 ∧ Aligned unit rest :=
  List.forall_mem_cons

theorem Aligned.join (aligned : Aligned unit extents) : Aligned unit (join extents) := by
  unfold Extents.join
  split
  · obtain ⟨first, rest⟩ := aligned_cons.mp aligned
    split
    · exact aligned_cons.mpr ⟨first, (aligned_cons.mp rest).2⟩
    · exact aligned
  · exact aligned

theorem Aligned.settle (aligned : Aligned unit extents) : Aligned unit (settle extents) := by
  unfold Extents.settle
  split
  · obtain ⟨first, rest⟩ := aligned_cons.mp aligned
    split
    · exact Aligned.join (aligned_cons.mpr ⟨first, (aligned_cons.mp rest).2⟩)
    · exact aligned_cons.mpr ⟨first, rest.join⟩
  · exact aligned

theorem Aligned.releaseAfter {released previous : Extent} (new : released.base % unit = 0)
    (aligned : Aligned unit (previous :: extents)) :
    Aligned unit (releaseAfter released previous extents) := by
  induction extents generalizing previous with
  | nil =>
    have first := (aligned_cons.mp aligned).1
    exact Aligned.settle (aligned_cons.mpr ⟨first, aligned_cons.mpr ⟨new, by simp [Aligned]⟩⟩)
  | cons later rest ih =>
    obtain ⟨first, others⟩ := aligned_cons.mp aligned
    unfold Extents.releaseAfter
    split
    · exact aligned_cons.mpr ⟨first, ih others⟩
    · exact Aligned.settle (aligned_cons.mpr ⟨first, aligned_cons.mpr ⟨new, others⟩⟩)

/-- Releasing at an aligned base keeps every base aligned. -/
theorem Aligned.release {released : Extent} (new : released.base % unit = 0)
    (aligned : Aligned unit extents) : Aligned unit (release released extents) := by
  unfold Extents.release
  split
  · exact Aligned.settle (aligned_cons.mpr ⟨new, aligned⟩)
  · split
    · exact Aligned.settle (aligned_cons.mpr ⟨new, aligned⟩)
    · exact Aligned.releaseAfter new aligned

/-- In aligned extents first fit of whole units pads nothing and keeps every base aligned. -/
theorem Aligned.firstFit {count address : Nat} {left : List Extent}
    (aligned : Aligned unit extents) (coalesced : Coalesced extents)
    (found : firstFit (count * unit) unit extents = some (address, left)) :
    Aligned unit left ∧ Set.Ico address (address + count * unit) ⊆ cover extents ∧
      cover left = cover extents \ Set.Ico address (address + count * unit) := by
  obtain ⟨start, listed, placed, taken, remain⟩ := firstFit_cover coalesced found
  rw [padding_of_aligned (aligned start listed), Nat.add_zero] at placed
  subst placed
  refine ⟨?_, taken, remain⟩
  obtain ⟨front, extent, back, rfl, -, -, -, rfl⟩ := firstFit_some found
  have base : extent.base % unit = 0 := aligned extent (by simp)
  intro piece inside
  simp only [List.mem_append, padding_of_aligned base, Nat.add_zero] at inside
  rcases inside with (inFront | inTrim) | inBack
  · exact aligned piece (by simp [inFront])
  · unfold trim at inTrim
    split at inTrim
    · simp at inTrim
    · obtain rfl := List.mem_singleton.mp inTrim
      simp [Nat.add_mod, base]
  · exact aligned piece (by simp [inBack])

end Aligned

/-! ## Fragmentation -/

/-- Items that relate to keys, no two of them to one key, are no more than the keys. -/
theorem length_le_of_keys {Item Key : Type} {items : List Item} {keys : List Key}
    {relates : Item → Key → Prop} (keyed : ∀ item ∈ items, ∃ key ∈ keys, relates item key)
    (apart : items.Pairwise fun first second => ∀ key ∈ keys, relates first key →
      ¬ relates second key) : items.length ≤ keys.length := by
  induction items generalizing keys with
  | nil => exact Nat.zero_le _
  | cons item rest ih =>
    classical
    obtain ⟨key, listed, relatesItem⟩ := keyed item List.mem_cons_self
    obtain ⟨alone, apart⟩ := List.pairwise_cons.mp apart
    have others : ∀ other ∈ rest, ∃ found ∈ keys.erase key, relates other found := by
      intro other later
      obtain ⟨found, inside, relatesOther⟩ := keyed other (List.mem_cons_of_mem item later)
      have different : found ≠ key := by
        intro same
        rw [same] at relatesOther
        exact alone other later key listed relatesItem relatesOther
      exact ⟨found, (List.mem_erase_of_ne different).mpr inside, relatesOther⟩
    have fewer := ih others (apart.imp fun separate key kept =>
      separate key (List.mem_of_mem_erase kept))
    have length := List.length_erase_of_mem listed
    have some := List.length_pos_of_mem listed
    rw [List.length_cons]
    omega

/-- Where an extent ends: in a block, or with a bound. -/
def EndsAt (extent : Extent) : Extent ⊕ Extent → Prop
  | .inl block => extent.stop ∈ block.bytes
  | .inr bound => extent.stop = bound.stop

/-- Just behind an extent no other one begins. -/
theorem Coalesced.stop_notMem {extents : List Extent} (coalesced : Coalesced extents)
    {extent : Extent} (listed : extent ∈ extents) : extent.stop ∉ cover extents := by
  rintro ⟨other, found, lower, upper⟩
  obtain ⟨front, back, rfl⟩ := List.append_of_mem listed
  obtain ⟨-, right, across⟩ := coalesced_append.mp coalesced
  obtain before | here := List.mem_append.mp found
  · have ends := across other before extent List.mem_cons_self
    have length := right.positive extent List.mem_cons_self
    simp only [Extent.stop] at ends upper lower
    omega
  · obtain rfl | behind := List.mem_cons.mp here
    · exact absurd upper (Nat.lt_irrefl _)
    · have begins := (coalesced_cons.mp right).2.1 other behind
      omega

/-- The addresses at which the ranges of a set begin. -/
def starts (bytes : Set Nat) : Set Nat := {byte ∈ bytes | ∀ before ∈ bytes, before + 1 ≠ byte}

/-- The ranges of coalesced extents begin where the extents do. -/
theorem Coalesced.starts_cover {extents : List Extent} (coalesced : Coalesced extents) :
    starts (cover extents) = {base | base ∈ extents.map Extent.base} := by
  ext byte
  rw [Set.mem_ofPred_eq, List.mem_map]
  constructor
  · rintro ⟨⟨extent, listed, lower, upper⟩, first⟩
    refine ⟨extent, listed, ?_⟩
    by_contra different
    -- The byte before would be one of the same extent.
    have inside : byte - 1 ∈ cover extents :=
      mem_cover.mpr ⟨extent, listed, show extent.base ≤ byte - 1 by omega,
        show byte - 1 < extent.stop by omega⟩
    exact first _ inside (by omega)
  · rintro ⟨extent, listed, rfl⟩
    refine ⟨base_mem_cover coalesced listed, ?_⟩
    rintro before ⟨other, found, lower, upper⟩ next
    have ends : other.stop = extent.base ∨ extent.base < other.stop := by omega
    obtain touching | apart := ends
    · exact coalesced.stop_notMem found (touching ▸ base_mem_cover coalesced listed)
    · have inside : other.base < extent.base := by omega
      obtain ⟨front, back, rfl⟩ := List.append_of_mem listed
      obtain ⟨-, right, across⟩ := coalesced_append.mp coalesced
      obtain before | here := List.mem_append.mp found
      · have gap := across other before extent List.mem_cons_self
        omega
      · obtain rfl | behind := List.mem_cons.mp here
        · exact absurd inside (Nat.lt_irrefl _)
        · have gap := (coalesced_cons.mp right).2.1 other behind
          simp only [Extent.stop] at gap
          omega

/-- Coalesced extents are as many as the ranges that they make up. -/
theorem Coalesced.ncard_starts {extents : List Extent} (coalesced : Coalesced extents) :
    (starts (cover extents)).ncard = extents.length := by
  have once : (extents.map Extent.base).Nodup := by
    rw [List.Nodup, List.pairwise_map]
    refine coalesced.apart.imp_of_mem ?_
    intro first second _ _ gap same
    simp only [Extent.stop] at gap
    omega
  have same : {base | base ∈ extents.map Extent.base} =
      ((extents.map Extent.base).toFinset : Set Nat) := by
    ext byte
    simp
  rw [coalesced.starts_cover, same, Set.ncard_coe_finset, List.toFinset_card_of_nodup once,
    List.length_map]

/-- **Fragmentation**: where extents and blocks make up the bounds, there is at most one extent for
each block and each bound, since every extent ends at a block or with its bound. -/
theorem Coalesced.length_le {extents blocks bounds : List Extent} (coalesced : Coalesced extents)
    (apart : Disjoint (cover extents) (cover blocks))
    (whole : cover extents ∪ cover blocks = cover bounds) :
    extents.length ≤ blocks.length + bounds.length := by
  have keyed : ∀ extent ∈ extents,
      ∃ key ∈ blocks.map Sum.inl ++ bounds.map Sum.inr, EndsAt extent key := by
    intro extent listed
    have length := coalesced.positive extent listed
    by_cases used : extent.stop ∈ cover blocks
    · obtain ⟨block, inside, here⟩ := mem_cover.mp used
      exact ⟨.inl block, by simp [inside], here⟩
    · -- The last byte of the extent lies in a bound, and the byte behind it in none.
      have last : extent.stop - 1 ∈ cover extents :=
        ⟨extent, listed, by simp only [Extent.stop]; omega, by simp only [Extent.stop]; omega⟩
      have within : extent.stop - 1 ∈ cover bounds := whole ▸ Or.inl last
      obtain ⟨bound, inside, lower, upper⟩ := mem_cover.mp within
      have beyond : extent.stop ∉ cover bounds := by
        rw [← whole]
        exact fun either => either.elim (coalesced.stop_notMem listed) used
      have ends : ¬ extent.stop < bound.stop :=
        fun short => beyond ⟨bound, inside, by omega, short⟩
      refine ⟨.inr bound, by simp [inside], ?_⟩
      show extent.stop = bound.stop
      simp only [Extent.stop] at ends upper ⊢
      omega
  have alone : extents.Pairwise fun first second =>
      ∀ key ∈ blocks.map Sum.inl ++ bounds.map Sum.inr, EndsAt first key → ¬ EndsAt second key := by
    refine coalesced.apart.imp_of_mem ?_
    intro first second _ listed gap key among ends again
    have length := coalesced.positive second listed
    cases key with
    | inl block =>
      have kept : block ∈ blocks := by simpa using among
      have used : second.base ∈ block.bytes := by
        obtain ⟨lower, -⟩ := ends
        obtain ⟨-, upper⟩ := again
        simp only [Extent.stop, Extent.mem_bytes] at *
        omega
      exact Set.disjoint_left.mp apart (base_mem_cover coalesced listed) ⟨block, kept, used⟩
    | inr bound =>
      have same : first.stop = second.stop := ends.trans again.symm
      simp only [Extent.stop] at gap same
      omega
  simpa using length_le_of_keys keyed alone

end Extents
