import McmqHost.Config.Reader
import McmqHost.IoThread.Thread

/-!
# Generated requests

`generate_request` draws a kind, a size and a position independently of each other. The size is kept
positive in one of the two distributions only, the position ignores the size, and the alignment moves
the position down. What the generator yields is part of the input here, so that every outcome of it is
covered.
-/

namespace McmqHost

/-- What the random generator yields for one request. -/
structure Draws where
  /-- The outcome of `request_type_dist`. -/
  read : Bool
  /-- The normal draw after `std::round`. -/
  size : Int
  /-- The uniform draw, from zero on, or the Zipf draw, from one on. -/
  position : Nat
deriving DecidableEq, Repr

/-- The range of the address distribution over a namespace. -/
def Draws.Within (draws : Draws) (distribution : AddressDistribution) (maxLsa : Nat) : Prop :=
  match distribution with
  | .uniform => draws.position ≤ maxLsa - 1
  | .zipfian => 1 ≤ draws.position ∧ draws.position ≤ maxLsa

/-- The members of `IOThreadSynthetic` that `generate_request` reads. -/
structure IOThreadSynthetic where
  /-- `nsid`. -/
  nsid : Nat
  /-- `sector_size`. -/
  sectorSize : Nat
  /-- `max_lsa`. -/
  maxLsa : Nat
  /-- `request_size_distribution`. -/
  requestSizeDistribution : RequestSizeDistribution
  /-- `request_size_mean`. -/
  requestSizeMean : Int
  /-- `addr_distribution`. -/
  addrDistribution : AddressDistribution
  /-- `addr_alignment`. -/
  addrAlignment : Nat

namespace IOThreadSynthetic

/-- The call of `IOThread::create_thread` in `main`; the sector size becomes an `unsigned int`. -/
def createThread (sectorSize maxLsa : Nat) (flow : FlowDefinition) : IOThreadSynthetic where
  nsid := flow.nsid.toNat
  sectorSize := u32 sectorSize
  maxLsa := maxLsa
  requestSizeDistribution := flow.requestSizeDistribution
  requestSizeMean := flow.requestSizeMean.toInt
  addrDistribution := flow.addressDistribution
  addrAlignment := flow.addressAlignment.toNat

/-- A conversion of a floating-point value to `int`, which is not defined outside its range. -/
def roundedToInt (value : Int) : Option Int :=
  if -2 ^ 31 ≤ value ∧ value < 2 ^ 31 then some value else none

/-- `size_sectors`. -/
def sizeSectors (thread : IOThreadSynthetic) (draws : Draws) : Option Int :=
  match thread.requestSizeDistribution with
  | .constant => some thread.requestSizeMean
  | .normal => (roundedToInt draws.size).map fun sectors => if sectors ≤ 0 then 1 else sectors

/-- `pos_sector` before it is aligned. -/
def posSector (thread : IOThreadSynthetic) (draws : Draws) : Nat :=
  match thread.addrDistribution with
  | .uniform => draws.position
  | .zipfian => u64 (draws.position + (2 ^ 64 - 1))

/-- `pos_sector` after it is aligned. -/
def alignedSector (thread : IOThreadSynthetic) (draws : Draws) : Nat :=
  let posSector := thread.posSector draws
  if thread.addrAlignment ≠ 0 then posSector - posSector % thread.addrAlignment else posSector

/-- The conversion of an `unsigned long` to `loff_t`. -/
def toLoff (value : Nat) : Int := if value < 2 ^ 63 then value else value - 2 ^ 64

/-- A product of `loff_t`, which is not defined when it overflows. -/
def mulLoff (left right : Int) : Option Int :=
  if -2 ^ 63 ≤ left * right ∧ left * right < 2 ^ 63 then some (left * right) else none

/-- `IOThreadSynthetic::generate_request`, with the namespace that `submit_io_request` is called with;
`none` when the arithmetic is not defined. -/
def generateRequest (thread : IOThreadSynthetic) (draws : Draws) : Option Access := do
  let sizeSectors ← thread.sizeSectors draws
  let pos ← mulLoff (toLoff (thread.alignedSector draws)) thread.sectorSize
  pure {
    doWrite := !draws.read
    nsid := thread.nsid
    pos := pos
    size := u64 ((sizeSectors % 2 ^ 64).toNat * thread.sectorSize) }

end IOThreadSynthetic

/-- An access to a namespace of `maxLsa` sectors, at least one sector long and aligned when an alignment
is set. -/
structure Access.Valid (access : Access) (sectorSize maxLsa alignment : Nat) : Prop where
  /-- It starts in the namespace. -/
  start : 0 ≤ access.pos
  /-- It has a sector. -/
  nonempty : sectorSize ≤ access.size
  /-- It is aligned. -/
  aligned : alignment ≠ 0 → access.pos % (alignment * sectorSize : Nat) = 0
  /-- It ends in the namespace. -/
  inside : access.pos + access.size ≤ (maxLsa * sectorSize : Nat)

/-! ## When a request is valid -/

/-- The sector that was drawn. -/
def Draws.first (draws : Draws) (distribution : AddressDistribution) : Nat :=
  match distribution with
  | .uniform => draws.position
  | .zipfian => draws.position - 1

/-- The last aligned sector that is not behind one. -/
def alignDown (alignment sector : Nat) : Nat :=
  if alignment = 0 then sector else alignment * (sector / alignment)

/-- The number of sectors that was drawn. -/
def Draws.sectors (draws : Draws) (distribution : RequestSizeDistribution) (mean : Int) : Int :=
  match distribution with
  | .constant => mean
  | .normal => max 1 draws.size

theorem alignDown_le (alignment sector : Nat) : alignDown alignment sector ≤ sector := by
  unfold alignDown
  split
  · exact Nat.le_refl sector
  · exact Nat.mul_div_le sector alignment

/-- An aligned sector is a multiple of the alignment. -/
theorem alignDown_dvd {alignment : Nat} (set : alignment ≠ 0) (sector : Nat) :
    alignment ∣ alignDown alignment sector := by
  unfold alignDown
  rw [if_neg set]
  exact Nat.dvd_mul_right alignment _

namespace IOThreadSynthetic

variable {thread : IOThreadSynthetic} {draws : Draws}

theorem first_lt {distribution : AddressDistribution} {maxLsa : Nat} (positive : 1 ≤ maxLsa)
    (within : draws.Within distribution maxLsa) : draws.first distribution < maxLsa := by
  cases distribution with
  | uniform =>
    change draws.position ≤ maxLsa - 1 at within
    change draws.position < maxLsa
    omega
  | zipfian =>
    obtain ⟨lower, upper⟩ := within
    change draws.position - 1 < maxLsa
    omega

/-- The code aligns by taking the remainder away. -/
theorem alignedSector_eq (within : draws.Within thread.addrDistribution thread.maxLsa)
    (addressable : thread.maxLsa < 2 ^ 64) :
    thread.alignedSector draws =
      alignDown thread.addrAlignment (draws.first thread.addrDistribution) := by
  have drawn : thread.posSector draws = draws.first thread.addrDistribution := by
    unfold posSector Draws.first
    cases kind : thread.addrDistribution with
    | uniform => rfl
    | zipfian =>
      rw [kind] at within
      obtain ⟨lower, upper⟩ := within
      change u64 (draws.position + (2 ^ 64 - 1)) = draws.position - 1
      unfold u64
      omega
  unfold alignedSector alignDown
  rw [drawn]
  by_cases set : thread.addrAlignment = 0
  · rw [if_pos set, if_neg (not_not_intro set)]
  · rw [if_neg set, if_pos set]
    have split := Nat.div_add_mod (draws.first thread.addrDistribution) thread.addrAlignment
    omega

/-- The draw of a size is one of an `int`, unless its conversion is not defined. -/
theorem sizeSectors_eq (thread : IOThreadSynthetic) (draws : Draws) :
    thread.sizeSectors draws =
      if thread.requestSizeDistribution = .normal ∧ ¬(-2 ^ 31 ≤ draws.size ∧ draws.size < 2 ^ 31)
      then none
      else some (draws.sectors thread.requestSizeDistribution thread.requestSizeMean) := by
  unfold sizeSectors Draws.sectors roundedToInt
  cases kind : thread.requestSizeDistribution with
  | constant => simp
  | normal =>
    by_cases range : -2 ^ 31 ≤ draws.size ∧ draws.size < 2 ^ 31
    · rw [if_pos range, if_neg (fun both => both.2 range), Option.map_some]
      change some (if draws.size ≤ 0 then 1 else draws.size) = some (max 1 draws.size)
      congr 1
      split <;> omega
    · rw [if_neg range, if_pos ⟨rfl, range⟩]
      rfl

/-- The position is at the aligned sector when that is below $2^{54}$, and else not a position. -/
theorem mulLoff_start {start : Nat} (addressable : start < 2 ^ 64) (pos : Int) :
    (mulLoff (toLoff start) (512 : Nat) = some pos ∧ 0 ≤ pos) ↔
      start < 2 ^ 54 ∧ pos = (start * 512 : Nat) := by
  unfold mulLoff toLoff
  by_cases low : start < 2 ^ 63
  · rw [if_pos low]
    by_cases fits : start < 2 ^ 54
    · rw [if_pos (by omega), Option.some.injEq]
      omega
    · rw [if_neg (by omega)]
      constructor
      · rintro ⟨undefined, -⟩
        contradiction
      · rintro ⟨low, -⟩
        exact absurd low fits
  · rw [if_neg low]
    constructor
    · rintro ⟨defined, lower⟩
      split at defined
      · cases defined
        omega
      · contradiction
    · rintro ⟨fits, -⟩
      exact absurd fits (by omega)

/-- The size in bytes is that of the sectors modulo $2^{55}$. -/
theorem size_eq (sectors : Int) :
    u64 ((sectors % 2 ^ 64).toNat * 512) = (sectors % 2 ^ 55).toNat * 512 := by
  unfold u64
  omega

/-- A multiple of the alignment in sectors is one in bytes. -/
theorem aligned_bytes (alignment sector : Nat) (set : alignment ≠ 0) :
    (((alignDown alignment sector * 512 : Nat) : Int)) % (alignment * 512 : Nat) = 0 := by
  have divides := Nat.mul_dvd_mul_right (alignDown_dvd set sector) 512
  exact Int.emod_eq_zero_of_dvd (Int.natCast_dvd_natCast.mpr divides)

/-- The request of a defined draw is at the aligned sector and has the drawn sectors. -/
theorem generateRequest_eq (sectorSize : thread.sectorSize = 512)
    (within : draws.Within thread.addrDistribution thread.maxLsa)
    (addressable : thread.maxLsa < 2 ^ 64)
    (converted : thread.requestSizeDistribution = .normal →
      -2 ^ 31 ≤ draws.size ∧ draws.size < 2 ^ 31) :
    thread.generateRequest draws =
      (mulLoff (toLoff (alignDown thread.addrAlignment (draws.first thread.addrDistribution)))
        (512 : Nat)).map fun pos => {
          doWrite := !draws.read
          nsid := thread.nsid
          pos := pos
          size := (draws.sectors thread.requestSizeDistribution thread.requestSizeMean
            % 2 ^ 55).toNat * 512 } := by
  have drawn : thread.sizeSectors draws =
      some (draws.sectors thread.requestSizeDistribution thread.requestSizeMean) := by
    rw [sizeSectors_eq]
    exact if_neg fun both => both.2 (converted both.1)
  unfold generateRequest
  rw [drawn, sectorSize, alignedSector_eq within addressable, ← size_eq]
  cases mulLoff (toLoff (alignDown thread.addrAlignment (draws.first thread.addrDistribution)))
    (512 : Nat) <;> rfl

/-- A request is valid exactly when its arithmetic is defined, it has a sector and it ends in the
namespace. -/
theorem generateRequest_valid_iff (sectorSize : thread.sectorSize = 512) (positive : 1 ≤ thread.maxLsa)
    (addressable : thread.maxLsa < 2 ^ 64)
    (within : draws.Within thread.addrDistribution thread.maxLsa) :
    (∃ access, thread.generateRequest draws = some access ∧
      access.Valid 512 thread.maxLsa thread.addrAlignment) ↔
    (thread.requestSizeDistribution = .normal → -2 ^ 31 ≤ draws.size ∧ draws.size < 2 ^ 31) ∧
    let start := alignDown thread.addrAlignment (draws.first thread.addrDistribution)
    let sectors : Int := draws.sectors thread.requestSizeDistribution thread.requestSizeMean % 2 ^ 55
    start < 2 ^ 54 ∧ 1 ≤ sectors ∧ start + sectors ≤ thread.maxLsa := by
  dsimp only
  by_cases converted : thread.requestSizeDistribution = .normal →
      -2 ^ 31 ≤ draws.size ∧ draws.size < 2 ^ 31
  · rw [and_iff_right converted, generateRequest_eq sectorSize within addressable converted]
    have before := alignDown_le thread.addrAlignment (draws.first thread.addrDistribution)
    have first := first_lt positive within
    have short : alignDown thread.addrAlignment (draws.first thread.addrDistribution) < 2 ^ 64 := by
      omega
    have placed := mulLoff_start short
    have aligned := aligned_bytes thread.addrAlignment (draws.first thread.addrDistribution)
    generalize alignDown thread.addrAlignment (draws.first thread.addrDistribution) = start at *
    generalize draws.sectors thread.requestSizeDistribution thread.requestSizeMean = sectors
    constructor
    · rintro ⟨access, generated, valid⟩
      obtain ⟨pos, multiplied, rfl⟩ := Option.map_eq_some_iff.mp generated
      obtain ⟨small, rfl⟩ := (placed pos).mp ⟨multiplied, valid.start⟩
      have nonempty : 512 ≤ (sectors % 2 ^ 55).toNat * 512 := valid.nonempty
      have inside : ((start * 512 : Nat) : Int) + ((sectors % 2 ^ 55).toNat * 512 : Nat) ≤
        (thread.maxLsa * 512 : Nat) := valid.inside
      refine ⟨small, by omega, by omega⟩
    · rintro ⟨small, nonempty, inside⟩
      have bytes : 512 ≤ (sectors % 2 ^ 55).toNat * 512 := by omega
      have last : ((start * 512 : Nat) : Int) + ((sectors % 2 ^ 55).toNat * 512 : Nat) ≤
          (thread.maxLsa * 512 : Nat) := by omega
      have multiplied := ((placed (start * 512 : Nat)).mpr ⟨small, rfl⟩).1
      exact ⟨_, Option.map_eq_some_iff.mpr ⟨_, multiplied, rfl⟩, Int.natCast_nonneg _, bytes, aligned,
        last⟩
  · have undefined : thread.generateRequest draws = none := by
      have drawn : thread.sizeSectors draws = none := by
        rw [sizeSectors_eq]
        apply if_pos
        constructor
        · by_contra other
          exact converted fun normal => absurd normal other
        · exact fun range => converted fun _ => range
      unfold generateRequest
      rw [drawn]
      rfl
    rw [undefined]
    constructor
    · rintro ⟨access, generated, -⟩
      contradiction
    · rintro ⟨range, -⟩
      exact absurd range converted

/-- What `create_thread` is given for a flow of the workload file makes valid requests exactly when the
conversion of a normal draw is defined, the drawn size has a sector (modulo $2^{55}$), and the aligned
sector is below $2^{54}$ and far enough from the end of the namespace. -/
theorem generated_valid_iff {node : FlowNode} {maxLsa : Nat} {draws : Draws} (positive : 1 ≤ maxLsa)
    (addressable : maxLsa < 2 ^ 64) :
    let flow := ConfigReader.loadWorkloadFlow node
    let start := alignDown flow.addressAlignment.toNat (draws.first flow.addressDistribution)
    let sectors : Int :=
      draws.sectors flow.requestSizeDistribution flow.requestSizeMean.toInt % 2 ^ 55
    flow.requestSizeMean.toInt ≤ maxLsa → draws.Within flow.addressDistribution maxLsa →
    ((∃ access, (createThread 512 maxLsa flow).generateRequest draws = some access ∧
      access.Valid 512 maxLsa flow.addressAlignment.toNat) ↔
    (flow.requestSizeDistribution = .normal → -2 ^ 31 ≤ draws.size ∧ draws.size < 2 ^ 31) ∧
    start < 2 ^ 54 ∧ 1 ≤ sectors ∧ start + sectors ≤ maxLsa) := by
  intro flow start sectors _ within
  have sectorSize : (createThread 512 maxLsa flow).sectorSize = 512 := rfl
  exact generateRequest_valid_iff sectorSize positive addressable within

/-- A flow with nothing but defaults: eight sectors anywhere. -/
def defaultNode : FlowNode :=
  ⟨none, none, none, none, none, none, none, none, none, none, none, none⟩

/-- Eight sectors at the start of a namespace of sixteen are a valid request. -/
theorem generated_valid_iff_start : ∃ access,
    (createThread 512 16 (ConfigReader.loadWorkloadFlow defaultNode)).generateRequest ⟨true, 0, 0⟩ =
      some access ∧ access.Valid 512 16 0 := by
  have within : Draws.Within ⟨true, 0, 0⟩
      (ConfigReader.loadWorkloadFlow defaultNode).addressDistribution 16 := Nat.zero_le 15
  exact (generated_valid_iff (by decide) (by decide) (by decide) within).mpr (by decide)

/-- Eight sectors at its last sector are drawn as well, and end behind it. -/
theorem generated_behind_end : ∃ access,
    Draws.Within ⟨true, 0, 15⟩ .uniform 16 ∧
    (createThread 512 16 (ConfigReader.loadWorkloadFlow defaultNode)).generateRequest ⟨true, 0, 15⟩ =
      some access ∧ access.pos = 15 * 512 ∧ access.size = 8 * 512 ∧ ¬access.Valid 512 16 0 := by
  refine ⟨⟨false, 0, 15 * 512, 8 * 512⟩, Nat.le_refl 15, rfl, rfl, rfl, ?_⟩
  intro valid
  exact absurd valid.inside (by decide)

end IOThreadSynthetic

end McmqHost
