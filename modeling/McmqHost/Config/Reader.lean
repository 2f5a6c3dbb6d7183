import Mathlib.Data.Nat.ModEq
import McmqHost.Basic

/-!
# Configuration

`load_host_config` turns the SSD's geometry into the capacity of each namespace and reads the
workload. Scalars of the workload file that are missing or malformed take their defaults. The
chip's capacity multiplies 32-bit numbers before it widens them, and it takes the pages of a block
twice and the capacity of a page never.
-/

namespace McmqHost

/-- A repeated field; its size is an `int`. -/
abbrev Repeated (Item : Type) := { items : List Item // items.length < 2 ^ 31 }

/-- The members of `mcmq::FlashConfig` that give the geometry. -/
structure FlashConfig where
  /-- `nr_dies_per_chip`. -/
  nrDiesPerChip : UInt32
  /-- `nr_planes_per_die`. -/
  nrPlanesPerDie : UInt32
  /-- `nr_blocks_per_plane`. -/
  nrBlocksPerPlane : UInt32
  /-- `nr_pages_per_block`. -/
  nrPagesPerBlock : UInt32
  /-- `page_capacity`, in bytes. -/
  pageCapacity : UInt32
deriving DecidableEq, Repr

/-- The members of `mcmq::Namespace` that give its size. -/
structure NamespaceConfig where
  /-- `channel_ids`. -/
  channelIds : Repeated UInt32
  /-- `chip_ids`. -/
  chipIds : Repeated UInt32

/-- The members of `mcmq::SsdConfig` that `load_host_config` reads. -/
structure SsdConfig where
  /-- `flash_config`. -/
  flashConfig : FlashConfig
  /-- `namespaces`. -/
  namespaces : Repeated NamespaceConfig

/-- `NamespaceDefinition`. -/
structure NamespaceDefinition where
  /-- `capacity_sects`. -/
  capacitySects : Nat
deriving DecidableEq, Repr

/-- `RequestSizeDistribution`. -/
inductive RequestSizeDistribution
  /-- `CONSTANT`. -/
  | constant
  /-- `NORMAL`. -/
  | normal
deriving DecidableEq, Repr

/-- `AddressDistribution`. -/
inductive AddressDistribution
  /-- `UNIFORM`. -/
  | uniform
  /-- `ZIPFIAN`. -/
  | zipfian
deriving DecidableEq, Repr

/-- `FlowDefinition`, whose only type is `SYNTHETIC`. -/
structure FlowDefinition where
  /-- `nsid`. -/
  nsid : UInt32
  /-- `seed`. -/
  seed : UInt32
  /-- `request_count`. -/
  requestCount : UInt64
  /-- `read_ratio`. -/
  readRatio : Float
  /-- `request_size_distribution`. -/
  requestSizeDistribution : RequestSizeDistribution
  /-- `request_size_mean`, in sectors. -/
  requestSizeMean : Int32
  /-- `request_size_variance`. -/
  requestSizeVariance : Int32
  /-- `address_distribution`. -/
  addressDistribution : AddressDistribution
  /-- `zipfian_alpha`. -/
  zipfianAlpha : Float
  /-- `address_alignment`, in sectors, or zero. -/
  addressAlignment : UInt32
  /-- `average_enqueued_requests`. -/
  averageEnqueuedRequests : UInt32

/-- `HostConfig`. -/
structure HostConfig where
  /-- `io_queue_depth`. -/
  ioQueueDepth : UInt32
  /-- `sector_size`. -/
  sectorSize : Nat
  /-- `namespaces`. -/
  namespaces : Nat → Option NamespaceDefinition
  /-- `flows`. -/
  flows : List FlowDefinition

/-- The scalars of one entry of `flows` that are there and can be converted. -/
structure FlowNode where
  /-- `namespace`. -/
  nsid : Option UInt32
  /-- `type`. -/
  type : Option String
  /-- `seed`. -/
  seed : Option UInt32
  /-- `request_count`. -/
  requestCount : Option UInt64
  /-- `read_ratio`. -/
  readRatio : Option Float
  /-- `request_size_distribution`. -/
  requestSizeDistribution : Option String
  /-- `request_size_mean`. -/
  requestSizeMean : Option Int32
  /-- `request_size_variance`. -/
  requestSizeVariance : Option Int32
  /-- `address_distribution`. -/
  addressDistribution : Option String
  /-- `zipfian_alpha`. -/
  zipfianAlpha : Option Float
  /-- `address_alignment`. -/
  addressAlignment : Option UInt32
  /-- `average_enqueued_requests`. -/
  averageEnqueuedRequests : Option UInt32

/-- The workload file. -/
structure HostNode where
  /-- `io_queue_depth`. -/
  ioQueueDepth : Option UInt32
  /-- `flows`. -/
  flows : List FlowNode

namespace ConfigReader

/-- `config.flows.push_back({})`. -/
def blankFlow : FlowDefinition where
  nsid := 0
  seed := 0
  requestCount := 0
  readRatio := 0
  requestSizeDistribution := .constant
  requestSizeMean := 0
  requestSizeVariance := 0
  addressDistribution := .uniform
  zipfianAlpha := 0
  addressAlignment := 0
  averageEnqueuedRequests := 0

/-- `load_workload_flow`. An unknown name of a distribution leaves the zero of its enumeration. -/
def loadWorkloadFlow (node : FlowNode) : FlowDefinition :=
  let flow := { blankFlow with nsid := node.nsid.getD 0 }
  if node.type.getD "synthetic" = "synthetic" then
    let sizes := node.requestSizeDistribution.getD "constant"
    let addresses := node.addressDistribution.getD "uniform"
    { flow with
      seed := node.seed.getD 123
      requestCount := node.requestCount.getD 10000
      readRatio := node.readRatio.getD 0.5
      requestSizeMean := node.requestSizeMean.getD 8
      requestSizeDistribution :=
        if sizes = "normal" then .normal else flow.requestSizeDistribution
      requestSizeVariance :=
        if sizes = "normal" then node.requestSizeVariance.getD 0 else flow.requestSizeVariance
      addressDistribution :=
        if addresses = "zipfian" then .zipfian else flow.addressDistribution
      zipfianAlpha := if addresses = "zipfian" then node.zipfianAlpha.getD 1.0 else flow.zipfianAlpha
      addressAlignment := node.addressAlignment.getD 0
      averageEnqueuedRequests := node.averageEnqueuedRequests.getD 1 }
  else flow

/-- `namespaces.emplace`, which keeps an entry that is there. -/
def emplace (namespaces : Nat → Option NamespaceDefinition) (nsid : Nat)
    (definition : NamespaceDefinition) : Nat → Option NamespaceDefinition :=
  if (namespaces nsid).isSome then namespaces
  else fun key => if key = nsid then some definition else namespaces key

/-- `chip_capacity_sects`: the product is one of `uint32_t`, and the quotient a `size_t`. -/
def chipCapacitySects (flash : FlashConfig) (sectorSize : Nat) : Nat :=
  (flash.nrDiesPerChip * flash.nrPlanesPerDie * flash.nrBlocksPerPlane * flash.nrPagesPerBlock *
    flash.nrPagesPerBlock).toNat / sectorSize

/-- `ns_capacity_sects`. -/
def nsCapacitySects (chipSects : Nat) (ns : NamespaceConfig) : Nat :=
  u64 (u64 (chipSects * ns.channelIds.val.length) * ns.chipIds.val.length)

/-- The loop of `load_host_config` over the namespaces, from the index `i` on. -/
def loadNamespaces (chipSects : Nat) : Nat → List NamespaceConfig →
    (Nat → Option NamespaceDefinition) → Nat → Option NamespaceDefinition
  | _, [], namespaces => namespaces
  | i, ns :: rest, namespaces =>
    loadNamespaces chipSects (i + 1) rest
      (emplace namespaces (u32 (i + 1)) ⟨nsCapacitySects chipSects ns⟩)

/-- `ConfigReader::load_host_config`, which fails when the file cannot be read. -/
def loadHostConfig (root : Option HostNode) (ssd : SsdConfig) (config : HostConfig) :
    Option HostConfig :=
  root.map fun node =>
    let sectorSize := 512
    let chipSects := chipCapacitySects ssd.flashConfig sectorSize
    { ioQueueDepth := node.ioQueueDepth.getD 1024
      sectorSize := sectorSize
      namespaces := loadNamespaces chipSects 0 ssd.namespaces.val config.namespaces
      flows := config.flows ++ node.flows.map loadWorkloadFlow }

/-! ## The namespaces that are registered -/

/-- A free key takes the definition. -/
theorem emplace_same {namespaces : Nat → Option NamespaceDefinition} {nsid : Nat}
    (free : namespaces nsid = none) (definition : NamespaceDefinition) :
    emplace namespaces nsid definition nsid = some definition := by
  simp [emplace, free]

/-- Other keys are left alone. -/
theorem emplace_other {namespaces : Nat → Option NamespaceDefinition} {nsid key : Nat}
    (differ : key ≠ nsid) (definition : NamespaceDefinition) :
    emplace namespaces nsid definition key = namespaces key := by
  unfold emplace
  split
  · rfl
  · exact if_neg differ

/-- The loop leaves the keys before its index alone. -/
theorem loadNamespaces_before {chipSects : Nat} {list : List NamespaceConfig} {i key : Nat}
    {namespaces : Nat → Option NamespaceDefinition} (before : key ≤ i)
    (short : i + list.length < 2 ^ 32) :
    loadNamespaces chipSects i list namespaces key = namespaces key := by
  induction list generalizing i namespaces with
  | nil => rfl
  | cons ns rest ih =>
    rw [List.length_cons] at short
    rw [loadNamespaces, ih (by omega) (by omega), u32_of_lt (by omega)]
    exact emplace_other (by omega) _

/-- Each namespace is registered behind its index. -/
theorem loadNamespaces_at {chipSects : Nat} {list : List NamespaceConfig} {i index : Nat}
    {namespaces : Nat → Option NamespaceDefinition} (fresh : ∀ key, i < key → namespaces key = none)
    (short : i + list.length < 2 ^ 32) (inside : index < list.length) :
    loadNamespaces chipSects i list namespaces (i + index + 1) =
      some ⟨nsCapacitySects chipSects list[index]⟩ := by
  induction list generalizing i index namespaces with
  | nil => contradiction
  | cons ns rest ih =>
    rw [List.length_cons] at short inside
    rw [loadNamespaces, u32_of_lt (by omega)]
    cases index with
    | zero =>
      rw [Nat.add_zero, loadNamespaces_before (Nat.le_refl _) (by omega)]
      exact emplace_same (fresh (i + 1) (Nat.lt_succ_self i)) _
    | succ index =>
      have later : ∀ key, i + 1 < key →
          emplace namespaces (i + 1) ⟨nsCapacitySects chipSects ns⟩ key = none := by
        intro key behind
        rw [emplace_other (Nat.ne_of_gt behind)]
        exact fresh key (by omega)
      have entry := ih later (by omega) (Nat.lt_of_succ_lt_succ inside)
      rw [show i + (index + 1) + 1 = i + 1 + index + 1 by omega, entry]
      rfl

end ConfigReader

/-! ## Capacities -/

/-- The bytes of a chip. -/
def FlashConfig.chipBytes (flash : FlashConfig) : Nat :=
  flash.nrDiesPerChip.toNat * flash.nrPlanesPerDie.toNat * flash.nrBlocksPerPlane.toNat *
    flash.nrPagesPerBlock.toNat * flash.pageCapacity.toNat

/-- The same product with the pages of a block in the place of the capacity of a page. -/
def FlashConfig.pagesTwice (flash : FlashConfig) : Nat :=
  flash.nrDiesPerChip.toNat * flash.nrPlanesPerDie.toNat * flash.nrBlocksPerPlane.toNat *
    flash.nrPagesPerBlock.toNat * flash.nrPagesPerBlock.toNat

namespace ConfigReader

/-- The chip's capacity counts pages twice and loses what does not fit 32 bits. -/
theorem chipCapacitySects_eq (flash : FlashConfig) :
    chipCapacitySects flash 512 = flash.pagesTwice / 512 % 2 ^ 23 := by
  have product : (flash.nrDiesPerChip * flash.nrPlanesPerDie * flash.nrBlocksPerPlane *
      flash.nrPagesPerBlock * flash.nrPagesPerBlock).toNat = flash.pagesTwice % 2 ^ 32 := by
    simp only [UInt32.toNat_mul, Nat.mod_mul_mod, FlashConfig.pagesTwice]
  rw [chipCapacitySects, product]
  exact Nat.mod_mul_right_div_self flash.pagesTwice 512 (2 ^ 23)

/-- The capacity of a namespace is reduced once, at the end. -/
theorem nsCapacitySects_eq (chipSects : Nat) (ns : NamespaceConfig) :
    nsCapacitySects chipSects ns =
      chipSects * (ns.channelIds.val.length * ns.chipIds.val.length) % 2 ^ 64 := by
  unfold nsCapacitySects u64
  rw [Nat.mod_mul_mod, Nat.mul_assoc]

/-- When a reduced multiple is another multiple that needs no reduction. -/
theorem reduced_eq_iff {counted sectors pairs : Nat} (fits : sectors * pairs < 2 ^ 64) :
    counted * pairs % 2 ^ 64 = sectors * pairs ↔
      pairs = 0 ∨ counted = sectors ∨ (sectors < counted ∧ 2 ^ 64 ∣ (counted - sectors) * pairs) := by
  constructor
  · intro same
    by_cases none_there : pairs = 0
    · exact .inl none_there
    · right
      rcases Nat.lt_trichotomy counted sectors with fewer | equal | more
      · have less : counted * pairs < sectors * pairs :=
          Nat.mul_lt_mul_of_pos_right fewer (Nat.pos_of_ne_zero none_there)
        rw [Nat.mod_eq_of_lt (by omega)] at same
        omega
      · exact .inl equal
      · right
        refine ⟨more, ?_⟩
        rw [Nat.sub_mul, ← same]
        exact Nat.dvd_sub_mod _
  · rintro (rfl | rfl | ⟨more, divides⟩)
    · simp
    · exact Nat.mod_eq_of_lt fits
    · obtain ⟨laps, excess⟩ := divides
      have whole : counted * pairs = sectors * pairs + 2 ^ 64 * laps := by
        rw [← excess, ← Nat.add_mul, Nat.add_sub_cancel' (Nat.le_of_lt more)]
      rw [whole, Nat.add_mul_mod_self_left, Nat.mod_eq_of_lt fits]

/-- A reduced count is exact when the true one is small and congruent. -/
theorem counted_eq_iff {pagesTwice sectors : Nat} :
    pagesTwice % 2 ^ 23 = sectors ↔ sectors < 2 ^ 23 ∧ pagesTwice ≡ sectors [MOD 2 ^ 23] := by
  unfold Nat.ModEq
  constructor
  · rintro rfl
    have small := Nat.mod_lt pagesTwice (by decide : 0 < 2 ^ 23)
    exact ⟨small, (Nat.mod_mod _ _).symm⟩
  · rintro ⟨small, congruent⟩
    rw [congruent, Nat.mod_eq_of_lt small]

/-- The capacity that is registered for a namespace is the exact one when the namespace has no channel
or no chip, or when a chip has less than $2^{23}$ sectors and the sectors that count pages twice are
congruent to them, or else when the excess of all chips is a multiple of $2^{64}$. -/
theorem capacity_iff {node : HostNode} {ssd : SsdConfig} {config result : HostConfig}
    (fresh : ∀ nsid, config.namespaces nsid = none)
    (loaded : loadHostConfig (some node) ssd config = some result) {i : Nat}
    (inside : i < ssd.namespaces.val.length)
    (fits : ssd.flashConfig.chipBytes * ssd.namespaces.val[i].channelIds.val.length *
      ssd.namespaces.val[i].chipIds.val.length < 2 ^ 64) :
    let sectors := ssd.flashConfig.chipBytes / 512
    let pagesTwice := ssd.flashConfig.pagesTwice / 512
    let channels := ssd.namespaces.val[i].channelIds.val.length
    let chips := ssd.namespaces.val[i].chipIds.val.length
    result.namespaces (i + 1) = some ⟨sectors * channels * chips⟩ ↔
      channels * chips = 0 ∨ (sectors < 2 ^ 23 ∧ pagesTwice ≡ sectors [MOD 2 ^ 23]) ∨
        (sectors < pagesTwice % 2 ^ 23 ∧
          2 ^ 64 ∣ (pagesTwice % 2 ^ 23 - sectors) * (channels * chips)) := by
  dsimp only
  have bounded := ssd.namespaces.property
  have short : 0 + ssd.namespaces.val.length < 2 ^ 32 := by omega
  have entry : loadNamespaces (chipCapacitySects ssd.flashConfig 512) 0 ssd.namespaces.val
      config.namespaces (0 + i + 1) = some ⟨nsCapacitySects _ ssd.namespaces.val[i]⟩ :=
    loadNamespaces_at (fun key _ => fresh key) short inside
  rw [Nat.zero_add] at entry
  have registered : result.namespaces =
      loadNamespaces (chipCapacitySects ssd.flashConfig 512) 0 ssd.namespaces.val config.namespaces := by
    cases loaded
    rfl
  rw [registered, entry]
  have small : ssd.flashConfig.chipBytes / 512 * (ssd.namespaces.val[i].channelIds.val.length *
      ssd.namespaces.val[i].chipIds.val.length) < 2 ^ 64 := by
    rw [← Nat.mul_assoc]
    have fewer := Nat.mul_le_mul_right ssd.namespaces.val[i].chipIds.val.length
      (Nat.mul_le_mul_right ssd.namespaces.val[i].channelIds.val.length
        (Nat.div_le_self ssd.flashConfig.chipBytes 512))
    omega
  rw [Option.some.injEq, NamespaceDefinition.mk.injEq, nsCapacitySects_eq, chipCapacitySects_eq,
    Nat.mul_assoc, reduced_eq_iff small, counted_eq_iff]

/-- A configuration before anything was loaded. -/
def blankConfig : HostConfig := ⟨0, 0, fun _ => none, []⟩

/-- An SSD with one namespace. -/
def oneNamespace (flash : FlashConfig) (channelIds chipIds : Repeated UInt32) : SsdConfig :=
  ⟨flash, ⟨[⟨channelIds, chipIds⟩], by simp⟩⟩

/-- Pages of a block as many as bytes of a page. -/
def squareFlash : FlashConfig := ⟨1, 1, 1, 512, 512⟩

/-- The defaults of `load_ssd_config`. -/
def defaultFlash : FlashConfig := ⟨2, 2, 2048, 256, 8192⟩

/-- Where the two factors are equal, the capacity is exact. -/
theorem capacity_iff_square : ∃ result,
    loadHostConfig (some ⟨none, []⟩) (oneNamespace squareFlash ⟨[0], by decide⟩ ⟨[0], by decide⟩)
      blankConfig = some result ∧ result.namespaces 1 = some ⟨squareFlash.chipBytes / 512 * 1 * 1⟩ := by
  refine ⟨_, rfl, ?_⟩
  have settled := capacity_iff (fun _ => rfl) (show loadHostConfig (some ⟨none, []⟩) _ blankConfig =
    some _ from rfl) (show 0 < (oneNamespace squareFlash ⟨[0], by decide⟩
      ⟨[0], by decide⟩).namespaces.val.length from Nat.one_pos) (by decide)
  apply settled.mpr
  right
  left
  decide

/-- The default geometry with eight channels and four chips gives 32 times too few sectors. -/
theorem default_capacity : ∃ result,
    loadHostConfig (some ⟨none, []⟩)
      (oneNamespace defaultFlash ⟨[0, 1, 2, 3, 4, 5, 6, 7], by decide⟩ ⟨[0, 1, 2, 3], by decide⟩)
      blankConfig = some result ∧
    defaultFlash.chipBytes * 8 * 4 < 2 ^ 64 ∧ result.namespaces 1 = some ⟨2 ^ 25⟩ ∧
    result.namespaces 1 ≠ some ⟨defaultFlash.chipBytes / 512 * 8 * 4⟩ :=
  ⟨_, rfl, by decide, by decide, by decide⟩

end ConfigReader

end McmqHost
