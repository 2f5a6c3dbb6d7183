import McmqHost.Driver.Host

/-!
# A driver in order

The layout of a driver says where its queues and doorbells are. An orderly driver has what the layout
says in live blocks, list pages of its own for every command, and has stored nowhere else. Each
operation on the command table, the queues and memory keeps it so, provided that the shadow doorbells
end in their page and one list page is enough for a transfer.
-/

namespace McmqHost

open Extents HoleTable

/-- A live block for the purpose, in the address space, covers the bytes that a store writes, and no
other live block has a byte of them. -/
def Store.Kept (store : Store) : Prop :=
  ∃ block ∈ store.live, block.purpose = store.purpose ∧ block.extent.base ≤ store.extent.base ∧
    store.extent.stop ≤ block.extent.stop ∧ block.extent.stop ≤ 2 ^ 32 ∧
    ∀ other ∈ store.live.erase block, Disjoint store.extent.bytes other.extent.bytes

/-- Where a driver and its memory are. -/
structure Layout where
  /-- First address of the memory. -/
  low : Nat
  /-- End of the memory. -/
  high : Nat
  /-- The addresses can be described. -/
  region : Region low high
  /-- The memory space at first. -/
  origin : MemorySpace
  /-- The page of the shadow doorbells, or zero. -/
  dbs : Address
  /-- The stride of the doorbells. -/
  stride : Nat
  /-- Number of queues that were allocated. -/
  count : Nat
  /-- The depth of each. -/
  depth : Nat → Nat
  /-- The shadow doorbell of each submission queue, or zero. -/
  sqDb : Nat → Address
  /-- The shadow doorbell of each completion queue, or zero. -/
  cqDb : Nat → Address
  /-- Buffers that callers hold. -/
  held : List Block

/-- The shadow doorbell of a submission queue, if there is one, ends in the page. -/
def Layout.SqFits (layout : Layout) (index : Nat) : Prop :=
  layout.sqDb index ≠ 0 → index * 8 * layout.stride + 4 ≤ 0x1000

/-- The shadow doorbell of a completion queue, if there is one, ends in the page. -/
def Layout.CqFits (layout : Layout) (index : Nat) : Prop :=
  layout.cqDb index ≠ 0 → index * 8 * layout.stride + 4 * layout.stride + 4 ≤ 0x1000

/-- A shadow doorbell is at its place. -/
def Layout.Placed (layout : Layout) (shadow slot : Nat) : Prop :=
  shadow = 0 ∨ (layout.dbs ≠ 0 ∧ shadow = u32 (layout.dbs + slot))

/-- A queue has its memory and its doorbells, and its tail is on the ring. -/
structure Ready (layout : Layout) (blocks : List Block) (index : Nat) (nvmeq : NVMeQueue) : Prop where
  /-- The ring has its depth. -/
  depth : nvmeq.depth = layout.depth index
  /-- The submission queue memory is live. -/
  sq : ∃ len, ⟨.submissionQueue index, ⟨nvmeq.sqDmaAddr, len⟩⟩ ∈ blocks ∧ nvmeq.depth * 64 ≤ len
  /-- The completion queue memory is live. -/
  cq : ∃ len, ⟨.completionQueue index, ⟨nvmeq.cqDmaAddr, len⟩⟩ ∈ blocks ∧
    nvmeq.depth * cqeSize ≤ len
  /-- Commands have 64 bytes. -/
  shift : nvmeq.sqeShift = nvmeSqes
  /-- The tail is on the ring. -/
  tail : 0 < nvmeq.depth → nvmeq.sqTail < nvmeq.depth
  /-- The doorbell register. -/
  qDb : nvmeq.qDb = u32 (nvmeRegDbs + index * 8 * layout.stride)
  /-- The shadow doorbell of the submission queue. -/
  sqDb : nvmeq.dbbufSqDb = layout.sqDb index ∧
    layout.Placed (layout.sqDb index) (index * 8 * layout.stride)
  /-- The shadow doorbell of the completion queue. -/
  cqDb : nvmeq.dbbufCqDb = layout.cqDb index ∧
    layout.Placed (layout.cqDb index) (index * 8 * layout.stride + 4 * layout.stride)

/-- A queue that was not used yet. -/
structure Idle (nvmeq : NVMeQueue) : Prop where
  /-- Its tail is at the first slot. -/
  tail : nvmeq.sqTail = 0
  /-- It has no shadow doorbell for submissions. -/
  sqDb : nvmeq.dbbufSqDb = 0
  /-- It has none for completions. -/
  cqDb : nvmeq.dbbufCqDb = 0

/-- The block of a list page. -/
def listBlock (serial : Nat) (page : Address) : Block := ⟨.prpList serial, ⟨page, 0x1000⟩⟩

/-- A command's list pages are live, each for itself. -/
structure Listed (blocks : List Block) (serial : Nat) (pages : List Address) : Prop where
  /-- No page is listed twice. -/
  once : pages.Nodup
  /-- Every page is live. -/
  live : ∀ page ∈ pages, listBlock serial page ∈ blocks

/-- A driver with the layout, whose stores were all kept. -/
structure Orderly (layout : Layout) (driver : NVMeDriver) : Prop where
  /-- The allocator knows the live blocks, and they are disjoint. -/
  housed : Tenancy.Sound layout.low layout.high layout.origin
    ⟨driver.space, driver.blocks.map Block.extent⟩
  /-- The shadow doorbells are where the layout says. -/
  dbs : driver.dbbufDbs = layout.dbs
  /-- The doorbells have its stride. -/
  stride : driver.dbStride = layout.stride
  /-- It is not zero once there are queues. -/
  strided : 0 < layout.count → 0 < layout.stride
  /-- As many queues were allocated. -/
  count : driver.queueCount = layout.count
  /-- The page of the shadow doorbells is live. -/
  page : layout.dbs ≠ 0 → ⟨.doorbells, ⟨layout.dbs, 0x1000⟩⟩ ∈ driver.blocks
  /-- Allocated queues are ready. -/
  allocated : ∀ index < layout.count, ∃ nvmeq, driver.queues[index]? = some nvmeq ∧
    Ready layout driver.blocks index nvmeq
  /-- The buffers of callers are live. -/
  held : ∀ block ∈ layout.held, block ∈ driver.blocks ∧ block.purpose = .buffer
  /-- The negotiated depth of the queues is that of a 16-bit ring or negative. -/
  negotiated : -2 ^ 31 ≤ driver.queueDepth ∧ driver.queueDepth ≤ 2 ^ 16
  /-- The others are not used. -/
  unused : ∀ index nvmeq, layout.count ≤ index → driver.queues[index]? = some nvmeq → Idle nvmeq
  /-- Commands have their list pages. -/
  entries : ∀ id cmd, driver.commands.commandMap id = some cmd →
    cmd.serial < driver.made ∧ Listed driver.blocks cmd.serial cmd.prpLists
  /-- Different commands have different serial numbers. -/
  serials : ∀ id other cmd another, driver.commands.commandMap id = some cmd →
    driver.commands.commandMap other = some another → cmd.serial = another.serial → id = other
  /-- All stores were kept. -/
  stores : ∀ store ∈ driver.stores, store.Kept

/-- An operation leaves an orderly driver orderly, however it ends. -/
def Maintains {Value : Type} (layout : Layout) (drive : Drive Value) : Prop :=
  Effect.Ensures (Orderly layout) drive (fun _ => Orderly layout) (Orderly layout)

/-- The blocks that a driver has for good. -/
def Purpose.Lasting : Purpose → Prop
  | .doorbells | .submissionQueue _ | .completionQueue _ => True
  | .prpList _ | .buffer => False

/-- A queue needs no other blocks than its own. -/
theorem Ready.mono {layout : Layout} {blocks others : List Block} {index : Nat} {nvmeq : NVMeQueue}
    (ready : Ready layout blocks index nvmeq)
    (subset : ∀ block ∈ blocks, block.purpose.Lasting → block ∈ others) :
    Ready layout others index nvmeq := by
  obtain ⟨sqLen, sqLive, sqRoom⟩ := ready.sq
  obtain ⟨cqLen, cqLive, cqRoom⟩ := ready.cq
  exact { ready with
    sq := ⟨sqLen, subset _ sqLive trivial, sqRoom⟩
    cq := ⟨cqLen, subset _ cqLive trivial, cqRoom⟩ }

/-- The tenants of a memory space may be listed in any order, and one may leave with a part of its
block, of which the rest is lost. -/
theorem Tenancy.Sound.release {low high : Nat} {start space after : MemorySpace}
    {live rest : List Extent} {block : Extent} {len : Nat}
    (sound : Tenancy.Sound low high start ⟨space, live⟩) (region : Region low high)
    (split : live.Perm (block :: rest)) (within : len ≤ block.len)
    (freed : space.free block.base len = .ok after) : Tenancy.Sound low high start ⟨after, rest⟩ := by
  obtain ⟨extents, table⟩ := sound.sound
  obtain ⟨apart, exclusive⟩ := exclusive_cons.mp
    ((split.pairwise_iff fun apart => Disjoint.symm apart).mp sound.exclusive)
  have bounded : ∀ other ∈ rest, other.base + other.len ≤ high :=
    fun other kept => sound.bounded other (split.mem_iff.mpr (List.mem_cons_of_mem _ kept))
  have covered : cover live = block.bytes ∪ cover rest := by
    rw [cover_perm split, cover_cons]
  obtain ⟨left, ran, same⟩ := bind_ok.mp freed
  cases same
  refine ⟨?_, exclusive, bounded, sound.fixed⟩
  by_cases empty : len = 0
  · simp only [HoleTable.free, empty, ↓reduceIte, pure, Except.pure, Except.ok.injEq] at ran
    subst ran
    exact ⟨extents, table.mono (covered ▸ Set.subset_union_right)⟩
  · have inside : Set.Ico block.base (block.base + len) ⊆ block.bytes :=
      Set.Ico_subset_Ico_right (Nat.add_le_add_left within _)
    have owned : Set.Ico block.base (block.base + len) ⊆ cover live :=
      covered ▸ inside.trans Set.subset_union_left
    refine ⟨_, (table.free_ok region (by omega) owned ran).mono ?_⟩
    rw [covered]
    intro byte kept
    exact ⟨Or.inr kept, fun gone => Set.disjoint_left.mp apart (inside gone) kept⟩

namespace NVMeDriver

variable {Value : Type} {layout : Layout} {driver : NVMeDriver}

/-- A live block for the purpose covers the bytes. -/
def Covers (driver : NVMeDriver) (purpose : Purpose) (addr len : Nat) : Prop :=
  ∃ block ∈ driver.blocks, block.purpose = purpose ∧ block.extent.base ≤ addr ∧
    addr + len ≤ block.extent.stop

end NVMeDriver

namespace Orderly

open NVMeDriver

variable {layout : Layout} {driver : NVMeDriver}

/-! ## Memory -/

/-- A live block ends in the address space. -/
theorem bounded (orderly : Orderly layout driver) {block : Block} (live : block ∈ driver.blocks) :
    block.extent.stop ≤ 2 ^ 32 :=
  (orderly.housed.bounded _ (List.mem_map_of_mem live)).trans layout.region.addressable

/-- What is in memory does not matter. -/
theorem framed (orderly : Orderly layout driver) {space : MemorySpace}
    (same : space.SameFrame driver.space) : Orderly layout { driver with space := space } := by
  have housed := orderly.housed
  exact { orderly with
    housed := {
      sound := by
        change ∃ extents, HoleTable.Sound _ _ space.table extents _
        rw [same.table]
        exact housed.sound
      exclusive := housed.exclusive
      bounded := housed.bounded
      fixed := by
        change space.iovaBase = _ ∧ space.mapSize = _
        rw [same.iovaBase, same.mapSize]
        exact housed.fixed } }

/-- A store into a live block for its purpose is kept. -/
theorem stored (orderly : Orderly layout driver) {space : MemorySpace}
    (same : space.SameFrame driver.space) {purpose : Purpose} {addr len : Nat}
    (covers : driver.Covers purpose addr len) :
    Orderly layout (driver.stored space purpose ⟨addr, len⟩) := by
  have housed := orderly.housed
  exact { orderly.framed same with
    stores := by
      intro store listed
      rcases List.mem_append.mp listed with earlier | latest
      · exact orderly.stores store earlier
      · obtain rfl := List.mem_singleton.mp latest
        obtain ⟨block, live, purpose, first, last⟩ := covers
        refine ⟨block, live, purpose, first, last, orderly.bounded live, ?_⟩
        intro other kept
        have split := (List.perm_cons_erase live).map Block.extent
        have apart := (exclusive_cons.mp
          ((split.pairwise_iff fun apart => Disjoint.symm apart).mp housed.exclusive)).1
        have inside : Extent.bytes ⟨addr, len⟩ ⊆ block.extent.bytes := Set.Ico_subset_Ico first last
        refine (apart.mono_left inside).mono_right ?_
        exact fun byte here => mem_cover.mpr ⟨_, List.mem_map_of_mem kept, here⟩ }

/-- A new block is live. -/
theorem taken (orderly : Orderly layout driver) {len align : Nat} (noWrap : len + align ≤ 2 ^ 64)
    {address : Address} {space : MemorySpace}
    (gave : driver.space.allocate len align = .ok (address, space)) (purpose : Purpose) :
    Orderly layout (driver.take space ⟨purpose, ⟨address, len⟩⟩) := by
  have stepped : Tenancy.allocateStep ⟨driver.space, driver.blocks.map Block.extent⟩ len align =
      some ⟨space, ⟨address, len⟩ :: driver.blocks.map Block.extent⟩ := by
    rw [Tenancy.allocateStep, gave]
  have more : ∀ block ∈ driver.blocks, block ∈ (⟨purpose, ⟨address, len⟩⟩ : Block) :: driver.blocks :=
    fun block live => List.mem_cons_of_mem _ live
  exact { orderly with
    housed := orderly.housed.allocateStep layout.region noWrap stepped
    page := fun shadowed => more _ (orderly.page shadowed)
    allocated := by
      intro index below
      obtain ⟨nvmeq, found, ready⟩ := orderly.allocated index below
      exact ⟨nvmeq, found, ready.mono fun block live _ => more block live⟩
    held := fun block kept => ⟨more block (orderly.held block kept).1, (orderly.held block kept).2⟩
    entries := by
      intro id cmd entry
      obtain ⟨serial, listed⟩ := orderly.entries id cmd entry
      exact ⟨serial, listed.once, fun page inside => more _ (listed.live page inside)⟩ }

/-- No live block is where a new one is. -/
theorem fresh {space : MemorySpace} {block : Block}
    (orderly : Orderly layout (driver.take space block)) (nonempty : 0 < block.extent.len) :
    ∀ other ∈ driver.blocks, other.extent ≠ block.extent := by
  intro other live same
  have apart := (exclusive_cons.mp orderly.housed.exclusive).1
  have here : block.extent.base ∈ block.extent.bytes :=
    ⟨le_refl _, Nat.lt_add_of_pos_right nonempty⟩
  exact Set.disjoint_left.mp apart here
    (mem_cover.mpr ⟨_, List.mem_map_of_mem live, same.symm ▸ here⟩)

/-- A block that is not lasting is given back when no command lists it. -/
theorem released (orderly : Orderly layout driver) {block : Block} {len : Nat} {space : MemorySpace}
    (live : block ∈ driver.blocks) (loose : ¬block.purpose.Lasting) (within : len ≤ block.extent.len)
    (unlisted : ∀ id cmd, driver.commands.commandMap id = some cmd →
      ∀ page ∈ cmd.prpLists, listBlock cmd.serial page ≠ block)
    (unheld : block ∉ layout.held)
    (freed : driver.space.free block.extent.base len = .ok space) :
    Orderly layout { driver with space := space, blocks := driver.blocks.erase block } := by
  have split := (List.perm_cons_erase live).map Block.extent
  have kept : ∀ other ∈ driver.blocks, other ≠ block → other ∈ driver.blocks.erase block :=
    fun other held different => (List.mem_erase_of_ne different).mpr held
  have lasting : ∀ other ∈ driver.blocks, other.purpose.Lasting →
      other ∈ driver.blocks.erase block := by
    intro other held lasts
    exact kept other held fun same => loose (same ▸ lasts)
  exact { orderly with
    housed := orderly.housed.release layout.region split within freed
    page := fun shadowed => lasting _ (orderly.page shadowed) trivial
    allocated := by
      intro index below
      obtain ⟨nvmeq, found, ready⟩ := orderly.allocated index below
      exact ⟨nvmeq, found, ready.mono lasting⟩
    held := by
      intro other used
      obtain ⟨there, purpose⟩ := orderly.held other used
      exact ⟨kept other there fun same => unheld (same ▸ used), purpose⟩
    entries := by
      intro id cmd entry
      obtain ⟨serial, listed⟩ := orderly.entries id cmd entry
      exact ⟨serial, listed.once,
        fun page inside => kept _ (listed.live page inside) (unlisted id cmd entry page inside)⟩ }

/-! ## Queues -/

/-- Members of a queue are assigned. -/
theorem updated (orderly : Orderly layout driver) {index : Nat} {change : NVMeQueue → NVMeQueue}
    (ready : index < layout.count → ∀ nvmeq, Ready layout driver.blocks index nvmeq →
      Ready layout driver.blocks index (change nvmeq))
    (idle : layout.count ≤ index → ∀ nvmeq, Idle nvmeq → Idle (change nvmeq)) :
    Orderly layout { driver with queues := driver.queues.modify index change } := by
  exact { orderly with
    allocated := by
      intro other below
      obtain ⟨nvmeq, found, kept⟩ := orderly.allocated other below
      by_cases same : index = other
      · subst same
        refine ⟨change nvmeq, ?_, ready below nvmeq kept⟩
        simp [found]
      · refine ⟨nvmeq, ?_, kept⟩
        simp [same, found]
    unused := by
      intro other nvmeq above found
      simp only [List.getElem?_modify, Option.map_eq_map, Option.map_eq_some_iff] at found
      obtain ⟨earlier, found, rfl⟩ := found
      have kept := orderly.unused other earlier above found
      split
      · rename_i same
        subst same
        exact idle above earlier kept
      · exact kept }

/-- An allocated queue is ready. -/
theorem ready (orderly : Orderly layout driver) {index : Nat} {nvmeq : NVMeQueue}
    (below : index < layout.count) (found : driver.queues[index]? = some nvmeq) :
    Ready layout driver.blocks index nvmeq := by
  obtain ⟨other, held, ready⟩ := orderly.allocated index below
  obtain rfl := Option.some.inj (held.symm.trans found)
  exact ready

/-- The page of the shadow doorbells covers a doorbell that ends in it. -/
theorem slot (orderly : Orderly layout driver) {shadow slot : Nat}
    (placed : layout.Placed shadow slot) (fits : shadow ≠ 0 → slot + 4 ≤ 0x1000)
    (present : shadow ≠ 0) : driver.Covers .doorbells shadow 4 := by
  obtain absent | ⟨shadowed, place⟩ := placed
  · exact absurd absent present
  have live := orderly.page shadowed
  have bounded := orderly.bounded live
  have inside := fits present
  simp only [Extent.stop] at bounded
  have address : u32 (layout.dbs + slot) = layout.dbs + slot := u32_of_lt (by omega)
  rw [place, address]
  refine ⟨_, live, rfl, Nat.le_add_right _ _, ?_⟩
  simp only [Extent.stop]
  omega

/-- The submission queue memory covers the slot at the tail. -/
theorem tailSlot (orderly : Orderly layout driver) {index : Nat} {nvmeq : NVMeQueue}
    (below : index < layout.count) (found : driver.queues[index]? = some nvmeq)
    (positive : 0 < layout.depth index) : driver.Covers (.submissionQueue index)
      (u32 (nvmeq.sqDmaAddr + nvmeq.sqTail <<< nvmeq.sqeShift)) 64 := by
  have ready := orderly.ready below found
  obtain ⟨len, live, room⟩ := ready.sq
  have tail := ready.tail (ready.depth ▸ positive)
  have bounded := orderly.bounded live
  simp only [Extent.stop] at bounded
  have offset : nvmeq.sqTail <<< nvmeq.sqeShift = nvmeq.sqTail * 64 := by
    rw [ready.shift, Nat.shiftLeft_eq]
    rfl
  have address : u32 (nvmeq.sqDmaAddr + nvmeq.sqTail * 64) = nvmeq.sqDmaAddr + nvmeq.sqTail * 64 :=
    u32_of_lt (by omega)
  rw [offset, address]
  refine ⟨_, live, rfl, Nat.le_add_right _ _, ?_⟩
  simp only [Extent.stop]
  omega

/-! ## Commands -/

/-- Entries of the table change only in what their lists do not depend on, or are removed. -/
theorem retabled (orderly : Orderly layout driver) {commands : CommandTable}
    (former : ∀ id cmd, commands.commandMap id = some cmd →
      ∃ earlier, driver.commands.commandMap id = some earlier ∧ cmd.serial = earlier.serial ∧
        cmd.prpLists = earlier.prpLists) :
    Orderly layout { driver with commands := commands } := by
  exact { orderly with
    entries := by
      intro id cmd entry
      obtain ⟨earlier, found, serial, pages⟩ := former id cmd entry
      rw [serial, pages]
      exact orderly.entries id earlier found
    serials := by
      intro id other cmd another entry second same
      obtain ⟨earlier, found, serial, -⟩ := former id cmd entry
      obtain ⟨before, met, number, -⟩ := former other another second
      exact orderly.serials id other earlier before found met (by rw [← serial, same, number]) }

/-- A command is registered. -/
theorem entered (orderly : Orderly layout driver) (callback : Option Nat) :
    Orderly layout { driver with
      commands := (driver.commands.setupAsyncCommand driver.made callback).2
      made := driver.made + 1 } := by
  have former : ∀ id cmd,
      (driver.commands.setupAsyncCommand driver.made callback).2.commandMap id = some cmd →
      (∃ earlier, driver.commands.commandMap id = some earlier ∧ cmd.serial = earlier.serial ∧
        cmd.prpLists = earlier.prpLists) ∨
      (cmd.serial = driver.made ∧ cmd.prpLists = [] ∧ id = driver.commands.commandIdCounter) := by
    intro id cmd entry
    simp only [CommandTable.setupAsyncCommand, Function.update_apply] at entry
    split at entry
    · rename_i same
      obtain rfl := Option.some.inj entry
      cases known : driver.commands.commandMap driver.commands.commandIdCounter with
      | none => exact .inr ⟨rfl, rfl, same⟩
      | some earlier => exact .inl ⟨earlier, same ▸ known, rfl, rfl⟩
    · exact .inl ⟨cmd, entry, rfl, rfl⟩
  have old : ∀ id cmd, driver.commands.commandMap id = some cmd → cmd.serial < driver.made :=
    fun id cmd entry => (orderly.entries id cmd entry).1
  exact { orderly with
    entries := by
      intro id cmd entry
      rcases former id cmd entry with ⟨earlier, found, serial, pages⟩ | ⟨serial, pages, -⟩
      · obtain ⟨number, listed⟩ := orderly.entries id earlier found
        rw [serial, pages]
        exact ⟨Nat.lt_succ_of_lt number, listed⟩
      · rw [serial, pages]
        exact ⟨Nat.lt_succ_self _, List.nodup_nil, by simp⟩
    serials := by
      intro id other cmd another entry second same
      rcases former id cmd entry with ⟨earlier, found, serial, -⟩ | ⟨serial, -, place⟩
      · rcases former other another second with ⟨before, met, number, -⟩ | ⟨number, -, -⟩
        · exact orderly.serials id other earlier before found met (by rw [← serial, same, number])
        · have below := old id earlier found
          omega
      · rcases former other another second with ⟨before, met, number, -⟩ | ⟨number, -, spot⟩
        · have below := old other before met
          omega
        · rw [place, spot] }

/-- A list page is added to an entry. -/
theorem pushed (orderly : Orderly layout driver) {id : Nat} {page : Address}
    (live : ∀ cmd, driver.commands.commandMap id = some cmd →
      listBlock cmd.serial page ∈ driver.blocks ∧ page ∉ cmd.prpLists) :
    Orderly layout ((pushPrpList id page).run driver).2 := by
  have former : ∀ other cmd,
      Function.update driver.commands.commandMap id ((driver.commands.commandMap id).map
        fun cmd => { cmd with prpLists := cmd.prpLists ++ [page] }) other = some cmd →
      ∃ earlier, driver.commands.commandMap other = some earlier ∧ cmd.serial = earlier.serial ∧
        (cmd.prpLists = earlier.prpLists ∨ other = id ∧ cmd.prpLists = earlier.prpLists ++ [page]) := by
    intro other cmd entry
    rw [Function.update_apply] at entry
    split at entry
    · rename_i same
      obtain ⟨earlier, found, rfl⟩ := Option.map_eq_some_iff.mp entry
      exact ⟨earlier, same ▸ found, rfl, .inr ⟨same, rfl⟩⟩
    · exact ⟨cmd, entry, rfl, .inl rfl⟩
  exact { orderly with
    entries := by
      intro other cmd entry
      obtain ⟨earlier, found, serial, pages | ⟨rfl, pages⟩⟩ := former other cmd entry
      · rw [serial, pages]
        exact orderly.entries other earlier found
      · obtain ⟨number, listed⟩ := orderly.entries other earlier found
        obtain ⟨held, new⟩ := live earlier found
        rw [serial, pages]
        refine ⟨number, ?_, ?_⟩
        · rw [List.nodup_append]
          refine ⟨listed.once, List.nodup_singleton page, ?_⟩
          rintro first inside second rest rfl
          exact new (List.mem_singleton.mp rest ▸ inside)
        · intro sheet inside
          rcases List.mem_append.mp inside with inside | inside
          · exact listed.live sheet inside
          · exact List.mem_singleton.mp inside ▸ held
    serials := by
      intro one other cmd another entry second same
      obtain ⟨earlier, found, serial, -⟩ := former one cmd entry
      obtain ⟨before, met, number, -⟩ := former other another second
      exact orderly.serials one other earlier before found met (by rw [← serial, same, number]) }

end Orderly

namespace NVMeDriver

variable {Value : Type} {layout : Layout}

/-! ## Operations on memory -/

/-- The rule of a call of the memory space. -/
theorem ensures_call {change : NVMeDriver → Except Fault (Value × NVMeDriver)}
    {Before Failed : NVMeDriver → Prop} {After : Value → NVMeDriver → Prop}
    (holds : ∀ driver value after, Before driver → change driver = .ok (value, after) →
      After value after)
    (fails : ∀ driver, Before driver → Failed driver) :
    Effect.Ensures Before (call change) After Failed := by
  refine Effect.Ensures.attempt ?_ fails
  intro driver value after before ran
  cases changed : change driver with
  | error fault =>
    rw [changed] at ran
    cases ran
  | ok result =>
    rw [changed] at ran
    cases ran
    exact holds driver value after before changed

/-- A write into a live block for its purpose leaves the blocks as they are. -/
theorem ensures_write_beside {purpose : Purpose} {addr : Nat} {bytes : List UInt8}
    (Context : List Block → Prop) :
    Effect.Ensures
      (fun driver => Orderly layout driver ∧ driver.Covers purpose addr bytes.length ∧
        Context driver.blocks)
      (write purpose addr bytes) (fun _ driver => Orderly layout driver ∧ Context driver.blocks)
      (Orderly layout) := by
  apply ensures_call
  · rintro driver _ after ⟨orderly, covers, context⟩ ran
    obtain ⟨space, wrote, ran⟩ := McmqHost.bind_ok.mp ran
    cases ran
    exact ⟨orderly.stored (MemorySpace.frame_write wrote) covers, context⟩
  · exact fun driver before => before.1

/-- A write into a live block for its purpose. -/
theorem ensures_write {purpose : Purpose} {addr : Nat} {bytes : List UInt8} :
    Effect.Ensures (fun driver => Orderly layout driver ∧ driver.Covers purpose addr bytes.length)
      (write purpose addr bytes) (fun _ => Orderly layout) (Orderly layout) :=
  (ensures_write_beside fun _ => True).weaken (fun _ before => ⟨before.1, before.2, trivial⟩)
    (fun _ _ after => after.1) fun _ failed => failed

/-- The same of `memset`. -/
theorem ensures_memset {purpose : Purpose} {addr len : Nat} {c : UInt8} :
    Effect.Ensures (fun driver => Orderly layout driver ∧ driver.Covers purpose addr len)
      (memset purpose addr c len) (fun _ => Orderly layout) (Orderly layout) := by
  apply ensures_call
  · rintro driver _ after ⟨orderly, covers⟩ ran
    obtain ⟨space, wrote, ran⟩ := McmqHost.bind_ok.mp ran
    cases ran
    exact orderly.stored (MemorySpace.frame_write wrote) covers
  · exact fun driver before => before.1

/-- An allocation adds a live block, and nothing else. -/
theorem ensures_allocatePages (layout : Layout) {purpose : Purpose} {len : Nat} (fits : len < 2 ^ 64)
    {Before : NVMeDriver → Prop} {After : Address → NVMeDriver → Prop} {Failed : NVMeDriver → Prop}
    (holds : ∀ driver space address, Before driver → Orderly layout driver →
      Orderly layout
        (driver.take space ⟨purpose, ⟨address, roundupPage len⟩⟩) →
      After address (driver.take space ⟨purpose, ⟨address, roundupPage len⟩⟩))
    (orderly : ∀ driver, Before driver → Orderly layout driver)
    (fails : ∀ driver, Before driver → Failed driver) :
    Effect.Ensures Before (allocatePages purpose len) After Failed := by
  refine ensures_call ?_ fails
  intro driver address after before ran
  obtain ⟨⟨found, space⟩, gave, ran⟩ := McmqHost.bind_ok.mp ran
  cases ran
  have order := orderly driver before
  exact holds driver space address before order
    (order.taken (Tenancy.roundupPage_sized len fits) gave purpose)

/-- Giving back a block that is neither lasting nor listed removes it, and nothing else. -/
theorem ensures_free (layout : Layout) {block : Block} {len : Nat} (loose : ¬block.purpose.Lasting)
    (within : len ≤ block.extent.len) {Before Failed : NVMeDriver → Prop}
    {After : Unit → NVMeDriver → Prop}
    (holds : ∀ driver space, Before driver →
      Orderly layout { driver with space := space, blocks := driver.blocks.erase block } →
      After () { driver with space := space, blocks := driver.blocks.erase block })
    (orderly : ∀ driver, Before driver → Orderly layout driver ∧ block ∈ driver.blocks ∧
      block ∉ layout.held ∧ ∀ id cmd, driver.commands.commandMap id = some cmd →
        ∀ page ∈ cmd.prpLists, listBlock cmd.serial page ≠ block)
    (fails : ∀ driver, Before driver → Failed driver) :
    Effect.Ensures Before (free block len) After Failed := by
  refine ensures_call ?_ fails
  intro driver _ after before ran
  obtain ⟨space, freed, ran⟩ := McmqHost.bind_ok.mp ran
  cases ran
  obtain ⟨order, live, unheld, unlisted⟩ := orderly driver before
  exact holds driver space before (order.released live loose within unlisted unheld freed)

/-! ## Operations on the command table -/

/-- The list pages of a command that is not in the table are given back. -/
theorem ensures_freePrpLists (serial : Nat) (pages : List Address) :
    Effect.Ensures
      (fun driver => Orderly layout driver ∧ Listed driver.blocks serial pages ∧
        ∀ id cmd, driver.commands.commandMap id = some cmd → cmd.serial ≠ serial)
      (freePrpLists serial pages) (fun _ => Orderly layout) (Orderly layout) := by
  induction pages with
  | nil => exact Effect.Ensures.pure fun driver before => before.1
  | cons page rest ih =>
    refine Effect.Ensures.bind ?_ fun _ => ih
    refine ensures_free layout id (le_refl _) ?_ ?_ fun driver before => before.1
    · rintro driver space ⟨-, listed, gone⟩ orderly
      obtain ⟨new, once⟩ := List.nodup_cons.mp listed.once
      refine ⟨orderly, ⟨once, ?_⟩, gone⟩
      intro other inside
      have different : listBlock serial other ≠ listBlock serial page := by
        intro same
        injection same with _ same
        injection same with same
        exact new (same ▸ inside)
      exact (List.mem_erase_of_ne different).mpr (listed.live other (List.mem_cons_of_mem _ inside))
    · rintro driver ⟨orderly, listed, gone⟩
      refine ⟨orderly, listed.live page List.mem_cons_self, ?_, ?_⟩
      · intro used
        cases (orderly.held _ used).2
      intro id cmd entry other _ same
      injection same with same
      injection same with same
      exact gone id cmd entry same

/-- Removing a command gives its list pages back. -/
theorem maintains_removeAsyncCommand (id : Nat) : Maintains layout (removeAsyncCommand id) := by
  refine Effect.Ensures.through (fun entry driver => Orderly layout driver ∧
    driver.commands.commandMap id = entry) (Effect.Ensures.read fun _ orderly => ⟨orderly, rfl⟩) ?_
  intro entry
  refine Effect.Ensures.through (fun _ driver => Orderly layout driver ∧
    ∀ cmd, entry = some cmd → Listed driver.blocks cmd.serial cmd.prpLists ∧
      ∀ other another, driver.commands.commandMap other = some another →
        another.serial ≠ cmd.serial) (Effect.Ensures.modify ?_) ?_
  · rintro driver ⟨orderly, rfl⟩
    have kept : ∀ other another,
        (driver.commands.removeAsyncCommand id).commandMap other = some another →
        driver.commands.commandMap other = some another ∧ other ≠ id := by
      intro other another found
      simp only [CommandTable.removeAsyncCommand, Function.update_apply] at found
      split at found
      · contradiction
      · exact ⟨found, by assumption⟩
    refine ⟨orderly.retabled fun other another found =>
      ⟨another, (kept other another found).1, rfl, rfl⟩, ?_⟩
    intro cmd entry
    refine ⟨(orderly.entries id cmd entry).2, ?_⟩
    intro other another found same
    obtain ⟨there, different⟩ := kept other another found
    exact different (orderly.serials other id another cmd there entry same)
  · intro _
    cases entry with
    | none => exact Effect.Ensures.pure fun driver before => before.1
    | some cmd =>
      refine Effect.Ensures.mapError ?_
      refine (ensures_freePrpLists cmd.serial cmd.prpLists).weaken ?_ (fun _ _ after => after)
        fun _ failed => failed
      rintro driver ⟨orderly, listed⟩
      exact ⟨orderly, listed cmd rfl⟩

/-- Handling a completion. -/
theorem maintains_handleCqe (cqe : Cqe) : Maintains layout (handleCqe cqe) := by
  refine Effect.Ensures.through (fun _ => Orderly layout)
    (Effect.Ensures.read fun _ orderly => orderly) ?_
  intro releaseCmd
  refine Effect.Ensures.through (fun _ => Orderly layout) (Effect.Ensures.modify ?_) ?_
  · intro driver orderly
    refine orderly.retabled ?_
    intro id cmd entry
    unfold CommandTable.handleCqe at entry
    split at entry
    · exact ⟨cmd, entry, rfl, rfl⟩
    · rename_i earlier found
      split at entry
      · exact ⟨cmd, entry, rfl, rfl⟩
      · simp only [Function.update_apply] at entry
        split at entry
        · rename_i same
          obtain rfl := Option.some.inj entry
          exact ⟨earlier, same ▸ found, rfl, rfl⟩
        · exact ⟨cmd, entry, rfl, rfl⟩
  · intro _
    split
    · exact maintains_removeAsyncCommand _
    · exact Effect.Ensures.pure fun _ orderly => orderly

/-! ## Operations on queues -/

/-- Looking up a queue. -/
theorem ensures_queue (index : Nat) :
    Effect.Ensures (Orderly layout) (queue index)
      (fun nvmeq driver => Orderly layout driver ∧ driver.queues[index]? = some nvmeq)
      (Orderly layout) := by
  refine Effect.Ensures.attempt ?_ fun _ orderly => orderly
  intro driver nvmeq after orderly ran
  split at ran
  · contradiction
  · rename_i found
    cases ran
    exact ⟨orderly, found⟩

/-- Members of a queue are assigned. -/
theorem maintains_updateQueue {index : Nat} {change : NVMeQueue → NVMeQueue}
    (ready : ∀ blocks nvmeq, Ready layout blocks index nvmeq →
      Ready layout blocks index (change nvmeq))
    (idle : layout.count ≤ index → ∀ nvmeq, Idle nvmeq → Idle (change nvmeq)) :
    Maintains layout (updateQueue index change) :=
  Effect.Ensures.modify fun _ orderly => orderly.updated (fun _ => ready _) idle

theorem maintains_sendMessage : Maintains layout sendMessage := by
  intro driver orderly
  have kept : ∀ script, Orderly layout { driver with script := script } :=
    fun script => { orderly with }
  unfold sendMessage Effect.run
  dsimp only
  cases driver.script.sends.headD true with
  | false => exact kept _
  | true => exact kept _

theorem maintains_writeRegister (addr value : Nat) : Maintains layout (writeRegister addr value) := by
  refine Effect.Ensures.bind maintains_sendMessage fun _ => ?_
  exact Effect.Ensures.modify fun _ orderly => { orderly with }

/-- Announcing a position through a shadow doorbell in its page, or through the register. -/
theorem ensures_ringDoorbell {shadow register value : Nat} :
    Effect.Ensures
      (fun driver => Orderly layout driver ∧ (shadow ≠ 0 → driver.Covers .doorbells shadow 4))
      (ringDoorbell shadow register value) (fun _ => Orderly layout) (Orderly layout) := by
  unfold ringDoorbell
  split
  · rename_i present
    refine ensures_write.weaken ?_ (fun _ _ after => after) fun _ failed => failed
    rintro driver ⟨orderly, covers⟩
    rw [length_leBytes]
    exact ⟨orderly, covers present⟩
  · exact (maintains_writeRegister register value).weaken (fun _ before => before.1)
      (fun _ _ after => after) fun _ failed => failed

theorem maintains_writeSqDoorbell {index : Nat} (below : index < layout.count)
    (fits : layout.SqFits index) (writeSq : Bool) : Maintains layout (writeSqDoorbell index writeSq) := by
  refine Effect.Ensures.bind (ensures_queue index) fun nvmeq => ?_
  split
  · exact Effect.Ensures.pure fun _ before => before.1
  · refine Effect.Ensures.bind (ensures_ringDoorbell.weaken ?_ (fun _ _ after => after)
      fun _ failed => failed) fun _ => maintains_updateQueue (fun _ _ ready => { ready with })
        fun above => absurd below (Nat.not_lt.mpr above)
    rintro driver ⟨orderly, found⟩
    obtain ⟨same, placed⟩ := (orderly.ready below found).sqDb
    rw [same]
    exact ⟨orderly, orderly.slot placed fits⟩

theorem maintains_ringCqDoorbell {index : Nat} (fits : index < layout.count → layout.CqFits index) :
    Maintains layout (ringCqDoorbell index) := by
  refine Effect.Ensures.bind (ensures_queue index) fun nvmeq => ?_
  refine Effect.Ensures.through (fun _ driver => Orderly layout driver ∧
    driver.queues[index]? = some nvmeq) (Effect.Ensures.read fun _ before => before) fun dbStride => ?_
  refine ensures_ringDoorbell.weaken ?_ (fun _ _ after => after) fun _ failed => failed
  rintro driver ⟨orderly, found⟩
  by_cases below : index < layout.count
  · obtain ⟨same, placed⟩ := (orderly.ready below found).cqDb
    rw [same]
    exact ⟨orderly, orderly.slot placed (fits below)⟩
  · have idle := orderly.unused index nvmeq (Nat.le_of_not_lt below) found
    exact ⟨orderly, fun present => absurd idle.cqDb present⟩

/-- The tail stays on the ring. -/
theorem tail_lt {nvmeq : NVMeQueue} (positive : 0 < nvmeq.depth) (tail : nvmeq.sqTail < nvmeq.depth) :
    nvmeq.nextTail < nvmeq.depth := by
  have small : u16 (nvmeq.sqTail + 1) ≤ nvmeq.sqTail + 1 := Nat.mod_le _ _
  unfold NVMeQueue.nextTail
  split
  · exact positive
  · omega

/-- A command has 64 bytes. -/
theorem length_commandBytes (cmd : NVMeCommand) : cmd.bytes.length = 64 := by
  simp [NVMeCommand.bytes]

/-- A command is put on a ring that has a slot. -/
theorem maintains_submitSqCommand {index : Nat} (below : index < layout.count)
    (positive : 0 < layout.depth index) (fits : layout.SqFits index) (cmd : NVMeCommand)
    (writeSq : Bool) : Maintains layout (submitSqCommand index cmd writeSq) := by
  refine Effect.Ensures.bind (ensures_queue index) fun nvmeq => ?_
  refine Effect.Ensures.through (fun _ => Orderly layout) ?_ fun _ => ?_
  · refine ensures_write.weaken ?_ (fun _ _ after => after) fun _ failed => failed
    rintro driver ⟨orderly, found⟩
    rw [length_commandBytes]
    exact ⟨orderly, orderly.tailSlot below found positive⟩
  · refine Effect.Ensures.through (fun _ => Orderly layout)
      (Effect.Ensures.modify fun _ orderly => { orderly with }) fun _ => ?_
    refine Effect.Ensures.bind (maintains_updateQueue ?_ ?_) fun _ =>
      maintains_writeSqDoorbell below fits writeSq
    · intro blocks nvmeq ready
      exact { ready with tail := fun slots => tail_lt slots (ready.tail slots) }
    · exact fun above => absurd below (Nat.not_lt.mpr above)

theorem maintains_assertHead (index : Nat) : Maintains layout (assertHead index) := by
  refine Effect.Ensures.bind (ensures_queue index) fun nvmeq => ?_
  split
  · exact Effect.Ensures.pure fun _ before => before.1
  · exact Effect.Ensures.fail fun _ before => before.1

/-- The completions that are pending are handled. -/
theorem maintains_handleCqes (index : Nat) (cqes : List Cqe) :
    Maintains layout (handleCqes index cqes) := by
  induction cqes with
  | nil => exact maintains_assertHead index
  | cons cqe rest ih =>
    refine Effect.Ensures.bind (maintains_assertHead index) fun _ => ?_
    refine Effect.Ensures.bind (maintains_handleCqe cqe) fun _ => ?_
    refine Effect.Ensures.bind (maintains_updateQueue ?_ ?_) fun _ => ih
    · intro blocks nvmeq ready
      unfold NVMeQueue.updateCqHead
      split
      · exact { ready with }
      · exact { ready with }
    · intro _ nvmeq idle
      unfold NVMeQueue.updateCqHead
      split
      · exact { idle with }
      · exact { idle with }

theorem maintains_nvmeIrq {index : Nat} {cqes : List Cqe}
    (fits : cqes ≠ [] → index < layout.count → layout.CqFits index) :
    Maintains layout (nvmeIrq index cqes) := by
  refine Effect.Ensures.bind (maintains_handleCqes index cqes) fun _ => ?_
  split
  · rename_i handled
    exact maintains_ringCqDoorbell (fits handled)
  · exact Effect.Ensures.pure fun _ orderly => orderly

/-- A thread waits for the answer to its command. -/
theorem maintains_wait {index : Nat} (fits : layout.CqFits index) (acmd : AsyncCommand) :
    Maintains layout (wait index acmd) := by
  refine Effect.Ensures.through (fun _ => Orderly layout)
    (Effect.Ensures.attempt ?_ fun _ orderly => orderly) fun reply => ?_
  · intro driver reply after orderly ran
    split at ran
    · contradiction
    · cases ran
      exact { orderly with }
  refine Effect.Ensures.bind (maintains_nvmeIrq fun _ _ => fits).mapError fun _ => ?_
  refine Effect.Ensures.through (fun _ => Orderly layout)
    (Effect.Ensures.attempt ?_ fun _ orderly => orderly) fun outcome => ?_
  · intro driver outcome after orderly ran
    split at ran
    · contradiction
    · cases ran
      exact orderly
  refine Effect.Ensures.bind (maintains_removeAsyncCommand acmd.id) fun _ => ?_
  exact Effect.Ensures.pure fun _ orderly => orderly

/-! ## Submissions -/

/-- The buffer of a transfer needs at most one list page. -/
def OneList (buf buflen : Nat) : Prop :=
  NeedsList buf buflen → buf % ctrlPageSize + buflen ≤ 513 * ctrlPageSize

instance (buf buflen : Nat) : Decidable (OneList buf buflen) :=
  inferInstanceAs (Decidable (_ → _))

/-- The entries of one list page. -/
theorem ensures_fill (acmd : AsyncCommand) {fuel prpList i buf buflen : Nat} (some : 0 < buflen)
    (fits : buflen ≤ (512 - i) * ctrlPageSize) :
    Effect.Ensures
      (fun driver => Orderly layout driver ∧ listBlock acmd.serial prpList ∈ driver.blocks)
      (fill acmd fuel prpList i buf buflen) (fun _ => Orderly layout) (Orderly layout) := by
  induction fuel generalizing i buf buflen with
  | zero => exact Effect.Ensures.fail fun _ before => before.1
  | succ fuel ih =>
    unfold ctrlPageSize at fits
    have last : i ≠ ctrlPageSize >>> 3 := by
      unfold ctrlPageSize
      omega
    rw [fill, currentList, if_neg last, pure_bind]
    refine Effect.Ensures.through (fun _ driver => Orderly layout driver ∧
      listBlock acmd.serial prpList ∈ driver.blocks) ?_ fun _ => ?_
    · refine (ensures_write_beside fun blocks => listBlock acmd.serial prpList ∈ blocks).weaken ?_
        (fun _ _ after => after) fun _ failed => failed
      rintro driver ⟨orderly, live⟩
      have bounded := orderly.bounded live
      simp only [listBlock, Extent.stop] at bounded
      have address : u32 (prpList + i * 8) = prpList + i * 8 := u32_of_lt (by omega)
      refine ⟨orderly, ⟨_, live, rfl, ?_, ?_⟩, live⟩
      · rw [address]
        exact Nat.le_add_right _ _
      · simp only [address, listBlock, Extent.stop, length_leBytes]
        omega
    · split
      · exact Effect.Ensures.pure fun _ before => before.1
      · rename_i more
        have more : ¬buflen ≤ 4096 := more
        have left : 0 < buflen - 4096 := by omega
        have fewer : buflen - 4096 ≤ (512 - (i + 1)) * 4096 := by omega
        exact ih left fewer

/-- The buffer of a registered command is described. -/
theorem ensures_setupBuffer (acmd : AsyncCommand) (cmd : NVMeCommand) {buf buflen : Nat}
    (fits : OneList buf buflen) :
    Effect.Ensures
      (fun driver => Orderly layout driver ∧
        ∃ entry, driver.commands.commandMap acmd.id = some entry ∧ entry.serial = acmd.serial)
      (setupBuffer acmd cmd buf buflen) (fun _ => Orderly layout) (Orderly layout) := by
  unfold setupBuffer
  dsimp only
  split
  · rename_i list
    have short : buf % 4096 + buflen ≤ 513 * 4096 := fits list
    have long : 4096 * 2 < buf % 4096 + buflen := Nat.lt_of_lt_of_le list (Nat.mod_le _ _)
    have rest : 0 < buflen - (4096 - buf % 4096) := by omega
    have fewer : buflen - (4096 - buf % 4096) ≤ 512 * 4096 := by omega
    refine Effect.Ensures.through (fun page driver => Orderly layout driver ∧
      listBlock acmd.serial page ∈ driver.blocks ∧
      ∃ entry, driver.commands.commandMap acmd.id = some entry ∧ entry.serial = acmd.serial ∧
        page ∉ entry.prpLists) ?_ fun page => ?_
    · refine ensures_allocatePages layout (by decide) ?_ (fun _ before => before.1)
        fun _ before => before.1
      rintro driver space page ⟨-, entry, found, serial⟩ earlier orderly
      refine ⟨orderly, List.mem_cons_self, entry, found, serial, ?_⟩
      intro inside
      have live := (earlier.entries acmd.id entry found).2.live page inside
      exact orderly.fresh (by decide : 0 < 0x1000) _ live rfl
    refine Effect.Ensures.through (fun _ driver => Orderly layout driver ∧
      listBlock acmd.serial page ∈ driver.blocks) (Effect.Ensures.modify ?_) fun _ => ?_
    · rintro driver ⟨orderly, live, entry, found, serial, new⟩
      refine ⟨orderly.pushed ?_, live⟩
      intro other same
      obtain rfl := Option.some.inj (found.symm.trans same)
      exact ⟨serial ▸ live, new⟩
    exact Effect.Ensures.bind (ensures_fill acmd rest fewer) fun _ =>
      Effect.Ensures.pure fun _ orderly => orderly
  · exact Effect.Ensures.pure fun _ before => before.1

/-- A command is registered. -/
theorem ensures_setupAsyncCommand (callback : Bool) :
    Effect.Ensures (Orderly layout) (setupAsyncCommand callback)
      (fun acmd driver => Orderly layout driver ∧
        ∃ entry, driver.commands.commandMap acmd.id = some entry ∧ entry.serial = acmd.serial)
      (Orderly layout) := by
  refine Effect.Ensures.attempt ?_ fun _ orderly => orderly
  intro driver acmd after orderly ran
  cases ran
  exact ⟨orderly.entered _, _, Function.update_self _ _ _, rfl⟩

theorem ensures_describe (acmd : AsyncCommand) (cmd : NVMeCommand) {buf buflen : Nat}
    (fits : OneList buf buflen) :
    Effect.Ensures
      (fun driver => Orderly layout driver ∧
        ∃ entry, driver.commands.commandMap acmd.id = some entry ∧ entry.serial = acmd.serial)
      (describe acmd cmd buf buflen) (fun _ => Orderly layout) (Orderly layout) := by
  unfold describe
  split
  · exact ensures_setupBuffer acmd cmd fits
  · exact Effect.Ensures.pure fun _ before => before.1

/-- A submission on a queue that has a slot, of a transfer that one list page describes. -/
theorem maintains_submitAsyncCommand {index : Nat} (below : index < layout.count)
    (positive : 0 < layout.depth index) (fits : layout.SqFits index) (cmd : NVMeCommand)
    {buf buflen : Nat} (list : OneList buf buflen) (callback : Bool) :
    Maintains layout (submitAsyncCommand index cmd buf buflen callback) := by
  refine Effect.Ensures.bind (ensures_setupAsyncCommand callback) fun acmd => ?_
  refine Effect.Ensures.bind (ensures_describe acmd _ list) fun described => ?_
  refine Effect.Ensures.bind (maintains_submitSqCommand below positive fits described true) fun _ => ?_
  exact Effect.Ensures.pure fun _ orderly => orderly

theorem maintains_submitSyncCommand {index : Nat} (below : index < layout.count)
    (positive : 0 < layout.depth index) (sqFits : layout.SqFits index) (cqFits : layout.CqFits index)
    (cmd : NVMeCommand) {buf buflen : Nat} (list : OneList buf buflen) :
    Maintains layout (submitSyncCommand index cmd buf buflen) := by
  refine Effect.Ensures.bind (ensures_setupAsyncCommand false) fun acmd => ?_
  refine Effect.Ensures.bind (ensures_describe acmd _ list) fun described => ?_
  refine Effect.Ensures.bind (maintains_submitSqCommand below positive sqFits described true) fun _ => ?_
  refine Effect.Ensures.bind (maintains_wait cqFits acmd) fun reply => ?_
  refine Effect.Ensures.through (fun _ => Orderly layout)
    (Effect.Ensures.modify fun _ orderly => { orderly with }) fun _ => ?_
  exact Effect.Ensures.pure fun _ orderly => orderly

end NVMeDriver

end McmqHost
