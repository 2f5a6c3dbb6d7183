import McmqHost.Driver.Orderly
import McmqHost.Driver.Start

/-!
# Where the driver writes

`start` gives the driver its layout, one queue after the other. From then on, whatever is submitted
and whatever the device answers, every store of the driver lies in a live block that was allocated
for it, as long as the queue has a slot, its shadow doorbells end in their page, and one list page
describes the transfer.
-/

namespace McmqHost

open Extents HoleTable

/-- A driver with some layout. -/
def Tidy (driver : NVMeDriver) : Prop := ∃ layout, Orderly layout driver

/-- One more queue is allocated. -/
def Layout.grow (layout : Layout) (depth : Nat) : Layout :=
  { layout with
    count := layout.count + 1
    depth := Function.update layout.depth layout.count depth
    sqDb := Function.update layout.sqDb layout.count 0
    cqDb := Function.update layout.cqDb layout.count 0 }

/-- A queue is given its shadow doorbells, when there are some. -/
def Layout.shadow (layout : Layout) (index : Nat) : Layout :=
  { layout with
    sqDb := Function.update layout.sqDb index
      (if layout.dbs ≠ 0 ∧ index ≠ 0 then u32 (layout.dbs + index * 8 * layout.stride)
        else layout.sqDb index)
    cqDb := Function.update layout.cqDb index
      (if layout.dbs ≠ 0 ∧ index ≠ 0 then
          u32 (layout.dbs + index * 8 * layout.stride + 4 * layout.stride)
        else layout.cqDb index) }

/-- A number of queues was allocated, and the first of them takes commands without shadow doorbells. -/
structure Layout.Serves (layout : Layout) (count : Nat) : Prop where
  /-- So many queues were allocated. -/
  allocated : layout.count = count
  /-- There is an admin queue. -/
  admin : 0 < count
  /-- It has slots. -/
  depth : 0 < layout.depth 0
  /-- It has no shadow doorbell for submissions. -/
  sqDb : layout.sqDb 0 = 0
  /-- It has none for completions. -/
  cqDb : layout.cqDb 0 = 0

/-- One more queue may be allocated. -/
theorem Layout.Serves.grow {layout : Layout} {count : Nat} (serves : layout.Serves count)
    (depth : Nat) : (layout.grow depth).Serves (count + 1) := by
  have first : 0 ≠ layout.count := Nat.ne_of_lt (serves.allocated ▸ serves.admin)
  exact {
    allocated := congrArg (· + 1) serves.allocated
    admin := Nat.succ_pos _
    depth := by
      rw [show (layout.grow depth).depth 0 = _ from Function.update_of_ne first _ _]
      exact serves.depth
    sqDb := by
      rw [show (layout.grow depth).sqDb 0 = _ from Function.update_of_ne first _ _]
      exact serves.sqDb
    cqDb := by
      rw [show (layout.grow depth).cqDb 0 = _ from Function.update_of_ne first _ _]
      exact serves.cqDb }

/-- Shadow doorbells are not given to the admin queue. -/
theorem Layout.Serves.shadow {layout : Layout} {count : Nat} (serves : layout.Serves count)
    (index : Nat) : (layout.shadow index).Serves count := by
  refine { serves with sqDb := ?_, cqDb := ?_ }
  · simp only [Layout.shadow, Function.update_apply]
    split
    · rename_i same
      rw [if_neg fun shadowed => shadowed.2 same.symm, ← same, serves.sqDb]
    · exact serves.sqDb
  · simp only [Layout.shadow, Function.update_apply]
    split
    · rename_i same
      rw [if_neg fun shadowed => shadowed.2 same.symm, ← same, serves.cqDb]
    · exact serves.cqDb

/-- A driver with a layout of so many queues. -/
def Tended (count : Nat) (driver : NVMeDriver) : Prop :=
  ∃ layout, Orderly layout driver ∧ layout.Serves count

theorem Tended.tidy {count : Nat} {driver : NVMeDriver} (tended : Tended count driver) :
    Tidy driver := by
  obtain ⟨layout, orderly, -⟩ := tended
  exact ⟨layout, orderly⟩

/-- A queue is as ready in a layout that says the same about it. -/
theorem Ready.relaid {layout other : Layout} {blocks : List Block} {index : Nat} {nvmeq : NVMeQueue}
    (ready : Ready layout blocks index nvmeq) (dbs : other.dbs = layout.dbs)
    (stride : other.stride = layout.stride) (depth : other.depth index = layout.depth index)
    (sqDb : other.sqDb index = layout.sqDb index) (cqDb : other.cqDb index = layout.cqDb index) :
    Ready other blocks index nvmeq where
  depth := by rw [depth, ready.depth]
  sq := ready.sq
  cq := ready.cq
  shift := ready.shift
  tail := ready.tail
  qDb := by rw [stride, ready.qDb]
  sqDb := by
    unfold Layout.Placed
    rw [sqDb, dbs, stride]
    exact ready.sqDb
  cqDb := by
    unfold Layout.Placed
    rw [cqDb, dbs, stride]
    exact ready.cqDb

namespace Orderly

variable {layout : Layout} {driver : NVMeDriver}

/-- The next queue is allocated once it is ready. -/
theorem grown (orderly : Orderly layout driver) {nvmeq : NVMeQueue} {depth : Nat}
    (strided : 0 < layout.stride) (found : driver.queues[layout.count]? = some nvmeq)
    (ready : Ready (layout.grow depth) driver.blocks layout.count nvmeq) :
    Orderly (layout.grow depth) { driver with queueCount := driver.queueCount + 1 } := by
  exact {
    housed := orderly.housed
    dbs := orderly.dbs
    stride := orderly.stride
    strided := fun _ => strided
    count := congrArg (· + 1) orderly.count
    page := orderly.page
    allocated := by
      intro index below
      rcases Nat.lt_succ_iff_lt_or_eq.mp below with earlier | rfl
      · obtain ⟨other, held, kept⟩ := orderly.allocated index earlier
        have different := Nat.ne_of_lt earlier
        exact ⟨other, held, kept.relaid rfl rfl (Function.update_of_ne different _ _)
          (Function.update_of_ne different _ _) (Function.update_of_ne different _ _)⟩
      · exact ⟨nvmeq, found, ready⟩
    held := orderly.held
    negotiated := orderly.negotiated
    unused := fun index other above =>
      orderly.unused index other (Nat.le_of_succ_le above)
    entries := orderly.entries
    serials := orderly.serials
    stores := orderly.stores }

/-- A queue is initialised. -/
theorem shadowed (orderly : Orderly layout driver) {index : Nat} (below : index < layout.count) :
    Orderly (layout.shadow index) { driver with
      queues := driver.queues.modify index fun nvmeq =>
        nvmeq.restart index layout.stride layout.dbs } := by
  exact {
    housed := orderly.housed
    dbs := orderly.dbs
    stride := orderly.stride
    strided := orderly.strided
    count := orderly.count
    page := orderly.page
    allocated := by
      intro other inside
      obtain ⟨nvmeq, found, ready⟩ := orderly.allocated other inside
      by_cases same : index = other
      · subst same
        refine ⟨nvmeq.restart index layout.stride layout.dbs, by simp [found], ?_⟩
        exact {
          depth := ready.depth
          sq := ready.sq
          cq := ready.cq
          shift := ready.shift
          tail := id
          qDb := rfl
          sqDb := by
            simp only [NVMeQueue.restart, Layout.shadow, Function.update_self, ready.sqDb.1, true_and]
            split
            · rename_i shadowed
              exact .inr ⟨shadowed.1, rfl⟩
            · exact ready.sqDb.2
          cqDb := by
            simp only [NVMeQueue.restart, Layout.shadow, Function.update_self, ready.cqDb.1, true_and]
            split
            · rename_i shadowed
              exact .inr ⟨shadowed.1, by rw [Nat.add_assoc]⟩
            · exact ready.cqDb.2 }
      · have different : other ≠ index := fun equal => same equal.symm
        refine ⟨nvmeq, by simp [same, found], ready.relaid rfl rfl rfl ?_ ?_⟩
        · exact Function.update_of_ne different _ _
        · exact Function.update_of_ne different _ _
    held := orderly.held
    negotiated := orderly.negotiated
    unused := by
      intro other nvmeq above found
      have different : index ≠ other := Nat.ne_of_lt (Nat.lt_of_lt_of_le below above)
      simp only [List.getElem?_modify, different, ↓reduceIte, Option.map_eq_map, Option.map_id'] at found
      exact orderly.unused other nvmeq above found
    entries := orderly.entries
    serials := orderly.serials
    stores := orderly.stores }

/-- Buffers need not be held. -/
theorem forget (orderly : Orderly layout driver) {held : List Block} (fewer : held ⊆ layout.held) :
    Orderly { layout with held := held } driver :=
  { orderly with
    allocated := by
      intro index below
      obtain ⟨nvmeq, found, ready⟩ := orderly.allocated index below
      exact ⟨nvmeq, found, ready.relaid rfl rfl rfl rfl rfl⟩
    held := fun other kept => orderly.held other (fewer kept) }

/-- A new buffer may be held. -/
theorem hold {space : MemorySpace} {extent : Extent}
    (orderly : Orderly layout (driver.take space ⟨.buffer, extent⟩)) :
    Orderly { layout with held := ⟨.buffer, extent⟩ :: layout.held }
      (driver.take space ⟨.buffer, extent⟩) :=
  { orderly with
    allocated := by
      intro index below
      obtain ⟨nvmeq, found, ready⟩ := orderly.allocated index below
      exact ⟨nvmeq, found, ready.relaid rfl rfl rfl rfl rfl⟩
    held := by
      intro other kept
      rcases List.mem_cons.mp kept with rfl | kept
      · exact ⟨List.mem_cons_self, rfl⟩
      · exact orderly.held other kept }

end Orderly

/-- What keeps a layout leaves the driver tidy. -/
theorem Maintains.tidy {Value : Type} {layout : Layout} {drive : Drive Value}
    (maintains : Maintains layout drive) :
    Effect.Ensures (Orderly layout) drive (fun _ => Orderly layout) Tidy :=
  maintains.weaken (fun _ before => before) (fun _ _ after => after) fun _ failed => ⟨layout, failed⟩

namespace NVMeDriver

variable {Value : Type} {layout : Layout}

/-! ## Queues -/

/-- A driver that allocates its next queue. -/
def Allocating (layout : Layout) (Context : List Block → Prop) (driver : NVMeDriver) : Prop :=
  Orderly layout driver ∧ (∃ nvmeq, driver.queues[layout.count]? = some nvmeq) ∧ Context driver.blocks

/-- Members of the queue that is being allocated are assigned. -/
theorem ensures_place {Context : List Block → Prop} {change : NVMeQueue → NVMeQueue}
    (idle : ∀ nvmeq, Idle nvmeq → Idle (change nvmeq)) :
    Effect.Ensures (Allocating layout Context) (updateQueue layout.count change)
      (fun _ driver => Allocating layout Context driver ∧
        ∃ nvmeq, Idle nvmeq ∧ driver.queues[layout.count]? = some (change nvmeq)) Tidy := by
  refine Effect.Ensures.modify ?_
  rintro driver ⟨orderly, ⟨nvmeq, found⟩, context⟩
  have changed : (driver.queues.modify layout.count change)[layout.count]? = some (change nvmeq) := by
    simp [found]
  exact ⟨⟨orderly.updated (fun below => absurd below (Nat.lt_irrefl _)) fun _ => idle,
    ⟨_, changed⟩, context⟩, nvmeq, orderly.unused _ nvmeq (le_refl _) found, changed⟩

/-- Memory for the queue that is being allocated. -/
theorem ensures_room {Context : List Block → Prop} {purpose : Purpose} {len : Nat}
    (fits : len < 2 ^ 36) (more : ∀ block blocks, Context blocks → Context (block :: blocks)) :
    Effect.Ensures (Allocating layout Context) (allocatePages purpose len)
      (fun address => Allocating layout fun blocks => Context blocks ∧
        ∃ room, ⟨purpose, ⟨address, room⟩⟩ ∈ blocks ∧ len ≤ room) Tidy := by
  refine ensures_allocatePages layout (by omega) ?_ (fun _ before => before.1)
    fun _ before => ⟨layout, before.1⟩
  rintro driver space address ⟨-, present, context⟩ - orderly
  obtain ⟨count, rounded, atLeast, -⟩ := roundupPage_spec (show len + 0x1000 ≤ 2 ^ 64 by omega)
  refine ⟨orderly, present, more _ _ context, _, List.mem_cons_self, ?_⟩
  rw [rounded]
  exact atLeast

/-- A depth that the driver gives its queues. -/
def Depth (depth : Nat) : Prop := depth ≤ 2 ^ 16 ∨ 2 ^ 31 ≤ depth ∧ depth < 2 ^ 32

/-- A placed queue with its memory is ready. -/
theorem ready_place {driver : NVMeDriver} (orderly : Orderly layout driver) {nvmeq : NVMeQueue}
    (idle : Idle nvmeq) {depth sq cq : Nat} (sized : Depth depth)
    (sqRoom : ∃ room, ⟨.submissionQueue layout.count, ⟨sq, room⟩⟩ ∈ driver.blocks ∧
      u32 (depth <<< nvmeSqes) ≤ room)
    (cqRoom : ∃ room, ⟨.completionQueue layout.count, ⟨cq, room⟩⟩ ∈ driver.blocks ∧
      depth * cqeSize ≤ room) :
    Ready (layout.grow depth) driver.blocks layout.count
      (nvmeq.place layout.count depth layout.stride sq cq) := by
  obtain ⟨sqLen, sqLive, sqFits⟩ := sqRoom
  obtain ⟨cqLen, cqLive, cqFits⟩ := cqRoom
  -- a completion queue of 2^31 entries or more does not fit the address space
  have bounded := orderly.bounded cqLive
  have narrow : depth ≤ 2 ^ 16 := by
    unfold Depth at sized
    unfold cqeSize at cqFits
    simp only [Extent.stop] at bounded
    omega
  have bytes : u32 (depth <<< nvmeSqes) = depth * 64 := by
    rw [Nat.shiftLeft_eq]
    exact u32_of_lt (by unfold nvmeSqes; omega)
  exact {
    depth := by
      rw [show (layout.grow depth).depth layout.count = depth from Function.update_self _ _ _]
      rfl
    sq := ⟨sqLen, sqLive, bytes ▸ sqFits⟩
    cq := ⟨cqLen, cqLive, cqFits⟩
    shift := rfl
    tail := fun positive => idle.tail ▸ positive
    qDb := rfl
    sqDb := by
      rw [show (layout.grow depth).sqDb layout.count = 0 from Function.update_self _ _ _]
      exact ⟨idle.sqDb, .inl rfl⟩
    cqDb := by
      rw [show (layout.grow depth).cqDb layout.count = 0 from Function.update_self _ _ _]
      exact ⟨idle.cqDb, .inl rfl⟩ }

/-- **Allocating** the next queue adds it to the layout. -/
theorem ensures_allocateQueue (layout : Layout) {depth : Nat} (strided : 0 < layout.stride) (sized : Depth depth) :
    Effect.Ensures (Orderly layout) (allocateQueue layout.count depth)
      (fun _ => Orderly (layout.grow depth)) Tidy := by
  have sqSize : u32 (depth <<< nvmeSqes) < 2 ^ 36 := Nat.lt_trans (Nat.mod_lt _ (by decide)) (by decide)
  have cqSize : depth * cqeSize < 2 ^ 36 := by
    unfold Depth at sized
    unfold cqeSize
    omega
  have assigned : ∀ {Context : List Block → Prop} {change : NVMeQueue → NVMeQueue},
      (∀ nvmeq, Idle nvmeq → Idle (change nvmeq)) →
      Effect.Ensures (Allocating layout Context) (updateQueue layout.count change)
        (fun _ => Allocating layout Context) Tidy :=
    fun idle => (ensures_place idle).weaken (fun _ before => before) (fun _ _ after => after.1)
      fun _ failed => failed
  refine Effect.Ensures.bind ((ensures_queue layout.count).weaken (fun _ before => before)
    (fun _ _ after => after) fun driver failed => ⟨layout, failed⟩) fun nvmeq => ?_
  refine Effect.Ensures.through (fun dbStride driver =>
    Allocating layout (fun _ => True) driver ∧ dbStride = layout.stride)
    (Effect.Ensures.read fun _ before => ⟨⟨before.1, ⟨nvmeq, before.2⟩, trivial⟩, before.1.stride⟩) ?_
  refine fun dbStride => .given ?_
  rintro rfl
  refine Effect.Ensures.bind (assigned fun _ idle => { idle with }) fun _ => ?_
  refine Effect.Ensures.bind (ensures_room sqSize fun _ _ _ => trivial) fun sq => ?_
  refine Effect.Ensures.bind (assigned fun _ idle => { idle with }) fun _ => ?_
  refine Effect.Ensures.bind (ensures_room cqSize ?_) fun cq => ?_
  · rintro block blocks ⟨-, room, live, enough⟩
    exact ⟨trivial, room, List.mem_cons_of_mem _ live, enough⟩
  refine Effect.Ensures.bind (ensures_place fun _ idle => { idle with }) fun _ => ?_
  refine Effect.Ensures.modify ?_
  rintro driver ⟨⟨orderly, -, ⟨-, sqRoom⟩, cqRoom⟩, nvmeq, idle, found⟩
  exact orderly.grown strided found (ready_place orderly idle sized sqRoom cqRoom)

/-- **Initialising** an allocated queue gives it its shadow doorbells. -/
theorem ensures_initQueue {index : Nat} (below : index < layout.count) :
    Effect.Ensures (Orderly layout) (initQueue index) (fun _ => Orderly (layout.shadow index)) Tidy := by
  refine Effect.Ensures.bind ((ensures_queue index).weaken (fun _ before => before)
    (fun _ _ after => after) fun driver failed => ⟨layout, failed⟩) fun nvmeq => ?_
  refine Effect.Ensures.through (fun dbStride driver => (Orderly layout driver ∧
    driver.queues[index]? = some nvmeq) ∧ dbStride = layout.stride)
    (Effect.Ensures.read fun _ before => ⟨before, before.1.stride⟩) ?_
  refine fun dbStride => .given ?_
  rintro rfl
  refine Effect.Ensures.through (fun dbbufDbs driver => (Orderly layout driver ∧
    driver.queues[index]? = some nvmeq) ∧ dbbufDbs = layout.dbs)
    (Effect.Ensures.read fun _ before => ⟨before, before.1.dbs⟩) ?_
  refine fun dbbufDbs => .given ?_
  rintro rfl
  refine Effect.Ensures.through (fun _ driver => Orderly (layout.shadow index) driver ∧
    driver.Covers (.completionQueue index) nvmeq.cqDmaAddr (nvmeq.depth * cqeSize))
    (Effect.Ensures.modify ?_) fun _ => ?_
  · rintro driver ⟨orderly, found⟩
    obtain ⟨len, live, room⟩ := (orderly.ready below found).cq
    exact ⟨orderly.shadowed below, _, live, rfl, le_refl _, Nat.add_le_add_left room _⟩
  · refine Effect.Ensures.bind (ensures_memset.weaken (fun _ before => before)
      (fun _ _ after => after) fun driver failed => ⟨_, failed⟩) fun _ => ?_
    exact Effect.Ensures.modify fun _ orderly => { orderly with }

/-! ## The controller -/

theorem maintains_readCap : Maintains layout readCap :=
  Effect.Ensures.bind maintains_sendMessage fun _ => Effect.Ensures.read fun _ orderly => orderly

theorem maintains_readCsts : Maintains layout readCsts := by
  refine Effect.Ensures.bind maintains_sendMessage fun _ => ?_
  refine Effect.Ensures.attempt ?_ fun _ orderly => orderly
  intro driver csts after orderly ran
  split at ran
  · contradiction
  · cases ran
    exact { orderly with }

theorem maintains_pollReady (bit fuel : Nat) : Maintains layout (pollReady bit fuel) := by
  induction fuel with
  | zero => exact Effect.Ensures.fail fun _ orderly => orderly
  | succ fuel ih =>
    refine Effect.Ensures.bind maintains_readCsts fun csts => ?_
    split
    · exact Effect.Ensures.fail fun _ orderly => orderly
    · split
      · exact Effect.Ensures.pure fun _ orderly => orderly
      · exact ih

theorem maintains_waitReady (enabled : Bool) : Maintains layout (waitReady enabled) :=
  Effect.Ensures.through (fun _ => Orderly layout) (Effect.Ensures.read fun _ orderly => orderly)
    fun _ => maintains_pollReady _ _

theorem maintains_disableController : Maintains layout disableController := by
  refine Effect.Ensures.through (fun _ => Orderly layout)
    (Effect.Ensures.modify fun _ orderly => { orderly with }) fun _ => ?_
  refine Effect.Ensures.through (fun _ => Orderly layout)
    (Effect.Ensures.read fun _ orderly => orderly) fun ctrlConfig => ?_
  exact Effect.Ensures.bind (maintains_writeRegister _ _) fun _ => maintains_waitReady false

theorem maintains_enableController : Maintains layout enableController := by
  refine Effect.Ensures.bind maintains_readCap fun cap => ?_
  refine Effect.Ensures.through (fun _ => Orderly layout)
    (Effect.Ensures.modify fun _ orderly => { orderly with }) fun _ => ?_
  split
  · exact Effect.Ensures.fail fun _ orderly => orderly
  · refine Effect.Ensures.through (fun _ => Orderly layout)
      (Effect.Ensures.modify fun _ orderly => { orderly with }) fun _ => ?_
    exact Effect.Ensures.bind (maintains_writeRegister _ _) fun _ => maintains_waitReady true

/-! ## The admin queue -/

/-- Synchronous commands on an admin queue, of transfers that one list page describes. -/
theorem maintains_admin {count : Nat} (serves : layout.Serves count) (cmd : NVMeCommand)
    {buf buflen : Nat} (list : OneList buf buflen) :
    Maintains layout (submitSyncCommand 0 cmd buf buflen) :=
  maintains_submitSyncCommand (serves.allocated ▸ serves.admin) serves.depth
    (fun present => absurd serves.sqDb present) (fun present => absurd serves.cqDb present) cmd list

/-- What maintains every layout with so many queues. -/
theorem ensures_tended {count : Nat} {drive : Drive Value}
    (each : ∀ layout, layout.Serves count → Maintains layout drive) :
    Effect.Ensures (Tended count) drive (fun _ => Tended count) Tidy := by
  refine Effect.Ensures.fix ?_
  rintro driver ⟨layout, orderly, serves⟩
  exact (each layout serves).weaken (fun _ same => same ▸ orderly)
    (fun _ _ after => ⟨layout, after, serves⟩) fun _ failed => ⟨layout, failed⟩

/-- A command without data. -/
theorem tended_command {count : Nat} (cmd : NVMeCommand) :
    Effect.Ensures (Tended count) (submitSyncCommand 0 cmd 0 0) (fun _ => Tended count) Tidy :=
  ensures_tended fun _ serves => maintains_admin serves cmd fun list => absurd list (by decide)

/-- Setting up the admin queue of a driver that has none. -/
theorem ensures_setupAdminQueue (layout : Layout) (fresh : layout.count = 0) (strided : 0 < layout.stride) :
    Effect.Ensures (Orderly layout) setupAdminQueue (fun _ => Tended 1) Tidy := by
  have serves : (layout.grow 32).Serves 1 := {
    allocated := congrArg (· + 1) fresh
    admin := Nat.one_pos
    depth := by
      simp [Layout.grow, fresh]
    sqDb := by
      simp [Layout.grow, fresh]
    cqDb := by
      simp [Layout.grow, fresh] }
  refine Effect.Ensures.bind maintains_disableController.tidy fun _ => ?_
  have admin : Depth 32 := .inl (by decide)
  have allocated := ensures_allocateQueue layout strided admin
  rw [fresh] at allocated
  refine Effect.Ensures.bind allocated fun _ => ?_
  refine Effect.Ensures.through (fun _ => Orderly (layout.grow 32)) ?_ fun nvmeq => ?_
  · exact (ensures_queue 0).weaken (fun _ before => before) (fun _ _ after => after.1)
      fun _ failed => ⟨_, failed⟩
  refine Effect.Ensures.bind (maintains_writeRegister _ _).tidy fun _ => ?_
  refine Effect.Ensures.bind (maintains_writeRegister _ _).tidy fun _ => ?_
  refine Effect.Ensures.bind (maintains_writeRegister _ _).tidy fun _ => ?_
  refine Effect.Ensures.bind maintains_enableController.tidy fun _ => ?_
  exact (ensures_initQueue (serves.allocated ▸ serves.admin)).weaken (fun _ before => before)
    (fun _ _ after => ⟨_, after, serves.shadow 0⟩) fun _ failed => failed

/-- A buffer that is taken for one command is live until it is given back. -/
theorem tended_exchange {count len : Nat} (cmd : NVMeCommand) (fits : len < 2 ^ 64)
    (whole : roundupPage len = len) (nonempty : 0 < len) (list : ∀ buf, OneList buf len) :
    Effect.Ensures (Tended count)
      (allocatePages .buffer len >>= fun buf => submitSyncCommand 0 cmd buf len >>= fun reply =>
        free ⟨.buffer, ⟨buf, len⟩⟩ len >>= fun _ => pure reply.status)
      (fun _ => Tended count) Tidy := by
  refine Effect.Ensures.fix ?_
  rintro driver ⟨layout, orderly, serves⟩
  refine Effect.Ensures.through (fun buf driver => Orderly
      { layout with held := ⟨.buffer, ⟨buf, len⟩⟩ :: layout.held } driver ∧
    ⟨.buffer, ⟨buf, len⟩⟩ ∉ layout.held) ?_ fun buf => .given fun new => ?_
  · refine ensures_allocatePages layout fits ?_ (fun _ same => same ▸ orderly)
      fun _ same => ⟨layout, same ▸ orderly⟩
    rw [whole]
    intro before space address _ earlier taken
    refine ⟨taken.hold, fun used => ?_⟩
    exact taken.fresh nonempty _ (earlier.held _ used).1 rfl
  · have kept : ({ layout with held := ⟨.buffer, ⟨buf, len⟩⟩ :: layout.held } : Layout).Serves count :=
      { serves with }
    refine Effect.Ensures.bind (maintains_admin kept cmd (list buf)).tidy fun reply => ?_
    refine Effect.Ensures.through (fun _ => Orderly layout) ?_ fun _ =>
      Effect.Ensures.pure fun _ after => ⟨layout, after, serves⟩
    refine ensures_free layout id (le_refl _) (fun _ _ _ after => after) ?_
      fun _ before => ⟨_, before⟩
    intro before held
    refine ⟨held.forget (List.subset_cons_self _ _), (held.held _ List.mem_cons_self).1, new, ?_⟩
    rintro id cmd - page - same
    cases same

/-- No page needs more than one list page. -/
theorem oneList_page (buf : Nat) : OneList buf 4096 := by
  have offset : buf % 4096 < 4096 := Nat.mod_lt buf (by decide)
  have short : buf % 4096 + 4096 ≤ 513 * 4096 := by omega
  exact fun _ => short

/-- The page of the identification is live until it is given back. -/
theorem tended_identifyController {count : Nat} :
    Effect.Ensures (Tended count) identifyController (fun _ => Tended count) Tidy :=
  tended_exchange { NVMeCommand.blank 0x06 with cdw10 := 1 } (by decide) rfl (by decide) oneList_page

/-! ## The I/O queues -/

/-- The loop that allocates the I/O queues. -/
theorem tended_allocateQueues {depth : Nat} (sized : Depth depth) (first count : Nat) :
    Effect.Ensures (Tended first) (allocateQueues depth first count)
      (fun _ => Tended (first + count)) Tidy := by
  induction count generalizing first with
  | zero => exact Effect.Ensures.pure fun _ before => before
  | succ count ih =>
    refine Effect.Ensures.through (fun _ => Tended (first + 1)) ?_ fun _ => ?_
    · refine Effect.Ensures.fix ?_
      rintro driver ⟨layout, orderly, serves⟩
      have strided := orderly.strided (serves.allocated ▸ serves.admin)
      have allocated := ensures_allocateQueue layout strided sized
      rw [serves.allocated] at allocated
      exact allocated.weaken (fun _ same => same ▸ orderly)
        (fun _ _ after => ⟨_, after, serves.grow depth⟩) fun _ failed => failed
    · rw [← Nat.add_assoc, Nat.add_right_comm]
      exact ih (first + 1)

/-- Creating an allocated queue. -/
theorem tended_createQueue {count index : Nat} (below : index < count) :
    Effect.Ensures (Tended count) (createQueue index) (fun _ => Tended count) Tidy := by
  have found : ∀ {Value : Type} {next : NVMeQueue → Drive Value},
      (∀ nvmeq, Effect.Ensures (Tended count) (next nvmeq) (fun _ => Tended count) Tidy) →
      Effect.Ensures (Tended count) (queue index >>= next) (fun _ => Tended count) Tidy := by
    intro Value next each
    refine Effect.Ensures.bind (ensures_tended fun layout _ => ?_) each
    exact (ensures_queue index).weaken (fun _ before => before) (fun _ _ after => after.1)
      fun _ failed => failed
  have sent : ∀ cmd, Effect.Ensures (Tended count)
      (submitSyncCommand 0 cmd 0 0 >>= fun reply => pure reply.status)
      (fun _ => Tended count) Tidy :=
    fun cmd => Effect.Ensures.bind (tended_command cmd) fun _ =>
      Effect.Ensures.pure fun _ after => after
  refine Effect.Ensures.bind (found fun nvmeq => sent _) fun status => ?_
  split
  · exact Effect.Ensures.pure fun _ after => after
  · refine Effect.Ensures.bind (found fun nvmeq => sent _) fun status => ?_
    split
    · exact Effect.Ensures.pure fun _ after => after
    · refine Effect.Ensures.through (fun _ => Tended count) ?_ fun _ =>
        Effect.Ensures.pure fun _ after => after
      refine Effect.Ensures.fix ?_
      rintro driver ⟨layout, orderly, serves⟩
      exact (ensures_initQueue (serves.allocated ▸ below)).weaken (fun _ same => same ▸ orderly)
        (fun _ _ after => ⟨_, after, serves.shadow index⟩) fun _ failed => failed

/-- The loop that creates the I/O queues. -/
theorem tended_createQueues {count : Nat} (first more : Nat) (below : first + more ≤ count ∨ more = 0) :
    Effect.Ensures (Tended count) (createQueues first more) (fun _ => Tended count) Tidy := by
  induction more generalizing first with
  | zero => exact Effect.Ensures.pure fun _ before => before
  | succ more ih =>
    refine Effect.Ensures.bind (tended_createQueue (by omega)) fun status => ?_
    split
    · exact Effect.Ensures.pure fun _ after => after
    · exact ih (first + 1) (by omega)

/-- Setting up the I/O queues, however many are granted. -/
theorem tended_setupIoQueues :
    Effect.Ensures (Tended 1) setupIoQueues (fun _ driver => ∃ count, Tended count driver) Tidy := by
  refine Effect.Ensures.through (fun _ => Tended 1) (Effect.Ensures.read fun _ before => before) ?_
  intro size
  refine Effect.Ensures.through (fun _ => Tended 1) ?_ fun nrIoQueues => ?_
  · exact Effect.Ensures.bind (tended_command _) fun _ => Effect.Ensures.pure fun _ after => after
  split
  · exact Effect.Ensures.fail fun _ before => before.tidy
  refine Effect.Ensures.through (fun queueCount driver => Tended 1 driver ∧ queueCount = 1) ?_ ?_
  · refine Effect.Ensures.read ?_
    rintro driver ⟨layout, orderly, serves⟩
    exact ⟨⟨layout, orderly, serves⟩, orderly.count.trans serves.allocated⟩
  refine fun queueCount => .given ?_
  rintro rfl
  refine Effect.Ensures.through (fun queueDepth driver => Tended 1 driver ∧
    Depth (queueDepth % 2 ^ 32).toNat) ?_ fun queueDepth => .given fun sized => ?_
  · refine Effect.Ensures.read ?_
    rintro driver ⟨layout, orderly, serves⟩
    have negotiated := orderly.negotiated
    refine ⟨⟨layout, orderly, serves⟩, ?_⟩
    unfold Depth
    omega
  refine Effect.Ensures.bind (tended_allocateQueues sized 1 _) fun _ => ?_
  refine Effect.Ensures.through (fun allocated driver =>
    Tended (1 + (nrIoQueues - 1 + 1).toNat) driver ∧ allocated = 1 + (nrIoQueues - 1 + 1).toNat) ?_ ?_
  · refine Effect.Ensures.read ?_
    rintro driver ⟨layout, orderly, serves⟩
    exact ⟨⟨layout, orderly, serves⟩, orderly.count.trans serves.allocated⟩
  refine fun allocated => .given ?_
  rintro rfl
  refine Effect.Ensures.through (fun _ => Tended _) (Effect.Ensures.read fun _ before => before) ?_
  intro onlineQueues
  exact (tended_createQueues _ _ (by omega)).weaken (fun _ before => before)
    (fun _ _ after => ⟨_, after⟩) fun _ failed => failed

theorem tended_configDoorbells {count : Nat} :
    Effect.Ensures (Tended count) configDoorbells (fun _ => Tended count) Tidy := by
  refine Effect.Ensures.through (fun _ => Tended count) (Effect.Ensures.read fun _ before => before) ?_
  intro dbbufDbs
  split
  · refine Effect.Ensures.through (fun _ => Tended count)
      (Effect.Ensures.read fun _ before => before) fun _ => ?_
    refine Effect.Ensures.bind (tended_command _) fun reply => ?_
    split
    · exact Effect.Ensures.fail fun _ before => before.tidy
    · exact Effect.Ensures.pure fun _ before => before
  · exact Effect.Ensures.pure fun _ before => before

/-! ## Start -/

theorem ensures_reset (fresh : layout.count = 0) :
    Effect.Ensures (Orderly layout) reset (fun _ => Tidy) Tidy := by
  refine Effect.Ensures.bind maintains_readCap.tidy fun cap => ?_
  have strided : 0 < 1 <<< ((cap >>> 32) % 16) := by
    rw [Nat.one_shiftLeft]
    exact Nat.two_pow_pos _
  refine Effect.Ensures.through
    (fun _ => Orderly { layout with stride := 1 <<< ((cap >>> 32) % 16) }) ?_ fun _ => ?_
  · refine Effect.Ensures.modify fun driver orderly => ?_
    exact { orderly with
      stride := rfl
      strided := fun _ => strided
      allocated := fun index below => absurd below (by rw [fresh]; exact Nat.not_lt_zero index)
      negotiated := by
        unfold negotiatedDepth toInt
        simp only
        split <;> omega }
  refine Effect.Ensures.bind
    (ensures_setupAdminQueue { layout with stride := 1 <<< ((cap >>> 32) % 16) } fresh strided) ?_
  intro _
  refine Effect.Ensures.bind tended_identifyController fun _ => ?_
  refine Effect.Ensures.bind tended_setupIoQueues fun _ => ?_
  refine Effect.Ensures.fix ?_
  rintro driver ⟨count, tended⟩
  exact tended_configDoorbells.weaken (fun _ same => same ▸ tended) (fun _ _ after => after.tidy)
    fun _ failed => failed

/-- **Starting** a driver without queues. -/
theorem ensures_start (fresh : layout.count = 0) :
    Effect.Ensures (Orderly layout) start (fun _ => Tidy) Tidy := by
  refine Effect.Ensures.bind maintains_sendMessage.tidy fun _ => ?_
  refine Effect.Ensures.through (fun _ => Orderly layout)
    (Effect.Ensures.read fun _ orderly => orderly) fun ready => ?_
  split
  · refine Effect.Ensures.through (fun _ => Orderly layout) ?_ fun _ => ensures_reset fresh
    refine Effect.Ensures.modify fun driver orderly => ?_
    exact { orderly with
      allocated := fun index below => absurd below (by rw [fresh]; exact Nat.not_lt_zero index)
      unused := by
        intro index nvmeq above found
        rw [List.getElem?_append] at found
        split at found
        · exact orderly.unused index nvmeq above found
        · obtain rfl := List.eq_of_mem_replicate (List.mem_of_getElem? found)
          exact ⟨rfl, rfl, rfl⟩ }
  · exact Effect.Ensures.fail fun _ orderly => ⟨layout, orderly⟩

/-! ## Construction -/

/-- The layout of a driver that has nothing yet. -/
def bare {low high : Nat} (region : Region low high) (origin : MemorySpace) : Layout where
  low := low
  high := high
  region := region
  origin := origin
  dbs := 0
  stride := 0
  count := 0
  depth := fun _ => 0
  sqDb := fun _ => 0
  cqDb := fun _ => 0
  held := []

/-- The members before the constructor's body are in order. -/
theorem orderly_blank {base len : Nat} (region : Region base (base + len)) {space : MemorySpace}
    (released : HoleTable.init.free base len = .ok space.table)
    (ncpus ioQueueDepth commandIdCounter ctrlConfig : Nat) (script : Script) :
    Orderly (bare region space) (blank ncpus ioQueueDepth space commandIdCounter ctrlConfig script) where
  housed := Tenancy.Sound.construct region released
  dbs := rfl
  stride := rfl
  strided := fun some => absurd some (Nat.lt_irrefl 0)
  count := rfl
  page := fun shadowed => absurd rfl shadowed
  allocated := fun index below => absurd below (Nat.not_lt_zero index)
  held := by simp [bare]
  negotiated := by simp [blank]
  unused := by simp [blank]
  entries := by simp [blank]
  serials := by simp [blank]
  stores := by simp [blank]

/-- A constructed driver has no queues. -/
theorem ensures_construct (useDbbuf : Bool) (fresh : layout.count = 0) :
    Effect.Ensures (Orderly layout) (construct useDbbuf)
      (fun _ driver => ∃ layout, Orderly layout driver ∧ layout.count = 0) Tidy := by
  unfold construct
  split
  · refine Effect.Ensures.through (fun dbs driver => Orderly layout driver ∧
      ⟨.doorbells, ⟨dbs, 0x1000⟩⟩ ∈ driver.blocks) (ensures_call ?_ ?_) fun dbs => ?_
    · intro driver dbs after orderly ran
      obtain ⟨⟨address, space⟩, gave, ran⟩ := McmqHost.bind_ok.mp ran
      cases ran
      exact ⟨orderly.taken (by decide) gave _, List.mem_cons_self⟩
    · exact fun _ orderly => ⟨layout, orderly⟩
    refine Effect.Ensures.through (fun _ driver => Orderly { layout with dbs := dbs } driver ∧
      driver.Covers .doorbells dbs 0x1000) (Effect.Ensures.modify ?_) fun _ => ?_
    · rintro driver ⟨orderly, live⟩
      refine ⟨{ orderly with
        dbs := rfl
        page := fun _ => live
        allocated := fun index below => absurd below (by rw [fresh]; exact Nat.not_lt_zero index) }, ?_⟩
      exact ⟨_, live, rfl, le_refl _, le_refl _⟩
    · exact ensures_memset.weaken (fun _ before => before)
        (fun _ _ after => ⟨{ layout with dbs := dbs }, after, fresh⟩) fun _ failed => ⟨_, failed⟩
  · exact Effect.Ensures.pure fun _ orderly => ⟨layout, orderly, fresh⟩

/-! ## Runs -/

/-- What happens to a driver. -/
inductive Event
  /-- `start`. -/
  | start
  /-- `submit_sync_command`. -/
  | submitSync (index : Nat) (cmd : NVMeCommand) (buf buflen : Nat)
  /-- `submit_async_command`. -/
  | submitAsync (index : Nat) (cmd : NVMeCommand) (buf buflen : Nat) (callback : Bool)
  /-- `nvme_irq`, when these completions are pending. -/
  | interrupt (index : Nat) (cqes : List Cqe)
  /-- A thread that waited for a command removes it. -/
  | remove (id : Nat)
  /-- A caller takes a buffer. -/
  | borrow (len : Nat)
  /-- A caller gives back the first bytes of a buffer. -/
  | giveBack (block : Block) (len : Nat)

/-- The operation of an event. -/
def Event.perform : Event → Drive Unit
  | .start => NVMeDriver.start
  | .submitSync index cmd buf buflen => do
    let _ ← submitSyncCommand index cmd buf buflen
  | .submitAsync index cmd buf buflen callback => do
    let _ ← submitAsyncCommand index cmd buf buflen callback
  | .interrupt index cqes => nvmeIrq index cqes
  | .remove id => removeAsyncCommand id
  | .borrow len => do
    let _ ← allocatePages .buffer len
  | .giveBack block len => free block len

/-- A driver without queues is started; buffers have a size, and only buffers are given back. -/
def Event.Possible (driver : NVMeDriver) : Event → Prop
  | .start => driver.queueCount = 0
  | .borrow len => len < 2 ^ 64
  | .giveBack block len => block ∈ driver.blocks ∧ block.purpose = .buffer ∧ len ≤ block.extent.len
  | _ => True

instance (driver : NVMeDriver) (event : Event) : Decidable (event.Possible driver) := by
  cases event <;> unfold Event.Possible <;> infer_instance

/-- A run goes on with what an operation leaves behind, also when it throws. -/
def machine : Machine NVMeDriver Event where
  step driver event :=
    if event.Possible driver then some (event.perform.run driver).2 else none

/-- A queue has a slot for a command, and its shadow doorbell, if there is one, ends in the page. -/
def HasSlot (driver : NVMeDriver) (index : Nat) : Prop :=
  index < driver.queueCount ∧ ∀ nvmeq, driver.queues[index]? = some nvmeq → 0 < nvmeq.depth ∧
    (nvmeq.dbbufSqDb ≠ 0 → index * 8 * driver.dbStride + 4 ≤ 0x1000)

/-- The shadow doorbell of a completion queue, if there is one, ends in the page. -/
def CqDbFits (driver : NVMeDriver) (index : Nat) : Prop :=
  ∀ nvmeq, driver.queues[index]? = some nvmeq → nvmeq.dbbufCqDb ≠ 0 →
    index * 8 * driver.dbStride + 4 * driver.dbStride + 4 ≤ 0x1000

/-- What an event needs, so that no store goes astray. -/
def Contained (driver : NVMeDriver) : Event → Prop
  | .submitSync index _ buf buflen =>
    driver.HasSlot index ∧ driver.CqDbFits index ∧ OneList buf buflen
  | .submitAsync index _ buf buflen _ => driver.HasSlot index ∧ OneList buf buflen
  | .interrupt index cqes => cqes ≠ [] → driver.CqDbFits index
  | _ => True

/-- The slots of the shadow doorbells of different queues are distinct. -/
def SlotsApart (driver : NVMeDriver) : Prop :=
  ∀ index other nvmeq another, index ≠ other →
    driver.queues[index]? = some nvmeq → driver.queues[other]? = some another →
    ∀ first ∈ [nvmeq.dbbufSqDb, nvmeq.dbbufCqDb], ∀ second ∈ [another.dbbufSqDb, another.dbbufCqDb],
      first ≠ 0 → second ≠ 0 →
      index * 8 * driver.dbStride + 4 * driver.dbStride + 4 ≤ 0x1000 →
      other * 8 * driver.dbStride + 4 * driver.dbStride + 4 ≤ 0x1000 →
      Disjoint (Extent.bytes ⟨first, 4⟩) (Extent.bytes ⟨second, 4⟩)

variable {driver after : NVMeDriver}

/-- What an operation ensures holds of what it leaves behind. -/
theorem tidy_after {drive : Drive Value} {Before : NVMeDriver → Prop}
    {Done : Value → NVMeDriver → Prop} (ensures : Effect.Ensures Before drive Done Tidy)
    (before : Before driver) (done : ∀ value after, Done value after → Tidy after) :
    Tidy (drive.run driver).2 := by
  have ends := ensures driver before
  generalize drive.run driver = ended at ends ⊢
  obtain ⟨outcome, last⟩ := ended
  cases outcome with
  | error halt => exact ends
  | ok value => exact done value last ends

/-- The same of one that keeps the layout. -/
theorem tidy_maintained {drive : Drive Value} (orderly : Orderly layout driver)
    (maintains : Maintains layout drive) : Tidy (drive.run driver).2 :=
  tidy_after maintains.tidy orderly fun _ _ after => ⟨layout, after⟩

/-- A buffer is given back by its caller. -/
theorem tidy_giveBack (orderly : Orderly layout driver) {block : Block} {len : Nat}
    (live : block ∈ driver.blocks) (buffer : block.purpose = .buffer)
    (within : len ≤ block.extent.len) : Tidy ((free block len).run driver).2 := by
  have loose : ¬block.purpose.Lasting := by
    rw [buffer]
    exact id
  have unheld := orderly.forget (List.nil_subset _)
  have ensures : Effect.Ensures (· = driver) (free block len) (fun _ => Tidy) Tidy := by
    refine ensures_free { layout with held := [] } loose within ?_ ?_ ?_
    · exact fun _ _ _ released => ⟨_, released⟩
    · rintro _ rfl
      refine ⟨unheld, live, List.not_mem_nil, ?_⟩
      rintro id cmd - page - rfl
      cases buffer
    · rintro _ rfl
      exact ⟨_, orderly⟩
  exact tidy_after ensures rfl fun _ _ after => after

/-- What a layout says of a queue is what the queue says. -/
theorem fits_of_slot (orderly : Orderly layout driver) {index : Nat} (slot : driver.HasSlot index) :
    index < layout.count ∧ 0 < layout.depth index ∧ layout.SqFits index := by
  obtain ⟨below, each⟩ := slot
  rw [orderly.count] at below
  obtain ⟨nvmeq, found, ready⟩ := orderly.allocated index below
  obtain ⟨positive, fits⟩ := each nvmeq found
  rw [orderly.stride, ready.sqDb.1] at fits
  exact ⟨below, ready.depth ▸ positive, fits⟩

theorem fits_of_cqDb (orderly : Orderly layout driver) {index : Nat} (slot : driver.CqDbFits index)
    (below : index < layout.count) : layout.CqFits index := by
  obtain ⟨nvmeq, found, ready⟩ := orderly.allocated index below
  have fits := slot nvmeq found
  rw [orderly.stride, ready.cqDb.1] at fits
  exact fits

/-- **One event** leaves a tidy driver tidy. -/
theorem tidy_step {event : Event} (tidy : Tidy driver) (contained : driver.Contained event)
    (stepped : machine.step driver event = some after) : Tidy after := by
  obtain ⟨layout, orderly⟩ := tidy
  simp only [machine] at stepped
  split at stepped
  case isFalse => contradiction
  case isTrue possible =>
    obtain rfl := Option.some.inj stepped
    cases event with
    | start =>
      have starts := ensures_start (orderly.count.symm.trans possible)
      exact tidy_after starts orderly fun _ _ after => after
    | submitSync index cmd buf buflen =>
      obtain ⟨slot, cqDb, list⟩ := contained
      obtain ⟨below, positive, fits⟩ := fits_of_slot orderly slot
      refine tidy_maintained orderly (Effect.Ensures.bind (maintains_submitSyncCommand below positive
        fits (fits_of_cqDb orderly cqDb below) cmd list) fun _ => ?_)
      exact Effect.Ensures.pure fun _ kept => kept
    | submitAsync index cmd buf buflen callback =>
      obtain ⟨slot, list⟩ := contained
      obtain ⟨below, positive, fits⟩ := fits_of_slot orderly slot
      refine tidy_maintained orderly (Effect.Ensures.bind (maintains_submitAsyncCommand below positive
        fits cmd list callback) fun _ => ?_)
      exact Effect.Ensures.pure fun _ kept => kept
    | interrupt index cqes =>
      exact tidy_maintained orderly (maintains_nvmeIrq fun some below =>
        fits_of_cqDb orderly (contained some) below)
    | remove id => exact tidy_maintained orderly (maintains_removeAsyncCommand id)
    | borrow len =>
      have allocated : Effect.Ensures (Orderly layout) (allocatePages .buffer len)
          (fun _ => Orderly layout) (Orderly layout) :=
        ensures_allocatePages layout possible (fun _ _ _ _ _ taken => taken) (fun _ same => same)
          fun _ same => same
      refine tidy_maintained orderly (Effect.Ensures.bind allocated fun _ => ?_)
      exact Effect.Ensures.pure fun _ kept => kept
    | giveBack block len =>
      obtain ⟨live, buffer, within⟩ := possible
      exact tidy_giveBack orderly live buffer within

/-- A shadow doorbell that ends in the page is at its place in it. -/
theorem shadow_place (orderly : Orderly layout driver) {index : Nat} {nvmeq : NVMeQueue}
    {shadow : Address} (found : driver.queues[index]? = some nvmeq)
    (listed : shadow ∈ [nvmeq.dbbufSqDb, nvmeq.dbbufCqDb]) (present : shadow ≠ 0)
    (fits : index * 8 * layout.stride + 4 * layout.stride + 4 ≤ 0x1000) :
    0 < layout.stride ∧ ∃ slot, (slot = 0 ∨ slot = 4 * layout.stride) ∧
      shadow = layout.dbs + (index * 8 * layout.stride + slot) := by
  have below : index < layout.count := by
    by_contra above
    have idle := orderly.unused index nvmeq (Nat.le_of_not_lt above) found
    rw [idle.sqDb, idle.cqDb] at listed
    exact present (by simpa using listed)
  have ready := orderly.ready below found
  refine ⟨orderly.strided (Nat.zero_lt_of_lt below), ?_⟩
  have placed : ∃ slot, (slot = 0 ∨ slot = 4 * layout.stride) ∧
      layout.Placed shadow (index * 8 * layout.stride + slot) := by
    rcases List.mem_cons.mp listed with rfl | listed
    · refine ⟨0, .inl rfl, ?_⟩
      rw [ready.sqDb.1]
      exact ready.sqDb.2
    · obtain rfl := List.mem_singleton.mp listed
      refine ⟨4 * layout.stride, .inr rfl, ?_⟩
      rw [ready.cqDb.1]
      exact ready.cqDb.2
  obtain ⟨slot, which, absent | ⟨shadowed, place⟩⟩ := placed
  · exact absurd absent present
  · refine ⟨slot, which, place.trans ?_⟩
    have bounded := orderly.bounded (orderly.page shadowed)
    simp only [Extent.stop] at bounded
    exact u32_of_lt (by omega)

/-- Shadow doorbells that end in the page are apart. -/
theorem slotsApart_of_tidy (tidy : Tidy driver) : driver.SlotsApart := by
  obtain ⟨layout, orderly⟩ := tidy
  intro index other nvmeq another different found held first one second two some more fits ends
  rw [orderly.stride] at fits ends
  obtain ⟨positive, slot, low, rfl⟩ := shadow_place orderly found one some fits
  obtain ⟨-, place, high, rfl⟩ := shadow_place orderly held two more ends
  rw [Nat.mul_assoc] at fits ends ⊢
  rw [Nat.mul_assoc]
  refine Set.Ico_disjoint_Ico.mpr ?_
  simp only [Extent.stop]
  rcases Nat.lt_or_gt_of_ne different with less | greater
  · have next : (index + 1) * (8 * layout.stride) ≤ other * (8 * layout.stride) :=
      Nat.mul_le_mul_right _ less
    rw [Nat.add_mul] at next
    omega
  · have next : (other + 1) * (8 * layout.stride) ≤ index * (8 * layout.stride) :=
      Nat.mul_le_mul_right _ greater
    rw [Nat.add_mul] at next
    omega

/-- A constructed driver is in order and has no queues. -/
theorem orderly_construct {base len : Nat} (addressable : base + len ≤ 2 ^ 32)
    (short : len < 2 ^ 32) {space : MemorySpace}
    (released : HoleTable.init.free base len = .ok space.table)
    {ncpus ioQueueDepth commandIdCounter ctrlConfig : Nat} {script : Script} {useDbbuf : Bool}
    (constructed : (construct useDbbuf).run
      (blank ncpus ioQueueDepth space commandIdCounter ctrlConfig script) = (.ok (), driver)) :
    ∃ layout, Orderly layout driver ∧ layout.count = 0 := by
  have region : Region base (base + len) := ⟨addressable, by omega⟩
  have begun : Orderly (bare region space)
      (blank ncpus ioQueueDepth space commandIdCounter ctrlConfig script) :=
    orderly_blank region released ncpus ioQueueDepth commandIdCounter ctrlConfig script
  have fresh : (bare region space).count = 0 := rfl
  exact (ensures_construct useDbbuf fresh).returned begun constructed

/-- A run from the constructor on whose events are contained leaves the driver tidy. -/
theorem tidy_of_run {base len : Nat} (addressable : base + len ≤ 2 ^ 32) (short : len < 2 ^ 32)
    {space : MemorySpace} (released : HoleTable.init.free base len = .ok space.table)
    {ncpus ioQueueDepth commandIdCounter ctrlConfig : Nat} {script : Script} {useDbbuf : Bool}
    {last : NVMeDriver} {events : List Event}
    (constructed : (construct useDbbuf).run
      (blank ncpus ioQueueDepth space commandIdCounter ctrlConfig script) = (.ok (), driver))
    (ran : machine.run driver events = some last)
    (contained : ∀ before event after, machine.Takes driver events before event after →
      before.Contained event) : Tidy last := by
  obtain ⟨layout, orderly, -⟩ := orderly_construct addressable short released constructed
  have kept : ∀ before event after, Tidy before → before.Contained event →
      machine.step before event = some after → Tidy after :=
    fun _ _ _ tidy contained stepped => tidy_step tidy contained stepped
  exact Machine.run_guarded _ _ kept ⟨layout, orderly⟩ contained ran

/-- **Stores stay where they belong**: in every run of a driver on one released region, whose
submissions are made on queues with a slot and shadow doorbells that end in their page, and need at
most one list page, every `write` and `memset` lies in a live block that was allocated for it and
shares no byte with another live block, and different queues have different doorbell slots. -/
theorem stores_contained {base len : Nat} (addressable : base + len ≤ 2 ^ 32)
    (short : len < 2 ^ 32) {space : MemorySpace}
    (released : HoleTable.init.free base len = .ok space.table)
    {ncpus ioQueueDepth commandIdCounter ctrlConfig : Nat} {script : Script} {useDbbuf : Bool}
    {last : NVMeDriver} {events : List Event}
    (constructed : (construct useDbbuf).run
      (blank ncpus ioQueueDepth space commandIdCounter ctrlConfig script) = (.ok (), driver))
    (ran : machine.run driver events = some last)
    (contained : ∀ before event after, machine.Takes driver events before event after →
      before.Contained event) :
    (∀ store ∈ last.stores, store.Kept) ∧ last.SlotsApart := by
  have tidy := tidy_of_run addressable short released constructed ran contained
  refine ⟨?_, slotsApart_of_tidy tidy⟩
  obtain ⟨layout, orderly⟩ := tidy
  exact orderly.stores

/-- A memory space of fifteen pages behind the first. -/
def fifteenPages : MemorySpace where
  table := (HoleTable.init.free 0x1000 0xf000).toOption.getD HoleTable.init
  map := fun _ => 0
  mapSize := 0x10000
  iovaBase := 0

/-- A device with a depth of four and doorbells that are eight words apart, which grants one queue. -/
def oneQueue : Script := ⟨[], true, 3 * 2 ^ 32 + 3, [0, 1], List.replicate 5 ⟨0, 0⟩⟩

/-- A driver for one thread with shadow doorbells. -/
def shadowDriver : NVMeDriver := ((construct true).run (blank 1 4 fifteenPages 0 0 oneQueue)).2

/-- After the start, a page is written through the I/O queue, and its completion is handled. -/
def onePage : List Event :=
  [.start, .submitAsync 1 (.blank 1) 0x8000 0x1000 true, .interrupt 1 [⟨5, 0, 0⟩]]

/-- What containment looks at in that run. -/
def view (driver : NVMeDriver) : Nat × Nat × Option Nat :=
  (driver.queueCount, driver.dbStride, driver.queues[1]?.map NVMeQueue.depth)

/-- The eleven stores of that run are contained. -/
theorem stores_contained_page : ∃ last, machine.run shadowDriver onePage = some last ∧
    last.stores.length = 11 ∧ ∀ store ∈ last.stores, store.Kept := by
  have constructed : (construct true).run (blank 1 4 fifteenPages 0 0 oneQueue) =
      (.ok (), shadowDriver) := by
    have returned : ((construct true).run (blank 1 4 fifteenPages 0 0 oneQueue)).1 = .ok () := by
      decide +kernel
    unfold shadowDriver
    rw [← returned]
  have performed : ((machine.run shadowDriver onePage).map fun last => last.stores.length) = some 11 := by
    decide +kernel
  have started : (machine.run shadowDriver [.start]).map view = some (2, 8, some 4) := by
    decide +kernel
  have submitted : (machine.run shadowDriver
      [.start, .submitAsync 1 (.blank 1) 0x8000 0x1000 true]).map view = some (2, 8, some 4) := by
    decide +kernel
  have addressable : 0x1000 + 0xf000 ≤ 2 ^ 32 := by omega
  have short : 0xf000 < 2 ^ 32 := by omega
  have released : HoleTable.init.free 0x1000 0xf000 = .ok fifteenPages.table := rfl
  obtain ⟨last, ran, count⟩ := Option.map_eq_some_iff.mp performed
  refine ⟨last, ran, count, ?_⟩
  refine (stores_contained addressable short released constructed ran ?_).1
  rw [onePage, Machine.forall_takes_cons]
  refine fun ready first => ⟨trivial, ?_⟩
  rw [Machine.run_cons, first, Option.bind_some, Machine.run_nil, Option.map_some] at started
  rw [Machine.run_cons, first, Option.bind_some] at submitted
  rw [Machine.forall_takes_cons]
  refine fun busy second => ⟨?_, ?_⟩
  · simp only [view, Option.some.injEq, Prod.mk.injEq, Option.map_eq_some_iff] at started
    obtain ⟨queueCount, dbStride, nvmeq, found, depth⟩ := started
    refine ⟨⟨by rw [queueCount]; decide, ?_⟩, oneList_page _⟩
    intro other same
    obtain rfl := Option.some.inj (found.symm.trans same)
    rw [depth, dbStride]
    exact ⟨by decide, fun _ => by decide⟩
  · rw [Machine.run_cons, second, Option.bind_some, Machine.run_nil, Option.map_some] at submitted
    rw [Machine.forall_takes_cons]
    refine fun done third => ⟨?_, fun _ _ _ taken => absurd taken Machine.not_takes_nil⟩
    simp only [view, Option.some.injEq, Prod.mk.injEq] at submitted
    intro _ nvmeq _ _
    rw [submitted.2.1]
    decide

/-- A device whose doorbells are 512 words apart. -/
def wideDoorbells : Script := ⟨[], true, 9 * 2 ^ 32 + 3, [0, 1], List.replicate 5 ⟨0, 0⟩⟩

/-- A driver for one thread with shadow doorbells on that device. -/
def wideDriver : NVMeDriver := ((construct true).run (blank 1 4 fifteenPages 0 0 wideDoorbells)).2

/-- A doorbell written at 0x2000, where the doorbells' block ends and the admin queue's begins. -/
def strays (store : Store) : Bool :=
  store.purpose = .doorbells ∧ store.extent = ⟨0x2000, 4⟩ ∧
    (∀ block ∈ store.live, block.purpose = .doorbells → block.extent.stop = 0x2000) ∧
    ∃ block ∈ store.live, block.purpose = .submissionQueue 0 ∧ block.extent.base = 0x2000

/-- The shadow doorbell of the first I/O queue lies behind the page: announcing its tail writes over
the first command of the admin queue. -/
theorem doorbell_behind_page : (construct true).run (blank 1 4 fifteenPages 0 0 wideDoorbells) =
    (.ok (), wideDriver) ∧
    ∃ last, machine.run wideDriver [.start, .submitAsync 1 (.blank 1) 0x8000 0x1000 true] = some last ∧
      ∃ store ∈ last.stores, store.extent = ⟨0x2000, 4⟩ ∧ ¬store.Kept ∧
        ∃ block ∈ store.live, block.purpose = .submissionQueue 0 ∧ block.extent.base = 0x2000 := by
  have constructed : (construct true).run (blank 1 4 fifteenPages 0 0 wideDoorbells) =
      (.ok (), wideDriver) := by
    have returned : ((construct true).run (blank 1 4 fifteenPages 0 0 wideDoorbells)).1 = .ok () := by
      decide +kernel
    unfold wideDriver
    rw [← returned]
  have performed : ((machine.run wideDriver
      [.start, .submitAsync 1 (.blank 1) 0x8000 0x1000 true]).map fun last =>
        last.stores.any strays) = some true := by
    decide +kernel
  obtain ⟨last, ran, found⟩ := Option.map_eq_some_iff.mp performed
  obtain ⟨store, listed, stray⟩ := List.any_eq_true.mp found
  rw [strays, decide_eq_true_iff] at stray
  obtain ⟨purpose, extent, ends, admin⟩ := stray
  refine ⟨constructed, last, ran, store, listed, extent, ?_, admin⟩
  rintro ⟨block, live, same, -, upper, -⟩
  have stop := ends block live (same.trans purpose)
  rw [extent] at upper
  simp only [Extent.stop] at upper stop
  omega

end NVMeDriver

end McmqHost
