import McmqHost.Driver.Orderly
import McmqHost.MemorySpace.Capacity
import McmqHost.MemorySpace.Stock

/-!
# List pages given back

Handling the completion of a command that has a callback removes the command, and its destructor
gives its list pages back. `free` takes an unused slot for every page before it merges holes, and
ends the program when there is none. So completions are handled to the end exactly when, before each
page that is given back, free memory lies in fewer ranges than the table has slots.
-/

namespace McmqHost

open Extents HoleTable

namespace CommandTable

/-- The list pages that handling a completion gives back: those of a command with a callback. -/
def dropped (table : CommandTable) (cqe : Cqe) : List Address :=
  match table.commandMap cqe.commandId with
  | none => []
  | some cmd => if cmd.callback.isSome then cmd.prpLists else []

/-- The table after `NVMeDriver::handle_cqe`. -/
def settled (table : CommandTable) (cqe : Cqe) : CommandTable :=
  if (table.handleCqe cqe).2.isSome then
    (table.handleCqe cqe).1.removeAsyncCommand cqe.commandId
  else (table.handleCqe cqe).1

/-- The list pages that handling completions gives back, in order. -/
def leaving (table : CommandTable) : List Cqe → List Address
  | [] => []
  | cqe :: rest => table.dropped cqe ++ (table.settled cqe).leaving rest

/-- The bytes of all list pages. -/
def sheets (table : CommandTable) : Set Nat :=
  {byte | ∃ id cmd, table.commandMap id = some cmd ∧ byte ∈ cover (cmd.prpLists.map pageExtent)}

variable {table : CommandTable} {cqe : Cqe}

/-- Handling a completion leaves a command's list as it is, or removes the command. -/
theorem settled_entry {id : Nat} {cmd : AsyncCommand}
    (kept : (table.settled cqe).commandMap id = some cmd) :
    ∃ earlier, table.commandMap id = some earlier ∧ cmd.prpLists = earlier.prpLists ∧
      (id = cqe.commandId → table.dropped cqe = []) := by
  unfold settled dropped handleCqe at *
  cases entry : table.commandMap cqe.commandId with
  | none =>
    simp only [entry, Option.isSome_none, Bool.false_eq_true, ↓reduceIte] at kept
    exact ⟨cmd, kept, rfl, fun _ => rfl⟩
  | some found =>
    cases callback : found.callback with
    | none =>
      simp only [entry, callback, Option.isSome_none, Bool.false_eq_true, ↓reduceIte,
        Function.update_apply] at kept
      by_cases here : id = cqe.commandId
      · rw [if_pos here] at kept
        obtain rfl := Option.some.inj kept
        exact ⟨found, here ▸ entry, rfl, fun _ => by simp [callback]⟩
      · rw [if_neg here] at kept
        exact ⟨cmd, kept, rfl, fun same => absurd same here⟩
    | some called =>
      simp only [entry, callback, Option.isSome_some, ↓reduceIte, removeAsyncCommand,
        Function.update_apply] at kept
      by_cases here : id = cqe.commandId
      · rw [if_pos here] at kept
        cases kept
      · rw [if_neg here] at kept
        exact ⟨cmd, kept, rfl, fun same => absurd same here⟩

/-- What is given back is the list of one command, or nothing. -/
theorem dropped_cases (table : CommandTable) (cqe : Cqe) :
    table.dropped cqe = [] ∨
      ∃ cmd, table.commandMap cqe.commandId = some cmd ∧ table.dropped cqe = cmd.prpLists := by
  unfold dropped
  cases table.commandMap cqe.commandId with
  | none => exact Or.inl rfl
  | some cmd =>
    by_cases called : cmd.callback.isSome
    · exact Or.inr ⟨cmd, rfl, if_pos called⟩
    · exact Or.inl (if_neg called)

end CommandTable

/-- The list pages of the commands are allocated, each for itself. -/
structure Sheeted (low high : Nat) (driver : NVMeDriver) : Prop where
  /-- The hole table is sound, and the pages are allocated. -/
  sound : ∃ extents,
    HoleTable.Sound low high driver.space.table extents driver.commands.sheets
  /-- The pages of a command are disjoint. -/
  once : ∀ id cmd, driver.commands.commandMap id = some cmd →
    Exclusive (cmd.prpLists.map pageExtent)
  /-- So are those of different commands. -/
  apart : ∀ id other cmd another, driver.commands.commandMap id = some cmd →
    driver.commands.commandMap other = some another → id ≠ other →
    Disjoint (cover (cmd.prpLists.map pageExtent)) (cover (another.prpLists.map pageExtent))

namespace Sheeted

variable {low high : Nat} {driver : NVMeDriver}

/-- What a completion gives back is allocated. -/
theorem dropped_owned (driver : NVMeDriver) (cqe : Cqe) :
    cover ((driver.commands.dropped cqe).map pageExtent) ⊆ driver.commands.sheets := by
  obtain nothing | ⟨cmd, entry, pages⟩ := driver.commands.dropped_cases cqe
  · rw [nothing]
    simp
  · rw [pages]
    exact fun byte inside => ⟨_, cmd, entry, inside⟩

theorem dropped_once (sheeted : Sheeted low high driver) (cqe : Cqe) :
    Exclusive ((driver.commands.dropped cqe).map pageExtent) := by
  obtain nothing | ⟨cmd, entry, pages⟩ := driver.commands.dropped_cases cqe
  · rw [nothing]
    exact List.Pairwise.nil
  · rw [pages]
    exact sheeted.once _ cmd entry

/-- The pages of the commands that remain are not among those given back. -/
theorem settled_sheets (sheeted : Sheeted low high driver) (cqe : Cqe) :
    (driver.commands.settled cqe).sheets ⊆
      driver.commands.sheets \ cover ((driver.commands.dropped cqe).map pageExtent) := by
  rintro byte ⟨id, cmd, kept, inside⟩
  obtain ⟨earlier, entry, same, alone⟩ := CommandTable.settled_entry kept
  rw [same] at inside
  refine ⟨⟨id, earlier, entry, inside⟩, ?_⟩
  by_cases here : id = cqe.commandId
  · rw [alone here]
    simp
  · obtain nothing | ⟨gone, found, pages⟩ := driver.commands.dropped_cases cqe
    · rw [nothing]
      simp
    · rw [pages]
      exact Set.disjoint_left.mp (sheeted.apart _ _ earlier gone entry found here) inside

/-- Handling a completion leaves the list pages sheeted when the table has them for free. -/
theorem settled (sheeted : Sheeted low high driver) (cqe : Cqe) {after : NVMeDriver}
    {extents : List Extent} (commands : after.commands = driver.commands.settled cqe)
    (sound : HoleTable.Sound low high after.space.table extents
      (driver.commands.sheets \ cover ((driver.commands.dropped cqe).map pageExtent))) :
    Sheeted low high after := by
  constructor
  · rw [commands]
    exact ⟨extents, sound.mono (sheeted.settled_sheets cqe)⟩
  · rw [commands]
    intro id cmd kept
    obtain ⟨earlier, entry, same, -⟩ := CommandTable.settled_entry kept
    rw [same]
    exact sheeted.once id earlier entry
  · rw [commands]
    intro id other cmd another kept stays different
    obtain ⟨earlier, entry, same, -⟩ := CommandTable.settled_entry kept
    obtain ⟨former, found, alike, -⟩ := CommandTable.settled_entry stays
    rw [same, alike]
    exact sheeted.apart id other earlier former entry found different

end Sheeted

/-- An orderly driver has its list pages. -/
theorem Orderly.sheeted {layout : Layout} {driver : NVMeDriver} (orderly : Orderly layout driver) :
    Sheeted layout.low layout.high driver := by
  have housed := orderly.housed
  obtain ⟨extents, sound⟩ := housed.sound
  -- A list page is the extent of a live block, and different live blocks are disjoint.
  have live : ∀ id cmd, driver.commands.commandMap id = some cmd → ∀ page ∈ cmd.prpLists,
      listBlock cmd.serial page ∈ driver.blocks :=
    fun id cmd entry => (orderly.entries id cmd entry).2.live
  have symmetric : Std.Symm fun block other : Block =>
      Disjoint block.extent.bytes other.extent.bytes := ⟨fun _ _ apart => apart.symm⟩
  have disjoint := (List.pairwise_map.mp housed.exclusive).forall
  constructor
  · refine ⟨extents, sound.mono ?_⟩
    rintro byte ⟨id, cmd, entry, extent, listed, inside⟩
    obtain ⟨page, held, rfl⟩ := List.mem_map.mp listed
    exact mem_cover.mpr ⟨_, List.mem_map_of_mem (live id cmd entry page held), inside⟩
  · intro id cmd entry
    rw [Exclusive, List.pairwise_map]
    refine (orderly.entries id cmd entry).2.once.imp_of_mem ?_
    intro page other held kept different
    refine disjoint (live id cmd entry page held) (live id cmd entry other kept) ?_
    intro same
    injection same with _ same
    injection same with same
    exact different same
  · intro id other cmd another entry found different
    rw [Set.disjoint_left]
    rintro byte ⟨extent, listed, inside⟩ ⟨further, among, within⟩
    obtain ⟨page, held, rfl⟩ := List.mem_map.mp listed
    obtain ⟨sheet, kept, rfl⟩ := List.mem_map.mp among
    have serials : cmd.serial ≠ another.serial :=
      fun same => different (orderly.serials id other cmd another entry found same)
    have blocks : listBlock cmd.serial page ≠ listBlock another.serial sheet := by
      intro same
      injection same with same
      injection same with same
      exact serials same
    exact Set.disjoint_left.mp (disjoint (live id cmd entry page held)
      (live other another found sheet kept) blocks) inside within

/-- Only the hole table, the live blocks and the commands are changed. -/
def Frees (before after : NVMeDriver) : Prop :=
  ∃ table blocks commands, after = { before with
    space := { before.space with table := table }, blocks := blocks, commands := commands }

theorem Frees.refl (driver : NVMeDriver) : Frees driver driver := ⟨_, _, _, rfl⟩

theorem Frees.trans {one two three : NVMeDriver} (front : Frees one two) (back : Frees two three) :
    Frees one three := by
  obtain ⟨_, _, _, rfl⟩ := front
  obtain ⟨table, blocks, commands, rfl⟩ := back
  exact ⟨table, blocks, commands, rfl⟩

theorem Frees.queues {before after : NVMeDriver} (frees : Frees before after) :
    after.queues = before.queues := by
  obtain ⟨_, _, _, rfl⟩ := frees
  rfl

namespace NVMeDriver

variable {low high : Nat} {driver after : NVMeDriver} {extents : List Extent} {allocated : Set Nat}
  {pages : List Address}

/-! ## What handling a completion changes -/

theorem frees_free (block : Block) (len : Nat) : Effect.Keeps Frees (free block len) := by
  intro driver
  cases ran : (free block len).run driver with
  | mk outcome after =>
    cases outcome with
    | error halt =>
      obtain ⟨_, _, _, same⟩ := call_error.mp ran
      rw [same]
      exact .refl driver
    | ok _ =>
      obtain ⟨space, freed, same⟩ := McmqHost.bind_ok.mp (call_ok.mp ran)
      obtain ⟨table, _, here⟩ := McmqHost.bind_ok.mp freed
      cases here
      cases same
      exact ⟨table, _, _, rfl⟩

theorem frees_freePrpLists (serial : Nat) (pages : List Address) :
    Effect.Keeps Frees (freePrpLists serial pages) := by
  induction pages with
  | nil => exact Effect.Keeps.pure Frees.refl ()
  | cons page rest ih => exact Effect.Keeps.bind Frees.trans (frees_free _ _) fun _ => ih

theorem frees_removeAsyncCommand (id : Nat) : Effect.Keeps Frees (removeAsyncCommand id) := by
  refine Effect.Keeps.bind Frees.trans (Effect.Keeps.read Frees.refl _) fun entry => ?_
  refine Effect.Keeps.bind Frees.trans (Effect.Keeps.modify fun _ => ⟨_, _, _, rfl⟩) fun _ => ?_
  cases entry with
  | none => exact Effect.Keeps.pure Frees.refl ()
  | some cmd => exact Effect.Keeps.mapError (frees_freePrpLists _ _)

theorem frees_handleCqe (cqe : Cqe) : Effect.Keeps Frees (handleCqe cqe) := by
  refine Effect.Keeps.bind Frees.trans (Effect.Keeps.read Frees.refl _) fun releaseCmd => ?_
  refine Effect.Keeps.bind Frees.trans (Effect.Keeps.modify fun _ => ⟨_, _, _, rfl⟩) fun _ => ?_
  split
  · exact frees_removeAsyncCommand _
  · exact Effect.Keeps.pure Frees.refl ()

/-- What handling a completion does not free or finish is as it was. -/
theorem handleCqe_frees {cqe : Cqe} {outcome : Except Halt Unit}
    (ran : (handleCqe cqe).run driver = (outcome, after)) : Frees driver after := by
  have kept := frees_handleCqe cqe driver
  rwa [ran] at kept

/-! ## When it returns -/

/-- `free` of an allocated page returns when there are fewer holes than slots. -/
theorem free_page {serial : Nat} {page : Address} (region : Region low high)
    (sound : HoleTable.Sound low high driver.space.table extents allocated)
    (owned : (pageExtent page).bytes ⊆ allocated) (room : extents.length < nrHoles) :
    ∃ after, (free ⟨.prpList serial, ⟨page, 0x1000⟩⟩ 0x1000).run driver = (.ok (), after) ∧
      after.commands = driver.commands ∧
      HoleTable.Sound low high after.space.table (release (pageExtent page) extents)
        (allocated \ (pageExtent page).bytes) := by
  obtain ⟨table, freed, next⟩ :=
    sound.free region (by decide : 0 < 0x1000) owned (sound.holds.room.mpr room)
  refine ⟨_, call_ok.mpr (McmqHost.bind_ok.mpr ⟨{ driver.space with table := table }, ?_, rfl⟩), rfl,
    next⟩
  have freed : driver.space.table.free page 0x1000 = .ok table := freed
  show driver.space.free page 0x1000 = _
  rw [MemorySpace.free, freed]
  rfl

/-- Otherwise it does not. -/
theorem free_page_room {serial : Nat} {page : Address}
    (sound : HoleTable.Sound low high driver.space.table extents allocated)
    (ran : (free ⟨.prpList serial, ⟨page, 0x1000⟩⟩ 0x1000).run driver = (.ok (), after)) :
    extents.length < nrHoles := by
  obtain ⟨space, freed, -⟩ := McmqHost.bind_ok.mp (call_ok.mp ran)
  obtain ⟨table, gone, -⟩ := McmqHost.bind_ok.mp freed
  exact sound.holds.room.mp (HoleTable.Sound.room_of_free (by decide) gone)

/-- List pages that are allocated, each for itself, are given back when there is room for them. -/
theorem freePrpLists_returns (region : Region low high) {serial : Nat}
    (sound : HoleTable.Sound low high driver.space.table extents allocated)
    (owned : cover (pages.map pageExtent) ⊆ allocated) (once : Exclusive (pages.map pageExtent))
    (room : Room (cover extents) pages) :
    ∃ after left, (freePrpLists serial pages).run driver = (.ok (), after) ∧
      after.commands = driver.commands ∧
      HoleTable.Sound low high after.space.table left
        (allocated \ cover (pages.map pageExtent)) ∧
      cover left = cover extents ∪ cover (pages.map pageExtent) := by
  induction pages generalizing driver extents allocated with
  | nil =>
    refine ⟨driver, extents, rfl, rfl, ?_, ?_⟩
    · exact sound.mono Set.sdiff_subset
    · simp
  | cons page rest ih =>
    obtain ⟨few, more⟩ := room
    rw [sound.coalesced.ncard_starts] at few
    rw [List.map_cons, cover_cons] at owned
    obtain ⟨apart, others⟩ := exclusive_cons.mp once
    obtain ⟨middle, ran, same, next⟩ :=
      free_page region sound (Set.subset_union_left.trans owned) few
    have kept : cover (rest.map pageExtent) ⊆ allocated \ (pageExtent page).bytes := by
      intro byte inside
      exact ⟨owned (Or.inr inside), fun gone => Set.disjoint_left.mp apart gone inside⟩
    have covered := cover_release (pageExtent page) extents
    rw [Set.union_comm] at covered
    obtain ⟨after, left, ranOn, still, last, whole⟩ := ih next kept others (covered ▸ more)
    refine ⟨after, left, Effect.bind_ok.mpr ⟨(), middle, ran, ranOn⟩, still.trans same, ?_, ?_⟩
    · rwa [List.map_cons, cover_cons, ← Set.sdiff_sdiff]
    · rw [whole, covered, List.map_cons, cover_cons, Set.union_assoc]

/-- Given back at all, they were given back with room for each. -/
theorem freePrpLists_room (region : Region low high) {serial : Nat}
    (sound : HoleTable.Sound low high driver.space.table extents allocated)
    (owned : cover (pages.map pageExtent) ⊆ allocated) (once : Exclusive (pages.map pageExtent))
    (ran : (freePrpLists serial pages).run driver = (.ok (), after)) :
    Room (cover extents) pages := by
  induction pages generalizing driver extents allocated with
  | nil => exact trivial
  | cons page rest ih =>
    obtain ⟨_, middle, first, ran⟩ := Effect.bind_ok.mp ran
    have few := free_page_room sound first
    rw [List.map_cons, cover_cons] at owned
    obtain ⟨apart, others⟩ := exclusive_cons.mp once
    obtain ⟨other, again, -, next⟩ :=
      free_page region sound (Set.subset_union_left.trans owned) few
    obtain ⟨-, rfl⟩ := Prod.mk.inj (first.symm.trans again)
    have kept : cover (rest.map pageExtent) ⊆ allocated \ (pageExtent page).bytes := by
      intro byte inside
      exact ⟨owned (Or.inr inside), fun gone => Set.disjoint_left.mp apart gone inside⟩
    have room := ih next kept others ran
    rw [cover_release, Set.union_comm] at room
    exact ⟨sound.coalesced.ncard_starts.trans_lt few, room⟩

/-- Handling a completion settles the table and gives back the list pages that it drops. -/
theorem handleCqe_run (driver : NVMeDriver) (cqe : Cqe) :
    ∃ serial, (handleCqe cqe).run driver =
      (noexcept (freePrpLists serial (driver.commands.dropped cqe))).run
        { driver with commands := driver.commands.settled cqe } := by
  unfold CommandTable.dropped CommandTable.settled
  cases entry : driver.commands.commandMap cqe.commandId with
  | none =>
    refine ⟨0, ?_⟩
    simp [handleCqe, CommandTable.handleCqe, entry, Effect.bind_run, noexcept, Effect.mapError_run,
      freePrpLists]
  | some cmd =>
    refine ⟨cmd.serial, ?_⟩
    cases called : cmd.callback with
    | none =>
      simp [handleCqe, CommandTable.handleCqe, entry, called, Effect.bind_run, noexcept,
        Effect.mapError_run, freePrpLists]
    | some callback =>
      simp [handleCqe, CommandTable.handleCqe, entry, called, Effect.bind_run, removeAsyncCommand]

/-- A completion is handled to the end when there is room for what it gives back, and the list pages
that remain are sheeted. -/
theorem handleCqe_returns (region : Region low high) (sheeted : Sheeted low high driver) (cqe : Cqe)
    (room : Room driver.space.table.freeBytes (driver.commands.dropped cqe)) :
    ∃ after, (handleCqe cqe).run driver = (.ok (), after) ∧
      after.commands = driver.commands.settled cqe ∧ Sheeted low high after ∧
      after.space.table.freeBytes =
        driver.space.table.freeBytes ∪ cover ((driver.commands.dropped cqe).map pageExtent) := by
  obtain ⟨extents, sound⟩ := sheeted.sound
  obtain ⟨serial, run⟩ := handleCqe_run driver cqe
  rw [freeBytes_eq sound.holds] at room ⊢
  have settled : HoleTable.Sound low high
      ({ driver with commands := driver.commands.settled cqe } : NVMeDriver).space.table extents
      driver.commands.sheets := sound
  obtain ⟨after, left, ran, commands, last, whole⟩ := freePrpLists_returns region settled
    (Sheeted.dropped_owned driver cqe) (sheeted.dropped_once cqe) room
  refine ⟨after, ?_, commands, sheeted.settled cqe commands last, ?_⟩
  · rw [run]
    exact Effect.mapError_ok.mpr ran
  · rw [freeBytes_eq last.holds, whole]

/-- Handled to the end, it had room. -/
theorem handleCqe_room (region : Region low high) (sheeted : Sheeted low high driver) {cqe : Cqe}
    (ran : (handleCqe cqe).run driver = (.ok (), after)) :
    Room driver.space.table.freeBytes (driver.commands.dropped cqe) := by
  obtain ⟨extents, sound⟩ := sheeted.sound
  obtain ⟨serial, run⟩ := handleCqe_run driver cqe
  rw [freeBytes_eq sound.holds]
  have settled : HoleTable.Sound low high
      ({ driver with commands := driver.commands.settled cqe } : NVMeDriver).space.table extents
      driver.commands.sheets := sound
  rw [run] at ran
  exact freePrpLists_room region settled (Sheeted.dropped_owned driver cqe)
    (sheeted.dropped_once cqe) (Effect.mapError_ok.mp ran)

/-- The head of a queue may move: nothing else depends on it. -/
theorem sheeted_updateQueue (sheeted : Sheeted low high driver) (index : Nat)
    (change : NVMeQueue → NVMeQueue) :
    Sheeted low high { driver with queues := driver.queues.modify index change } :=
  ⟨sheeted.sound, sheeted.once, sheeted.apart⟩

/-- Where the head of a queue is in range, it is asserted to be. -/
theorem assertHead_run {index : Nat} {nvmeq : NVMeQueue} (found : driver.queues[index]? = some nvmeq)
    (inside : nvmeq.cqHead < nvmeq.depth) : (assertHead index).run driver = (.ok (), driver) := by
  rw [assertHead, Effect.bind_run, (queue_ok.mpr ⟨found, rfl⟩ : (queue index).run driver = _)]
  simp only [if_pos inside, Effect.pure_run]

/-- **Completions in a row** are handled to the end exactly when there is room for what they give
back. -/
theorem handleCqes_ok_iff (region : Region low high) {index : Nat} {nvmeq : NVMeQueue}
    {cqes : List Cqe} (sheeted : Sheeted low high driver)
    (found : driver.queues[index]? = some nvmeq) (inside : nvmeq.cqHead < nvmeq.depth)
    (narrow : nvmeq.depth ≤ 2 ^ 16) :
    (∃ last, (handleCqes index cqes).run driver = (.ok (), last)) ↔
      Room driver.space.table.freeBytes (driver.commands.leaving cqes) := by
  induction cqes generalizing driver nvmeq with
  | nil => exact ⟨fun _ => trivial, fun _ => ⟨driver, assertHead_run found inside⟩⟩
  | cons cqe rest ih =>
    rw [CommandTable.leaving, room_append]
    have step : ∀ after, (handleCqe cqe).run driver = (.ok (), after) →
        (handleCqes index (cqe :: rest)).run driver = (handleCqes index rest).run
          { after with queues := after.queues.modify index NVMeQueue.updateCqHead } ∧
        (after.queues.modify index NVMeQueue.updateCqHead)[index]? = some nvmeq.updateCqHead := by
      intro after ran
      have kept := (handleCqe_frees ran).queues
      refine ⟨?_, ?_⟩
      · rw [handleCqes, Effect.bind_run, assertHead_run found inside]
        simp only
        rw [Effect.bind_run, ran]
        rfl
      · rw [kept, List.getElem?_modify_eq, found]
        rfl
    have ahead : ∀ after, (handleCqe cqe).run driver = (.ok (), after) →
        Sheeted low high after → ((∃ last, (handleCqes index (cqe :: rest)).run driver =
          (.ok (), last)) ↔ Room after.space.table.freeBytes (after.commands.leaving rest)) := by
      intro after ran sheeted
      obtain ⟨run, there⟩ := step after ran
      rw [run]
      exact ih (sheeted_updateQueue sheeted index _) there
        ((nvmeq.updateCqHead_frame).1 ▸ nvmeq.updateCqHead_lt inside narrow)
        ((nvmeq.updateCqHead_frame).1 ▸ narrow)
    constructor
    · rintro ⟨last, ran⟩
      obtain ⟨_, middle, asserted, first⟩ := Effect.bind_ok.mp ran
      obtain rfl := (Prod.mk.inj ((assertHead_run found inside).symm.trans asserted)).2
      obtain ⟨_, after, handled, -⟩ := Effect.bind_ok.mp first
      have front := handleCqe_room region sheeted handled
      obtain ⟨other, again, commands, stays, covered⟩ := handleCqe_returns region sheeted cqe front
      obtain rfl := (Prod.mk.inj (handled.symm.trans again)).2
      have back := (ahead after handled stays).mp ⟨last, ran⟩
      rw [commands, covered] at back
      exact ⟨front, back⟩
    · rintro ⟨front, back⟩
      obtain ⟨after, ran, commands, stays, covered⟩ := handleCqe_returns region sheeted cqe front
      rw [ahead after ran stays, commands, covered]
      exact back

end NVMeDriver

end McmqHost
