import McmqHost.Driver.Host
import McmqHost.MemorySpace.Paging

/-!
# Submissions that throw

A submission registers its command, takes list pages, moves the tail and rings the doorbell, and
nothing undoes an earlier step when a later one throws. What is left behind is the entry in the
command table, with the list pages taken so far, and the moved tail. Only where there was nothing to
leave behind is the driver as it was.
-/

namespace McmqHost

/-- The faults that are exceptions. -/
def Fault.Thrown (fault : Fault) : Prop := fault = .memoryNotAvailable ∨ fault = .runtimeError

namespace NVMeDriver

/-- The command table, the free addresses and the tails of a queue are as they were. -/
structure Traceless (index : Nat) (before after : NVMeDriver) : Prop where
  /-- `command_map`. -/
  commandMap : after.commands.commandMap = before.commands.commandMap
  /-- The free addresses. -/
  freeBytes : after.space.table.freeBytes = before.space.table.freeBytes
  /-- `sq_tail`. -/
  sqTail : after.queues[index]?.map (·.sqTail) = before.queues[index]?.map (·.sqTail)
  /-- `last_sq_tail`. -/
  lastSqTail : after.queues[index]?.map (·.lastSqTail) = before.queues[index]?.map (·.lastSqTail)

/-- There is nothing that the submission could leave behind: the entry is in the table already, and
either no list page can be had where one is needed or the tail moves to itself. -/
def NothingToLeave (driver : NVMeDriver) (index buf buflen : Nat) (callback : Bool) : Prop :=
  (driver.commands.setupAsyncCommand driver.made
    (if callback then some driver.made else none)).2.commandMap = driver.commands.commandMap ∧
  if buflen ≠ 0 ∧ NeedsList buf buflen then
    ∃ fault, driver.space.allocatePages ctrlPageSize = .error fault
  else ∀ nvmeq, driver.queues[index]? = some nvmeq → nvmeq.nextTail = nvmeq.sqTail

/-! ## How each operation ends -/

variable {Value : Type} {driver after : NVMeDriver}

/-- A fault in a sequence is one of its parts. -/
theorem except_bind_error {First Last : Type} {first : Except Fault First}
    {next : First → Except Fault Last} {fault : Fault} :
    first >>= next = .error fault ↔
      first = .error fault ∨ ∃ value, first = .ok value ∧ next value = .error fault := by
  cases first with
  | error other => simp [bind, Except.bind]
  | ok value => simp [bind, Except.bind]

/-- Writing throws nothing. -/
theorem write_error {purpose : Purpose} {addr : Nat} {bytes : List UInt8} {fault : Fault}
    (failed : (write purpose addr bytes).run driver = (.error (.fault fault), after)) :
    ¬fault.Thrown := by
  obtain ⟨other, ran, same, -⟩ := call_error.mp failed
  obtain rfl := Halt.fault.inj same
  rcases except_bind_error.mp ran with wrote | ⟨space, -, returned⟩
  · rcases except_bind_error.mp wrote with translated | ⟨offset, -, returned⟩
    · unfold MemorySpace.translate at translated
      simp only at translated
      split at translated
      · contradiction
      · obtain rfl := Except.error.inj translated
        rintro (thrown | thrown) <;> contradiction
    · contradiction
  · contradiction

/-- Removing a command throws nothing. -/
theorem noexcept_error {drive : Drive Value} {fault : Fault}
    (failed : (noexcept drive).run driver = (.error (.fault fault), after)) : ¬fault.Thrown := by
  obtain ⟨earlier, -, ended⟩ := Effect.mapError_error.mp failed
  rintro (rfl | rfl)
  · cases earlier with
    | waits => contradiction
    | fault other => cases other <;> contradiction
  · cases earlier with
    | waits => contradiction
    | fault other => cases other <;> contradiction

theorem removeAsyncCommand_error {id : Nat} {fault : Fault}
    (failed : (removeAsyncCommand id).run driver = (.error (.fault fault), after)) :
    ¬fault.Thrown := by
  rcases Effect.bind_error.mp failed with looked | ⟨entry, middle, -, failed⟩
  · cases looked
  · rcases Effect.bind_error.mp failed with erased | ⟨-, last, -, failed⟩
    · cases erased
    · cases entry with
      | none => cases failed
      | some cmd => exact noexcept_error failed

/-- Waiting throws nothing: the completion is handled by another thread. -/
theorem wait_error {index : Nat} {acmd : AsyncCommand} {fault : Fault}
    (failed : (wait index acmd).run driver = (.error (.fault fault), after)) : ¬fault.Thrown := by
  rcases Effect.bind_error.mp failed with silent | ⟨reply, answered, -, failed⟩
  · have ended := (Effect.attempt_error.mp silent).1
    split at ended <;> cases ended
  · rcases Effect.bind_error.mp failed with handled | ⟨-, handled, -, failed⟩
    · exact noexcept_error handled
    · rcases Effect.bind_error.mp failed with silent | ⟨outcome, woken, -, failed⟩
      · have ended := (Effect.attempt_error.mp silent).1
        split at ended <;> cases ended
      · rcases Effect.bind_error.mp failed with removed | ⟨_, _, -, returned⟩
        · exact removeAsyncCommand_error removed
        · cases returned

/-! ## The part that both submissions share -/

/-- A submission up to the doorbell. -/
def announce (index : Nat) (cmd : NVMeCommand) (buf buflen : Nat) (callback : Bool) :
    Drive (AsyncCommand × NVMeCommand) := do
  let acmd ← setupAsyncCommand callback
  let described ← describe acmd { cmd with commandId := acmd.id } buf buflen
  submitSqCommand index described true
  pure (acmd, described)

theorem submitAsyncCommand_eq (index : Nat) (cmd : NVMeCommand) (buf buflen : Nat)
    (callback : Bool) :
    submitAsyncCommand index cmd buf buflen callback =
      (announce index cmd buf buflen callback >>= fun result => pure result.1) := by
  simp only [submitAsyncCommand, announce, bind_assoc, pure_bind]

theorem submitSyncCommand_eq (index : Nat) (cmd : NVMeCommand) (buf buflen : Nat) :
    submitSyncCommand index cmd buf buflen =
      announce index cmd buf buflen false >>= fun result =>
        wait index result.1 >>= fun reply =>
          (Effect.modify fun driver =>
            { driver with answered := driver.answered ++ [(result.2, reply)] }) >>= fun _ =>
              pure reply := by
  simp only [submitSyncCommand, announce, bind_assoc, pure_bind]

/-- An exception of an asynchronous submission is one of its front part. -/
theorem announce_of_async {index : Nat} {cmd : NVMeCommand} {buf buflen : Nat} {callback : Bool}
    {halt : Halt}
    (failed : (submitAsyncCommand index cmd buf buflen callback).run driver = (.error halt, after)) :
    (announce index cmd buf buflen callback).run driver = (.error halt, after) := by
  rw [submitAsyncCommand_eq] at failed
  rcases Effect.bind_error.mp failed with front | ⟨_, _, -, returned⟩
  · exact front
  · cases returned

/-- An exception of a synchronous submission is one of its front part. -/
theorem announce_of_sync {index : Nat} {cmd : NVMeCommand} {buf buflen : Nat} {fault : Fault}
    (thrown : fault.Thrown)
    (failed : (submitSyncCommand index cmd buf buflen).run driver = (.error (.fault fault), after)) :
    (announce index cmd buf buflen false).run driver = (.error (.fault fault), after) := by
  rw [submitSyncCommand_eq] at failed
  rcases Effect.bind_error.mp failed with front | ⟨⟨acmd, described⟩, _, -, failed⟩
  · exact front
  · rcases Effect.bind_error.mp failed with waited | ⟨reply, _, -, failed⟩
    · exact absurd thrown (wait_error waited)
    · rcases Effect.bind_error.mp failed with noted | ⟨_, _, -, returned⟩
      · cases noted
      · cases returned

/-! ## What an entry of the table keeps -/

/-- The list pages of an entry only get more. -/
def Grows (id : Nat) (before after : NVMeDriver) : Prop :=
  ∀ cmd, before.commands.commandMap id = some cmd →
    ∃ later, after.commands.commandMap id = some later ∧ cmd.prpLists.length ≤ later.prpLists.length

section Grows

variable {id : Nat}

theorem Grows.same {before after : NVMeDriver} (same : after.commands = before.commands) :
    Grows id before after := by
  intro cmd entry
  rw [same]
  exact ⟨cmd, entry, Nat.le_refl _⟩

theorem Grows.refl (driver : NVMeDriver) : Grows id driver driver := .same rfl

theorem Grows.trans {one two three : NVMeDriver} (front : Grows id one two)
    (back : Grows id two three) : Grows id one three := by
  intro cmd entry
  obtain ⟨middle, there, more⟩ := front cmd entry
  obtain ⟨later, found, most⟩ := back middle there
  exact ⟨later, found, Nat.le_trans more most⟩

/-- A sequence keeps the entries when its parts do. -/
theorem keeps_bind {Other : Type} {first : Drive Value} {next : Value → Drive Other}
    (front : Effect.Keeps (Grows id) first) (back : ∀ value, Effect.Keeps (Grows id) (next value)) :
    Effect.Keeps (Grows id) (first >>= next) :=
  Effect.Keeps.bind Grows.trans front back

/-- Members other than the table are assigned. -/
theorem keeps_modify {change : NVMeDriver → NVMeDriver}
    (same : ∀ driver, (change driver).commands = driver.commands) :
    Effect.Keeps (Grows id) (Effect.modify change : Drive Unit) :=
  Effect.Keeps.modify fun driver => Grows.same (same driver)

/-- A call of the memory space leaves the table alone. -/
theorem keeps_call {change : NVMeDriver → Except Fault (Value × NVMeDriver)}
    (same : ∀ driver value after, change driver = .ok (value, after) →
      after.commands = driver.commands) : Effect.Keeps (Grows id) (call change) := by
  unfold call
  refine Effect.Keeps.attempt Grows.refl ?_
  intro driver value after ran
  cases changed : change driver with
  | error fault =>
    rw [changed] at ran
    cases ran
  | ok result =>
    rw [changed] at ran
    cases ran
    exact .same (same driver value after changed)

theorem keeps_allocatePages (purpose : Purpose) (len : Nat) :
    Effect.Keeps (Grows id) (allocatePages purpose len) := by
  apply keeps_call
  intro driver address after ran
  obtain ⟨⟨found, space⟩, -, ran⟩ := McmqHost.bind_ok.mp ran
  cases ran
  rfl

theorem keeps_write (purpose : Purpose) (addr : Nat) (bytes : List UInt8) :
    Effect.Keeps (Grows id) (write purpose addr bytes) := by
  apply keeps_call
  intro driver _ after ran
  obtain ⟨space, -, ran⟩ := McmqHost.bind_ok.mp ran
  cases ran
  rfl

theorem keeps_readMemory (addr len : Nat) : Effect.Keeps (Grows id) (readMemory addr len) := by
  apply keeps_call
  intro driver _ after ran
  obtain ⟨bytes, -, ran⟩ := McmqHost.bind_ok.mp ran
  cases ran
  rfl

theorem keeps_pushPrpList (page : Address) : Effect.Keeps (Grows id) (pushPrpList id page) := by
  intro driver cmd entry
  refine ⟨{ cmd with prpLists := cmd.prpLists ++ [page] }, ?_, by simp⟩
  simp [pushPrpList, entry]

theorem keeps_pure (value : Value) : Effect.Keeps (Grows id) (pure value : Drive Value) :=
  Effect.Keeps.pure Grows.refl value

theorem keeps_currentList (acmd : AsyncCommand) (prpList i : Nat) :
    Effect.Keeps (Grows acmd.id) (currentList acmd prpList i) := by
  unfold currentList
  split
  · refine keeps_bind (keeps_allocatePages _ _) fun next => ?_
    refine keeps_bind (keeps_pushPrpList next) fun _ => ?_
    refine keeps_bind (keeps_readMemory _ _) fun lastEntry => ?_
    refine keeps_bind (keeps_write _ _ _) fun _ => ?_
    exact keeps_bind (keeps_write _ _ _) fun _ => keeps_pure _
  · exact keeps_pure _

/-- The entries of the list pages are written, and more of them taken. -/
theorem keeps_fill (acmd : AsyncCommand) (fuel prpList i buf buflen : Nat) :
    Effect.Keeps (Grows acmd.id) (fill acmd fuel prpList i buf buflen) := by
  induction fuel generalizing prpList i buf buflen with
  | zero => exact Effect.Keeps.fail Grows.refl _
  | succ fuel ih =>
    rw [fill]
    refine keeps_bind (keeps_currentList acmd prpList i) fun current => ?_
    refine keeps_bind (keeps_write _ _ _) fun _ => ?_
    split
    · exact keeps_pure _
    · exact ih _ _ _ _

theorem keeps_queue (index : Nat) : Effect.Keeps (Grows id) (queue index) := by
  unfold queue
  refine Effect.Keeps.attempt Grows.refl ?_
  intro driver nvmeq after ran
  split at ran
  · contradiction
  · cases ran
    exact .refl _

theorem keeps_sendMessage : Effect.Keeps (Grows id) sendMessage := by
  intro driver
  unfold sendMessage Effect.run
  dsimp only
  split
  · exact .same rfl
  · exact .same rfl

theorem keeps_ringDoorbell (shadow register value : Nat) :
    Effect.Keeps (Grows id) (ringDoorbell shadow register value) := by
  unfold ringDoorbell
  split
  · exact keeps_write _ _ _
  · exact keeps_bind keeps_sendMessage fun _ => keeps_modify fun _ => rfl

theorem keeps_writeSqDoorbell (index : Nat) (writeSq : Bool) :
    Effect.Keeps (Grows id) (writeSqDoorbell index writeSq) := by
  refine keeps_bind (keeps_queue index) fun nvmeq => ?_
  split
  · exact keeps_pure _
  · exact keeps_bind (keeps_ringDoorbell _ _ _) fun _ => keeps_modify fun _ => rfl

/-- The ring is written and announced. -/
theorem keeps_submitSqCommand (index : Nat) (cmd : NVMeCommand) (writeSq : Bool) :
    Effect.Keeps (Grows id) (submitSqCommand index cmd writeSq) := by
  refine keeps_bind (keeps_queue index) fun nvmeq => ?_
  refine keeps_bind (keeps_write _ _ _) fun _ => ?_
  refine keeps_bind (keeps_modify fun _ => rfl) fun _ => ?_
  exact keeps_bind (keeps_modify fun _ => rfl) fun _ => keeps_writeSqDoorbell index writeSq

end Grows

/-! ## Where an exception comes from -/

/-- A missing queue is no exception. -/
theorem queue_error {index : Nat} {fault : Fault}
    (failed : (queue index).run driver = (.error (.fault fault), after)) : ¬fault.Thrown := by
  have ended := (Effect.attempt_error.mp failed).1
  split at ended
  · cases ended
    rintro (thrown | thrown) <;> contradiction
  · contradiction

/-- An exception of a doorbell is the link's, and only the script has moved on. -/
theorem ringDoorbell_error {shadow register value : Nat} {fault : Fault} (thrown : fault.Thrown)
    (failed : (ringDoorbell shadow register value).run driver = (.error (.fault fault), after)) :
    ∃ script, after = { driver with script := script } := by
  unfold ringDoorbell at failed
  split at failed
  · exact absurd thrown (write_error failed)
  · rcases Effect.bind_error.mp failed with refused | ⟨_, _, -, noted⟩
    · unfold sendMessage Effect.run at refused
      dsimp only at refused
      split at refused
      · cases refused
      · cases refused
        exact ⟨_, rfl⟩
    · cases noted

/-- An exception of the ring is the link's, when the tail has moved. -/
theorem submitSqCommand_error {index : Nat} {cmd : NVMeCommand} {fault : Fault}
    (thrown : fault.Thrown)
    (failed : (submitSqCommand index cmd true).run driver = (.error (.fault fault), after)) :
    after.commands = driver.commands ∧ after.space.table = driver.space.table ∧
      (∃ nvmeq, driver.queues[index]? = some nvmeq) ∧
      after.queues = driver.queues.modify index fun nvmeq => { nvmeq with sqTail := nvmeq.nextTail } := by
  rcases Effect.bind_error.mp failed with missing | ⟨nvmeq, found, there, writing⟩
  · exact absurd thrown (queue_error missing)
  obtain ⟨held, same⟩ := queue_ok.mp there
  rw [same] at writing
  rcases Effect.bind_error.mp writing with unmapped | ⟨_, written, wrote, noting⟩
  · exact absurd thrown (write_error unmapped)
  obtain ⟨space, wrote, stored⟩ := write_ok.mp wrote
  rcases Effect.bind_error.mp noting with noted | ⟨_, listed, noted, moving⟩
  · cases noted
  rcases Effect.bind_error.mp moving with moved | ⟨_, advanced, moved, ringing⟩
  · cases moved
  rcases Effect.bind_error.mp ringing with missing | ⟨again, last, there, announcing⟩
  · exact absurd thrown (queue_error missing)
  obtain ⟨-, same⟩ := queue_ok.mp there
  rw [same, Bool.not_true, Bool.false_and, if_neg Bool.false_ne_true] at announcing
  rcases Effect.bind_error.mp announcing with rung | ⟨_, _, -, assigned⟩
  · obtain ⟨script, rfl⟩ := ringDoorbell_error thrown rung
    cases moved
    cases noted
    rw [stored]
    exact ⟨rfl, (MemorySpace.frame_write wrote).table, ⟨nvmeq, held⟩, rfl⟩
  · cases assigned

/-- What is left behind shows when the table has an entry with more list pages than before. -/
theorem not_traceless {acmd : AsyncCommand} {index : Nat} {middle : NVMeDriver}
    (registered : ∀ cmd, driver.commands.commandMap acmd.id = some cmd →
      cmd.prpLists = acmd.prpLists)
    {page : Address} (pushed : middle.commands.commandMap acmd.id =
      some { acmd with prpLists := acmd.prpLists ++ [page] })
    (grows : Grows acmd.id middle after) : ¬Traceless index driver after := by
  intro traceless
  obtain ⟨later, there, more⟩ := grows _ pushed
  rw [traceless.commandMap] at there
  rw [registered later there, List.length_append, List.length_singleton] at more
  exact absurd more (Nat.not_succ_le_self _)

/-- The entry that is registered has the list pages of the one that it replaces. -/
theorem setupAsyncCommand_ok {callback : Bool} {acmd : AsyncCommand}
    (ran : (setupAsyncCommand callback).run driver = (.ok acmd, after)) :
    after = { driver with
      commands := (driver.commands.setupAsyncCommand driver.made
        (if callback then some driver.made else none)).2
      made := driver.made + 1 } ∧
    after.commands.commandMap acmd.id = some acmd ∧
    ∀ cmd, driver.commands.commandMap acmd.id = some cmd → cmd.prpLists = acmd.prpLists := by
  have ran := Effect.attempt_ok.mp ran
  cases ran
  refine ⟨rfl, Function.update_self _ _ _, ?_⟩
  intro cmd entry
  change driver.commands.commandMap driver.commands.commandIdCounter = some cmd at entry
  change cmd.prpLists = ((driver.commands.commandMap driver.commands.commandIdCounter).getD _).prpLists
  rw [entry]
  rfl

/-- A description without a list changes nothing. -/
theorem describe_short (acmd : AsyncCommand) (cmd : NVMeCommand) {buf buflen : Nat}
    (short : ¬(buflen ≠ 0 ∧ NeedsList buf buflen)) :
    ∃ described, describe acmd cmd buf buflen = pure described := by
  unfold describe
  split
  · rename_i nonempty
    have fits : ¬NeedsList buf buflen := fun list => short ⟨nonempty, list⟩
    unfold setupBuffer
    dsimp only
    rw [if_neg fits]
    exact ⟨_, rfl⟩
  · exact ⟨_, rfl⟩

/-- A description with a list takes its first page, and then goes on. -/
theorem describe_list (acmd : AsyncCommand) (cmd : NVMeCommand) {buf buflen : Nat}
    (list : buflen ≠ 0 ∧ NeedsList buf buflen) :
    ∃ (left first rest : Nat) (described : Address → NVMeCommand), describe acmd cmd buf buflen =
      allocatePages (.prpList acmd.serial) ctrlPageSize >>= fun page =>
        pushPrpList acmd.id page >>= fun _ =>
          fill acmd left page 0 first rest >>= fun _ => pure (described page) := by
  unfold describe setupBuffer
  dsimp only
  rw [if_pos list.1, if_pos list.2]
  exact ⟨_, _, _, _, rfl⟩

/-- When the first list page is refused, nothing but the entry was registered. -/
theorem allocatePages_error {purpose : Purpose} {len : Nat} {halt : Halt}
    (failed : (allocatePages purpose len).run driver = (.error halt, after)) :
    (∃ fault, driver.space.allocatePages len = .error fault) ∧ after = driver := by
  obtain ⟨fault, ran, -, same⟩ := call_error.mp failed
  refine ⟨?_, same⟩
  rcases except_bind_error.mp ran with refused | ⟨_, -, returned⟩
  · exact ⟨fault, refused⟩
  · cases returned

theorem allocatePages_ok {purpose : Purpose} {len : Nat} {page : Address}
    (ok : (allocatePages purpose len).run driver = (.ok page, after)) :
    ∃ space, driver.space.allocatePages len = .ok (page, space) ∧
      after = driver.take space ⟨purpose, ⟨page, HoleTable.roundupPage len⟩⟩ := by
  obtain ⟨⟨address, space⟩, gave, ran⟩ := McmqHost.bind_ok.mp (call_ok.mp ok)
  cases ran
  exact ⟨space, gave, rfl⟩

/-- A submission that throws left no trace exactly when there was nothing to leave. -/
theorem announce_error {index : Nat} {cmd : NVMeCommand} {buf buflen : Nat} {callback : Bool}
    {fault : Fault} (thrown : fault.Thrown)
    (failed : (announce index cmd buf buflen callback).run driver =
      (.error (.fault fault), after)) :
    Traceless index driver after ↔ NothingToLeave driver index buf buflen callback := by
  rcases Effect.bind_error.mp failed with unable | ⟨acmd, entered, setup, describing⟩
  · cases unable
  obtain ⟨same, registered, earlier⟩ := setupAsyncCommand_ok setup
  unfold NothingToLeave
  by_cases list : buflen ≠ 0 ∧ NeedsList buf buflen
  · rw [if_pos list]
    obtain ⟨left, first, rest, described, ran⟩ := describe_list acmd { cmd with commandId := acmd.id } list
    rw [ran, bind_assoc] at describing
    rcases Effect.bind_error.mp describing with refused | ⟨page, taken, gave, pushing⟩
    · obtain ⟨unavailable, unchanged⟩ := allocatePages_error refused
      rw [same] at unavailable unchanged
      rw [unchanged]
      exact ⟨fun traceless => ⟨traceless.commandMap, unavailable⟩,
        fun nothing => ⟨nothing.1, rfl, rfl, rfl⟩⟩
    · -- from here on the entry has one list page more than before
      obtain ⟨space, available, took⟩ := allocatePages_ok gave
      rw [bind_assoc] at pushing
      rcases Effect.bind_error.mp pushing with unable | ⟨_, pushed, push, filling⟩
      · cases unable
      have entry : pushed.commands.commandMap acmd.id =
          some { acmd with prpLists := acmd.prpLists ++ [page] } := by
        cases push
        have there : taken.commands.commandMap acmd.id = some acmd := by
          rw [took]
          exact registered
        simp [there]
      have grows : Effect.Keeps (Grows acmd.id)
          ((fill acmd left page 0 first rest >>= fun _ => pure (described page)) >>=
            fun described => submitSqCommand index described true >>= fun _ =>
              pure (acmd, described)) := by
        refine keeps_bind (keeps_bind (keeps_fill _ _ _ _ _ _) fun _ => keeps_pure _) ?_
        exact fun _ => keeps_bind (keeps_submitSqCommand _ _ _) fun _ => keeps_pure _
      have later := grows pushed
      rw [filling] at later
      have trace : ¬Traceless index driver after := not_traceless earlier entry later
      rw [same] at available
      constructor
      · exact fun traceless => absurd traceless trace
      · rintro ⟨-, fault, unavailable⟩
        have both := available.symm.trans unavailable
        contradiction
  · rw [if_neg list]
    obtain ⟨described, ran⟩ := describe_short acmd { cmd with commandId := acmd.id } list
    rw [ran, pure_bind] at describing
    rcases Effect.bind_error.mp describing with ringing | ⟨_, _, -, returned⟩
    · obtain ⟨commands, table, ⟨nvmeq, held⟩, queues⟩ := submitSqCommand_error thrown ringing
      rw [same] at commands table held queues
      have moved : after.queues[index]? = some { nvmeq with sqTail := nvmeq.nextTail } := by
        rw [queues, List.getElem?_modify_eq, held]
        rfl
      constructor
      · intro traceless
        refine ⟨(congrArg CommandTable.commandMap commands).symm.trans traceless.commandMap, ?_⟩
        intro other found
        have tails := traceless.sqTail
        rw [moved, found] at tails
        rw [held] at found
        cases found
        exact Option.some.inj tails
      · rintro ⟨commandMap, still⟩
        refine ⟨(congrArg CommandTable.commandMap commands).trans commandMap, ?_, ?_, ?_⟩
        · rw [table]
        · rw [moved, held]
          exact congrArg some (still nvmeq held)
        · rw [moved, held]
          rfl
    · cases returned

/-- **Failed submissions leave no trace** exactly when there was nothing to leave: for every state of
the driver and every command, after an exception of either submission the command table, the free
addresses and both tails are as before if and only if the entry that was registered was there
already, and the first list page was refused where one is needed, or else the tail was moved to
itself. -/
theorem traceless_iff {index : Nat} {cmd : NVMeCommand} {buf buflen : Nat} {callback : Bool}
    {fault : Fault} (thrown : fault.Thrown) :
    ((submitAsyncCommand index cmd buf buflen callback).run driver =
        (.error (.fault fault), after) →
      (Traceless index driver after ↔ NothingToLeave driver index buf buflen callback)) ∧
    ((submitSyncCommand index cmd buf buflen).run driver = (.error (.fault fault), after) →
      (Traceless index driver after ↔ NothingToLeave driver index buf buflen false)) :=
  ⟨fun failed => announce_error thrown (announce_of_async failed),
    fun failed => announce_error thrown (announce_of_sync thrown failed)⟩

/-- A driver with one queue of four slots and a memory space without free memory. -/
def exhausted (commands : CommandTable) : NVMeDriver :=
  { blank 1 4 ⟨HoleTable.init, fun _ => 0, 0x10000, 0⟩ 0 0 ⟨[], true, 0, [], []⟩ with
    queues := [NVMeQueue.blank.place 0 4 1 0x1000 0x2000]
    commands := commands }

/-- The entry that a first submission with a callback registers. -/
def firstEntry : AsyncCommand := ⟨0, 0, 0, 0, false, some 0, []⟩

/-- When the id is taken by the same entry, a submission without memory for its list leaves no
trace. -/
theorem traceless_iff_taken : ∃ after,
    (submitAsyncCommand 0 (.blank 1) 0x1000 0x3000 true).run
      (exhausted ⟨0, fun id => if id = 0 then some firstEntry else none⟩) =
        (.error (.fault .memoryNotAvailable), after) ∧
    Traceless 0 (exhausted ⟨0, fun id => if id = 0 then some firstEntry else none⟩) after := by
  refine ⟨_, rfl, ?_⟩
  have thrown : Fault.Thrown .memoryNotAvailable := .inl rfl
  have refused : (submitAsyncCommand 0 (.blank 1) 0x1000 0x3000 true).run
      (exhausted ⟨0, fun id => if id = 0 then some firstEntry else none⟩) =
        (.error (.fault .memoryNotAvailable), _) := rfl
  apply ((traceless_iff thrown).1 refused).mpr
  refine ⟨?_, .memoryNotAvailable, rfl⟩
  funext id
  simp only [CommandTable.setupAsyncCommand, Function.update_apply, exhausted]
  split
  · rfl
  · rfl

/-- A submission of three pages without memory for their list throws, and its entry stays. -/
theorem entry_leaked : ∃ after,
    (submitAsyncCommand 0 (.blank 1) 0x1000 0x3000 true).run (exhausted ⟨0, fun _ => none⟩) =
      (.error (.fault .memoryNotAvailable), after) ∧
    after.commands.commandMap 0 = some firstEntry ∧
    ¬Traceless 0 (exhausted ⟨0, fun _ => none⟩) after := by
  refine ⟨_, rfl, rfl, ?_⟩
  intro traceless
  have entry := congrFun traceless.commandMap 0
  cases entry

end NVMeDriver

end McmqHost
