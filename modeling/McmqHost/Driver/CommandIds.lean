import Mathlib.Data.List.Pairwise
import McmqHost.Driver.CommandMap

/-!
# Command ids

Ids count the submissions modulo 2^16. A submission is therefore given the id of an
outstanding command exactly when that command was set up a multiple of 2^16 submissions
before, and the first such collision comes 65536 submissions after the command.
-/

namespace McmqHost

namespace Commands

/-- Outstanding commands have different ids. -/
def DistinctIds (flow : Commands) : Prop :=
  flow.submissions.Pairwise fun first second =>
    first.outstanding = true → second.outstanding = true → first.id ≠ second.id

instance (flow : Commands) : Decidable flow.DistinctIds :=
  inferInstanceAs (Decidable (List.Pairwise _ _))

/-- The call of `setup_async_command` between two states made an entry of its own: its id was
unused, it returned the command of no outstanding submission, and it changed no other entry. -/
def Fresh (before after : Commands) : Prop :=
  ∃ latest, after.submissions = before.submissions ++ [latest] ∧
    before.table.commandMap latest.id = none ∧
    (∀ other ∈ before.submissions, other.outstanding = true →
      other.id ≠ latest.id ∧ other.serial ≠ latest.serial) ∧
    ∀ id cmd, before.table.commandMap id = some cmd → after.table.commandMap id = some cmd

/-- Every outstanding command was set up fewer than 2^16 submissions ago. -/
def Recent (flow : Commands) : Prop :=
  ∀ (index : Nat) (submission : Submission), flow.submissions[index]? = some submission →
    submission.outstanding = true → flow.submissions.length < index + 2 ^ 16

/-- The map is exact, so outstanding commands have different ids. -/
theorem Tracked.distinctIds {flow : Commands} (tracked : Tracked flow) : flow.DistinctIds := by
  unfold DistinctIds
  rw [List.pairwise_iff_getElem]
  intro first second inside inside' ordered out also same
  have found := List.getElem?_eq_getElem inside
  have there := List.getElem?_eq_getElem inside'
  have equal := tracked.distinct found out there also same.symm
  omega

/-! ## What other steps do to ids -/

/-- No step but `setup_async_command` uses ids, and none makes a command outstanding again. -/
structure Follows (flow after : Commands) : Prop where
  /-- The counter stays. -/
  counter : after.table.commandIdCounter = flow.table.commandIdCounter
  /-- There is no new submission. -/
  length : after.submissions.length = flow.submissions.length
  /-- Each submission keeps its id. -/
  earlier : ∀ (index : Nat) (submission : Submission),
    after.submissions[index]? = some submission →
    ∃ former, flow.submissions[index]? = some former ∧ submission.id = former.id ∧
      (submission.outstanding = true → former.outstanding = true)

namespace Follows

variable {flow middle after : Commands}

theorem refl (flow : Commands) : Follows flow flow :=
  ⟨rfl, rfl, fun _ submission found => ⟨submission, found, rfl, id⟩⟩

theorem trans (first : Follows flow middle) (second : Follows middle after) :
    Follows flow after := by
  refine ⟨second.counter.trans first.counter, second.length.trans first.length, ?_⟩
  intro index submission found
  obtain ⟨later, there, same, still⟩ := second.earlier index submission found
  obtain ⟨former, here, alike, already⟩ := first.earlier index later there
  exact ⟨former, here, same.trans alike, fun out => already (still out)⟩

/-- A change of one submission. -/
theorem change {index : Nat} {change : Submission → Submission}
    (submissions : after.submissions = flow.submissions.modify index change)
    (counter : after.table.commandIdCounter = flow.table.commandIdCounter)
    (keeps : ∀ submission, flow.submissions[index]? = some submission →
      (change submission).id = submission.id ∧
        ((change submission).outstanding = true → submission.outstanding = true)) :
    Follows flow after := by
  refine ⟨counter, by simp [submissions], ?_⟩
  intro other second there
  rw [submissions, List.getElem?_modify] at there
  split at there
  · rename_i same
    subst same
    obtain ⟨submission, found, rfl⟩ := Option.map_eq_some_iff.mp there
    exact ⟨submission, found, keeps submission found⟩
  · have there : flow.submissions[other]? = some second := by simpa using there
    exact ⟨second, there, rfl, id⟩

/-- A removal only leaves list pages to the destructor. -/
theorem removeCommand (flow : Commands) (commandId : Nat) :
    Follows flow (flow.removeCommand commandId) := by
  unfold Commands.removeCommand
  split
  · exact .refl _
  · exact change rfl rfl fun _ _ => ⟨rfl, id⟩

/-- `handle_cqe` does not touch the counter. -/
theorem handleCqe_counter (table : CommandTable) (cqe : Cqe) :
    (table.handleCqe cqe).1.commandIdCounter = table.commandIdCounter := by
  unfold CommandTable.handleCqe
  split
  · rfl
  · split <;> rfl

/-- A delivered entry moves no completion. -/
theorem deliver (flow : Commands) (cqe : Cqe) : Follows flow (flow.deliver cqe).1 ∧
    ∀ (index : Nat) (submission : Submission),
      (flow.deliver cqe).1.submissions[index]? = some submission →
      ∃ former, flow.submissions[index]? = some former ∧
        submission.completion = former.completion := by
  have counter := handleCqe_counter flow.table cqe
  unfold Commands.deliver
  split
  · rename_i table handled
    rw [handled] at counter
    exact ⟨⟨counter, rfl, fun _ submission found => ⟨submission, found, rfl, id⟩⟩,
      fun _ submission found => ⟨submission, found, rfl⟩⟩
  · rename_i table callback handled
    rw [handled] at counter
    refine ⟨change rfl counter fun _ _ => ⟨rfl, id⟩, ?_⟩
    intro index submission found
    rw [note_submissions, List.getElem?_modify] at found
    obtain ⟨former, there, rfl⟩ := Option.map_eq_some_iff.mp found
    refine ⟨former, there, ?_⟩
    split <;> rfl

/-- A step for one submission leaves ids alone. -/
theorem stepAt {index : Nat} {submission : Submission}
    (found : flow.submissions[index]? = some submission) {input : CommandInput}
    (stepped : flow.stepAt index submission input = some after) : Follows flow after := by
  have only : ∀ other, flow.submissions[index]? = some other → other = submission := by
    intro other there
    rw [found] at there
    exact (Option.some.inj there).symm
  cases input with
  | takePage _ =>
    simp only [Commands.stepAt] at stepped
    split at stepped
    · obtain rfl := Option.some.inj stepped
      exact change rfl rfl fun _ _ => ⟨rfl, id⟩
    · contradiction
  | submit _ =>
    simp only [Commands.stepAt] at stepped
    split at stepped
    · rename_i building
      obtain rfl := Option.some.inj stepped
      refine change rfl rfl fun other there => ⟨rfl, ?_⟩
      obtain rfl := only other there
      cases completion : other.completion <;> simp [Submission.outstanding, building, completion]
    · contradiction
  | post _ status result =>
    simp only [Commands.stepAt] at stepped
    split at stepped
    · contradiction
    · rename_i absent built
      obtain rfl := Option.some.inj stepped
      refine change rfl rfl fun other there => ⟨rfl, ?_⟩
      obtain rfl := only other there
      cases program : other.program <;> simp [Submission.outstanding, absent, program]
    · contradiction
  | handle _ =>
    simp only [Commands.stepAt] at stepped
    split at stepped
    · rename_i status result posted
      obtain rfl := Option.some.inj stepped
      obtain ⟨follows, places⟩ := deliver flow ⟨submission.id, status, result⟩
      refine follows.trans (change rfl rfl fun other there => ⟨rfl, ?_⟩)
      obtain ⟨former, here, same⟩ := places index other there
      obtain rfl := only former here
      rw [posted] at same
      cases program : other.program <;> simp [Submission.outstanding, same, program]
    · contradiction
  | release _ =>
    simp only [Commands.stepAt] at stepped
    split at stepped
    · obtain rfl := Option.some.inj stepped
      refine (removeCommand flow submission.id).trans (change rfl rfl fun other _ => ⟨rfl, ?_⟩)
      cases program : other.program <;> simp [Submission.outstanding, program]
    · contradiction
  | wait _ =>
    simp only [Commands.stepAt] at stepped
    split at stepped
    · rename_i outcome waiting read
      obtain rfl := Option.some.inj stepped
      refine change rfl rfl fun other there => ⟨rfl, ?_⟩
      obtain rfl := only other there
      cases completion : other.completion <;> simp [Submission.outstanding, waiting, completion]
    · contradiction
  | remove _ =>
    simp only [Commands.stepAt] at stepped
    split at stepped
    · obtain rfl := Option.some.inj stepped
      refine (removeCommand flow _).trans (change rfl rfl fun other _ => ⟨rfl, ?_⟩)
      simp [Submission.outstanding]
    · contradiction
  | freePage _ =>
    simp only [Commands.stepAt] at stepped
    split at stepped
    · contradiction
    · split at stepped
      · contradiction
      · obtain rfl := Option.some.inj stepped
        exact change rfl rfl fun _ _ => ⟨rfl, id⟩
  | setup _ | stray _ | borrow _ | giveBack _ => contradiction

/-- Every step but `setup_async_command` leaves ids alone. -/
theorem step {input : CommandInput} (other : ∀ callback, input ≠ .setup callback)
    (stepped : flow.step input = some after) : Follows flow after := by
  unfold Commands.step at stepped
  split at stepped
  · exact absurd rfl (other _)
  · split at stepped
    · obtain rfl := Option.some.inj stepped
      exact (deliver flow _).1
    · contradiction
  · split at stepped
    · split at stepped
      · contradiction
      · obtain rfl := Option.some.inj stepped
        exact ⟨rfl, rfl, fun _ submission found => ⟨submission, found, rfl, id⟩⟩
    · contradiction
  · split at stepped
    · contradiction
    · split at stepped
      · contradiction
      · obtain rfl := Option.some.inj stepped
        exact ⟨rfl, rfl, fun _ submission found => ⟨submission, found, rfl, id⟩⟩
  all_goals
    split at stepped
    · contradiction
    · rename_i found
      exact stepAt found stepped

end Follows

/-! ## Ids over a whole run -/

/-- Ids count the submissions, and none is outstanding for more than 2^16 of them. -/
structure Numbered (counter : Nat) (flow : Commands) : Prop where
  /-- The counter is the next id. -/
  next : flow.table.commandIdCounter = u16 (counter + flow.submissions.length)
  /-- Each submission got the value of the counter. -/
  ids : ∀ (index : Nat) (submission : Submission), flow.submissions[index]? = some submission →
    submission.id = u16 (counter + index)
  /-- Outstanding commands are no older than the range of ids. -/
  ages : ∀ (index : Nat) (submission : Submission), flow.submissions[index]? = some submission →
    submission.outstanding = true → flow.submissions.length ≤ index + 2 ^ 16

section

variable {counter : Nat} {before after : Commands}

/-- A start without submissions. -/
theorem Numbered.create (counter : Nat) (memory : HoleTable) :
    Numbered counter (create counter memory) := by
  refine ⟨rfl, ?_, ?_⟩ <;> simp [Commands.create]

/-- Other steps keep the numbering. -/
theorem Numbered.follows (numbered : Numbered counter before) (follows : Follows before after) :
    Numbered counter after := by
  refine ⟨?_, ?_, ?_⟩
  · rw [follows.counter, follows.length]
    exact numbered.next
  · intro index submission found
    obtain ⟨former, there, same, -⟩ := follows.earlier index submission found
    rw [same]
    exact numbered.ids index former there
  · intro index submission found out
    obtain ⟨former, there, -, already⟩ := follows.earlier index submission found
    rw [follows.length]
    exact numbered.ages index former there (already out)

/-- The submission that `setup_async_command` adds, whatever the map holds. -/
theorem setup_submissions (flow : Commands) (callback : Bool) :
    (flow.setup callback).submissions = flow.submissions ++
      [⟨((flow.table.commandMap flow.table.commandIdCounter).getD
          (.make flow.submissions.length)).serial, flow.table.commandIdCounter, callback, .building,
        .absent, [], [], [], [], []⟩] := rfl

/-- What `setup_async_command` does under an unused id. -/
theorem setup_unused (callback : Bool)
    (unused : before.table.commandMap before.table.commandIdCounter = none) :
    ∃ latest : Submission, (before.setup callback).submissions = before.submissions ++ [latest] ∧
      latest.id = before.table.commandIdCounter ∧ latest.serial = before.submissions.length ∧
      (before.setup callback).table.commandIdCounter = u16 (before.table.commandIdCounter + 1) ∧
      (before.setup callback).table.commandMap =
        Function.update before.table.commandMap latest.id (some latest.entry) := by
  refine ⟨⟨before.submissions.length, before.table.commandIdCounter, callback, .building, .absent,
    [], [], [], [], []⟩, ?_, rfl, rfl, rfl, ?_⟩ <;>
  simp [Commands.setup, CommandTable.setupAsyncCommand, unused, AsyncCommand.make,
    Submission.entry, Submission.shown, Completion.outcome]

/-- When every outstanding command is recent the next id is unused. -/
theorem Recent.unused (recent : Recent before) (tracked : Tracked before)
    (numbered : Numbered counter before) :
    before.table.commandMap before.table.commandIdCounter = none := by
  cases mapped : before.table.commandMap before.table.commandIdCounter with
  | none => rfl
  | some cmd =>
    obtain ⟨index, submission, found, out, same, -⟩ := (tracked.entries _ _).mp mapped
    have inside := (List.getElem?_eq_some_iff.mp found).1
    have young := recent index submission found out
    rw [numbered.ids index submission found, numbered.next] at same
    unfold u16 at same
    omega

/-- A submission under an unused id has an entry of its own. -/
theorem fresh_of_unused (tracked : Tracked before) (callback : Bool)
    (unused : before.table.commandMap before.table.commandIdCounter = none) :
    Fresh before (before.setup callback) := by
  obtain ⟨latest, submissions, id, serial, -, map⟩ := setup_unused callback unused
  refine ⟨latest, submissions, id ▸ unused, ?_, ?_⟩
  · intro other listed out
    obtain ⟨index, inside, rfl⟩ := List.mem_iff_getElem.mp listed
    have found := List.getElem?_eq_getElem inside
    constructor
    · intro same
      have entry := tracked.entry found out
      rw [same, id, unused] at entry
      contradiction
    · rw [tracked.serials _ _ found, serial]
      omega
  · intro key cmd mapped
    rw [map, Function.update_of_ne]
    · exact mapped
    · rintro rfl
      rw [id, unused] at mapped
      contradiction

/-- Setting up commands makes fresh entries exactly when the outstanding ones are recent. -/
theorem setup_fresh_iff (tracked : Tracked before) (numbered : Numbered counter before)
    (callback : Bool) : Fresh before (before.setup callback) ↔ Recent before := by
  constructor
  · rintro ⟨latest, submissions, unused, -, -⟩ index submission found out
    have young := numbered.ages index submission found out
    by_contra old
    have collides : submission.id = before.table.commandIdCounter := by
      rw [numbered.ids index submission found, numbered.next]
      unfold u16
      omega
    have entry := tracked.entry found out
    rw [setup_submissions, List.append_cancel_left_eq, List.singleton_inj] at submissions
    have id := congrArg Submission.id submissions
    rw [← id, ← collides, entry] at unused
    contradiction
  · intro recent
    exact fresh_of_unused tracked callback (recent.unused tracked numbered)

/-- What the driver relies on at a step: outstanding commands have different ids, and a new command
has an entry of its own. -/
def Separate (before : Commands) (input : CommandInput) (after : Commands) : Prop :=
  after.DistinctIds ∧ ∀ callback, input = .setup callback → Fresh before after

/-- A new command is set up only while every outstanding one is recent. -/
def Timely (before : Commands) (input : CommandInput) (_ : Commands) : Prop :=
  ∀ callback, input = .setup callback → Recent before

/-- A timely step keeps the map exact and the ids numbered. -/
theorem Timely.step {input : CommandInput} (timely : Timely before input after)
    (tracked : Tracked before) (numbered : Numbered counter before)
    (stepped : before.step input = some after) : Tracked after ∧ Numbered counter after := by
  refine ⟨tracked.step (fun callback setup => (timely callback setup).unused tracked numbered)
    stepped, ?_⟩
  by_cases other : ∀ callback, input ≠ .setup callback
  · exact numbered.follows (Follows.step other stepped)
  · rw [not_forall_not] at other
    obtain ⟨callback, rfl⟩ := other
    have recent := timely callback rfl
    obtain rfl := Option.some.inj stepped
    have submissions := setup_submissions before callback
    refine ⟨?_, ?_, ?_⟩
    · rw [submissions, List.length_append, List.length_singleton, ← Nat.add_assoc]
      have next : (before.setup callback).table.commandIdCounter =
          u16 (before.table.commandIdCounter + 1) := rfl
      rw [next, numbered.next]
      unfold u16
      omega
    · intro index submission found
      rw [submissions] at found
      obtain there | ⟨rfl, rfl⟩ := getElem?_added.mp found
      · exact numbered.ids index submission there
      · exact numbered.next
    · intro index submission found out
      rw [submissions] at found ⊢
      rw [List.length_append, List.length_singleton]
      obtain there | ⟨rfl, rfl⟩ := getElem?_added.mp found
      · exact recent index submission there out
      · omega

end

/-- **Command ids.** In every run of any threads, completions in any order and any delay, the
outstanding commands always have different ids and every submission gets an entry of its own, if and
only if at each submission every outstanding command was set up fewer than 2^16 submissions ago. -/
theorem separate_iff (counter : Nat) (memory : HoleTable) (inputs : List CommandInput) :
    (∀ before input after, machine.Takes (create counter memory) inputs before input after →
      Separate before input after) ↔
    ∀ before input after, machine.Takes (create counter memory) inputs before input after →
      Timely before input after := by
  apply Machine.takes_iff fun flow => Tracked flow ∧ Numbered counter flow
  · rintro before input after ⟨tracked, numbered⟩ stepped
    constructor
    · rintro ⟨-, fresh⟩ callback rfl
      obtain rfl := Option.some.inj stepped
      exact (setup_fresh_iff tracked numbered callback).mp (fresh callback rfl)
    · intro timely
      have next := timely.step tracked numbered stepped
      refine ⟨next.1.distinctIds, ?_⟩
      rintro callback rfl
      obtain rfl := Option.some.inj stepped
      exact (setup_fresh_iff tracked numbered callback).mpr (timely callback rfl)
  · rintro before input after ⟨tracked, numbered⟩ separate stepped
    have timely : Timely before input after := by
      rintro callback rfl
      obtain rfl := Option.some.inj stepped
      exact (setup_fresh_iff tracked numbered callback).mp (separate.2 callback rfl)
    exact timely.step tracked numbered stepped
  · exact ⟨.create counter memory, .create counter memory⟩

/-- A run makes no more submissions than it has steps. -/
theorem submissions_le {start flow : Commands} {inputs : List CommandInput}
    (ran : machine.run start inputs = some flow) :
    flow.submissions.length ≤ start.submissions.length + inputs.length := by
  induction inputs using List.reverseRecOn generalizing flow with
  | nil =>
    obtain rfl := Option.some.inj ran
    exact le_refl _
  | append_singleton inputs input ih =>
    obtain ⟨middle, earlier, stepped⟩ := machine.run_concat.mp ran
    have before := ih earlier
    rw [List.length_append, List.length_singleton]
    by_cases other : ∀ callback, input ≠ .setup callback
    · have follows := Follows.step other stepped
      rw [follows.length]
      omega
    · rw [not_forall_not] at other
      obtain ⟨callback, rfl⟩ := other
      obtain rfl := Option.some.inj stepped
      rw [setup_submissions, List.length_append, List.length_singleton]
      omega

/-- A run of at most 2^16 steps gives no id twice. -/
theorem distinct_of_short (counter : Nat) (memory : HoleTable) {inputs : List CommandInput}
    (short : inputs.length ≤ 2 ^ 16) {before after : Commands} {input : CommandInput}
    (taken : machine.Takes (create counter memory) inputs before input after) :
    after.DistinctIds := by
  have timely : ∀ before input after,
      machine.Takes (create counter memory) inputs before input after →
      Timely before input after := by
    rintro before input after ⟨past, future, rfl, ran, -⟩ _ _ index submission _ _
    have few := submissions_le ran
    rw [List.length_append, List.length_cons] at short
    have none : (create counter memory).submissions.length = 0 := rfl
    omega
  obtain ⟨tracked, numbered⟩ := taken.guarded (fun flow => Tracked flow ∧ Numbered counter flow)
    Timely (fun _ _ _ good timely stepped => timely.step good.1 good.2 stepped)
    ⟨.create counter memory, .create counter memory⟩ timely
  obtain ⟨_, _, _, _, stepped⟩ := id taken
  exact ((timely _ _ _ taken).step tracked numbered stepped).1.distinctIds

/-- Commands that are set up one after another are numbered from the counter, and all outstanding. -/
theorem setups (counter : Nat) (memory : HoleTable) (count : Nat) :
    ∃ flow, machine.run (create counter memory) (List.replicate count (.setup true)) = some flow ∧
      flow.table.commandIdCounter = u16 (counter + count) ∧ flow.submissions.length = count ∧
      ∀ (index : Nat) (submission : Submission), flow.submissions[index]? = some submission →
        submission.id = u16 (counter + index) ∧ submission.outstanding = true := by
  induction count with
  | zero => exact ⟨_, rfl, rfl, rfl, by simp [create]⟩
  | succ count ih =>
    obtain ⟨flow, ran, next, length, each⟩ := ih
    refine ⟨flow.setup true, ?_, ?_, ?_, ?_⟩
    · rw [List.replicate_succ']
      exact machine.run_concat.mpr ⟨flow, ran, rfl⟩
    · have after : (flow.setup true).table.commandIdCounter =
          u16 (flow.table.commandIdCounter + 1) := rfl
      rw [after, next]
      unfold u16
      omega
    · simp [setup_submissions, length]
    · intro index submission found
      rw [setup_submissions] at found
      obtain there | ⟨rfl, rfl⟩ := getElem?_added.mp found
      · exact each index submission there
      · rw [length]
        exact ⟨next, rfl⟩

/-- When 65537 commands are set up before the first is removed, the last gets the id of the first. -/
theorem id_collides : ¬ ∀ before input after,
    machine.Takes (create 0 HoleTable.init) (List.replicate 65537 (.setup true)) before input after →
      Separate before input after := by
  intro separate
  obtain ⟨flow, ran, next, length, each⟩ := setups 0 HoleTable.init 65536
  have last : machine.Takes (create 0 HoleTable.init) (List.replicate 65537 (.setup true)) flow
      (.setup true) (flow.setup true) := by
    rw [List.replicate_succ']
    exact .last ran rfl
  obtain ⟨latest, submissions, -, apart, -⟩ := (separate _ _ _ last).2 true rfl
  rw [setup_submissions, List.append_cancel_left_eq, List.singleton_inj] at submissions
  have id := congrArg Submission.id submissions
  have inside : 0 < flow.submissions.length := by omega
  obtain ⟨first, out⟩ := each 0 _ (List.getElem?_eq_getElem inside)
  apply (apart _ (List.getElem_mem inside) out).1
  rw [first, ← id, next]
  rfl

end Commands

end McmqHost
