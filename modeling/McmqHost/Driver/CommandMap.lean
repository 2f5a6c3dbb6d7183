import Mathlib.Data.List.Basic
import McmqHost.Driver.Command

/-!
# The command map

While no submission is given the id of an outstanding one, the command map is exactly the
outstanding submissions: each has the entry that its own history determines, and there is no
other entry. Each step changes one submission and the entry under its id alike.
-/

namespace McmqHost

/-- Status and result that `handle_cqe` reads from a completion, once it has handled it. -/
def Completion.outcome : Completion → Option (Nat × Nat)
  | .absent | .posted _ _ => none
  | .handled status result _ | .released status result => some (status >>> 1, result)

/-- `wait` has returned. -/
def Program.past : Program → Bool
  | .building | .waiting => false
  | .returned | .finished => true

namespace Submission

/-- What the entry of an outstanding submission has to show for its completion. -/
def shown (submission : Submission) : Option (Nat × Nat) :=
  if submission.callback then none else submission.completion.outcome

/-- The entry of an outstanding submission. -/
def entry (submission : Submission) : AsyncCommand where
  serial := submission.serial
  id := submission.id
  status := (submission.shown.map (·.1)).getD 0
  result := (submission.shown.map (·.2)).getD 0
  completed := submission.shown.isSome
  callback := if submission.callback then some submission.serial else none
  prpLists := submission.pages

/-- `wait` on the entry returns what the entry shows. -/
theorem entry_wait (submission : Submission) : submission.entry.wait = submission.shown := by
  unfold AsyncCommand.wait
  cases shown : submission.shown <;> simp [entry, shown]

/-- Places of the thread and of the completion that occur together. -/
def legal (submission : Submission) : Bool :=
  match submission.callback, submission.program, submission.completion with
  | _, .building, .absent => true
  | _, .waiting, .absent => true
  | _, .waiting, .posted _ _ => true
  | true, .waiting, .handled _ _ releaseCmd => releaseCmd
  | true, .waiting, .released _ _ => true
  | false, .waiting, .handled _ _ releaseCmd => !releaseCmd
  | false, .returned, .handled _ _ releaseCmd => !releaseCmd
  | false, .finished, .handled _ _ releaseCmd => !releaseCmd
  | _, _, _ => false

/-- The records of a submission follow from its places. -/
structure Regular (submission : Submission) : Prop where
  /-- The places occur together. -/
  legal : submission.legal = true
  /-- The callback is called once, when the completion is handled. -/
  calls : submission.calls =
    if submission.callback then submission.completion.outcome.toList else []
  /-- `wait` returns once, when the completion is handled. -/
  returns : submission.returns =
    if submission.program.past then submission.completion.outcome.toList else []
  /-- List pages are freed only after the removal. -/
  freed : submission.freed ++ submission.leaving =
    if submission.outstanding then [] else submission.pages

namespace Regular

variable {submission : Submission}

/-- Nothing is posted for a command that is being built. -/
theorem of_building (regular : submission.Regular) (building : submission.program = .building) :
    submission.completion = .absent := by
  have legal := regular.legal
  unfold Submission.legal at legal
  rw [building] at legal
  cases callback : submission.callback <;> cases completion : submission.completion <;>
    simp [callback, completion] at legal ⊢

/-- A completion is posted for a submitted command. -/
theorem of_posted (regular : submission.Regular) {status result : Nat}
    (posted : submission.completion = .posted status result) : submission.program = .waiting := by
  have legal := regular.legal
  unfold Submission.legal at legal
  rw [posted] at legal
  cases callback : submission.callback <;> cases program : submission.program <;>
    simp [callback, program] at legal ⊢

/-- A command without a completion is being built or was submitted. -/
theorem of_absent (regular : submission.Regular) (absent : submission.completion = .absent) :
    submission.program = .building ∨ submission.program = .waiting := by
  have legal := regular.legal
  unfold Submission.legal at legal
  rw [absent] at legal
  cases callback : submission.callback <;> cases program : submission.program <;>
    simp [callback, program] at legal ⊢

/-- The handler completes a command without a callback and does not remove it. -/
theorem of_shown (regular : submission.Regular) {outcome : Nat × Nat}
    (shown : submission.shown = some outcome) : submission.callback = false ∧
      ∃ status result, submission.completion = .handled status result false ∧
        outcome = (status >>> 1, result) := by
  have legal := regular.legal
  unfold Submission.legal at legal
  unfold Submission.shown at shown
  cases callback : submission.callback with
  | true => simp [callback] at shown
  | false =>
    cases completion : submission.completion with
    | handled status result releaseCmd =>
      cases program : submission.program <;>
        simp [callback, completion, program, Completion.outcome] at legal shown ⊢ <;>
        exact ⟨legal, shown.symm⟩
    | absent | posted _ _ => simp [callback, completion, Completion.outcome] at shown
    | released _ _ => cases program : submission.program <;> simp [callback, completion, program] at legal

/-- The handler removes only commands with a callback. -/
theorem of_release (regular : submission.Regular) {status result : Nat}
    (handled : submission.completion = .handled status result true) :
    submission.callback = true ∧ submission.program = .waiting := by
  have legal := regular.legal
  unfold Submission.legal at legal
  rw [handled] at legal
  cases callback : submission.callback <;> cases program : submission.program <;>
    simp [callback, program] at legal ⊢

/-- `wait` has returned only for commands without a callback whose completion was handled. -/
theorem of_past (regular : submission.Regular) (past : submission.program.past = true) :
    submission.callback = false ∧
      ∃ status result, submission.completion = .handled status result false := by
  have legal := regular.legal
  unfold Submission.legal at legal
  cases callback : submission.callback <;> cases program : submission.program <;>
    cases completion : submission.completion <;>
    simp [callback, program, completion, Program.past] at legal past ⊢
  all_goals exact legal

/-- A command whose completion was not handled is outstanding. -/
theorem of_unhandled (regular : submission.Regular) (unhandled : submission.completion.outcome = none) :
    submission.outstanding = true := by
  have absent : submission.program.past = false := by
    by_contra past
    obtain ⟨-, status, result, handled⟩ := regular.of_past (Bool.eq_true_of_not_eq_false past)
    simp [handled, Completion.outcome] at unhandled
  unfold Submission.outstanding
  cases program : submission.program <;> cases completion : submission.completion <;>
    simp [program, completion, Program.past, Completion.outcome] at absent unhandled ⊢

/-- An outstanding command has given back no list page. -/
theorem of_outstanding (regular : submission.Regular) (out : submission.outstanding = true) :
    submission.freed = [] ∧ submission.leaving = [] := by
  have freed := regular.freed
  rw [if_pos out] at freed
  exact List.append_eq_nil_iff.mp freed

end Regular

end Submission

namespace Commands

@[simp] theorem note_table (flow : Commands) (index : Nat) (change : Submission → Submission) :
    (flow.note index change).table = flow.table := rfl

@[simp] theorem note_memory (flow : Commands) (index : Nat) (change : Submission → Submission) :
    (flow.note index change).memory = flow.memory := rfl

@[simp] theorem note_buffers (flow : Commands) (index : Nat) (change : Submission → Submission) :
    (flow.note index change).buffers = flow.buffers := rfl

@[simp] theorem note_givenBack (flow : Commands) (index : Nat)
    (change : Submission → Submission) :
    (flow.note index change).givenBack = flow.givenBack := rfl

@[simp] theorem note_submissions (flow : Commands) (index : Nat)
    (change : Submission → Submission) :
    (flow.note index change).submissions = flow.submissions.modify index change := rfl

/-- Two notes about one submission are one. -/
theorem note_note (flow : Commands) (index : Nat) (first second : Submission → Submission) :
    (flow.note index first).note index second = flow.note index (second ∘ first) := by
  simp only [note, List.modify_modify_eq]

/-- The records of a list of submissions. -/
structure Recorded (submissions : List Submission) : Prop where
  /-- Each call returned the command that it made. -/
  serials : ∀ (index : Nat) (submission : Submission), submissions[index]? = some submission →
    submission.serial = index
  /-- The records follow from the places. -/
  regular : ∀ (index : Nat) (submission : Submission), submissions[index]? = some submission →
    submission.Regular

/-- The command map is exactly the outstanding submissions. -/
structure Tracked (flow : Commands) : Prop extends Recorded flow.submissions where
  /-- Each entry is that of an outstanding submission, and each of these has its entry. -/
  entries : ∀ id cmd, flow.table.commandMap id = some cmd ↔
    ∃ (index : Nat) (submission : Submission), flow.submissions[index]? = some submission ∧
      submission.outstanding = true ∧ submission.id = id ∧ submission.entry = cmd

section

variable {submissions : List Submission} {index : Nat} {submission : Submission}
  {change : Submission → Submission}

/-- The submissions after a change of one. -/
theorem getElem?_changed (found : submissions[index]? = some submission) (other : Nat) :
    (submissions.modify index change)[other]? =
      if index = other then some (change submission) else submissions[other]? := by
  rw [List.getElem?_modify]
  split
  · rename_i same
    rw [← same, found]
    rfl
  · simp

/-- The submissions after a new one. -/
theorem getElem?_added {latest second : Submission} {other : Nat} :
    (submissions ++ [latest])[other]? = some second ↔
      submissions[other]? = some second ∨ other = submissions.length ∧ second = latest := by
  by_cases before : other < submissions.length
  · rw [List.getElem?_append_left before]
    constructor
    · exact Or.inl
    · rintro (there | ⟨rfl, -⟩)
      · exact there
      · omega
  · rw [List.getElem?_append_right (by omega), List.getElem?_eq_none (l := submissions) (by omega)]
    by_cases last : other = submissions.length
    · subst last
      simp [eq_comm]
    · rw [List.getElem?_eq_none (by simp; omega)]
      simp [last]

/-- A change of one submission keeps the records. -/
theorem Recorded.modify (recorded : Recorded submissions)
    (found : submissions[index]? = some submission)
    (serial : (change submission).serial = submission.serial)
    (regular : (change submission).Regular) : Recorded (submissions.modify index change) := by
  constructor
  · intro other second there
    rw [getElem?_changed found] at there
    split at there
    · rename_i same
      obtain rfl := Option.some.inj there
      rw [serial, recorded.serials _ _ found, same]
    · exact recorded.serials _ _ there
  · intro other second there
    rw [getElem?_changed found] at there
    split at there
    · obtain rfl := Option.some.inj there
      exact regular
    · exact recorded.regular _ _ there

/-- A new submission keeps the records. -/
theorem Recorded.add (recorded : Recorded submissions)
    (serial : submission.serial = submissions.length) (regular : submission.Regular) :
    Recorded (submissions ++ [submission]) := by
  constructor
  · intro other second there
    obtain there | ⟨rfl, rfl⟩ := getElem?_added.mp there
    · exact recorded.serials _ _ there
    · exact serial
  · intro other second there
    obtain there | ⟨rfl, rfl⟩ := getElem?_added.mp there
    · exact recorded.regular _ _ there
    · exact regular

end

namespace Tracked

variable {flow after : Commands} {index : Nat} {submission : Submission}
  {change : Submission → Submission}

/-- The entry of an outstanding submission. -/
theorem entry (tracked : Tracked flow) (found : flow.submissions[index]? = some submission)
    (out : submission.outstanding = true) :
    flow.table.commandMap submission.id = some submission.entry :=
  (tracked.entries _ _).mpr ⟨index, submission, found, out, rfl, rfl⟩

/-- Outstanding submissions have different ids. -/
theorem distinct (tracked : Tracked flow) (found : flow.submissions[index]? = some submission)
    (out : submission.outstanding = true) {other : Nat} {second : Submission}
    (there : flow.submissions[other]? = some second) (also : second.outstanding = true)
    (same : second.id = submission.id) : other = index := by
  have first := tracked.entry found out
  have entry := tracked.entry there also
  rw [same, first] at entry
  have serial := congrArg AsyncCommand.serial (Option.some.inj entry)
  change submission.serial = second.serial at serial
  rw [tracked.serials _ _ found, tracked.serials _ _ there] at serial
  exact serial.symm

/-- A pointer of a submission leads to its own entry. -/
theorem deref (tracked : Tracked flow) (found : flow.submissions[index]? = some submission)
    {cmd : AsyncCommand} (points : flow.deref submission = some cmd) :
    submission.outstanding = true ∧ cmd = submission.entry := by
  obtain ⟨mapped, same⟩ := Option.filter_eq_some_iff.mp points
  obtain ⟨other, second, there, out, -, rfl⟩ := (tracked.entries _ _).mp mapped
  have serial : second.serial = submission.serial := of_decide_eq_true same
  rw [tracked.serials _ _ found, tracked.serials _ _ there] at serial
  subst serial
  rw [found] at there
  obtain rfl := Option.some.inj there
  exact ⟨out, rfl⟩

/-- The pointer of an outstanding submission is valid. -/
theorem points (tracked : Tracked flow) (found : flow.submissions[index]? = some submission)
    (out : submission.outstanding = true) : flow.deref submission = some submission.entry := by
  rw [Commands.deref, tracked.entry found out, Option.filter_some, if_pos]
  simp [Submission.entry]

/-- A change of one outstanding submission, with its entry. -/
theorem change_outstanding (tracked : Tracked flow) (change : Submission → Submission)
    (found : flow.submissions[index]? = some submission) (out : submission.outstanding = true)
    (submissions : after.submissions = flow.submissions.modify index change)
    (map : after.table.commandMap = Function.update flow.table.commandMap submission.id
      (if (change submission).outstanding then some (change submission).entry else none))
    (serial : (change submission).serial = submission.serial)
    (id : (change submission).id = submission.id) (regular : (change submission).Regular) :
    Tracked after := by
  refine ⟨submissions ▸ tracked.modify found serial regular, ?_⟩
  intro key cmd
  rw [map, submissions]
  by_cases same : key = submission.id
  · subst same
    rw [Function.update_self]
    constructor
    · intro mapped
      split at mapped
      · rename_i still
        refine ⟨index, change submission, ?_, still, id, Option.some.inj mapped⟩
        rw [getElem?_changed found, if_pos rfl]
      · contradiction
    · rintro ⟨other, second, there, also, alike, rfl⟩
      rw [getElem?_changed found] at there
      split at there
      · obtain rfl := Option.some.inj there
        rw [if_pos also]
      · rename_i differ
        exact absurd (tracked.distinct found out there also alike).symm differ
  · rw [Function.update_of_ne same, tracked.entries]
    constructor
    · rintro ⟨other, second, there, also, rfl, rfl⟩
      refine ⟨other, second, ?_, also, rfl, rfl⟩
      rw [getElem?_changed found, if_neg]
      · exact there
      · rintro rfl
        rw [found] at there
        exact same (congrArg Submission.id (Option.some.inj there)).symm
    · rintro ⟨other, second, there, also, rfl, rfl⟩
      rw [getElem?_changed found] at there
      split at there
      · obtain rfl := Option.some.inj there
        exact absurd id same
      · exact ⟨other, second, there, also, rfl, rfl⟩

/-- A change of one removed submission. -/
theorem change_removed (tracked : Tracked flow)
    (found : flow.submissions[index]? = some submission) (out : submission.outstanding = false)
    (submissions : after.submissions = flow.submissions.modify index change)
    (map : after.table.commandMap = flow.table.commandMap)
    (serial : (change submission).serial = submission.serial)
    (still : (change submission).outstanding = false) (regular : (change submission).Regular) :
    Tracked after := by
  refine ⟨submissions ▸ tracked.modify found serial regular, ?_⟩
  intro key cmd
  rw [map, submissions, tracked.entries]
  constructor
  · rintro ⟨other, second, there, also, rfl, rfl⟩
    refine ⟨other, second, ?_, also, rfl, rfl⟩
    rw [getElem?_changed found, if_neg]
    · exact there
    · rintro rfl
      rw [found] at there
      obtain rfl := Option.some.inj there
      rw [out] at also
      contradiction
  · rintro ⟨other, second, there, also, rfl, rfl⟩
    rw [getElem?_changed found] at there
    split at there
    · obtain rfl := Option.some.inj there
      rw [still] at also
      contradiction
    · exact ⟨other, second, there, also, rfl, rfl⟩

/-- What touches neither submissions nor the map keeps the two in step. -/
theorem frame (tracked : Tracked flow) (submissions : after.submissions = flow.submissions)
    (map : after.table.commandMap = flow.table.commandMap) : Tracked after := by
  refine ⟨submissions ▸ tracked.toRecorded, ?_⟩
  rw [submissions, map]
  exact tracked.entries

/-- A start without submissions. -/
theorem create (counter : Nat) (memory : HoleTable) : Tracked (create counter memory) := by
  refine ⟨⟨?_, ?_⟩, ?_⟩ <;> simp [Commands.create]

/-- A submission whose id is unused gets an entry of its own. -/
theorem setup (tracked : Tracked flow) (callback : Bool)
    (unused : flow.table.commandMap flow.table.commandIdCounter = none) :
    Tracked (flow.setup callback) := by
  let latest : Submission := ⟨flow.submissions.length, flow.table.commandIdCounter, callback,
    .building, .absent, [], [], [], [], []⟩
  have submissions : (flow.setup callback).submissions = flow.submissions ++ [latest] := by
    simp [Commands.setup, CommandTable.setupAsyncCommand, unused, AsyncCommand.make, latest]
  have map : (flow.setup callback).table.commandMap =
      Function.update flow.table.commandMap flow.table.commandIdCounter (some latest.entry) := by
    simp [Commands.setup, CommandTable.setupAsyncCommand, unused, AsyncCommand.make, latest,
      Submission.entry, Submission.shown, Completion.outcome]
  have regular : latest.Regular := by
    constructor <;> simp [latest, Submission.legal, Completion.outcome, Submission.outstanding,
      Program.past]
  refine ⟨submissions ▸ tracked.add rfl regular, ?_⟩
  intro key cmd
  rw [map, submissions]
  by_cases same : key = flow.table.commandIdCounter
  · subst same
    rw [Function.update_self]
    constructor
    · intro mapped
      exact ⟨_, latest, getElem?_added.mpr (Or.inr ⟨rfl, rfl⟩), rfl, rfl, Option.some.inj mapped⟩
    · rintro ⟨other, second, there, out, alike, rfl⟩
      obtain there | ⟨-, rfl⟩ := getElem?_added.mp there
      · have entry := tracked.entry there out
        rw [alike, unused] at entry
        contradiction
      · rfl
  · rw [Function.update_of_ne same, tracked.entries]
    constructor
    · rintro ⟨other, second, there, out, rfl, rfl⟩
      exact ⟨other, second, getElem?_added.mpr (Or.inl there), out, rfl, rfl⟩
    · rintro ⟨other, second, there, out, rfl, rfl⟩
      obtain there | ⟨-, rfl⟩ := getElem?_added.mp there
      · exact ⟨other, second, there, out, rfl, rfl⟩
      · exact absurd rfl same

/-- `remove_async_command` of an outstanding submission leaves its list pages to the destructor. -/
theorem removeCommand_eq (tracked : Tracked flow)
    (found : flow.submissions[index]? = some submission) (out : submission.outstanding = true) :
    flow.removeCommand submission.id =
      { flow with table := flow.table.removeAsyncCommand submission.id }.note index
        fun removed => { removed with leaving := submission.pages } := by
  have serial : submission.entry.serial = index := tracked.serials _ _ found
  rw [removeCommand, tracked.entry found out]
  simp only [serial]
  rfl

/-- A removal, with what the remover notes. -/
theorem remove (tracked : Tracked flow) (found : flow.submissions[index]? = some submission)
    (out : submission.outstanding = true) {note : Submission → Submission}
    (serial : ∀ other : Submission, (note other).serial = other.serial)
    (id : ∀ other : Submission, (note other).id = other.id)
    (gone : (note { submission with leaving := submission.pages }).outstanding = false)
    (regular : (note { submission with leaving := submission.pages }).Regular) :
    Tracked ((flow.removeCommand submission.id).note index note) := by
  rw [tracked.removeCommand_eq found out]
  refine tracked.change_outstanding (fun removed => note { removed with leaving := submission.pages })
    found out ?_ ?_ (serial _) (id _) regular
  · simp only [note_submissions, List.modify_modify_eq]
    rfl
  · rw [if_neg (by rw [gone]; decide)]
    rfl

/-- A change that leaves the entry as it is. -/
theorem change_place (tracked : Tracked flow) (found : flow.submissions[index]? = some submission)
    (out : submission.outstanding = true) (still : (change submission).outstanding = true)
    (same : (change submission).entry = submission.entry) (regular : (change submission).Regular) :
    Tracked (flow.note index change) := by
  refine tracked.change_outstanding _ found out rfl ?_ (congrArg AsyncCommand.serial same)
    (congrArg AsyncCommand.id same) regular
  rw [if_pos still, same, ← tracked.entry found out, Function.update_eq_self]
  rfl

/-- An entry for an outstanding submission calls its callback, or completes its entry. -/
theorem deliver_eq (tracked : Tracked flow) (found : flow.submissions[index]? = some submission)
    (out : submission.outstanding = true) (status result : Nat) :
    flow.deliver ⟨submission.id, status, result⟩ =
      if submission.callback then
        (flow.note index fun called =>
          { called with calls := called.calls ++ [(status >>> 1, result)] }, true)
      else
        ({ flow with table := { flow.table with
            commandMap := Function.update flow.table.commandMap submission.id
              (some { submission.entry with
                status := status >>> 1, result := result, completed := true }) } }, false) := by
  have serial : submission.serial = index := tracked.serials _ _ found
  rw [deliver, CommandTable.handleCqe, tracked.entry found out]
  cases callback : submission.callback with
  | true => simp only [Submission.entry, callback, if_true, serial]
  | false => simp only [Submission.entry, callback, Bool.false_eq_true, if_false]

/-- The completion of an outstanding submission is recorded where it belongs. -/
theorem handle (tracked : Tracked flow) (found : flow.submissions[index]? = some submission)
    {status result : Nat} (posted : submission.completion = .posted status result)
    (stepped : flow.stepAt index submission (.handle index) = some after) : Tracked after := by
  have regular := tracked.regular _ _ found
  have waiting := regular.of_posted posted
  have out : submission.outstanding = true := by simp [Submission.outstanding, waiting, posted]
  obtain ⟨freed, leaving⟩ := regular.of_outstanding out
  have calls := regular.calls
  have returns := regular.returns
  simp only [posted, Completion.outcome, Option.toList_none, ite_self] at calls
  simp only [waiting, Program.past, Bool.false_eq_true, if_false] at returns
  simp only [Commands.stepAt, posted, tracked.deliver_eq found out] at stepped
  cases callback : submission.callback with
  | true =>
    simp only [callback, if_true, note_note, Option.some.injEq] at stepped
    subst stepped
    refine tracked.change_place found out ?_ ?_ ?_
    · simp [Submission.outstanding, waiting]
    · simp [Submission.entry, Submission.shown, callback]
    · constructor <;> simp [Submission.legal, Submission.outstanding, callback, waiting, calls,
        returns, freed, leaving, Completion.outcome, Program.past]
  | false =>
    simp only [callback, Bool.false_eq_true, if_false, Option.some.injEq] at stepped
    subst stepped
    refine tracked.change_outstanding _ found out rfl ?_ rfl rfl ?_
    · simp [Submission.outstanding, Submission.entry, Submission.shown, callback, waiting,
        Completion.outcome]
    · constructor <;> simp [Submission.legal, Submission.outstanding, callback, waiting, calls,
        returns, freed, leaving, Program.past]

/-- A step for one submission keeps the map exact. -/
theorem stepAt (tracked : Tracked flow) (found : flow.submissions[index]? = some submission)
    {input : CommandInput} (stepped : flow.stepAt index submission input = some after) :
    Tracked after := by
  have regular := tracked.regular _ _ found
  cases input with
  | takePage _ =>
    simp only [Commands.stepAt] at stepped
    split at stepped
    · rename_i cmd page memory building points gave
      obtain rfl := Option.some.inj stepped
      obtain ⟨out, rfl⟩ := tracked.deref found points
      obtain ⟨freed, leaving⟩ := regular.of_outstanding out
      have still : ({ submission with pages := submission.pages ++ [page] } : Submission).outstanding
        = true := out
      refine tracked.change_outstanding _ found out rfl ?_ rfl rfl ?_
      · rw [if_pos still]
        rfl
      · exact {
          legal := regular.legal
          calls := regular.calls
          returns := regular.returns
          freed := by
            rw [if_pos still]
            simp [freed, leaving] }
    · contradiction
  | submit _ =>
    simp only [Commands.stepAt] at stepped
    split at stepped
    · rename_i building
      obtain rfl := Option.some.inj stepped
      have absent := regular.of_building building
      have out : submission.outstanding = true := by
        simp [Submission.outstanding, building, absent]
      have still : ({ submission with program := .waiting } : Submission).outstanding = true := by
        simp [Submission.outstanding, absent]
      refine tracked.change_place found out still rfl ?_
      exact {
        legal := by simp [Submission.legal, absent]
        calls := regular.calls
        returns := by simpa [building, Program.past] using regular.returns
        freed := by
          rw [if_pos still]
          simpa [out] using regular.freed }
    · contradiction
  | post _ status result =>
    simp only [Commands.stepAt] at stepped
    split at stepped
    · contradiction
    · rename_i absent built
      obtain rfl := Option.some.inj stepped
      have waiting := (regular.of_absent absent).resolve_left built
      have out : submission.outstanding = true := by
        simp [Submission.outstanding, waiting, absent]
      have still : ({ submission with completion := .posted status result } :
          Submission).outstanding = true := by
        simp [Submission.outstanding, waiting]
      refine tracked.change_place found out still ?_ ?_
      · simp [Submission.entry, Submission.shown, absent, Completion.outcome]
      · exact {
          legal := by simp [Submission.legal, waiting]
          calls := by simpa [absent, Completion.outcome] using regular.calls
          returns := by simpa [absent, Completion.outcome] using regular.returns
          freed := by
            rw [if_pos still]
            simpa [out] using regular.freed }
    · contradiction
  | handle _ =>
    cases posted : submission.completion with
    | posted status result => exact tracked.handle found posted stepped
    | absent | handled _ _ _ | released _ _ =>
      simp only [Commands.stepAt, posted] at stepped
      contradiction
  | release _ =>
    simp only [Commands.stepAt] at stepped
    split at stepped
    · rename_i status result handled
      obtain rfl := Option.some.inj stepped
      obtain ⟨callback, waiting⟩ := regular.of_release handled
      have out : submission.outstanding = true := by
        simp [Submission.outstanding, waiting, handled]
      obtain ⟨freed, leaving⟩ := regular.of_outstanding out
      refine tracked.remove found out (fun _ => rfl) (fun _ => rfl) ?_ ?_
      · simp [Submission.outstanding, waiting]
      · exact {
          legal := by simp [Submission.legal, callback, waiting]
          calls := by simpa [handled, Completion.outcome] using regular.calls
          returns := by simpa [waiting, Program.past] using regular.returns
          freed := by simp [Submission.outstanding, waiting, freed] }
    · contradiction
  | wait _ =>
    simp only [Commands.stepAt] at stepped
    split at stepped
    · rename_i outcome waiting read
      obtain rfl := Option.some.inj stepped
      obtain ⟨cmd, points, read⟩ := Option.bind_eq_some_iff.mp read
      obtain ⟨out, rfl⟩ := tracked.deref found points
      rw [Submission.entry_wait] at read
      obtain ⟨callback, status, result, handled, rfl⟩ := regular.of_shown read
      have still : ({ submission with
          program := .returned, returns := submission.returns ++ [(status >>> 1, result)] } :
          Submission).outstanding = true := by
        simp [Submission.outstanding, handled]
      refine tracked.change_place found out still rfl ?_
      exact {
        legal := by simp [Submission.legal, callback, handled]
        calls := regular.calls
        returns := by
          have returns := regular.returns
          rw [waiting] at returns
          simpa [Program.past, handled, Completion.outcome] using returns
        freed := by
          rw [if_pos still]
          simpa [out] using regular.freed }
    · contradiction
  | remove _ =>
    simp only [Commands.stepAt] at stepped
    split at stepped
    · rename_i cmd returned points
      obtain rfl := Option.some.inj stepped
      obtain ⟨out, rfl⟩ := tracked.deref found points
      obtain ⟨callback, status, result, handled⟩ := regular.of_past (by simp [returned, Program.past])
      obtain ⟨freed, leaving⟩ := regular.of_outstanding out
      refine tracked.remove found out (fun _ => rfl) (fun _ => rfl) ?_ ?_
      · simp [Submission.outstanding]
      · exact {
          legal := by simp [Submission.legal, callback, handled]
          calls := regular.calls
          returns := by simpa [returned, Program.past] using regular.returns
          freed := by simp [Submission.outstanding, freed] }
    · contradiction
  | freePage _ =>
    simp only [Commands.stepAt] at stepped
    split at stepped
    · contradiction
    · rename_i page rest leaving
      split at stepped
      · contradiction
      · rename_i memory freed
        obtain rfl := Option.some.inj stepped
        have history := regular.freed
        have gone : submission.outstanding = false := by
          cases out : submission.outstanding with
          | false => rfl
          | true =>
            rw [(regular.of_outstanding out).2] at leaving
            contradiction
        refine tracked.change_removed found gone rfl rfl rfl gone ?_
        exact {
          legal := regular.legal
          calls := regular.calls
          returns := regular.returns
          freed := by
            have still : ({ submission with leaving := rest, freed := submission.freed ++ [page] } :
                Submission).outstanding = false := gone
            rw [still]
            rw [gone, leaving] at history
            simpa using history }
  | setup _ | stray _ | borrow _ | giveBack _ => contradiction

/-- Every step keeps the map exact, unless it sets up a command under a used id. -/
theorem step (tracked : Tracked flow) {input : CommandInput}
    (unused : ∀ callback, input = .setup callback →
      flow.table.commandMap flow.table.commandIdCounter = none)
    (stepped : flow.step input = some after) : Tracked after := by
  unfold Commands.step at stepped
  split at stepped
  · obtain rfl := Option.some.inj stepped
    exact tracked.setup _ (unused _ rfl)
  · split at stepped
    · rename_i unknown
      obtain rfl := Option.some.inj stepped
      exact tracked.frame (by simp [deliver, CommandTable.handleCqe, unknown])
        (by simp [deliver, CommandTable.handleCqe, unknown])
    · contradiction
  · split at stepped
    · split at stepped
      · contradiction
      · obtain rfl := Option.some.inj stepped
        exact tracked.frame rfl rfl
    · contradiction
  · split at stepped
    · contradiction
    · split at stepped
      · contradiction
      · obtain rfl := Option.some.inj stepped
        exact tracked.frame rfl rfl
  all_goals
    split at stepped
    · contradiction
    · rename_i found
      exact tracked.stepAt found stepped

end Tracked

end Commands

end McmqHost
