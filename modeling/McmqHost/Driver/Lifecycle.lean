import McmqHost.Driver.CommandIds

/-!
# The lifecycle of a command

While outstanding commands have different ids, each completion finds its own command: a
callback is called once, a waiting thread returns once, and both get the status and result of
their command. The list pages of a command are in use until it is removed, and its destructor
then gives each of them back.
-/

namespace McmqHost

open Extents HoleTable

/-- List pages that a submission has in use. -/
def Submission.keeps (submission : Submission) : List Address :=
  if submission.outstanding then submission.pages else submission.leaving

namespace Commands

/-- List pages in use. -/
def listPages (flow : Commands) : List Address := flow.submissions.flatMap Submission.keeps

/-- What a step for a submission does to its list pages. -/
inductive PageMove (memory : HoleTable) (submission : Submission) : HoleTable → Submission → Prop
  /-- Nothing. -/
  | keep {later : Submission} : later.keeps = submission.keeps →
    PageMove memory submission memory later
  /-- It takes a page. -/
  | take {later : Submission} {page : Address} {after : HoleTable} :
    memory.allocatePages ctrlPageSize = .ok (page, after) →
    later.keeps = submission.keeps ++ [page] → PageMove memory submission after later
  /-- It gives a page back. -/
  | free {later : Submission} {page : Address} {rest : List Address} {after : HoleTable} :
    submission.keeps = page :: rest → later.keeps = rest → memory.free page 0x1000 = .ok after →
    PageMove memory submission after later

/-- A change of one submission changes its own list pages. -/
theorem listPages_modify {submissions : List Submission} {index : Nat} {submission : Submission}
    (found : submissions[index]? = some submission) (change : Submission → Submission) :
    ∃ others, (submissions.flatMap Submission.keeps).Perm (submission.keeps ++ others) ∧
      ((submissions.modify index change).flatMap Submission.keeps).Perm
        ((change submission).keeps ++ others) := by
  obtain ⟨inside, rfl⟩ := List.getElem?_eq_some_iff.mp found
  refine ⟨(submissions.take index).flatMap Submission.keeps ++
    (submissions.drop (index + 1)).flatMap Submission.keeps, ?_, ?_⟩
  · have split := List.take_append_drop index submissions
    rw [List.drop_eq_getElem_cons inside] at split
    nth_rewrite 1 [← split]
    rw [List.flatMap_append, List.flatMap_cons]
    exact List.perm_append_comm_assoc _ _ _
  · rw [List.modify_eq_take_cons_drop inside, List.flatMap_append, List.flatMap_cons]
    exact List.perm_append_comm_assoc _ _ _

variable {low high : Nat} {pool : Set Nat} {flow after : Commands}

/-- Memory is what is free, in use by threads and commands, and lost with buffers. -/
def Supplied (low high : Nat) (pool : Set Nat) (flow : Commands) : Prop :=
  Stocked low high pool flow.memory flow.buffers flow.listPages
    (cover (flow.givenBack.map bufferSlack))

/-- A page move keeps memory accounted for. -/
theorem Supplied.move (supplied : Supplied low high pool flow) (region : Region low high)
    {index : Nat} {submission : Submission} {change : Submission → Submission}
    (found : flow.submissions[index]? = some submission)
    (submissions : after.submissions = flow.submissions.modify index change)
    (buffers : after.buffers = flow.buffers) (givenBack : after.givenBack = flow.givenBack)
    (move : PageMove flow.memory submission after.memory (change submission)) :
    Supplied low high pool after := by
  obtain ⟨others, earlier, later⟩ := listPages_modify found change
  have stocked : Stocked low high pool flow.memory flow.buffers (submission.keeps ++ others)
      (cover (flow.givenBack.map bufferSlack)) := supplied.perm (.refl _) earlier
  unfold Supplied listPages
  rw [submissions, buffers, givenBack]
  apply Stocked.perm _ (.refl flow.buffers) later.symm
  generalize after.memory = memory at move
  generalize change submission = changed at move
  cases move with
  | keep same => rwa [same]
  | take gave grown =>
    rw [grown, List.append_assoc]
    exact (stocked.takePage region gave).perm (.refl _) List.perm_middle.symm
  | free kept left freed =>
    rw [kept] at stocked
    rw [left]
    exact stocked.giveBackPage region freed

/-- Each step for a submission is a page move. -/
theorem Tracked.stepAt_move (tracked : Tracked flow) {index : Nat} {submission : Submission}
    (found : flow.submissions[index]? = some submission) {input : CommandInput}
    (stepped : flow.stepAt index submission input = some after) :
    ∃ change : Submission → Submission,
      after.submissions = flow.submissions.modify index change ∧ after.buffers = flow.buffers ∧
      after.givenBack = flow.givenBack ∧
      PageMove flow.memory submission after.memory (change submission) := by
  have regular := tracked.regular _ _ found
  cases input with
  | takePage _ =>
    simp only [Commands.stepAt] at stepped
    split at stepped
    · rename_i cmd page memory building points gave
      obtain rfl := Option.some.inj stepped
      obtain ⟨out, -⟩ := tracked.deref found points
      refine ⟨_, rfl, rfl, rfl, .take gave ?_⟩
      have still : ({ submission with pages := submission.pages ++ [page] } : Submission).outstanding
        = true := out
      rw [Submission.keeps, if_pos still, Submission.keeps, if_pos out]
    · contradiction
  | submit _ =>
    simp only [Commands.stepAt] at stepped
    split at stepped
    · rename_i building
      obtain rfl := Option.some.inj stepped
      have absent := regular.of_building building
      refine ⟨_, rfl, rfl, rfl, .keep ?_⟩
      simp [Submission.keeps, Submission.outstanding, building, absent]
    · contradiction
  | post _ status result =>
    simp only [Commands.stepAt] at stepped
    split at stepped
    · contradiction
    · rename_i absent built
      obtain rfl := Option.some.inj stepped
      have waiting := (regular.of_absent absent).resolve_left built
      refine ⟨_, rfl, rfl, rfl, .keep ?_⟩
      simp [Submission.keeps, Submission.outstanding, waiting, absent]
    · contradiction
  | handle _ =>
    cases posted : submission.completion with
    | posted status result =>
      have waiting := regular.of_posted posted
      have out : submission.outstanding = true := by simp [Submission.outstanding, waiting, posted]
      simp only [Commands.stepAt, posted, tracked.deliver_eq found out] at stepped
      obtain rfl := Option.some.inj stepped
      cases callback : submission.callback with
      | true =>
        simp only [if_true, note_note]
        refine ⟨_, rfl, rfl, rfl, .keep ?_⟩
        simp [Submission.keeps, Submission.outstanding, waiting, posted]
      | false =>
        simp only [Bool.false_eq_true, if_false]
        refine ⟨_, rfl, rfl, rfl, .keep ?_⟩
        simp [Submission.keeps, Submission.outstanding, waiting, posted]
    | absent | handled _ _ _ | released _ _ =>
      simp only [Commands.stepAt, posted] at stepped
      contradiction
  | release _ =>
    simp only [Commands.stepAt] at stepped
    split at stepped
    · rename_i status result handled
      obtain rfl := Option.some.inj stepped
      obtain ⟨callback, waiting⟩ := regular.of_release handled
      have out : submission.outstanding = true := by
        simp [Submission.outstanding, waiting, handled]
      rw [tracked.removeCommand_eq found out, note_note]
      refine ⟨_, rfl, rfl, rfl, .keep ?_⟩
      simp [Submission.keeps, Submission.outstanding, waiting, handled]
    · contradiction
  | wait _ =>
    simp only [Commands.stepAt] at stepped
    split at stepped
    · rename_i outcome waiting read
      obtain rfl := Option.some.inj stepped
      refine ⟨_, rfl, rfl, rfl, .keep ?_⟩
      cases completion : submission.completion <;>
        simp [Submission.keeps, Submission.outstanding, waiting, completion]
    · contradiction
  | remove _ =>
    simp only [Commands.stepAt] at stepped
    split at stepped
    · rename_i cmd returned points
      obtain rfl := Option.some.inj stepped
      obtain ⟨out, rfl⟩ := tracked.deref found points
      have id : submission.entry.id = submission.id := rfl
      rw [id, tracked.removeCommand_eq found out, note_note]
      refine ⟨_, rfl, rfl, rfl, .keep ?_⟩
      rw [Submission.keeps, Submission.keeps, if_pos out]
      simp [Submission.outstanding]
    · contradiction
  | freePage _ =>
    simp only [Commands.stepAt] at stepped
    split at stepped
    · contradiction
    · rename_i page rest leaving
      split at stepped
      · contradiction
      · rename_i memory freed
        obtain rfl := Option.some.inj stepped
        have gone : submission.outstanding = false := by
          cases out : submission.outstanding with
          | false => rfl
          | true =>
            rw [(regular.of_outstanding out).2] at leaving
            contradiction
        have kept : submission.keeps = page :: rest := by simp [Submission.keeps, gone, leaving]
        refine ⟨_, rfl, rfl, rfl, .free kept ?_ freed⟩
        have still : ({ submission with leaving := rest, freed := submission.freed ++ [page] } :
            Submission).outstanding = false := gone
        simp [Submission.keeps, still]
  | setup _ | stray _ | borrow _ | giveBack _ => contradiction

/-- Every step keeps memory accounted for. -/
theorem Supplied.step (supplied : Supplied low high pool flow) (region : Region low high)
    (tracked : Tracked flow) {input : CommandInput} (stepped : flow.step input = some after) :
    Supplied low high pool after := by
  unfold Commands.step at stepped
  split at stepped
  · rename_i callback
    obtain rfl := Option.some.inj stepped
    have pages : (flow.setup callback).listPages = flow.listPages := by
      rw [listPages, setup_submissions, List.flatMap_append]
      simp [listPages, Submission.keeps, Submission.outstanding]
    unfold Supplied
    rw [pages]
    exact supplied
  · split at stepped
    · rename_i unknown
      obtain rfl := Option.some.inj stepped
      simpa [deliver, CommandTable.handleCqe, unknown] using supplied
    · contradiction
  · split at stepped
    · rename_i rounds
      split at stepped
      · contradiction
      · rename_i address memory gave
        obtain rfl := Option.some.inj stepped
        exact supplied.take region rounds gave
    · contradiction
  · split at stepped
    · contradiction
    · rename_i index buffer held
      split at stepped
      · contradiction
      · rename_i memory freed
        obtain rfl := Option.some.inj stepped
        obtain ⟨inside, rfl⟩ := List.getElem?_eq_some_iff.mp held
        have front := supplied.perm (List.getElem_cons_eraseIdx_perm inside).symm (.refl _)
        have next := front.giveBack region freed
        unfold Supplied
        rw [List.map_cons, cover_cons, Set.union_comm]
        exact next
  all_goals
    split at stepped
    · contradiction
    · rename_i found
      obtain ⟨change, submissions, buffers, givenBack, move⟩ := tracked.stepAt_move found stepped
      exact supplied.move region found submissions buffers givenBack move

/-- All that `setup_buffer` does to the allocator and to `prp_lists` is a run of the machine. -/
theorem Tracked.setupBuffer_run (tracked : Tracked flow) {index : Nat} {submission : Submission}
    (found : flow.submissions[index]? = some submission) (building : submission.program = .building)
    {space : MemorySpace} (same : space.table = flow.memory) {buf buflen : Nat} {prps : Prps}
    (ok : Prps.setupBuffer space buf buflen = .ok prps) :
    ∃ (after : Commands) (later : Submission), machine.Reaches flow after ∧
      after.memory = prps.space.table ∧ after.submissions[index]? = some later ∧
      later.pages = submission.pages ++ prps.prpLists := by
  let Grown (table : HoleTable) (prpLists : List Address) : Prop :=
    ∃ (after : Commands) (later : Submission), machine.Reaches flow after ∧ Tracked after ∧
      after.memory = table ∧ after.submissions[index]? = some later ∧ later.program = .building ∧
      later.pages = submission.pages ++ prpLists
  have grow : ∀ table prpLists address next, Grown table prpLists →
      table.allocatePages ctrlPageSize = .ok (address, next) →
      Grown next (prpLists ++ [address]) := by
    rintro table prpLists address next ⟨before, later, reached, tracked, rfl, there, build, pages⟩ gave
    have absent := (tracked.regular _ _ there).of_building build
    have out : later.outstanding = true := by simp [Submission.outstanding, build, absent]
    have stepped : machine.step before (.takePage index) =
        some (before.pushPage index later.id later.entry address next) := by
      simp only [machine, Commands.step, there, Commands.stepAt, build, tracked.points there out,
        gave]
    have taking : before.step (.takePage index) =
        some (before.pushPage index later.id later.entry address next) := stepped
    have next := tracked.step (fun callback setup => by cases setup) taking
    refine ⟨_, { later with pages := later.pages ++ [address] }, reached.step stepped, next, rfl, ?_,
      build, ?_⟩
    · rw [pushPage, note_submissions, getElem?_changed there, if_pos rfl]
    · rw [pages, List.append_assoc]
  have start : Grown space.table [] := ⟨flow, submission, .refl _ _, tracked, same.symm, found,
    building, (List.append_nil _).symm⟩
  obtain ⟨after, later, reached, -, memory, there, -, pages⟩ := Prps.setupBuffer_rule grow start ok
  exact ⟨after, later, reached, memory, there, pages⟩

/-- A step after which outstanding commands have different ids used an unused id. -/
theorem DistinctIds.unused (distinct : after.DistinctIds) (tracked : Tracked flow)
    {callback : Bool} (stepped : flow.step (.setup callback) = some after) :
    flow.table.commandMap flow.table.commandIdCounter = none := by
  obtain rfl := Option.some.inj stepped
  cases mapped : flow.table.commandMap flow.table.commandIdCounter with
  | none => rfl
  | some cmd =>
    obtain ⟨index, submission, found, out, same, -⟩ := (tracked.entries _ _).mp mapped
    rw [DistinctIds, setup_submissions, List.pairwise_append] at distinct
    have apart := distinct.2.2 submission (List.mem_of_getElem? found) _ List.mem_cons_self out rfl
    exact absurd same apart

/-- What the driver promises about commands in every state. -/
structure Lifecycle (initial : HoleTable) (flow : Commands) : Prop where
  /-- A callback is called exactly once when the completion of its command is handled, with the
  status and the result of that command, and not before. -/
  called : ∀ submission ∈ flow.submissions, submission.calls =
    if submission.callback then submission.completion.outcome.toList else []
  /-- `wait` returns the status and the result of its own command, and once. -/
  waited : ∀ submission ∈ flow.submissions, submission.returns =
    if submission.program.past then submission.completion.outcome.toList else []
  /-- It returns only after the completion of that command was handled. -/
  handled : ∀ submission ∈ flow.submissions, submission.program.past = true →
    submission.callback = false ∧ submission.completion.outcome.isSome = true
  /-- It does return then. -/
  wakes : ∀ (index : Nat) (submission : Submission), flow.submissions[index]? = some submission →
    submission.callback = false → submission.program = .waiting →
    submission.completion.outcome.isSome = true → (flow.step (.wait index)).isSome = true
  /-- Entries with unknown ids change nothing. -/
  unknown : ∀ cqe, flow.table.commandMap cqe.commandId = none → flow.deliver cqe = (flow, false)
  /-- A command is removed only after its completion was handled. -/
  kept : ∀ submission ∈ flow.submissions, submission.completion.outcome = none →
    submission.outstanding = true
  /-- Until the removal none of its list pages is freed, or free. -/
  held : ∀ submission ∈ flow.submissions, submission.outstanding = true → submission.freed = [] ∧
    ∀ page ∈ submission.pages, Disjoint (pageExtent page).bytes flow.memory.freeBytes
  /-- List pages in use and buffers are disjoint. -/
  exclusive : Exclusive (flow.buffers.map bufferPages ++ flow.listPages.map pageExtent)
  /-- After the removal each list page is freed once. -/
  freedOnce : ∀ submission ∈ flow.submissions, submission.outstanding = false →
    submission.freed ++ submission.leaving = submission.pages
  /-- What was free at first is free, in use, or lost with a buffer. -/
  conserved : flow.memory.freeBytes ∪ cover (flow.buffers.map bufferPages) ∪
    cover (flow.listPages.map pageExtent) ∪ cover (flow.givenBack.map bufferSlack) =
      initial.freeBytes
  /-- When nothing is outstanding the map is empty and no list page is in use. -/
  drained : (∀ submission ∈ flow.submissions,
      submission.outstanding = false ∧ submission.leaving = []) →
    (∀ id, flow.table.commandMap id = none) ∧ flow.listPages = []

/-- The promises follow from the exact map and the accounts of memory. -/
theorem Tracked.lived {initial : HoleTable} (tracked : Tracked flow)
    (supplied : Supplied low high initial.freeBytes flow) : Lifecycle initial flow := by
  have regular : ∀ submission ∈ flow.submissions, submission.Regular := by
    intro submission listed
    obtain ⟨index, found⟩ := List.getElem?_of_mem listed
    exact tracked.regular index submission found
  obtain ⟨extents, paged⟩ := supplied.paged
  exact {
    called := fun submission listed => (regular submission listed).calls
    waited := fun submission listed => (regular submission listed).returns
    handled := by
      intro submission listed past
      obtain ⟨callback, status, result, handled⟩ := (regular submission listed).of_past past
      exact ⟨callback, by simp [handled, Completion.outcome]⟩
    wakes := by
      intro index submission found callback waiting seen
      obtain ⟨outcome, seen⟩ := Option.isSome_iff_exists.mp seen
      have shown : submission.shown = some outcome := by simp [Submission.shown, callback, seen]
      obtain ⟨-, status, result, handled, -⟩ :=
        (tracked.regular index submission found).of_shown shown
      have out : submission.outstanding = true := by
        simp [Submission.outstanding, waiting, handled]
      simp [Commands.step, found, Commands.stepAt, waiting, tracked.points found out,
        Submission.entry_wait, shown]
    unknown := by
      intro cqe unknown
      simp [deliver, CommandTable.handleCqe, unknown]
    kept := fun submission listed => (regular submission listed).of_unhandled
    held := by
      intro submission listed out
      refine ⟨((regular submission listed).of_outstanding out).1, ?_⟩
      intro page held
      apply supplied.kept
      refine List.mem_flatMap.mpr ⟨submission, listed, ?_⟩
      rwa [Submission.keeps, if_pos out]
    exclusive := paged.exclusive
    freedOnce := by
      intro submission listed gone
      have freed := (regular submission listed).freed
      rwa [gone] at freed
    conserved := by
      have conserved := paged.conserved
      rw [cover_append] at conserved
      rw [freeBytes_eq paged.sound.holds, ← conserved, Set.union_assoc (cover extents)]
    drained := by
      intro gone
      constructor
      · intro id
        cases mapped : flow.table.commandMap id with
        | none => rfl
        | some cmd =>
          obtain ⟨index, submission, found, out, -⟩ := (tracked.entries _ _).mp mapped
          rw [(gone submission (List.mem_of_getElem? found)).1] at out
          contradiction
      · rw [listPages, List.flatMap_eq_nil_iff]
        intro submission listed
        obtain ⟨removed, left⟩ := gone submission listed
        simp [Submission.keeps, removed, left] }

/-- **The lifecycle of commands.** In every run in which outstanding commands always have different
ids, whatever the order of completions and the interleaving with the threads, each callback is
called once and each `wait` returns once with what the device posted for its command, and list pages
stay in use until their command is removed and are then freed once. -/
theorem lifecycle {backing : Backing} (admitted : backing.Admitted) {space : MemorySpace}
    (built : backing.construct = .ok space) {calls : List MemoryCall}
    (whole : ∀ call ∈ calls, call.Pagewise) {tenancy : Tenancy}
    (history : Tenancy.machine.run ⟨space, []⟩ calls = some tenancy) {counter : Nat}
    {inputs : List CommandInput} {last : Commands}
    (distinct : ∀ before input after, machine.Takes (create counter tenancy.space.table) inputs
      before input after → after.DistinctIds)
    (ran : machine.run (create counter tenancy.space.table) inputs = some last) :
    Lifecycle tenancy.space.table last := by
  obtain ⟨low, high, initial, region, paged⟩ := Backing.pagewise admitted built whole history
  have free := freeBytes_eq paged.sound.holds
  have start : Supplied low high tenancy.space.table.freeBytes
      (create counter tenancy.space.table) := by
    rw [free]
    refine ⟨⟨initial, ?_⟩, ?_, ?_⟩
    · simpa [create, listPages] using paged
    · simp [create]
    · simp [create, listPages]
  have preserved : ∀ before input after,
      Tracked before ∧ Supplied low high tenancy.space.table.freeBytes before →
      after.DistinctIds → before.step input = some after →
      Tracked after ∧ Supplied low high tenancy.space.table.freeBytes after := by
    rintro before input after ⟨tracked, supplied⟩ apart stepped
    refine ⟨tracked.step ?_ stepped, supplied.step region tracked stepped⟩
    rintro callback rfl
    exact apart.unused tracked stepped
  obtain ⟨tracked, supplied⟩ := Machine.run_guarded
    (fun flow => Tracked flow ∧ Supplied low high tenancy.space.table.freeBytes flow)
    (fun _ _ after => after.DistinctIds) preserved ⟨.create counter _, start⟩ distinct ran
  exact tracked.lived supplied

/-- A command with a callback and a list page, and one that a thread waits for; their completions
come in the other order, with an unknown one between them. -/
def twoCommands : List CommandInput :=
  [.setup true, .setup false, .takePage 0, .submit 0, .submit 1, .post 1 2 7, .post 0 4 8, .handle 1,
    .stray ⟨9, 0, 0⟩, .handle 0, .wait 1, .release 0, .remove 1, .freePage 0]

/-- Two commands on a shared memory of sixteen pages, from the last id on. -/
def TwoRan (space : MemorySpace) (last : Commands) : Prop :=
  (Backing.shared (fun _ => 0) 0x10000).construct = .ok space ∧
    machine.run (create 0xffff space.table) twoCommands = some last ∧
    last.submissions.map (·.calls) = [[(2, 8)], []] ∧
    last.submissions.map (·.returns) = [[], [(1, 7)]] ∧
    last.submissions.map (·.freed) = [[0x1000], []]

/-- Each of two commands gets its own completion, and nothing is left of them. -/
theorem lifecycle_two : ∃ space last, TwoRan space last ∧ Lifecycle space.table last := by
  have ran : ∃ space last, TwoRan space last := ⟨_, _, rfl, rfl, rfl, rfl, rfl⟩
  obtain ⟨space, last, ran⟩ := ran
  refine ⟨space, last, ran, ?_⟩
  obtain ⟨built, ran, -⟩ := ran
  have admitted : (Backing.shared (fun _ => 0) 0x10000).Admitted := ⟨by decide, by decide⟩
  have short : twoCommands.length ≤ 2 ^ 16 := by decide
  have none : Tenancy.machine.run ⟨space, []⟩ [] = some ⟨space, []⟩ := rfl
  exact lifecycle admitted built (by simp) none
    (fun _ _ _ taken => distinct_of_short 0xffff _ short taken) ran

end Commands

end McmqHost
