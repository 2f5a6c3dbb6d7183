import McmqHost.Base.Generator
import McmqHost.IoThread.Recording

/-!
# The workload of a synthetic flow

`run_impl` draws each request from a generator when it submits it, waits only once the initial burst
is submitted, and waits no more once enough requests are completed. What reaches the driver depends
on the generator alone, up to how much of it has got there. The number of requests is
`request_count` unless the burst, which does not look at it, is larger.
-/

namespace McmqHost

variable {World Event State : Type}

namespace Flow

variable {backend : Backend World Event} {flow last : Flow World}

/-- `run_impl` returns: the batch is worked through and enough requests are completed. -/
def Returned (flow : Flow World) : Prop :=
  flow.burst = 0 ∧ flow.reqs = [] ∧ ¬flow.thread.nrCompletedRequests < flow.thread.requestCount

/-- What a step submits. -/
structure Submits (flow last : Flow World) (accesses : List Access) (burst : Nat) : Prop where
  /-- Accesses are added to the record in order. -/
  submitted : last.submitted = flow.submitted ++ accesses
  /-- The burst gets shorter by as much. -/
  burst : flow.burst = last.burst + burst
  /-- The number of requests to make stays. -/
  requestCount : last.thread.requestCount = flow.thread.requestCount

/-- The registered or passed request leaves the number of requests to make alone. -/
theorem submitIoRequest_requestCount {thread after : IOThread World} {access : Access}
    (ok : thread.submitIoRequest backend access = .ok after) :
    after.requestCount = thread.requestCount := by
  obtain ⟨buf, world, -, rest⟩ := IOThread.submitIoRequest_ok ok
  split at rest
  · rw [rest]
    rfl
  · obtain ⟨passed, -, rfl⟩ := IOThread.submitToDevice_ok.mp rest
    rfl

/-- The burst submits one request. -/
theorem step_submit {access : Access} (stepped : flow.step backend (.submit access) = some last) :
    Submits flow last [access] 1 ∧ last.reqs = [] := by
  simp only [step] at stepped
  split at stepped
  case isFalse => contradiction
  case isTrue allowed =>
    obtain ⟨empty, left⟩ := allowed
    cases ran : flow.thread.submitIoRequest backend access with
    | error fault => simp [ran] at stepped
    | ok thread =>
      simp only [ran, Option.some.injEq] at stepped
      subst stepped
      exact ⟨⟨rfl, (Nat.sub_add_cancel left).symm, submitIoRequest_requestCount ran⟩, empty⟩

/-- A completed request leads to another one while some are left to make. -/
theorem step_process {access : Access} (stepped : flow.step backend (.process access) = some last) :
    Submits flow last
      (if flow.thread.nrSubmittedRequests < flow.thread.requestCount then [access] else []) 0 ∧
    flow.reqs ≠ [] := by
  simp only [step] at stepped
  cases batch : flow.reqs with
  | nil => simp [batch] at stepped
  | cons req rest =>
    cases ran : flow.thread.processCompletedRequest backend req access with
    | error fault => simp [batch, ran] at stepped
    | ok thread =>
      simp only [batch, ran, Option.some.injEq] at stepped
      subst stepped
      refine ⟨⟨?_, rfl, ?_⟩, List.cons_ne_nil req rest⟩
      · dsimp only
        split
        · rfl
        · exact (List.append_nil _).symm
      · obtain ⟨world, drained, -, drains, submits⟩ := processCompletedRequest_ok ran
        obtain ⟨-, same⟩ := drainWaiting_submitted drains
        change thread.requestCount = flow.thread.requestCount
        unfold IOThread.onRequestCompleted at submits
        split at submits
        · exact (submitIoRequest_requestCount submits).trans same
        · obtain rfl := Except.ok.inj submits
          exact same

/-- The other steps submit nothing. -/
theorem step_other {input : FlowInput Event} (stepped : flow.step backend input = some last)
    (submits : ∀ access, input ≠ .submit access) (processes : ∀ access, input ≠ .process access) :
    Submits flow last [] 0 ∧ (input ≠ .wait → last.reqs = flow.reqs) := by
  cases input with
  | submit access => exact absurd rfl (submits access)
  | process access => exact absurd rfl (processes access)
  | notify index =>
    simp only [step] at stepped
    cases held : flow.thread.issued[index]? with
    | none => simp [held] at stepped
    | some req =>
      cases done : backend.complete flow.thread.world req with
      | none => simp [held, done] at stepped
      | some world =>
        simp only [held, done, Option.some.injEq] at stepped
        subst stepped
        exact ⟨⟨(List.append_nil _).symm, rfl, rfl⟩, fun _ => rfl⟩
  | wait =>
    simp only [step] at stepped
    split at stepped
    case isFalse => contradiction
    case isTrue ready =>
      obtain rfl := Option.some.inj stepped
      exact ⟨⟨(List.append_nil _).symm, rfl, rfl⟩, fun other => absurd rfl other⟩
  | evolve event =>
    simp only [step] at stepped
    cases moved : backend.evolve flow.thread.world event with
    | none => simp [moved] at stepped
    | some world =>
      simp only [moved, Option.some.injEq] at stepped
      subst stepped
      exact ⟨⟨(List.append_nil _).symm, rfl, rfl⟩, fun _ => rfl⟩

end Flow

/-- A flow and the generator that its requests are drawn from. -/
structure Workload (World State : Type) where
  /-- The flow. -/
  flow : Flow World
  /-- `generator`. -/
  generator : State

/-- What a workload leaves to the driver and the device; the requests are drawn. -/
inductive WorkloadInput (Event : Type)
  /-- The initial burst submits a request. -/
  | submit
  /-- The driver calls the callback at an index of the issued requests. -/
  | notify (index : Nat)
  /-- The loop of `run_impl` takes the completed queue. -/
  | wait
  /-- The next request of the batch is processed. -/
  | process
  /-- The driver or the device takes a step of its own. -/
  | evolve (event : Event)

namespace Workload

/-- A flow at its start, with a seeded generator. -/
def create (world : World) (seed : State) (queueDepth requestCount averageEnqueuedRequests : Nat) :
    Workload World State :=
  ⟨.create world queueDepth requestCount averageEnqueuedRequests, seed⟩

/-- `IOThreadSynthetic::run_impl` with the requests of `generate_request`. -/
def step (generator : Generator State Access) (backend : Backend World Event)
    (run : Workload World State) : WorkloadInput Event → Option (Workload World State)
  | .submit =>
    let (access, next) := generator.draw run.generator
    (run.flow.step backend (.submit access)).map (⟨·, next⟩)
  | .notify index => (run.flow.step backend (.notify index)).map (⟨·, run.generator⟩)
  | .wait =>
    if run.flow.burst = 0 ∧ run.flow.thread.nrCompletedRequests < run.flow.thread.requestCount then
      (run.flow.step backend .wait).map (⟨·, run.generator⟩)
    else none
  | .process =>
    let (access, next) := generator.draw run.generator
    let draws := run.flow.thread.nrSubmittedRequests < run.flow.thread.requestCount
    (run.flow.step backend (.process access)).map (⟨·, if draws then next else run.generator⟩)
  | .evolve event => (run.flow.step backend (.evolve event)).map (⟨·, run.generator⟩)

/-- The machine of a workload over a backend. -/
def machine (generator : Generator State Access) (backend : Backend World Event) :
    Machine (Workload World State) (WorkloadInput Event) :=
  ⟨step generator backend⟩

/-- The generator has drawn what was submitted. -/
def Drawn (generator : Generator State Access) (seed : State) (run : Workload World State) : Prop :=
  run.flow.submitted = generator.outputs seed run.flow.submitted.length ∧
    run.generator = generator.stateAfter seed run.flow.submitted.length

/-- How far a workload has got with its burst and its count. -/
structure Limited (requestCount average : Nat) (run : Workload World State) : Prop where
  /-- The number of requests to make does not change. -/
  count : run.flow.thread.requestCount = requestCount
  /-- Batches come after the burst. -/
  batches : run.flow.reqs ≠ [] → run.flow.burst = 0
  /-- The burst submits its part. -/
  lower : average ≤ run.flow.submitted.length + run.flow.burst
  /-- No more is submitted than the burst or the count. -/
  upper : run.flow.submitted.length + run.flow.burst ≤ max average requestCount

variable {generator : Generator State Access} {backend : Backend World Event}
  {run after : Workload World State} {seed : State} {queueDepth requestCount average : Nat}

/-- Each step is one of the flow. -/
theorem step_flow {input : WorkloadInput Event}
    (stepped : run.step generator backend input = some after) :
    ∃ flowInput, run.flow.step backend flowInput = some after.flow := by
  cases input with
  | submit =>
    obtain ⟨flow, ran, rfl⟩ := Option.map_eq_some_iff.mp stepped
    exact ⟨_, ran⟩
  | notify index =>
    obtain ⟨flow, ran, rfl⟩ := Option.map_eq_some_iff.mp stepped
    exact ⟨_, ran⟩
  | wait =>
    simp only [step] at stepped
    split at stepped
    · obtain ⟨flow, ran, rfl⟩ := Option.map_eq_some_iff.mp stepped
      exact ⟨_, ran⟩
    · contradiction
  | process =>
    obtain ⟨flow, ran, rfl⟩ := Option.map_eq_some_iff.mp stepped
    exact ⟨_, ran⟩
  | evolve event =>
    obtain ⟨flow, ran, rfl⟩ := Option.map_eq_some_iff.mp stepped
    exact ⟨_, ran⟩

/-- A workload's flow is a run of the scheduler. -/
theorem flow_reaches {start : Workload World State}
    (reached : (machine generator backend).Reaches start run) :
    (Flow.machine backend).Reaches start.flow run.flow := by
  apply reached.invariant (fun run => (Flow.machine backend).Reaches start.flow run.flow) _ (.refl _ _)
  intro before input after earlier stepped
  obtain ⟨flowInput, taken⟩ := step_flow stepped
  exact earlier.step taken

/-- What is drawn and submitted next is the generator's next output. -/
theorem Drawn.next {flow : Flow World} (drawn : Drawn generator seed run)
    (submits : flow.submitted = run.flow.submitted ++ [(generator.draw run.generator).1]) :
    Drawn generator seed ⟨flow, (generator.draw run.generator).2⟩ := by
  obtain ⟨outputs, state⟩ := drawn
  have length : flow.submitted.length = run.flow.submitted.length + 1 := by
    rw [submits, List.length_append, List.length_singleton]
  constructor
  · change flow.submitted = generator.outputs seed flow.submitted.length
    rw [length, Generator.outputs, ← outputs, ← state, submits]
  · change (generator.draw run.generator).2 = generator.stateAfter seed flow.submitted.length
    rw [length, Generator.stateAfter, ← state]

/-- Without a submission the generator stays. -/
theorem Drawn.same {flow : Flow World} (drawn : Drawn generator seed run)
    (submits : flow.submitted = run.flow.submitted ++ []) :
    Drawn generator seed ⟨flow, run.generator⟩ := by
  rw [List.append_nil] at submits
  unfold Drawn
  rw [submits]
  exact drawn

/-- Each step draws what it submits. -/
theorem Drawn.step (drawn : Drawn generator seed run) {input : WorkloadInput Event}
    (stepped : run.step generator backend input = some after) : Drawn generator seed after := by
  cases input with
  | submit =>
    obtain ⟨flow, ran, rfl⟩ := Option.map_eq_some_iff.mp stepped
    exact drawn.next (Flow.step_submit ran).1.submitted
  | notify index =>
    obtain ⟨flow, ran, rfl⟩ := Option.map_eq_some_iff.mp stepped
    exact drawn.same (Flow.step_other ran nofun nofun).1.submitted
  | wait =>
    simp only [Workload.step] at stepped
    split at stepped
    · obtain ⟨flow, ran, rfl⟩ := Option.map_eq_some_iff.mp stepped
      exact drawn.same (Flow.step_other ran nofun nofun).1.submitted
    · contradiction
  | process =>
    obtain ⟨flow, ran, rfl⟩ := Option.map_eq_some_iff.mp stepped
    have submits := (Flow.step_process ran).1.submitted
    by_cases more : run.flow.thread.nrSubmittedRequests < run.flow.thread.requestCount
    · rw [if_pos more] at submits ⊢
      exact drawn.next submits
    · rw [if_neg more] at submits ⊢
      exact drawn.same submits
  | evolve event =>
    obtain ⟨flow, ran, rfl⟩ := Option.map_eq_some_iff.mp stepped
    exact drawn.same (Flow.step_other ran nofun nofun).1.submitted

/-- What a workload's states have in common: the flow's accounts, the generator and the limits. -/
theorem kept_of_reaches {world : World} (narrow : queueDepth < 2 ^ 32)
    (reached : (machine generator backend).Reaches
      (create world seed queueDepth requestCount average) run) :
    Flow.Counted queueDepth run.flow ∧ Drawn generator seed run := by
  obtain ⟨counted, -⟩ := Flow.reaches_of_moves
    (fun _ _ counted move => Flow.Counted.moves narrow counted move)
    (Flow.Counted.create world) (fun waits => absurd rfl waits) (flow_reaches reached)
  have start : Drawn generator seed
      (create world seed queueDepth requestCount average) := ⟨rfl, rfl⟩
  exact ⟨counted, reached.invariant _ (fun _ _ _ drawn stepped => drawn.step stepped) start⟩

/-! ## What reaches the driver -/

/-- The workload without the record of the calls. -/
def forget (run : Workload (World × List Access) State) : Workload World State :=
  ⟨run.flow.forget, run.generator⟩

/-- Keeping a record of the calls changes nothing. -/
theorem step_forget (run : Workload (World × List Access) State) (input : WorkloadInput Event) :
    (run.step generator backend.recording input).map forget = run.forget.step generator backend input := by
  have follows : ∀ flowInput state,
      ((run.flow.step backend.recording flowInput).map (⟨·, state⟩)).map forget =
        (run.forget.flow.step backend flowInput).map
          (⟨·, state⟩ : Flow World → Workload World State) := by
    intro flowInput state
    have same : run.forget.flow = run.flow.forget := rfl
    rw [same, ← Flow.step_forget, Option.map_map, Option.map_map]
    rfl
  cases input with
  | submit => exact follows _ _
  | notify index => exact follows _ _
  | wait =>
    unfold step
    by_cases ready : run.flow.burst = 0 ∧
        run.flow.thread.nrCompletedRequests < run.flow.thread.requestCount
    · have goes : run.forget.flow.burst = 0 ∧
          run.forget.flow.thread.nrCompletedRequests < run.forget.flow.thread.requestCount := ready
      rw [if_pos ready, if_pos goes]
      exact follows _ _
    · have stops : ¬ (run.forget.flow.burst = 0 ∧
          run.forget.flow.thread.nrCompletedRequests < run.forget.flow.thread.requestCount) := ready
      rw [if_neg ready, if_neg stops]
      rfl
  | process => exact follows _ _
  | evolve event => exact follows _ _

/-- Every run over a backend is one whose calls can be recorded. -/
theorem recorded_run {world : World} {inputs : List (WorkloadInput Event)}
    {run : Workload World State}
    (ran : (machine generator backend).run
      (create world seed queueDepth requestCount average) inputs = some run) :
    ∃ recorded, (machine generator backend.recording).run
        (create (world, []) seed queueDepth requestCount average) inputs = some recorded ∧
      recorded.forget = run := by
  have views : ∀ start : Workload (World × List Access) State,
      ((machine generator backend.recording).run start inputs).map forget =
        (machine generator backend).run start.forget inputs :=
    fun start => Machine.run_map step_forget start inputs
  exact Option.map_eq_some_iff.mp ((views _).trans ran)

/-- What the driver was asked for, in order: the function that was called and its arguments. -/
def handed (run : Workload (World × List Access) State) : List Access :=
  run.flow.thread.world.2

/-- The accesses of the requests that wait, in order. -/
def waiting (run : Workload World State) : List Access :=
  run.flow.thread.waitingRequests.map (·.toAccess)

/-- What the driver was asked for and what waits is what was generated, in order. -/
theorem handed_waiting {run : Workload (World × List Access) State} {world : World}
    (narrow : queueDepth < 2 ^ 32) (reached : (machine generator backend.recording).Reaches
      (create (world, []) seed queueDepth requestCount average) run) :
    run.handed ++ run.waiting = generator.outputs seed run.flow.submitted.length := by
  obtain ⟨counted, drawn, -⟩ := kept_of_reaches narrow reached
  have queued := counted.queued
  rw [List.map_append] at queued
  have calls := Flow.calls_dispatched (flow_reaches reached)
  rw [handed, calls, waiting]
  exact queued.trans drawn

/-- **The workload does not depend on the device.** In any two runs from one configuration and one
seed, over whatever devices and with whatever order of completions, the calls of `read_async` and
`write_async` with their positions and sizes in one are a prefix of those in the other; in each of
them they are what the generator yields, in order, and what waits comes next. -/
theorem schedule_independent {World' Event' : Type} {backend' : Backend World' Event'}
    {run : Workload (World × List Access) State} {run' : Workload (World' × List Access) State}
    {world : World} {world' : World'} (narrow : queueDepth < 2 ^ 32)
    (reached : (machine generator backend.recording).Reaches
      (create (world, []) seed queueDepth requestCount average) run)
    (reached' : (machine generator backend'.recording).Reaches
      (create (world', []) seed queueDepth requestCount average) run') :
    (run.handed <+: run'.handed ∨ run'.handed <+: run.handed) ∧
    (run.handed = generator.outputs seed run.handed.length ∧
      run.handed ++ run.waiting = generator.outputs seed run.flow.submitted.length) ∧
    (run'.handed = generator.outputs seed run'.handed.length ∧
      run'.handed ++ run'.waiting = generator.outputs seed run'.flow.submitted.length) := by
  have whole := handed_waiting narrow reached
  have whole' := handed_waiting narrow reached'
  have same : run.handed = generator.outputs seed run.handed.length := by
    apply generator.eq_outputs_of_prefix
    rw [← whole]
    exact List.prefix_append _ _
  have same' : run'.handed = generator.outputs seed run'.handed.length := by
    apply generator.eq_outputs_of_prefix
    rw [← whole']
    exact List.prefix_append _ _
  refine ⟨?_, ⟨same, whole⟩, same', whole'⟩
  rw [same, same']
  exact generator.outputs_comparable seed _ _

/-- Reads and writes of one page after another, in turns. -/
def pageByPage : Generator Nat Access :=
  ⟨fun page => (⟨page % 2 = 0, 1, page * 0x1000, 0x1000⟩, page + 1)⟩

/-- Two requests are completed in the other order, and only one is processed. -/
theorem schedule_independent_orders : ∃ run run',
    (machine pageByPage Flow.pages.recording).run (create (0, []) 0 2 4 3)
      [.submit, .submit, .submit, .notify 0, .notify 0, .wait, .process, .process] = some run ∧
    (machine pageByPage Flow.pages.recording).run (create (0, []) 0 2 4 3)
      [.submit, .submit, .submit, .notify 1, .wait, .process] = some run' ∧
    run.handed = [⟨true, 1, 0, 0x1000⟩, ⟨false, 1, 0x1000, 0x1000⟩, ⟨true, 1, 0x2000, 0x1000⟩,
      ⟨false, 1, 0x3000, 0x1000⟩] ∧
    run'.handed.length = 3 ∧ (run.handed <+: run'.handed ∨ run'.handed <+: run.handed) ∧
    run.handed = pageByPage.outputs 0 run.handed.length ∧
    run'.handed ++ run'.waiting = pageByPage.outputs 0 run'.flow.submitted.length := by
  have ran : ∃ run run',
      (machine pageByPage Flow.pages.recording).run (create (0, []) 0 2 4 3)
        [.submit, .submit, .submit, .notify 0, .notify 0, .wait, .process, .process] = some run ∧
      (machine pageByPage Flow.pages.recording).run (create (0, []) 0 2 4 3)
        [.submit, .submit, .submit, .notify 1, .wait, .process] = some run' ∧
      run.handed = [⟨true, 1, 0, 0x1000⟩, ⟨false, 1, 0x1000, 0x1000⟩, ⟨true, 1, 0x2000, 0x1000⟩,
        ⟨false, 1, 0x3000, 0x1000⟩] ∧ run'.handed.length = 3 :=
    ⟨_, _, rfl, rfl, rfl, rfl⟩
  obtain ⟨run, run', ran, ran', calls, count⟩ := ran
  obtain ⟨comparable, ⟨drawn, -⟩, -, whole'⟩ :=
    schedule_independent (by decide) ⟨_, ran⟩ ⟨_, ran'⟩
  exact ⟨run, run', ran, ran', calls, count, comparable, drawn, whole'⟩

/-! ## How many requests are made -/

/-- What a flow that makes `requestCount` requests promises. -/
structure Performs (requestCount : Nat) (flow : Flow World) : Prop where
  /-- No more requests are submitted. -/
  limited : flow.submitted.length ≤ requestCount
  /-- All of them are submitted and completed at the end, and none is left over. -/
  returned : flow.Returned →
    flow.thread.nrSubmittedRequests = requestCount ∧
      flow.thread.nrCompletedRequests = requestCount ∧
      flow.thread.inflightRequests = 0 ∧ flow.thread.waitingRequests = [] ∧
      flow.thread.completedRequests = []

theorem Limited.create (world : World) (seed : State) :
    Limited requestCount average (create world seed queueDepth requestCount average) where
  count := rfl
  batches := fun batch => absurd rfl batch
  lower := Nat.le_add_left _ _
  upper := by
    change 0 + average ≤ max average requestCount
    omega

/-- A step that submits nothing keeps the limits. -/
theorem Limited.same (limited : Limited requestCount average run) {flow : Flow World}
    {state : State} (submits : Flow.Submits run.flow flow [] 0)
    (batches : flow.reqs = run.flow.reqs ∨ run.flow.burst = 0) :
    Limited requestCount average ⟨flow, state⟩ := by
  have length : flow.submitted.length = run.flow.submitted.length := by
    rw [submits.submitted, List.append_nil]
  have burst := submits.burst
  exact {
    count := submits.requestCount.trans limited.count
    batches := by
      intro batch
      rcases batches with same | done
      · have done := limited.batches (same ▸ batch)
        exact burst.symm.trans done
      · exact burst.symm.trans done
    lower := by
      have lower := limited.lower
      change average ≤ flow.submitted.length + flow.burst
      omega
    upper := by
      have upper := limited.upper
      change flow.submitted.length + flow.burst ≤ max average requestCount
      omega }

/-- Each step keeps the limits: the burst is counted from the start, and a completed request leads
to another one only below the count. -/
theorem Limited.step (limited : Limited requestCount average run)
    (counted : Flow.Counted queueDepth run.flow) (countable : max average requestCount < 2 ^ 64)
    {input : WorkloadInput Event} (stepped : run.step generator backend input = some after) :
    Limited requestCount average after := by
  have upper := limited.upper
  have lower := limited.lower
  cases input with
  | submit =>
    obtain ⟨flow, ran, rfl⟩ := Option.map_eq_some_iff.mp stepped
    obtain ⟨submits, empty⟩ := Flow.step_submit ran
    have length : flow.submitted.length = run.flow.submitted.length + 1 := by
      rw [submits.submitted, List.length_append, List.length_singleton]
    have burst := submits.burst
    exact {
      count := submits.requestCount.trans limited.count
      batches := fun batch => absurd empty batch
      lower := by
        change average ≤ flow.submitted.length + flow.burst
        omega
      upper := by
        change flow.submitted.length + flow.burst ≤ max average requestCount
        omega }
  | notify index =>
    obtain ⟨flow, ran, rfl⟩ := Option.map_eq_some_iff.mp stepped
    obtain ⟨submits, batch⟩ := Flow.step_other ran nofun nofun
    exact limited.same submits (.inl (batch nofun))
  | wait =>
    simp only [Workload.step] at stepped
    split at stepped
    case isFalse => contradiction
    case isTrue ready =>
      obtain ⟨flow, ran, rfl⟩ := Option.map_eq_some_iff.mp stepped
      obtain ⟨submits, -⟩ := Flow.step_other ran nofun nofun
      exact limited.same submits (.inr ready.1)
  | process =>
    obtain ⟨flow, ran, rfl⟩ := Option.map_eq_some_iff.mp stepped
    obtain ⟨submits, batch⟩ := Flow.step_process ran
    have done := limited.batches batch
    have burst := submits.burst
    by_cases more : run.flow.thread.nrSubmittedRequests < run.flow.thread.requestCount
    · rw [if_pos more] at submits
      have length : flow.submitted.length = run.flow.submitted.length + 1 := by
        rw [submits.submitted, List.length_append, List.length_singleton]
      rw [counted.submissions, u64_of_lt (by omega), limited.count] at more
      exact {
        count := submits.requestCount.trans limited.count
        batches := fun _ => by
          change flow.burst = 0
          omega
        lower := by
          change average ≤ flow.submitted.length + flow.burst
          omega
        upper := by
          change flow.submitted.length + flow.burst ≤ max average requestCount
          omega }
    · rw [if_neg more] at submits
      exact limited.same submits (.inr done)
  | evolve event =>
    obtain ⟨flow, ran, rfl⟩ := Option.map_eq_some_iff.mp stepped
    obtain ⟨submits, batch⟩ := Flow.step_other ran nofun nofun
    exact limited.same submits (.inl (batch nofun))

/-- Requests are in flight, waiting or processed. -/
theorem submitted_length {flow : Flow World} (counted : Flow.Counted queueDepth flow) :
    flow.submitted.length = flow.processed.length + flow.thread.inflightRequests +
      flow.thread.waitingRequests.length := by
  have queued := congrArg List.length counted.queued
  have served := counted.served.length_eq
  have delivered := congrArg List.length counted.delivered
  have inflight := counted.inflight
  simp only [List.length_append, List.length_map] at queued served delivered
  omega

/-- **A flow makes its number of requests** in every state of every run when the initial burst is no
larger; and once the burst is submitted, only then. -/
theorem performs_iff {world : World} (narrow : queueDepth < 2 ^ 32)
    (countable : requestCount < 2 ^ 64) (short : average < 2 ^ 32)
    (reached : (machine generator backend).Reaches
      (create world seed queueDepth requestCount average) run) :
    (average ≤ requestCount → Performs requestCount run.flow) ∧
      (run.flow.burst = 0 → (Performs requestCount run.flow ↔ average ≤ requestCount)) := by
  obtain ⟨counted, -⟩ := kept_of_reaches narrow reached
  have limited : Limited requestCount average run := by
    refine (reached.invariant
      (fun run => (machine generator backend).Reaches _ run ∧ Limited requestCount average run)
      ?_ ⟨.refl _ _, .create world seed⟩).2
    rintro before input after ⟨earlier, limited⟩ stepped
    have counted := (kept_of_reaches narrow earlier).1
    exact ⟨earlier.step stepped, limited.step counted (by omega) stepped⟩
  have length := submitted_length counted
  have enough : average ≤ requestCount → Performs requestCount run.flow := by
    intro few
    have upper := limited.upper
    have most : run.flow.submitted.length ≤ requestCount := by omega
    refine ⟨most, ?_⟩
    rintro ⟨-, -, ended⟩
    rw [counted.completions, u64_of_lt (by omega), limited.count] at ended
    have inflight := counted.inflight
    rw [counted.submissions, counted.completions, u64_of_lt (by omega), u64_of_lt (by omega)]
    refine ⟨by omega, by omega, by omega, ?_, ?_⟩
    · exact List.eq_nil_of_length_eq_zero (by omega)
    · exact List.eq_nil_of_length_eq_zero (by omega)
  refine ⟨enough, fun done => ⟨?_, enough⟩⟩
  intro performs
  have lower := limited.lower
  have most := performs.limited
  omega

/-- Two requests, one at a time. -/
def oneByOne : List (WorkloadInput Unit) :=
  [.submit, .notify 0, .wait, .process, .notify 0, .wait, .process]

/-- A burst of one request and a count of two. -/
theorem performs_iff_two : ∃ run,
    (machine pageByPage Flow.pages).run (create 0 0 1 2 1) oneByOne = some run ∧
    run.flow.Returned ∧ Performs 2 run.flow := by
  have performed : ∃ run, (machine pageByPage Flow.pages).run (create 0 0 1 2 1) oneByOne = some run ∧
      run.flow.Returned := ⟨_, rfl, rfl, rfl, Nat.lt_irrefl 2⟩
  obtain ⟨run, ran, returned⟩ := performed
  have narrow : 1 < 2 ^ 32 := by decide
  have countable : 2 < 2 ^ 64 := by decide
  refine ⟨run, ran, returned, (performs_iff narrow countable narrow ⟨oneByOne, ran⟩).1 ?_⟩
  decide

/-- A burst of two requests and a count of one: two are submitted, and the second is in flight when
`run_impl` returns. -/
theorem burst_beyond_count : ∃ run,
    (machine pageByPage Flow.pages).run (create 0 0 1 1 2)
      [.submit, .submit, .notify 0, .wait, .process] = some run ∧
    run.flow.Returned ∧ run.flow.submitted.length = 2 ∧ run.flow.thread.inflightRequests = 1 ∧
    ¬Performs 1 run.flow := by
  refine ⟨_, rfl, ⟨rfl, rfl, Nat.lt_irrefl 1⟩, rfl, rfl, ?_⟩
  intro performs
  exact absurd performs.limited (by decide)

end Workload

end McmqHost
