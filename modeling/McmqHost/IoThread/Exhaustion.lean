import McmqHost.IoThread.Returning
import McmqHost.IoThread.SubmissionRing

/-!
# A burst whose buffers cannot be given back

The limit of the hole table is within the reach of one thread. A burst of 1022 requests of one page
takes its buffers in a row, and when the device completes every second request first, each buffer
that is given back leaves a hole of its own. The next one ends the program.
-/

namespace McmqHost

open Extents HoleTable Tenancy

namespace Flow

variable {depth ioQueueDepth average origin total count left back index : Nat}
  {pending answered rest : List IORequest} {req : IORequest} {start flow : Flow Driver}

/-- A burst is submitted to its end. -/
theorem Primed.burst_ends (primed : Primed depth ioQueueDepth average origin count flow)
    (length : count + left = average) (short : average ≤ depth) (within : depth ≤ ioQueueDepth)
    (narrow : depth ≤ 2 ^ 16) (submitted : flow.submitted = List.replicate count pageAccess)
    (reached : (machine Driver.backend).Reaches start flow) :
    ∃ after, (machine Driver.backend).Reaches start after ∧
      Primed depth ioQueueDepth average origin average after ∧
      after.thread.requestCount = flow.thread.requestCount ∧
      after.submitted = List.replicate average pageAccess := by
  induction left generalizing flow count with
  | zero =>
    rw [Nat.add_zero] at length
    rw [length] at primed submitted
    exact ⟨flow, reached, primed, rfl, submitted⟩
  | succ left ih =>
    obtain ⟨next, stepped, ready, same, more, -⟩ := primed.submit (by omega) (by omega) within narrow
    rw [submitted, ← List.replicate_succ'] at more
    obtain ⟨after, run, ended, kept, all⟩ := ih ready (by omega) more (reached.step stepped)
    exact ⟨after, run, ended, kept.trans same, all⟩

/-- A burst of requests was submitted, and some are completed; the buffers lie in a row. -/
structure Serving (depth origin total : Nat) (pending answered : List IORequest)
    (flow : Flow Driver) : Prop where
  /-- No batch is being processed. -/
  idle : flow.reqs = []
  /-- No request waits. -/
  waiting : flow.thread.waitingRequests = []
  /-- No more are to be submitted. -/
  counted : flow.thread.nrSubmittedRequests = total ∧ flow.thread.requestCount = total
  /-- The requests that the driver holds. -/
  issued : flow.thread.issued = pending
  /-- The requests that are completed. -/
  completed : flow.thread.completedRequests = answered
  /-- The device has fetched as many as it completed. -/
  head : flow.thread.world.sqHead = answered.length ∧
    flow.thread.world.fetched = answered.length ∧ flow.thread.world.completed = answered.length
  /-- Every request was announced. -/
  doorbell : flow.thread.world.tailDoorbell = total
  /-- The ring has its depth. -/
  size : flow.thread.world.port.nvmeq.depth = depth
  /-- One hole lies behind the buffers. -/
  memory : flow.thread.world.table.Holds (comb origin (2 ^ 32 - origin) total 0)
  /-- Every request is for a page. -/
  submitted : flow.submitted = List.replicate total pageAccess

/-- A burst that was submitted to its end can be served. -/
theorem Primed.serving (primed : Primed depth ioQueueDepth total origin total flow)
    (fits : total < depth) (last : flow.thread.requestCount = total)
    (submitted : flow.submitted = List.replicate total pageAccess) :
    Serving depth origin total ((List.range total).map (pageRequest origin)) [] flow where
  idle := primed.idle
  waiting := primed.quiet.1
  counted := ⟨primed.counted.2, last⟩
  issued := primed.issued
  completed := primed.quiet.2
  head := primed.head
  doorbell := by rw [primed.doorbell, Nat.mod_eq_of_lt fits]
  size := primed.size
  memory := by
    rw [comb, List.range_zero, List.map_nil, List.nil_append, Nat.sub_sub]
    exact primed.memory
  submitted := submitted

/-- The device fetches a command and completes a request of its choice. -/
theorem Serving.answer (serving : Serving depth origin total pending answered flow)
    (fits : total < depth) (more : answered.length < total) (held : pending[index]? = some req)
    (reached : (machine Driver.backend).Reaches start flow) :
    ∃ after, (machine Driver.backend).Reaches start after ∧
      Serving depth origin total (pending.eraseIdx index) (answered ++ [req]) after := by
  obtain ⟨head, fetched, served⟩ := serving.head
  have behind : flow.thread.world.sqHead ≠ flow.thread.world.tailDoorbell := by
    rw [head, serving.doorbell]
    omega
  have fetch : ∃ world, flow.thread.world.fetch = some world ∧
      world.sqHead = answered.length + 1 ∧ world.fetched = answered.length + 1 ∧
      world.completed = answered.length ∧ world.port = flow.thread.world.port := by
    refine ⟨_, if_neg behind, ?_, congrArg (· + 1) fetched, served, rfl⟩
    simp only [head, serving.size]
    exact Nat.mod_eq_of_lt (by omega)
  obtain ⟨world, fetch, moved, counted, same, port⟩ := fetch
  have complete : ∃ last, world.complete req = some last ∧ last.sqHead = world.sqHead ∧
      last.fetched = world.fetched ∧ last.completed = world.completed + 1 ∧
      last.port = world.port := ⟨_, if_pos (by omega), rfl, rfl, rfl, rfl⟩
  obtain ⟨last, complete, at_, still, again, ports⟩ := complete
  have first : (machine Driver.backend).step flow (.evolve .fetch) =
      some { flow with thread := flow.thread.setWorld world } := by
    simp only [machine, Flow.step, Driver.backend, fetch]
  have second : (machine Driver.backend).step { flow with thread := flow.thread.setWorld world }
      (.notify index) = some { flow with
        thread := (flow.thread.setWorld world).notifyRequestCompletion index req last
        notified := flow.notified ++ [req] } := by
    simp only [machine, Flow.step, IOThread.setWorld, serving.issued, held, Driver.backend, complete]
  refine ⟨_, (reached.step first).step second, ?_⟩
  have unchanged : last.port = flow.thread.world.port := ports.trans port
  exact {
    idle := serving.idle
    waiting := serving.waiting
    counted := serving.counted
    issued := congrArg (List.eraseIdx · index) serving.issued
    completed := congrArg (· ++ [req]) serving.completed
    head := by
      simp only [IOThread.notifyRequestCompletion, List.length_append, List.length_singleton]
      omega
    doorbell := by
      simp only [IOThread.notifyRequestCompletion, Driver.tailDoorbell, unchanged]
      exact serving.doorbell
    size := by
      simp only [IOThread.notifyRequestCompletion, unchanged]
      exact serving.size
    memory := by
      simp only [IOThread.notifyRequestCompletion, Driver.table, unchanged]
      exact serving.memory
    submitted := serving.submitted }

/-- The requests at odd places that were passed over, and those behind them. -/
def passedOver (origin half served : Nat) : List IORequest :=
  (List.range served).map (fun place => pageRequest origin (2 * place + 1)) ++
    (List.range' (2 * served) (2 * half - 2 * served)).map (pageRequest origin)

/-- The requests at even places. -/
def evenRequests (origin served : Nat) : List IORequest :=
  (List.range served).map fun place => pageRequest origin (2 * place)

theorem passedOver_get {half served : Nat} (more : served < half) :
    (passedOver origin half served)[served]? = some (pageRequest origin (2 * served)) := by
  have count : 2 * half - 2 * served = (2 * half - 2 * served - 1) + 1 := by omega
  rw [passedOver, List.getElem?_append_right (by simp), List.length_map, List.length_range,
    Nat.sub_self, count, List.range'_succ]
  rfl

theorem passedOver_first {half served : Nat} (some : 0 < served) :
    (passedOver origin half served)[0]? = Option.some (pageRequest origin 1) := by
  obtain ⟨more, rfl⟩ := Nat.exists_eq_add_one_of_ne_zero (Nat.ne_of_gt some)
  rw [passedOver, List.range_succ_eq_map]
  rfl

theorem passedOver_erase {half served : Nat} (more : served < half) :
    (passedOver origin half served).eraseIdx served = passedOver origin half (served + 1) := by
  have count : 2 * half - 2 * served = (2 * half - 2 * (served + 1)) + 1 + 1 := by omega
  rw [passedOver, List.eraseIdx_append_of_length_le (by simp), List.length_map, List.length_range,
    Nat.sub_self, count, List.range'_succ, List.range'_succ, passedOver, List.range_succ]
  simp [Nat.mul_add]

/-- Every second request is completed first. -/
theorem Serving.evens {half served : Nat}
    (serving : Serving depth origin (2 * half) (passedOver origin half 0) [] flow)
    (fits : 2 * half < depth) (within : served ≤ half)
    (reached : (machine Driver.backend).Reaches start flow) :
    ∃ after, (machine Driver.backend).Reaches start after ∧
      Serving depth origin (2 * half) (passedOver origin half served) (evenRequests origin served)
        after := by
  induction served with
  | zero => exact ⟨flow, reached, serving⟩
  | succ served ih =>
    obtain ⟨middle, run, next⟩ := ih (by omega)
    have length : (evenRequests origin served).length = served := by simp [evenRequests]
    obtain ⟨after, ran, answered⟩ := next.answer fits (by omega) (passedOver_get (by omega)) run
    rw [passedOver_erase (by omega)] at answered
    refine ⟨after, ran, ?_⟩
    rw [evenRequests, List.range_succ, List.map_append]
    exact answered

/-- The thread gives buffers back, of which those at even places were the first. -/
structure Draining (origin total back : Nat) (reqs : List IORequest) (flow : Flow Driver) : Prop where
  /-- The rest of the batch. -/
  reqs : flow.reqs = reqs
  /-- No request waits. -/
  waiting : flow.thread.waitingRequests = []
  /-- No more are to be submitted. -/
  counted : flow.thread.nrSubmittedRequests = total ∧ flow.thread.requestCount = total
  /-- Each buffer given back is a hole. -/
  memory : flow.thread.world.table.Holds (comb origin (2 ^ 32 - origin) total back)
  /-- Every request is for a page. -/
  submitted : flow.submitted = List.replicate total pageAccess

/-- The thread takes the completed requests. -/
theorem Serving.drain (serving : Serving depth origin total pending answered flow)
    (nonempty : answered ≠ []) (reached : (machine Driver.backend).Reaches start flow) :
    ∃ after, (machine Driver.backend).Reaches start after ∧
      Draining origin total 0 answered after := by
  have some : flow.thread.completedRequests ≠ [] := by
    rw [serving.completed]
    exact nonempty
  have stepped : (machine Driver.backend).step flow .wait = Option.some { flow with
      thread := flow.thread.takeCompleted, reqs := flow.thread.completedRequests } := by
    simp only [machine, Flow.step, serving.idle, some, ne_eq, not_false_eq_true, and_self, ↓reduceIte]
  exact ⟨_, reached.step stepped, serving.completed, serving.waiting, serving.counted,
    serving.memory, serving.submitted⟩

/-- The buffer of the next request at an even place is given back. -/
theorem Draining.give (draining : Draining origin total back (pageRequest origin (2 * back) :: rest) flow)
    (positive : 0 < origin) (below : origin + total * 0x1000 < 2 ^ 32) (more : 2 * back + 2 ≤ total)
    (room : back + 1 < nrHoles) (reached : (machine Driver.backend).Reaches start flow) :
    ∃ after, (machine Driver.backend).Reaches start after ∧
      Draining origin total (back + 1) rest after := by
  have region : Region origin (origin + (2 ^ 32 - origin)) := ⟨by omega, by omega⟩
  have fits : total * 0x1000 < 2 ^ 32 - origin := by omega
  obtain ⟨table, freed, holds⟩ := free_comb region draining.memory fits more room
  obtain ⟨submitted, limit⟩ := draining.counted
  have free : Driver.backend.free flow.thread.world (pageRequest origin (2 * back)).buf
      (pageRequest origin (2 * back)).size = .ok (flow.thread.world.setTable table) :=
    bind_ok.mpr ⟨table, freed, rfl⟩
  have settled : (flow.thread.settle (pageRequest origin (2 * back))
      (flow.thread.world.setTable table)).waitingRequests = [] := draining.waiting
  have last : ¬(flow.thread.settle (pageRequest origin (2 * back))
      (flow.thread.world.setTable table)).nrSubmittedRequests <
        (flow.thread.settle (pageRequest origin (2 * back))
          (flow.thread.world.setTable table)).requestCount := by
    show ¬flow.thread.nrSubmittedRequests < flow.thread.requestCount
    omega
  have processed : flow.thread.processCompletedRequest Driver.backend
      (pageRequest origin (2 * back)) pageAccess =
        .ok (flow.thread.settle (pageRequest origin (2 * back)) (flow.thread.world.setTable table)) := by
    refine bind_ok.mpr ⟨_, free, bind_ok.mpr ⟨_, ?_, if_neg last⟩⟩
    rw [settled, IOThread.drainWaiting, IOThread.setWaiting_self settled]
    rfl
  have stepped : (machine Driver.backend).step flow (.process pageAccess) = some { flow with
      thread := flow.thread.settle (pageRequest origin (2 * back)) (flow.thread.world.setTable table)
      reqs := rest
      submitted := if flow.thread.nrSubmittedRequests < flow.thread.requestCount
        then flow.submitted ++ [pageAccess] else flow.submitted
      processed := flow.processed ++ [pageRequest origin (2 * back)] } := by
    simp only [machine, Flow.step, draining.reqs, processed]
  refine ⟨_, reached.step stepped, rfl, draining.waiting, draining.counted, holds, ?_⟩
  rw [if_neg (show ¬flow.thread.nrSubmittedRequests < flow.thread.requestCount by omega)]
  exact draining.submitted

/-- The buffers at even places are given back one behind the other. -/
theorem Draining.evens {half : Nat}
    (draining : Draining origin total 0 (evenRequests origin half ++ [req]) flow)
    (positive : 0 < origin) (below : origin + total * 0x1000 < 2 ^ 32) (fewer : 2 * half ≤ total)
    (room : half < nrHoles) (within : back ≤ half) (reached : (machine Driver.backend).Reaches start flow) :
    ∃ after, (machine Driver.backend).Reaches start after ∧
      Draining origin total back
        ((List.range' back (half - back)).map (fun place => pageRequest origin (2 * place)) ++ [req])
        after := by
  induction back with
  | zero =>
    rw [Nat.sub_zero, ← List.range_eq_range']
    exact ⟨flow, reached, draining⟩
  | succ back ih =>
    obtain ⟨middle, run, next⟩ := ih (by omega)
    have count : half - back = (half - (back + 1)) + 1 := by omega
    rw [count, List.range'_succ, List.map_cons, List.cons_append] at next
    exact next.give positive below (by omega) (by omega) run

/-- A thread that keeps 1022 requests of one page outstanding on a queue of 2048 entries ends the
program when the device completes every second request first. -/
theorem completions_exhaust : ∃ space allocated port flow,
    wholeFile.construct = .ok space ∧
    QueuePort.allocateQueue ⟨space, .blank, []⟩ 1 2048 4 = .ok allocated ∧
    allocated.initQueue 1 4 0 = .ok port ∧
    (machine Driver.backend).Reaches (create (Driver.create port 0) 2048 1022 1022) flow ∧
    flow.submitted = List.replicate 1022 pageAccess ∧
    ∃ req rest, flow.reqs = req :: rest ∧
      Driver.backend.free flow.thread.world req.buf req.size = .error .abort := by
  have depth : ringDepth 2047 2048 = 2048 := by decide
  obtain ⟨space, allocated, port, origin, built, allocate, init, prepared⟩ :=
    primed_create (show 0 < 2048 by decide) (show 2048 < 2 ^ 31 by decide)
  rw [depth] at allocate prepared
  obtain ⟨full, filled, primed, last, submitted⟩ := (prepared 0 1022 1022).burst_ends
    (show 0 + 1022 = 1022 from rfl) (by decide) (le_refl _) (by decide) rfl (.refl _ _)
  have below := primed.room.2.2
  have serving := primed.serving (by decide) last submitted
  have passed : (List.range 1022).map (pageRequest origin) = passedOver origin 511 0 := by
    rw [List.range_eq_range']
    rfl
  rw [passed] at serving
  obtain ⟨middle, served, next⟩ := Serving.evens serving (by decide) (le_refl 511) filled
  obtain ⟨last, run, done⟩ := next.answer (by decide) (by simp [evenRequests])
    (passedOver_first (by decide)) served
  obtain ⟨taken, took, draining⟩ := done.drain (by simp) run
  obtain ⟨flow, reached, drained⟩ := draining.evens primed.room.1 (by omega) (by decide)
    (by decide) (le_refl 511) took
  refine ⟨space, allocated, port, flow, built, allocate, init, reached, drained.submitted,
    pageRequest origin 1, [], drained.reqs, ?_⟩
  have slots : (comb origin (2 ^ 32 - origin) 1022 511).length = nrHoles := by
    rw [comb, List.length_append, List.length_map, List.length_range, List.length_singleton, nrHoles]
  have aborts : flow.thread.world.table.free (pageRequest origin 1).buf 0x1000 = .error .abort :=
    free_full drained.memory slots (by decide)
  show Except.bind (flow.thread.world.table.free (pageRequest origin 1).buf 0x1000) _ = _
  rw [aborts]
  rfl

end Flow

end McmqHost
