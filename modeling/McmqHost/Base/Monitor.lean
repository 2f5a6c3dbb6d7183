import Mathlib.Logic.Function.Basic
import McmqHost.Base.Machine

/-!
# Monitors

Threads run straight-line programs over mutexes and conditions. The only loop is the one around
a condition variable: test the condition under a mutex, and if it does not hold release the
mutex, block until a notification and take the mutex again. Every test, every
acquisition, every assignment and every notification is a step of its own. A wake-up is lost when a
thread blocks on a condition that holds and that was already announced. None is lost on a
condition that is set under the mutex of those who wait for it.
-/

/-- A statement of a thread's program. -/
inductive Statement (Mutex Condition : Type)
  /-- Take a free mutex. -/
  | lock (mutex : Mutex)
  /-- Give a mutex back. -/
  | unlock (mutex : Mutex)
  /-- Wait under a mutex until a test finds that the condition holds. -/
  | await (condition : Condition) (mutex : Mutex)
  /-- Make a condition hold. -/
  | set (condition : Condition)
  /-- Make a condition not hold. -/
  | clear (condition : Condition)
  /-- Wake all threads that are blocked on a condition. -/
  | notify (condition : Condition)
deriving DecidableEq, Repr

/-- Where a thread stands in the loop of an `await`; it is `running` at any other statement. -/
inductive Phase
  /-- It holds the mutex and has still to test. -/
  | running
  /-- The test failed, and it is about to release the mutex and block. -/
  | tested
  /-- It is blocked. -/
  | blocked
  /-- It was woken and has still to take the mutex. -/
  | woken
deriving DecidableEq, Repr

/-- Where a thread is in its program. -/
structure Position (Mutex Condition : Type) where
  /-- The rest of its program. -/
  program : List (Statement Mutex Condition)
  /-- Where it stands in the first statement. -/
  phase : Phase
deriving DecidableEq, Repr

/-- The threads with what they share. -/
structure Monitors (Thread Mutex Condition : Type) where
  /-- Where each thread is in its program. -/
  position : Thread → Position Mutex Condition
  /-- The thread that has taken each mutex. -/
  owner : Mutex → Option Thread
  /-- Whether each condition holds. -/
  holds : Condition → Bool
  /-- Whether a notification came after each condition was last set. -/
  notified : Condition → Bool

/-- What the scheduler lets happen next. -/
inductive MonitorInput (Thread Procedure : Type)
  /-- An idle thread calls a procedure. -/
  | call (thread : Thread) (procedure : Procedure)
  /-- A thread takes its next step. -/
  | step (thread : Thread)
  /-- A blocked thread wakes up without a notification. -/
  | spurious (thread : Thread)
deriving DecidableEq, Repr

namespace Monitors

variable {Thread Mutex Condition Procedure : Type}
variable [DecidableEq Thread] [DecidableEq Mutex] [DecidableEq Condition]

/-- All threads are idle, all mutexes free, and no condition holds. -/
def idle : Monitors Thread Mutex Condition where
  position _ := ⟨[], .running⟩
  owner _ := none
  holds _ := false
  notified _ := false

/-- Assign where a thread is. -/
def assign (monitors : Monitors Thread Mutex Condition) (thread : Thread)
    (position : Position Mutex Condition) : Monitors Thread Mutex Condition :=
  { monitors with position := Function.update monitors.position thread position }

/-- A mutex gets an owner or loses it. -/
def own (monitors : Monitors Thread Mutex Condition) (mutex : Mutex) (owner : Option Thread) :
    Monitors Thread Mutex Condition :=
  { monitors with owner := Function.update monitors.owner mutex owner }

/-- A thread that is blocked on the condition wakes up. -/
def wake (condition : Condition) (position : Position Mutex Condition) : Position Mutex Condition :=
  match position with
  | ⟨.await awaited mutex :: rest, .blocked⟩ =>
    ⟨.await awaited mutex :: rest, if awaited = condition then .woken else .blocked⟩
  | _ => position

/-- The next step of a thread, unless it is idle or cannot go on. -/
def advance (monitors : Monitors Thread Mutex Condition) (thread : Thread) :
    Option (Monitors Thread Mutex Condition) :=
  match monitors.position thread with
  | ⟨[], _⟩ => none
  | ⟨.lock mutex :: rest, _⟩ =>
    if monitors.owner mutex = none then
      some ((monitors.assign thread ⟨rest, .running⟩).own mutex (some thread))
    else none
  | ⟨.unlock mutex :: rest, _⟩ =>
    some ((monitors.assign thread ⟨rest, .running⟩).own mutex none)
  | ⟨.await condition mutex :: rest, .running⟩ =>
    if monitors.holds condition then some (monitors.assign thread ⟨rest, .running⟩)
    else some (monitors.assign thread ⟨.await condition mutex :: rest, .tested⟩)
  | ⟨.await condition mutex :: rest, .tested⟩ =>
    some ((monitors.assign thread ⟨.await condition mutex :: rest, .blocked⟩).own mutex none)
  | ⟨.await _ _ :: _, .blocked⟩ => none
  | ⟨.await condition mutex :: rest, .woken⟩ =>
    if monitors.owner mutex = none then
      some ((monitors.assign thread ⟨.await condition mutex :: rest, .running⟩).own mutex
        (some thread))
    else none
  | ⟨.set condition :: rest, _⟩ =>
    some { monitors.assign thread ⟨rest, .running⟩ with
      holds := Function.update monitors.holds condition true
      notified := Function.update monitors.notified condition false }
  | ⟨.clear condition :: rest, _⟩ =>
    some { monitors.assign thread ⟨rest, .running⟩ with
      holds := Function.update monitors.holds condition false }
  | ⟨.notify condition :: rest, _⟩ =>
    some { monitors with
      position := wake condition ∘ Function.update monitors.position thread ⟨rest, .running⟩
      notified := Function.update monitors.notified condition true }

/-- The machine of threads that call procedures with the given programs. -/
def machine (program : Thread → Procedure → Option (List (Statement Mutex Condition))) :
    Machine (Monitors Thread Mutex Condition) (MonitorInput Thread Procedure) where
  step monitors
    | .call thread procedure =>
      match monitors.position thread, program thread procedure with
      | ⟨[], _⟩, some statements => some (monitors.assign thread ⟨statements, .running⟩)
      | _, _ => none
    | .step thread => monitors.advance thread
    | .spurious thread =>
      match monitors.position thread with
      | ⟨.await condition mutex :: rest, .blocked⟩ =>
        some (monitors.assign thread ⟨.await condition mutex :: rest, .woken⟩)
      | _ => none

/-- A thread is blocked on a condition. -/
def Blocked (monitors : Monitors Thread Mutex Condition) (condition : Condition)
    (thread : Thread) : Prop :=
  ∃ mutex rest, monitors.position thread = ⟨.await condition mutex :: rest, .blocked⟩

/-- A thread is blocked on a condition that holds and whose notification was issued. -/
def Lost (monitors : Monitors Thread Mutex Condition) (thread : Thread) : Prop :=
  ∃ condition, monitors.Blocked condition thread ∧ monitors.holds condition = true ∧
    monitors.notified condition = true

/-- A thread is about to notify. -/
def Announces (monitors : Monitors Thread Mutex Condition) (condition : Condition)
    (thread : Thread) : Prop :=
  ∃ rest phase, monitors.position thread = ⟨.notify condition :: rest, phase⟩

/-- A thread has found that a condition does not hold and has not blocked yet. -/
def InWindow (monitors : Monitors Thread Mutex Condition) (condition : Condition)
    (thread : Thread) : Prop :=
  ∃ mutex rest, monitors.position thread = ⟨.await condition mutex :: rest, .tested⟩

end Monitors

/-! ## Discipline -/

section Discipline

variable {Mutex Condition : Type} [DecidableEq Mutex]

/-- A program that releases a mutex before it takes it: it runs with the mutex taken. -/
def Owes : List (Statement Mutex Condition) → Mutex → Prop
  | [], _ => False
  | .lock taken :: rest, mutex => taken ≠ mutex ∧ Owes rest mutex
  | .unlock given :: rest, mutex => given = mutex ∨ Owes rest mutex
  | _ :: rest, mutex => Owes rest mutex

/-- A program waits for guarded conditions under their guards, and sets them under their guards. -/
def Obeys (guard : Condition → Option Mutex) : List (Statement Mutex Condition) → Prop
  | [] => True
  | .unlock mutex :: rest => ¬ Owes rest mutex ∧ Obeys guard rest
  | .await condition mutex :: rest =>
    (Owes rest mutex ∧ ∀ guarding, guard condition = some guarding → guarding = mutex) ∧
      Obeys guard rest
  | .set condition :: rest =>
    (∀ guarding, guard condition = some guarding → Owes rest guarding) ∧ Obeys guard rest
  | _ :: rest => Obeys guard rest

/-- A whole program obeys the guards and gives back what it takes. -/
structure Disciplined (guard : Condition → Option Mutex)
    (program : List (Statement Mutex Condition)) : Prop where
  /-- It takes every mutex before it gives it back. -/
  closed : ∀ mutex, ¬ Owes program mutex
  /-- It obeys the guards. -/
  obeys : Obeys guard program

end Discipline

namespace Monitors

variable {Thread Mutex Condition Procedure : Type}

section Frames

variable {monitors : Monitors Thread Mutex Condition} {thread other : Thread}

@[simp] theorem position_assign_self [DecidableEq Thread] {position : Position Mutex Condition} :
    (monitors.assign thread position).position thread = position := by
  simp [assign]

theorem position_assign_other [DecidableEq Thread] {position : Position Mutex Condition}
    (differ : other ≠ thread) :
    (monitors.assign thread position).position other = monitors.position other := by
  simp [assign, differ]

/-- Waking leaves the program. -/
@[simp] theorem program_wake [DecidableEq Condition] (condition : Condition)
    (position : Position Mutex Condition) :
    (wake condition position).program = position.program := by
  unfold wake
  split <;> rfl

/-- A thread that is blocked or was woken stays so. -/
theorem phase_wake [DecidableEq Condition] {condition : Condition}
    {position : Position Mutex Condition} (away : position.phase = .blocked ∨ position.phase = .woken) :
    (wake condition position).phase = .blocked ∨ (wake condition position).phase = .woken := by
  unfold wake
  split
  · simp only
    split
    · exact .inr rfl
    · exact .inl rfl
  · exact away

section Wake

variable [DecidableEq Condition]

/-- Waking a thread does not put it between its test and its block. -/
theorem tested_wake {condition awaited : Condition} {mutex : Mutex}
    {rest : List (Statement Mutex Condition)} {position : Position Mutex Condition}
    (tested : wake condition position = ⟨.await awaited mutex :: rest, .tested⟩) :
    position = ⟨.await awaited mutex :: rest, .tested⟩ := by
  unfold wake at tested
  split at tested
  · simp only [Position.mk.injEq] at tested
    split at tested
    · cases tested.2
    · cases tested.2
  · exact tested

/-- Waking all threads that are blocked on a condition leaves none. -/
theorem blocked_wake {condition awaited : Condition} {mutex : Mutex}
    {rest : List (Statement Mutex Condition)} {position : Position Mutex Condition}
    (blocked : wake condition position = ⟨.await awaited mutex :: rest, .blocked⟩) :
    position = ⟨.await awaited mutex :: rest, .blocked⟩ ∧ awaited ≠ condition := by
  unfold wake at blocked
  split at blocked
  · simp only [Position.mk.injEq] at blocked
    obtain ⟨program, phase⟩ := blocked
    split at phase
    · cases phase
    · rename_i differ
      cases program
      exact ⟨rfl, differ⟩
  · rename_i other
    exact absurd blocked (by rintro rfl; exact other _ _ _ rfl)

end Wake

end Frames

/-! ## Who has taken which mutex -/

section Owners

variable {monitors after : Monitors Thread Mutex Condition} {thread : Thread}
  {guard : Condition → Option Mutex}

/-- The thread is blocked, or was woken and has not taken the mutex again. -/
def Released (monitors : Monitors Thread Mutex Condition) (thread : Thread) (mutex : Mutex) : Prop :=
  ∃ condition rest, (monitors.position thread).program = .await condition mutex :: rest ∧
    ((monitors.position thread).phase = .blocked ∨ (monitors.position thread).phase = .woken)

/-- Every thread has taken the mutexes that its program gives back, but for the one that it released
when it blocked. -/
def Owned (monitors : Monitors Thread Mutex Condition) : Prop :=
  ∀ thread mutex, Owes (monitors.position thread).program mutex →
    ¬ monitors.Released thread mutex → monitors.owner mutex = some thread

/-- A thread has not released a mutex while it stands elsewhere than in the loop of an `await`. -/
theorem not_released {position : Position Mutex Condition} {mutex : Mutex}
    (here : monitors.position thread = position)
    (elsewhere : position.phase = .running ∨ position.phase = .tested ∨
      ∀ condition taken rest, position.program ≠ .await condition taken :: rest) :
    ¬ monitors.Released thread mutex := by
  rintro ⟨condition, rest, program, phase⟩
  rw [here] at program phase
  rcases elsewhere with running | tested | other
  · simp [running] at phase
  · simp [tested] at phase
  · exact other _ _ _ program

/-- A program that obeys the guards goes on obeying them. -/
theorem obeys_tail {program : List (Statement Mutex Condition)} (obeys : Obeys guard program) :
    Obeys guard program.tail := by
  cases program with
  | nil => exact obeys
  | cons statement rest =>
    cases statement with
    | lock | clear | notify => exact obeys
    | unlock | await | set => exact obeys.2

variable [DecidableEq Thread]

/-- A step of one thread keeps the owners when it takes nothing from the others. -/
theorem Owned.move (owned : monitors.Owned)
    (mine : ∀ mutex, Owes (after.position thread).program mutex → ¬ after.Released thread mutex →
      after.owner mutex = some thread)
    (others : ∀ other, other ≠ thread →
      (after.position other).program = (monitors.position other).program)
    (released : ∀ other mutex, other ≠ thread → monitors.Released other mutex →
      after.Released other mutex)
    (kept : ∀ other mutex, other ≠ thread → monitors.owner mutex = some other →
      after.owner mutex = some other) : after.Owned := by
  intro other mutex owes without
  by_cases same : other = thread
  · subst same
    exact mine mutex owes without
  · rw [others other same] at owes
    exact kept other mutex same
      (owned other mutex owes (fun left => without (released other mutex same left)))

/-- A step that only moves one thread leaves the others where they are. -/
theorem released_assign {position : Position Mutex Condition} {other : Thread} {mutex : Mutex}
    (differ : other ≠ thread) (released : monitors.Released other mutex) :
    (monitors.assign thread position).Released other mutex := by
  unfold Released at *
  rw [position_assign_other differ]
  exact released

/-- A thread that moves within its program has taken what it gives back. -/
theorem Owned.assign {position : Position Mutex Condition} (owned : monitors.Owned)
    (mine : ∀ mutex, Owes position.program mutex →
      ¬ (monitors.assign thread position).Released thread mutex → monitors.owner mutex = some thread) :
    (monitors.assign thread position).Owned := by
  apply owned.move
  · rw [position_assign_self]
    exact mine
  · intro other differ
    rw [position_assign_other differ]
  · intro other mutex differ
    exact released_assign differ
  · exact fun _ _ _ kept => kept

/-- Taking and giving back mutexes, a thread keeps what the others have taken. -/
theorem Owned.own [DecidableEq Mutex] {position : Position Mutex Condition} {mutex : Mutex}
    {owner : Option Thread}
    (owned : monitors.Owned)
    (before : monitors.owner mutex = none ∨ monitors.owner mutex = some thread)
    (mine : ∀ taken, Owes position.program taken →
      ¬ (monitors.assign thread position).Released thread taken →
      Function.update monitors.owner mutex owner taken = some thread) :
    ((monitors.assign thread position).own mutex owner).Owned := by
  apply owned.move
  · intro taken owes without
    have program : ((monitors.assign thread position).own mutex owner).position thread = position :=
      position_assign_self
    rw [program] at owes
    exact mine taken owes without
  · intro other differ
    have same : ((monitors.assign thread position).own mutex owner).position other =
        monitors.position other := position_assign_other differ
    rw [same]
  · intro other taken differ released
    exact released_assign differ released
  · intro other taken differ kept
    have another : taken ≠ mutex := by
      rintro rfl
      rcases before with free | mine
      · rw [free] at kept
        cases kept
      · exact differ (Option.some.inj (kept.symm.trans mine))
    exact (Function.update_of_ne another _ _).trans kept

end Owners

/-! ## No wake-up is lost -/

section Hearing

variable {monitors : Monitors Thread Mutex Condition} {thread : Thread}
  {guard : Condition → Option Mutex}

/-- What holds in every state as long as no unguarded notification falls between the test and the
block of a thread. -/
structure Heard (guard : Condition → Option Mutex) (monitors : Monitors Thread Mutex Condition) :
    Prop where
  /-- Mutexes are taken by those who give them back. -/
  owned : monitors.Owned
  /-- Programs obey the guards. -/
  obeys : ∀ thread, Obeys guard (monitors.position thread).program
  /-- A guarded condition does not hold while a thread is about to block on it. -/
  unset : ∀ thread condition, monitors.InWindow condition thread → guard condition ≠ none →
    monitors.holds condition = false
  /-- No thread is blocked, or about to block, on a condition that holds and was announced. -/
  unannounced : ∀ thread condition,
    monitors.Blocked condition thread ∨ monitors.InWindow condition thread →
    monitors.holds condition = true → monitors.notified condition = false

/-- No wake-up is lost then. -/
theorem Heard.not_lost (heard : Heard guard monitors) (thread : Thread) :
    ¬ monitors.Lost thread := by
  rintro ⟨condition, blocked, holds, notified⟩
  have silent := heard.unannounced thread condition (Or.inl blocked) holds
  rw [notified] at silent
  cases silent

/-- A thread that sets a guarded condition has taken its guard, so no other is about to block. -/
theorem Heard.alone {condition : Condition} {other : Thread} {phase : Phase}
    {rest : List (Statement Mutex Condition)} (heard : Heard guard monitors)
    (guarded : guard condition ≠ none)
    (here : monitors.position thread = ⟨.set condition :: rest, phase⟩) :
    ¬ monitors.InWindow condition other := by
  rintro ⟨mutex, more, there⟩
  obtain ⟨guarding, guardedBy⟩ := Option.ne_none_iff_exists'.mp guarded
  have sets := heard.obeys thread
  have waits := heard.obeys other
  rw [here] at sets
  rw [there] at waits
  obtain rfl := waits.1.2 guarding guardedBy
  have mine : monitors.owner guarding = some thread := by
    apply heard.owned thread guarding _ (not_released here (.inr (.inr (by simp))))
    rw [here]
    exact sets.1 guarding guardedBy
  have its : monitors.owner guarding = some other := by
    apply heard.owned other guarding _ (not_released there (.inr (.inl rfl)))
    rw [there]
    exact waits.1.1
  rw [mine] at its
  cases its
  rw [here] at there
  cases there

/-- At the start nobody waits. -/
theorem heard_idle : Heard guard (idle : Monitors Thread Mutex Condition) where
  owned := fun _ _ owes => owes.elim
  obeys := fun _ => trivial
  unset := by
    rintro thread condition ⟨mutex, rest, there⟩
    cases there
  unannounced := fun _ _ _ holds => by cases holds

/-- Moving a thread to where it neither blocks nor is about to keeps that. -/
theorem Heard.assign [DecidableEq Thread] {position : Position Mutex Condition} (heard : Heard guard monitors)
    (owned : (monitors.assign thread position).Owned) (obeys : Obeys guard position.program)
    (away : position.phase = .running ∨ position.phase = .woken) :
    Heard guard (monitors.assign thread position) := by
  have elsewhere : ∀ other condition mutex rest phase, phase = .tested ∨ phase = .blocked →
      (monitors.assign thread position).position other = ⟨.await condition mutex :: rest, phase⟩ →
      monitors.position other = ⟨.await condition mutex :: rest, phase⟩ := by
    intro other condition mutex rest phase waits there
    by_cases same : other = thread
    · subst same
      rw [position_assign_self] at there
      subst there
      rcases waits with rfl | rfl <;> simp at away
    · exact (position_assign_other same).symm.trans there
  refine ⟨owned, ?_, ?_, ?_⟩
  · intro other
    by_cases same : other = thread
    · subst same
      rw [position_assign_self]
      exact obeys
    · rw [position_assign_other same]
      exact heard.obeys other
  · rintro other condition ⟨mutex, rest, there⟩
    exact heard.unset other condition ⟨mutex, rest, elsewhere _ _ _ _ _ (.inl rfl) there⟩
  · intro other condition waits
    apply heard.unannounced other condition
    rcases waits with ⟨mutex, rest, there⟩ | ⟨mutex, rest, there⟩
    · exact Or.inl ⟨mutex, rest, elsewhere _ _ _ _ _ (.inr rfl) there⟩
    · exact Or.inr ⟨mutex, rest, elsewhere _ _ _ _ _ (.inl rfl) there⟩

end Hearing

/-! ## Steps -/

variable [DecidableEq Thread] [DecidableEq Mutex] [DecidableEq Condition]

/-- The steps of one thread. -/
inductive Advances (monitors : Monitors Thread Mutex Condition) (thread : Thread) :
    Monitors Thread Mutex Condition → Prop
  /-- It takes a mutex. -/
  | lock {mutex rest phase} : monitors.position thread = ⟨.lock mutex :: rest, phase⟩ →
    monitors.owner mutex = none →
    Advances monitors thread ((monitors.assign thread ⟨rest, .running⟩).own mutex (some thread))
  /-- It gives a mutex back. -/
  | unlock {mutex rest phase} : monitors.position thread = ⟨.unlock mutex :: rest, phase⟩ →
    Advances monitors thread ((monitors.assign thread ⟨rest, .running⟩).own mutex none)
  /-- It finds that the condition holds. -/
  | found {condition mutex rest} :
    monitors.position thread = ⟨.await condition mutex :: rest, .running⟩ →
    monitors.holds condition = true →
    Advances monitors thread (monitors.assign thread ⟨rest, .running⟩)
  /-- It finds that the condition does not hold. -/
  | missed {condition mutex rest} :
    monitors.position thread = ⟨.await condition mutex :: rest, .running⟩ →
    monitors.holds condition = false →
    Advances monitors thread (monitors.assign thread ⟨.await condition mutex :: rest, .tested⟩)
  /-- It releases the mutex and blocks. -/
  | block {condition mutex rest} :
    monitors.position thread = ⟨.await condition mutex :: rest, .tested⟩ →
    Advances monitors thread
      ((monitors.assign thread ⟨.await condition mutex :: rest, .blocked⟩).own mutex none)
  /-- It takes the mutex again after it was woken. -/
  | retake {condition mutex rest} :
    monitors.position thread = ⟨.await condition mutex :: rest, .woken⟩ →
    monitors.owner mutex = none →
    Advances monitors thread
      ((monitors.assign thread ⟨.await condition mutex :: rest, .running⟩).own mutex (some thread))
  /-- It sets a condition. -/
  | set {condition rest phase} : monitors.position thread = ⟨.set condition :: rest, phase⟩ →
    Advances monitors thread { monitors.assign thread ⟨rest, .running⟩ with
      holds := Function.update monitors.holds condition true
      notified := Function.update monitors.notified condition false }
  /-- It clears a condition. -/
  | clear {condition rest phase} : monitors.position thread = ⟨.clear condition :: rest, phase⟩ →
    Advances monitors thread { monitors.assign thread ⟨rest, .running⟩ with
      holds := Function.update monitors.holds condition false }
  /-- It notifies. -/
  | notify {condition rest phase} : monitors.position thread = ⟨.notify condition :: rest, phase⟩ →
    Advances monitors thread { monitors with
      position := wake condition ∘ Function.update monitors.position thread ⟨rest, .running⟩
      notified := Function.update monitors.notified condition true }

variable {monitors after : Monitors Thread Mutex Condition} {thread : Thread}

/-- A step of a thread is one of these. -/
theorem advances_of_advance (ok : monitors.advance thread = some after) :
    monitors.Advances thread after := by
  unfold advance at ok
  split at ok
  next => cases ok
  next here =>
    split at ok
    · rename_i free
      cases ok
      exact .lock here free
    · cases ok
  next here =>
    cases ok
    exact .unlock here
  next here =>
    split at ok
    · rename_i holds
      cases ok
      exact .found here holds
    · rename_i fails
      cases ok
      exact .missed here (Bool.not_eq_true _ ▸ fails)
  next here =>
    cases ok
    exact .block here
  next => cases ok
  next here =>
    split at ok
    · rename_i free
      cases ok
      exact .retake here free
    · cases ok
  next here =>
    cases ok
    exact .set here
  next here =>
    cases ok
    exact .clear here
  next here =>
    cases ok
    exact .notify here

/-! ## Steps keep the owners -/

variable {guard : Condition → Option Mutex}

/-- Every step of a thread that obeys the guards keeps the owners. -/
theorem Owned.advances (owned : monitors.Owned)
    (obeys : Obeys guard (monitors.position thread).program)
    (step : monitors.Advances thread after) : after.Owned := by
  cases step with
  | @lock mutex rest phase here free =>
    have out : ∀ taken, ¬ monitors.Released thread taken :=
      fun taken => not_released here (.inr (.inr (by simp)))
    apply owned.own (.inl free)
    intro taken owes _
    by_cases same : taken = mutex
    · rw [same, Function.update_self]
    · rw [Function.update_of_ne same]
      apply owned thread taken _ (out taken)
      rw [here]
      exact ⟨Ne.symm same, owes⟩
  | @unlock mutex rest phase here =>
    have out : ∀ taken, ¬ monitors.Released thread taken :=
      fun taken => not_released here (.inr (.inr (by simp)))
    rw [here] at obeys
    have taken : monitors.owner mutex = some thread := by
      apply owned thread mutex _ (out mutex)
      rw [here]
      exact Or.inl rfl
    apply owned.own (.inr taken)
    intro taken owes _
    have other : taken ≠ mutex := by
      rintro rfl
      exact obeys.1 owes
    rw [Function.update_of_ne other]
    apply owned thread taken _ (out taken)
    rw [here]
    exact Or.inr owes
  | @found condition mutex rest here holds =>
    apply owned.assign
    intro taken owes _
    apply owned thread taken _ (not_released here (.inl rfl))
    rw [here]
    exact owes
  | @missed condition mutex rest here fails =>
    apply owned.assign
    intro taken owes _
    apply owned thread taken _ (not_released here (.inl rfl))
    rw [here]
    exact owes
  | @block condition mutex rest here =>
    have out : ∀ taken, ¬ monitors.Released thread taken :=
      fun taken => not_released here (.inr (.inl rfl))
    rw [here] at obeys
    have taken : monitors.owner mutex = some thread := by
      apply owned thread mutex _ (out mutex)
      rw [here]
      exact obeys.1.1
    apply owned.own (.inr taken)
    intro taken owes without
    have other : taken ≠ mutex := by
      rintro rfl
      apply without
      refine ⟨condition, rest, ?_, Or.inl ?_⟩
      · rw [position_assign_self]
      · rw [position_assign_self]
    rw [Function.update_of_ne other]
    apply owned thread taken _ (out taken)
    rw [here]
    exact owes
  | @retake condition mutex rest here free =>
    apply owned.own (.inl free)
    intro taken owes _
    by_cases same : taken = mutex
    · rw [same, Function.update_self]
    · rw [Function.update_of_ne same]
      apply owned thread taken
      · rw [here]
        exact owes
      · rintro ⟨awaited, others, program, -⟩
        rw [here] at program
        cases program
        exact same rfl
  | @set condition rest phase here =>
    apply owned.assign
    intro taken owes _
    apply owned thread taken _ (not_released here (.inr (.inr (by simp))))
    rw [here]
    exact owes
  | @clear condition rest phase here =>
    apply owned.assign
    intro taken owes _
    apply owned thread taken _ (not_released here (.inr (.inr (by simp))))
    rw [here]
    exact owes
  | @notify condition rest phase here =>
    apply owned.move
    · intro taken owes _
      apply owned thread taken _ (not_released here (.inr (.inr (by simp))))
      rw [here]
      simp only [Function.comp_apply, Function.update_self, program_wake] at owes
      exact owes
    · intro other differ
      simp [differ]
    · rintro other taken differ ⟨awaited, others, program, away⟩
      refine ⟨awaited, others, ?_, ?_⟩
      · simpa [differ] using program
      · simp only [Function.comp_apply, Function.update_of_ne differ]
        exact phase_wake away
    · exact fun _ _ _ kept => kept

/-! ## What a step of one thread changes -/

/-- The other programs stay; its own stays or loses its first statement. -/
theorem program_advances (step : monitors.Advances thread after) (other : Thread) :
    (after.position other).program = (monitors.position other).program ∨
      (after.position other).program = (monitors.position other).program.tail := by
  by_cases same : other = thread
  · subst same
    cases step with
    | lock here | unlock here | found here | set here | clear here | notify here =>
      right
      simp [assign, own, here]
    | missed here | block here | retake here =>
      left
      simp [assign, own, here]
  · left
    cases step with
    | lock | unlock | found | missed | block | retake | set | clear =>
      exact congrArg Position.program (position_assign_other same)
    | notify => simp [same]

theorem obeys_advances (step : monitors.Advances thread after)
    (obeys : ∀ other, Obeys guard (monitors.position other).program) (other : Thread) :
    Obeys guard (after.position other).program := by
  rcases program_advances step other with same | shorter
  · rw [same]
    exact obeys other
  · rw [shorter]
    exact obeys_tail (obeys other)

/-- A thread gets between its test and its block by a test that fails. -/
theorem window_advances {condition : Condition} {other : Thread}
    (step : monitors.Advances thread after) (window : after.InWindow condition other) :
    (other ≠ thread ∧ monitors.InWindow condition other) ∨
      (monitors.holds condition = false ∧ after.holds = monitors.holds) := by
  obtain ⟨mutex, rest, there⟩ := window
  by_cases same : other = thread
  · subst same
    right
    cases step with
    | missed here fails =>
      simp only [position_assign_self] at there
      cases there
      exact ⟨fails, rfl⟩
    | lock | unlock | found | block | retake | set | clear | notify =>
      simp [assign, own, wake] at there
  · left
    refine ⟨same, mutex, rest, ?_⟩
    cases step with
    | lock | unlock | found | missed | block | retake | set | clear =>
      exact (position_assign_other same).symm.trans there
    | notify =>
      simp only [Function.comp_apply, Function.update_of_ne same] at there
      exact tested_wake there

/-- A thread gets blocked from between its test and its block. -/
theorem blocked_advances {condition : Condition} {other : Thread}
    (step : monitors.Advances thread after) (blocked : after.Blocked condition other) :
    ¬ monitors.Announces condition thread ∧
      (monitors.Blocked condition other ∨ monitors.InWindow condition other) := by
  obtain ⟨mutex, rest, there⟩ := blocked
  by_cases same : other = thread
  · subst same
    cases step with
    | block here =>
      have there := position_assign_self.symm.trans there
      cases there
      refine ⟨?_, Or.inr ⟨_, _, here⟩⟩
      rintro ⟨_, _, announces⟩
      rw [here] at announces
      cases announces
    | lock | unlock | found | missed | retake | set | clear | notify =>
      simp [assign, own, wake] at there
  · cases step with
    | lock here | unlock here | found here | missed here | block here | retake here | set here
    | clear here =>
      refine ⟨?_, Or.inl ⟨mutex, rest, (position_assign_other same).symm.trans there⟩⟩
      rintro ⟨_, _, announces⟩
      rw [here] at announces
      cases announces
    | notify here =>
      simp only [Function.comp_apply, Function.update_of_ne same] at there
      obtain ⟨before, differ⟩ := blocked_wake there
      refine ⟨?_, Or.inl ⟨mutex, rest, before⟩⟩
      rintro ⟨_, _, announces⟩
      rw [here] at announces
      cases announces
      exact differ rfl

/-- A condition comes to hold when it is set, and then it was not announced. -/
theorem holds_advances {condition : Condition} (step : monitors.Advances thread after)
    (holds : after.holds condition = true) :
    monitors.holds condition = true ∨ (after.notified condition = false ∧
      ∃ rest phase, monitors.position thread = ⟨.set condition :: rest, phase⟩) := by
  cases step with
  | lock | unlock | found | missed | block | retake | notify => exact Or.inl holds
  | @set changed rest phase here =>
    by_cases same : condition = changed
    · subst same
      exact Or.inr ⟨Function.update_self .., rest, phase, here⟩
    · simp only [Function.update_of_ne same] at holds
      exact Or.inl holds
  | @clear changed rest phase here =>
    by_cases same : condition = changed
    · subst same
      simp at holds
    · simp only [Function.update_of_ne same] at holds
      exact Or.inl holds

/-- A condition counts as announced when a thread notifies. -/
theorem notified_advances {condition : Condition} (step : monitors.Advances thread after)
    (notified : after.notified condition = true) :
    monitors.notified condition = true ∨
      (after.holds = monitors.holds ∧ monitors.Announces condition thread) := by
  cases step with
  | lock | unlock | found | missed | block | retake | clear => exact Or.inl notified
  | @set changed rest phase here =>
    by_cases same : condition = changed
    · subst same
      simp at notified
    · simp only [Function.update_of_ne same] at notified
      exact Or.inl notified
  | @notify changed rest phase here =>
    by_cases same : condition = changed
    · subst same
      exact Or.inr ⟨rfl, rest, phase, here⟩
    · simp only [Function.update_of_ne same] at notified
      exact Or.inl notified

/-! ## Steps keep wake-ups -/

/-- The steps of a thread keep that. -/
theorem Heard.advances (heard : Heard guard monitors) (step : monitors.Advances thread after)
    (announced : ∀ condition, monitors.Announces condition thread → guard condition = none →
      ∀ other, ¬ monitors.InWindow condition other) : Heard guard after where
  owned := heard.owned.advances (heard.obeys thread) step
  obeys := obeys_advances step heard.obeys
  unset := by
    intro other condition window guarded
    rcases window_advances step window with ⟨_, before⟩ | ⟨fails, same⟩
    · by_contra holds
      rcases holds_advances step (Bool.not_eq_false _ ▸ holds) with held | ⟨_, rest, phase, here⟩
      · rw [heard.unset other condition before guarded] at held
        cases held
      · exact heard.alone guarded here before
    · rw [same]
      exact fails
  unannounced := by
    intro other condition waiting holds
    by_contra announces
    have notified : after.notified condition = true := Bool.not_eq_false _ ▸ announces
    have held : monitors.holds condition = true := by
      rcases holds_advances step holds with held | ⟨silent, _⟩
      · exact held
      · exact absurd silent announces
    -- the thread was waiting before the step, and at a notification still before its block
    have before : monitors.Blocked condition other ∧ ¬ monitors.Announces condition thread ∨
        monitors.InWindow condition other := by
      rcases waiting with blocked | window
      · obtain ⟨silent, blocked | window⟩ := blocked_advances step blocked
        · exact Or.inl ⟨blocked, silent⟩
        · exact Or.inr window
      · rcases window_advances step window with ⟨_, window⟩ | ⟨fails, _⟩
        · exact Or.inr window
        · rw [held] at fails
          cases fails
    rcases notified_advances step notified with early | ⟨same, now⟩
    · have silent := heard.unannounced other condition (before.imp_left And.left) held
      rw [early] at silent
      cases silent
    · rcases before with ⟨_, silent⟩ | window
      · exact silent now
      · by_cases guarded : guard condition = none
        · exact announced condition now guarded other window
        · rw [heard.unset other condition window guarded] at held
          cases held

/-- A notification of an unguarded condition falls between no thread's test and its block. -/
def Timely (guard : Condition → Option Mutex) (before : Monitors Thread Mutex Condition)
    (input : MonitorInput Thread Procedure) : Prop :=
  ∀ thread condition, input = .step thread → before.Announces condition thread →
    guard condition = none → ∀ other, ¬ before.InWindow condition other

variable {program : Thread → Procedure → Option (List (Statement Mutex Condition))}

/-- Every timely input keeps wake-ups from being lost. -/
theorem Heard.step {input : MonitorInput Thread Procedure}
    (disciplined : ∀ thread procedure statements, program thread procedure = some statements →
      Disciplined guard statements)
    (heard : Heard guard monitors) (timely : Timely guard monitors input)
    (ok : (machine program).step monitors input = some after) : Heard guard after := by
  cases input with
  | call thread procedure =>
    simp only [machine] at ok
    split at ok
    · rename_i statements here called
      cases ok
      have whole := disciplined thread procedure statements called
      apply heard.assign _ whole.obeys (Or.inl rfl)
      apply heard.owned.assign
      intro mutex owes
      exact absurd owes (whole.closed mutex)
    · cases ok
  | step thread =>
    apply heard.advances (advances_of_advance ok)
    intro condition announces unguarded
    exact timely thread condition rfl announces unguarded
  | spurious thread =>
    simp only [machine] at ok
    split at ok
    · rename_i condition mutex rest here
      cases ok
      have obeys : Obeys guard (.await condition mutex :: rest) := by
        have obeys := heard.obeys thread
        rw [here] at obeys
        exact obeys
      apply heard.assign _ obeys (Or.inr rfl)
      apply heard.owned.assign
      intro taken owes without
      apply heard.owned thread taken
      · rw [here]
        exact owes
      · rintro ⟨awaited, more, same, -⟩
        rw [here] at same
        cases same
        exact without ⟨condition, rest, by rw [position_assign_self],
          by rw [position_assign_self]; exact Or.inr rfl⟩
    · cases ok

/-- **Monitor rule.** When the programs are disciplined and the notifications of unguarded conditions
are timely, no run loses a wake-up. -/
theorem not_lost_of_timely {inputs : List (MonitorInput Thread Procedure)}
    (disciplined : ∀ thread procedure statements, program thread procedure = some statements →
      Disciplined guard statements)
    (timely : ∀ before input after, (machine program).Takes idle inputs before input after →
      Timely guard before input)
    (ran : (machine program).run idle inputs = some after) (thread : Thread) :
    ¬ after.Lost thread :=
  Heard.not_lost (Machine.run_guarded (Heard guard) (fun before input _ => Timely guard before input)
    (fun _ _ _ heard timely ok => heard.step disciplined timely ok) heard_idle timely ran) thread

/-- A notification leaves a thread between its test and its block. -/
theorem advance_notify {condition : Condition} {mutex : Mutex} {other : Thread} {phase : Phase}
    {rest more : List (Statement Mutex Condition)}
    (here : monitors.position thread = ⟨.notify condition :: rest, phase⟩)
    (there : monitors.position other = ⟨.await condition mutex :: more, .tested⟩)
    (differ : other ≠ thread) :
    ∃ after, monitors.advance thread = some after ∧ after.notified condition = true ∧
      after.holds condition = monitors.holds condition ∧
      after.position other = ⟨.await condition mutex :: more, .tested⟩ := by
  refine ⟨{ monitors with
    position := wake condition ∘ Function.update monitors.position thread ⟨rest, .running⟩
    notified := Function.update monitors.notified condition true }, ?_, ?_, rfl, ?_⟩
  · rw [advance, here]
  · exact Function.update_self ..
  · simp only [Function.comp_apply, Function.update_of_ne differ, there]
    rfl

/-- A notification that falls between a test and a block loses the wake-up: once the condition
holds, the thread's next step blocks it for good. -/
theorem lost_of_window {condition : Condition} {mutex : Mutex}
    {rest : List (Statement Mutex Condition)}
    (window : monitors.position thread = ⟨.await condition mutex :: rest, .tested⟩)
    (holds : monitors.holds condition = true) (notified : monitors.notified condition = true) :
    ∃ after, monitors.advance thread = some after ∧ after.Lost thread := by
  refine ⟨(monitors.assign thread ⟨.await condition mutex :: rest, .blocked⟩).own mutex none, ?_,
    condition, ⟨mutex, rest, position_assign_self⟩, holds, notified⟩
  rw [advance, window]

end Monitors
