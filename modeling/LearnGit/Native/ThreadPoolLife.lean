import LearnGit.Native.ThreadPool

/-!
# The life of a ThreadPool

The thread pool of `chat/include/threadpool.h` with its condition variables, up to the end of
its destructor. A section under the lock is one step, and so is a wait: it ends with a
notification, for no reason, or in cache mode after a second. Which of the waiting threads
`notify_one` wakes, if any waits, is part of the step that calls it.

The destructor clears `isStart_` before it takes the lock. Nobody submits a task any more by
then.
-/

namespace Chat

/-- Where a thread is: in front of the lock, in the wait for a task, behind it and in front of
    the lock again, or at work. -/
inductive ThreadPhase (τ : Type) where
  | ready
  | waiting
  | woken
  | running (t : τ)
deriving DecidableEq, Repr

namespace ThreadPhase

variable {τ : Type}

def isWaiting : ThreadPhase τ → Bool
  | .waiting => true
  | _ => false

def isWoken : ThreadPhase τ → Bool
  | .woken => true
  | _ => false

/-- The thread looks for a task next. -/
def atLock : ThreadPhase τ → Bool
  | .ready | .woken => true
  | _ => false

/-- The task that is being run. -/
def task? : ThreadPhase τ → Option τ
  | .running t => some t
  | _ => none

end ThreadPhase

structure PoolThread (τ : Type) where
  threadID : Nat
  phase : ThreadPhase τ := .ready
deriving DecidableEq, Repr

/-- How far the owner is: it uses the pool, it has cleared `isStart_`, it waits on `over_`, it
    was woken, or the destructor has returned. -/
inductive PoolOwner where
  | active
  | stopped
  | waiting
  | woken
  | returned
deriving DecidableEq, Repr

/-- The pool, its live threads, its owner, and the tasks that were accepted, taken and finished
    so far. -/
structure PoolLife (τ : Type) where
  pool : ThreadPool τ
  threads : List (PoolThread τ)
  owner : PoolOwner := .active
  accepted : List τ := []
  taken : List τ := []
  done : List τ := []
deriving DecidableEq, Repr

inductive PoolLifeEvent (τ : Type) where
  | submitTask (t : τ) (wake : Option Nat)
  /-- The wait of `submitTask` times out. -/
  | rejectTask
  | takeTask (k : Nat) (wake : Option Nat)
  | finishTask (k : Nat)
  | waitTask (k : Nat)
  | timeout (k : Nat)
  /-- The wait of a thread ends for no reason. -/
  | wakeThread (k : Nat)
  | retire (k : Nat)
  | exit (k : Nat)
  /-- The destructor begins. -/
  | stop
  | notifyThreads
  | checkThreads
  /-- The wait of the destructor ends for no reason. -/
  | wakeOwner
deriving DecidableEq, Repr

namespace PoolLife

variable {τ : Type}

/-- `notify_one` of `notEmpty_`, which wakes the thread at the given place. -/
def notifyOne (threads : List (PoolThread τ)) : Option Nat → Option (List (PoolThread τ))
  | some k =>
    (threads[k]?).bind fun w =>
      if w.phase.isWaiting then some (threads.set k { w with phase := .woken }) else none
  | none => if threads.any fun w => w.phase.isWaiting then none else some threads

/-- `notify_all` of `notEmpty_`. -/
def notifyAll (threads : List (PoolThread τ)) : List (PoolThread τ) :=
  threads.map fun w => if w.phase.isWaiting then { w with phase := .woken } else w

/-- The wait on `over_` looks at the thread map first. -/
def checkOver (s : PoolLife τ) : PoolLife τ :=
  { s with owner := if s.pool.threads = [] then .returned else .waiting }

/-- `notify_all` of `over_`. -/
def notifyOver (s : PoolLife τ) : PoolLife τ :=
  { s with owner := if s.owner = .waiting then .woken else s.owner }

/-- A thread does `f` if its phase permits. -/
def withThread (s : PoolLife τ) (k : Nat) (may : ThreadPhase τ → Bool)
    (f : PoolThread τ → Option (PoolLife τ)) : Option (PoolLife τ) :=
  (s.threads[k]?).bind fun w => if may w.phase then f w else none

/-- Every call of `submitTask` makes a task of its own. A thread whose wait has ended may retire
    whatever has ended it: `wait_for` looks at the clock when it has the lock again. -/
def step [DecidableEq τ] (s : PoolLife τ) : PoolLifeEvent τ → Option (PoolLife τ)
  | .submitTask t wake =>
    if s.owner = .active ∧ s.pool.taskSize < s.pool.taskMaxSize ∧ t ∉ s.accepted then
      let (pool, worker) := s.pool.submitTask t
      (notifyOne s.threads wake).map fun threads =>
        { s with
          pool := pool
          threads := threads ++ worker.toList.map fun w => { threadID := w.threadID }
          accepted := s.accepted ++ [t] }
    else none
  | .rejectTask =>
    if s.owner = .active ∧ ¬ s.pool.taskSize < s.pool.taskMaxSize then some s else none
  | .takeTask k wake =>
    s.withThread k ThreadPhase.atLock fun w =>
      if s.pool.taskSize ≠ 0 then
        s.pool.takeTask.bind fun (t, pool) =>
          let threads := s.threads.set k { w with phase := .running t }
          let threads := if pool.taskSize > 0 then notifyOne threads wake else some threads
          threads.map fun threads =>
            { s with pool := pool, threads := threads, taken := s.taken ++ [t] }
      else none
  | .finishTask k =>
    s.withThread k (Option.isSome ∘ ThreadPhase.task?) fun w =>
      w.phase.task?.map fun t =>
        { s with
          pool := { s.pool with freeThreadSize := s.pool.freeThreadSize + 1 }
          threads := s.threads.set k { w with phase := .ready }
          done := s.done ++ [t] }
  | .waitTask k =>
    s.withThread k ThreadPhase.atLock fun w =>
      if s.pool.taskSize = 0 ∧ s.pool.isStart then
        some { s with threads := s.threads.set k { w with phase := .waiting } }
      else none
  | .timeout k =>
    s.withThread k ThreadPhase.isWaiting fun w =>
      if s.pool.poolMode = .cache then
        some { s with threads := s.threads.set k { w with phase := .woken } }
      else none
  | .wakeThread k =>
    s.withThread k ThreadPhase.isWaiting fun w =>
      some { s with threads := s.threads.set k { w with phase := .woken } }
  | .retire k =>
    s.withThread k ThreadPhase.isWoken fun w =>
      if s.pool.poolMode = .cache ∧ s.pool.nowThreadSize > s.pool.intThreadSize then
        some { s with pool := s.pool.retire w.threadID, threads := s.threads.eraseIdx k }
      else none
  | .exit k =>
    s.withThread k ThreadPhase.atLock fun w =>
      if s.pool.taskSize = 0 ∧ ¬ s.pool.isStart then
        some (notifyOver { s with
          pool := { s.pool with threads := s.pool.threads.erase w.threadID }
          threads := s.threads.eraseIdx k })
      else none
  | .stop =>
    if s.owner = .active then
      some { s with pool := { s.pool with isStart := false }, owner := .stopped }
    else none
  | .notifyThreads =>
    if s.owner = .stopped then some { s with threads := notifyAll s.threads }.checkOver else none
  | .checkThreads => if s.owner = .woken then some s.checkOver else none
  | .wakeOwner => if s.owner = .waiting then some { s with owner := .woken } else none

end PoolLife

/-- The first pool of a process from the moment at which `start` has returned. -/
def poolLifeSystem (τ : Type) [DecidableEq τ] (settings : List ThreadPool.Setting)
    (intThreadSize : Nat) : Transition.System (PoolLife τ) (PoolLifeEvent τ) where
  init s := ∃ p ∈ (ThreadPool.configured settings).start (intThreadSize : Int),
    s = { pool := p.1, threads := p.2.map fun w => { threadID := w.threadID } }
  step := PoolLife.step

end Chat
