import Mathlib
import LearnGit.ForStd.Transition

/-!
# ThreadPool

The thread pool of the chat server, `chat/include/threadpool.h`. A section under the lock is
one step, and so is the increment of `freeThreadSize_` after a task, which is outside of it.
The destructor is left out: `isStart_` stays set.
-/

namespace Chat

/-- `POOLMODE`. -/
inductive PoolMode where
  | fixed
  | cache
deriving DecidableEq, Repr

/-- A pool of tasks of type `τ`, with the values of its constructor in a process without
    threads. `threads` lists the keys of `threads_`, and `upThreadId` is the static counter
    of `Thread`, an `int` whose overflow after `2 ^ 31` threads is left out. -/
structure ThreadPool (τ : Type) where
  isStart : Bool := false
  poolMode : PoolMode := .fixed
  intThreadSize : Int := 4
  maxThreadSize : Int := 100
  nowThreadSize : Int := 0
  freeThreadSize : Int := 0
  taskMaxSize : Int := 5
  taskSize : Int := 0
  taskQue : List τ := []
  threads : List Nat := []
  upThreadId : Nat := 0
deriving DecidableEq, Repr

/-- Where a thread is between two sections: in front of the lock, in the wait for a task, or
    at work on one. -/
inductive Phase (τ : Type) where
  | ready
  | waiting
  | running (t : τ)
deriving DecidableEq, Repr

structure Worker (τ : Type) where
  threadID : Nat
  phase : Phase τ := .ready
deriving DecidableEq, Repr

/-- The task that a worker has taken and not finished. -/
def Worker.task? {τ : Type} (w : Worker τ) : Option τ :=
  match w.phase with
  | .running t => some t
  | _ => none

namespace ThreadPool

variable {τ : Type}

def setMode (p : ThreadPool τ) (mode : PoolMode) : ThreadPool τ :=
  if p.isStart then p else { p with poolMode := mode }

def setintThreadSize (p : ThreadPool τ) (size : Int) : ThreadPool τ :=
  if p.isStart then p else { p with intThreadSize := size }

def settaskMaxSize (p : ThreadPool τ) (size : Int) : ThreadPool τ :=
  if p.isStart then p else { p with taskMaxSize := size }

def setmaxThreadSize (p : ThreadPool τ) (size : Int) : ThreadPool τ :=
  if p.isStart then p
  else if p.poolMode = .cache then { p with maxThreadSize := size }
  else p

/-- A new `Thread` takes the next number and goes into the map, unless that key is there. -/
def emplaceThread (p : ThreadPool τ) : ThreadPool τ :=
  { p with
    threads := if p.upThreadId ∈ p.threads then p.threads else p.upThreadId :: p.threads
    upThreadId := p.upThreadId + 1 }

/-- The second loop of `start`. An entry that is not in the map is a null pointer. -/
def startThreads (p : ThreadPool τ) (ids : List Nat) : Option (ThreadPool τ) :=
  ids.foldlM (fun p i =>
    if i ∈ p.threads then some { p with freeThreadSize := p.freeThreadSize + 1 } else none) p

/-- The pool and its first workers. -/
def start (p : ThreadPool τ) (intThreadSize : Int) :
    Option (ThreadPool τ × List (Worker τ)) :=
  let p : ThreadPool τ :=
    { p with isStart := true, intThreadSize := intThreadSize, nowThreadSize := intThreadSize }
  let ids := List.range intThreadSize.toNat
  let p := ids.foldl (fun p _ => p.emplaceThread) p
  (p.startThreads ids).map fun p => (p, ids.map fun i => { threadID := i })

/-- `submitTask` from the end of its wait on, when there is room for the task, with the worker
    it starts. The queue's length and `freeThreadSize_` are compared as unsigned numbers. -/
def submitTask (p : ThreadPool τ) (t : τ) : ThreadPool τ × Option (Worker τ) :=
  let p := { p with taskQue := p.taskQue ++ [t], taskSize := p.taskSize + 1 }
  if p.poolMode = .cache ∧ (p.taskQue.length : Int) > p.freeThreadSize % 2 ^ 64 ∧
      p.nowThreadSize < p.maxThreadSize then
    ({ p.emplaceThread with
        nowThreadSize := p.nowThreadSize + 1
        freeThreadSize := p.freeThreadSize + 1 }, some { threadID := p.upThreadId })
  else (p, none)

/-- A worker takes the task at the front of the queue; of an empty queue this is undefined. -/
def takeTask (p : ThreadPool τ) : Option (τ × ThreadPool τ) :=
  match p.taskQue with
  | t :: rest =>
    some (t, { p with
      freeThreadSize := p.freeThreadSize - 1
      taskQue := rest
      taskSize := p.taskSize - 1 })
  | [] => none

/-- The end of an idle worker. -/
def retire (p : ThreadPool τ) (threadID : Nat) : ThreadPool τ :=
  { p with
    threads := p.threads.erase threadID
    nowThreadSize := p.nowThreadSize - 1
    freeThreadSize := p.freeThreadSize - 1 }

/-- A call that configures a pool. -/
inductive Setting where
  | mode (mode : PoolMode)
  | intThreadSize (size : Nat)
  | taskMaxSize (size : Nat)
  | maxThreadSize (size : Nat)

def set (p : ThreadPool τ) : Setting → ThreadPool τ
  | .mode mode => p.setMode mode
  | .intThreadSize size => p.setintThreadSize size
  | .taskMaxSize size => p.settaskMaxSize size
  | .maxThreadSize size => p.setmaxThreadSize size

/-- The first pool of a process after some calls that configure it. -/
def configured (settings : List Setting) : ThreadPool τ := settings.foldl set {}

end ThreadPool

/-! ## A pool at work -/

/-- The pool, its threads, and the tasks that were accepted, taken and finished so far. -/
structure ThreadPoolState (τ : Type) where
  pool : ThreadPool τ
  workers : List (Worker τ)
  accepted : List τ := []
  taken : List τ := []
  done : List τ := []
deriving DecidableEq, Repr

/-- What a caller of `submitTask` or the `k`-th thread does next. -/
inductive ThreadPoolEvent (τ : Type) where
  | submitTask (t : τ)
  /-- The wait of `submitTask` times out. -/
  | rejectTask
  | waitTask (k : Nat)
  | takeTask (k : Nat)
  | finishTask (k : Nat)
  | retire (k : Nat)
deriving DecidableEq, Repr

namespace ThreadPoolState

variable {τ : Type}

/-- The tasks that are being run. -/
def running (s : ThreadPoolState τ) : List τ := s.workers.filterMap Worker.task?

/-- Every call of `submitTask` makes a task of its own. A worker that has waited for a second
    may retire also when there is a task in the meantime. -/
def step [DecidableEq τ] (s : ThreadPoolState τ) :
    ThreadPoolEvent τ → Option (ThreadPoolState τ)
  | .submitTask t =>
    if s.pool.taskSize < s.pool.taskMaxSize ∧ t ∉ s.accepted then
      let (pool, worker) := s.pool.submitTask t
      some { s with
        pool := pool
        workers := s.workers ++ worker.toList
        accepted := s.accepted ++ [t] }
    else none
  | .rejectTask => if s.pool.taskSize < s.pool.taskMaxSize then none else some s
  | .waitTask k =>
    (s.workers[k]?).bind fun w =>
      if w.task? = none ∧ s.pool.taskSize = 0 then
        some { s with workers := s.workers.set k { w with phase := .waiting } }
      else none
  | .takeTask k =>
    (s.workers[k]?).bind fun w =>
      if w.task? = none ∧ s.pool.taskSize ≠ 0 then
        s.pool.takeTask.map fun (t, pool) =>
          { s with
            pool := pool
            workers := s.workers.set k { w with phase := .running t }
            taken := s.taken ++ [t] }
      else none
  | .finishTask k =>
    (s.workers[k]?).bind fun w =>
      w.task?.map fun t =>
        { s with
          pool := { s.pool with freeThreadSize := s.pool.freeThreadSize + 1 }
          workers := s.workers.set k { w with phase := .ready }
          done := s.done ++ [t] }
  | .retire k =>
    (s.workers[k]?).bind fun w =>
      if w.phase = .waiting ∧ s.pool.poolMode = .cache ∧
          s.pool.nowThreadSize > s.pool.intThreadSize then
        some { s with pool := s.pool.retire w.threadID, workers := s.workers.eraseIdx k }
      else none

end ThreadPoolState

/-- The first pool of a process from the moment at which `start` has returned, under any
    interleaving. -/
def threadPoolSystem (τ : Type) [DecidableEq τ] (settings : List ThreadPool.Setting)
    (intThreadSize : Nat) : Transition.System (ThreadPoolState τ) (ThreadPoolEvent τ) where
  init s := ∃ p ∈ (ThreadPool.configured settings).start (intThreadSize : Int),
    s = { pool := p.1, workers := p.2 }
  step := ThreadPoolState.step

end Chat
