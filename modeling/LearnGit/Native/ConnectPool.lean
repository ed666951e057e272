import Mathlib
import LearnGit.ForStd.Transition

/-!
# ConnectPool

The pool of database connections, of which the repository has two copies:
`chat/src/server/ConnectPool.cpp` and the older program `mysql连接池/src/ConnectPool.cpp`. They
differ in the deleter that takes a connection back and in the loop that closes idle ones.
All that happens under the lock is one step.
-/

namespace Mysql

/-- A connection, of which the pool looks at the time of its last return only (in
    nanoseconds). -/
structure MysqlDB where
  last : Int := 0
deriving DecidableEq, Repr

namespace MysqlDB

def setlasttime (_d : MysqlDB) (now : Int) : MysqlDB := { last := now }

/-- The seconds since the last return, as an `int`. -/
def resultfreetime (d : MysqlDB) (now : Int) : Int :=
  Int.bmod ((now - d.last).tdiv 1000000000) (2 ^ 32)

end MysqlDB

structure ConnectPool where
  initSize : Int
  maxSize : Int
  connnectQueue : List MysqlDB := []
  curfreeSize : Int := 0
  curSize : Int := 0
deriving DecidableEq, Repr

namespace ConnectPool

/-- A new connection goes into the queue. -/
def addConnection (p : ConnectPool) : ConnectPool :=
  { p with
    connnectQueue := p.connnectQueue ++ [{}]
    curfreeSize := p.curfreeSize + 1
    curSize := p.curSize + 1 }

/-- The constructor, when every connection it opens succeeds. -/
def new (initSize maxSize : Int) : ConnectPool :=
  (List.range initSize.toNat).foldl (fun p _ => p.addConnection)
    { initSize := initSize, maxSize := maxSize }

/-- A turn of `produceConnect` from the end of its wait on. -/
def produceConnect (p : ConnectPool) (connected : Bool) : Option ConnectPool :=
  if p.curfreeSize = 0 ∧ p.curSize < p.maxSize then
    some (if connected then p.addConnection else p)
  else none

/-- `getconn` from the end of its wait on: without a free connection it has timed out. To take
    the front of an empty queue is undefined. -/
def getconn (p : ConnectPool) : Option (Option MysqlDB × ConnectPool) :=
  if 0 < p.curfreeSize then
    match p.connnectQueue with
    | d :: rest =>
      some (some d, { p with connnectQueue := rest, curfreeSize := p.curfreeSize - 1 })
    | [] => none
  else some (none, p)

/-- The inner loop of `freetimeover`: connections leave the front of the queue as long as
    `more` allows it and they have been idle for more than ten seconds. Every turn reads the
    clock. -/
def reap (more : ConnectPool → Bool) (now : Nat → Int) : List MysqlDB → ConnectPool → ConnectPool
  | [], p => p
  | d :: rest, p =>
    if more p ∧ d.resultfreetime (now 0) > 10 then
      reap more (fun i => now (i + 1)) rest
        { p with
          connnectQueue := rest
          curfreeSize := p.curfreeSize - 1
          curSize := p.curSize - 1 }
    else p

/-! ## The two copies -/

/-- The functions in which the copies differ: the deleter that `getconn` puts into the pointer
    it returns, and `freetimeover` from the lock on. -/
structure Copy where
  deleter : ConnectPool → MysqlDB → Int → ConnectPool
  freetimeover : ConnectPool → (Nat → Int) → ConnectPool

/-- The pool of the chat server. -/
def chatServer : Copy where
  deleter p d now :=
    { p with
      connnectQueue := p.connnectQueue ++ [d.setlasttime now]
      curfreeSize := p.curfreeSize + 1 }
  freetimeover p now := reap (fun p => decide (p.curSize > p.initSize)) now p.connnectQueue p

/-- The pool of the stand-alone program. Its deleter does not count the connection as free,
    and its reaper does not stop at the initial size. -/
def standAlone : Copy where
  deleter p d now := { p with connnectQueue := p.connnectQueue ++ [d.setlasttime now] }
  freetimeover p now := reap (fun _ => true) now p.connnectQueue p

end ConnectPool

/-! ## A pool at work -/

/-- The pool and the connections that are checked out. -/
structure PoolState where
  pool : ConnectPool
  out : List MysqlDB := []
deriving DecidableEq, Repr

/-- What one of the four parties does under the lock. -/
inductive PoolEvent where
  | getconn
  /-- The `k`-th connection that is checked out comes back. -/
  | giveBack (k : Nat) (now : Int)
  | produceConnect (connected : Bool)
  | freetimeover (now : Nat → Int)

namespace PoolState

def step (copy : ConnectPool.Copy) (s : PoolState) : PoolEvent → Option PoolState
  | .getconn => s.pool.getconn.map fun r => { pool := r.2, out := s.out ++ r.1.toList }
  | .giveBack k now =>
    (s.out[k]?).map fun d => { pool := copy.deleter s.pool d now, out := s.out.eraseIdx k }
  | .produceConnect connected =>
    (s.pool.produceConnect connected).map fun p => { s with pool := p }
  | .freetimeover now => some { s with pool := copy.freetimeover s.pool now }

end PoolState

/-- A pool of one of the copies after its constructor, under any interleaving. -/
def poolSystem (copy : ConnectPool.Copy) (initSize maxSize : Int) :
    Transition.System PoolState PoolEvent where
  init s := s = { pool := .new initSize maxSize }
  step := PoolState.step copy

/-- The history and the state of a pool after the events `es`. -/
def poolSchedule (copy : ConnectPool.Copy) (initSize maxSize : Int) (es : List PoolEvent) :
    Option (List (PoolState × PoolEvent) × PoolState) :=
  (poolSystem copy initSize maxSize).exec [] { pool := .new initSize maxSize } es

theorem poolSchedule_run {copy : ConnectPool.Copy} {initSize maxSize : Int} {es : List PoolEvent}
    (hsome : (poolSchedule copy initSize maxSize es).isSome) :
    Transition.Run (poolSystem copy initSize maxSize)
      ((poolSchedule copy initSize maxSize es).get hsome).1
      ((poolSchedule copy initSize maxSize es).get hsome).2 :=
  Transition.Run.of_exec (S := poolSystem copy initSize maxSize) rfl hsome

end Mysql
