import LearnGit.Native.ConnectPool

/-!
# Accounting in the connection pools

The counters of a pool are meant to say how many connections are in the queue and how many
there are at all. In the chat server every step keeps this. The older copy does not count a
connection that comes back as free, so its books are right up to the first return.

## Key results

- `Counted.getconn`, `Counted.produceConnect`, `reap_rec`: the steps that the copies share
- `accounts_of_run`: the books of the chat server's pool in every reachable state
- `staysServed_iff`: the runs of the older copy in which the books stay right
-/

namespace Mysql

open Transition

/-! ## The counters -/

/-- The counters agree with the queue and the connections that are checked out. -/
structure Counted (s : PoolState) : Prop where
  free_eq : s.pool.curfreeSize = s.pool.connnectQueue.length
  size_eq : s.pool.curSize = s.pool.connnectQueue.length + s.out.length

variable {s s' : PoolState} {e : PoolEvent}

namespace ConnectPool

/-- The loop rule of `freetimeover`: what every turn keeps, the loop keeps. -/
theorem reap_rec {Q : ConnectPool → Prop} {more : ConnectPool → Bool}
    (hturn : ∀ (p : ConnectPool) (d : MysqlDB) (rest : List MysqlDB),
      p.connnectQueue = d :: rest → more p = true → Q p →
        Q { p with
            connnectQueue := rest
            curfreeSize := p.curfreeSize - 1
            curSize := p.curSize - 1 })
    (now : Nat → Int) {queue : List MysqlDB} {p : ConnectPool} (hqueue : p.connnectQueue = queue)
    (hp : Q p) : Q (reap more now queue p) := by
  induction queue generalizing now p with
  | nil => exact hp
  | cons d rest ih =>
    unfold reap
    split
    · next hmore => exact ih _ rfl (hturn p d rest hqueue hmore.1 hp)
    · exact hp

/-- What the constructor leaves. -/
theorem new_eq (initSize maxSize : Int) :
    new initSize maxSize =
      { initSize := initSize
        maxSize := maxSize
        connnectQueue := List.replicate initSize.toNat {}
        curfreeSize := initSize.toNat
        curSize := initSize.toNat } := by
  unfold new
  induction initSize.toNat with
  | zero => rfl
  | succ n ih =>
    rw [List.range_succ, List.foldl_append, ih, List.foldl_cons, List.foldl_nil, addConnection]
    simp [List.replicate_succ']

end ConnectPool

theorem counted_new (initSize maxSize : Int) :
    Counted { pool := ConnectPool.new initSize maxSize } := by
  rw [ConnectPool.new_eq]
  exact ⟨by simp, by simp⟩

/-- Where the counters agree with the queue, a waiter that is let through finds a
    connection. -/
theorem Counted.getconn_ne_none (hs : Counted s) : s.pool.getconn ≠ none := by
  have hfree := hs.free_eq
  unfold ConnectPool.getconn
  split
  · cases hqueue : s.pool.connnectQueue with
    | nil =>
      rw [hqueue] at hfree
      simp only [List.length_nil] at hfree
      omega
    | cons d rest => simp
  · simp

/-- The two ways in which the wait of `getconn` ends. -/
theorem ConnectPool.getconn_cases {p p' : ConnectPool} {d? : Option MysqlDB}
    (hget : p.getconn = some (d?, p')) :
    (∃ d rest, 0 < p.curfreeSize ∧ p.connnectQueue = d :: rest ∧ d? = some d ∧
      p' = { p with connnectQueue := rest, curfreeSize := p.curfreeSize - 1 }) ∨
    (p.curfreeSize ≤ 0 ∧ d? = none ∧ p' = p) := by
  unfold getconn at hget
  split at hget
  · next hfree =>
    cases hqueue : p.connnectQueue with
    | nil =>
      rw [hqueue] at hget
      exact nomatch hget
    | cons d rest =>
      rw [hqueue] at hget
      obtain ⟨rfl, rfl⟩ := Prod.mk.inj (Option.some.inj hget)
      exact .inl ⟨d, rest, hfree, rfl, rfl, rfl⟩
  · next hfree =>
    obtain ⟨rfl, rfl⟩ := Prod.mk.inj (Option.some.inj hget)
    exact .inr ⟨by omega, rfl, rfl⟩

theorem Counted.getconn (hs : Counted s) {d? : Option MysqlDB} {p : ConnectPool}
    (hget : s.pool.getconn = some (d?, p)) : Counted { pool := p, out := s.out ++ d?.toList } := by
  have hfree := hs.free_eq
  have hsize := hs.size_eq
  cases ConnectPool.getconn_cases hget with
  | inl htaken =>
    obtain ⟨d, rest, -, hqueue, rfl, rfl⟩ := htaken
    rw [hqueue, List.length_cons] at hfree hsize
    constructor
    · show s.pool.curfreeSize - 1 = rest.length
      omega
    · show s.pool.curSize = rest.length + (s.out ++ [d]).length
      simp
      omega
  | inr htimeout =>
    obtain ⟨-, rfl, rfl⟩ := htimeout
    rw [Option.toList_none, List.append_nil]
    exact hs

theorem Counted.addConnection (hs : Counted s) :
    Counted { s with pool := s.pool.addConnection } := by
  have hfree := hs.free_eq
  have hsize := hs.size_eq
  unfold ConnectPool.addConnection
  constructor
  · simp
    omega
  · simp
    omega

/-- A turn of `produceConnect` adds a connection or leaves the pool as it is. -/
theorem ConnectPool.produceConnect_cases {p p' : ConnectPool} {connected : Bool}
    (hproduce : p.produceConnect connected = some p') :
    p.curSize < p.maxSize ∧ (p' = p.addConnection ∨ p' = p) := by
  unfold produceConnect at hproduce
  split at hproduce
  · next hwait =>
    refine ⟨hwait.2, ?_⟩
    cases connected with
    | true => exact .inl (Option.some.inj hproduce).symm
    | false => exact .inr (Option.some.inj hproduce).symm
  · exact nomatch hproduce

theorem Counted.produceConnect (hs : Counted s) {p : ConnectPool} {connected : Bool}
    (hproduce : s.pool.produceConnect connected = some p) : Counted { s with pool := p } := by
  cases (ConnectPool.produceConnect_cases hproduce).2 with
  | inl hadd =>
    rw [hadd]
    exact hs.addConnection
  | inr hsame =>
    rw [hsame]
    exact hs

/-- Closing the connection at the front of the queue. -/
theorem Counted.reapTurn {p : ConnectPool} {out : List MysqlDB} (hs : Counted ⟨p, out⟩)
    {d : MysqlDB} {rest : List MysqlDB} (hqueue : p.connnectQueue = d :: rest) :
    Counted
      { pool :=
          { p with
            connnectQueue := rest
            curfreeSize := p.curfreeSize - 1
            curSize := p.curSize - 1 }
        out := out } := by
  have hfree : p.curfreeSize = p.connnectQueue.length := hs.free_eq
  have hsize : p.curSize = p.connnectQueue.length + out.length := hs.size_eq
  rw [hqueue, List.length_cons] at hfree hsize
  constructor
  · show p.curfreeSize - 1 = rest.length
    omega
  · show p.curSize - 1 = rest.length + out.length
    omega

theorem Counted.freetimeover (hs : Counted s) (more : ConnectPool → Bool) (now : Nat → Int) :
    Counted { s with pool := ConnectPool.reap more now s.pool.connnectQueue s.pool } :=
  ConnectPool.reap_rec (Q := fun p => Counted { s with pool := p })
    (fun _ _ _ hqueue _ hp => hp.reapTurn hqueue) now rfl hs

/-! ## The pool of the chat server -/

theorem Counted.giveBack_chatServer (hs : Counted s) {k : Nat} {d : MysqlDB}
    (hout : s.out[k]? = some d) (now : Int) :
    Counted
      { pool := ConnectPool.chatServer.deleter s.pool d now, out := s.out.eraseIdx k } := by
  have hfree := hs.free_eq
  have hsize := hs.size_eq
  obtain ⟨hk, -⟩ := List.getElem?_eq_some_iff.mp hout
  unfold ConnectPool.chatServer
  constructor
  · simp
    omega
  · simp [List.length_eraseIdx_of_lt hk]
    omega

/-- The books of a pool with its configured initial size, and an upper bound of its size. -/
structure Accounts (initSize bound : Int) (s : PoolState) : Prop extends Counted s where
  init_le : initSize ≤ s.pool.curSize
  le_bound : s.pool.curSize ≤ bound
  /-- `getconn` does not take the front of an empty queue. -/
  pops : s.pool.getconn ≠ none

/-- How many connections there are, and that nobody changes the configuration. -/
private structure Sized (initSize maxSize : Int) (p : ConnectPool) : Prop where
  initSize_eq : p.initSize = initSize
  maxSize_eq : p.maxSize = maxSize
  init_le : initSize ≤ p.curSize
  le_max : p.curSize ≤ max 0 (max initSize maxSize)

variable {initSize maxSize : Int}

private theorem sized_new (initSize maxSize : Int) :
    Sized initSize maxSize (ConnectPool.new initSize maxSize) := by
  rw [ConnectPool.new_eq]
  refine ⟨rfl, rfl, ?_, ?_⟩
  · show initSize ≤ initSize.toNat
    omega
  · show (initSize.toNat : Int) ≤ max 0 (max initSize maxSize)
    omega

private theorem Sized.produceConnect {p p' : ConnectPool} (hp : Sized initSize maxSize p)
    {connected : Bool} (hproduce : p.produceConnect connected = some p') :
    Sized initSize maxSize p' := by
  obtain ⟨hlt, hcases⟩ := ConnectPool.produceConnect_cases hproduce
  cases hcases with
  | inl hadd =>
    have hmax := hp.maxSize_eq
    have hinit := hp.init_le
    rw [hadd]
    refine ⟨hp.initSize_eq, hp.maxSize_eq, ?_, ?_⟩
    · show initSize ≤ p.curSize + 1
      omega
    · show p.curSize + 1 ≤ _
      omega
  | inr hsame =>
    rw [hsame]
    exact hp

/-- The reaper stops at the initial size. -/
private theorem Sized.freetimeover {p : ConnectPool} (hp : Sized initSize maxSize p)
    (now : Nat → Int) : Sized initSize maxSize (ConnectPool.chatServer.freetimeover p now) := by
  refine ConnectPool.reap_rec (fun p d rest _ hmore hp => ?_) now rfl hp
  have hlt : p.initSize < p.curSize := of_decide_eq_true hmore
  have hinit := hp.initSize_eq
  have hmax := hp.le_max
  refine ⟨hp.initSize_eq, hp.maxSize_eq, ?_, ?_⟩
  · show initSize ≤ p.curSize - 1
    omega
  · show p.curSize - 1 ≤ _
    omega

private structure ChatServerInv (initSize maxSize : Int) (s : PoolState) : Prop where
  counted : Counted s
  sized : Sized initSize maxSize s.pool

private theorem ChatServerInv.step (hs : ChatServerInv initSize maxSize s)
    (hstep : s.step ConnectPool.chatServer e = some s') : ChatServerInv initSize maxSize s' := by
  cases e with
  | getconn =>
    obtain ⟨⟨d?, p⟩, hget, rfl⟩ := Option.map_eq_some_iff.mp hstep
    refine ⟨hs.counted.getconn hget, ?_⟩
    cases ConnectPool.getconn_cases hget with
    | inl htaken =>
      obtain ⟨d, rest, -, -, -, rfl⟩ := htaken
      exact ⟨hs.sized.initSize_eq, hs.sized.maxSize_eq, hs.sized.init_le, hs.sized.le_max⟩
    | inr htimeout =>
      obtain ⟨-, -, rfl⟩ := htimeout
      exact hs.sized
  | giveBack k now =>
    obtain ⟨d, hout, rfl⟩ := Option.map_eq_some_iff.mp hstep
    refine ⟨hs.counted.giveBack_chatServer hout now, ?_⟩
    exact ⟨hs.sized.initSize_eq, hs.sized.maxSize_eq, hs.sized.init_le, hs.sized.le_max⟩
  | produceConnect connected =>
    obtain ⟨p, hproduce, rfl⟩ := Option.map_eq_some_iff.mp hstep
    exact ⟨hs.counted.produceConnect hproduce, hs.sized.produceConnect hproduce⟩
  | freetimeover now =>
    obtain rfl := Option.some.inj hstep
    exact ⟨hs.counted.freetimeover _ now, hs.sized.freetimeover now⟩

variable {h : List (PoolState × PoolEvent)}

/-- The books of the chat server's pool are right in every reachable state. -/
theorem accounts_of_run (hrun : Run (poolSystem ConnectPool.chatServer initSize maxSize) h s) :
    Accounts initSize (max 0 (max initSize maxSize)) s := by
  have hs : ChatServerInv initSize maxSize s := by
    refine hrun.rec_on_run (P := fun _ s => ChatServerInv initSize maxSize s) (fun s hinit => ?_)
      fun _ _ _ _ _ hs hstep => hs.step hstep
    rw [hinit]
    exact ⟨counted_new initSize maxSize, sized_new initSize maxSize⟩
  exact ⟨hs.counted, hs.sized.init_le, hs.sized.le_max, hs.counted.getconn_ne_none⟩

/-- Both sizes may be negative, and then a pool without connections is above the larger one. -/
theorem not_accounts_negative :
    ¬ ∀ (initSize maxSize : Int) (h : List (PoolState × PoolEvent)) (s : PoolState),
      Run (poolSystem ConnectPool.chatServer initSize maxSize) h s →
        Accounts initSize (max initSize maxSize) s := by
  intro hall
  have hbound := (hall (-2) (-1) [] _ (.start rfl)).le_bound
  exact absurd hbound (by decide)

/-- One connection is checked out, a second one is opened and checked out as well, the first
    one comes back and is closed when nobody has wanted it for a while. -/
def growAndShrink : List PoolEvent :=
  [.getconn, .produceConnect false, .produceConnect true, .getconn, .giveBack 0 5,
    .freetimeover fun _ => 20000000000]

theorem growAndShrink_runs : (poolSchedule ConnectPool.chatServer 1 2 growAndShrink).isSome := by
  decide

theorem accounts_growAndShrink :
    Accounts 1 (max 0 (max 1 2))
      ((poolSchedule ConnectPool.chatServer 1 2 growAndShrink).get growAndShrink_runs).2 :=
  accounts_of_run (poolSchedule_run growAndShrink_runs)

/-! ## The stand-alone pool -/

/-- The books are right, and whoever waits gets the connection at the front of the queue. -/
structure Served (s : PoolState) : Prop extends Counted s where
  free_nonneg : 0 ≤ s.pool.curfreeSize
  front : ∀ d rest, s.pool.connnectQueue = d :: rest → ∃ p,
    s.step ConnectPool.standAlone .getconn = some { pool := p, out := s.out ++ [d] } ∧
      p.connnectQueue = rest

theorem Counted.served (hs : Counted s) : Served s := by
  have hfree := hs.free_eq
  refine { hs with free_nonneg := by omega, front := fun d rest hqueue => ?_ }
  rw [hqueue, List.length_cons] at hfree
  refine ⟨{ s.pool with connnectQueue := rest, curfreeSize := s.pool.curfreeSize - 1 }, ?_, rfl⟩
  show s.pool.getconn.map _ = _
  unfold ConnectPool.getconn
  rw [if_pos (by omega), hqueue]
  rfl

/-- No connection comes back. -/
def PoolEvent.KeepsOut : PoolEvent → Prop
  | .giveBack _ _ => False
  | _ => True

instance (e : PoolEvent) : Decidable e.KeepsOut := by
  cases e <;> unfold PoolEvent.KeepsOut <;> infer_instance

theorem Counted.step_standAlone (hs : Counted s)
    (hstep : s.step ConnectPool.standAlone e = some s') (hkeeps : e.KeepsOut) : Counted s' := by
  cases e with
  | getconn =>
    obtain ⟨⟨d?, p⟩, hget, rfl⟩ := Option.map_eq_some_iff.mp hstep
    exact hs.getconn hget
  | giveBack k now => exact hkeeps.elim
  | produceConnect connected =>
    obtain ⟨p, hproduce, rfl⟩ := Option.map_eq_some_iff.mp hstep
    exact hs.produceConnect hproduce
  | freetimeover now =>
    obtain rfl := Option.some.inj hstep
    exact hs.freetimeover _ now

/-- A connection that comes back makes the queue longer than the counter says. -/
theorem Counted.not_counted_giveBack (hs : Counted s) {k : Nat} {now : Int}
    (hstep : s.step ConnectPool.standAlone (.giveBack k now) = some s') : ¬ Counted s' := by
  intro hs'
  have hfree := hs.free_eq
  have hfree' := hs'.free_eq
  obtain ⟨d, -, rfl⟩ := Option.map_eq_some_iff.mp hstep
  simp [ConnectPool.standAlone] at hfree'
  omega

/-- The books of the stand-alone pool are right throughout a run exactly if no connection
    comes back in it. -/
theorem staysServed_iff (hrun : Run (poolSystem ConnectPool.standAlone initSize maxSize) h s) :
    Throughout (fun _ s => Served s) h s ↔ StepsMeet (fun _ _ e => e.KeepsOut) h := by
  -- the books are right up to the first return, and wrong after it
  refine hrun.throughout_iff (I := fun _ s => Counted s) (fun s hinit => ?_)
    (fun _ _ hs => hs.served) (fun _ _ _ _ _ hs hstep hkeeps => hs.step_standAlone hstep hkeeps)
    fun _ s e s' _ hs hstep hs' => ?_
  · rw [hinit]
    exact counted_new initSize maxSize
  · cases e with
    | giveBack k now => exact hs.not_counted_giveBack hstep hs'.toCounted
    | _ => trivial

/-- The only connection is checked out and comes back. -/
def takeAndReturn : List PoolEvent := [.getconn, .giveBack 0 0]

theorem takeAndReturn_runs : (poolSchedule ConnectPool.standAlone 1 1 takeAndReturn).isSome := by
  decide

/-- The next waiter times out although the connection is in the queue. -/
theorem not_served :
    ¬ ∀ (initSize maxSize : Int) (h : List (PoolState × PoolEvent)) (s : PoolState),
      Run (poolSystem ConnectPool.standAlone initSize maxSize) h s → Served s := by
  intro hall
  have hfree := (hall 1 1 _ _ (poolSchedule_run takeAndReturn_runs)).free_eq
  exact absurd hfree (by decide)

/-- Two connections are checked out, the second one newly opened. -/
def takeTwice : List PoolEvent := [.getconn, .produceConnect true, .getconn]

theorem takeTwice_runs : (poolSchedule ConnectPool.standAlone 1 2 takeTwice).isSome := by decide

theorem served_takeTwice :
    Throughout (fun _ s => Served s)
      ((poolSchedule ConnectPool.standAlone 1 2 takeTwice).get takeTwice_runs).1
      ((poolSchedule ConnectPool.standAlone 1 2 takeTwice).get takeTwice_runs).2 :=
  (staysServed_iff (poolSchedule_run takeTwice_runs)).mpr ⟨trivial, trivial, trivial, trivial⟩

end Mysql
