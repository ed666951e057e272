import LearnGit.ForStd.WorkQueue
import LearnGit.Native.ThreadPool

/-!
# The counters and the tasks of the thread pool

The pool keeps four counters next to a queue and a map of threads. Every section under the
lock keeps the relations between them. What happens to the tasks is a work queue: each step of
the pool is a step of it or does not touch a task.

## Key results

- `step_poolEffect`: what each step does
- `PoolInv.step`: the counters and the thread map after each step
- `toWork_refines`: the pool is a work queue
- `counters_and_tasks_of_run`: both for every reachable state
-/

namespace Chat

open Transition WorkQueue ThreadPool

variable {τ : Type}

/-! ## The start -/

namespace ThreadPool

/-- A pool that was configured and not started. -/
structure Fresh (p : ThreadPool τ) : Prop where
  isStart_eq : p.isStart = false
  threads_eq : p.threads = []
  upThreadId_eq : p.upThreadId = 0
  freeThreadSize_eq : p.freeThreadSize = 0
  taskQue_eq : p.taskQue = []
  taskSize_eq : p.taskSize = 0
  taskMaxSize_nonneg : 0 ≤ p.taskMaxSize

theorem Fresh.set {p : ThreadPool τ} (hp : Fresh p) (setting : Setting) : Fresh (p.set setting) := by
  have hstart : ¬ p.isStart = true := by
    rw [hp.isStart_eq]
    decide
  cases setting with
  | mode mode =>
    show Fresh (p.setMode mode)
    rw [setMode, if_neg hstart]
    exact { hp with }
  | intThreadSize size =>
    show Fresh (p.setintThreadSize size)
    rw [setintThreadSize, if_neg hstart]
    exact { hp with }
  | taskMaxSize size =>
    show Fresh (p.settaskMaxSize size)
    rw [settaskMaxSize, if_neg hstart]
    exact { hp with taskMaxSize_nonneg := Int.natCast_nonneg size }
  | maxThreadSize size =>
    show Fresh (p.setmaxThreadSize size)
    rw [setmaxThreadSize, if_neg hstart]
    split
    · exact { hp with }
    · exact hp

theorem fresh_configured (settings : List Setting) :
    Fresh (configured settings : ThreadPool τ) := by
  have hfold (p : ThreadPool τ) (hp : Fresh p) : Fresh (settings.foldl ThreadPool.set p) := by
    induction settings generalizing p with
    | nil => exact hp
    | cons setting settings ih => exact ih _ (hp.set setting)
  exact hfold {} ⟨rfl, rfl, rfl, rfl, rfl, rfl, by simp⟩

/-- The first threads of a process are numbered from zero on. -/
theorem foldl_emplaceThread {p : ThreadPool τ} (hthreads : p.threads = [])
    (hid : p.upThreadId = 0) (n : Nat) :
    (List.range n).foldl (fun p _ => p.emplaceThread) p =
      { p with threads := (List.range n).reverse, upThreadId := n } := by
  induction n with
  | zero =>
    show p = { p with threads := [], upThreadId := 0 }
    rw [← hthreads, ← hid]
  | succ n ih =>
    rw [List.range_succ, List.foldl_append, ih, List.foldl_cons, List.foldl_nil, emplaceThread]
    simp

theorem startThreads_eq {p : ThreadPool τ} {ids : List Nat} (hids : ∀ i ∈ ids, i ∈ p.threads) :
    p.startThreads ids = some { p with freeThreadSize := p.freeThreadSize + ids.length } := by
  unfold startThreads
  induction ids generalizing p with
  | nil => simp
  | cons i ids ih =>
    have hrest := ih (p := { p with freeThreadSize := p.freeThreadSize + 1 })
      fun j hj => hids j (List.mem_cons_of_mem i hj)
    rw [List.foldlM_cons, if_pos (hids i List.mem_cons_self)]
    refine hrest.trans ?_
    simp [Int.add_assoc, Int.add_comm 1]

/-- `start` of the first pool in a process succeeds. -/
theorem start_eq {p : ThreadPool τ} (hp : Fresh p) (n : Nat) :
    p.start n = some
      ({ p with
          isStart := true
          intThreadSize := n
          nowThreadSize := n
          threads := (List.range n).reverse
          upThreadId := n
          freeThreadSize := n },
        (List.range n).map fun i => { threadID := i }) := by
  unfold start
  simp only [Int.toNat_natCast]
  rw [foldl_emplaceThread (p := { p with isStart := true, intThreadSize := n, nowThreadSize := n })
    hp.threads_eq hp.upThreadId_eq, startThreads_eq (by simp)]
  simp [hp.freeThreadSize_eq]

end ThreadPool

/-! ## What a step does -/

/-- The steps of the pool, each with the conditions under which it is taken. -/
inductive PoolEffect (s : ThreadPoolState τ) : ThreadPoolState τ → Prop
  | submitted {t : τ} (hroom : s.pool.taskSize < s.pool.taskMaxSize) (hfresh : t ∉ s.accepted) :
      PoolEffect s { s with
        pool := (s.pool.submitTask t).1
        workers := s.workers ++ (s.pool.submitTask t).2.toList
        accepted := s.accepted ++ [t] }
  | rejected : PoolEffect s s
  | waits {w : Worker τ} {k : Nat} (hw : s.workers[k]? = some w) (hidle : w.task? = none) :
      PoolEffect s { s with workers := s.workers.set k { w with phase := .waiting } }
  | took {w : Worker τ} {k : Nat} {t : τ} {p : ThreadPool τ} (hw : s.workers[k]? = some w)
      (hidle : w.task? = none) (htake : s.pool.takeTask = some (t, p)) :
      PoolEffect s { s with
        pool := p, workers := s.workers.set k { w with phase := .running t },
        taken := s.taken ++ [t] }
  | finished {w : Worker τ} {k : Nat} {t : τ} (hw : s.workers[k]? = some w)
      (htask : w.task? = some t) :
      PoolEffect s { s with
        pool := { s.pool with freeThreadSize := s.pool.freeThreadSize + 1 }
        workers := s.workers.set k { w with phase := .ready }
        done := s.done ++ [t] }
  | retired {w : Worker τ} {k : Nat} (hw : s.workers[k]? = some w) (hidle : w.task? = none)
      (hmore : s.pool.nowThreadSize > s.pool.intThreadSize) :
      PoolEffect s { s with
        pool := s.pool.retire w.threadID, workers := s.workers.eraseIdx k }

variable {s s' : ThreadPoolState τ}

theorem step_poolEffect [DecidableEq τ] {e : ThreadPoolEvent τ} (hstep : s.step e = some s') :
    PoolEffect s s' := by
  cases e with
  | submitTask t =>
    simp only [ThreadPoolState.step] at hstep
    split at hstep
    · next hroom =>
      obtain rfl := Option.some.inj hstep
      exact .submitted hroom.1 hroom.2
    · exact nomatch hstep
  | rejectTask =>
    simp only [ThreadPoolState.step] at hstep
    split at hstep
    · exact nomatch hstep
    · obtain rfl := Option.some.inj hstep
      exact .rejected
  | waitTask k =>
    obtain ⟨w, hw, hstep⟩ := Option.bind_eq_some_iff.mp hstep
    split at hstep
    · next hidle =>
      obtain rfl := Option.some.inj hstep
      exact .waits hw hidle.1
    · exact nomatch hstep
  | takeTask k =>
    obtain ⟨w, hw, hstep⟩ := Option.bind_eq_some_iff.mp hstep
    split at hstep
    · next hidle =>
      obtain ⟨⟨t, p⟩, htake, rfl⟩ := Option.map_eq_some_iff.mp hstep
      exact .took hw hidle.1 htake
    · exact nomatch hstep
  | finishTask k =>
    obtain ⟨w, hw, hstep⟩ := Option.bind_eq_some_iff.mp hstep
    obtain ⟨t, htask, rfl⟩ := Option.map_eq_some_iff.mp hstep
    exact .finished hw htask
  | retire k =>
    obtain ⟨w, hw, hstep⟩ := Option.bind_eq_some_iff.mp hstep
    split at hstep
    · next hretire =>
      obtain rfl := Option.some.inj hstep
      -- a worker that waits has no task
      have hidle : w.task? = none := by
        unfold Worker.task?
        rw [hretire.1]
      exact .retired hw hidle hretire.2.2
    · exact nomatch hstep

/-! ## The counters -/

/-- What the counters say about the queue, the thread map and the workers. -/
structure Counters (s : ThreadPoolState τ) : Prop where
  taskSize_eq : s.pool.taskSize = s.pool.taskQue.length
  taskSize_le : s.pool.taskSize ≤ s.pool.taskMaxSize
  threads_eq : (s.pool.threads.length : Int) = s.pool.nowThreadSize
  int_le : s.pool.intThreadSize ≤ s.pool.nowThreadSize
  now_le : s.pool.nowThreadSize ≤ max s.pool.intThreadSize s.pool.maxThreadSize
  free_eq : s.pool.freeThreadSize + s.running.length = s.pool.nowThreadSize

/-- With the counters: the thread map has the ids of the threads there are, which are different
    and already used up. -/
structure PoolInv (s : ThreadPoolState τ) : Prop extends Counters s where
  ids : s.pool.threads.Perm (s.workers.map Worker.threadID)
  nodup : s.pool.threads.Nodup
  used : ∀ id ∈ s.pool.threads, id < s.pool.upThreadId

theorem poolInv_start {settings : List Setting} {n : Nat} {p : ThreadPool τ × List (Worker τ)}
    (hstart : (configured settings).start (n : Int) = some p) :
    PoolInv { pool := p.1, workers := p.2 } := by
  have hfresh : Fresh (configured settings : ThreadPool τ) := fresh_configured settings
  rw [start_eq hfresh] at hstart
  obtain rfl := Option.some.inj hstart
  have hidle : ((List.range n).map fun i => ({ threadID := i } : Worker τ)).filterMap
      Worker.task? = [] := by
    simp [Worker.task?]
  refine ⟨⟨?_, ?_, ?_, ?_, ?_, ?_⟩, ?_, ?_, ?_⟩
  · simp [hfresh.taskSize_eq, hfresh.taskQue_eq]
  · simp [hfresh.taskSize_eq, hfresh.taskMaxSize_nonneg]
  · simp
  · exact le_refl _
  · exact le_max_left _ _
  · show (n : Int) + (List.length (List.filterMap _ _) : Int) = n
    rw [hidle]
    simp
  · show (List.range n).reverse.Perm _
    rw [List.map_map]
    exact (List.reverse_perm _).trans (List.Perm.of_eq (List.map_id _).symm)
  · exact List.nodup_reverse.mpr List.nodup_range
  · intro id hid
    simpa using hid

/-! ### Workers -/

/-- The `k`-th worker among the others, before and after it changes. -/
theorem perm_of_getElem? {α : Type} {w : α} {k : Nat} {workers : List α}
    (hw : workers[k]? = some w) (w' : α) :
    workers.Perm (w :: workers.eraseIdx k) ∧
      (workers.set k w').Perm (w' :: workers.eraseIdx k) := by
  obtain ⟨hk, rfl⟩ := List.getElem?_eq_some_iff.mp hw
  exact ⟨(List.getElem_cons_eraseIdx_perm hk).symm, List.set_perm_cons_eraseIdx hk w'⟩

/-- The ids of the workers do not change with what one of them does. -/
theorem ids_set {w : Worker τ} {k : Nat} {workers : List (Worker τ)} (hw : workers[k]? = some w)
    (phase : Phase τ) :
    (workers.map Worker.threadID).Perm
      ((workers.set k { w with phase := phase }).map Worker.threadID) := by
  obtain ⟨hbefore, hafter⟩ := perm_of_getElem? hw { w with phase := phase }
  exact (hbefore.map Worker.threadID).trans (hafter.map Worker.threadID).symm

/-- The tasks that are run, with those of the `k`-th worker in front. -/
theorem running_perm {w : Worker τ} {k : Nat} {workers : List (Worker τ)}
    (hw : workers[k]? = some w) (w' : Worker τ) :
    (workers.filterMap Worker.task?).Perm
        (w.task?.toList ++ (workers.eraseIdx k).filterMap Worker.task?) ∧
      ((workers.set k w').filterMap Worker.task?).Perm
        (w'.task?.toList ++ (workers.eraseIdx k).filterMap Worker.task?) := by
  obtain ⟨hbefore, hafter⟩ := perm_of_getElem? hw w'
  have hcons (v : Worker τ) (l : List (Worker τ)) :
      (v :: l).filterMap Worker.task? = v.task?.toList ++ l.filterMap Worker.task? := by
    rw [List.filterMap_cons]
    cases v.task? <;> rfl
  exact ⟨(hbefore.filterMap _).trans (List.Perm.of_eq (hcons _ _)),
    (hafter.filterMap _).trans (List.Perm.of_eq (hcons _ _))⟩

/-- A worker goes to another phase. The queue and its counter may change with it, and the
    worker is counted as free exactly if it has no task. -/
theorem PoolInv.setPhase (hs : PoolInv s) {w : Worker τ} {k : Nat} (hw : s.workers[k]? = some w)
    {phase : Phase τ} {queue : List τ} {size free : Int} (hsize : size = queue.length)
    (hle : size ≤ s.pool.taskMaxSize)
    (hfree : free + ({ w with phase := phase } : Worker τ).task?.toList.length =
      s.pool.freeThreadSize + w.task?.toList.length) (accepted taken done : List τ) :
    PoolInv
      { pool :=
          { s.pool with freeThreadSize := free, taskQue := queue, taskSize := size }
        workers := s.workers.set k { w with phase := phase }
        accepted := accepted
        taken := taken
        done := done } := by
  obtain ⟨hbefore, hafter⟩ := running_perm hw { w with phase := phase }
  have hlen := hbefore.length_eq
  have hlen' := hafter.length_eq
  rw [List.length_append] at hlen hlen'
  have hcount := hs.free_eq
  unfold ThreadPoolState.running at hcount
  refine ⟨⟨hsize, hle, hs.threads_eq, hs.int_le, hs.now_le, ?_⟩, hs.ids.trans (ids_set hw phase),
    hs.nodup, hs.used⟩
  show free + ((s.workers.set k { w with phase := phase }).filterMap Worker.task?).length =
    s.pool.nowThreadSize
  omega

/-! ### The steps -/

theorem PoolInv.takeTask (hs : PoolInv s) {w : Worker τ} {k : Nat}
    (hw : s.workers[k]? = some w) (hidle : w.task? = none) {t : τ} {p : ThreadPool τ}
    (htake : s.pool.takeTask = some (t, p)) :
    PoolInv { s with
      pool := p, workers := s.workers.set k { w with phase := .running t },
      taken := s.taken ++ [t] } := by
  have hsize := hs.taskSize_eq
  have hle := hs.taskSize_le
  unfold ThreadPool.takeTask at htake
  cases hqueue : s.pool.taskQue with
  | nil =>
    rw [hqueue] at htake
    exact nomatch htake
  | cons t' rest =>
    rw [hqueue] at htake
    obtain ⟨rfl, rfl⟩ := Prod.mk.inj (Option.some.inj htake)
    rw [hqueue, List.length_cons] at hsize
    apply hs.setPhase hw
    · omega
    · omega
    · rw [hidle]
      simp [Worker.task?]

theorem PoolInv.finishTask (hs : PoolInv s) {w : Worker τ} {k : Nat}
    (hw : s.workers[k]? = some w) {t : τ} (htask : w.task? = some t) :
    PoolInv { s with
      pool := { s.pool with freeThreadSize := s.pool.freeThreadSize + 1 },
      workers := s.workers.set k { w with phase := .ready }, done := s.done ++ [t] } := by
  apply hs.setPhase hw hs.taskSize_eq hs.taskSize_le
  rw [htask]
  simp [Worker.task?]

/-- A new thread has a number that no thread has. -/
theorem PoolInv.upThreadId_notMem (hs : PoolInv s) : s.pool.upThreadId ∉ s.pool.threads :=
  fun hmem => absurd (hs.used _ hmem) (Nat.lt_irrefl _)

/-- A task is added, and in cache mode perhaps a worker. -/
theorem PoolInv.submitTask (hs : PoolInv s) (hroom : s.pool.taskSize < s.pool.taskMaxSize)
    (t : τ) :
    PoolInv { s with
      pool := (s.pool.submitTask t).1, workers := s.workers ++ (s.pool.submitTask t).2.toList,
      accepted := s.accepted ++ [t] } := by
  have hsize := hs.taskSize_eq
  have hthreads := hs.threads_eq
  have hint := hs.int_le
  have hnow := hs.now_le
  have hfree := hs.free_eq
  have hqueue : s.pool.taskSize + 1 = ((s.pool.taskQue ++ [t]).length : Int) := by
    rw [List.length_append, List.length_singleton]
    omega
  unfold ThreadPoolState.running at hfree
  unfold ThreadPool.submitTask
  dsimp only
  split
  · -- a thread more, in the map under a new number, and free at first
    next hgrow =>
    have hlt : s.pool.nowThreadSize < s.pool.maxThreadSize := hgrow.2.2
    have hnew : (emplaceThread s.pool).threads = s.pool.upThreadId :: s.pool.threads :=
      if_neg hs.upThreadId_notMem
    refine ⟨⟨hqueue, ?_, ?_, ?_, ?_, ?_⟩, ?_, ?_, ?_⟩
    · show s.pool.taskSize + 1 ≤ s.pool.taskMaxSize
      omega
    · show ((emplaceThread s.pool).threads.length : Int) = s.pool.nowThreadSize + 1
      rw [hnew, List.length_cons]
      omega
    · show s.pool.intThreadSize ≤ s.pool.nowThreadSize + 1
      omega
    · show s.pool.nowThreadSize + 1 ≤ max s.pool.intThreadSize s.pool.maxThreadSize
      omega
    · show s.pool.freeThreadSize + 1 +
        ((s.workers ++ [(⟨s.pool.upThreadId, .ready⟩ : Worker τ)]).filterMap Worker.task?).length =
          s.pool.nowThreadSize + 1
      have hready : [(⟨s.pool.upThreadId, .ready⟩ : Worker τ)].filterMap Worker.task? = [] := rfl
      rw [List.filterMap_append, hready, List.append_nil]
      omega
    · show (emplaceThread s.pool).threads.Perm
        ((s.workers ++ [(⟨s.pool.upThreadId, .ready⟩ : Worker τ)]).map Worker.threadID)
      rw [hnew, List.map_append]
      exact (hs.ids.cons _).trans (List.perm_append_singleton _ _).symm
    · show (emplaceThread s.pool).threads.Nodup
      rw [hnew]
      exact List.nodup_cons.mpr ⟨hs.upThreadId_notMem, hs.nodup⟩
    · show ∀ id ∈ (emplaceThread s.pool).threads, id < s.pool.upThreadId + 1
      rw [hnew]
      intro id hid
      cases List.mem_cons.mp hid with
      | inl heq => omega
      | inr hmem => exact Nat.lt_succ_of_lt (hs.used id hmem)
  · simp only [Option.toList_none, List.append_nil]
    exact ⟨⟨hqueue, by simpa using hroom, hthreads, hint, hnow, hs.free_eq⟩, hs.ids, hs.nodup,
      hs.used⟩

/-- A waiting worker ends. -/
theorem PoolInv.retire (hs : PoolInv s) {w : Worker τ} {k : Nat} (hw : s.workers[k]? = some w)
    (hidle : w.task? = none) (hmore : s.pool.nowThreadSize > s.pool.intThreadSize) :
    PoolInv { s with pool := s.pool.retire w.threadID, workers := s.workers.eraseIdx k } := by
  have hthreads := hs.threads_eq
  have hnow := hs.now_le
  have hfree := hs.free_eq
  have hids : s.pool.threads.Perm (w.threadID :: (s.workers.eraseIdx k).map Worker.threadID) :=
    hs.ids.trans ((perm_of_getElem? hw w).1.map Worker.threadID)
  have hmem : w.threadID ∈ s.pool.threads := hids.mem_iff.mpr List.mem_cons_self
  have hpos : 0 < s.pool.threads.length := List.length_pos_of_mem hmem
  -- the worker has no task, so as many as before are at work
  have hlen := (running_perm hw w).1.length_eq
  rw [hidle, Option.toList_none, List.nil_append] at hlen
  unfold ThreadPoolState.running at hfree
  refine ⟨⟨hs.taskSize_eq, hs.taskSize_le, ?_, ?_, ?_, ?_⟩, ?_, hs.nodup.erase _, ?_⟩
  · show ((s.pool.threads.erase w.threadID).length : Int) = s.pool.nowThreadSize - 1
    rw [List.length_erase_of_mem hmem]
    omega
  · show s.pool.intThreadSize ≤ s.pool.nowThreadSize - 1
    omega
  · show s.pool.nowThreadSize - 1 ≤ max s.pool.intThreadSize s.pool.maxThreadSize
    omega
  · show s.pool.freeThreadSize - 1 + ((s.workers.eraseIdx k).filterMap Worker.task?).length =
      s.pool.nowThreadSize - 1
    omega
  · show (s.pool.threads.erase w.threadID).Perm _
    have herase := hids.erase w.threadID
    rwa [List.erase_cons_head] at herase
  · exact fun id hid => hs.used id (List.mem_of_mem_erase hid)

theorem PoolInv.step (hs : PoolInv s) (heffect : PoolEffect s s') : PoolInv s' := by
  cases heffect with
  | submitted hroom hfresh => exact hs.submitTask hroom _
  | rejected => exact hs
  | waits hw hidle =>
    apply hs.setPhase hw hs.taskSize_eq hs.taskSize_le
    rw [hidle]
    simp [Worker.task?]
  | took hw hidle htake => exact hs.takeTask hw hidle htake
  | finished hw htask => exact hs.finishTask hw htask
  | retired hw hidle hmore => exact hs.retire hw hidle hmore

/-! ## The tasks -/

/-- The pool as a work queue. -/
def toWork (s : ThreadPoolState τ) : Work τ where
  accepted := s.accepted
  taken := s.taken
  queued := s.pool.taskQue
  running := s.running
  done := s.done

/-- A worker without a task makes no difference to the work queue. -/
theorem toWork_idle {w : Worker τ} {k : Nat} (hw : s.workers[k]? = some w)
    (hidle : w.task? = none) :
    toWork { s with workers := s.workers.set k { w with phase := .waiting } } = toWork s ∧
      toWork { s with
        pool := s.pool.retire w.threadID, workers := s.workers.eraseIdx k } = toWork s := by
  obtain ⟨hbefore, hafter⟩ := running_perm hw { w with phase := .waiting }
  rw [hidle] at hbefore
  have hset := Multiset.coe_eq_coe.mpr (hafter.trans hbefore.symm)
  have herase := Multiset.coe_eq_coe.mpr hbefore.symm
  unfold toWork ThreadPoolState.running
  constructor
  · rw [hset]
  · exact congrArg (fun running => ({ toWork s with running := running } : Work τ)) herase

section Tasks

variable [DecidableEq τ]

theorem toWork_submitTask {t : τ} (hfresh : t ∉ s.accepted) :
    (toWork s).step (.accept t) = some (toWork { s with
      pool := (s.pool.submitTask t).1, workers := s.workers ++ (s.pool.submitTask t).2.toList,
      accepted := s.accepted ++ [t] }) := by
  have hqueue : (s.pool.submitTask t).1.taskQue = s.pool.taskQue ++ [t] := by
    unfold ThreadPool.submitTask
    dsimp only
    split <;> rfl
  have hnew : (s.pool.submitTask t).2.toList.filterMap Worker.task? = [] := by
    unfold ThreadPool.submitTask
    dsimp only
    split <;> rfl
  show (if t ∉ s.accepted then _ else none) = _
  rw [if_pos hfresh]
  unfold toWork ThreadPoolState.running
  rw [hqueue, List.filterMap_append, hnew, List.append_nil]

theorem toWork_takeTask {w : Worker τ} {k : Nat} (hw : s.workers[k]? = some w)
    (hidle : w.task? = none) {t : τ} {p : ThreadPool τ} (htake : s.pool.takeTask = some (t, p)) :
    (toWork s).step .take = some (toWork { s with
      pool := p, workers := s.workers.set k { w with phase := .running t },
      taken := s.taken ++ [t] }) := by
  obtain ⟨hbefore, hafter⟩ := running_perm hw { w with phase := .running t }
  -- the worker has had no task, so the one it takes is added to those that are run
  rw [hidle, Option.toList_none, List.nil_append] at hbefore
  have hrunning : ((s.workers.set k { w with phase := .running t }).filterMap Worker.task?).Perm
      (t :: s.running) := hafter.trans (hbefore.symm.cons t)
  unfold ThreadPool.takeTask at htake
  cases hqueue : s.pool.taskQue with
  | nil =>
    rw [hqueue] at htake
    exact nomatch htake
  | cons t' rest =>
    rw [hqueue] at htake
    obtain ⟨rfl, rfl⟩ := Prod.mk.inj (Option.some.inj htake)
    have hcoe := Multiset.coe_eq_coe.mpr hrunning
    simp only [Work.step, toWork, ThreadPoolState.running, hqueue] at hcoe ⊢
    rw [hcoe]
    rfl

theorem toWork_finishTask {w : Worker τ} {k : Nat} (hw : s.workers[k]? = some w) {t : τ}
    (htask : w.task? = some t) :
    (toWork s).step (.finish t) = some (toWork { s with
      pool := { s.pool with freeThreadSize := s.pool.freeThreadSize + 1 },
      workers := s.workers.set k { w with phase := .ready }, done := s.done ++ [t] }) := by
  obtain ⟨hbefore, hafter⟩ := running_perm hw { w with phase := .ready }
  rw [htask] at hbefore
  have hrunning : (s.running : Multiset τ) =
      t ::ₘ ((s.workers.set k { w with phase := .ready }).filterMap Worker.task? : List τ) :=
    Multiset.coe_eq_coe.mpr (hbefore.trans (hafter.symm.cons t))
  have hdone : ((s.done ++ [t] : List τ) : Multiset τ) = t ::ₘ (s.done : Multiset τ) :=
    Multiset.coe_eq_coe.mpr (List.perm_append_singleton t s.done)
  show (if t ∈ (s.running : Multiset τ) then _ else none) = _
  unfold toWork
  rw [hrunning, if_pos (Multiset.mem_cons_self t _), Multiset.erase_cons_head, hdone]
  rfl

/-- Each step of the pool is a step of a work queue or does not touch a task. -/
theorem toWork_refines (heffect : PoolEffect s s') :
    (∃ m, (toWork s).step m = some (toWork s')) ∨ toWork s' = toWork s := by
  cases heffect with
  | submitted hroom hfresh => exact .inl ⟨_, toWork_submitTask hfresh⟩
  | rejected => exact .inr rfl
  | waits hw hidle => exact .inr (toWork_idle hw hidle).1
  | took hw hidle htake => exact .inl ⟨_, toWork_takeTask hw hidle htake⟩
  | finished hw htask => exact .inl ⟨_, toWork_finishTask hw htask⟩
  | retired hw hidle hmore => exact .inr (toWork_idle hw hidle).2

/-! ## Runs -/

/-- Each accepted task is in one place, and tasks are taken in the order of submission. -/
structure RunsOnce (s : ThreadPoolState τ) : Prop where
  place : ∀ t ∈ s.accepted, s.pool.taskQue.count t + s.running.count t + s.done.count t = 1
  inOrder : s.taken ++ s.pool.taskQue = s.accepted

/-- In every reachable state the counters are right and every task is in its place. -/
theorem counters_and_tasks_of_run {settings : List Setting} {n : Nat}
    {h : List (ThreadPoolState τ × ThreadPoolEvent τ)}
    (hrun : Run (threadPoolSystem τ settings n) h s) : Counters s ∧ RunsOnce s := by
  have hinv : PoolInv s := by
    refine hrun.rec_on_run (P := fun _ s => PoolInv s) (fun s hinit => ?_)
      fun _ _ _ _ _ hs hstep => hs.step (step_poolEffect hstep)
    obtain ⟨p, hp, rfl⟩ := hinit
    exact poolInv_start hp
  -- the run is one of a work queue, and what that says of the tasks holds here
  have hwork : ∃ h', Run (workSystem τ) h' (toWork s) := by
    refine hrun.refines (fun s hinit => ?_) fun _ s _ s' _ hstep =>
      toWork_refines (step_poolEffect hstep)
    obtain ⟨p, hp, rfl⟩ := hinit
    rw [start_eq (fresh_configured settings)] at hp
    obtain rfl := Option.some.inj hp
    show toWork _ = {}
    unfold toWork ThreadPoolState.running
    simp [(fresh_configured (τ := τ) settings).taskQue_eq, Worker.task?]
  obtain ⟨h', hwork⟩ := hwork
  have hsound := sound_of_run hwork
  refine ⟨hinv.toCounters, fun t ht => ?_, hsound.inOrder⟩
  have hplaces := hsound.count_places ht
  simpa [toWork] using hplaces

end Tasks

/-! ### A pool that grows and shrinks -/

/-- One thread and room for two tasks and two threads. Two tasks are submitted, the second
    one with a new thread, a third one is refused, and at last the first thread retires. -/
def growAndShrink : List (ThreadPoolEvent Nat) :=
  [.waitTask 0, .submitTask 7, .submitTask 8, .rejectTask, .takeTask 1, .takeTask 0,
    .finishTask 0, .waitTask 0, .retire 0]

def growingSettings : List Setting := [.mode .cache, .maxThreadSize 2, .taskMaxSize 2]

/-- The pool after `start(1)`. -/
def growingPool : ThreadPoolState Nat :=
  let p := (((configured growingSettings).start 1).get (by decide))
  { pool := p.1, workers := p.2 }

theorem growAndShrink_runs :
    ((threadPoolSystem Nat growingSettings 1).exec [] growingPool growAndShrink).isSome := by
  decide

theorem counters_and_tasks_growAndShrink :
    Counters (((threadPoolSystem Nat growingSettings 1).exec [] growingPool growAndShrink).get
        growAndShrink_runs).2 ∧
      RunsOnce (((threadPoolSystem Nat growingSettings 1).exec [] growingPool growAndShrink).get
        growAndShrink_runs).2 :=
  counters_and_tasks_of_run (Run.of_exec (S := threadPoolSystem Nat growingSettings 1)
    ⟨_, Option.get_mem _, rfl⟩ growAndShrink_runs)

end Chat
