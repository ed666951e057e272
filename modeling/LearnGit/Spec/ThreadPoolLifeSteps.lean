import LearnGit.Native.ThreadPoolLife
import LearnGit.Spec.ThreadPoolTasks

/-!
# The steps of a ThreadPool with its condition variables

Seen from afar, the pool with its condition variables is the pool of counters and tasks, until
threads leave for the destructor; the queue is empty by then. What the condition variables add
is who waits: in fixed mode a queued task has a thread that will see it, and a destructor that
waits has a thread that will wake it.

## Key results

- `LifeEffect.base`: each step is one of the pool without condition variables, or the thread
  leaves
- `LifeEffect.sound`: no step loses or repeats a task
- `LifeInv.step`: what every step keeps
-/

namespace Chat

open Transition WorkQueue ThreadPool

variable {τ : Type}

/-! ## The threads -/

/-- A notified thread and one whose wait has ended look like waiting ones from afar. -/
def ThreadPhase.toPhase : ThreadPhase τ → Phase τ
  | .ready => .ready
  | .waiting | .woken => .waiting
  | .running t => .running t

def PoolThread.toWorker (w : PoolThread τ) : Worker τ where
  threadID := w.threadID
  phase := w.phase.toPhase

theorem PoolThread.task?_toWorker (w : PoolThread τ) : w.toWorker.task? = w.phase.task? := by
  obtain ⟨id, phase⟩ := w
  cases phase <;> rfl

theorem ThreadPhase.task?_of_atLock {phase : ThreadPhase τ} (hlock : phase.atLock = true) :
    phase.task? = none := by
  cases phase with
  | running t => cases hlock
  | _ => rfl

theorem ThreadPhase.eq_waiting {phase : ThreadPhase τ} (hwait : phase.isWaiting = true) :
    phase = .waiting := by
  cases phase with
  | waiting => rfl
  | _ => cases hwait

namespace PoolLife

/-- The pool without its condition variables. -/
def toBase (s : PoolLife τ) : ThreadPoolState τ where
  pool := s.pool
  workers := s.threads.map PoolThread.toWorker
  accepted := s.accepted
  taken := s.taken
  done := s.done

/-- The tasks that are being run. -/
def running (s : PoolLife τ) : List τ := s.threads.filterMap fun w => w.phase.task?

variable {threads threads' : List (PoolThread τ)} {w : PoolThread τ} {k : Nat}
  {wake : Option Nat}

/-- One waiting thread is woken, or nobody waits. -/
theorem notifyOne_cases (hnotify : notifyOne threads wake = some threads') :
    (∃ k w, threads[k]? = some w ∧ w.phase = .waiting ∧
      threads' = threads.set k { w with phase := .woken }) ∨
    ((∀ w ∈ threads, w.phase.isWaiting = false) ∧ threads' = threads) := by
  cases wake with
  | some k =>
    obtain ⟨w, hw, hset⟩ := Option.bind_eq_some_iff.mp hnotify
    obtain ⟨hwait, hset⟩ := Option.ite_none_right_eq_some.mp hset
    exact .inl ⟨k, w, hw, ThreadPhase.eq_waiting hwait, (Option.some.inj hset).symm⟩
  | none =>
    obtain ⟨hnone, hsame⟩ := Option.ite_none_left_eq_some.mp hnotify
    refine .inr ⟨fun w hw => ?_, (Option.some.inj hsame).symm⟩
    have hnot : ¬ ∃ w ∈ threads, w.phase.isWaiting = true := fun h =>
      hnone (List.any_eq_true.mpr h)
    exact Bool.eq_false_iff.mpr fun hwait => hnot ⟨w, hw, hwait⟩

/-- Seen from afar, waking a waiting thread changes nothing. -/
theorem toWorker_wake (hw : threads[k]? = some w) (hwait : w.phase = .waiting) :
    (threads.set k { w with phase := .woken }).map PoolThread.toWorker =
      threads.map PoolThread.toWorker := by
  have hsame : PoolThread.toWorker { w with phase := .woken } = w.toWorker := by
    rw [PoolThread.toWorker, PoolThread.toWorker, hwait]
    rfl
  have hget : (threads.map PoolThread.toWorker)[k]? = some w.toWorker := by
    rw [List.getElem?_map, hw, Option.map_some]
  obtain ⟨hk, hget⟩ := List.getElem?_eq_some_iff.mp hget
  rw [List.map_set, hsame, ← hget, List.set_getElem_self]

theorem toWorker_notifyOne (hnotify : notifyOne threads wake = some threads') :
    threads'.map PoolThread.toWorker = threads.map PoolThread.toWorker := by
  cases notifyOne_cases hnotify with
  | inl hone =>
    obtain ⟨k, w, hw, hwait, rfl⟩ := hone
    exact toWorker_wake hw hwait
  | inr hnone => rw [hnone.2]

theorem toWorker_notifyAll (threads : List (PoolThread τ)) :
    (notifyAll threads).map PoolThread.toWorker = threads.map PoolThread.toWorker := by
  rw [notifyAll, List.map_map]
  apply List.map_congr_left
  intro w _
  obtain ⟨id, phase⟩ := w
  cases phase <;> rfl

/-! ## The destructor -/

theorem checkOver_cases (s : PoolLife τ) :
    (s.pool.threads = [] ∧ s.checkOver.owner = .returned) ∨
      (s.pool.threads ≠ [] ∧ s.checkOver.owner = .waiting) := by
  unfold checkOver
  dsimp only
  split
  · next hnil => exact .inl ⟨hnil, rfl⟩
  · next hne => exact .inr ⟨hne, rfl⟩

theorem checkOver_ne_active (s : PoolLife τ) : s.checkOver.owner ≠ .active := by
  cases s.checkOver_cases with
  | inl hreturned => rw [hreturned.2]; exact PoolOwner.noConfusion
  | inr hwaiting => rw [hwaiting.2]; exact PoolOwner.noConfusion

theorem nil_of_returned {s : PoolLife τ} (howner : s.checkOver.owner = .returned) :
    s.pool.threads = [] := by
  cases s.checkOver_cases with
  | inl hreturned => exact hreturned.1
  | inr hwaiting => exact absurd (hwaiting.2.symm.trans howner) PoolOwner.noConfusion

theorem ne_nil_of_waiting {s : PoolLife τ} (howner : s.checkOver.owner = .waiting) :
    s.pool.threads ≠ [] := by
  cases s.checkOver_cases with
  | inl hreturned => exact absurd (hreturned.2.symm.trans howner) PoolOwner.noConfusion
  | inr hwaiting => exact hwaiting.1

/-- The owner is woken or stays where it is. -/
theorem owner_of_notifyOver {s : PoolLife τ} {o : PoolOwner} (hwoken : o ≠ .woken)
    (howner : (notifyOver s).owner = o) : s.owner = o := by
  unfold notifyOver at howner
  dsimp only at howner
  split at howner
  · exact absurd howner.symm hwoken
  · exact howner

theorem notifyOver_ne_waiting (s : PoolLife τ) : (notifyOver s).owner ≠ .waiting := by
  unfold notifyOver
  dsimp only
  split
  · exact PoolOwner.noConfusion
  · next hnot => exact hnot

end PoolLife

/-! ## What a step does -/

open PoolLife

/-- The steps of the pool, each with the conditions under which it is taken. -/
inductive LifeEffect (s : PoolLife τ) : PoolLifeEvent τ → PoolLife τ → Prop
  | submitted {t : τ} {wake : Option Nat} {threads : List (PoolThread τ)}
      (hactive : s.owner = .active) (hroom : s.pool.taskSize < s.pool.taskMaxSize)
      (hfresh : t ∉ s.accepted) (hnotify : notifyOne s.threads wake = some threads) :
      LifeEffect s (.submitTask t wake) { s with
        pool := (s.pool.submitTask t).1
        threads := threads ++
          (s.pool.submitTask t).2.toList.map fun w => { threadID := w.threadID }
        accepted := s.accepted ++ [t] }
  | rejected : LifeEffect s .rejectTask s
  | took {w : PoolThread τ} {k : Nat} {wake : Option Nat} {t : τ} {p : ThreadPool τ}
      {threads : List (PoolThread τ)} (hw : s.threads[k]? = some w)
      (hlock : w.phase.atLock = true) (htake : s.pool.takeTask = some (t, p))
      (hnotify : threads = s.threads.set k { w with phase := .running t } ∨
        notifyOne (s.threads.set k { w with phase := .running t }) wake = some threads) :
      LifeEffect s (.takeTask k wake)
        { s with pool := p, threads := threads, taken := s.taken ++ [t] }
  | finished {w : PoolThread τ} {k : Nat} {t : τ} (hw : s.threads[k]? = some w)
      (htask : w.phase.task? = some t) :
      LifeEffect s (.finishTask k) { s with
        pool := { s.pool with freeThreadSize := s.pool.freeThreadSize + 1 }
        threads := s.threads.set k { w with phase := .ready }
        done := s.done ++ [t] }
  | waits {w : PoolThread τ} {k : Nat} (hw : s.threads[k]? = some w)
      (hlock : w.phase.atLock = true) (hempty : s.pool.taskSize = 0)
      (hstart : s.pool.isStart = true) :
      LifeEffect s (.waitTask k)
        { s with threads := s.threads.set k { w with phase := .waiting } }
  | timedOut {w : PoolThread τ} {k : Nat} (hw : s.threads[k]? = some w)
      (hwait : w.phase = .waiting) (hcache : s.pool.poolMode = .cache) :
      LifeEffect s (.timeout k) { s with threads := s.threads.set k { w with phase := .woken } }
  | awoke {w : PoolThread τ} {k : Nat} (hw : s.threads[k]? = some w)
      (hwait : w.phase = .waiting) :
      LifeEffect s (.wakeThread k)
        { s with threads := s.threads.set k { w with phase := .woken } }
  | retired {w : PoolThread τ} {k : Nat} (hw : s.threads[k]? = some w)
      (hwoken : w.phase = .woken) (hcache : s.pool.poolMode = .cache)
      (hmore : s.pool.nowThreadSize > s.pool.intThreadSize) :
      LifeEffect s (.retire k)
        { s with pool := s.pool.retire w.threadID, threads := s.threads.eraseIdx k }
  | exited {w : PoolThread τ} {k : Nat} (hw : s.threads[k]? = some w)
      (hlock : w.phase.atLock = true) (hempty : s.pool.taskSize = 0)
      (hstop : ¬ s.pool.isStart = true) :
      LifeEffect s (.exit k) (notifyOver { s with
        pool := { s.pool with threads := s.pool.threads.erase w.threadID }
        threads := s.threads.eraseIdx k })
  | stopped (hactive : s.owner = .active) :
      LifeEffect s .stop
        { s with pool := { s.pool with isStart := false }, owner := .stopped }
  | notified (hstopped : s.owner = .stopped) :
      LifeEffect s .notifyThreads { s with threads := notifyAll s.threads }.checkOver
  | checked (hwoken : s.owner = .woken) : LifeEffect s .checkThreads s.checkOver
  | ownerAwoke (hwaiting : s.owner = .waiting) :
      LifeEffect s .wakeOwner { s with owner := .woken }

variable {s s' : PoolLife τ} {e : PoolLifeEvent τ}

theorem PoolLife.getElem?_toBase {w : PoolThread τ} {k : Nat} (hw : s.threads[k]? = some w) :
    s.toBase.workers[k]? = some w.toWorker := by
  show (s.threads.map PoolThread.toWorker)[k]? = _
  rw [List.getElem?_map, hw, Option.map_some]

/-- A new thread is ready. -/
theorem toWorker_submitTask (p : ThreadPool τ) (t : τ) :
    ((p.submitTask t).2.toList.map fun w => ({ threadID := w.threadID } : PoolThread τ)).map
      PoolThread.toWorker = (p.submitTask t).2.toList := by
  unfold ThreadPool.submitTask
  dsimp only
  split <;> rfl

/-- The steps that the pool without condition variables does not have: the destructor begins,
    or a thread leaves in it. -/
def PoolLifeEvent.isEnd : PoolLifeEvent τ → Bool
  | .stop | .exit _ => true
  | _ => false

/-- Every other step is one of the pool without condition variables, or nothing there. -/
theorem LifeEffect.base (heffect : LifeEffect s e s') (hend : e.isEnd = false) :
    PoolEffect s.toBase s'.toBase ∨ s'.toBase = s.toBase := by
  cases heffect with
  | submitted hactive hroom hfresh hnotify =>
    left
    have hstep := PoolEffect.submitted (s := s.toBase) hroom hfresh
    unfold toBase at hstep ⊢
    dsimp only at hstep ⊢
    rw [List.map_append, toWorker_submitTask, toWorker_notifyOne hnotify]
    exact hstep
  | rejected => exact .inr rfl
  | @took w k wake t p threads hw hlock htake hnotify =>
    left
    have hidle : w.toWorker.task? = none :=
      w.task?_toWorker.trans (ThreadPhase.task?_of_atLock hlock)
    have hstep := PoolEffect.took (getElem?_toBase hw) hidle htake
    have hmap : threads.map PoolThread.toWorker =
        (s.threads.map PoolThread.toWorker).set k { w.toWorker with phase := .running t } := by
      have hset : (s.threads.set k { w with phase := .running t }).map PoolThread.toWorker =
          (s.threads.map PoolThread.toWorker).set k { w.toWorker with phase := .running t } :=
        List.map_set
      cases hnotify with
      | inl heq => rw [heq, hset]
      | inr hnotify => rw [toWorker_notifyOne hnotify, hset]
    unfold toBase at hstep ⊢
    dsimp only at hstep ⊢
    rw [hmap]
    exact hstep
  | @finished w k t hw htask =>
    left
    have hstep := PoolEffect.finished (getElem?_toBase hw) (w.task?_toWorker.trans htask)
    unfold toBase at hstep ⊢
    dsimp only at hstep ⊢
    rw [List.map_set]
    exact hstep
  | @waits w k hw hlock hempty hstart =>
    left
    have hidle : w.toWorker.task? = none :=
      w.task?_toWorker.trans (ThreadPhase.task?_of_atLock hlock)
    have hstep := PoolEffect.waits (getElem?_toBase hw) hidle
    unfold toBase at hstep ⊢
    dsimp only at hstep ⊢
    rw [List.map_set]
    exact hstep
  | timedOut hw hwait =>
    right
    unfold toBase
    dsimp only
    rw [toWorker_wake hw hwait]
  | awoke hw hwait =>
    right
    unfold toBase
    dsimp only
    rw [toWorker_wake hw hwait]
  | @retired w k hw hwoken hcache hmore =>
    left
    have hidle : w.toWorker.task? = none := by
      rw [w.task?_toWorker, hwoken]
      rfl
    have hstep := PoolEffect.retired (getElem?_toBase hw) hidle hmore
    unfold toBase at hstep ⊢
    dsimp only at hstep ⊢
    rw [← List.eraseIdx_map]
    exact hstep
  | exited => cases hend
  | stopped => cases hend
  | notified =>
    right
    unfold toBase checkOver
    dsimp only
    rw [toWorker_notifyAll]
  | checked => exact .inr rfl
  | ownerAwoke => exact .inr rfl

section Threads

variable {threads threads' : List (PoolThread τ)} {w : PoolThread τ} {k : Nat}
  {wake : Option Nat} {phase : ThreadPhase τ}

/-- Nobody waits for a task. -/
def Quiet (threads : List (PoolThread τ)) : Prop := ∀ w ∈ threads, w.phase.isWaiting = false

/-- Somebody does not wait for a task. -/
def Awake (threads : List (PoolThread τ)) : Prop := ∃ w ∈ threads, w.phase.isWaiting = false

theorem Quiet.set (hquiet : Quiet threads) (hphase : phase.isWaiting = false) :
    Quiet (threads.set k { w with phase := phase }) := by
  intro v hv
  cases List.mem_or_eq_of_mem_set hv with
  | inl hmem => exact hquiet v hmem
  | inr heq =>
    rw [heq]
    exact hphase

theorem Quiet.notifyOne (hquiet : Quiet threads)
    (hnotify : notifyOne threads wake = some threads') : Quiet threads' := by
  cases notifyOne_cases hnotify with
  | inl hone =>
    obtain ⟨k, w, -, -, rfl⟩ := hone
    exact hquiet.set rfl
  | inr hnone =>
    rw [hnone.2]
    exact hquiet

theorem quiet_notifyAll (threads : List (PoolThread τ)) : Quiet (notifyAll threads) := by
  intro w hw
  obtain ⟨⟨id, phase⟩, -, rfl⟩ := List.mem_map.mp hw
  cases phase <;> rfl

theorem Quiet.eraseIdx (hquiet : Quiet threads) : Quiet (threads.eraseIdx k) :=
  fun w hw => hquiet w (List.mem_of_mem_eraseIdx hw)

theorem Quiet.awake (hquiet : Quiet threads) (hne : threads ≠ []) : Awake threads := by
  obtain ⟨w, hw⟩ := List.exists_mem_of_ne_nil threads hne
  exact ⟨w, hw, hquiet w hw⟩

theorem awake_set (hw : threads[k]? = some w) (hphase : phase.isWaiting = false) :
    Awake (threads.set k { w with phase := phase }) := by
  obtain ⟨hk, -⟩ := List.getElem?_eq_some_iff.mp hw
  exact ⟨_, List.mem_set hk _, hphase⟩

theorem Awake.notifyOne (hawake : Awake threads)
    (hnotify : notifyOne threads wake = some threads') : Awake threads' := by
  cases notifyOne_cases hnotify with
  | inl hone =>
    obtain ⟨k, w, hw, -, rfl⟩ := hone
    exact awake_set hw rfl
  | inr hnone => rwa [hnone.2]

/-- Whom `notify_one` finds, if anybody is there. -/
theorem awake_of_notifyOne (hne : threads ≠ []) (hnotify : notifyOne threads wake = some threads') :
    Awake threads' := by
  cases notifyOne_cases hnotify with
  | inl hone =>
    obtain ⟨k, w, hw, -, rfl⟩ := hone
    exact awake_set hw rfl
  | inr hnone =>
    rw [hnone.2]
    exact Quiet.awake hnone.1 hne

/-- Whatever a thread does, it is still there. -/
theorem set_ne_nil (hw : threads[k]? = some w) (w' : PoolThread τ) : threads.set k w' ≠ [] := by
  intro hnil
  rw [List.set_eq_nil_iff] at hnil
  rw [hnil] at hw
  cases hw

theorem ids_setPhase (hw : threads[k]? = some w) (phase : ThreadPhase τ) :
    (threads.set k { w with phase := phase }).map PoolThread.threadID =
      threads.map PoolThread.threadID := by
  have hget : (threads.map PoolThread.threadID)[k]? = some w.threadID := by
    rw [List.getElem?_map, hw, Option.map_some]
  obtain ⟨hk, hget⟩ := List.getElem?_eq_some_iff.mp hget
  rw [List.map_set, ← hget, List.set_getElem_self]

theorem ids_notifyOne (hnotify : notifyOne threads wake = some threads') :
    threads'.map PoolThread.threadID = threads.map PoolThread.threadID := by
  cases notifyOne_cases hnotify with
  | inl hone =>
    obtain ⟨k, w, hw, -, rfl⟩ := hone
    exact ids_setPhase hw .woken
  | inr hnone => rw [hnone.2]

theorem ids_notifyAll (threads : List (PoolThread τ)) :
    (notifyAll threads).map PoolThread.threadID = threads.map PoolThread.threadID := by
  rw [notifyAll, List.map_map]
  apply List.map_congr_left
  intro w _
  show PoolThread.threadID (if w.phase.isWaiting then { w with phase := .woken } else w) = _
  split <;> rfl

end Threads

/-! ## The invariant -/

/-- The pool at any moment of its life, started with `n` threads. As long as threads only leave
    by retiring, the counters are those of the pool without condition variables; when they leave
    for the destructor, the queue is empty. -/
structure LifeInv (n : Nat) (s : PoolLife τ) : Prop where
  int_eq : s.pool.intThreadSize = n
  isStart_iff : s.pool.isStart = true ↔ s.owner = .active
  taskSize_eq : s.pool.taskSize = s.pool.taskQue.length
  ids : s.pool.threads.Perm (s.threads.map PoolThread.threadID)
  full : s.pool.isStart = true ∨ s.pool.taskQue ≠ [] → PoolInv s.toBase
  quiet : s.owner ≠ .active → s.owner ≠ .stopped → Quiet s.threads
  gone : s.owner = .returned → s.threads = []
  /-- A queued task has somebody who will see it. -/
  awake : s.pool.poolMode = .fixed → s.pool.taskQue ≠ [] → Awake s.threads
  /-- A destructor that waits has somebody who will wake it. -/
  waits : s.pool.poolMode = .fixed → s.owner = .waiting → s.threads ≠ []

theorem LifeEffect.settings_eq (heffect : LifeEffect s e s') :
    s'.pool.intThreadSize = s.pool.intThreadSize ∧ s'.pool.poolMode = s.pool.poolMode := by
  cases heffect with
  | submitted =>
    dsimp only
    unfold ThreadPool.submitTask
    dsimp only
    split <;> exact ⟨rfl, rfl⟩
  | took hw hlock htake =>
    unfold ThreadPool.takeTask at htake
    split at htake
    · obtain ⟨-, rfl⟩ := Prod.mk.inj (Option.some.inj htake)
      exact ⟨rfl, rfl⟩
    · cases htake
  | _ => exact ⟨rfl, rfl⟩

section Step

variable {n : Nat}

theorem isStart_submitTask (p : ThreadPool τ) (t : τ) :
    (p.submitTask t).1.isStart = p.isStart := by
  unfold ThreadPool.submitTask
  dsimp only
  split <;> rfl

theorem takeTask_eq_some {p p' : ThreadPool τ} {t : τ}
    (htake : p.takeTask = some (t, p')) : p.taskQue = t :: p'.taskQue ∧
      p'.taskSize = p.taskSize - 1 ∧ p'.isStart = p.isStart ∧ p'.threads = p.threads := by
  unfold ThreadPool.takeTask at htake
  split at htake
  · next t' rest hqueue =>
    obtain ⟨rfl, rfl⟩ := Prod.mk.inj (Option.some.inj htake)
    exact ⟨hqueue, rfl, rfl, rfl⟩
  · cases htake

/-- The queue has something in it only if it had before, or a task is submitted. -/
private theorem LifeEffect.taskQue_ne_nil (heffect : LifeEffect s e s')
    (hne : s'.pool.taskQue ≠ []) : s.owner = .active ∨ s.pool.taskQue ≠ [] := by
  cases heffect with
  | submitted hactive => exact .inl hactive
  | took hw hlock htake =>
    right
    rw [(takeTask_eq_some htake).1]
    exact List.cons_ne_nil _ _
  | _ => exact .inr hne

private theorem LifeInv.step_isStart (hs : LifeInv n s) (heffect : LifeEffect s e s') :
    s'.pool.isStart = true ↔ s'.owner = .active := by
  have hiff := hs.isStart_iff
  cases heffect with
  | submitted =>
    rw [← isStart_submitTask] at hiff
    exact hiff
  | took hw hlock htake =>
    rw [← (takeTask_eq_some htake).2.2.1] at hiff
    exact hiff
  | exited hw hlock hempty hstop =>
    exact iff_of_false hstop fun hactive =>
      hstop (hiff.mpr (owner_of_notifyOver PoolOwner.noConfusion hactive))
  | stopped => exact iff_of_false Bool.false_ne_true PoolOwner.noConfusion
  | notified hstopped =>
    refine iff_of_false (fun hstart => ?_) (checkOver_ne_active _)
    exact absurd (hiff.mp hstart) (by rw [hstopped]; exact PoolOwner.noConfusion)
  | checked hwoken =>
    refine iff_of_false (fun hstart => ?_) (checkOver_ne_active _)
    exact absurd (hiff.mp hstart) (by rw [hwoken]; exact PoolOwner.noConfusion)
  | ownerAwoke hwaiting =>
    refine iff_of_false (fun hstart => ?_) PoolOwner.noConfusion
    exact absurd (hiff.mp hstart) (by rw [hwaiting]; exact PoolOwner.noConfusion)
  | _ => exact hiff

private theorem LifeInv.step_taskSize (hs : LifeInv n s) (heffect : LifeEffect s e s') :
    s'.pool.taskSize = s'.pool.taskQue.length := by
  have hsize := hs.taskSize_eq
  cases heffect with
  | @submitted t =>
    have hboth : (s.pool.submitTask t).1.taskSize = s.pool.taskSize + 1 ∧
        (s.pool.submitTask t).1.taskQue = s.pool.taskQue ++ [t] := by
      unfold ThreadPool.submitTask
      dsimp only
      split <;> exact ⟨rfl, rfl⟩
    dsimp only
    rw [hboth.1, hboth.2, List.length_append, List.length_singleton, hsize]
    rfl
  | took hw hlock htake =>
    obtain ⟨hqueue, htaken, -, -⟩ := takeTask_eq_some htake
    rw [hqueue, List.length_cons] at hsize
    dsimp only
    omega
  | _ => exact hsize

/-- Nobody starts the pool again. -/
theorem LifeEffect.isStart_of (heffect : LifeEffect s e s')
    (hstart : s'.pool.isStart = true) : s.pool.isStart = true := by
  cases heffect with
  | submitted => exact (isStart_submitTask _ _).symm.trans hstart
  | took hw hlock htake => exact (takeTask_eq_some htake).2.2.1.symm.trans hstart
  | stopped => cases hstart
  | _ => exact hstart

private theorem LifeInv.step_full (hs : LifeInv n s) (heffect : LifeEffect s e s')
    (hnow : s'.pool.isStart = true ∨ s'.pool.taskQue ≠ []) : PoolInv s'.toBase := by
  -- the counters have been right so far
  have hfull : PoolInv s.toBase := by
    apply hs.full
    cases hnow with
    | inl hstart => exact .inl (heffect.isStart_of hstart)
    | inr hne =>
      cases heffect.taskQue_ne_nil hne with
      | inl hactive => exact .inl (hs.isStart_iff.mpr hactive)
      | inr hne => exact .inr hne
  cases hend : e.isEnd with
  | false =>
    cases heffect.base hend with
    | inl hstep => exact hfull.step hstep
    | inr hsame => rwa [hsame]
  | true =>
    cases heffect with
    | stopped =>
      exact ⟨⟨hfull.taskSize_eq, hfull.taskSize_le, hfull.threads_eq, hfull.int_le,
        hfull.now_le, hfull.free_eq⟩, hfull.ids, hfull.nodup, hfull.used⟩
    | exited hw hlock hempty hstop =>
      -- the queue is empty when a thread leaves
      have hsize := hs.taskSize_eq
      have hnil : s.pool.taskQue = [] := List.length_eq_zero_iff.mp (by omega)
      exact absurd hnow (not_or.mpr ⟨hstop, not_not.mpr hnil⟩)
    | _ => cases hend

private theorem LifeInv.step_ids (hs : LifeInv n s) (heffect : LifeEffect s e s') :
    s'.pool.threads.Perm (s'.threads.map PoolThread.threadID) := by
  have hids := hs.ids
  -- the ids with that of a thread which leaves in front
  have hleave : ∀ {w : PoolThread τ} {k : Nat}, s.threads[k]? = some w →
      (s.pool.threads.erase w.threadID).Perm
        ((s.threads.eraseIdx k).map PoolThread.threadID) := by
    intro w k hw
    have hperm := hids.trans ((perm_of_getElem? hw w).1.map PoolThread.threadID)
    have herase := hperm.erase w.threadID
    rwa [List.map_cons, List.erase_cons_head] at herase
  cases heffect with
  | @submitted t wake threads hactive hroom hfresh hnotify =>
    have hfull := hs.full (.inl (hs.isStart_iff.mpr hactive))
    have hbase := (hfull.submitTask hroom t).ids
    have hmap : (s.toBase.workers ++ (s.pool.submitTask t).2.toList).map Worker.threadID =
        (threads ++ (s.pool.submitTask t).2.toList.map fun w =>
          ({ threadID := w.threadID } : PoolThread τ)).map PoolThread.threadID := by
      rw [List.map_append, List.map_append, ids_notifyOne hnotify, List.map_map]
      show (s.threads.map PoolThread.toWorker).map Worker.threadID ++ _ = _
      rw [List.map_map]
      rfl
    exact hbase.trans (.of_eq hmap)
  | @took w k wake t p threads hw hlock htake hnotify =>
    dsimp only
    rw [(takeTask_eq_some htake).2.2.2]
    cases hnotify with
    | inl heq => rwa [heq, ids_setPhase hw]
    | inr hnotify => rwa [ids_notifyOne hnotify, ids_setPhase hw]
  | finished hw => rwa [← ids_setPhase hw] at hids
  | waits hw => rwa [← ids_setPhase hw] at hids
  | timedOut hw => rwa [← ids_setPhase hw] at hids
  | awoke hw => rwa [← ids_setPhase hw] at hids
  | retired hw => exact hleave hw
  | exited hw => exact hleave hw
  | notified =>
    show s.pool.threads.Perm ((notifyAll s.threads).map PoolThread.threadID)
    rwa [ids_notifyAll]
  | _ => exact hids

/-! ### Who is there -/

private theorem LifeInv.step_quiet (hs : LifeInv n s) (heffect : LifeEffect s e s')
    (hactive : s'.owner ≠ .active) (hstopped : s'.owner ≠ .stopped) : Quiet s'.threads := by
  cases heffect with
  | submitted hbefore => exact absurd hbefore hactive
  | @took w k wake t p threads hw hlock htake hnotify =>
    have hset : Quiet (s.threads.set k { w with phase := .running t }) :=
      (hs.quiet hactive hstopped).set rfl
    cases hnotify with
    | inl heq =>
      dsimp only
      rw [heq]
      exact hset
    | inr hnotify => exact hset.notifyOne hnotify
  | finished => exact (hs.quiet hactive hstopped).set rfl
  | waits hw hlock hempty hstart => exact absurd (hs.isStart_iff.mp hstart) hactive
  | timedOut => exact (hs.quiet hactive hstopped).set rfl
  | awoke => exact (hs.quiet hactive hstopped).set rfl
  | retired => exact (hs.quiet hactive hstopped).eraseIdx
  | exited hw hlock hempty hstop =>
    refine (hs.quiet (fun hbefore => hstop (hs.isStart_iff.mpr hbefore)) fun hbefore => ?_).eraseIdx
    apply hstopped
    show (if s.owner = .waiting then PoolOwner.woken else s.owner) = .stopped
    rw [hbefore]
    rfl
  | stopped => exact absurd rfl hstopped
  | notified => exact quiet_notifyAll _
  | checked hwoken =>
    refine hs.quiet ?_ ?_ <;> rw [hwoken] <;> exact PoolOwner.noConfusion
  | ownerAwoke hwaiting =>
    refine hs.quiet ?_ ?_ <;> rw [hwaiting] <;> exact PoolOwner.noConfusion
  | rejected => exact hs.quiet hactive hstopped

/-- The destructor returns when the last thread has left. -/
theorem threads_eq_nil (hids : s.pool.threads.Perm (s.threads.map PoolThread.threadID)) :
    s.pool.threads = [] ↔ s.threads = [] := by
  rw [← List.length_eq_zero_iff, hids.length_eq, List.length_map, List.length_eq_zero_iff]

private theorem LifeInv.step_gone (hs : LifeInv n s) (heffect : LifeEffect s e s')
    (hreturned : s'.owner = .returned) : s'.threads = [] := by
  -- a thread cannot do anything any more
  have hnobody : ∀ {w : PoolThread τ} {k : Nat}, s.threads[k]? = some w →
      s.owner ≠ .returned := by
    intro w k hw howner
    rw [hs.gone howner] at hw
    cases hw
  have hids := hs.step_ids heffect
  cases heffect with
  | submitted hactive => exact absurd (hactive.symm.trans hreturned) PoolOwner.noConfusion
  | took hw => exact absurd hreturned (hnobody hw)
  | finished hw => exact absurd hreturned (hnobody hw)
  | waits hw => exact absurd hreturned (hnobody hw)
  | timedOut hw => exact absurd hreturned (hnobody hw)
  | awoke hw => exact absurd hreturned (hnobody hw)
  | retired hw => exact absurd hreturned (hnobody hw)
  | exited hw =>
    exact absurd (owner_of_notifyOver PoolOwner.noConfusion hreturned)
      (hnobody hw)
  | stopped => cases hreturned
  | notified => exact (threads_eq_nil hids).mp (nil_of_returned hreturned)
  | checked => exact (threads_eq_nil hids).mp (nil_of_returned hreturned)
  | ownerAwoke => cases hreturned
  | rejected => exact hs.gone hreturned

/-- A pool that works has a thread at least. -/
theorem LifeInv.threads_ne_nil (hs : LifeInv n s) (hn : 1 ≤ n)
    (hfull : s.pool.isStart = true ∨ s.pool.taskQue ≠ []) : s.threads ≠ [] := by
  have hpool := hs.full hfull
  have hint : s.pool.intThreadSize ≤ s.pool.nowThreadSize := hpool.int_le
  have hcount : (s.pool.threads.length : Int) = s.pool.nowThreadSize := hpool.threads_eq
  rw [hs.int_eq] at hint
  intro hnil
  rw [(threads_eq_nil hs.ids).mpr hnil, List.length_nil] at hcount
  omega

private theorem LifeInv.step_awake (hs : LifeInv n s) (hn : 1 ≤ n) (heffect : LifeEffect s e s')
    (hfixed : s'.pool.poolMode = .fixed) (hne : s'.pool.taskQue ≠ []) : Awake s'.threads := by
  have hmode : s.pool.poolMode = .fixed := heffect.settings_eq.2.symm.trans hfixed
  -- nobody waits for a task or leaves while there is one
  have hqueue : s.pool.taskSize = 0 → s.pool.taskQue = [] := fun hempty =>
    List.length_eq_zero_iff.mp (by have := hs.taskSize_eq; omega)
  cases heffect with
  | submitted hactive hroom hfresh hnotify =>
    have hsome := hs.threads_ne_nil hn (.inl (hs.isStart_iff.mpr hactive))
    obtain ⟨w, hw, hwait⟩ := awake_of_notifyOne hsome hnotify
    exact ⟨w, List.mem_append_left _ hw, hwait⟩
  | @took w k wake t p threads hw hlock htake hnotify =>
    have hset : Awake (s.threads.set k { w with phase := .running t }) := awake_set hw rfl
    cases hnotify with
    | inl heq =>
      dsimp only
      rw [heq]
      exact hset
    | inr hnotify => exact hset.notifyOne hnotify
  | finished hw => exact awake_set hw rfl
  | waits hw hlock hempty => exact absurd (hqueue hempty) hne
  | timedOut hw => exact awake_set hw rfl
  | awoke hw => exact awake_set hw rfl
  | retired hw hwoken hcache => exact absurd (hmode.symm.trans hcache) PoolMode.noConfusion
  | exited hw hlock hempty => exact absurd (hqueue hempty) hne
  | notified =>
    have hsome : s.threads ≠ [] := hs.threads_ne_nil hn (.inr hne)
    refine (quiet_notifyAll s.threads).awake fun hnil => hsome ?_
    exact List.map_eq_nil_iff.mp hnil
  | _ => exact hs.awake hmode hne

private theorem LifeInv.step_waits (hs : LifeInv n s) (heffect : LifeEffect s e s')
    (hfixed : s'.pool.poolMode = .fixed) (hwaiting : s'.owner = .waiting) : s'.threads ≠ [] := by
  have hmode : s.pool.poolMode = .fixed := heffect.settings_eq.2.symm.trans hfixed
  have hids := hs.step_ids heffect
  cases heffect with
  | submitted hactive => exact absurd (hactive.symm.trans hwaiting) PoolOwner.noConfusion
  | @took w k wake t p threads hw hlock htake hnotify =>
    cases hnotify with
    | inl heq =>
      dsimp only
      rw [heq]
      exact set_ne_nil hw _
    | inr hnotify =>
      have hset : Awake (s.threads.set k { w with phase := .running t }) := awake_set hw rfl
      obtain ⟨v, hv, -⟩ := hset.notifyOne hnotify
      exact List.ne_nil_of_mem hv
  | finished hw => exact set_ne_nil hw _
  | waits hw => exact set_ne_nil hw _
  | timedOut hw => exact set_ne_nil hw _
  | awoke hw => exact set_ne_nil hw _
  | retired hw hwoken hcache => exact absurd (hmode.symm.trans hcache) PoolMode.noConfusion
  | exited => exact absurd hwaiting (notifyOver_ne_waiting _)
  | stopped => cases hwaiting
  | notified =>
    exact fun hnil => ne_nil_of_waiting hwaiting ((threads_eq_nil hids).mpr hnil)
  | checked =>
    exact fun hnil => ne_nil_of_waiting hwaiting ((threads_eq_nil hids).mpr hnil)
  | ownerAwoke => cases hwaiting
  | rejected => exact hs.waits hmode hwaiting

theorem LifeInv.step (hs : LifeInv n s) (hn : 1 ≤ n) (heffect : LifeEffect s e s') :
    LifeInv n s' where
  int_eq := heffect.settings_eq.1.trans hs.int_eq
  isStart_iff := hs.step_isStart heffect
  taskSize_eq := hs.step_taskSize heffect
  ids := hs.step_ids heffect
  full := hs.step_full heffect
  quiet := hs.step_quiet heffect
  gone := hs.step_gone heffect
  awake := hs.step_awake hn heffect
  waits := hs.step_waits heffect

end Step

end Chat
