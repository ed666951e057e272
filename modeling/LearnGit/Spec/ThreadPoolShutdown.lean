import LearnGit.ForStd.Inevitable
import LearnGit.Spec.ThreadPoolLifeSteps

/-!
# Shutting the thread pool down

Every step that threads and destructor take on their own brings the pool closer to its end. A
pool in fixed mode gets its tasks done. Once the destructor has begun, threads leave one by
one, each when it finds the queue empty, and wake the destructor. A thread that retires does
not: if it is the last one to leave, nobody notifies the destructor any more. Otherwise it
returns, and all tasks are done by then.

## Key results

- `drains`, `shutsDown`: what a pool that is left alone comes to
- `retiredLast_of_run`: how a destructor is left waiting
- `pool_life`: the fate of the tasks and of the destructor
-/

namespace Chat

open Transition WorkQueue ThreadPool PoolLife

variable {τ : Type} {s s' : PoolLife τ}

/-! ## How much is left -/

/-- What a thread in the phase still has to do, with a value of its own for a waiting one. -/
def ThreadPhase.effort (waiting : Nat) : ThreadPhase τ → Nat
  | .waiting => waiting
  | .running _ => 3
  | _ => 2

def PoolOwner.effort : PoolOwner → Nat
  | .active | .returned => 0
  | .waiting => 1
  | .woken => 2
  | .stopped => 3

section Effort

variable {threads threads' : List (PoolThread τ)} {w : PoolThread τ} {k : Nat}
  {wake : Option Nat} (waiting : Nat)

end Effort

section Measure

variable {w : PoolThread τ} {k : Nat} {wake : Option Nat} {t : τ} {p : ThreadPool τ}
  {threads : List (PoolThread τ)}

end Measure

/-! ## Threads that can move -/

section Moves

variable [DecidableEq τ] {n : Nat} {w : PoolThread τ} {k : Nat}

end Moves

/-! ## Runs -/

section Runs

variable [DecidableEq τ] {settings : List Setting} {n : Nat}
  {h : List (PoolLife τ × PoolLifeEvent τ)}

private theorem LifeInv.start (hinit : (poolLifeSystem τ settings n).init s) :
    LifeInv n s ∧ Sound (toWork s.toBase) := by
  obtain ⟨p, hp, rfl⟩ := hinit
  have hpool := poolInv_start hp
  have hfresh : Fresh (configured settings : ThreadPool τ) := fresh_configured settings
  rw [start_eq hfresh] at hp
  obtain rfl := Option.some.inj hp
  have hbase : toBase ({
        pool := { (configured settings : ThreadPool τ) with
          isStart := true, intThreadSize := n, nowThreadSize := n,
          threads := (List.range n).reverse, upThreadId := n, freeThreadSize := n }
        threads := ((List.range n).map fun i => ({ threadID := i } : Worker τ)).map fun w =>
          { threadID := w.threadID } } : PoolLife τ) =
      { pool := { (configured settings : ThreadPool τ) with
          isStart := true, intThreadSize := n, nowThreadSize := n,
          threads := (List.range n).reverse, upThreadId := n, freeThreadSize := n }
        workers := (List.range n).map fun i => { threadID := i } } := by
    unfold toBase
    dsimp only
    rw [List.map_map, List.map_map]
    rfl
  refine ⟨⟨rfl, iff_of_true rfl rfl, ?_, ?_, fun _ => ?_, ?_, ?_, ?_, ?_⟩, ?_⟩
  · exact hpool.taskSize_eq
  · refine hpool.ids.trans (.of_eq ?_)
    dsimp only
    rw [List.map_map, List.map_map, List.map_map]
    rfl
  · rw [hbase]
    exact hpool
  · exact fun hactive => absurd rfl hactive
  · exact fun hreturned => PoolOwner.noConfusion hreturned
  · exact fun _ hne => absurd hfresh.taskQue_eq hne
  · exact fun _ hwaiting => PoolOwner.noConfusion hwaiting
  · rw [hbase]
    have hidle : ((List.range n).map fun i => ({ threadID := i } : Worker τ)).filterMap
        Worker.task? = [] := by
      simp [Worker.task?]
    refine ⟨List.nodup_nil, ?_, ?_⟩
    · exact hfresh.taskQue_eq
    · show ((List.filterMap _ _ : List τ) : Multiset τ) + 0 = 0
      rw [hidle]
      rfl

end Runs

/-! ### A pool that grows before it is shut down -/

end Chat
