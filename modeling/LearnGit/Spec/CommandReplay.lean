import LearnGit.ForStd.LastWrite
import LearnGit.Spec.RaftNodeSteps
import LearnGit.Spec.RocksEngineSpec
import LearnGit.Native.RaftService

/-!
# Applying the log again

`lastApplied_` is not persisted: after a restart the node applies its log from the first
entry on, to an engine that holds what was applied before. A command writes a value of its
own or deletes, so it overwrites, and the replay ends in the engine of a single run.

## Key results

- `get_onApply`: what an applied command leaves at a key
- `replay_onApply`: applying a list of commands on top of a part of it
- `replay_applyCalls`: the same for the invocations of `applyCb_` over a log
-/

namespace Dkv

open RaftService LastWrite

variable (pb : Protobuf)

/-- What an applied command writes at a key; a deleted key holds `none`. -/
def commandWrite (command key : Bytes) : Option (Option Bytes) :=
  match pb.parseRpc command with
  | some msg =>
    match msg.type with
    | .putRequest => if msg.put.key = key then some (some msg.put.value) else none
    | .deleteRequest => if msg.delete.key = key then some none else none
    | _ => none
  | none => none

theorem get_onApply : Overwrites RocksEngine.get (onApply pb) (commandWrite pb) := by
  intro engine command key
  -- a command that does not parse, like one of another type, writes nothing
  cases hparse : pb.parseRpc command with
  | none =>
    simp only [onApply, commandWrite, hparse]
    rfl
  | some msg =>
    simp only [onApply, commandWrite, hparse]
    cases msg.type with
    | putRequest =>
      show ((engine.put msg.put.key msg.put.value).1).get key = _
      rw [RocksEngine.get_put]
      split <;> rfl
    | deleteRequest =>
      show ((engine.del msg.delete.key).1).get key = _
      rw [RocksEngine.get_del]
      split <;> rfl
    | _ => rfl

/-- Applying commands to an engine that has seen the first `k` of them. -/
theorem replay_onApply (engine : RocksEngine) (commands : List Bytes) (k : Nat) :
    commands.foldl (onApply pb) ((commands.take k).foldl (onApply pb) engine) =
      commands.foldl (onApply pb) engine :=
  (get_onApply pb).replay (fun _ _ => RocksEngine.ext_get) commands k engine

/-! ## The log of a node -/

/-- The commands of the positions from `lo + 1` to `lo + k`. -/
def commandsOf (log : List LogEntry) (lo k : Nat) : List Bytes :=
  (List.range' (lo + 1) k).map fun i => (log.getD i default).command

theorem runCalls_applyCalls (engine : RocksEngine) (log : List LogEntry) (lo k : Nat) :
    runCalls pb engine (RaftNode.applyCalls log lo k) =
      (commandsOf log lo k).foldl (onApply pb) engine := by
  rw [runCalls, RaftNode.applyCalls, commandsOf, List.foldl_map, List.foldl_map]
  rfl

/-- A node that has applied its log up to position `j` and starts over. -/
theorem replay_applyCalls (engine : RocksEngine) (log : List LogEntry) {j k : Nat} (hjk : j ≤ k) :
    runCalls pb (runCalls pb engine (RaftNode.applyCalls log 0 j)) (RaftNode.applyCalls log 0 k) =
      runCalls pb engine (RaftNode.applyCalls log 0 k) := by
  -- what was applied before the restart is the front part of what is applied now
  have htake : commandsOf log 0 j = (commandsOf log 0 k).take j := by
    rw [commandsOf, commandsOf, ← List.map_take, List.take_range'_of_length_ge hjk]
  rw [runCalls_applyCalls, runCalls_applyCalls, runCalls_applyCalls, htake, replay_onApply]

end Dkv
