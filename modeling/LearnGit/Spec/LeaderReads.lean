import LearnGit.Spec.AckedWrites
import LearnGit.Spec.RoleConsistency

/-!
# Reads at a node that is not the leader

`handleGet` and `handleScan` redirect a client only if `getLeaderAddr` finds an address.
Where it finds none the two handlers go on to the local engine, while the handlers of
writes answer INTERNAL_ERROR. A node finds none before it has heard of a leader and,
since a leader that steps down keeps its own id, after it has led.

## Key results

- `getLeaderAddr_isSome`: when a node has an address to redirect to
- `reads_refused_iff`: reads at a node that is not the leader are refused exactly then
- `redirect_of_book`: the same with a complete address book
-/

namespace Dkv

open Transition

variable {pb : Protobuf} {M : Membership} {h : List (DataCluster × DataEvent)}
  {s : DataCluster} {addrs : Nat → Nat → Option Bytes}

/-- A code that answers a read without data: an error, or NOT_LEADER with an address of
    the book. -/
def RefusesWith (peerAddrs : Nat → Option Bytes) (code : ErrorCode) (leaderAddr : Bytes) : Prop :=
  code ≠ .ok ∧ code ≠ .keyNotFound ∧ (code = .notLeader → ∃ j, peerAddrs j = some leaderAddr)

/-- A GET is answered with nothing from the local store. -/
def GetResponse.Refused (r : GetResponse) (peerAddrs : Nat → Option Bytes) : Prop :=
  RefusesWith peerAddrs r.errorCode r.correctLeaderAddr ∧ r.value = []

/-- A SCAN is answered with nothing from the local store. -/
def ScanResponse.Refused (r : ScanResponse) (peerAddrs : Nat → Option Bytes) : Prop :=
  RefusesWith peerAddrs r.errorCode r.correctLeaderAddr ∧ r.kvs = [] ∧ r.nextStartKey = []

/-- A node has an address to redirect to if it knows another node as the leader that is
    in its address book. -/
theorem getLeaderAddr_isSome (n : RaftNode) (peerAddrs : Nat → Option Bytes) :
    (n.getLeaderAddr peerAddrs).isSome ↔
      n.leaderId ≠ 0 ∧ n.leaderId ≠ n.nodeId ∧ (peerAddrs n.leaderId).isSome := by
  unfold RaftNode.getLeaderAddr
  split
  · next hzero => simp [hzero]
  · next hzero =>
    split
    · next hself => simp [hself]
    · next hself => simp [hzero, hself]

theorem getLeaderAddr_mem {n : RaftNode} {peerAddrs : Nat → Option Bytes} {addr : Bytes}
    (haddr : n.getLeaderAddr peerAddrs = some addr) : peerAddrs n.leaderId = some addr := by
  unfold RaftNode.getLeaderAddr at haddr
  split at haddr
  · exact nomatch haddr
  · split at haddr
    · exact nomatch haddr
    · exact haddr

namespace DataNode

variable {d : DataNode} {n : RaftNode}

private theorem redirect_eq (hraft : d.raft = some n) (hstate : n.state ≠ .leader) :
    d.redirect = n.getLeaderAddr d.peerAddrs := by
  rw [redirect, hraft]
  exact if_neg hstate

/-- A GET at a node that is not the leader is refused exactly if it is redirected. -/
theorem handleGet_refused_iff (hraft : d.raft = some n) (hstate : n.state ≠ .leader)
    (req : GetRequest) :
    (d.handleGet req).Refused d.peerAddrs ↔ (n.getLeaderAddr d.peerAddrs).isSome := by
  unfold handleGet
  rw [redirect_eq hraft hstate]
  cases haddr : n.getLeaderAddr d.peerAddrs with
  | some addr =>
    have hnot : ErrorCode.notLeader ≠ .ok ∧ ErrorCode.notLeader ≠ .keyNotFound := by decide
    exact iff_of_true ⟨⟨hnot.1, hnot.2, fun _ => ⟨_, getLeaderAddr_mem haddr⟩⟩, rfl⟩ rfl
  | none =>
    -- the handler falls through to the engine, which answers OK or KEY_NOT_FOUND
    cases d.engine.get req.key with
    | some value => exact iff_of_false (fun hrefused => hrefused.1.1 rfl) (by simp)
    | none => exact iff_of_false (fun hrefused => hrefused.1.2.1 rfl) (by simp)

/-- A SCAN at a node that is not the leader is refused exactly if it is redirected. -/
theorem handleScan_refused_iff (hraft : d.raft = some n) (hstate : n.state ≠ .leader)
    (req : ScanRequest) :
    (d.handleScan req).Refused d.peerAddrs ↔ (n.getLeaderAddr d.peerAddrs).isSome := by
  unfold handleScan
  rw [redirect_eq hraft hstate]
  cases haddr : n.getLeaderAddr d.peerAddrs with
  | some addr =>
    have hnot : ErrorCode.notLeader ≠ .ok ∧ ErrorCode.notLeader ≠ .keyNotFound := by decide
    exact iff_of_true ⟨⟨hnot.1, hnot.2, fun _ => ⟨_, getLeaderAddr_mem haddr⟩⟩, rfl, rfl⟩ rfl
  | none => exact iff_of_false (fun hrefused => hrefused.1.1 rfl) (by simp)

end DataNode

/-- After every run, reads at a node that is not the leader are refused exactly if the
    node knows another node as the leader and has its address. -/
theorem reads_refused_iff (hrun : Run (dataSystem pb M) h s) {i : Nat} (hi : i ∈ M.ids)
    (hstate : (s.raft.nodes i).state ≠ .leader) (get : GetRequest) (scan : ScanRequest) :
    (((s.node addrs i).handleGet get).Refused (addrs i) ↔
        (s.raft.nodes i).leaderId ≠ 0 ∧ (s.raft.nodes i).leaderId ≠ i ∧
          (addrs i (s.raft.nodes i).leaderId).isSome) ∧
      (((s.node addrs i).handleScan scan).Refused (addrs i) ↔
        (s.raft.nodes i).leaderId ≠ 0 ∧ (s.raft.nodes i).leaderId ≠ i ∧
          (addrs i (s.raft.nodes i).leaderId).isSome) := by
  have hknown := getLeaderAddr_isSome (s.raft.nodes i) (addrs i)
  rw [(run_ident (raft_run hrun) hi).1] at hknown
  rw [← hknown]
  exact ⟨DataNode.handleGet_refused_iff (d := s.node addrs i) rfl hstate get,
    DataNode.handleScan_refused_iff (d := s.node addrs i) rfl hstate scan⟩

/-- With the addresses of all other nodes in the book the address is never what is
    missing: a node knows no leader, itself or another node of the cluster. -/
theorem redirect_of_book (hrun : Run (dataSystem pb M) h s) {i : Nat} (hi : i ∈ M.ids)
    (hbook : ∀ j ∈ M.ids, j ≠ i → (addrs i j).isSome)
    (hzero : (s.raft.nodes i).leaderId ≠ 0) (hself : (s.raft.nodes i).leaderId ≠ i) :
    ((s.raft.nodes i).getLeaderAddr (addrs i)).isSome := by
  rw [getLeaderAddr_isSome, (run_ident (raft_run hrun) hi).1]
  rcases leaderId_mem (raft_run hrun) hi with hno | hmem
  · exact absurd hno hzero
  · exact ⟨hzero, hself, hbook _ hmem hself⟩

/-- The address of node `j` is the byte `j`. -/
def byteAddrs : Nat → Nat → Option Bytes := fun _ j => some [UInt8.ofNat j]

/-- Node 1 acknowledges a PUT, replicates it to node 2 and applies it. Node 2 times out
    into term 2 and asks node 1 for its vote. -/
def appliedThenSteppedDown : List DataEvent :=
  [.tick 1 (atTime 200),
    .deliver ⟨1, 2, .requestVote ⟨1, 1, 0, 0⟩⟩ (atTime 210),
    .deliver ⟨2, 1, .requestVoteResp ⟨1, true⟩⟩ (atTime 220),
    .put 1 (atTime 230) putKV,
    .deliver ⟨1, 2, .appendEntries ⟨1, 1, 0, 0, 0,
      [⟨1, 1, Protobuf.wire.serializeRpc putKV.command⟩]⟩⟩ (atTime 240),
    .deliver ⟨2, 1, .appendEntriesResp ⟨1, true, 1⟩⟩ (atTime 250),
    .tick 1 (atTime 260),
    .tick 2 (atTime 500),
    .deliver ⟨2, 1, .requestVote ⟨2, 2, 1, 1⟩⟩ (atTime 510)]

theorem appliedThenSteppedDown_runs : (dataSchedule .wire 3 appliedThenSteppedDown).isSome := by
  decide +kernel

/-- Node 2 knows node 1 as the leader before it times out. -/
theorem reads_refused_appliedThenSteppedDown :
    let r := (dataSchedule .wire 3 (appliedThenSteppedDown.take 7)).get (by decide +kernel)
    ((r.2.node byteAddrs 2).handleGet { key := [107] }).Refused (byteAddrs 2) :=
  ((reads_refused_iff (dataSchedule_run _) (by decide) (by decide +kernel) { key := [107] }
    ⟨[], [], 1, 0⟩).1).mpr (by decide +kernel)

/-- Node 1 follows in term 2 and answers a read with what it holds. -/
theorem read_served_by_follower :
    ¬ ∀ (pb : Protobuf) (M : Membership) (addrs : Nat → Nat → Option Bytes)
      (h : List (DataCluster × DataEvent)) (s : DataCluster), Run (dataSystem pb M) h s →
      ∀ i ∈ M.ids, (s.raft.nodes i).state ≠ .leader →
        (∀ get, ((s.node addrs i).handleGet get).Refused (addrs i)) ∧
          ∀ scan, ((s.node addrs i).handleScan scan).Refused (addrs i) := by
  intro hall
  have hrefused := (hall .wire _ byteAddrs _ _ (dataSchedule_run appliedThenSteppedDown_runs) 1
    (by decide) (by decide +kernel)).1 { key := [107] }
  exact hrefused.1.1 (by decide +kernel)

end Dkv
