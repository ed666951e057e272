import LearnGit.Native.Protobuf

/-!
# Raft messages on the wire

What the protobuf library does for `dkv.raft.RaftMessage`, as a parameter, and an instance
in the wire format with the field numbers of `proto/raft_rpc.proto`.
-/

namespace Dkv

/-- The fields of an entry fit into `uint64`. -/
def LogEntry.Fits (x : LogEntry) : Prop := x.term < 2 ^ 64 ∧ x.index < 2 ^ 64

instance (x : LogEntry) : Decidable x.Fits := inferInstanceAs (Decidable (_ ∧ _))

/-- The fields of a message fit into `uint64`. -/
def RaftMessage.Fits : RaftMessage → Prop
  | .requestVote req => req.term < 2 ^ 64 ∧ req.candidateId < 2 ^ 64 ∧
      req.lastLogIndex < 2 ^ 64 ∧ req.lastLogTerm < 2 ^ 64
  | .requestVoteResp resp => resp.term < 2 ^ 64
  | .appendEntries req => req.term < 2 ^ 64 ∧ req.leaderId < 2 ^ 64 ∧
      req.prevLogIndex < 2 ^ 64 ∧ req.prevLogTerm < 2 ^ 64 ∧ req.leaderCommit < 2 ^ 64 ∧
      ∀ x ∈ req.entries, x.Fits
  | .appendEntriesResp resp => resp.term < 2 ^ 64 ∧ resp.matchIndex < 2 ^ 64

instance RaftMessage.Fits.decidable : (m : RaftMessage) → Decidable m.Fits
  | .requestVote _ => inferInstanceAs (Decidable (_ ∧ _))
  | .requestVoteResp _ => inferInstanceAs (Decidable (_ < _))
  | .appendEntries _ => inferInstanceAs (Decidable (_ ∧ _))
  | .appendEntriesResp _ => inferInstanceAs (Decidable (_ ∧ _))

/-- `SerializeToString` and `ParseFromString` of `RaftMessage`. A message that cannot be
    parsed is skipped, and so is one of the two snapshot types. -/
structure RaftProtobuf where
  serialize : RaftMessage → Bytes
  parse : Bytes → Option RaftMessage
  parse_serialize : ∀ m, m.Fits → parse (serialize m) = some m

open ProtoWire

namespace Wire

def voteRequestFields (req : RequestVoteRequest) : List Field :=
  varintField 1 req.term ++ (varintField 2 req.candidateId ++
    (varintField 3 req.lastLogIndex ++ varintField 4 req.lastLogTerm))

def readVoteRequest (fs : List Field) : RequestVoteRequest where
  term := getVarint 1 fs
  candidateId := getVarint 2 fs
  lastLogIndex := getVarint 3 fs
  lastLogTerm := getVarint 4 fs

theorem readVoteRequest_fields (req : RequestVoteRequest) :
    readVoteRequest (voteRequestFields req) = req := by
  simp [readVoteRequest, voteRequestFields, getVarint, Value.varint?]

def voteResponseFields (resp : RequestVoteResponse) : List Field :=
  varintField 1 resp.term ++ varintField 2 resp.voteGranted.toNat

def readVoteResponse (fs : List Field) : RequestVoteResponse where
  term := getVarint 1 fs
  voteGranted := getVarint 2 fs != 0

theorem readVoteResponse_fields (resp : RequestVoteResponse) :
    readVoteResponse (voteResponseFields resp) = resp := by
  obtain ⟨term, granted⟩ := resp
  cases granted <;> simp [readVoteResponse, voteResponseFields, getVarint, Value.varint?]

def appendRequestFields (req : AppendEntriesRequest) : List Field :=
  varintField 1 req.term ++ (varintField 2 req.leaderId ++ (varintField 3 req.prevLogIndex ++
    (varintField 4 req.prevLogTerm ++ (varintField 5 req.leaderCommit ++
      repeatedField 6 (req.entries.map fun x => encodeFields (entryFields x))))))

/-- An entry that cannot be read fails the whole message. -/
def readAppendRequest (fs : List Field) : Option AppendEntriesRequest := do
  let entries ← (getAll Value.bytes? 6 fs).mapM fun b => (decodeFields b).map readEntry
  return { term := getVarint 1 fs
           leaderId := getVarint 2 fs
           prevLogIndex := getVarint 3 fs
           prevLogTerm := getVarint 4 fs
           leaderCommit := getVarint 5 fs
           entries := entries }

theorem readAppendRequest_fields (req : AppendEntriesRequest) :
    readAppendRequest (appendRequestFields req) = some req := by
  obtain ⟨term, leaderId, prevLogIndex, prevLogTerm, leaderCommit, entries⟩ := req
  have hentries : (entries.map fun x => encodeFields (entryFields x)).mapM
      (fun b => (decodeFields b).map readEntry) = some entries := by
    induction entries with
    | nil => rfl
    | cons x entries ih =>
      simp [decodeFields_encodeFields, readEntry_entryFields, ih]
  have hsingle : ∀ k n, k ≠ 6 → getAll Value.bytes? 6 (varintField k n) = [] := fun k n hk =>
    getAll_eq_nil fun f hf => by rw [mem_varintField hf]; exact hk
  have hrepeated : ∀ k (bs : List Bytes), k ≠ 6 →
      getField? Value.varint? k (repeatedField 6 bs) = none := fun k bs hk =>
    getField?_eq_none fun f hf => by
      obtain ⟨b, rfl⟩ := mem_repeatedField hf
      exact Ne.symm hk
  simp [readAppendRequest, appendRequestFields, hsingle, hrepeated, hentries, getVarint,
    Value.varint?]

def appendResponseFields (resp : AppendEntriesResponse) : List Field :=
  varintField 1 resp.term ++ (varintField 2 resp.success.toNat ++ varintField 3 resp.matchIndex)

def readAppendResponse (fs : List Field) : AppendEntriesResponse where
  term := getVarint 1 fs
  success := getVarint 2 fs != 0
  matchIndex := getVarint 3 fs

theorem readAppendResponse_fields (resp : AppendEntriesResponse) :
    readAppendResponse (appendResponseFields resp) = resp := by
  obtain ⟨term, success, matchIndex⟩ := resp
  cases success <;> simp [readAppendResponse, appendResponseFields, getVarint, Value.varint?]

def raftFields : RaftMessage → List Field
  | .requestVote req => varintField 1 0 ++
      messageField 10 (some (encodeFields (voteRequestFields req)))
  | .requestVoteResp resp => varintField 1 1 ++
      messageField 11 (some (encodeFields (voteResponseFields resp)))
  | .appendEntries req => varintField 1 2 ++
      messageField 12 (some (encodeFields (appendRequestFields req)))
  | .appendEntriesResp resp => varintField 1 3 ++
      messageField 13 (some (encodeFields (appendResponseFields resp)))

/-- The submessage that the type announces, the default message where it is not set. -/
def readRaft (fs : List Field) : Option RaftMessage :=
  match getVarint 1 fs with
  | 0 => (decodeFields (getBytes 10 fs)).map fun fs => .requestVote (readVoteRequest fs)
  | 1 => (decodeFields (getBytes 11 fs)).map fun fs => .requestVoteResp (readVoteResponse fs)
  | 2 => ((decodeFields (getBytes 12 fs)).bind readAppendRequest).map .appendEntries
  | 3 => (decodeFields (getBytes 13 fs)).map fun fs => .appendEntriesResp (readAppendResponse fs)
  | _ => none

theorem readRaft_raftFields (m : RaftMessage) : readRaft (raftFields m) = some m := by
  cases m <;>
    simp [readRaft, raftFields, getVarint, getBytes, Value.varint?, Value.bytes?,
      decodeFields_encodeFields, readVoteRequest_fields, readVoteResponse_fields,
      readAppendRequest_fields, readAppendResponse_fields]

end Wire

/-- Messages in the wire format. -/
def RaftProtobuf.wire : RaftProtobuf where
  serialize m := encodeFields (Wire.raftFields m)
  parse bs := (decodeFields bs).bind Wire.readRaft
  parse_serialize m _ := by
    rw [decodeFields_encodeFields, Option.bind_some, Wire.readRaft_raftFields]

/-- A granted vote of term 1 on the wire. -/
example : RaftProtobuf.wire.serialize (.requestVoteResp ⟨1, true⟩) = [8, 1, 90, 4, 8, 1, 16, 1] := by
  decide +kernel

end Dkv
