import LearnGit.ForStd.CrashTriple
import LearnGit.Native.CrashingNode
import LearnGit.Spec.RaftClusterSteps
import LearnGit.Spec.ReservedKeys

/-!
# One vote per term across crashes

Term and vote are two cells of the engine that a persist writes one after the other. A
crash between the two puts leaves a new term with an old vote, which is a vote the node
has not given yet: as long as no message of the new term was sent, any vote is safe. The
invariant `CellInv` relates the two cells to everything that was sent, and every effect
of handling an input keeps it, so it holds wherever a crash cuts in.

## Key results

- `CellInv`: what the cells owe to the messages that were sent
- `effects_inv`: handling an input keeps the invariant at every crash point
- `recover_inv`: recovery finds the term and the vote of the invariant
- `one_vote_per_term`: no two candidates supported in one term, and no term forgotten
- `vote_forgotten`: a vote in term 0 is forgotten by a restart
-/

namespace Dkv

open Transition RaftService RaftNode

variable {pb : Protobuf} {nodeId : Nat} {peerIds : List Nat}
  {h : List (CrashingNode × CrashEvent)} {s s' : CrashingNode} {e : CrashEvent}

/-! ## Support -/

/-- What was sent shows support for `cand` in `term`: a vote granted to it or, if it is
    the node itself, a request for votes. -/
def Supports (nodeId : Nat) (sent : List SentMessage) (cand term : Nat) : Prop :=
  (∃ req resp, .answer (.requestVote req) (.requestVoteResp resp) ∈ sent ∧
      resp.voteGranted = true ∧ resp.term = term ∧ req.candidateId = cand) ∨
    (cand = nodeId ∧ ∃ pid req, .toPeer pid (.requestVote req) ∈ sent ∧ req.term = term)

/-- A supporting message is of the supported term. -/
theorem Supports.exists_term {sent : List SentMessage} {cand term : Nat}
    (hsup : Supports nodeId sent cand term) : ∃ m ∈ sent, m.message.term = term := by
  rcases hsup with ⟨req, resp, hmem, -, hterm, -⟩ | ⟨-, pid, req, hmem, hterm⟩
  · exact ⟨_, hmem, hterm⟩
  · exact ⟨_, hmem, hterm⟩

theorem supports_append {sent sent' : List SentMessage} {cand term : Nat} :
    Supports nodeId (sent ++ sent') cand term ↔
      Supports nodeId sent cand term ∨ Supports nodeId sent' cand term := by
  simp only [Supports, List.mem_append]
  constructor
  · rintro (⟨req, resp, hmem | hmem, hrest⟩ | ⟨hself, pid, req, hmem | hmem, hterm⟩)
    · exact .inl (.inl ⟨req, resp, hmem, hrest⟩)
    · exact .inr (.inl ⟨req, resp, hmem, hrest⟩)
    · exact .inl (.inr ⟨hself, pid, req, hmem, hterm⟩)
    · exact .inr (.inr ⟨hself, pid, req, hmem, hterm⟩)
  · rintro ((⟨req, resp, hmem, hrest⟩ | ⟨hself, pid, req, hmem, hterm⟩) |
      (⟨req, resp, hmem, hrest⟩ | ⟨hself, pid, req, hmem, hterm⟩))
    · exact .inl ⟨req, resp, .inl hmem, hrest⟩
    · exact .inr ⟨hself, pid, req, .inl hmem, hterm⟩
    · exact .inl ⟨req, resp, .inr hmem, hrest⟩
    · exact .inr ⟨hself, pid, req, .inr hmem, hterm⟩

/-! ## The two cells -/

/-- The cells hold `term` and, unless that is 0, `vote`. No message of a higher term was
    sent, and support in this term went to the vote. -/
structure CellInv (nodeId : Nat) (term vote : Nat) (d : Lasting) : Prop where
  termCell : readCell d.engine termKey = .ok term
  voteCell : ∃ v, readCell d.engine voteKey = .ok v ∧ (1 ≤ term → v = vote)
  term_le : ∀ m ∈ d.sent, m.message.term ≤ term
  cand_pos : ∀ cand t, Supports nodeId d.sent cand t → cand ≠ 0
  support : ∀ cand, 1 ≤ term → Supports nodeId d.sent cand term → cand = vote
  unique : ∀ a b t, 1 ≤ t → Supports nodeId d.sent a t → Supports nodeId d.sent b t → a = b

/-- What every crash leaves. -/
def CrashInv (nodeId : Nat) (d : Lasting) : Prop := ∃ term vote, CellInv nodeId term vote d

theorem CellInv.crashInv {term vote : Nat} {d : Lasting} (inv : CellInv nodeId term vote d) :
    CrashInv nodeId d :=
  ⟨term, vote, inv⟩

/-- No support was given in a term that is above all messages. -/
theorem CellInv.not_supports {term vote t cand : Nat} {d : Lasting}
    (inv : CellInv nodeId term vote d) (hlt : term < t) : ¬ Supports nodeId d.sent cand t := by
  intro hsup
  obtain ⟨m, hm, hterm⟩ := hsup.exists_term
  have := inv.term_le m hm
  omega

/-- The cells are untouched where their keys keep their values. -/
theorem CellInv.of_get {term vote : Nat} {d : Lasting} {engine : RocksEngine}
    (inv : CellInv nodeId term vote d) (hterm : engine.get termKey = d.engine.get termKey)
    (hvote : engine.get voteKey = d.engine.get voteKey) :
    CellInv nodeId term vote { d with engine := engine } where
  termCell := by rw [readCell_congr hterm, inv.termCell]
  voteCell := by
    rw [readCell_congr hvote]
    exact inv.voteCell
  term_le := inv.term_le
  cand_pos := inv.cand_pos
  support := inv.support
  unique := inv.unique

private theorem readCell_put_self (engine : RocksEngine) (key : Bytes) {n : Nat}
    (hn : n < 2 ^ 64) : readCell (engine.put key (toString n)).1 key = .ok n := by
  rw [readCell, RocksEngine.get_put, if_pos rfl]
  exact stoull_toString hn

/-! ## Effects -/

/-- An assertion about the lasting state that effects keep at every crash point. -/
abbrev Triple (pb : Protobuf) (nodeId : Nat) (P : Lasting → Prop) (xs : List Effect)
    (Q : Lasting → Prop) : Prop :=
  CrashTriple (Effect.run pb) (CrashInv nodeId) P xs Q

section Effects

variable {term vote t v : Nat} {log : List LogEntry}

/-- Cells are written by their own put only. -/
private theorem readCell_put_of_ne (engine : RocksEngine) {key cell : Bytes} (hne : key ≠ cell)
    (value : Bytes) : readCell (engine.put key value).1 cell = readCell engine cell :=
  readCell_congr (by rw [RocksEngine.get_put, if_neg hne])

/-- The put of the term. The other cell holds an old vote, but nobody was supported in a
    new term. -/
private theorem putTerm_triple (ht : t < 2 ^ 64)
    (hnext : term < t ∨ (t = term ∧ (vote = 0 ∨ v = vote))) :
    Triple pb nodeId (CellInv nodeId term vote) [.put termKey (toString t)]
      fun d => (∃ old, CellInv nodeId t old d) ∧
        ∀ cand, 1 ≤ t → Supports nodeId d.sent cand t → cand = v := by
  refine .single (fun d inv => ?_) (fun d inv => inv.crashInv) fun _ ⟨⟨_, inv⟩, _⟩ => inv.crashInv
  obtain ⟨old, hold, hsame⟩ := inv.voteCell
  have hvote : readCell (d.engine.put termKey (toString t)).1 voteKey = .ok old := by
    rw [readCell_put_of_ne _ (by decide), hold]
  -- a new term has no supporters yet; in the same term the vote was free or is repeated
  rcases hnext with hlt | ⟨rfl, hfree⟩
  · have hnone : ∀ cand, ¬ Supports nodeId d.sent cand t := fun cand => inv.not_supports hlt
    refine ⟨⟨old, readCell_put_self _ _ ht, ⟨old, hvote, fun _ => rfl⟩,
      fun m hm => (inv.term_le m hm).trans hlt.le, inv.cand_pos,
      fun cand _ hsup => absurd hsup (hnone cand), inv.unique⟩,
      fun cand _ hsup => absurd hsup (hnone cand)⟩
  · refine ⟨⟨vote, readCell_put_self _ _ ht, ⟨old, hvote, hsame⟩, inv.term_le, inv.cand_pos,
      inv.support, inv.unique⟩, fun cand hpos hsup => ?_⟩
    have hcand := inv.support cand hpos hsup
    rcases hfree with hzero | hv
    · exact absurd (hcand.trans hzero) (inv.cand_pos cand t hsup)
    · rw [hcand, hv]

/-- The put of the vote, after the put of its term. -/
private theorem putVote_triple (hv : v < 2 ^ 64) :
    Triple pb nodeId
      (fun d => (∃ old, CellInv nodeId t old d) ∧
        ∀ cand, 1 ≤ t → Supports nodeId d.sent cand t → cand = v)
      [.put voteKey (toString v)] (CellInv nodeId t v) := by
  refine .single (fun d ⟨⟨old, inv⟩, hfree⟩ => ?_) (fun _ ⟨⟨_, inv⟩, _⟩ => inv.crashInv)
    fun _ inv => inv.crashInv
  refine ⟨?_, ⟨v, readCell_put_self _ _ hv, fun _ => rfl⟩, inv.term_le, inv.cand_pos, hfree,
    inv.unique⟩
  show readCell (d.engine.put voteKey (toString v)).1 termKey = .ok t
  rw [readCell_put_of_ne _ (by decide), inv.termCell]

/-- The batch of a persist puts and deletes log keys only. -/
private theorem writeLog_triple (log : List LogEntry) :
    Triple pb nodeId (CellInv nodeId term vote) [.writeLog log] (CellInv nodeId term vote) := by
  refine .single (fun d inv => ?_) (fun d inv => inv.crashInv) fun d inv => inv.crashInv
  -- the two cells are neither among the deleted keys nor among the log keys
  have hcell : ∀ cell, inLogRange cell = false → (∀ index, encodeLogKey index ≠ cell) →
      (Effect.run pb d (.writeLog log)).engine.get cell = d.engine.get cell := by
    intro cell hrange hlog
    refine RocksEngine.get_writeBatch_of_notMem _ (fun hmem => ?_) fun hmem => ?_
    · exact absurd (hrange.symm.trans (inLogRange_of_mem_oldLogKeys hmem)) (by decide)
    · rw [List.map_map] at hmem
      obtain ⟨x, -, heq⟩ := List.mem_map.mp hmem
      exact hlog x.index heq
  have hbyte : ∀ (index : Nat) (b : UInt8) (key : Bytes), b ≠ 0xff →
      encodeLogKey index ≠ b :: key := fun index b key hb heq =>
    hb (List.cons.inj heq).1.symm
  exact inv.of_get (hcell termKey (by decide) fun index => hbyte index _ _ (by decide))
    (hcell voteKey (by decide) fun index => hbyte index _ _ (by decide))

/-- A whole persist. -/
private theorem persist_triple (ht : t < 2 ^ 64) (hv : v < 2 ^ 64) (log : List LogEntry)
    (hnext : term < t ∨ (t = term ∧ (vote = 0 ∨ v = vote))) :
    Triple pb nodeId (CellInv nodeId term vote) (Call.persist t v log).effects
      (CellInv nodeId t v) :=
  (putTerm_triple ht hnext).cons ((putVote_triple hv).cons (writeLog_triple log))

/-- All persists of a reaction. -/
private theorem persists_triple {ps : List Call} {term' vote' : Nat}
    (hps : Persists term vote ps term' vote')
    (hsmall : ∀ t v log, .persist t v log ∈ ps → t < 2 ^ 64 ∧ v < 2 ^ 64) :
    Triple pb nodeId (CellInv nodeId term vote) (ps.flatMap Call.effects)
      (CellInv nodeId term' vote') := by
  induction hps with
  | nil => exact .nil fun d inv => inv.crashInv
  | @cons _ _ t v _ _ log cs hnext _ _ ih =>
    obtain ⟨ht, hv⟩ := hsmall t v log List.mem_cons_self
    rw [List.flatMap_cons]
    exact (persist_triple ht hv log hnext).append
      (ih fun t v log hmem => hsmall t v log (List.mem_cons_of_mem _ hmem))

/-- A write that spares the cells. -/
private theorem apply_triple {command : Bytes}
    (hspares : ∀ engine, (onApply pb engine command).get termKey = engine.get termKey ∧
      (onApply pb engine command).get voteKey = engine.get voteKey) :
    Triple pb nodeId (CellInv nodeId term vote) [.apply command] (CellInv nodeId term vote) :=
  .single (fun d inv => inv.of_get (hspares d.engine).1 (hspares d.engine).2)
    (fun _ inv => inv.crashInv) fun _ inv => inv.crashInv

/-- A message of the persisted term at most, which shows support only for the persisted
    vote in the persisted term. -/
private theorem send_triple {m : SentMessage} (hterm : m.message.term ≤ term)
    (hsup : ∀ cand t, Supports nodeId [m] cand t → cand ≠ 0 ∧ t = term ∧ cand = vote) :
    Triple pb nodeId (CellInv nodeId term vote) [.send m] (CellInv nodeId term vote) := by
  refine .single (fun d inv => ?_) (fun d inv => inv.crashInv) fun d inv => inv.crashInv
  have hsupport : ∀ cand, 1 ≤ term → Supports nodeId (d.sent ++ [m]) cand term → cand = vote := by
    intro cand hpos hnew
    rcases supports_append.mp hnew with hold | hm
    · exact inv.support cand hpos hold
    · exact (hsup cand term hm).2.2
  refine ⟨inv.termCell, inv.voteCell, fun x hx => ?_, fun cand t hnew => ?_, hsupport,
    fun a b t hpos ha hb => ?_⟩
  · rcases List.mem_append.mp hx with hx | hx
    · exact inv.term_le x hx
    · rw [List.mem_singleton.mp hx]
      exact hterm
  · rcases supports_append.mp hnew with hold | hm
    · exact inv.cand_pos cand t hold
    · exact (hsup cand t hm).1
  · -- if one of the two is new, both are of the persisted term
    rcases supports_append.mp ha with hold | hm
    · rcases supports_append.mp hb with hold' | hm'
      · exact inv.unique a b t hpos hold hold'
      · obtain ⟨-, rfl, rfl⟩ := hsup b t hm'
        exact inv.support a hpos hold
    · obtain ⟨-, rfl, rfl⟩ := hsup a t hm
      exact (hsupport b hpos hb).symm

end Effects

/-! ## Handling an input -/

/-- The key an applied command writes to. -/
def commandKey (pb : Protobuf) (command : Bytes) : Option Bytes :=
  match pb.parseRpc command with
  | some msg =>
    match msg.type with
    | .putRequest => some msg.put.key
    | .deleteRequest => some msg.delete.key
    | _ => none
  | none => none

theorem get_onApply_of_ne (engine : RocksEngine) {command key : Bytes}
    (hne : commandKey pb command ≠ some key) :
    (onApply pb engine command).get key = engine.get key := by
  unfold commandKey at hne
  unfold onApply
  split
  · next msg hmsg =>
    rw [hmsg] at hne
    dsimp only at hne
    split
    · next htype =>
      rw [htype] at hne
      rw [RocksEngine.get_put, if_neg fun heq => hne (congrArg some heq)]
    · next htype =>
      rw [htype] at hne
      rw [RocksEngine.get_del, if_neg fun heq => hne (congrArg some heq)]
    · rfl
  · rfl

/-- The effect applies no command to one of the two cells. -/
def Effect.sparesCells (pb : Protobuf) : Effect → Bool
  | .apply command => commandKey pb command != some termKey && commandKey pb command != some voteKey
  | _ => true

/-- A vote is asked for by a candidate, and ids fit into their fields. -/
def Input.hasCandidate : Input → Bool
  | .message _ (.requestVote req) => req.candidateId != 0 && decide (req.candidateId < 2 ^ 64)
  | _ => true

section Handle

variable {n n' : RaftNode} {env : Env} {input : Input} {reply : Option RaftMessage}

/-- The votes of a node fit into the cell. -/
private theorem react_votedFor_lt (hreact : n.Reacts env input n' reply)
    (hcand : input.hasCandidate = true) (hid : n.nodeId < 2 ^ 64) (hvote : n.votedFor < 2 ^ 64) :
    n'.votedFor < 2 ^ 64 := by
  cases hreact.roleStep with
  | same _ hsame => rwa [hsame]
  | stepDown _ hzero =>
    rw [hzero]
    decide
  | campaign _ _ hself => rwa [hself]
  | grant src req _ _ _ hgrant =>
    rw [hgrant]
    simp only [Input.hasCandidate, Bool.and_eq_true, decide_eq_true_eq] at hcand
    exact hcand.2
  | count _ _ _ _ _ hsame => rwa [hsame]

/-- What a reaction sends to the peers keeps the invariant of its last persist. -/
private theorem sends_triple (pb : Protobuf) (hreact : n.Reacts env input n' reply)
    {sends : List Call} (hsends : Sends n n' input sends) (hnode : n.nodeId = nodeId)
    (hid : nodeId ≠ 0) {c : Call} (hc : c ∈ sends) : ∃ m, c.effects = [.send m] ∧
      Triple pb nodeId (CellInv nodeId n'.currentTerm n'.votedFor) [.send m]
        (CellInv nodeId n'.currentTerm n'.votedFor) := by
  cases hsends with
  | none => exact (List.not_mem_nil hc).elim
  | vote hstate hcand hterm =>
    obtain ⟨pid, -, rfl⟩ := List.mem_map.mp hc
    -- only a campaign makes a candidate of the next term, and it votes for itself
    have hself : n'.votedFor = n.nodeId := by
      cases hreact.roleStep with
      | same hsame => omega
      | stepDown _ _ hfollower =>
        rw [hcand] at hfollower
        exact nomatch hfollower
      | campaign _ _ hvote => exact hvote
    refine ⟨_, rfl, send_triple (Nat.le_refl _) fun cand t hsup => ?_⟩
    rcases hsup with ⟨req, resp, hmem, -⟩ | ⟨rfl, pid', req, hmem, hreq⟩
    · exact absurd (List.mem_singleton.mp hmem) (by simp)
    · obtain ⟨-, hmsg⟩ := SentMessage.toPeer.inj (List.mem_singleton.mp hmem)
      obtain rfl := RaftMessage.requestVote.inj hmsg
      exact ⟨hid, hreq.symm, (hself.trans hnode).symm⟩
  | append m heartbeatOnly _ _ hterm =>
    obtain ⟨pid, -, rfl⟩ := List.mem_map.mp hc
    refine ⟨_, rfl, send_triple hterm.le fun cand t hsup => ?_⟩
    rcases hsup with ⟨req, resp, hmem, -⟩ | ⟨-, pid', req, hmem, -⟩
    · exact absurd (List.mem_singleton.mp hmem) (by simp)
    · exact absurd (List.mem_singleton.mp hmem) (by simp)

/-- So does the answer to a request. -/
private theorem answer_triple {src : Nat} {request response : RaftMessage}
    (hreact : n.Reacts env (.message src request) n' (some response))
    (hcand : (Input.message src request).hasCandidate = true) :
    Triple pb nodeId (CellInv nodeId n'.currentTerm n'.votedFor) [.send (.answer request response)]
      (CellInv nodeId n'.currentTerm n'.votedFor) := by
  refine send_triple hreact.answer_term.le fun cand t hsup => ?_
  rcases hsup with ⟨req, resp, hmem, hgranted, hterm, hreq⟩ | ⟨-, pid, req, hmem, -⟩
  · obtain ⟨rfl, rfl⟩ := SentMessage.answer.inj (List.mem_singleton.mp hmem)
    simp only [Input.hasCandidate, Bool.and_eq_true, bne_iff_ne] at hcand
    exact ⟨hreq ▸ hcand.1, hterm.symm.trans hreact.answer_term,
      hreq.symm.trans (hreact.answer_granted hgranted).symm⟩
  · exact absurd (List.mem_singleton.mp hmem) (by simp)

/-- The effects of handling an input are persists and then effects that, unless they
    apply a command to one of the cells, each keep the invariant of the last persist. -/
private theorem effects_cases (pb : Protobuf) (s : CrashingNode) (hcand : input.hasCandidate = true)
    (hnode : s.node.nodeId = nodeId) (hid : nodeId ≠ 0) (hlt : nodeId < 2 ^ 64)
    (hvote : s.node.votedFor < 2 ^ 64)
    (hterm : (s.node.react env input).1.currentTerm < 2 ^ 64) :
    ∃ ps rest, s.effects env input = ps ++ rest ∧
      Triple pb nodeId (CellInv nodeId s.node.currentTerm s.node.votedFor) ps
        (CellInv nodeId (s.node.react env input).1.currentTerm
          (s.node.react env input).1.votedFor) ∧
      ∀ x ∈ rest, x.sparesCells pb = true →
        Triple pb nodeId (CellInv nodeId (s.node.react env input).1.currentTerm
            (s.node.react env input).1.votedFor) [x]
          (CellInv nodeId (s.node.react env input).1.currentTerm
            (s.node.react env input).1.votedFor) := by
  have hreact := s.node.react_cases env input
  -- the callbacks come in three groups, persists first; the answer is sent last
  obtain ⟨ps, sends, hcalls, hps, hsends⟩ := hreact.calls_eq
  have hvote' := react_votedFor_lt hreact hcand (hnode ▸ hlt) hvote
  have hnew : s.node.newCalls (s.node.react env input).1 = ps ++ (sends ++ applyCalls
      (s.node.react env input).1.log s.node.lastApplied
      ((s.node.react env input).1.lastApplied - s.node.lastApplied)) := by
    rw [newCalls, hcalls, List.drop_left]
  refine ⟨ps.flatMap Call.effects, (sends ++ applyCalls (s.node.react env input).1.log
    s.node.lastApplied ((s.node.react env input).1.lastApplied - s.node.lastApplied)).flatMap
      Call.effects ++ s.answerEffects env input, ?_,
    persists_triple hps fun t v log hmem => ?_, ?_⟩
  · rw [CrashingNode.effects, hnew, List.flatMap_append, List.append_assoc]
  · obtain ⟨hle, hv⟩ := hps.mem_le hmem
    exact ⟨by omega, by rcases hv with rfl | rfl <;> omega⟩
  · intro x hx hspares
    rcases List.mem_append.mp hx with hx | hx
    · obtain ⟨c, hc, hx⟩ := List.mem_flatMap.mp hx
      rcases List.mem_append.mp hc with hc | hc
      · obtain ⟨m, hm, htriple⟩ := sends_triple pb hreact hsends hnode hid hc
        rw [hm, List.mem_singleton] at hx
        rw [hx]
        exact htriple
      · obtain ⟨i, -, -, rfl⟩ := mem_applyCalls.mp hc
        obtain rfl := List.mem_singleton.mp hx
        simp only [Effect.sparesCells, Bool.and_eq_true, bne_iff_ne] at hspares
        exact apply_triple fun engine =>
          ⟨get_onApply_of_ne engine hspares.1, get_onApply_of_ne engine hspares.2⟩
    · unfold CrashingNode.answerEffects at hx
      split at hx
      · next src request response hreply =>
        obtain rfl := List.mem_singleton.mp hx
        rw [hreply] at hreact
        exact answer_triple hreact hcand
      · exact (List.not_mem_nil hx).elim

/-- Wherever a crash cuts the handling of an input, the cells keep what they owe, and
    after all of it they hold the term and the vote of the node. -/
theorem effects_inv (pb : Protobuf) (hnode : s.node.nodeId = nodeId)
    (hvote : s.node.votedFor < 2 ^ 64)
    (hcells : CellInv nodeId s.node.currentTerm s.node.votedFor s.lasting)
    (hcand : input.hasCandidate = true) (hid : nodeId ≠ 0) (hlt : nodeId < 2 ^ 64)
    (hterm : (s.node.react env input).1.currentTerm < 2 ^ 64) (k : Nat)
    (hspares : ((s.effects env input).take k).all (Effect.sparesCells pb) = true) :
    CrashInv nodeId (((s.effects env input).take k).foldl (Effect.run pb) s.lasting) ∧
      ((s.effects env input).length ≤ k →
        CellInv nodeId (s.node.react env input).1.currentTerm (s.node.react env input).1.votedFor
          (((s.effects env input).take k).foldl (Effect.run pb) s.lasting)) := by
  obtain ⟨ps, rest, heq, hps, hrest⟩ :=
    effects_cases pb s hcand hnode hid hlt hvote hterm
  rw [heq, List.take_append] at hspares ⊢
  -- only what is carried out has to spare the cells
  have htriple := hps.append (.all (fun _ inv => inv.crashInv) fun x hx =>
    hrest x (List.mem_of_mem_take hx)
      (List.all_eq_true.mp hspares x (List.mem_append_right _ hx)))
  -- cut the shortened list where the whole one is cut
  obtain ⟨hend, hcut⟩ := htriple s.lasting hcells
  have hcut := hcut k
  rw [List.take_append, List.take_take, Nat.min_self] at hcut
  refine ⟨hcut, fun hle => ?_⟩
  rw [List.length_append] at hle
  rwa [List.take_of_length_le (by omega)]

end Handle

/-! ## Restarts -/

/-- The node and its cells between two steps. -/
structure NodeInv (nodeId : Nat) (s : CrashingNode) : Prop where
  nodeId_eq : s.node.nodeId = nodeId
  votedFor_lt : s.node.votedFor < 2 ^ 64
  cells : CellInv nodeId s.node.currentTerm s.node.votedFor s.lasting

/-- In term 0 the vote is not asked for. -/
theorem CellInv.of_zero {vote vote' : Nat} {d : Lasting} (inv : CellInv nodeId 0 vote d) :
    CellInv nodeId 0 vote' d := by
  obtain ⟨v, hv, -⟩ := inv.voteCell
  exact ⟨inv.termCell, ⟨v, hv, fun hpos => absurd hpos (by decide)⟩, inv.term_le, inv.cand_pos,
    fun _ hpos => absurd hpos (by decide), inv.unique⟩

private theorem stoull_lt {v : Bytes} {n : Nat} (hn : stoull v = .ok n) : n < 2 ^ 64 := by
  unfold stoull at hn
  dsimp only at hn
  split at hn
  · exact nomatch hn
  · split at hn
    · exact nomatch hn
    · next hlt =>
      obtain rfl := Except.ok.inj hn
      split
      · exact Nat.mod_lt _ (by decide)
      · omega

private theorem readCell_lt {engine : RocksEngine} {key : Bytes} {n : Nat}
    (hn : readCell engine key = .ok n) : n < 2 ^ 64 := by
  unfold readCell at hn
  split at hn
  · exact stoull_lt hn
  · obtain rfl := Except.ok.inj hn
    decide

/-- What every crash leaves can be recovered from: no exception is thrown, and the node
    has the stored term and, unless that is 0, the stored vote. -/
theorem recover_inv (pb : Protobuf) (peerIds : List Nat) {d : Lasting}
    (hcrash : CrashInv nodeId d) (restart : Env) :
    ∃ n, recoverRaftState pb d.engine (RaftNode.new nodeId peerIds restart) = .ok n ∧
      NodeInv nodeId { node := n, lasting := d } := by
  obtain ⟨term, vote, inv⟩ := hcrash
  obtain ⟨v, hv, hsame⟩ := inv.voteCell
  have hcells : CellInv nodeId term v d := by
    rcases Nat.eq_zero_or_pos term with rfl | hpos
    · exact inv.of_zero
    · rwa [hsame hpos]
  rw [recoverRaftState, recoveredState_eq, raftReads, inv.termCell, hv]
  by_cases hload : term > 0 ∨ (scanLog d.engine).kvs.filterMap (fun kv => pb.parseEntry kv.2) ≠ []
  · exact ⟨_, by simp only [Except.bind, if_pos hload]; rfl,
      { nodeId_eq := rfl, votedFor_lt := readCell_lt hv, cells := hcells }⟩
  · -- the skipped load leaves the term 0 of a fresh node, which is the stored one
    obtain rfl : term = 0 := by omega
    exact ⟨_, by simp only [Except.bind, if_neg hload]; rfl,
      { nodeId_eq := rfl, votedFor_lt := Nat.two_pow_pos 64, cells := inv.of_zero }⟩

/-! ## Runs -/

/-- Candidates have ids, the term does not overflow, and no command that is applied
    writes to one of the cells. -/
def CrashEvent.Admissible (pb : Protobuf) (s : CrashingNode) (e : CrashEvent) : Prop :=
  e.handled.2.hasCandidate = true ∧
    (s.node.react e.handled.1 e.handled.2).1.currentTerm < 2 ^ 64 ∧
    (s.carriedOut e).all (Effect.sparesCells pb) = true

instance CrashEvent.Admissible.decidable (pb : Protobuf) (s : CrashingNode) (e : CrashEvent) :
    Decidable (e.Admissible pb s) :=
  inferInstanceAs (Decidable (_ ∧ _ ∧ _))

theorem NodeInv.start (nodeId : Nat) (peerIds : List Nat) (env : Env) :
    NodeInv nodeId (.start nodeId peerIds env) where
  nodeId_eq := rfl
  votedFor_lt := Nat.two_pow_pos 64
  cells :=
    { termCell := by rw [readCell, CrashingNode.start, RocksEngine.get_empty]; rfl
      voteCell :=
        ⟨0, by rw [readCell, CrashingNode.start, RocksEngine.get_empty]; rfl, fun _ => rfl⟩
      term_le := fun _ hm => (List.not_mem_nil hm).elim
      cand_pos := fun _ _ hsup => by
        obtain ⟨m, hm, -⟩ := hsup.exists_term
        exact (List.not_mem_nil hm).elim
      support := fun _ _ hsup => by
        obtain ⟨m, hm, -⟩ := hsup.exists_term
        exact (List.not_mem_nil hm).elim
      unique := fun _ _ _ _ hsup => by
        obtain ⟨m, hm, -⟩ := hsup.exists_term
        exact (List.not_mem_nil hm).elim }

theorem NodeInv.step (inv : NodeInv nodeId s) (hid : nodeId ≠ 0) (hlt : nodeId < 2 ^ 64)
    (hadm : e.Admissible pb s) (hstep : s.step pb e = some s') : NodeInv nodeId s' := by
  cases e with
  | handle env input =>
    obtain ⟨(hcand : input.hasCandidate = true),
      (hterm : (s.node.react env input).1.currentTerm < 2 ^ 64), hspares⟩ := hadm
    obtain rfl := Option.some.inj hstep
    have hreact := s.node.react_cases env input
    have hall := effects_inv pb inv.nodeId_eq inv.votedFor_lt inv.cells hcand hid hlt hterm
      (s.effects env input).length (by rw [List.take_length]; exact hspares)
    rw [List.take_length] at hall
    exact { nodeId_eq := hreact.nodeId_eq.trans inv.nodeId_eq
            votedFor_lt := react_votedFor_lt hreact hcand (inv.nodeId_eq ▸ hlt) inv.votedFor_lt
            cells := hall.2 (Nat.le_refl _) }
  | crash env input done restart =>
    obtain ⟨(hcand : input.hasCandidate = true),
      (hterm : (s.node.react env input).1.currentTerm < 2 ^ 64), hspares⟩ := hadm
    obtain ⟨hcut, -⟩ := effects_inv pb inv.nodeId_eq inv.votedFor_lt inv.cells hcand hid hlt hterm
      done hspares
    -- whatever the crash left can be read back
    obtain ⟨n, hn, inv'⟩ := recover_inv pb s.node.peerIds hcut restart
    simp only [CrashingNode.step, CrashingNode.carriedOut, inv.nodeId_eq, hn, Option.some.injEq]
      at hstep
    rwa [← hstep]

theorem NodeInv.run (hrun : Run (crashSystem pb nodeId peerIds) h s) (hid : nodeId ≠ 0)
    (hlt : nodeId < 2 ^ 64) (hadm : StepsMeet (fun _ s e => e.Admissible pb s) h) :
    NodeInv nodeId s := by
  induction hrun with
  | start hinit =>
    obtain ⟨env, rfl⟩ := hinit
    exact .start nodeId peerIds env
  | next hrun hstep ih => exact (ih hadm.2).step hid hlt hadm.1 hstep

/-- From term 1 on no two candidates are supported in one term, and the term of the node
    is not below that of a message it has sent, in every run with crashes whose steps are
    admissible. -/
theorem one_vote_per_term (hrun : Run (crashSystem pb nodeId peerIds) h s) (hid : nodeId ≠ 0)
    (hlt : nodeId < 2 ^ 64) (hadm : StepsMeet (fun _ s e => e.Admissible pb s) h) :
    (∀ t ≥ 1, ∀ a b, Supports nodeId s.lasting.sent a t → Supports nodeId s.lasting.sent b t →
      a = b) ∧
    ∀ m ∈ s.lasting.sent, m.message.term ≤ s.node.currentTerm := by
  have inv := NodeInv.run hrun hid hlt hadm
  exact ⟨fun t hpos a b => inv.cells.unique a b t hpos, inv.cells.term_le⟩

/-- Node 1 votes for node 2 in term 1 and, asked by node 3 in term 2, crashes right after
    the put of the term. It starts again with its old vote and refuses node 3. -/
def tornPersist : List CrashEvent :=
  [.handle (atTime 10) (.message 2 (.requestVote ⟨1, 2, 0, 0⟩)),
    .crash (atTime 20) (.message 3 (.requestVote ⟨2, 3, 0, 0⟩)) 1 (atTime 30),
    .handle (atTime 40) (.message 3 (.requestVote ⟨2, 3, 0, 0⟩)),
    .handle (atTime 1000) .tick]

theorem tornPersist_runs : (crashSchedule .wire 1 [2, 3] tornPersist).isSome := by
  decide +kernel

theorem one_vote_per_term_tornPersist :
    let s := ((crashSchedule .wire 1 [2, 3] tornPersist).get tornPersist_runs).2
    (∀ t ≥ 1, ∀ a b, Supports 1 s.lasting.sent a t → Supports 1 s.lasting.sent b t → a = b) ∧
      ∀ m ∈ s.lasting.sent, m.message.term ≤ s.node.currentTerm :=
  one_vote_per_term (crashSchedule_run tornPersist_runs) (by decide) (by decide)
    (by decide +kernel)

/-- Node 1 votes for node 2 in term 0 and, after a restart, for node 3. -/
def votesInTermZero : List CrashEvent :=
  [.handle (atTime 10) (.message 2 (.requestVote ⟨0, 2, 0, 0⟩)),
    .crash (atTime 20) .tick 0 (atTime 30),
    .handle (atTime 40) (.message 3 (.requestVote ⟨0, 3, 0, 0⟩))]

theorem votesInTermZero_runs : (crashSchedule .wire 1 [2, 3] votesInTermZero).isSome := by
  decide +kernel

/-- Recovery ignores a stored vote beside the term 0 and an empty log. -/
theorem vote_forgotten :
    ¬ ∀ (pb : Protobuf) (nodeId : Nat) (peerIds : List Nat)
      (h : List (CrashingNode × CrashEvent)) (s : CrashingNode),
      Run (crashSystem pb nodeId peerIds) h s → nodeId ≠ 0 → nodeId < 2 ^ 64 →
      StepsMeet (fun _ s e => e.Admissible pb s) h →
      (∀ t a b, Supports nodeId s.lasting.sent a t → Supports nodeId s.lasting.sent b t →
        a = b) ∧
      ∀ m ∈ s.lasting.sent, m.message.term ≤ s.node.currentTerm := by
  intro hall
  obtain ⟨hunique, -⟩ := hall .wire 1 [2, 3] _ _ (crashSchedule_run votesInTermZero_runs)
    (by decide) (by decide) (by decide +kernel)
  have hsame : (2 : Nat) = 3 := hunique 0 2 3
    (.inl ⟨⟨0, 2, 0, 0⟩, ⟨0, true⟩, by decide +kernel, rfl, rfl, rfl⟩)
    (.inl ⟨⟨0, 3, 0, 0⟩, ⟨0, true⟩, by decide +kernel, rfl, rfl, rfl⟩)
  exact absurd hsame (by decide)

end Dkv
