import LearnGit.Native.KvClient

/-!
# Redirects

A node that is not the leader answers with the address of the leader. The client goes on
there with one attempt less, but it looks at the replies to `put` and `get` only, and it
stores the new address as the one for all keys.

## Key results

- `length_requests_le`: no call sends more requests than it has attempts
- `redirectsFollowed_iff`: when redirects are followed up to the final reply
- `redirectsOneShard_iff`: when a redirect changes the route of one shard only
-/

namespace Dkv

/-! ## What the servers answer -/

/-- `addr` is the address `ip:port`. Whether there is such a host is for the network to say. -/
def IsAddr (addr ip : Bytes) (port : UInt16) : Prop :=
  ∃ digits, 0x3a ∉ ip ∧ digits ≠ [] ∧ (∀ b ∈ digits, Decimal.isDigit b = true) ∧
    Decimal.value digits < 2 ^ 16 ∧ addr = ip ++ 0x3a :: digits ∧
      port = UInt16.ofNat (Decimal.value digits)

def WellFormedAddr (addr : Bytes) : Prop := ∃ ip port, IsAddr addr ip port

inductive KvKind where
  | get
  | put
  | delete
  | scan
deriving DecidableEq, Repr

def KvRequest.kind : KvRequest → KvKind
  | .get _ => .get
  | .put _ => .put
  | .delete _ => .delete
  | .scan _ => .scan

def KvResponse.kind : KvResponse → KvKind
  | .get _ => .get
  | .put _ => .put
  | .delete _ => .delete
  | .scan _ => .scan

/-- The kinds whose redirects `sendToAddr` looks at. -/
def KvKind.redirected : KvKind → Bool
  | .get | .put => true
  | .delete | .scan => false

/-- A request fails or is answered by a reply of its kind, and no redirect leads nowhere. -/
structure Serves (net : Network) (req : KvRequest) : Prop where
  answered : ∀ {i ip port resp}, net i ip port req = some resp → resp.kind = req.kind
  redirect : ∀ {i ip port resp}, net i ip port req = some resp → resp.errorCode = .notLeader →
    WellFormedAddr resp.correctLeaderAddr

/-- From `addr` on, after `sent` requests, `k` redirects lead to the final reply. -/
inductive RedirectsTo (net : Network) (req : KvRequest) : Nat → Bytes → Nat → KvResponse → Prop
  | final {sent addr ip port resp} (haddr : IsAddr addr ip port)
      (hreply : net sent ip port req = some resp) (hfinal : resp.errorCode ≠ .notLeader) :
      RedirectsTo net req sent addr 0 resp
  | redirect {sent addr ip port resp k final}
      (haddr : IsAddr addr ip port)
      (hreply : net sent ip port req = some resp) (hredirect : resp.errorCode = .notLeader)
      (hrest : RedirectsTo net req (sent + 1) resp.correctLeaderAddr k final) :
      RedirectsTo net req sent addr (k + 1) final

variable {net : Network} {req : KvRequest} {resp final : KvResponse} {addr : Bytes}
  {maxRetries sent k : Nat} {router : Router}

/-! ## Addresses -/

theorem IsAddr.splitAddr_eq {ip : Bytes} {port : UInt16} (haddr : IsAddr addr ip port) :
    splitAddr addr = some (.ok (ip, port)) := by
  obtain ⟨digits, hip, hne, hdigits, hvalue, rfl, rfl⟩ := haddr
  have htake : (ip ++ 0x3a :: digits).takeWhile (fun b => b ≠ 0x3a) = ip := by
    rw [List.takeWhile_append_of_pos fun b hb => decide_eq_true (ne_of_mem_of_not_mem hb hip),
      List.takeWhile_cons_of_neg (by simp), List.append_nil]
  have hdrop : (ip ++ 0x3a :: digits).drop (ip.length + 1) = digits := by simp
  have hscan : Decimal.scan (digits ++ []) = some (Decimal.value digits : Int) :=
    Decimal.scan_digits hne hdigits fun b hb => nomatch hb
  rw [List.append_nil] at hscan
  have hport : UInt16.ofInt (Decimal.value digits) = UInt16.ofNat (Decimal.value digits) := by
    rw [UInt16.ofInt, Int.emod_eq_of_lt (Int.natCast_nonneg _) (by omega), Int.toNat_natCast]
  rw [splitAddr, if_pos (by simp), htake]
  simp only [hdrop, stoi, hscan]
  rw [if_pos (by omega), ← hport]
  rfl

theorem IsAddr.unique {ip ip' : Bytes} {port port' : UInt16} (haddr : IsAddr addr ip port)
    (haddr' : IsAddr addr ip' port') : ip = ip' ∧ port = port' := by
  have heq := haddr.splitAddr_eq.symm.trans haddr'.splitAddr_eq
  simpa using heq

theorem WellFormedAddr.ne_nil (haddr : WellFormedAddr addr) : addr ≠ [] := by
  obtain ⟨ip, port, digits, -, -, -, -, rfl, -⟩ := haddr
  simp

/-- A host of one byte and a port of one digit. -/
theorem isAddr_single {host digit : UInt8} (hhost : host ≠ 0x3a)
    (hdigit : Decimal.isDigit digit = true) :
    IsAddr [host, 0x3a, digit] [host] (UInt16.ofNat (digit.toNat - 48)) := by
  have hvalue : Decimal.value [digit] = digit.toNat - 48 := by simp [Decimal.value]
  have hlt := digit.toNat_lt
  refine ⟨[digit], by simpa using hhost.symm, by simp, by simpa using hdigit, ?_, rfl, ?_⟩
  · omega
  · rw [hvalue]

/-! ## One reply -/

theorem redirectTarget_of_final (hfinal : resp.errorCode ≠ .notLeader) :
    redirectTarget resp = none := by
  cases resp with
  | get resp => exact if_neg fun h => hfinal h.1
  | put resp => exact if_neg fun h => hfinal h.1
  | delete resp => rfl
  | scan resp => rfl

theorem redirectTarget_of_notLeader (hnotLeader : resp.errorCode = .notLeader)
    (hne : resp.correctLeaderAddr ≠ []) :
    redirectTarget resp = if resp.kind.redirected then some resp.correctLeaderAddr else none := by
  cases resp with
  | get resp => exact if_pos ⟨hnotLeader, hne⟩
  | put resp => exact if_pos ⟨hnotLeader, hne⟩
  | delete resp => rfl
  | scan resp => rfl

/-- A redirect is followed according to the kind of the request. -/
theorem Serves.redirectTarget_eq (hnet : Serves net req) {ip : Bytes} {port : UInt16}
    (hreply : net sent ip port req = some resp) (hnotLeader : resp.errorCode = .notLeader) :
    redirectTarget resp = if req.kind.redirected then some resp.correctLeaderAddr else none := by
  rw [redirectTarget_of_notLeader hnotLeader (hnet.redirect hreply hnotLeader).ne_nil,
    hnet.answered hreply]

/-! ## Calls -/

/-- What a call with an attempt sends: nothing to an address it cannot take, one request that
    is the last, or one whose redirect is followed by the rest of the call. -/
inductive Requests (net : Network) (req : KvRequest) (maxRetries : Nat) (router : Router)
    (sent : Nat) : List SentRequest → Prop
  | badAddr : Requests net req maxRetries router sent []
  | failed : Requests net req maxRetries router sent [⟨router, none, router⟩]
  | answered {resp : KvResponse} (htarget : redirectTarget resp = none) :
      Requests net req maxRetries router sent [⟨router, some resp, router⟩]
  | redirected {resp : KvResponse} {newAddr : Bytes}
      (htarget : redirectTarget resp = some newAddr) :
      Requests net req maxRetries router sent
        (⟨router, some resp, router.setDirectNode newAddr⟩ ::
          (sendToAddr net req maxRetries (router.setDirectNode newAddr) (sent + 1)
            newAddr).requests)

theorem requests_sendToAddr (net : Network) (req : KvRequest) (maxRetries : Nat)
    (router : Router) (sent : Nat) (addr : Bytes) :
    Requests net req maxRetries router sent
      (sendToAddr net req (maxRetries + 1) router sent addr).requests := by
  rw [sendToAddr]
  split
  · exact .badAddr
  · exact .badAddr
  · split
    · exact .failed
    · split
      · next htarget => exact .redirected htarget
      · next htarget => exact .answered htarget

/-- Every request costs an attempt. -/
theorem length_requests_le (net : Network) (req : KvRequest) (maxRetries : Nat) (router : Router)
    (sent : Nat) (addr : Bytes) :
    (sendToAddr net req maxRetries router sent addr).requests.length ≤ maxRetries := by
  induction maxRetries generalizing router sent addr with
  | zero => exact Nat.le_refl 0
  | succ maxRetries ih =>
    have hrequests := requests_sendToAddr net req maxRetries router sent addr
    generalize (sendToAddr net req (maxRetries + 1) router sent addr).requests = xs at hrequests ⊢
    cases hrequests with
    | badAddr => exact Nat.zero_le _
    | failed => exact Nat.succ_le_succ (Nat.zero_le _)
    | answered htarget => exact Nat.succ_le_succ (Nat.zero_le _)
    | redirected htarget => exact Nat.succ_le_succ (ih _ _ _)

/-- The end of a call that goes on after its first reply. -/
theorem sendToAddr_redirect {ip : Bytes} {port : UInt16} {newAddr : Bytes}
    (haddr : splitAddr addr = some (.ok (ip, port))) (hreply : net sent ip port req = some resp)
    (htarget : redirectTarget resp = some newAddr) (maxRetries : Nat) (router : Router) :
    (sendToAddr net req (maxRetries + 1) router sent addr).outcome =
      (sendToAddr net req maxRetries (router.setDirectNode newAddr) (sent + 1)
        newAddr).outcome := by
  rw [sendToAddr]
  simp only [haddr, hreply, htarget]

/-- A call that ends with its first reply. -/
theorem sendToAddr_stop {ip : Bytes} {port : UInt16}
    (haddr : splitAddr addr = some (.ok (ip, port))) (hreply : net sent ip port req = some resp)
    (htarget : redirectTarget resp = none) (maxRetries : Nat) (router : Router) :
    (sendToAddr net req (maxRetries + 1) router sent addr).outcome = .ok resp := by
  rw [sendToAddr]
  simp only [haddr, hreply, htarget]

/-- With enough attempts a call of a kind that is redirected ends with the final reply. -/
theorem outcome_of_redirectsTo (hnet : Serves net req) (hkind : req.kind.redirected = true)
    (hto : RedirectsTo net req sent addr k final) (hk : k < maxRetries) (router : Router) :
    (sendToAddr net req maxRetries router sent addr).outcome = .ok final := by
  -- along the redirects; each of them leaves one attempt less
  induction hto generalizing maxRetries router with
  | final haddr hreply hfinal =>
    obtain ⟨n, rfl⟩ := Nat.exists_eq_add_of_lt hk
    exact sendToAddr_stop haddr.splitAddr_eq hreply (redirectTarget_of_final hfinal) _ router
  | redirect haddr hreply hredirect hrest ih =>
    obtain ⟨n, rfl⟩ := Nat.exists_eq_add_of_lt hk
    have htarget := hnet.redirectTarget_eq hreply hredirect
    rw [if_pos hkind] at htarget
    rw [sendToAddr_redirect haddr.splitAddr_eq hreply htarget]
    exact ih (by omega) _

/-- Redirects are followed up to the final reply if there are attempts enough, and there are
    never more requests than attempts. -/
structure RedirectsFollowed (net : Network) (req : KvRequest) (maxRetries : Nat) (router : Router)
    (addr : Bytes) : Prop where
  followed : ∀ k final, k ≤ maxRetries - 1 → RedirectsTo net req 0 addr k final →
    (sendToAddr net req maxRetries router 0 addr).outcome = .ok final
  bounded : (sendToAddr net req maxRetries router 0 addr).requests.length ≤ maxRetries

theorem RedirectsTo.final_ne (hto : RedirectsTo net req sent addr k final) :
    final.errorCode ≠ .notLeader := by
  induction hto with
  | final _ _ hfinal => exact hfinal
  | redirect _ _ _ _ ih => exact ih

/-- Exactly the redirects of `DELETE` and `SCAN` are not followed. -/
theorem redirectsFollowed_iff (hnet : Serves net req) (hmax : 1 ≤ maxRetries)
    (router : Router) (addr : Bytes) :
    RedirectsFollowed net req maxRetries router addr ↔
      req.kind.redirected = true ∨
        ¬ ∃ k final, 1 ≤ k ∧ k ≤ maxRetries - 1 ∧ RedirectsTo net req 0 addr k final := by
  constructor
  · intro hall
    cases hkind : req.kind.redirected with
    | true => exact .inl rfl
    | false =>
      -- the call ends with the first redirect, which is not the final reply
      refine .inr ?_
      rintro ⟨k, final, hpos, hk, hto⟩
      have hend := hall.followed k final hk hto
      cases hto with
      | final => exact absurd hpos (by decide)
      | redirect haddr hreply hredirect hrest =>
        have htarget := hnet.redirectTarget_eq hreply hredirect
        rw [hkind, if_neg (by decide)] at htarget
        obtain ⟨n, rfl⟩ := Nat.exists_eq_add_of_le' hmax
        rw [sendToAddr_stop haddr.splitAddr_eq hreply htarget] at hend
        cases hend
        exact hrest.final_ne hredirect
  · intro hcond
    refine ⟨fun k final hk hto => ?_, length_requests_le net req maxRetries router 0 addr⟩
    cases hcond with
    | inl hkind => exact outcome_of_redirectsTo hnet hkind hto (by omega) router
    | inr hnone =>
      cases hto with
      | final haddr hreply hfinal =>
        obtain ⟨n, rfl⟩ := Nat.exists_eq_add_of_le' hmax
        exact sendToAddr_stop haddr.splitAddr_eq hreply (redirectTarget_of_final hfinal) _ router
      | redirect haddr hreply hredirect hrest =>
        exact absurd ⟨_, final, Nat.succ_pos _, hk, .redirect haddr hreply hredirect hrest⟩ hnone

/-- The node `a` redirects to `b:2`, every other node answers. -/
def redirecting : Network := fun _ ip _ req =>
  let resp : WriteResponse :=
    if ip = [0x61] then
      { errorCode := .notLeader, callId := 1, correctLeaderAddr := [0x62, 0x3a, 0x32] }
    else { errorCode := .ok, callId := 1 }
  match req with
  | .put _ => some (.put resp)
  | .delete _ => some (.delete resp)
  | _ => none

theorem serves_redirecting (req : KvRequest) : Serves redirecting req where
  answered {i ip port resp} hreply := by
    cases req <;> cases hreply <;> rfl
  redirect {i ip port resp} hreply hnotLeader := by
    have haddr : resp.correctLeaderAddr = [0x62, 0x3a, 0x32] := by
      cases req <;> cases hreply <;> by_cases hip : ip = [0x61] <;>
        simp_all [KvResponse.errorCode, KvResponse.correctLeaderAddr]
    rw [haddr]
    exact ⟨_, _, isAddr_single (by decide) (by decide)⟩

/-- A `PUT` goes on to `b`. -/
theorem redirectsFollowed_put :
    RedirectsFollowed redirecting (.put {}) 3 {} [0x61, 0x3a, 0x31] :=
  (redirectsFollowed_iff (serves_redirecting _) (by decide) {} _).mpr (.inl rfl)

/-- A `DELETE` does not: the redirect is what the call returns. -/
theorem not_redirectsFollowed :
    ¬ ∀ (net : Network) (req : KvRequest) (maxRetries : Nat) (router : Router) (addr : Bytes),
      Serves net req → WellFormedAddr addr → 1 ≤ maxRetries →
        RedirectsFollowed net req maxRetries router addr := by
  intro hall
  have hfollowed := (hall redirecting (.delete {}) 3 {} [0x61, 0x3a, 0x31] (serves_redirecting _)
    ⟨_, _, isAddr_single (by decide) (by decide)⟩ (by decide)).followed 1
    (.delete { errorCode := .ok, callId := 1 }) (by decide)
  have hend := hfollowed (.redirect (isAddr_single (by decide) (by decide)) rfl rfl
    (.final (isAddr_single (by decide) (by decide)) rfl (by decide)))
  exact absurd hend (by decide)

/-! ## Routes -/

/-- The shard that the router finds for a key. -/
def Router.shardOf (r : Router) (key : Bytes) : Option ShardMeta :=
  r.shardMap.shards.find? fun s => s.holds key

/-- In one mode or the other the address depends on the shard only. -/
theorem Router.getAddrForKey_congr {r : Router} {key key' : Bytes}
    (hshard : r.shardOf key' = r.shardOf key) : r.getAddrForKey key' = r.getAddrForKey key := by
  unfold Router.shardOf at hshard
  rw [Router.getAddrForKey, Router.getAddrForKey, hshard]

/-- `r'` routes the keys of the shard of `key` to a new address and all others like `r`. -/
structure RedirectsOneShard (r r' : Router) (key newAddr : Bytes) : Prop where
  shard : ∀ key', r.shardOf key' = r.shardOf key → r'.getAddrForKey key' = newAddr
  frame : ∀ key', (r.shardOf key').isSome → r.shardOf key' ≠ r.shardOf key →
    r'.getAddrForKey key' = r.getAddrForKey key'

/-- What a request does to the router. -/
theorem after_of_mem_requests {x : SentRequest}
    (hx : x ∈ (sendToAddr net req maxRetries router sent addr).requests)
    (hreply : x.reply = some resp) :
    x.after = match redirectTarget resp with
      | some newAddr => x.before.setDirectNode newAddr
      | none => x.before := by
  induction maxRetries generalizing router sent addr with
  | zero => exact absurd hx List.not_mem_nil
  | succ maxRetries ih =>
    have hrequests := requests_sendToAddr net req maxRetries router sent addr
    generalize (sendToAddr net req (maxRetries + 1) router sent addr).requests = xs
      at hrequests hx
    cases hrequests with
    | badAddr => exact absurd hx List.not_mem_nil
    | failed =>
      rw [List.mem_singleton.mp hx] at hreply
      cases hreply
    | answered htarget =>
      rw [List.mem_singleton.mp hx] at hreply ⊢
      cases hreply
      rw [htarget]
    | redirected htarget =>
      cases List.mem_cons.mp hx with
      | inl hself =>
        subst hself
        cases hreply
        rw [htarget]
      | inr hrest => exact ih hrest

/-- The router after a redirect of the call, and the routes that it has kept. Nothing has to
    be changed where the keys are routed to the new address already. -/
theorem redirectsOneShard_iff {x : SentRequest} {newAddr : Bytes} (key : Bytes)
    (hx : x ∈ (sendToAddr net req maxRetries router sent addr).requests)
    (hreply : x.reply = some resp) (hnotLeader : resp.errorCode = .notLeader)
    (haddr : resp.correctLeaderAddr = newAddr) (hne : newAddr ≠ []) :
    RedirectsOneShard x.before x.after key newAddr ↔
      if resp.kind.redirected then
        ∀ key', (x.before.shardOf key').isSome → x.before.shardOf key' ≠ x.before.shardOf key →
          x.before.getAddrForKey key' = newAddr
      else x.before.getAddrForKey key = newAddr := by
  subst haddr
  have hafter := after_of_mem_requests hx hreply
  rw [redirectTarget_of_notLeader hnotLeader hne] at hafter
  cases hkind : resp.kind.redirected with
  | true =>
    rw [hkind] at hafter
    -- direct mode sends every key to the new address
    have hall (key' : Bytes) : x.after.getAddrForKey key' = resp.correctLeaderAddr := by
      rw [hafter]
      rfl
    simp only [if_true]
    constructor
    · intro hroutes key' hsome hother
      rw [← hroutes.frame key' hsome hother, hall]
    · intro hroutes
      refine ⟨fun key' _ => hall key', fun key' hsome hother => ?_⟩
      rw [hall, hroutes key' hsome hother]
  | false =>
    rw [hkind] at hafter
    -- the redirect is not looked at, so the route of the key has to be right before
    have hsame : x.after = x.before := hafter
    simp only [Bool.false_eq_true, if_false]
    rw [hsame]
    constructor
    · intro hroutes
      exact hroutes.shard key rfl
    · intro hroute
      refine ⟨fun key' hshard => ?_, fun _ _ _ => rfl⟩
      exact (Router.getAddrForKey_congr hshard).trans hroute

/-- A router that knows the leaders `a:1` and `c:3` of two nodes. -/
def routing (shards : List ShardMeta) : Router :=
  ((({} : Router).loadShardMap { shards := shards, version := 1 }).updateLeader 1 1
    [0x61, 0x3a, 0x31]).updateLeader 2 2 [0x63, 0x3a, 0x33]

/-- All keys, led by the first node. -/
def allKeys : ShardMeta where
  shardId := 1
  startKey := []
  endKey := []
  epoch := 1
  leaderNodeId := 1
  peerNodeIds := []

/-- The keys below `"m"`. -/
def belowM : ShardMeta := { allKeys with endKey := [0x6d] }

/-- The keys from `"m"` on, led by the second node. -/
def fromM : ShardMeta := { allKeys with shardId := 2, startKey := [0x6d], leaderNodeId := 2 }

/-- The first request of a `PUT` that `a` redirects to `b`. -/
def firstPut (router : Router) : SentRequest where
  before := router
  reply := some (.put
    { errorCode := .notLeader, callId := 1, correctLeaderAddr := [0x62, 0x3a, 0x32] })
  after := router.setDirectNode [0x62, 0x3a, 0x32]

theorem firstPut_mem (router : Router) : firstPut router ∈
    (sendToAddr redirecting (.put {}) 3 router 0 [0x61, 0x3a, 0x31]).requests :=
  List.mem_cons_self

/-- Where there is one shard only, no other route can be lost. -/
theorem redirectsOneShard_allKeys :
    RedirectsOneShard (routing [allKeys]) ((routing [allKeys]).setDirectNode [0x62, 0x3a, 0x32])
      [] [0x62, 0x3a, 0x32] := by
  have hshard (key : Bytes) : (routing [allKeys]).shardOf key = some allKeys := by
    have hholds : allKeys.holds key = true := by simp [ShardMeta.holds, allKeys]
    exact List.find?_cons_of_pos hholds
  refine (redirectsOneShard_iff [] (firstPut_mem (routing [allKeys])) rfl rfl rfl (by decide)).mpr
    fun key' _ hother => ?_
  exact absurd ((hshard key').trans (hshard []).symm) hother

/-- The redirect of a key below `"m"` sends the keys from `"m"` on to the new address as well. -/
theorem not_redirectsOneShard :
    ¬ ∀ (net : Network) (req : KvRequest) (maxRetries : Nat) (router : Router) (addr : Bytes)
      (x : SentRequest) (resp : KvResponse) (key newAddr : Bytes),
      x ∈ (sendToAddr net req maxRetries router 0 addr).requests → x.before.usePd = true →
        x.reply = some resp → resp.errorCode = .notLeader → resp.correctLeaderAddr = newAddr →
          newAddr ≠ [] → RedirectsOneShard x.before x.after key newAddr := by
  intro hall
  have hroutes := hall redirecting (.put {}) 3 (routing [belowM, fromM]) [0x61, 0x3a, 0x31] _ _ []
    _ (firstPut_mem _) rfl rfl rfl rfl (by decide)
  have hframe := hroutes.frame [0x7a] (by decide) (by decide)
  exact absurd hframe (by decide +kernel)

end Dkv
