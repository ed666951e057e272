import LearnGit.Spec.ChatSteps

/-!
# A message to a user who logs in

A message that is stored before the login fetches what waited for its user comes with the
fetch. One that is stored afterwards finds the connection in the map of its server, or the
user online and the login's server subscribed. No order of the statements leaves a gap. The
fetch loop does: it ends at a text that does not fit its buffer, and it cuts texts at a zero
byte.

## Key results

- `LoginTracked.login`: what a login leaves in the world
- `DeliveryInv.login`, `DeliveryInv.onemessage`, `DeliveryInv.redis`: where a message is
- `not_lost`: a message that the fetch loop reads whole gets to the connection
- `lost`: a long message that does not
-/

namespace Chat

open Transition ChatService UserModel

variable {sc : ChatScenario} {h : List (ChatState × ChatEvent)} {s s' : ChatState} {e : ChatEvent}
  {c j : Nat}

/-- The user and the server of a login. -/
abbrev ChatScenario.user (sc : ChatScenario) (c : Nat) : Int := (sc.login c).2.id

abbrev ChatScenario.server (sc : ChatScenario) (c : Nat) : Nat := (sc.login c).1

/-- Message `j` goes to the user who logs in through connection `c`, through no other
    connection, and has no connection before. -/
structure LoginRace (sc : ChatScenario) (c j : Nat) : Prop where
  toid : (sc.message j).2.toid = sc.user c
  only : ∀ c', sc.user c' = sc.user c → c' = c
  free : ∀ server, (sc.start.userIdConn server)[sc.user c]? = none

/-- The message was sent through the connection. -/
def SentTo (conn : Nat) (msg : Message) (w : ChatWorld) : Prop :=
  ∃ frame, (conn, frame) ∈ w.sent ∧ frame.message? = some msg

theorem SentTo.grows {conn : Nat} {msg : Message} {w w' : ChatWorld} (hsent : SentTo conn msg w)
    (hgrows : Grows w w') : SentTo conn msg w' := by
  obtain ⟨frame, hmem, hmsg⟩ := hsent
  exact ⟨frame, hgrows.sent _ hmem, hmsg⟩

theorem sentTo_send {conn : Nat} {frame : Frame} {msg : Message} (w : ChatWorld)
    (hmsg : frame.message? = some msg) : SentTo conn msg (w.send conn frame) :=
  ⟨frame, List.mem_append_right _ (List.mem_singleton.mpr rfl), hmsg⟩

/-- When the login is over, the message handled and Redis has handed it on, it has been sent
    through the connection. -/
def NotLost (sc : ChatScenario) (c j : Nat) (s : ChatState) : Prop :=
  s.logins c = .sendOffline [] → ∀ msg, s.messages j = .done msg →
    (sc.server c, sc.user c, .oneMessage msg) ∉ s.world.published → SentTo c msg s.world

/-! ## The fetch loop -/

/-- The fetch loop gets to the row of a message and reads its whole text. -/
def Reads (msgid : Int) : List MessageRow → Prop
  | [] => True
  | r :: rest =>
    r.content.length < columnSize ∧ if r.msgid = msgid then 0 ∉ r.content else Reads msgid rest

instance Reads.decidable (msgid : Int) : (rows : List MessageRow) → Decidable (Reads msgid rows)
  | [] => isTrue trivial
  | _ :: rest =>
    have := Reads.decidable msgid rest
    inferInstanceAs (Decidable (_ ∧ ite _ _ _))

/-- When the login fetches the messages, the loop reads message `j` whole, if it is there. -/
def FetchReads (c j : Nat) (_ : List (ChatState × ChatEvent)) (s : ChatState) :
    ChatEvent → Prop
  | .login conn rows =>
    conn = c → s.logins c = .getofflineMessage →
      ∀ msg ∈ (s.messages j).message?, Reads msg.msgid rows
  | _ => True

instance (c j : Nat) (h : List (ChatState × ChatEvent)) (s : ChatState) (e : ChatEvent) :
    Decidable (FetchReads c j h s e) := by
  cases e <;> unfold FetchReads <;> infer_instance

theorem mem_queryBase_of_reads {rows : List MessageRow} {r : MessageRow} (hr : r ∈ rows)
    (hnodup : (rows.map MessageRow.msgid).Nodup) (hreads : Reads r.msgid rows) :
    r ∈ queryBase (fun r => [r.content, r.createtime.text]) rows ∧ 0 ∉ r.content := by
  induction rows with
  | nil => exact absurd hr List.not_mem_nil
  | cons r' rest ih =>
    obtain ⟨hlength, hreads⟩ := hreads
    rw [List.map_cons, List.nodup_cons] at hnodup
    -- no row up to `r` has a text that is too long, so the loop gets there
    have hhead : queryBase (fun r => [r.content, r.createtime.text]) (r' :: rest) =
        r' :: queryBase (fun r => [r.content, r.createtime.text]) rest := by
      unfold queryBase
      refine List.takeWhile_cons_of_pos ?_
      simp [hlength, r'.createtime.fits]
    rw [hhead]
    cases List.mem_cons.mp hr with
    | inl hself =>
      rw [if_pos (congrArg MessageRow.msgid hself.symm), ← hself] at hreads
      exact ⟨hself ▸ List.mem_cons_self, hreads⟩
    | inr hrest =>
      have hne : r'.msgid ≠ r.msgid := fun heq =>
        hnodup.1 (heq ▸ List.mem_map_of_mem hrest)
      rw [if_neg hne] at hreads
      obtain ⟨hmem, hzero⟩ := ih hrest hnodup.2 hreads
      exact ⟨List.mem_cons_of_mem _ hmem, hzero⟩

/-- What the loop makes of a row that it reads. -/
theorem mem_getofflineMessage {rows : List MessageRow} {r : MessageRow} (hr : r ∈ rows)
    (hnodup : (rows.map MessageRow.msgid).Nodup) (hreads : Reads r.msgid rows) :
    { msgid := r.msgid, fromid := r.fromid, content := r.content, time := r.createtime.read } ∈
      getofflineMessage rows := by
  obtain ⟨hmem, hzero⟩ := mem_queryBase_of_reads hr hnodup hreads
  refine List.mem_map.mpr ⟨r, hmem, ?_⟩
  rw [columnString_of_notMem hzero]

/-! ## How far the login is -/

/-- What the login through connection `c` has done in the world so far. -/
structure LoginTracked (sc : ChatScenario) (c : Nat) (w : ChatWorld) (pc : LoginPc) : Prop where
  entry : ∀ server k, (w.userIdConn server)[sc.user c]? = some k → k = c
  inserted : pc.inserted = true → (w.userIdConn (sc.server c))[sc.user c]? = some c
  subscribed : pc.subscribed = true → (sc.server c, sc.user c) ∈ w.subscribed
  user : pc.accepted = true → sc.user c ≠ -1 ∧ (w.db.user.find? (sc.user c)).isSome
  online : pc.updated = true → OnlineIn w (sc.user c)

section LoginTracked

variable {w w' : ChatWorld} {pc pc' : LoginPc}

/-- A statement of another handler. -/
theorem LoginTracked.grows (hT : LoginTracked sc c w pc) (hgrows : Grows w w')
    (hentry : ∀ server, (w'.userIdConn server)[sc.user c]? = (w.userIdConn server)[sc.user c]?) :
    LoginTracked sc c w' pc where
  entry server k hk := hT.entry server k (hentry server ▸ hk)
  inserted hpc := (hentry _).trans (hT.inserted hpc)
  subscribed hpc := hgrows.subscribed _ (hT.subscribed hpc)
  user hpc := ⟨(hT.user hpc).1, hgrows.user _ (hT.user hpc).2⟩
  online hpc := hgrows.online _ (hT.online hpc)

/-- A statement of the login itself. -/
theorem LoginTracked.login (hT : LoginTracked sc c w pc) {rows : List MessageRow}
    (heff : LoginEffect (sc.server c) c (sc.login c).2 rows w pc w' pc') :
    LoginTracked sc c w' pc' := by
  have hgrows := heff.grows
  -- the entry of the user stays, or it is now the connection of this login
  have hentry (server : Nat) :
      (w'.userIdConn server)[sc.user c]? = (w.userIdConn server)[sc.user c]? ∨
        (w'.userIdConn server)[sc.user c]? = some c := by
    obtain hmap | hworld := heff.userIdConn_cases
    · exact .inl (by rw [hmap])
    · rw [hworld, ChatWorld.getElem?_insertConn]
      split
      · exact .inr rfl
      · exact .inl rfl
  refine ⟨fun server k hk => ?_, fun hpc => ?_, fun hpc => ?_, fun hpc => ?_, fun hpc => ?_⟩
  · obtain hsame | hself := hentry server
    · exact hT.entry server k (hsame ▸ hk)
    · exact Option.some.inj (hk.symm.trans hself)
  · obtain hold | hworld := heff.inserted_cases hpc
    · obtain hsame | hself := hentry (sc.server c)
      · exact hsame.trans (hT.inserted hold)
      · exact hself
    · rw [hworld, ChatWorld.getElem?_insertConn, if_pos ⟨rfl, rfl⟩]
  · obtain hold | hworld := heff.subscribed_cases hpc
    · exact hgrows.subscribed _ (hT.subscribed hold)
    · rw [hworld]
      exact List.mem_cons_self
  · obtain hold | ⟨-, hacc⟩ := heff.accepted_cases hpc
    · exact ⟨(hT.user hold).1, hgrows.user _ (hT.user hold).2⟩
    · obtain ⟨hid, row, hrow, -⟩ := hacc.exists_row
      exact ⟨hid, hgrows.user _ (by rw [hrow]; rfl)⟩
  · obtain hold | ⟨hold, hworld⟩ := heff.updated_cases hpc
    · exact hgrows.online _ (hT.online hold)
    · rw [hworld]
      exact onlineIn_updateStates (hT.user hold).2

/-- The state query for a message finds the user of a login that has set the state. -/
theorem LoginTracked.query_online (hT : LoginTracked sc c w pc) (hpc : pc.updated = true) :
    (query w.db (sc.user c)).id ≠ -1 ∧ (query w.db (sc.user c)).state = .online := by
  obtain ⟨row, hrow, hstate⟩ := hT.online hpc
  refine ⟨?_, query_state_eq_online_iff.mpr ⟨row, hrow, hstate⟩⟩
  rw [id_query hrow]
  exact (hT.user (LoginPc.accepted_of_updated hpc)).1

/-- Redis hands what is published to the server of a login that has subscribed. -/
theorem LoginTracked.mem_publish (hT : LoginTracked sc c w pc) (hpc : pc.subscribed = true)
    (frame : Frame) :
    (sc.server c, sc.user c, frame) ∈ (w.publish (sc.user c) frame).published := by
  have hmem : (sc.server c, sc.user c) ∈ w.subscribed.dedup.filter fun p => p.2 = sc.user c :=
    List.mem_filter.mpr ⟨List.mem_dedup.mpr (hT.subscribed hpc), decide_eq_true rfl⟩
  exact List.mem_append_right _ (List.mem_map_of_mem hmem)

/-- The server of a login that has put its connection into the map sends there. -/
theorem LoginTracked.sentTo_redisHandler (hT : LoginTracked sc c w pc)
    (hpc : pc.inserted = true) {frame : Frame} {msg : Message} (hmsg : frame.message? = some msg) :
    SentTo c msg (redisHandler (sc.server c) (sc.user c) frame w) := by
  unfold redisHandler
  rw [hT.inserted hpc]
  exact sentTo_send w hmsg

end LoginTracked

/-! ## Where the message is -/

/-- The row of a message that waits for a user. -/
def RowOf (id : Int) (msg : Message) (w : ChatWorld) : Prop :=
  ∃ r, w.db.message.find? msg.msgid = some r ∧ r.toid = id ∧ r.status = 0 ∧
    msg = { msgid := r.msgid, fromid := r.fromid, toid := id, content := r.content
            time := r.createtime.read }

theorem RowOf.grows {id : Int} {msg : Message} {w w' : ChatWorld} (hrow : RowOf id msg w)
    (hgrows : Grows w w') : RowOf id msg w' := by
  obtain ⟨r, hr, hrest⟩ := hrow
  exact ⟨r, hgrows.row _ _ hr, hrest⟩

/-- The handler of a message inserts its row, and keeps it. -/
theorem MessageEffect.rowOf {server : Nat} {req : OneMessage} {msgid : Int} {now : Varchar}
    {w w' : ChatWorld} {pc pc' : MessagePc}
    (heff : MessageEffect server req msgid now w pc w' pc')
    (hrow : ∀ msg ∈ pc.message?, RowOf req.toid msg w) {msg : Message}
    (hmsg : msg ∈ pc'.message?) : RowOf req.toid msg w' := by
  have hgrows := heff.grows
  cases heff with
  | insertMessage hinsert =>
    obtain rfl := Option.mem_some_iff.mp hmsg
    have hnew := Table.find?_insert hinsert msgid
    rw [if_pos rfl] at hnew
    exact ⟨_, hnew, rfl, rfl, rfl⟩
  | _ => exact (hrow msg hmsg).grows hgrows

/-- A fetch that reads the row returns the message. -/
theorem RowOf.mem_getofflineMessage {id : Int} {msg : Message} {w : ChatWorld}
    {rows : List MessageRow} (hrow : RowOf id msg w) (hrows : rows.Perm (offlineRows w.db id))
    (hreads : Reads msg.msgid rows) :
    ∃ m ∈ getofflineMessage rows, { m with toid := id } = msg := by
  obtain ⟨r, hr, htoid, hstatus, hmsg⟩ := hrow
  have hkey : r.msgid = msg.msgid := Table.key_of_find? hr
  rw [← hkey] at hr hreads
  have hmem : r ∈ rows :=
    hrows.mem_iff.mpr (Table.mem_select.mpr ⟨hr, by simp [htoid, hstatus]⟩)
  have hnodup : (rows.map MessageRow.msgid).Nodup :=
    (hrows.map _).nodup_iff.mpr (Table.nodup_select _ _)
  exact ⟨_, Chat.mem_getofflineMessage hmem hnodup hreads, hmsg.symm⟩

/-- The places at which a message to the user of a login can be. -/
inductive OnTheWay (sc : ChatScenario) (c j : Nat) (msg : Message) (s : ChatState) : Prop
  | sent (hsent : SentTo c msg s.world)
  | stored (hpc : (s.logins c).fetched = false)
  | fetched {rest : List Message} {m : Message} (hpc : s.logins c = .sendOffline rest)
    (hm : m ∈ rest) (heq : { m with toid := sc.user c } = msg)
  | handled (hpc : ∀ m, s.messages j ≠ .done m)
  | published (hpub : (sc.server c, sc.user c, .oneMessage msg) ∈ s.world.published)

/-- Before the fetch a message may be in the database only. -/
theorem OnTheWay.of_not_fetched {msg : Message} (hpc : ¬ (s.logins c).fetched = true) :
    OnTheWay sc c j msg s :=
  .stored (Bool.eq_false_of_not_eq_true hpc)

structure DeliveryInv (sc : ChatScenario) (c j : Nat) (s : ChatState) : Prop where
  tracked : LoginTracked sc c s.world (s.logins c)
  row : ∀ msg ∈ (s.messages j).message?, RowOf (sc.user c) msg s.world
  way : ∀ msg ∈ (s.messages j).message?, OnTheWay sc c j msg s

theorem DeliveryInv.init (hrace : LoginRace sc c j) (hinit : (chatSystem sc).init s) :
    DeliveryInv sc c j s := by
  obtain ⟨hworld, hlogins, hmessages⟩ := hinit
  have hquery : s.logins c = .query := by rw [hlogins]
  have hinsert : s.messages j = .insertMessage := by rw [hmessages]
  refine ⟨⟨fun server k hk => ?_, ?_, ?_, ?_, ?_⟩, ?_, ?_⟩
  · rw [hworld] at hk
    exact absurd (hk.symm.trans (hrace.free server)) (by simp)
  all_goals simp [hquery, hinsert, LoginPc.inserted, LoginPc.subscribed, LoginPc.accepted,
    LoginPc.updated, MessagePc.message?]

/-- A step of others. -/
theorem DeliveryInv.of_grows (hI : DeliveryInv sc c j s) (hgrows : Grows s.world s'.world)
    (hlogin : s'.logins c = s.logins c) (hmessage : s'.messages j = s.messages j)
    (hentry : ∀ server, (s'.world.userIdConn server)[sc.user c]? =
      (s.world.userIdConn server)[sc.user c]?)
    (hpub : ∀ msg, (sc.server c, sc.user c, .oneMessage msg) ∈ s.world.published →
      OnTheWay sc c j msg s') : DeliveryInv sc c j s' where
  tracked := hlogin ▸ hI.tracked.grows hgrows hentry
  row msg hmsg := (hI.row msg (hmessage ▸ hmsg)).grows hgrows
  way msg hmsg := by
    cases hI.way msg (hmessage ▸ hmsg) with
    | sent hsent => exact .sent (hsent.grows hgrows)
    | stored hpc => exact .stored (hlogin ▸ hpc)
    | fetched hpc hm heq => exact .fetched (hlogin.trans hpc) hm heq
    | handled hpc => exact .handled fun m => hmessage ▸ hpc m
    | published hmem => exact hpub msg hmem

/-- A statement of the login. -/
theorem DeliveryInv.login (hI : DeliveryInv sc c j s) {rows : List MessageRow} {pc : LoginPc}
    (heff : LoginEffect (sc.server c) c (sc.login c).2 rows s.world (s.logins c) s'.world pc)
    (hC : FetchReads c j h s (.login c rows)) (hlogin : s'.logins c = pc)
    (hmessage : s'.messages j = s.messages j) : DeliveryInv sc c j s' := by
  have hgrows := heff.grows
  have hpub : s'.world.published = s.world.published := heff.published
  refine ⟨hlogin ▸ hI.tracked.login heff, fun msg hmsg => ?_, fun msg hmsg => ?_⟩
  · exact (hI.row msg (hmessage ▸ hmsg)).grows hgrows
  · rw [hmessage] at hmsg
    cases hI.way msg hmsg with
    | sent hsent => exact .sent (hsent.grows hgrows)
    | handled hpc => exact .handled fun m => hmessage ▸ hpc m
    | published hmem => exact .published (hpub ▸ hmem)
    | stored hstored =>
      generalize hold : s.logins c = old at heff hstored
      generalize s'.world = w at heff
      cases heff with
      | getofflineMessage hrows =>
        -- the row is among those that the database sends
        obtain ⟨m, hm, heq⟩ :=
          (hI.row msg hmsg).mem_getofflineMessage hrows (hC rfl hold msg hmsg)
        exact .fetched hlogin hm heq
      | sendOffline => exact absurd hstored.symm Bool.false_ne_true
      | _ => exact .stored (by rw [hlogin]; rfl)
    | @fetched rest m hpc hm heq =>
      generalize hold : s.logins c = old at heff hpc
      generalize hworld : s'.world = w at heff
      cases heff with
      | sendOffline m' rest' =>
        obtain rfl := LoginPc.sendOffline.inj hpc
        cases List.mem_cons.mp hm with
        | inl hself =>
          refine .sent ?_
          rw [hworld]
          exact sentTo_send _ (congrArg some (hself ▸ heq))
        | inr hrest => exact .fetched hlogin hrest heq
      | _ => exact absurd hpc (by simp)

/-- A statement of the handler of the message. -/
theorem DeliveryInv.onemessage (hrace : LoginRace sc c j) (hI : DeliveryInv sc c j s)
    {msgid : Int} {now : Varchar} {pc : MessagePc}
    (heff : MessageEffect (sc.message j).1 (sc.message j).2 msgid now s.world (s.messages j)
      s'.world pc)
    (hlogin : s'.logins c = s.logins c) (hmessage : s'.messages j = pc) :
    DeliveryInv sc c j s' := by
  have hT := hI.tracked
  have hmap : s'.world.userIdConn = s.world.userIdConn := heff.userIdConn
  refine ⟨hlogin ▸ hT.grows heff.grows fun _ => by rw [hmap], fun msg hmsg => ?_,
    fun msg hmsg => ?_⟩
  · have hrow := hI.row
    rw [hmessage] at hmsg
    rw [← hrace.toid] at hrow ⊢
    exact heff.rowOf hrow hmsg
  · rw [hmessage] at hmsg
    generalize s.messages j = old at heff
    generalize hworld : s'.world = w at heff
    cases heff with
    | insertMessage => exact .handled fun m => by rw [hmessage]; simp
    | notFound => exact .handled fun m => by rw [hmessage]; simp
    | online => exact .handled fun m => by rw [hmessage]; simp
    | found hconn =>
      -- an entry of the user is one that this login has made
      rw [hrace.toid] at hconn
      obtain rfl := hT.entry _ _ hconn
      refine .sent ?_
      rw [hworld]
      exact sentTo_send _ hmsg
    | offline hoff =>
      -- a login that has fetched has set the state before
      refine .of_not_fetched fun hfetched => hoff ?_
      rw [hrace.toid]
      exact hT.query_online (LoginPc.updated_of_fetched (hlogin ▸ hfetched))
    | @publish m =>
      obtain rfl := Option.mem_some_iff.mp hmsg
      -- a login that has not subscribed yet fetches later, and the row is there
      by_cases hsub : (s.logins c).subscribed = true
      · refine .published ?_
        rw [hworld, hrace.toid]
        exact hT.mem_publish hsub _
      · exact .of_not_fetched fun hfetched =>
          hsub (LoginPc.subscribed_of_fetched (hlogin ▸ hfetched))

theorem grows_erase (w : ChatWorld) (k : Nat) :
    Grows w { w with published := w.published.eraseIdx k } := grows_of_eq rfl rfl rfl

/-- Redis hands a text to a server. -/
theorem DeliveryInv.redis (hI : DeliveryInv sc c j s) {k server : Nat} {channel : Int}
    {msg : Frame} (hpub : s.world.published[k]? = some (server, channel, msg)) :
    DeliveryInv sc c j
      { s with
        world := redisHandler server channel msg
          { s.world with published := s.world.published.eraseIdx k } } := by
  refine hI.of_grows ?_ rfl rfl (fun _ => ?_) fun m hm => ?_
  · exact (grows_erase s.world k).trans (redisHandler_grows _ _ _ _)
  · rw [redisHandler_userIdConn]
  · obtain ⟨i, hi⟩ := List.mem_iff_getElem?.mp hm
    by_cases hik : i = k
    · -- the message itself: the server has the connection, or the login has not fetched yet
      subst hik
      rw [hpub] at hi
      obtain ⟨rfl, rfl, rfl⟩ := by simpa using Option.some.inj hi
      have hT := hI.tracked.grows (grows_erase s.world i) fun _ => rfl
      by_cases hins : (s.logins c).inserted = true
      · exact .sent (hT.sentTo_redisHandler hins rfl)
      · exact .of_not_fetched fun hfetched => hins (LoginPc.inserted_of_fetched hfetched)
    · refine .published ?_
      rw [redisHandler_published]
      exact List.mem_eraseIdx_iff_getElem?.mpr ⟨i, hik, hi⟩

theorem DeliveryInv.step (hrace : LoginRace sc c j) (hI : DeliveryInv sc c j s)
    (heff : ChatEffect sc s e s') (hC : FetchReads c j h s e) : DeliveryInv sc c j s' := by
  cases heff with
  | @login conn rows w pc heff =>
    by_cases hconn : conn = c
    · subst hconn
      exact hI.login heff hC (Function.update_self _ _ _) rfl
    · have hne : c ≠ conn := Ne.symm hconn
      refine hI.of_grows heff.grows (Function.update_of_ne hne _ _) rfl (fun server => ?_)
        fun m hm => .published (heff.published ▸ hm)
      obtain hmap | hworld := heff.userIdConn_cases
      · exact congrArg (fun f => (f server)[sc.user c]?) hmap
      · -- another login is a login of another user
        have huser : sc.user c ≠ (sc.login conn).2.id :=
          fun heq => hconn (hrace.only conn heq.symm)
        dsimp only
        rw [hworld, ChatWorld.getElem?_insertConn, if_neg fun hsame => huser hsame.2]
  | @onemessage i msgid now w pc heff =>
    by_cases hij : i = j
    · subst hij
      exact hI.onemessage hrace heff rfl (Function.update_self _ _ _)
    · have hne : j ≠ i := Ne.symm hij
      refine hI.of_grows heff.grows rfl (Function.update_of_ne hne _ _) (fun server => ?_)
        fun m hm => .published (heff.published hm)
      dsimp only
      rw [heff.userIdConn]
  | redis hpub => exact hI.redis hpub

/-- A message to a user who logs in gets to the connection, whatever the order of the
    statements, if the fetch loop reads it whole where it finds it. -/
theorem not_lost (hrace : LoginRace sc c j) (hrun : Run (chatSystem sc) h s)
    (hC : StepsMeet (FetchReads c j) h) : NotLost sc c j s := by
  have hI : DeliveryInv sc c j s :=
    hrun.rec_of_stepsMeet (I := fun _ s => DeliveryInv sc c j s) hC
      (fun _ => DeliveryInv.init hrace)
      fun _ _ _ _ _ hI hstep hmeets => hI.step hrace (chatStep_effect hstep) hmeets
  intro hlogin msg hdone hpub
  cases hI.way msg (by rw [hdone]; rfl) with
  | sent hsent => exact hsent
  | stored hpc =>
    rw [hlogin] at hpc
    exact absurd hpc.symm Bool.false_ne_true
  | fetched hpc hm heq =>
    rw [hlogin] at hpc
    obtain rfl := LoginPc.sendOffline.inj hpc
    exact absurd hm List.not_mem_nil
  | handled hpc => exact absurd hdone (hpc msg)
  | published hmem => exact absurd hmem hpub

/-! ## A message through another server, and one that is too long -/

/-- User 1 logs in through connection 0 of server 0, and is sent a text through server 1. -/
def toUserOne (text : Bytes) : ChatScenario where
  start := twoUsersWorld
  login conn := (0, ⟨if conn = 0 then 1 else 2, [0x70]⟩)
  message _ := (1, ⟨2, 1, text⟩)

theorem toUserOne_race (text : Bytes) : LoginRace (toUserOne text) 0 0 where
  toid := rfl
  only conn huser := by
    by_contra hne
    have hid : (if conn = 0 then 1 else 2 : Int) = 1 := huser
    rw [if_neg hne] at hid
    exact absurd hid (by decide)
  free _ := rfl

/-- The message is stored after the fetch and goes through Redis. -/
def throughRedis : List ChatEvent :=
  [.login 0 [], .login 0 [], .login 0 [], .login 0 [], .login 0 [], .login 0 [],
    .onemessage 0 7 default, .onemessage 0 7 default, .onemessage 0 7 default,
    .onemessage 0 7 default, .redis 0]

theorem throughRedis_runs : (chatSchedule (toUserOne [0x68]) throughRedis).isSome := by
  decide +kernel

theorem not_lost_throughRedis :
    NotLost (toUserOne [0x68]) 0 0
      ((chatSchedule (toUserOne [0x68]) throughRedis).get throughRedis_runs).2 :=
  not_lost (toUserOne_race _) (chatSchedule_run throughRedis_runs) (by decide +kernel)

/-- The row of the message is stored before the login fetches it. -/
def throughFetch (text : Bytes) : List ChatEvent :=
  [.onemessage 0 7 default, .onemessage 0 7 default, .onemessage 0 7 default,
    .login 0 [], .login 0 [], .login 0 [], .login 0 [], .login 0 [],
    .login 0 [{ msgid := 7, fromid := 2, toid := 1, content := text, createtime := default
                status := 0 }]]

/-- A text that does not fit the buffer. -/
def longText : Bytes := List.replicate 1100 0x61

theorem throughFetch_runs : (chatSchedule (toUserOne longText) (throughFetch longText)).isSome := by
  decide +kernel

theorem lost :
    ¬ ∀ (sc : ChatScenario) (c j : Nat) (h : List (ChatState × ChatEvent)) (s : ChatState),
      LoginRace sc c j → Run (chatSystem sc) h s → NotLost sc c j s := by
  intro hall
  have hnot := hall _ 0 0 _ _ (toUserOne_race longText) (chatSchedule_run throughFetch_runs)
  obtain ⟨frame, hmem, hmsg⟩ := hnot (by decide +kernel)
    { msgid := 7, fromid := 2, toid := 1, content := longText, time := [] }
    (by decide +kernel) (by decide +kernel)
  have hsent : ((chatSchedule (toUserOne longText) (throughFetch longText)).get
      throughFetch_runs).2.world.sent = [(0, .loginAck [0x61])] := by decide +kernel
  rw [hsent] at hmem
  obtain ⟨-, rfl⟩ := Prod.mk.inj (List.mem_singleton.mp hmem)
  exact absurd hmsg (by decide)

end Chat
