import LearnGit.Native.ChatSystem

/-!
# Statements of the chat handlers

What one statement of a login or of the handler of a message does, and what it leaves alone.

## Key results

- `loginStep_effect`, `messageStep_effect`: what a statement can do
- `login_steps`: a login that nothing interrupts does what `login` does
-/

namespace Chat

open Transition ChatService

/-! ## The connection map -/

namespace ChatWorld

theorem getElem?_insertConn (w : ChatWorld) (server conn server' : Nat) (id id' : Int) :
    ((w.insertConn server id conn).userIdConn server')[id']? =
      if server' = server ∧ id' = id then some conn else (w.userIdConn server')[id']? := by
  unfold insertConn
  by_cases hserver : server' = server
  · subst hserver
    by_cases hid : id' = id
    · simp [hid]
    · simp [Std.ExtTreeMap.getElem?_insert, hid, Ne.symm hid]
  · simp [hserver]

theorem getElem?_eraseConn (w : ChatWorld) (server server' : Nat) (id id' : Int) :
    ((w.eraseConn server id).userIdConn server')[id']? =
      if server' = server ∧ id' = id then none else (w.userIdConn server')[id']? := by
  unfold eraseConn
  by_cases hserver : server' = server
  · subst hserver
    by_cases hid : id' = id
    · simp [hid]
    · simp [Std.ExtTreeMap.getElem?_erase, hid, Ne.symm hid]
  · simp [hserver]

end ChatWorld

/-! ## The user table -/

namespace UserModel

theorem find?_updateStates (db : Database) (id : Int) (state : UserState) (id' : Int) :
    (updateStates db id state).user.find? id' =
      if id' = id then (db.user.find? id').map fun r => { r with state := state }
      else db.user.find? id' :=
  Table.find?_update (f := fun r : UserRow => { r with state := state }) (fun _ => rfl) id'

theorem query_state_eq_online_iff {db : Database} {id : Int} :
    (query db id).state = .online ↔
      ∃ row, db.user.find? id = some row ∧ row.state = .online := by
  rw [query_eq]
  cases db.user.find? id with
  | none => simp
  | some row => simp

theorem id_query {db : Database} {id : Int} {row : UserRow} (hrow : db.user.find? id = some row) :
    (query db id).id = id := by
  have hkey : row.id = id := Table.key_of_find? hrow
  rw [query_eq, hrow]
  exact hkey

end UserModel

open UserModel

/-- The database lets a login in. -/
def Accepts (db : Database) (req : LoginRequest) : Prop :=
  passwordRight (query db req.id) req ∧ (query db req.id).state = .offline

instance (db : Database) (req : LoginRequest) : Decidable (Accepts db req) :=
  inferInstanceAs (Decidable (_ ∧ _))

theorem Accepts.exists_row {db : Database} {req : LoginRequest} (hacc : Accepts db req) :
    req.id ≠ -1 ∧ ∃ row, db.user.find? req.id = some row ∧ row.state = .offline := by
  obtain ⟨⟨hid, -⟩, hstate⟩ := hacc
  rw [query_eq] at hid hstate
  cases hrow : db.user.find? req.id with
  | none =>
    rw [hrow] at hid
    exact absurd rfl hid
  | some row =>
    rw [hrow] at hid hstate
    have hkey : row.id = req.id := Table.key_of_find? hrow
    exact ⟨hkey ▸ hid, row, rfl, hstate⟩

/-- The user is online in the database. -/
def OnlineIn (w : ChatWorld) (id : Int) : Prop :=
  ∃ row, w.db.user.find? id = some row ∧ row.state = .online

theorem isSome_updateStates {w : ChatWorld} {id id' : Int} {state : UserState} :
    ((w.updateStates id state).db.user.find? id').isSome = (w.db.user.find? id').isSome := by
  have hfind := find?_updateStates w.db id state id'
  unfold ChatWorld.updateStates
  dsimp only
  rw [hfind]
  split
  · exact Option.isSome_map
  · rfl

theorem onlineIn_updateStates {w : ChatWorld} {id : Int} (hsome : (w.db.user.find? id).isSome) :
    OnlineIn (w.updateStates id .online) id := by
  obtain ⟨row, hrow⟩ := Option.isSome_iff_exists.mp hsome
  refine ⟨{ row with state := .online }, ?_, rfl⟩
  have hfind := find?_updateStates w.db id .online id
  rw [if_pos rfl, hrow] at hfind
  exact hfind

theorem OnlineIn.updateStates {w : ChatWorld} {id : Int} (hon : OnlineIn w id) (id' : Int) :
    OnlineIn (w.updateStates id' .online) id := by
  obtain ⟨row, hrow, hstate⟩ := hon
  by_cases heq : id = id'
  · subst heq
    exact onlineIn_updateStates (by rw [hrow]; rfl)
  · refine ⟨row, ?_, hstate⟩
    have hfind := find?_updateStates w.db id' .online id
    rw [if_neg heq, hrow] at hfind
    exact hfind

/-! ## A statement of a login -/

/-- What one statement of a login does to the world, and which one is next. -/
inductive LoginEffect (server conn : Nat) (req : LoginRequest) (rows : List MessageRow)
    (w : ChatWorld) : LoginPc → ChatWorld → LoginPc → Prop
  | accept (hacc : Accepts w.db req) :
    LoginEffect server conn req rows w .query w (.insertConn (query w.db req.id))
  | refuse (text : String) (hno : ¬ Accepts w.db req) :
    LoginEffect server conn req rows w .query (w.send conn (.loginRefused text)) .refused
  | insertConn (user : User) :
    LoginEffect server conn req rows w (.insertConn user) (w.insertConn server req.id conn)
      (.subscribe user)
  | subscribe (user : User) :
    LoginEffect server conn req rows w (.subscribe user) (w.subscribe server req.id)
      (.updateStates user)
  | updateStates (user : User) :
    LoginEffect server conn req rows w (.updateStates user) (w.updateStates req.id .online)
      (.sendAck user)
  | sendAck (user : User) :
    LoginEffect server conn req rows w (.sendAck user) (w.send conn (.loginAck user.name))
      .getofflineMessage
  | getofflineMessage (hrows : rows.Perm (offlineRows w.db req.id)) :
    LoginEffect server conn req rows w .getofflineMessage w
      (.sendOffline (getofflineMessage rows))
  | sendOffline (m : Message) (rest : List Message) :
    LoginEffect server conn req rows w (.sendOffline (m :: rest))
      (w.send conn (.offlineMessage { m with toid := req.id })) (.sendOffline rest)

theorem loginStep_effect {server conn : Nat} {req : LoginRequest} {rows : List MessageRow}
    {w w' : ChatWorld} {pc pc' : LoginPc}
    (hstep : loginStep server conn req rows w pc = some (w', pc')) :
    LoginEffect server conn req rows w pc w' pc' := by
  cases pc with
  | query =>
    -- the password is wrong, or the user is online already, or the login goes on
    unfold loginStep at hstep
    dsimp only at hstep
    split at hstep
    · next hright =>
      split at hstep
      · next hstate =>
        obtain ⟨rfl, rfl⟩ := Prod.mk.inj (Option.some.inj hstep)
        exact .accept ⟨hright, hstate⟩
      · next hstate =>
        obtain ⟨rfl, rfl⟩ := Prod.mk.inj (Option.some.inj hstep)
        exact .refuse _ fun hacc => hstate hacc.2
    · next hright =>
      obtain ⟨rfl, rfl⟩ := Prod.mk.inj (Option.some.inj hstep)
      exact .refuse _ fun hacc => hright hacc.1
  | insertConn user =>
    obtain ⟨rfl, rfl⟩ := Prod.mk.inj (Option.some.inj hstep)
    exact .insertConn user
  | subscribe user =>
    obtain ⟨rfl, rfl⟩ := Prod.mk.inj (Option.some.inj hstep)
    exact .subscribe user
  | updateStates user =>
    obtain ⟨rfl, rfl⟩ := Prod.mk.inj (Option.some.inj hstep)
    exact .updateStates user
  | sendAck user =>
    obtain ⟨rfl, rfl⟩ := Prod.mk.inj (Option.some.inj hstep)
    exact .sendAck user
  | getofflineMessage =>
    have hstep : (if rows.Perm (offlineRows w.db req.id) then _ else none) = some (w', pc') :=
      hstep
    split at hstep
    · next hrows =>
      obtain ⟨rfl, rfl⟩ := Prod.mk.inj (Option.some.inj hstep)
      exact .getofflineMessage hrows
    · exact absurd hstep (by simp)
  | sendOffline m =>
    cases m with
    | nil => exact absurd hstep (by simp [loginStep])
    | cons m rest =>
      obtain ⟨rfl, rfl⟩ := Prod.mk.inj (Option.some.inj hstep)
      exact .sendOffline m rest
  | refused => exact absurd hstep (by simp [loginStep])

/-- The loop that sends the messages that waited. -/
theorem sendOffline_steps (server conn : Nat) (req : LoginRequest) (rows : List MessageRow)
    (w : ChatWorld) (m : List Message) :
    Relation.ReflTransGen (fun p q => loginStep server conn req rows p.1 p.2 = some q)
      (w, .sendOffline m)
      (m.foldl (fun w m => w.send conn (.offlineMessage { m with toid := req.id })) w,
        .sendOffline []) := by
  induction m generalizing w with
  | nil => exact .refl
  | cons m rest ih => exact .head (b := (_, .sendOffline rest)) rfl (ih _)

/-- A login that nothing interrupts. -/
theorem login_steps (server conn : Nat) (req : LoginRequest) (rows : List MessageRow)
    (w : ChatWorld) (hrows : rows.Perm (offlineRows w.db req.id)) :
    ∃ pc, (pc = .sendOffline [] ∨ pc = .refused) ∧
      Relation.ReflTransGen
        (fun p q => loginStep server conn req rows p.1 p.2 = some q) (w, .query)
        (login server conn req rows w, pc) := by
  -- the statements before the SELECT leave the message table as it is
  have hfetch (w' : ChatWorld) (hw' : w'.db.message = w.db.message) :
      loginStep server conn req rows w' .getofflineMessage =
        some (w', .sendOffline (getofflineMessage rows)) := by
    refine if_pos ?_
    rw [offlineRows, hw']
    exact hrows
  unfold login
  dsimp only
  split
  · next hright =>
    split
    · next hstate =>
      refine ⟨.sendOffline [], .inl rfl, ?_⟩
      refine .head (b := (w, .insertConn (query w.db req.id))) (by simp [loginStep, *]) ?_
      refine .head (b := (_, .subscribe (query w.db req.id))) rfl ?_
      refine .head (b := (_, .updateStates (query w.db req.id))) rfl ?_
      refine .head (b := (_, .sendAck (query w.db req.id))) rfl ?_
      refine .head (b := (_, .getofflineMessage)) rfl ?_
      refine .head (b := (_, .sendOffline (getofflineMessage rows))) (hfetch _ ?_)
        (sendOffline_steps _ _ _ _ _ _)
      rfl
    · next hstate =>
      refine ⟨.refused, .inr rfl, .single ?_⟩
      simp [loginStep, *]
  · next hright =>
    refine ⟨.refused, .inr rfl, .single ?_⟩
    simp [loginStep, *]

/-! ### How far a login is -/

namespace ChatService.LoginPc

/-- The database has let the login in. -/
def accepted : LoginPc → Bool
  | .query => false
  | .refused => false
  | _ => true

/-- The login has put its connection into the map. -/
def inserted : LoginPc → Bool
  | .insertConn _ => false
  | pc => pc.accepted

/-- The login has subscribed to its user's channel. -/
def subscribed : LoginPc → Bool
  | .subscribe _ => false
  | pc => pc.inserted

/-- The login has set its user's state to online. -/
def updated : LoginPc → Bool
  | .sendAck _ => true
  | .getofflineMessage => true
  | .sendOffline _ => true
  | _ => false

/-- The login has fetched the messages that waited for its user. -/
def fetched : LoginPc → Bool
  | .sendOffline _ => true
  | _ => false

theorem accepted_of_updated {pc : LoginPc} (hpc : pc.updated = true) : pc.accepted = true := by
  cases pc <;> first | rfl | exact absurd hpc Bool.false_ne_true

theorem inserted_of_fetched {pc : LoginPc} (hpc : pc.fetched = true) : pc.inserted = true := by
  cases pc <;> first | rfl | exact absurd hpc Bool.false_ne_true

theorem subscribed_of_fetched {pc : LoginPc} (hpc : pc.fetched = true) :
    pc.subscribed = true := by
  cases pc <;> first | rfl | exact absurd hpc Bool.false_ne_true

theorem updated_of_fetched {pc : LoginPc} (hpc : pc.fetched = true) : pc.updated = true := by
  cases pc <;> first | rfl | exact absurd hpc Bool.false_ne_true

end ChatService.LoginPc

section LoginEffect

variable {server conn : Nat} {req : LoginRequest} {rows : List MessageRow} {w w' : ChatWorld}
  {pc pc' : LoginPc}

theorem LoginEffect.accepted_cases (heff : LoginEffect server conn req rows w pc w' pc')
    (hpc : pc'.accepted = true) : pc.accepted = true ∨ pc = .query ∧ Accepts w.db req := by
  cases heff with
  | accept hacc => exact .inr ⟨rfl, hacc⟩
  | refuse => exact absurd hpc Bool.false_ne_true
  | _ => exact .inl rfl

theorem LoginEffect.accepted_mono (heff : LoginEffect server conn req rows w pc w' pc')
    (hpc : pc.accepted = true) : pc'.accepted = true := by
  cases heff with
  | refuse => exact absurd hpc Bool.false_ne_true
  | _ => rfl

theorem LoginEffect.inserted_cases (heff : LoginEffect server conn req rows w pc w' pc')
    (hpc : pc'.inserted = true) : pc.inserted = true ∨ w' = w.insertConn server req.id conn := by
  cases heff with
  | accept => exact absurd hpc Bool.false_ne_true
  | refuse => exact absurd hpc Bool.false_ne_true
  | insertConn => exact .inr rfl
  | _ => exact .inl rfl

theorem LoginEffect.subscribed_cases (heff : LoginEffect server conn req rows w pc w' pc')
    (hpc : pc'.subscribed = true) : pc.subscribed = true ∨ w' = w.subscribe server req.id := by
  cases heff with
  | accept => exact absurd hpc Bool.false_ne_true
  | refuse => exact absurd hpc Bool.false_ne_true
  | insertConn => exact absurd hpc Bool.false_ne_true
  | subscribe => exact .inr rfl
  | _ => exact .inl rfl

theorem LoginEffect.updated_cases (heff : LoginEffect server conn req rows w pc w' pc')
    (hpc : pc'.updated = true) :
    pc.updated = true ∨ pc.accepted = true ∧ w' = w.updateStates req.id .online := by
  cases heff with
  | updateStates => exact .inr ⟨rfl, rfl⟩
  | sendAck => exact .inl rfl
  | getofflineMessage => exact .inl rfl
  | sendOffline => exact .inl rfl
  | _ => exact absurd hpc Bool.false_ne_true

/-- A login puts nothing but its own connection into a map. -/
theorem LoginEffect.userIdConn_cases (heff : LoginEffect server conn req rows w pc w' pc') :
    w'.userIdConn = w.userIdConn ∨ w' = w.insertConn server req.id conn := by
  cases heff with
  | insertConn => exact .inr rfl
  | _ => exact .inl rfl

theorem LoginEffect.published (heff : LoginEffect server conn req rows w pc w' pc') :
    w'.published = w.published := by
  cases heff with
  | _ => rfl

end LoginEffect

/-! ## A statement of the handler of a message -/

/-- What one statement of `onemessage` does to the world, and which one is next. The row that
    the first one inserts has a new number. -/
inductive MessageEffect (server : Nat) (req : OneMessage) (msgid : Int) (now : Varchar)
    (w : ChatWorld) : MessagePc → ChatWorld → MessagePc → Prop
  | insertMessage {t : Table MessageRow.msgid}
    (hinsert : w.db.message.insert
      { msgid := msgid, fromid := req.fromid, toid := req.toid, content := req.message
        createtime := now, status := 0 } = some t) :
    MessageEffect server req msgid now w .insertMessage
      { w with db := { w.db with message := t } }
      (.lookup { msgid := msgid, fromid := req.fromid, toid := req.toid, content := req.message
                 time := now.read })
  | found {m : Message} {conn : Nat} (hconn : (w.userIdConn server)[req.toid]? = some conn) :
    MessageEffect server req msgid now w (.lookup m) (w.send conn (.oneMessage m)) (.done m)
  | notFound {m : Message} (hconn : (w.userIdConn server)[req.toid]? = none) :
    MessageEffect server req msgid now w (.lookup m) w (.query m)
  | online {m : Message}
    (hon : (query w.db req.toid).id ≠ -1 ∧ (query w.db req.toid).state = .online) :
    MessageEffect server req msgid now w (.query m) w (.publish m)
  | offline {m : Message}
    (hoff : ¬ ((query w.db req.toid).id ≠ -1 ∧ (query w.db req.toid).state = .online)) :
    MessageEffect server req msgid now w (.query m) w (.done m)
  | publish {m : Message} :
    MessageEffect server req msgid now w (.publish m) (w.publish req.toid (.oneMessage m))
      (.done m)

theorem insertMessage_of_fresh {db : Database} {msgid : Int} (now : Varchar)
    (fromid toid : Int) (message : Bytes) (hfresh : db.message.find? msgid = none) :
    ∃ t, db.message.insert
        { msgid := msgid, fromid := fromid, toid := toid, content := message
          createtime := now, status := 0 } = some t ∧
      insertMessage db msgid now fromid toid message =
        ({ db with message := t }, { msgid := msgid, time := now.read }) := by
  cases hinsert : db.message.insert
      { msgid := msgid, fromid := fromid, toid := toid, content := message
        createtime := now, status := 0 } with
  | none =>
    rw [Table.insert_eq_none_iff, hfresh] at hinsert
    exact absurd hinsert (by simp)
  | some t =>
    refine ⟨t, rfl, ?_⟩
    -- the SELECT finds the row that was just inserted, whose time fits the buffer
    have hrow := Table.find?_insert hinsert msgid
    rw [if_pos rfl] at hrow
    unfold insertMessage
    simp only [hinsert, Table.select_key, hrow]
    rw [queryBase_of_fits]
    · rfl
    · intro r hr t ht
      obtain rfl := by simpa using hr
      obtain rfl := by simpa using ht
      exact now.fits

theorem messageStep_effect {server : Nat} {req : OneMessage} {msgid : Int} {now : Varchar}
    {w w' : ChatWorld} {pc pc' : MessagePc}
    (hfresh : pc = .insertMessage → msgid ≠ -1 ∧ w.db.message.find? msgid = none)
    (hstep : messageStep server req msgid now w pc = some (w', pc')) :
    MessageEffect server req msgid now w pc w' pc' := by
  cases pc with
  | insertMessage =>
    obtain ⟨hid, hnone⟩ := hfresh rfl
    -- the branch that returns early is for a failed insert
    obtain ⟨t, hinsert, heq⟩ :=
      insertMessage_of_fresh now req.fromid req.toid req.message hnone
    unfold messageStep at hstep
    simp only [heq, if_neg hid] at hstep
    obtain ⟨rfl, rfl⟩ := Prod.mk.inj (Option.some.inj hstep)
    exact .insertMessage hinsert
  | lookup m =>
    unfold messageStep at hstep
    dsimp only at hstep
    cases hconn : (w.userIdConn server)[req.toid]? with
    | some conn =>
      rw [hconn] at hstep
      obtain ⟨rfl, rfl⟩ := Prod.mk.inj (Option.some.inj hstep)
      exact .found hconn
    | none =>
      rw [hconn] at hstep
      obtain ⟨rfl, rfl⟩ := Prod.mk.inj (Option.some.inj hstep)
      exact .notFound hconn
  | query m =>
    unfold messageStep at hstep
    dsimp only at hstep
    split at hstep
    · next hon =>
      obtain ⟨rfl, rfl⟩ := Prod.mk.inj (Option.some.inj hstep)
      exact .online hon
    · next hoff =>
      obtain ⟨rfl, rfl⟩ := Prod.mk.inj (Option.some.inj hstep)
      exact .offline hoff
  | publish m =>
    obtain ⟨rfl, rfl⟩ := Prod.mk.inj (Option.some.inj hstep)
    exact .publish
  | done m => exact absurd hstep (by simp [messageStep])

theorem MessageEffect.userIdConn {server : Nat} {req : OneMessage} {msgid : Int} {now : Varchar}
    {w w' : ChatWorld} {pc pc' : MessagePc}
    (heff : MessageEffect server req msgid now w pc w' pc') : w'.userIdConn = w.userIdConn := by
  cases heff with
  | _ => rfl

/-- A handler of a message only adds to what Redis has to hand on. -/
theorem MessageEffect.published {server : Nat} {req : OneMessage} {msgid : Int} {now : Varchar}
    {w w' : ChatWorld} {pc pc' : MessagePc}
    (heff : MessageEffect server req msgid now w pc w' pc') {p : Nat × Int × Frame}
    (hp : p ∈ w.published) : p ∈ w'.published := by
  cases heff with
  | publish => exact List.mem_append_left _ hp
  | _ => exact hp

/-! ### What Redis hands to a server -/

theorem redisHandler_published (server : Nat) (channel : Int) (msg : Frame) (w : ChatWorld) :
    (redisHandler server channel msg w).published = w.published := by
  unfold redisHandler
  split <;> rfl

theorem redisHandler_userIdConn (server : Nat) (channel : Int) (msg : Frame) (w : ChatWorld) :
    (redisHandler server channel msg w).userIdConn = w.userIdConn := by
  unfold redisHandler
  split <;> rfl

/-! ## What is never taken back -/

/-- The subscriptions, the users online, the rows and what was sent only become more. -/
structure Grows (w w' : ChatWorld) : Prop where
  subscribed : ∀ p ∈ w.subscribed, p ∈ w'.subscribed
  online : ∀ id, OnlineIn w id → OnlineIn w' id
  user : ∀ id, (w.db.user.find? id).isSome → (w'.db.user.find? id).isSome
  row : ∀ id r, w.db.message.find? id = some r → w'.db.message.find? id = some r
  sent : ∀ p ∈ w.sent, p ∈ w'.sent

theorem grows_refl (w : ChatWorld) : Grows w w :=
  ⟨fun _ hp => hp, fun _ hon => hon, fun _ hsome => hsome, fun _ _ hr => hr, fun _ hp => hp⟩

theorem Grows.trans {w₁ w₂ w₃ : ChatWorld} (h₁ : Grows w₁ w₂) (h₂ : Grows w₂ w₃) :
    Grows w₁ w₃ where
  subscribed p hp := h₂.subscribed p (h₁.subscribed p hp)
  online id hon := h₂.online id (h₁.online id hon)
  user id hsome := h₂.user id (h₁.user id hsome)
  row id r hr := h₂.row id r (h₁.row id r hr)
  sent p hp := h₂.sent p (h₁.sent p hp)

theorem grows_of_eq {w w' : ChatWorld} (hdb : w'.db = w.db)
    (hsubscribed : w'.subscribed = w.subscribed) (hsent : w'.sent = w.sent) : Grows w w' where
  subscribed _ hp := hsubscribed ▸ hp
  online _ hon := by
    unfold OnlineIn
    rw [hdb]
    exact hon
  user _ hsome := hdb ▸ hsome
  row _ _ hr := hdb ▸ hr
  sent _ hp := hsent ▸ hp

theorem grows_send (w : ChatWorld) (conn : Nat) (frame : Frame) : Grows w (w.send conn frame) :=
  { grows_refl w with sent := fun _ hp => List.mem_append_left _ hp }

theorem LoginEffect.grows {server conn : Nat} {req : LoginRequest} {rows : List MessageRow}
    {w w' : ChatWorld} {pc pc' : LoginPc}
    (heff : LoginEffect server conn req rows w pc w' pc') : Grows w w' := by
  cases heff with
  | refuse => exact grows_send _ _ _
  | subscribe => exact { grows_refl w with subscribed := fun _ hp => List.mem_cons_of_mem _ hp }
  | updateStates =>
    exact { grows_refl w with
      online := fun _ hon => hon.updateStates _
      user := fun _ hsome => by
        rw [isSome_updateStates]
        exact hsome }
  | sendAck => exact grows_send _ _ _
  | sendOffline => exact grows_send _ _ _
  | _ => exact grows_of_eq rfl rfl rfl

theorem MessageEffect.grows {server : Nat} {req : OneMessage} {msgid : Int} {now : Varchar}
    {w w' : ChatWorld} {pc pc' : MessagePc}
    (heff : MessageEffect server req msgid now w pc w' pc') : Grows w w' := by
  cases heff with
  | @insertMessage t hinsert =>
    -- the new row has a number that no row had
    refine { grows_refl w with row := fun id r hr => ?_ }
    have hfind := Table.find?_insert hinsert id
    split at hfind
    · next heq =>
      have hnone := Table.find?_of_insert hinsert
      rw [← heq, hr] at hnone
      exact absurd hnone (by simp)
    · exact hfind.trans hr
  | found => exact grows_send _ _ _
  | _ => exact grows_of_eq rfl rfl rfl

theorem redisHandler_grows (server : Nat) (channel : Int) (msg : Frame) (w : ChatWorld) :
    Grows w (redisHandler server channel msg w) := by
  unfold redisHandler
  split
  · exact grows_send _ _ _
  · exact grows_refl w

/-! ## A step of the servers -/

variable {sc : ChatScenario} {s s' : ChatState}

/-- What happens in a step: a statement of a login, a statement of the handler of a message,
    or a text from Redis. -/
inductive ChatEffect (sc : ChatScenario) (s : ChatState) : ChatEvent → ChatState → Prop
  | login {conn : Nat} {rows : List MessageRow} {w : ChatWorld} {pc : LoginPc}
    (heff : LoginEffect (sc.login conn).1 conn (sc.login conn).2 rows s.world (s.logins conn) w
      pc) :
    ChatEffect sc s (.login conn rows)
      { s with world := w, logins := Function.update s.logins conn pc }
  | onemessage {j : Nat} {msgid : Int} {now : Varchar} {w : ChatWorld} {pc : MessagePc}
    (heff : MessageEffect (sc.message j).1 (sc.message j).2 msgid now s.world (s.messages j) w
      pc) :
    ChatEffect sc s (.onemessage j msgid now)
      { s with world := w, messages := Function.update s.messages j pc }
  | redis {k server : Nat} {channel : Int} {msg : Frame}
    (hpub : s.world.published[k]? = some (server, channel, msg)) :
    ChatEffect sc s (.redis k)
      { s with
        world := redisHandler server channel msg
          { s.world with published := s.world.published.eraseIdx k } }

theorem chatStep_effect {e : ChatEvent} (hstep : (chatSystem sc).step s e = some s') :
    ChatEffect sc s e s' := by
  cases e with
  | login conn rows =>
    obtain ⟨⟨w, pc⟩, hlogin, rfl⟩ := Option.map_eq_some_iff.mp hstep
    exact .login (loginStep_effect hlogin)
  | onemessage j msgid now =>
    have hstep : (if s.FreshMsgid j msgid then _ else none) = some s' := hstep
    split at hstep
    · next hfresh =>
      obtain ⟨⟨w, pc⟩, hmessage, rfl⟩ := Option.map_eq_some_iff.mp hstep
      exact .onemessage (messageStep_effect hfresh hmessage)
    · exact absurd hstep (by simp)
  | redis k =>
    obtain ⟨⟨server, channel, msg⟩, hpub, rfl⟩ := Option.map_eq_some_iff.mp hstep
    exact .redis hpub

/-! ### No handler is stuck -/

theorem exists_step_login {conn : Nat} (hrefused : s.logins conn ≠ .refused)
    (hover : s.logins conn ≠ .sendOffline []) :
    ∃ rows s', (chatSystem sc).step s (.login conn rows) = some s' := by
  -- the rows are needed at one place only, where those of the table will do
  let rows := offlineRows s.world.db (sc.login conn).2.id
  have hsome : (loginStep (sc.login conn).1 conn (sc.login conn).2 rows s.world
      (s.logins conn)).isSome := by
    cases hpc : s.logins conn with
    | query =>
      unfold loginStep
      dsimp only
      split
      · split <;> rfl
      · rfl
    | getofflineMessage =>
      unfold loginStep
      rw [if_pos (List.Perm.refl _)]
      rfl
    | sendOffline m =>
      cases m with
      | nil => exact absurd hpc hover
      | cons m rest => rfl
    | refused => exact absurd hpc hrefused
    | _ => rfl
  obtain ⟨r, hr⟩ := Option.isSome_iff_exists.mp hsome
  exact ⟨rows, _, Option.map_eq_some_iff.mpr ⟨r, hr, rfl⟩⟩

theorem exists_step_onemessage {j : Nat} (hdone : ∀ m, s.messages j ≠ .done m) :
    ∃ msgid now s', (chatSystem sc).step s (.onemessage j msgid now) = some s' := by
  obtain ⟨msgid, hmsgid⟩ := Infinite.exists_notMem_finset
    (insert (-1) (s.world.db.message.rows.map MessageRow.msgid).toFinset)
  rw [Finset.mem_insert, not_or, List.mem_toFinset, Table.mem_keys_iff] at hmsgid
  -- the table is finite, so there is a number for the row
  have hfresh : s.FreshMsgid j msgid := fun _ => ⟨hmsgid.1, by simpa using hmsgid.2⟩
  have hsome : (messageStep (sc.message j).1 (sc.message j).2 msgid default s.world
      (s.messages j)).isSome := by
    cases hpc : s.messages j with
    | insertMessage => rfl
    | lookup m =>
      unfold messageStep
      dsimp only
      split <;> rfl
    | query m =>
      unfold messageStep
      dsimp only
      split <;> rfl
    | publish m => rfl
    | done m => exact absurd hpc (hdone m)
  obtain ⟨r, hr⟩ := Option.isSome_iff_exists.mp hsome
  exact ⟨msgid, default, _, (if_pos hfresh).trans (Option.map_eq_some_iff.mpr ⟨r, hr, rfl⟩)⟩

end Chat
