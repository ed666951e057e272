import LearnGit.Native.ChatSystem
import LearnGit.Spec.ChatAccounts

/-!
# Who is shown a message

A connection gets into a connection map through a login that was let in, and it stays there
for its user only. What waits in Redis waits on the channel of its addressee. So whatever the
handlers do next to each other, a message is shown to its addressee only, and it is one that
was sent.

## Key results

- `Guarded.login`, `Guarded.onemessage`, `Guarded.handOn`: what a statement leaves guarded
- `shown_to_addressee`: to whom a message is shown, and where it comes from
-/

namespace Chat

open Transition Interleaving ChatService UserModel

/-- Users are reached through connections with `A`, and what they are shown has `B`. -/
structure Guarded (A : Nat → Int → Prop) (B : Message → Prop) (w : ChatWorld) : Prop where
  entry : ∀ server id conn, (w.userIdConn server)[id]? = some conn → A conn id
  published : ∀ p ∈ w.published, ∀ m, p.2.2.message? = some m → m.toid = p.2.1 ∧ B m
  sent : ∀ p ∈ w.sent, ∀ m, p.2.message? = some m → A p.1 m.toid ∧ B m

namespace Guarded

variable {A A' : Nat → Int → Prop} {B B' : Message → Prop} {w w' : ChatWorld}

theorem mono (hw : Guarded A B w) (hA : ∀ conn id, A conn id → A' conn id)
    (hB : ∀ m, B m → B' m) : Guarded A' B' w where
  entry server id conn hentry := hA _ _ (hw.entry server id conn hentry)
  published p hp m hm := ⟨(hw.published p hp m hm).1, hB m (hw.published p hp m hm).2⟩
  sent p hp m hm := ⟨hA _ _ (hw.sent p hp m hm).1, hB m (hw.sent p hp m hm).2⟩

/-- The database and the subscriptions do not matter. -/
theorem congr (hw : Guarded A B w) (hmap : w'.userIdConn = w.userIdConn)
    (hpublished : w'.published = w.published) (hsent : w'.sent = w.sent) : Guarded A B w' where
  entry := hmap ▸ hw.entry
  published := hpublished ▸ hw.published
  sent := hsent ▸ hw.sent

theorem send (hw : Guarded A B w) {conn : Nat} {frame : Frame}
    (hframe : ∀ m, frame.message? = some m → A conn m.toid ∧ B m) :
    Guarded A B (w.send conn frame) where
  entry := hw.entry
  published := hw.published
  sent p hp := by
    cases List.mem_append.mp hp with
    | inl hold => exact hw.sent p hold
    | inr hnew =>
      rw [List.mem_singleton.mp hnew]
      exact hframe

theorem insertConn (hw : Guarded A B w) {server conn : Nat} {id : Int} (hA : A conn id) :
    Guarded A B (w.insertConn server id conn) where
  entry server' id' conn' hentry := by
    rw [ChatWorld.getElem?_insertConn] at hentry
    split at hentry
    · next heq =>
      obtain rfl := Option.some.inj hentry
      exact heq.2 ▸ hA
    · exact hw.entry server' id' conn' hentry
  published := hw.published
  sent := hw.sent

theorem eraseConn (hw : Guarded A B w) (server : Nat) (id : Int) :
    Guarded A B (w.eraseConn server id) where
  entry server' id' conn' hentry := by
    rw [ChatWorld.getElem?_eraseConn] at hentry
    split at hentry
    · exact absurd hentry (by simp)
    · exact hw.entry server' id' conn' hentry
  published := hw.published
  sent := hw.sent

theorem publish (hw : Guarded A B w) {m : Message} (hB : B m) :
    Guarded A B (w.publish m.toid (.oneMessage m)) where
  entry := hw.entry
  published p hp := by
    cases List.mem_append.mp hp with
    | inl hold => exact hw.published p hold
    | inr hnew =>
      obtain ⟨_, -, rfl⟩ := List.mem_map.mp hnew
      intro m' hm'
      obtain rfl : m = m' := Option.some.inj hm'
      exact ⟨rfl, hB⟩
  sent := hw.sent

theorem closeEntry (hw : Guarded A B w) (server conn : Nat) (order : List Int) :
    Guarded A B (closeEntry server conn order w).1 := by
  unfold ChatService.closeEntry
  split
  · exact (hw.eraseConn _ _).congr rfl rfl rfl
  · exact hw

/-- A statement of a login that was let in if it is past its query. -/
theorem login (hw : Guarded A B w) {server conn : Nat} {req : LoginRequest}
    {rows : List MessageRow} {pc pc' : LoginPc}
    (heff : LoginEffect server conn req rows w pc w' pc') (hA : pc.accepted → A conn req.id)
    (hB : ∀ m ∈ pc.waiting, B { m with toid := req.id }) : Guarded A B w' := by
  -- a refusal and an acknowledgement show no message
  cases heff with
  | accept => exact hw
  | refuse => exact hw.send fun m hm => nomatch hm
  | insertConn => exact hw.insertConn (hA rfl)
  | sendAck => exact hw.send fun m hm => nomatch hm
  | sendOffline m rest =>
    refine hw.send fun m' hm' => ?_
    obtain rfl := Option.some.inj hm'
    exact ⟨hA rfl, hB m List.mem_cons_self⟩
  | _ => exact hw.congr rfl rfl rfl

theorem onemessage (hw : Guarded A B w) {server : Nat} {req : OneMessage} {msgid : Int}
    {now : Varchar} {pc pc' : MessagePc} (heff : MessageEffect server req msgid now w pc w' pc')
    (hpc : ∀ m ∈ pc.message?, m.toid = req.toid ∧ B m) : Guarded A B w' := by
  cases heff with
  | @found m conn hconn =>
    -- the map has the connection for the addressee
    obtain ⟨htoid, hB⟩ := hpc m rfl
    refine hw.send fun m' hm' => ?_
    obtain rfl : m = m' := Option.some.inj hm'
    exact ⟨htoid ▸ hw.entry _ _ _ hconn, hB⟩
  | @publish m =>
    obtain ⟨htoid, hB⟩ := hpc m rfl
    exact htoid ▸ hw.publish hB
  | _ => exact hw.congr rfl rfl rfl

theorem handOn {w w' : ServiceWorld} {k : Nat} (hw : Guarded A B w.chat)
    (hhand : handOn k w = some w') : Guarded A B w'.chat := by
  obtain ⟨⟨server, channel, frame⟩, hp, rfl⟩ := Option.map_eq_some_iff.mp hhand
  have hrest : Guarded A B { w.chat with published := w.chat.published.eraseIdx k } :=
    { hw with published := fun p hp => hw.published p (List.mem_of_mem_eraseIdx hp) }
  show Guarded A B (redisHandler _ _ _ _)
  unfold redisHandler
  split
  · next conn hconn =>
    refine hrest.send fun m hm => ?_
    -- the channel of the text is its addressee
    obtain ⟨htoid, hB⟩ := hw.published _ (List.mem_of_getElem? hp) m hm
    exact ⟨htoid ▸ hw.entry _ _ _ hconn, hB⟩
  · exact hrest

end Guarded

/-! ## Runs -/

/-- A login through a connection was let in. -/
def LetIn (t : List (Choice × ServiceWorld × Task)) (conn : Nat) (req : LoginRequest) : Prop :=
  ∃ c w server, (c, w, Task.login server conn req .query) ∈ t ∧ Accepts w.chat.db req

/-- A message with this text was sent: it is in the database from the start, or a handler has
    inserted it. -/
def Posted (db : Database) (t : List (Choice × ServiceWorld × Task)) (fromid toid : Int)
    (text : Bytes) : Prop :=
  (∃ r ∈ db.message.rows, r.fromid = fromid ∧ r.toid = toid ∧ r.content = text) ∨
    ∃ c w server, (c, w, Task.onemessage server ⟨fromid, toid, text⟩ .insertMessage) ∈ t

/-- A message as it was sent, or cut at the first zero byte. -/
def Written (db : Database) (t : List (Choice × ServiceWorld × Task)) (m : Message) : Prop :=
  ∃ text, Posted db t m.fromid m.toid text ∧ (m.content = text ∨ m.content = columnString text)

/-- What holds at any time of what is shown. -/
structure PrivacyInv (db : Database) (t : List (Choice × ServiceWorld × Task))
    (w : ServiceWorld) : Prop where
  guarded : Guarded (fun conn id => ∃ req, LetIn t conn req ∧ req.id = id) (Written db t) w.chat
  posted : ∀ r ∈ w.chat.db.message.rows, Posted db t r.fromid r.toid r.content

/-- A login past its query was let in, and the messages that are handled were sent. -/
def Entitled (db : Database) (t : List (Choice × ServiceWorld × Task)) : Task → Prop
  | .login _ conn req pc =>
    (pc.accepted → LetIn t conn req) ∧ ∀ m ∈ pc.waiting, Written db t { m with toid := req.id }
  | .onemessage _ req pc => ∀ m ∈ pc.message?, m.toid = req.toid ∧ Written db t m
  | _ => True

section Privacy

variable {db : Database} {t : List (Choice × ServiceWorld × Task)} {c : Choice}
  {w w' : ServiceWorld} {p p' : Task}

theorem LetIn.cons {conn : Nat} {req : LoginRequest} (hlet : LetIn t conn req)
    (x : Choice × ServiceWorld × Task) : LetIn (x :: t) conn req := by
  obtain ⟨c, w, server, hmem, hacc⟩ := hlet
  exact ⟨c, w, server, List.mem_cons_of_mem _ hmem, hacc⟩

theorem Posted.cons {fromid toid : Int} {text : Bytes} (hposted : Posted db t fromid toid text)
    (x : Choice × ServiceWorld × Task) : Posted db (x :: t) fromid toid text := by
  cases hposted with
  | inl hrow => exact .inl hrow
  | inr hins =>
    obtain ⟨c, w, server, hmem⟩ := hins
    exact .inr ⟨c, w, server, List.mem_cons_of_mem _ hmem⟩

theorem Written.cons {m : Message} (hwritten : Written db t m)
    (x : Choice × ServiceWorld × Task) : Written db (x :: t) m := by
  obtain ⟨text, hposted, htext⟩ := hwritten
  exact ⟨text, hposted.cons x, htext⟩

theorem Entitled.cons (hp : Entitled db t p) (x : Choice × ServiceWorld × Task) :
    Entitled db (x :: t) p := by
  cases p with
  | login server conn req pc =>
    exact ⟨fun hacc => (hp.1 hacc).cons x, fun m hm => (hp.2 m hm).cons x⟩
  | onemessage server req pc => exact fun m hm => ⟨(hp m hm).1, (hp m hm).2.cons x⟩
  | _ => trivial

/-- What a login reads in the database was sent to its user. -/
theorem PrivacyInv.written (hinv : PrivacyInv db t w) {rows : List MessageRow} {id : Int}
    (hrows : rows.Perm (offlineRows w.chat.db id)) {m : Message}
    (hm : m ∈ getofflineMessage rows) : Written db t { m with toid := id } := by
  obtain ⟨r, hr, rfl⟩ := List.mem_map.mp hm
  have hr : r ∈ offlineRows w.chat.db id := hrows.mem_iff.mp ((List.takeWhile_sublist _).subset hr)
  obtain ⟨hfind, htoid⟩ := Table.mem_select.mp hr
  have hposted := hinv.posted r (Table.mem_rows_iff.mpr hfind)
  rw [(of_decide_eq_true htoid).1] at hposted
  exact ⟨r.content, hposted, .inr rfl⟩

/-- The rows of the messages after a statement. -/
theorem Statement.posted (hst : Statement c w p w' p')
    (hposted : ∀ r ∈ w.chat.db.message.rows, Posted db t r.fromid r.toid r.content) :
    ∀ r ∈ w'.chat.db.message.rows, Posted db ((c, w, p) :: t) r.fromid r.toid r.content := by
  intro r hr
  cases hst.messageRows with
  | @insert req hp _ hinsert =>
    rw [Table.mem_rows_iff, Table.find?_insert hinsert] at hr
    split at hr
    · obtain rfl := Option.some.inj hr
      obtain ⟨server, rfl⟩ := inserts?_eq_some_iff.mp hp
      exact .inr ⟨c, w, server, List.mem_cons_self⟩
    · exact (hposted r (Table.mem_rows_iff.mpr hr)).cons _
  | @ack messageID _ _ hdb =>
    -- an acknowledged row has a new status only
    rw [hdb] at hr
    obtain ⟨r', hr', rfl⟩ := List.mem_map.mp hr
    have hposted' := (hposted r' hr').cons (c, w, p)
    split <;> exact hposted'
  | same _ _ hmessage =>
    rw [hmessage] at hr
    exact (hposted r hr).cons _

theorem Statement.guarded (hst : Statement c w p w' p') (hinv : PrivacyInv db t w)
    (hp : Entitled db t p) :
    Guarded (fun conn id => ∃ req, LetIn t conn req ∧ req.id = id) (Written db t) w'.chat := by
  have hw := hinv.guarded
  cases hst with
  | login heff => exact hw.login heff (fun hacc => ⟨_, hp.1 hacc, rfl⟩) hp.2
  | onemessage heff => exact hw.onemessage heff hp
  | addfriendRefused => exact hw.send fun m hm => nomatch hm
  | clientColse server conn => exact hw.closeEntry server conn c.order
  | _ => exact hw.congr rfl rfl rfl

/-- A login that goes on was let in, now or before. -/
theorem entitled_login (hinv : PrivacyInv db t w) {server conn : Nat} {req : LoginRequest}
    {pc pc' : LoginPc} {chat : ChatWorld} (hp : Entitled db t (.login server conn req pc))
    (heff : LoginEffect server conn req c.rows w.chat pc chat pc') :
    Entitled db ((c, w, .login server conn req pc) :: t) (.login server conn req pc') := by
  constructor
  · intro hacc
    cases heff.accepted_cases hacc with
    | inl hbefore => exact (hp.1 hbefore).cons _
    | inr hnow =>
      obtain ⟨rfl, hacc⟩ := hnow
      exact ⟨c, w, server, List.mem_cons_self, hacc⟩
  · intro m hm
    cases heff with
    | getofflineMessage hrows => exact (hinv.written hrows hm).cons _
    | sendOffline m' rest => exact (hp.2 m (List.mem_cons_of_mem _ hm)).cons _
    | _ => exact absurd hm List.not_mem_nil

theorem entitled_onemessage {server : Nat} {req : OneMessage} {pc pc' : MessagePc}
    {chat : ChatWorld} (hp : Entitled db t (.onemessage server req pc))
    (heff : MessageEffect server req c.msgid c.now w.chat pc chat pc') :
    Entitled db ((c, w, .onemessage server req pc) :: t) (.onemessage server req pc') := by
  have hold := hp.cons (c, w, .onemessage server req pc)
  cases heff with
  | insertMessage =>
    -- the request itself is what was sent
    intro m hm
    obtain rfl := Option.some.inj hm
    exact ⟨rfl, req.message, .inr ⟨c, w, server, List.mem_cons_self⟩, .inl rfl⟩
  | _ => exact hold

theorem Statement.entitled (hst : Statement c w p w' p') (hinv : PrivacyInv db t w)
    (hp : Entitled db t p) : Entitled db ((c, w, p) :: t) p' := by
  cases hst with
  | login heff => exact entitled_login hinv hp heff
  | onemessage heff => exact entitled_onemessage hp heff
  | @onemessageFailed server req =>
    intro m hm
    obtain rfl := Option.some.inj hm
    exact ⟨rfl, req.message, .inr ⟨c, w, server, List.mem_cons_self⟩, .inl rfl⟩
  | friend _ _ hp' => cases p' <;> trivial
  | _ => trivial

theorem privacy_outline (db : Database) :
    Outline chatProgram (Started db) (PrivacyInv db) fun t _ p => Entitled db t p where
  init w hstart := by
    obtain ⟨rfl, hmap, -, hpublished, hsent, -⟩ := hstart
    refine ⟨⟨fun server id conn hentry => ?_, fun p hp => ?_, fun p hp => ?_⟩, fun r hr => ?_⟩
    · rw [hmap] at hentry
      exact absurd hentry (by simp)
    · rw [hpublished] at hp
      exact absurd hp List.not_mem_nil
    · rw [hsent] at hp
      exact absurd hp List.not_mem_nil
    · exact .inl ⟨r, hr, rfl, rfl, rfl⟩
  task t w r _ := by
    cases r with
    | login => exact ⟨fun hacc => absurd hacc Bool.false_ne_true, fun m hm => nomatch hm⟩
    | onemessage => exact fun m hm => nomatch hm
    | _ => trivial
  next t c w p w' p' hinv hp hnext := by
    have hst := next_statement hnext
    refine ⟨⟨?_, hst.posted hinv.posted⟩, hst.entitled hinv hp⟩
    exact (hst.guarded hinv hp).mono (fun _ _ ⟨req, hlet, hid⟩ => ⟨req, hlet.cons _, hid⟩)
      fun _ hwritten => hwritten.cons _
  outside t k w w' hinv hhand := by
    obtain ⟨hdb, -⟩ := handOn_db hhand
    exact ⟨hinv.guarded.handOn hhand, hdb ▸ hinv.posted⟩
  stable_next t c w p w' p' q _ _ _ hq := hq.cons _
  stable_outside t k w w' q _ _ hq := hq

/-- The password with which a login was let in. -/
theorem LetIn.registered {h : List (State ServiceWorld Task × Event Call Choice Nat)}
    {s : State ServiceWorld Task} (hrun : Run (chatServers db) h s) {conn : Nat}
    {req : LoginRequest} (hlet : LetIn (statements h) conn req) :
    ∃ name pwd, RegisteredAs db (statements h) req.id name pwd ∧ req.password = pwd.read := by
  obtain ⟨c, w, server, hmem, hacc⟩ := hlet
  obtain ⟨t₁, t₂, hsplit⟩ := List.append_of_mem hmem
  -- the query saw the accounts of that time
  obtain ⟨h', u, hrun', htail, rfl, -⟩ := exists_run_before hrun hsplit
  obtain ⟨-, name, pwd, haccount, hpwd⟩ := passwordRight_query_iff.mp hacc.1
  have hreg := (((accounts_outline db).holds_of_run hrun').1.registered _ _ _).mp haccount
  rw [htail] at hreg
  refine ⟨name, pwd, hreg.mono fun x hx => ?_, hpwd⟩
  rw [hsplit]
  exact List.mem_append_right _ (List.mem_cons_of_mem _ hx)

/-- Whatever the handlers do next to each other: a message is shown to a connection only if a
    login through that connection was let in as the addressee, with the password that the
    addressee was registered with. And a request has sent it, with the sender that it names,
    whom the server does not check, and with the text that is shown or one that goes on with a
    zero byte. -/
theorem shown_to_addressee {h : List (State ServiceWorld Task × Event Call Choice Nat)}
    {s : State ServiceWorld Task} (hrun : Run (chatServers db) h s) {conn : Nat} {frame : Frame}
    {m : Message} (hsent : (conn, frame) ∈ s.world.chat.sent) (hm : frame.message? = some m) :
    (∃ req name pwd, LetIn (statements h) conn req ∧ req.id = m.toid ∧
      RegisteredAs db (statements h) m.toid name pwd ∧ req.password = pwd.read) ∧
    ∃ text, Posted db (statements h) m.fromid m.toid text ∧
      (m.content = text ∨ m.content = columnString text) := by
  have hinv : PrivacyInv db (statements h) s.world :=
    ((privacy_outline db).holds_of_run hrun).1
  obtain ⟨⟨req, hlet, hid⟩, hwritten⟩ := hinv.guarded.sent _ hsent m hm
  obtain ⟨name, pwd, hreg, hpwd⟩ := hlet.registered hrun
  exact ⟨⟨req, name, pwd, hlet, hid, hid ▸ hreg, hpwd⟩, hwritten⟩

end Privacy

/-- User 2 logs in on server 1, and a message to user 2 that reaches server 0 goes through
    Redis. -/
def acrossServers : List (Event Call Choice Nat) :=
  [.call (.login 1 7 ⟨2, [0x70]⟩), .call (.onemessage 0 ⟨1, 2, [0x68]⟩), .next 0 {},
    .next 0 {}, .next 0 {}, .next 0 {}, .next 1 { msgid := 5 }, .next 1 {}, .next 1 {},
    .next 1 {}, .outside 0]

theorem acrossServers_runs : (serversSchedule twoUsers acrossServers).isSome := by
  decide +kernel

theorem shown_to_addressee_acrossServers :
    ∃ req name pwd,
      LetIn (statements ((serversSchedule twoUsers acrossServers).get acrossServers_runs).1) 7
        req ∧ req.id = 2 ∧
      RegisteredAs twoUsers
        (statements ((serversSchedule twoUsers acrossServers).get acrossServers_runs).1) 2 name
        pwd ∧ req.password = pwd.read := by
  have hsent : (7, Frame.oneMessage
      { msgid := 5, fromid := 1, toid := 2, content := [0x68], time := [] }) ∈
        ((serversSchedule twoUsers acrossServers).get acrossServers_runs).2.world.chat.sent := by
    decide +kernel
  exact (shown_to_addressee (serversSchedule_run acrossServers_runs) hsent rfl).1

end Chat
