import LearnGit.Native.ChatSystem
import LearnGit.Spec.ChatTaskSteps

/-!
# Messages that wait

The rows of status 0 are a mailbox for each user. A message is put in when its handler inserts
it and it is taken out by an acknowledgement of its number only. A login reads what waits for
its user and sends what it has read.

## Key results

- `Waits`: which messages wait after the statements so far
- `MailboxInv.next`: what waits after one more statement
- `mailbox`: what waits at any time, what a login reads, and what the logins have sent
-/

namespace Chat

open Transition Interleaving ChatService UserModel

/-- The statement puts a row into the mailbox of its addressee. -/
def Puts (x : Choice × ServiceWorld × Task) (r : MessageRow) : Prop :=
  x.2.1.chat.db.message.find? x.1.msgid = none ∧
    ∃ req, x.2.2.inserts? = some req ∧ r = req.row x.1.msgid x.1.now

/-- A message waits: it was put in, or it was there from the start, and it has not been
    acknowledged since. -/
def Waits (db : Database) : List (Choice × ServiceWorld × Task) → MessageRow → Prop
  | [], r => db.message.find? r.msgid = some r ∧ r.status = 0
  | x :: t, r => Puts x r ∨ Waits db t r ∧ x.2.2.acks? ≠ some r.msgid

/-- The rows of status 0 are what waits. -/
def MailboxInv (db : Database) (t : List (Choice × ServiceWorld × Task)) (w : ServiceWorld) :
    Prop :=
  ∀ r, (w.chat.db.message.find? r.msgid = some r ∧ r.status = 0) ↔ Waits db t r

/-! ## What waits -/

section Waiting

variable {db : Database} {t : List (Choice × ServiceWorld × Task)} {c : Choice}
  {w w' : ServiceWorld} {p p' : Task}

theorem MailboxInv.insert (hinv : MailboxInv db t w) {req : OneMessage}
    (hp : p.inserts? = some req) (hack : p.acks? = none)
    (hinsert : w.chat.db.message.insert (req.row c.msgid c.now) = some w'.chat.db.message) :
    MailboxInv db ((c, w, p) :: t) w' := by
  intro r
  have hfresh : w.chat.db.message.find? c.msgid = none := Table.find?_of_insert hinsert
  have hputs : Puts (c, w, p) r ↔ r = req.row c.msgid c.now := by
    simp [Puts, hp, hfresh]
  have hfind : w'.chat.db.message.find? r.msgid = if r.msgid = c.msgid then
      some (req.row c.msgid c.now) else w.chat.db.message.find? r.msgid :=
    Table.find?_insert hinsert r.msgid
  rw [Waits, hputs, ← hinv r, hack, hfind]
  by_cases hid : r.msgid = c.msgid
  · -- the number is new, so no other row has it
    have hnone : w.chat.db.message.find? r.msgid = none := hid ▸ hfresh
    rw [if_pos hid, hnone]
    simp only [Option.some.injEq, reduceCtorEq, false_and, or_false]
    constructor
    · exact fun hrow => hrow.1.symm
    · rintro rfl
      exact ⟨rfl, rfl⟩
  · rw [if_neg hid]
    have hne : r ≠ req.row c.msgid c.now := fun heq => hid (heq ▸ rfl)
    simp [hne]

theorem MailboxInv.ack (hinv : MailboxInv db t w) {messageID : Int}
    (hp : p.acks? = some messageID) (hins : p.inserts? = none)
    (hdb : w'.chat.db = updateMesStatus w.chat.db messageID) :
    MailboxInv db ((c, w, p) :: t) w' := by
  intro r
  have hputs : ¬ Puts (c, w, p) r := by simp [Puts, hins]
  have hfind : w'.chat.db.message.find? r.msgid = if r.msgid = messageID then
      (w.chat.db.message.find? r.msgid).map fun r => { r with status := 1 }
      else w.chat.db.message.find? r.msgid := by
    rw [hdb]
    exact Table.find?_update (f := fun r : MessageRow => { r with status := 1 })
      (fun _ => rfl) r.msgid
  rw [Waits, or_iff_right hputs, ← hinv r, hp, hfind]
  by_cases hid : r.msgid = messageID
  · -- its status is 1 now
    rw [if_pos hid]
    refine iff_of_false ?_ fun hwaits => hwaits.2 (congrArg some hid.symm)
    rintro ⟨hrow, hstatus⟩
    obtain ⟨r', -, rfl⟩ := Option.map_eq_some_iff.mp hrow
    exact absurd hstatus (by simp)
  · rw [if_neg hid]
    simp [Ne.symm hid]

theorem MailboxInv.same (hinv : MailboxInv db t w) (hack : p.acks? = none)
    (hins : ∀ req, p.inserts? = some req → (w.chat.db.message.find? c.msgid).isSome)
    (hmessage : w'.chat.db.message = w.chat.db.message) :
    MailboxInv db ((c, w, p) :: t) w' := by
  intro r
  have hputs : ¬ Puts (c, w, p) r := by
    rintro ⟨hfresh, req, hp, -⟩
    have htaken := hins req hp
    rw [hfresh] at htaken
    exact absurd htaken (by simp)
  rw [Waits, or_iff_right hputs, ← hinv r, hack, hmessage]
  simp

theorem MailboxInv.next (hinv : MailboxInv db t w) (hst : Statement c w p w' p') :
    MailboxInv db ((c, w, p) :: t) w' := by
  cases hst.messageRows with
  | insert hp hack hinsert => exact hinv.insert hp hack hinsert
  | ack hp hins hdb => exact hinv.ack hp hins hdb
  | same hack hins hmessage => exact hinv.same hack hins hmessage

theorem MailboxInv.mem_offlineRows (hinv : MailboxInv db t w) {id : Int} {r : MessageRow} :
    r ∈ offlineRows w.chat.db id ↔ Waits db t r ∧ r.toid = id := by
  unfold offlineRows
  rw [Table.mem_select, ← hinv r, decide_eq_true_eq, and_assoc]
  exact and_congr_right fun _ => and_comm

/-! ## What was sent -/

/-- A message from a mailbox. -/
def Frame.offline? : Frame → Option Message
  | .offlineMessage m => some m
  | _ => none

/-- What was sent from the mailboxes. -/
def sentOffline (w : ServiceWorld) : Multiset (Nat × Message) :=
  ↑(w.chat.sent.filterMap fun p => p.2.offline?.map fun m => (p.1, m))

/-- What a login has to send of the messages that it has read. -/
def toSend (conn : Nat) (req : LoginRequest) (m : List Message) : Multiset (Nat × Message) :=
  ↑(m.map fun m => (conn, { m with toid := req.id }))

/-- What a handler has still to send. -/
def unsent : Task → Multiset (Nat × Message)
  | .login _ conn req pc => toSend conn req pc.waiting
  | _ => 0

/-- What a statement reads in a mailbox. -/
def fetched : Choice × ServiceWorld × Task → Multiset (Nat × Message)
  | (c, _, .login _ conn req .getofflineMessage) =>
    toSend conn req (getofflineMessage c.rows)
  | _ => 0

/-- Redis has nothing from the mailboxes. -/
def LivePublished (w : ServiceWorld) : Prop := ∀ p ∈ w.chat.published, p.2.2.offline? = none

theorem unsent_of_ofFriends (hp : p.ofFriends) : unsent p = 0 := by
  cases p <;> trivial

theorem fetched_of_ofFriends (hp : p.ofFriends) : fetched (c, w, p) = 0 := by
  cases p <;> trivial

theorem fetched_of_ne {server conn : Nat} {req : LoginRequest} {pc : LoginPc}
    (hpc : pc ≠ .getofflineMessage) : fetched (c, w, .login server conn req pc) = 0 := by
  cases pc with
  | getofflineMessage => exact absurd rfl hpc
  | _ => rfl

/-- What is sent through a connection is from a mailbox or not. -/
theorem sentOffline_send (conn : Nat) (frame : Frame) :
    sentOffline (w.setChat (w.chat.send conn frame)) =
      sentOffline w + ↑(frame.offline?.toList.map fun m => (conn, m)) := by
  unfold sentOffline
  rw [Multiset.coe_add]
  congr 1
  show (w.chat.sent ++ [(conn, frame)]).filterMap _ = _
  rw [List.filterMap_append]
  cases frame <;> rfl

theorem sentOffline_send_of_none (conn : Nat) {frame : Frame} (hframe : frame.offline? = none) :
    sentOffline (w.setChat (w.chat.send conn frame)) = sentOffline w := by
  rw [sentOffline_send, hframe]
  exact add_zero _

theorem sentOffline_login {server conn : Nat} {req : LoginRequest} {pc pc' : LoginPc}
    {chat : ChatWorld} (heff : LoginEffect server conn req c.rows w.chat pc chat pc') :
    sentOffline (w.setChat chat) + toSend conn req pc'.waiting =
      fetched (c, w, .login server conn req pc) +
        (sentOffline w + toSend conn req pc.waiting) := by
  cases heff with
  | refuse =>
    rw [sentOffline_send_of_none conn rfl, fetched_of_ne (by simp), zero_add]
    rfl
  | sendAck =>
    rw [sentOffline_send_of_none conn rfl, fetched_of_ne (by simp), zero_add]
    rfl
  | getofflineMessage =>
    -- what was read is still to be sent
    show sentOffline w + _ = fetched _ + (sentOffline w + 0)
    rw [add_zero, add_comm]
    rfl
  | sendOffline m rest =>
    rw [sentOffline_send, fetched_of_ne (by simp), zero_add, add_assoc]
    rfl
  | _ =>
    rw [fetched_of_ne (by simp), zero_add]
    rfl

theorem sentOffline_onemessage {server : Nat} {req : OneMessage} {pc pc' : MessagePc}
    {chat : ChatWorld} (heff : MessageEffect server req c.msgid c.now w.chat pc chat pc') :
    sentOffline (w.setChat chat) = sentOffline w := by
  cases heff with
  | found => exact sentOffline_send_of_none _ rfl
  | _ => rfl

theorem closeEntry_sent (server conn : Nat) (order : List Int) (w : ChatWorld) :
    (closeEntry server conn order w).1.sent = w.sent := by
  unfold closeEntry
  split <;> rfl

theorem Statement.sentOffline (hst : Statement c w p w' p') :
    sentOffline w' + unsent p' = fetched (c, w, p) + (sentOffline w + unsent p) := by
  cases hst with
  | login heff => exact sentOffline_login heff
  | onemessage heff =>
    show Chat.sentOffline _ + 0 = 0 + _
    rw [sentOffline_onemessage heff, zero_add]
    rfl
  | friend t hp hp' =>
    rw [unsent_of_ofFriends hp, unsent_of_ofFriends hp', fetched_of_ofFriends hp, zero_add]
    rfl
  | addfriendRefused conn text =>
    show Chat.sentOffline _ + 0 = 0 + _
    rw [sentOffline_send_of_none conn rfl, zero_add]
    rfl
  | list hp =>
    rw [unsent_of_ofFriends hp, fetched_of_ofFriends hp, zero_add]
    rfl
  | clientColse server conn =>
    show Chat.sentOffline _ + 0 = 0 + _
    have hsent : Chat.sentOffline (w.setChat (closeEntry server conn c.order w.chat).1) =
        Chat.sentOffline w := by
      unfold Chat.sentOffline
      rw [ServiceWorld.setChat_chat, closeEntry_sent]
    rw [hsent, zero_add]
    rfl
  | _ => exact (zero_add _).symm

/-! ## What waits in Redis -/

theorem LoginEffect.livePublished {server conn : Nat} {req : LoginRequest}
    {rows : List MessageRow} {w w' : ChatWorld} {pc pc' : LoginPc}
    (heff : LoginEffect server conn req rows w pc w' pc')
    (hw : ∀ p ∈ w.published, p.2.2.offline? = none) :
    ∀ p ∈ w'.published, p.2.2.offline? = none := by
  rw [heff.published]
  exact hw

theorem MessageEffect.livePublished {server : Nat} {req : OneMessage} {msgid : Int}
    {now : Varchar} {w w' : ChatWorld} {pc pc' : MessagePc}
    (heff : MessageEffect server req msgid now w pc w' pc')
    (hw : ∀ p ∈ w.published, p.2.2.offline? = none) :
    ∀ p ∈ w'.published, p.2.2.offline? = none := by
  cases heff with
  | publish =>
    intro p hp
    cases List.mem_append.mp hp with
    | inl hold => exact hw p hold
    | inr hnew =>
      obtain ⟨_, -, rfl⟩ := List.mem_map.mp hnew
      rfl
  | _ => exact hw

theorem Statement.livePublished (hst : Statement c w p w' p') (hw : LivePublished w) :
    LivePublished w' := by
  cases hst with
  | login heff => exact heff.livePublished hw
  | onemessage heff => exact heff.livePublished hw
  | clientColse server conn =>
    show ∀ p ∈ (closeEntry server conn c.order w.chat).1.published, _
    unfold closeEntry
    split <;> exact hw
  | _ => exact hw

theorem LivePublished.handOn {k : Nat} (hw : LivePublished w) (hhand : handOn k w = some w') :
    LivePublished w' ∧ sentOffline w' = sentOffline w := by
  obtain ⟨⟨server, channel, frame⟩, hp, rfl⟩ := Option.map_eq_some_iff.mp hhand
  have hframe : frame.offline? = none := hw _ (List.mem_of_getElem? hp)
  constructor
  · intro p hp
    rw [ServiceWorld.setChat_chat, redisHandler_published] at hp
    exact hw p (List.mem_of_mem_eraseIdx hp)
  · dsimp only
    unfold redisHandler
    split
    · exact sentOffline_send_of_none
        (w := w.setChat { w.chat with published := w.chat.published.eraseIdx k }) _ hframe
    · rfl

/-! ## Runs -/

theorem mailbox_outline (db : Database) :
    Outline chatProgram (Started db) (fun t w => MailboxInv db t w ∧ LivePublished w)
      fun _ _ _ => True where
  init w hstart := by
    obtain ⟨rfl, -, -, hpublished, -⟩ := hstart
    refine ⟨fun r => Iff.rfl, fun p hp => ?_⟩
    rw [hpublished] at hp
    exact absurd hp List.not_mem_nil
  task _ _ _ _ := trivial
  next t c w p w' p' hinv _ hnext := by
    have hst := next_statement hnext
    exact ⟨⟨hinv.1.next hst, hst.livePublished hinv.2⟩, trivial⟩
  outside t k w w' hinv hhand := by
    refine ⟨fun r => ?_, (hinv.2.handOn hhand).1⟩
    rw [(handOn_db hhand).1]
    exact hinv.1 r
  stable_next _ _ _ _ _ _ _ _ _ _ _ := trivial
  stable_outside _ _ _ _ _ _ _ _ := trivial

section Runs

variable {h : List (State ServiceWorld Task × Event Call Choice Nat)}
  {s : State ServiceWorld Task}

/-- What a login reads is what waits for its user at that moment, each message once. -/
theorem rows_of_run (hrun : Run (chatServers db) h s)
    {t₁ t₂ : List (Choice × ServiceWorld × Task)} {server conn : Nat} {req : LoginRequest}
    (hsplit : statements h = t₁ ++ (c, w, .login server conn req .getofflineMessage) :: t₂) :
    (c.rows.map MessageRow.msgid).Nodup ∧
      ∀ r, r ∈ c.rows ↔ Waits db t₂ r ∧ r.toid = req.id := by
  obtain ⟨h', u, hrun', htail, rfl, -, q, hnext⟩ := exists_run_before hrun hsplit
  have hinv := ((mailbox_outline db).holds_of_run hrun').1.1
  rw [htail] at hinv
  obtain ⟨⟨chat, pc'⟩, hstep, -⟩ := Option.map_eq_some_iff.mp hnext
  cases loginStep_effect hstep with
  | getofflineMessage hrows =>
    -- the SELECT sends the rows of the table in any order
    refine ⟨?_, fun r => ?_⟩
    · exact (hrows.map MessageRow.msgid).nodup_iff.mpr (Table.nodup_select _ _)
    · rw [hrows.mem_iff]
      exact hinv.mem_offlineRows

theorem sentOffline_of_run (hrun : Run (chatServers db) h s) :
    sentOffline s.world + (s.tasks.map unsent).sum = ((statements h).map fetched).sum := by
  refine balance_of_run (J := LivePublished) (f := sentOffline) hrun ?_ ?_ ?_ ?_ ?_
  · intro u hu
    obtain ⟨h', hrun', -⟩ := hrun.of_visited hu
    exact ((mailbox_outline db).holds_of_run hrun').1.2
  · intro w hstart
    simp [sentOffline, hstart.2.2.2.2.1]
  · intro r
    cases r <;> rfl
  · exact fun c w p w' p' _ hnext => (next_statement hnext).sentOffline
  · exact fun k w w' hw hhand => (hw.handOn hhand).2

/-- Whatever the handlers do next to each other: the messages that wait for a user are those
    that were put in for the user and not acknowledged since. A login reads just these, each
    once, and what the logins have sent, together with what they have still to send, is what
    the fetch loop has read of these, once for each login. -/
theorem mailbox (hrun : Run (chatServers db) h s) :
    (∀ id r, r ∈ offlineRows s.world.chat.db id ↔ Waits db (statements h) r ∧ r.toid = id) ∧
    (∀ t₁ c w server conn req t₂,
      statements h = t₁ ++ (c, w, .login server conn req .getofflineMessage) :: t₂ →
      (c.rows.map MessageRow.msgid).Nodup ∧
        ∀ r, r ∈ c.rows ↔ Waits db t₂ r ∧ r.toid = req.id) ∧
    sentOffline s.world + (s.tasks.map unsent).sum = ((statements h).map fetched).sum := by
  have hinv := ((mailbox_outline db).holds_of_run hrun).1.1
  exact ⟨fun id r => hinv.mem_offlineRows, fun _ _ _ _ _ _ _ hsplit => rows_of_run hrun hsplit,
    sentOffline_of_run hrun⟩

end Runs

end Waiting

/-- A message to user 2 waits until user 2 logs in, and is acknowledged then. -/
def readLater : List (Event Call Choice Nat) :=
  [.call (.onemessage 0 ⟨1, 2, [0x68]⟩), .next 0 { msgid := 5 }, .next 0 {}, .next 0 {},
    .call (.login 1 7 ⟨2, [0x70]⟩), .next 1 {}, .next 1 {}, .next 1 {}, .next 1 {}, .next 1 {},
    .next 1 { rows := [OneMessage.row ⟨1, 2, [0x68]⟩ 5 default] }, .next 1 {},
    .call (.ackMessage 5), .next 2 {}]

theorem readLater_runs : (serversSchedule twoUsers readLater).isSome := by decide +kernel

/-- The message was sent once, and nothing waits after the acknowledgement. -/
theorem mailbox_readLater :
    (∀ r, Waits twoUsers
      (statements ((serversSchedule twoUsers readLater).get readLater_runs).1) r → r.toid ≠ 2) ∧
    sentOffline ((serversSchedule twoUsers readLater).get readLater_runs).2.world =
      {(7, { msgid := 5, fromid := 1, toid := 2, content := [0x68], time := [] })} := by
  obtain ⟨hwaits, -, hsent⟩ := mailbox (serversSchedule_run readLater_runs)
  have hunsent : (((serversSchedule twoUsers readLater).get readLater_runs).2.tasks.map
      unsent).sum = 0 := by decide +kernel
  have hfetched : ((statements ((serversSchedule twoUsers readLater).get readLater_runs).1).map
      fetched).sum =
        {(7, { msgid := 5, fromid := 1, toid := 2, content := [0x68], time := [] })} := by
    decide +kernel
  rw [hunsent, add_zero, hfetched] at hsent
  refine ⟨fun r hr htoid => ?_, hsent⟩
  have hmem := (hwaits 2 r).mpr ⟨hr, htoid⟩
  have hnone : offlineRows
      ((serversSchedule twoUsers readLater).get readLater_runs).2.world.chat.db 2 = [] := by
    decide +kernel
  rw [hnone] at hmem
  exact absurd hmem List.not_mem_nil

end Chat
