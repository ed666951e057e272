import LearnGit.Native.ChatTasks
import LearnGit.Spec.ChatSteps

/-!
# Statements of all handlers

What one statement of a handler of the chat server does to what the handlers share.

## Key results

- `next_statement`: what a statement can do
- `Statement.accounts`: which accounts there are after a statement, and with which texts
- `Statement.messageRows`: which messages the database has after a statement
-/

namespace Chat

open Interleaving ChatService UserModel

namespace ChatService

/-- The handlers that have to do with friends only. -/
def Task.ofFriends : Task → Bool
  | .addfriend _ _ => true
  | .addfriendRefused _ => true
  | .agreefiend _ => true
  | .agreefiendBack _ => true
  | .refusefriend _ => true
  | .getaddlist _ _ => true
  | .getfriendlist _ _ => true
  | .done => true
  | _ => false

/-- The messages that a login has fetched and not yet sent. -/
def LoginPc.waiting : LoginPc → List Message
  | .sendOffline m => m
  | _ => []

/-- The id that an answer gives to a new user. -/
def Answer.ackId? : Answer → Option Int
  | .refAck id => some id
  | _ => none

end ChatService

/-- What a statement does to the world, and where its handler is afterwards. -/
inductive Statement (c : Choice) (w : ServiceWorld) : Task → ServiceWorld → Task → Prop
  | login {server conn : Nat} {req : LoginRequest} {pc pc' : LoginPc} {w' : ChatWorld}
    (heff : LoginEffect server conn req c.rows w.chat pc w' pc') :
    Statement c w (.login server conn req pc) (w.setChat w') (.login server conn req pc')
  | ref {conn : Nat} {req : RefRequest} {row : UserRow} {t : Table UserRow.id}
    (huser : c.user = some row) (hnew : NewUser w.chat.db req row)
    (hinsert : w.chat.db.user.insert row = some t) :
    Statement c w (.ref conn req) (w.setDb { w.chat.db with user := t })
      (.respond conn [.refAck row.id])
  | refFailed {conn : Nat} {req : RefRequest} (huser : c.user = none) :
    Statement c w (.ref conn req) w (.respond conn [refAnswer none])
  | onemessage {server : Nat} {req : OneMessage} {pc pc' : MessagePc} {w' : ChatWorld}
    (heff : MessageEffect server req c.msgid c.now w.chat pc w' pc') :
    Statement c w (.onemessage server req pc) (w.setChat w') (.onemessage server req pc')
  | onemessageFailed {server : Nat} {req : OneMessage} (time : Bytes)
    (htaken : (w.chat.db.message.find? c.msgid).isSome) :
    Statement c w (.onemessage server req .insertMessage) w
      (.onemessage server req (.lookup (req.sent { msgid := 0, time := time })))
  | ackMessage (messageID : Int) :
    Statement c w (.ackMessage messageID) (w.setDb (updateMesStatus w.chat.db messageID)) .done
  | friend {p p' : Task} (t : Table FriendRow.key) (hp : p.ofFriends) (hp' : p'.ofFriends) :
    Statement c w p (w.setDb { w.chat.db with friend := t }) p'
  | addfriendRefused (conn : Nat) (text : String) :
    Statement c w (.addfriendRefused conn)
      (w.setChat (w.chat.send conn (.addFriendRefused text))) .done
  | list {p : Task} {conn : Nat} {answers : List Answer} (hp : p.ofFriends)
    (hanswers : answers.filterMap Answer.ackId? = []) :
    Statement c w p w (.respond conn answers)
  | respond (conn : Nat) (a : Answer) (rest : List Answer) :
    Statement c w (.respond conn (a :: rest)) (w.answer conn a) (.respond conn rest)
  | clientColse (server conn : Nat) :
    Statement c w (.clientColse server conn) (w.setChat (closeEntry server conn c.order w.chat).1)
      (.updateStates (closeEntry server conn c.order w.chat).2)
  | updateStates (id : Int) :
    Statement c w (.updateStates id) (w.setChat (w.chat.updateStates id .offline)) .done

/-! ## The cases -/

section Cases

variable {c : Choice} {w w' : ServiceWorld}

theorem ref_statement {conn : Nat} {req : RefRequest} {p' : Task}
    (hnext : Task.next c w (.ref conn req) = some (w', p')) :
    Statement c w (.ref conn req) w' p' := by
  simp only [Task.next] at hnext
  split at hnext
  · next hnew =>
    obtain ⟨rfl, rfl⟩ := Prod.mk.inj (Option.some.inj hnext)
    cases huser : c.user with
    | none => exact .refFailed huser
    | some row =>
      have hrow : NewUser w.chat.db req row := hnew row huser
      cases hinsert : w.chat.db.user.insert row with
      | none =>
        -- the id is new
        rw [Table.insert_eq_none_iff, hrow.2.2.2] at hinsert
        exact absurd hinsert (by simp)
      | some t =>
        simp only [UserModel.insert, Option.bind_some, hinsert, Option.map_some]
        exact .ref huser hrow hinsert
  · exact absurd hnext (by simp)

theorem onemessage_statement {server : Nat} {req : OneMessage} {pc : MessagePc} {p' : Task}
    (hnext : Task.next c w (.onemessage server req pc) = some (w', p')) :
    Statement c w (.onemessage server req pc) w' p' := by
  simp only [Task.next] at hnext
  split at hnext
  · exact absurd hnext (by simp)
  · next hid =>
    obtain ⟨⟨chat, pc'⟩, hstep, heq⟩ := Option.map_eq_some_iff.mp hnext
    obtain ⟨rfl, rfl⟩ := Prod.mk.inj heq
    by_cases hfresh : pc = .insertMessage → w.chat.db.message.find? c.msgid = none
    · exact .onemessage (messageStep_effect (fun hpc => ⟨hid, hfresh hpc⟩) hstep)
    · -- the INSERT fails, and the message goes on with the number 0
      obtain ⟨rfl, htaken⟩ := Classical.not_imp.mp hfresh
      have htaken : (w.chat.db.message.find? c.msgid).isSome := Option.isSome_iff_ne_none.mpr htaken
      have hnone : w.chat.db.message.insert
          { msgid := c.msgid, fromid := req.fromid, toid := req.toid, content := req.message
            createtime := c.now, status := 0 } = none := Table.insert_eq_none_iff.mpr htaken
      simp only [messageStep, insertMessage, hnone, Option.some.injEq, Prod.mk.injEq] at hstep
      obtain ⟨rfl, rfl⟩ := hstep
      exact .onemessageFailed _ htaken

theorem list_statement {p : Task} {conn : Nat} {l : List FriendApply} {f : FriendApply → Answer}
    (hp : p.ofFriends) (hf : ∀ a, (f a).ackId? = none) :
    Statement c w p w (.respond conn (l.map f)) := by
  refine .list hp ?_
  rw [List.filterMap_map, List.filterMap_eq_nil_iff]
  exact fun a _ => hf a

/-- What a statement can do. -/
theorem next_statement {p p' : Task} (hnext : Task.next c w p = some (w', p')) :
    Statement c w p w' p' := by
  cases p with
  | login server conn req pc =>
    obtain ⟨⟨chat, pc'⟩, hstep, heq⟩ := Option.map_eq_some_iff.mp hnext
    obtain ⟨rfl, rfl⟩ := Prod.mk.inj heq
    exact .login (loginStep_effect hstep)
  | ref conn req => exact ref_statement hnext
  | onemessage server req pc => exact onemessage_statement hnext
  | ackMessage messageID =>
    obtain ⟨rfl, rfl⟩ := Prod.mk.inj (Option.some.inj hnext)
    exact .ackMessage messageID
  | addfriend conn req =>
    obtain ⟨rfl, rfl⟩ := Prod.mk.inj (Option.some.inj hnext)
    unfold applyFriend
    -- an application that is there already leaves the table as it is
    cases w.chat.db.friend.insert
        { userId := req.user_id, friendId := req.friend_id, status := 0, addTime := c.now } with
    | none => exact .friend w.chat.db.friend rfl rfl
    | some t => exact .friend t rfl rfl
  | addfriendRefused conn =>
    obtain ⟨rfl, rfl⟩ := Prod.mk.inj (Option.some.inj hnext)
    exact .addfriendRefused conn _
  | agreefiend req =>
    obtain ⟨rfl, rfl⟩ := Prod.mk.inj (Option.some.inj hnext)
    exact .friend _ rfl rfl
  | agreefiendBack req =>
    obtain ⟨rfl, rfl⟩ := Prod.mk.inj (Option.some.inj hnext)
    exact .friend _ rfl rfl
  | refusefriend req =>
    obtain ⟨rfl, rfl⟩ := Prod.mk.inj (Option.some.inj hnext)
    exact .friend _ rfl rfl
  | getaddlist conn user_id =>
    simp only [Task.next] at hnext
    split at hnext
    · obtain ⟨rfl, rfl⟩ := Prod.mk.inj (Option.some.inj hnext)
      exact list_statement rfl fun _ => rfl
    · exact absurd hnext (by simp)
  | getfriendlist conn user_id =>
    simp only [Task.next] at hnext
    split at hnext
    · obtain ⟨rfl, rfl⟩ := Prod.mk.inj (Option.some.inj hnext)
      exact list_statement rfl fun _ => rfl
    · exact absurd hnext (by simp)
  | respond conn answers =>
    cases answers with
    | nil => exact absurd hnext (by simp [Task.next])
    | cons a rest =>
      obtain ⟨rfl, rfl⟩ := Prod.mk.inj (Option.some.inj hnext)
      exact .respond conn a rest
  | clientColse server conn =>
    simp only [Task.next] at hnext
    split at hnext
    · obtain ⟨rfl, rfl⟩ := Prod.mk.inj (Option.some.inj hnext)
      exact .clientColse server conn
    · exact absurd hnext (by simp)
  | updateStates id =>
    obtain ⟨rfl, rfl⟩ := Prod.mk.inj (Option.some.inj hnext)
    exact .updateStates id
  | done => exact absurd hnext (by simp [Task.next])

end Cases

/-! ## The messages in the database -/

/-- The row that `onemessage` inserts. -/
def ChatService.OneMessage.row (req : OneMessage) (msgid : Int) (now : Varchar) : MessageRow :=
  { msgid := msgid, fromid := req.fromid, toid := req.toid, content := req.message
    createtime := now, status := 0 }

/-- The statement that inserts a message. -/
def ChatService.Task.inserts? : Task → Option OneMessage
  | .onemessage _ req .insertMessage => some req
  | _ => none

/-- The statement that acknowledges a message. -/
def ChatService.Task.acks? : Task → Option Int
  | .ackMessage messageID => some messageID
  | _ => none

theorem inserts?_eq_some_iff {p : Task} {req : OneMessage} :
    p.inserts? = some req ↔ ∃ server, p = .onemessage server req .insertMessage := by
  constructor
  · intro hp
    cases p with
    | onemessage server req' pc =>
      cases pc with
      | insertMessage =>
        obtain rfl : req' = req := Option.some.inj hp
        exact ⟨server, rfl⟩
      | _ => exact nomatch hp
    | _ => exact nomatch hp
  · rintro ⟨server, rfl⟩
    rfl

theorem inserts?_of_ofFriends {p : Task} (hp : p.ofFriends) : p.inserts? = none := by
  cases p <;> trivial

theorem acks?_of_ofFriends {p : Task} (hp : p.ofFriends) : p.acks? = none := by
  cases p <;> trivial

/-- A login does not touch the messages. -/
theorem LoginEffect.message {server conn : Nat} {req : LoginRequest} {rows : List MessageRow}
    {w w' : ChatWorld} {pc pc' : LoginPc}
    (heff : LoginEffect server conn req rows w pc w' pc') : w'.db.message = w.db.message := by
  cases heff with
  | _ => rfl

theorem closeEntry_db (server conn : Nat) (order : List Int) (w : ChatWorld) :
    (closeEntry server conn order w).1.db = w.db := by
  unfold closeEntry
  split <;> rfl

theorem handOn_db {k : Nat} {w w' : ServiceWorld} (hhand : handOn k w = some w') :
    w'.chat.db = w.chat.db ∧ w'.answers = w.answers := by
  obtain ⟨p, -, rfl⟩ := Option.map_eq_some_iff.mp hhand
  refine ⟨?_, rfl⟩
  show (redisHandler _ _ _ _).db = _
  unfold redisHandler
  split <;> rfl

/-- A statement inserts a message, acknowledges one, or leaves them all alone. -/
inductive MessageRows (c : Choice) (db : Database) (p : Task) (db' : Database) : Prop
  | insert {req : OneMessage} (hp : p.inserts? = some req) (hack : p.acks? = none)
    (hinsert : db.message.insert (req.row c.msgid c.now) = some db'.message)
  | ack {messageID : Int} (hp : p.acks? = some messageID) (hins : p.inserts? = none)
    (hdb : db' = updateMesStatus db messageID)
  | same (hack : p.acks? = none)
    (hins : ∀ req, p.inserts? = some req → (db.message.find? c.msgid).isSome)
    (hmessage : db'.message = db.message)

theorem Statement.messageRows {c : Choice} {w w' : ServiceWorld} {p p' : Task}
    (hst : Statement c w p w' p') : MessageRows c w.chat.db p w'.chat.db := by
  cases hst with
  | login heff => exact .same rfl (fun _ hp => nomatch hp) heff.message
  | @onemessage server req pc pc' chat heff =>
    -- the later statements of the handler only read the database
    cases heff with
    | insertMessage hinsert => exact .insert rfl rfl hinsert
    | _ => exact .same rfl (fun _ hp => nomatch hp) rfl
  | onemessageFailed _ htaken => exact .same rfl (fun _ _ => htaken) rfl
  | ackMessage messageID => exact .ack rfl rfl rfl
  | friend _ hp =>
    refine .same (acks?_of_ofFriends hp) (fun _ heq => ?_) rfl
    rw [inserts?_of_ofFriends hp] at heq
    exact absurd heq (by simp)
  | list hp =>
    refine .same (acks?_of_ofFriends hp) (fun _ heq => ?_) rfl
    rw [inserts?_of_ofFriends hp] at heq
    exact absurd heq (by simp)
  | clientColse server conn =>
    refine .same rfl (fun _ hp => nomatch hp) ?_
    show (closeEntry server conn c.order w.chat).1.db.message = _
    rw [closeEntry_db]
  | _ => exact .same rfl (fun _ hp => nomatch hp) rfl

end Chat
