import LearnGit.ForStd.Interleaving
import LearnGit.Native.ChatService

/-!
# The handlers of the chat server next to each other

All handlers of `src/server/chatservice.cpp`, each cut into its statements, as the tasks that
the thread pools and the event loops of any number of servers run next to each other.
-/

namespace Chat

namespace UserModel

/-- `INSERT INTO user`, with the row that the database makes of it; none where the statement
    fails. The result has the id of the new row. -/
def insert (db : Database) (row : Option UserRow) : Database × Option Int :=
  match row.bind fun r => (db.user.insert r).map fun t => (t, r.id) with
  | some (t, i) => ({ db with user := t }, some i)
  | none => (db, none)

/-- `status=1`, as both statements of `agreeFriend` set it. -/
def accept (r : FriendRow) : FriendRow := { r with status := 1 }

theorem key_accept (r : FriendRow) : (accept r).key = r.key := rfl

/-- The first statement of `agreeFriend`. -/
def agreeUpdate (db : Database) (u_id f_id : Int) : Database :=
  { db with friend := db.friend.update (u_id, f_id) accept key_accept }

/-- The second statement of `agreeFriend`. -/
def agreeInsert (db : Database) (now : Varchar) (u_id f_id : Int) : Database :=
  { db with
    friend :=
      db.friend.upsert { userId := f_id, friendId := u_id, status := 1, addTime := now } accept
        key_accept }

/-- The rows of `getApplyList`, each with the row of the other user. -/
def applyRows (db : Database) (u_id : Int) : List (FriendRow × UserRow) :=
  joinUser db FriendRow.userId (db.friend.select fun r => r.friendId = u_id ∧ r.status = 0)

/-- The rows of `getFriendList`. -/
def friendRows (db : Database) (u_id : Int) : List (FriendRow × UserRow) :=
  joinUser db FriendRow.friendId (db.friend.select fun r => r.userId = u_id ∧ r.status = 1)

theorem agreeFriend_eq (db : Database) (now : Varchar) (u_id f_id : Int) :
    agreeFriend db now u_id f_id = agreeInsert (agreeUpdate db u_id f_id) now u_id f_id := rfl

end UserModel

namespace ChatService

structure RefRequest where
  name : Bytes
  password : Bytes
deriving DecidableEq, Repr

/-- What the other handlers send to a client. -/
inductive Answer where
  | refAck (id : Int)
  | refRefused (error_message : String)
  | addList (f : FriendApply)
  /-- Without the remark. -/
  | friList (f : FriendApply)
deriving DecidableEq, Repr

/-- The answer of `ref`, by the result of the INSERT. -/
def refAnswer : Option Int → Answer
  | some id => .refAck id
  | none => .refRefused "注册失败"

/-- The part of `clientColse` under the lock. `order` is the order in which the loop meets the
    entries of the map. The result has the user whose entry was found, or the initial 0. -/
def closeEntry (server conn : Nat) (order : List Int) (w : ChatWorld) : ChatWorld × Int :=
  match order.find? fun id => (w.userIdConn server)[id]? = some conn with
  | some id => ((w.eraseConn server id).unsubscribe server id, id)
  | none => (w, 0)

theorem clientColse_eq (server conn : Nat) (order : List Int) (w : ChatWorld) :
    clientColse server conn order w =
      (closeEntry server conn order w).1.updateStates (closeEntry server conn order w).2
        .offline := by
  unfold clientColse closeEntry
  cases order.find? fun id => (w.userIdConn server)[id]? = some conn with
  | some id => rfl
  | none => rfl

/-- What reaches a server through a connection, and the close of the connection. -/
inductive Call where
  | login (server conn : Nat) (req : LoginRequest)
  | ref (conn : Nat) (req : RefRequest)
  | onemessage (server : Nat) (req : OneMessage)
  | ackMessage (messageID : Int)
  | addfriend (conn : Nat) (req : FriendRequest)
  | agreefiend (req : FriendRequest)
  | refusefriend (req : FriendRequest)
  | getaddlist (conn : Nat) (user_id : Int)
  | getfriendlist (conn : Nat) (user_id : Int)
  | clientColse (server conn : Nat)
deriving DecidableEq, Repr

/-- A handler at its next statement. -/
inductive Task where
  | login (server conn : Nat) (req : LoginRequest) (pc : LoginPc)
  | ref (conn : Nat) (req : RefRequest)
  | onemessage (server : Nat) (req : OneMessage) (pc : MessagePc)
  | ackMessage (messageID : Int)
  | addfriend (conn : Nat) (req : FriendRequest)
  | addfriendRefused (conn : Nat)
  | agreefiend (req : FriendRequest)
  | agreefiendBack (req : FriendRequest)
  | refusefriend (req : FriendRequest)
  | getaddlist (conn : Nat) (user_id : Int)
  | getfriendlist (conn : Nat) (user_id : Int)
  /-- The answers that are still to be sent. -/
  | respond (conn : Nat) (answers : List Answer)
  | clientColse (server conn : Nat)
  | updateStates (id : Int)
  | done
deriving DecidableEq

def Call.task : Call → Task
  | .login server conn req => .login server conn req .query
  | .ref conn req => .ref conn req
  | .onemessage server req => .onemessage server req .insertMessage
  | .ackMessage messageID => .ackMessage messageID
  | .addfriend conn req => .addfriend conn req
  | .agreefiend req => .agreefiend req
  | .refusefriend req => .refusefriend req
  | .getaddlist conn user_id => .getaddlist conn user_id
  | .getfriendlist conn user_id => .getfriendlist conn user_id
  | .clientColse server conn => .clientColse server conn

/-- What all handlers share. -/
structure ServiceWorld where
  chat : ChatWorld
  answers : List (Nat × Answer) := []

namespace ServiceWorld

def setChat (w : ServiceWorld) (chat : ChatWorld) : ServiceWorld := { w with chat := chat }

def setDb (w : ServiceWorld) (db : Database) : ServiceWorld :=
  w.setChat { w.chat with db := db }

def answer (w : ServiceWorld) (conn : Nat) (a : Answer) : ServiceWorld :=
  { w with answers := w.answers ++ [(conn, a)] }

@[simp] theorem setChat_chat (w : ServiceWorld) (chat : ChatWorld) :
    (w.setChat chat).chat = chat := rfl

@[simp] theorem answer_answers (w : ServiceWorld) (conn : Nat) (a : Answer) :
    (w.answer conn a).answers = w.answers ++ [(conn, a)] := rfl

end ServiceWorld

/-- What the database and the map choose: the number and the time of a new row, the row of a
    new user, and the orders in which rows are sent and entries are met. A number that is
    taken stands for an INSERT into `message` that fails. -/
structure Choice where
  msgid : Int := 0
  now : Varchar := default
  user : Option UserRow := none
  rows : List MessageRow := []
  friends : List (FriendRow × UserRow) := []
  order : List Int := []

/-- The row is one of a new user with the texts of the request. -/
def NewUser (db : Database) (req : RefRequest) (row : UserRow) : Prop :=
  row.username.text = req.name ∧ row.password.text = req.password ∧ row.id ≠ -1 ∧
    db.user.find? row.id = none

instance (db : Database) (req : RefRequest) (row : UserRow) : Decidable (NewUser db req row) :=
  inferInstanceAs (Decidable (_ ∧ _))

/-- The next statement of a handler. -/
def Task.next (c : Choice) (w : ServiceWorld) : Task → Option (ServiceWorld × Task)
  | .login server conn req pc =>
    (loginStep server conn req c.rows w.chat pc).map fun r =>
      (w.setChat r.1, .login server conn req r.2)
  | .ref conn req =>
    if ∀ row ∈ c.user, NewUser w.chat.db req row then
      let r := UserModel.insert w.chat.db c.user
      some (w.setDb r.1, .respond conn [refAnswer r.2])
    else none
  | .onemessage server req pc =>
    -- the database does not give the number that `Message` has at first
    if c.msgid = -1 then none
    else
      (messageStep server req c.msgid c.now w.chat pc).map fun r =>
        (w.setChat r.1, .onemessage server req r.2)
  | .ackMessage messageID => some (w.setChat (ChatService.ackMessage messageID w.chat), .done)
  | .addfriend conn req =>
    let r := UserModel.applyFriend w.chat.db c.now req.user_id req.friend_id
    some (w.setDb r.1, if r.2 then .done else .addfriendRefused conn)
  | .addfriendRefused conn =>
    some (w.setChat (w.chat.send conn (.addFriendRefused "已申请过，对方还未同意")), .done)
  | .agreefiend req =>
    some (w.setDb (UserModel.agreeUpdate w.chat.db req.user_id req.friend_id),
      .agreefiendBack req)
  | .agreefiendBack req =>
    some (w.setDb (UserModel.agreeInsert w.chat.db c.now req.user_id req.friend_id), .done)
  | .refusefriend req => some (w.setChat (ChatService.refusefriend req w.chat), .done)
  | .getaddlist conn user_id =>
    if c.friends.Perm (UserModel.applyRows w.chat.db user_id) then
      some (w, .respond conn
        ((UserModel.readFriendApply FriendRow.userId c.friends).map .addList))
    else none
  | .getfriendlist conn user_id =>
    if c.friends.Perm (UserModel.friendRows w.chat.db user_id) then
      some (w, .respond conn
        ((UserModel.readFriendApply FriendRow.friendId c.friends).map .friList))
    else none
  | .respond conn (a :: rest) => some (w.answer conn a, .respond conn rest)
  | .respond _ [] => none
  | .clientColse server conn =>
    if c.order.Perm (w.chat.userIdConn server).keys then
      let r := closeEntry server conn c.order w.chat
      some (w.setChat r.1, .updateStates r.2)
    else none
  | .updateStates id => some (w.setChat (w.chat.updateStates id .offline), .done)
  | .done => none

/-- Redis hands the `k`-th text to its server. -/
def handOn (k : Nat) (w : ServiceWorld) : Option ServiceWorld :=
  w.chat.published[k]?.map fun p =>
    w.setChat (redisHandler p.1 p.2.1 p.2.2
      { w.chat with published := w.chat.published.eraseIdx k })

end ChatService

open ChatService

/-- The servers with all their handlers. -/
def chatProgram : Interleaving.Program ServiceWorld Task Call Choice Nat where
  task := Call.task
  next := Task.next
  outside := handOn

/-- The servers have just started: nobody is connected and nothing was sent. -/
def Started (db : Database) (w : ServiceWorld) : Prop :=
  w.chat.db = db ∧ (∀ server, w.chat.userIdConn server = ∅) ∧ w.chat.subscribed = [] ∧
    w.chat.published = [] ∧ w.chat.sent = [] ∧ w.answers = []

/-- The servers at work, from a database on. -/
abbrev chatServers (db : Database) :
    Transition.System (Interleaving.State ServiceWorld Task)
      (Interleaving.Event Call Choice Nat) :=
  chatProgram.system (Started db)

/-- The servers when they have just started. -/
def startedServers (db : Database) : ServiceWorld where
  chat := { db := db, userIdConn := fun _ => ∅ }

/-- The history and the state after some events from the start. -/
def serversSchedule (db : Database) (es : List (Interleaving.Event Call Choice Nat)) :
    Option (List (Interleaving.State ServiceWorld Task × Interleaving.Event Call Choice Nat) ×
      Interleaving.State ServiceWorld Task) :=
  (chatServers db).exec [] { world := startedServers db, tasks := [] } es

theorem serversSchedule_run {db : Database} {es : List (Interleaving.Event Call Choice Nat)}
    (hsome : (serversSchedule db es).isSome) :
    Transition.Run (chatServers db) ((serversSchedule db es).get hsome).1
      ((serversSchedule db es).get hsome).2 :=
  Transition.Run.of_exec (S := chatServers db)
    ⟨⟨rfl, fun _ => rfl, rfl, rfl, rfl, rfl⟩, rfl⟩ hsome

end Chat
