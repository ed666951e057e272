import Std.Data.ExtTreeMap
import LearnGit.Native.UserModel

/-!
# ChatService

The handlers of `src/server/chatservice.cpp` over what they share: the database, the
connection map of each server, the channels to which the servers have subscribed in Redis,
the messages that Redis has not yet handed to a server, and what was sent to the
connections. `login` and `onemessage` are cut at every statement and every lock, since
handlers of other connections run in between.
-/

namespace Chat

/-- What the server sends to a client. -/
inductive Frame where
  | loginAck (name : Bytes)
  | loginRefused (error_message : String)
  /-- The sender's object, with `messageID` and `time` added. -/
  | oneMessage (m : Message)
  /-- A message that waited in the database. -/
  | offlineMessage (m : Message)
  | addFriendRefused (error_message : String)
deriving DecidableEq, Repr

namespace Frame

/-- The message that the client shows. -/
def message? : Frame → Option Message
  | .oneMessage m => some m
  | .offlineMessage m => some m
  | _ => none

end Frame

/-- Servers and connections are numbers. -/
structure ChatWorld where
  db : Database
  userIdConn : Nat → Std.ExtTreeMap Int Nat
  subscribed : List (Nat × Int) := []
  /-- What Redis still hands to a server: the channel and the text. -/
  published : List (Nat × Int × Frame) := []
  sent : List (Nat × Frame) := []

namespace ChatWorld

def send (w : ChatWorld) (conn : Nat) (frame : Frame) : ChatWorld :=
  { w with sent := w.sent ++ [(conn, frame)] }

/-- `_userIdConn[id] = conn`. -/
def insertConn (w : ChatWorld) (server : Nat) (id : Int) (conn : Nat) : ChatWorld :=
  { w with
    userIdConn :=
      Function.update w.userIdConn server ((w.userIdConn server).insert id conn) }

/-- `_userIdConn.erase(it)`. -/
def eraseConn (w : ChatWorld) (server : Nat) (id : Int) : ChatWorld :=
  { w with
    userIdConn := Function.update w.userIdConn server ((w.userIdConn server).erase id) }

def subscribe (w : ChatWorld) (server : Nat) (id : Int) : ChatWorld :=
  { w with subscribed := (server, id) :: w.subscribed }

def unsubscribe (w : ChatWorld) (server : Nat) (id : Int) : ChatWorld :=
  { w with subscribed := w.subscribed.filter fun p => p ≠ (server, id) }

/-- Redis hands a text to every server that has subscribed to the channel. -/
def publish (w : ChatWorld) (channel : Int) (frame : Frame) : ChatWorld :=
  { w with
    published := w.published ++
      (w.subscribed.dedup.filter fun p => p.2 = channel).map fun p => (p.1, channel, frame) }

def updateStates (w : ChatWorld) (id : Int) (state : UserState) : ChatWorld :=
  { w with db := UserModel.updateStates w.db id state }

end ChatWorld

namespace ChatService

/-! ## Login -/

structure LoginRequest where
  id : Int
  password : Bytes
deriving DecidableEq, Repr

/-- `user.getid() != -1 && user.getpwd() == pwd`. -/
def passwordRight (user : User) (req : LoginRequest) : Prop :=
  user.id ≠ -1 ∧ user.pwd = req.password

instance (user : User) (req : LoginRequest) : Decidable (passwordRight user req) :=
  inferInstanceAs (Decidable (_ ∧ _))

/-- The next statement of a login. -/
inductive LoginPc where
  | query
  | insertConn (user : User)
  | subscribe (user : User)
  | updateStates (user : User)
  | sendAck (user : User)
  | getofflineMessage
  /-- The messages that are still to be sent; none are left when the login is over. -/
  | sendOffline (m : List Message)
  | refused
deriving DecidableEq

/-- One statement of `login` on a server for a connection. `rows` is the order in which the
    database sends the rows of the last SELECT. -/
def loginStep (server conn : Nat) (req : LoginRequest) (rows : List MessageRow) (w : ChatWorld) :
    LoginPc → Option (ChatWorld × LoginPc)
  | .query =>
    -- for an id without a row this is the default `User`, whose id is -1
    let user := UserModel.query w.db req.id
    if passwordRight user req then
      if user.state = .offline then some (w, .insertConn user)
      else some (w.send conn (.loginRefused "已登录，不允许重复登陆"), .refused)
    else some (w.send conn (.loginRefused "账号或密码错误"), .refused)
  | .insertConn user => some (w.insertConn server req.id conn, .subscribe user)
  | .subscribe user => some (w.subscribe server req.id, .updateStates user)
  -- from here on other servers publish to the user, and no further login is let in
  | .updateStates user => some (w.updateStates req.id .online, .sendAck user)
  | .sendAck user => some (w.send conn (.loginAck user.name), .getofflineMessage)
  | .getofflineMessage =>
    -- the SELECT has no ORDER BY
    if rows.Perm (UserModel.offlineRows w.db req.id) then
      some (w, .sendOffline (UserModel.getofflineMessage rows))
    else none
  | .sendOffline (m :: rest) =>
    some (w.send conn (.offlineMessage { m with toid := req.id }), .sendOffline rest)
  | .sendOffline [] => none
  | .refused => none

/-- `login` without another handler in between. -/
def login (server conn : Nat) (req : LoginRequest) (rows : List MessageRow) (w : ChatWorld) :
    ChatWorld :=
  let user := UserModel.query w.db req.id
  if passwordRight user req then
    if user.state = .offline then
      let w := w.insertConn server req.id conn
      let w := w.subscribe server req.id
      let w := w.updateStates req.id .online
      let w := w.send conn (.loginAck user.name)
      (UserModel.getofflineMessage rows).foldl
        (fun w m => w.send conn (.offlineMessage { m with toid := req.id })) w
    else w.send conn (.loginRefused "已登录，不允许重复登陆")
  else w.send conn (.loginRefused "账号或密码错误")

/-! ## Sending a message -/

/-- A request whose object has these members and `msgtype`, and no others. The handler forwards
    the whole object, and a client that is shown one with a member `from` prefers it to
    `fromid`: such requests are left out. -/
structure OneMessage where
  fromid : Int
  toid : Int
  message : Bytes
deriving DecidableEq, Repr

/-- What `js.dump()` sends: the object of the request with the `messageID` and the `time` of
    the row added. -/
def OneMessage.sent (req : OneMessage) (m : Message) : Message :=
  { msgid := m.msgid, fromid := req.fromid, toid := req.toid, content := req.message
    time := m.time }

/-- The next statement of `onemessage`, with the object to be sent. -/
inductive MessagePc where
  | insertMessage
  | lookup (m : Message)
  | query (m : Message)
  | publish (m : Message)
  | done (m : Message)
deriving DecidableEq

/-- The object with the number of its row. -/
def MessagePc.message? : MessagePc → Option Message
  | .insertMessage => none
  | .lookup m => some m
  | .query m => some m
  | .publish m => some m
  | .done m => some m

/-- One statement of `onemessage` on a server. `msgid` and `now` are what the database gives
    the new row. -/
def messageStep (server : Nat) (req : OneMessage) (msgid : Int) (now : Varchar) (w : ChatWorld) :
    MessagePc → Option (ChatWorld × MessagePc)
  | .insertMessage =>
    let r := UserModel.insertMessage w.db msgid now req.fromid req.toid req.message
    let js := req.sent r.2
    some ({ w with db := r.1 }, if r.2.msgid = -1 then .done js else .lookup js)
  | .lookup m =>
    match (w.userIdConn server)[req.toid]? with
    | some conn => some (w.send conn (.oneMessage m), .done m)
    | none => some (w, .query m) -- the lock is given back before the query
  | .query m =>
    let user := UserModel.query w.db req.toid
    if user.id ≠ -1 ∧ user.state = .online then some (w, .publish m) else some (w, .done m)
  | .publish m => some (w.publish req.toid (.oneMessage m), .done m)
  | .done _ => none

/-- `redisHandler`. -/
def redisHandler (server : Nat) (channel : Int) (msg : Frame) (w : ChatWorld) : ChatWorld :=
  match (w.userIdConn server)[channel]? with
  | some conn => w.send conn msg
  | none => w

def ackMessage (messageID : Int) (w : ChatWorld) : ChatWorld :=
  { w with db := UserModel.updateMesStatus w.db messageID }

/-! ## Closing a connection -/

/-- `clientColse`. `order` is the order in which the loop meets the entries of the map. -/
def clientColse (server conn : Nat) (order : List Int) (w : ChatWorld) : ChatWorld :=
  match order.find? fun id => (w.userIdConn server)[id]? = some conn with
  | some id => ((w.eraseConn server id).unsubscribe server id).updateStates id .offline
  | none => w.updateStates 0 .offline -- `id` has its initial value

/-! ## Friends -/

structure FriendRequest where
  user_id : Int
  friend_id : Int
deriving DecidableEq, Repr

def addfriend (conn : Nat) (req : FriendRequest) (now : Varchar) (w : ChatWorld) : ChatWorld :=
  let r := UserModel.applyFriend w.db now req.user_id req.friend_id
  let w := { w with db := r.1 }
  if r.2 then w else w.send conn (.addFriendRefused "已申请过，对方还未同意")

def agreefiend (req : FriendRequest) (now : Varchar) (w : ChatWorld) : ChatWorld :=
  { w with db := UserModel.agreeFriend w.db now req.user_id req.friend_id }

def refusefriend (req : FriendRequest) (w : ChatWorld) : ChatWorld :=
  { w with db := UserModel.refuseFriend w.db req.user_id req.friend_id }

end ChatService

end Chat
