import LearnGit.ForStd.Transition
import LearnGit.Native.ChatService

/-!
# Chat servers at work

Three views of running chat servers. In the first the handlers of logins and messages run
statement by statement next to each other, on the threads of one or more servers; in the
second whole logins and close callbacks follow one another on one server; in the third the
requests about friends do.
-/

namespace Chat

open ChatService

/-! ## Handlers next to each other -/

/-- What is asked of the servers: the world before, the server and the request of the login
    through each connection, and the server and the request of each message. -/
structure ChatScenario where
  start : ChatWorld
  login : Nat → Nat × LoginRequest
  message : Nat → Nat × OneMessage

structure ChatState where
  world : ChatWorld
  logins : Nat → LoginPc
  messages : Nat → MessagePc

inductive ChatEvent where
  /-- The next statement of the login through a connection. -/
  | login (conn : Nat) (rows : List MessageRow)
  /-- The next statement of the handler of a message. -/
  | onemessage (j : Nat) (msgid : Int) (now : Varchar)
  /-- Redis hands the `k`-th text to its server. -/
  | redis (k : Nat)

namespace ChatState

/-- The number that the database gives a new row: none that is in the table, and not the one
    that `Message` has before the insert. -/
def FreshMsgid (s : ChatState) (j : Nat) (msgid : Int) : Prop :=
  s.messages j = .insertMessage → msgid ≠ -1 ∧ s.world.db.message.find? msgid = none

instance (s : ChatState) (j : Nat) (msgid : Int) : Decidable (s.FreshMsgid j msgid) :=
  inferInstanceAs (Decidable (_ → _))

def step (sc : ChatScenario) (s : ChatState) : ChatEvent → Option ChatState
  | .login conn rows =>
    (loginStep (sc.login conn).1 conn (sc.login conn).2 rows s.world (s.logins conn)).map
      fun r => { s with world := r.1, logins := Function.update s.logins conn r.2 }
  | .onemessage j msgid now =>
    if s.FreshMsgid j msgid then
      (messageStep (sc.message j).1 (sc.message j).2 msgid now s.world (s.messages j)).map
        fun r => { s with world := r.1, messages := Function.update s.messages j r.2 }
    else none
  | .redis k =>
    -- every server reads from Redis on a thread of its own, so any text may be next
    s.world.published[k]?.map fun p =>
      { s with
        world := redisHandler p.1 p.2.1 p.2.2
          { s.world with published := s.world.published.eraseIdx k } }

end ChatState

/-- Servers on which logins and messages are handled next to each other. -/
def chatSystem (sc : ChatScenario) : Transition.System ChatState ChatEvent where
  init s :=
    s.world = { sc.start with published := [], sent := [] } ∧
      s.logins = (fun _ => .query) ∧ s.messages = fun _ => .insertMessage
  step := ChatState.step sc

/-- The history and the state after some steps from the start. -/
def chatSchedule (sc : ChatScenario) (es : List ChatEvent) :
    Option (List (ChatState × ChatEvent) × ChatState) :=
  (chatSystem sc).exec []
    { world := { sc.start with published := [], sent := [] }
      logins := fun _ => .query
      messages := fun _ => .insertMessage } es

theorem chatSchedule_run {sc : ChatScenario} {es : List ChatEvent}
    (hsome : (chatSchedule sc es).isSome) :
    Transition.Run (chatSystem sc) ((chatSchedule sc es).get hsome).1
      ((chatSchedule sc es).get hsome).2 :=
  Transition.Run.of_exec (S := chatSystem sc) ⟨rfl, rfl, rfl⟩ hsome

/-! ## Logins and close callbacks one after the other -/

/-- A server's sessions: the login tasks that wait in the thread pool, and the connections
    whose close callback has run. -/
structure SessionState where
  world : ChatWorld
  queue : List (Nat × LoginRequest) := []
  closed : List Nat := []

inductive SessionEvent where
  | request (conn : Nat) (req : LoginRequest)
  /-- The `k`-th task in the pool runs. -/
  | execute (k : Nat) (rows : List MessageRow)
  | close (conn : Nat) (order : List Int)

namespace SessionState

/-- The connection map of the server. -/
def userIdConn (s : SessionState) : Std.ExtTreeMap Int Nat := s.world.userIdConn 0

def step (s : SessionState) : SessionEvent → Option SessionState
  | .request conn req =>
    -- nothing is read from a connection after its close callback
    if conn ∈ s.closed then none else some { s with queue := s.queue ++ [(conn, req)] }
  | .execute k rows =>
    -- the task holds the connection, whether or not it is still open
    s.queue[k]?.bind fun task =>
      if rows.Perm (UserModel.offlineRows s.world.db task.2.id) then
        some { s with
          world := login 0 task.1 task.2 rows s.world
          queue := s.queue.eraseIdx k }
      else none
  | .close conn order =>
    if conn ∉ s.closed ∧ order.Perm s.userIdConn.keys then
      some { s with
        world := clientColse 0 conn order s.world
        closed := conn :: s.closed }
    else none

end SessionState

/-- One server, from its start. -/
def sessionSystem : Transition.System SessionState SessionEvent where
  init s := s.userIdConn = ∅ ∧ s.queue = [] ∧ s.closed = []
  step := SessionState.step

/-! ## Requests about friends -/

/-- A request of a logged-in client, with its own id first. -/
inductive FriendEvent where
  | add (conn : Nat) (user_id friend_id : Int) (now : Varchar)
  | agree (user_id friend_id : Int) (now : Varchar)
  | refuse (user_id friend_id : Int)

namespace FriendEvent

def handle (w : ChatWorld) : FriendEvent → ChatWorld
  | .add conn u f now => addfriend conn ⟨u, f⟩ now w
  | .agree u f now => agreefiend ⟨u, f⟩ now w
  | .refuse u f => refusefriend ⟨u, f⟩ w

end FriendEvent

/-- The friend table over time, empty at first. -/
def friendSystem : Transition.System ChatWorld FriendEvent where
  init w := w.db.friend = .empty FriendRow.key
  step w e := some (e.handle w)

/-! ## A small database -/

/-- Two users, who are offline. -/
def twoUsers : Database where
  user :=
    { rows :=
        [{ id := 1, username := .single 0x61, password := .single 0x70, state := .offline },
          { id := 2, username := .single 0x62, password := .single 0x70, state := .offline }]
      unique := by decide }
  message := .empty _
  friend := .empty _

/-- The two users, before anybody has logged in. -/
def twoUsersWorld : ChatWorld where
  db := twoUsers
  userIdConn _ := ∅

end Chat
