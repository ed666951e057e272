import LearnGit.Native.ChatClient

/-!
# ChatServer

`ChatServer::onMessage` of `src/server/chatserver.cpp` and the handler table of
`src/server/chatservice.cpp`. What happens to a task after it was submitted to the thread
pool is not part of this module.
-/

namespace Chat

open JsonText

/-- The handlers of `ChatService`, and the function that only logs an unknown type. -/
inductive Handler where
  | login
  | ref
  | onemessage
  | ackMessage
  | addfriend
  | agreefiend
  | refusefriend
  | getaddlist
  | getfriendlist
  | canNotFind (msgtype : Int)
deriving DecidableEq, Repr

/-- The table `um`, by the numbers of `MsgType`. -/
def um : List (Int × Handler) :=
  [(1, .login), (2, .ref), (5, .onemessage), (6, .ackMessage), (7, .addfriend),
    (9, .agreefiend), (10, .refusefriend), (11, .getaddlist), (12, .getfriendlist)]

def getHandler (msgtype : Int) : Handler := (um.lookup msgtype).getD (.canNotFind msgtype)

/-- What the JSON library throws. -/
inductive JsonException where
  | parseError
  | typeError
deriving DecidableEq, Repr

/-- The JSON library: `json::parse`, and the conversion of a value to `int`, which throws for
    a value that is no number. -/
structure JsonLibrary where
  parse : Bytes → Option Json
  toInt : Json → Option Int

/-- The name of the field. -/
def msgtypeKey : Bytes := [0x6d, 0x73, 0x67, 0x74, 0x79, 0x70, 0x65]

/-- `int msgtype = js["msgtype"]`. A field that is not there is created as null. -/
def readMsgtype (toInt : Json → Option Int) : Json → Option Int
  | .object ms => toInt ((ms.lookup msgtypeKey).getD .null)
  | .null => toInt .null
  | _ => none

/-- `ChatServer::onMessage` on what one callback finds in the buffer. The server's state are
    the tasks it has submitted. -/
def onMessage (json : JsonLibrary) (tasks : List (Handler × Json)) (buf : Bytes) :
    Except JsonException (List (Handler × Json)) :=
  match json.parse buf with
  | none => .error .parseError
  | some js =>
    match readMsgtype json.toInt js with
    | none => .error .typeError
    | some msgtype => .ok (tasks ++ [(getHandler msgtype, js)])

/-- The callbacks of a connection; an exception that leaves one of them ends the server. -/
def callbacks (json : JsonLibrary) (bufs : List Bytes) :
    Except JsonException (List (Handler × Json)) :=
  bufs.foldlM (onMessage json) []

end Chat
