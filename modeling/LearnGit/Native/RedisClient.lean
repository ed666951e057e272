import LearnGit.ForStd.Decimal
import LearnGit.ForStd.StreamParser
import LearnGit.ForStd.Transition
import LearnGit.Native.UserModel

/-!
# RedisClient

The subscriber of `src/server/redis.cpp`: one thread sends the queued commands and waits for
messages, over a connection on which both the replies to commands and the messages arrive. The
hiredis library reads the connection through a buffer of its own; how it cuts replies off the
front of that buffer is a parameter.
-/

namespace Chat

open ChunkedStream

/-! ## Replies -/

/-- What the loop sees of a `redisReply`: the strings of the elements of an array, without one
    where `str` is a null pointer. -/
inductive RedisReply where
  | array (elements : List (Option Bytes))
  | other
deriving DecidableEq, Repr

/-- `atoi` of a C string. -/
def atoi (str : Bytes) : Int := (Decimal.scan (columnString str)).getD 0

/-- `"message"`. -/
def messageType : Bytes := [0x6d, 0x65, 0x73, 0x73, 0x61, 0x67, 0x65]

/-! ## The subscriber -/

inductive CmdType where
  | subscribe
  | unsubscribe
deriving DecidableEq, Repr

structure CmdRequest where
  type : CmdType
  channel : Int
deriving DecidableEq, Repr

/-- Where the thread of the loop is. -/
inductive SubPhase where
  /-- In front of the lock of the command queue. -/
  | start
  /-- In the loop over the queue, with the lock. -/
  | commands
  /-- In `redisCommand` for a request, with the lock. -/
  | command (req : CmdRequest)
  /-- In `poll`. -/
  | poll
  /-- In `redisGetReply`. -/
  | getReply
  | ended
deriving DecidableEq, Repr

/-- The loop and its connection. `socket` has arrived but is not read, `reader` is the buffer of
    hiredis. `received`, `replies`, `done` and `callbacks` record what has arrived, what
    hiredis has returned, which requests are done and what the callback was given. -/
structure Subscriber where
  phase : SubPhase := .start
  cmdQueue : List CmdRequest := []
  socket : Bytes := []
  reader : Bytes := []
  received : Bytes := []
  replies : List RedisReply := []
  done : List (CmdRequest × Bool) := []
  callbacks : List (Int × Bytes) := []
deriving DecidableEq, Repr

inductive SubEvent where
  | arrive (bytes : Bytes)
  /-- `subscribe` or `unsubscribe` puts its request into the queue. -/
  | push (req : CmdRequest)
  | lock
  | redisCommand
  /-- The queue is empty, and the loop goes on to `poll`. -/
  | callPoll
  | timeout
  | readable
  | pollFailed
  /-- hiredis reads some of what is there, as it has no complete reply. -/
  | read (n : Nat)
  /-- `redisCommand` or `redisGetReply` returns. -/
  | returned
deriving DecidableEq, Repr

namespace Subscriber

/-- The end of `subLoop`: the requests left in the queue have failed. -/
def finish (s : Subscriber) : Subscriber :=
  { s with
    phase := .ended
    cmdQueue := []
    done := s.done ++ s.cmdQueue.map fun req => (req, false) }

/-- What the loop does with a reply. A string made of a null pointer ends the program. -/
def handleReply (s : Subscriber) : RedisReply → Subscriber
  | .array [type, channel, payload] =>
    match type with
    | none => { s with phase := .ended }
    | some type =>
      if columnString type = messageType then
        match channel, payload with
        | some channel, some payload =>
          { s with
            phase := .start
            callbacks := s.callbacks ++ [(atoi channel, columnString payload)] }
        | _, _ => { s with phase := .ended }
      else { s with phase := .start }
  | _ => { s with phase := .start }

variable (D : Decoder UInt8 RedisReply)

/-- The return of `redisCommand` or `redisGetReply`, for which a reply has to be complete in the
    buffer. -/
def returned (s : Subscriber) : Option Subscriber :=
  match s.phase with
  | .command req =>
    match D.next s.reader with
    | .item r rest =>
      some { s with
        phase := .commands
        reader := rest
        replies := s.replies ++ [r]
        done := s.done ++ [(req, true)] }
    | .fault => some { s with phase := .commands, done := s.done ++ [(req, false)] }
    | .wait => none
  | .getReply =>
    match D.next s.reader with
    | .item r rest => some (handleReply { s with reader := rest, replies := s.replies ++ [r] } r)
    | .fault => some s.finish
    | .wait => none
  | _ => none

/-- The lock of the command queue is held. -/
def locked (s : Subscriber) : Bool :=
  match s.phase with
  | .commands | .command _ => true
  | _ => false

/-- hiredis is called and has no complete reply. -/
def waiting (s : Subscriber) : Bool :=
  match s.phase, D.next s.reader with
  | .command _, .wait | .getReply, .wait => true
  | _, _ => false

def step (s : Subscriber) : SubEvent → Option Subscriber
  | .arrive bytes => some { s with socket := s.socket ++ bytes, received := s.received ++ bytes }
  | .push req => if s.locked then none else some { s with cmdQueue := s.cmdQueue ++ [req] }
  | .lock => if s.phase = .start then some { s with phase := .commands } else none
  | .redisCommand =>
    match s.phase, s.cmdQueue with
    | .commands, req :: rest => some { s with phase := .command req, cmdQueue := rest }
    | _, _ => none
  | .callPoll =>
    if s.phase = .commands ∧ s.cmdQueue = [] then some { s with phase := .poll } else none
  | .timeout => if s.phase = .poll ∧ s.socket = [] then some { s with phase := .start } else none
  | .readable =>
    if s.phase = .poll ∧ s.socket ≠ [] then some { s with phase := .getReply } else none
  | .pollFailed => if s.phase = .poll then some s.finish else none
  | .read n =>
    if s.waiting D ∧ 0 < n ∧ n ≤ s.socket.length then
      some { s with socket := s.socket.drop n, reader := s.reader ++ s.socket.take n }
    else none
  | .returned => s.returned D

/-- `subLoop` waits for the socket. -/
def Blocked (s : Subscriber) : Prop := s.phase = .poll ∧ s.socket = []

end Subscriber

/-- The loop from its start on. -/
def subscriberSystem (D : Decoder UInt8 RedisReply) :
    Transition.System Subscriber SubEvent where
  init s := s = {}
  step := Subscriber.step D

/-! ## The format of the replies -/

namespace Resp

/-- An element of an array, with its string. Arrays in arrays do not occur on a connection of a
    subscriber. -/
def element : StreamParser UInt8 (Option Bytes) :=
  (StreamParser.until₂ 0x0d 0x0a).bind fun line =>
    match line with
    | 0x24 :: size =>
      match Decimal.scan size with
      | some (.ofNat n) =>
        (StreamParser.takeN n).bind fun text =>
          (StreamParser.takeN 2).bind fun _ => .pure (some text)
      | some (.negSucc _) => .pure none
      | none => .fail
    | 0x2b :: text => .pure (some text)
    | 0x2d :: text => .pure (some text)
    | 0x3a :: _ => .pure none
    | _ => .fail

def reply : StreamParser UInt8 RedisReply :=
  (StreamParser.until₂ 0x0d 0x0a).bind fun line =>
    match line with
    | 0x2a :: size =>
      match Decimal.scan size with
      | some (.ofNat n) => (element.count n).bind fun elements => .pure (.array elements)
      | some (.negSucc _) => .pure .other
      | none => .fail
    | 0x24 :: size =>
      match Decimal.scan size with
      | some (.ofNat n) => (StreamParser.takeN (n + 2)).bind fun _ => .pure .other
      | some (.negSucc _) => .pure .other
      | none => .fail
    | 0x2b :: _ => .pure .other
    | 0x2d :: _ => .pure .other
    | 0x3a :: _ => .pure .other
    | _ => .fail

/-- Replies as Redis sends them. -/
def decoder : Decoder UInt8 RedisReply := reply.decoder ((StreamParser.strict_until₂ _ _).bind _)

end Resp

end Chat
