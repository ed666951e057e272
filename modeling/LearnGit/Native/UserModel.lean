import LearnGit.ForStd.KeyedTable
import LearnGit.Native.ChatClient

/-!
# UserModel

The statements of `src/server/usermodel.cpp` on the tables of the chat database, and the
fetch loop of `src/server/MysqlDB.cpp` through which every SELECT is read. The server
program has no definition of the tables. Their columns are taken to be shorter than the
buffers of the fetch loop, all but the content of a message, which may have any length.
-/

namespace Chat

/-! ## Reading the rows of a SELECT -/

/-- The size of the buffer that `query_base` binds to a column. -/
def columnSize : Nat := 1024

/-- The string made from a column's buffer: the bytes up to the first zero. -/
def columnString (text : Bytes) : Bytes := text.takeWhile fun b => b ≠ 0

theorem columnString_of_notMem {text : Bytes} (hzero : 0 ∉ text) : columnString text = text :=
  List.takeWhile_eq_self_iff.mpr fun _ hb => decide_eq_true fun heq => hzero (heq ▸ hb)

theorem columnString_append_zero (text rest : Bytes) :
    columnString (text ++ 0 :: rest) = columnString text := by
  unfold columnString
  rw [List.takeWhile_append]
  split
  · next hall =>
    rw [List.takeWhile_cons_of_neg (by simp), List.append_nil]
    exact ((List.takeWhile_prefix _).eq_of_length hall).symm
  · rfl

theorem zero_notMem_columnString (text : Bytes) : 0 ∉ columnString text := fun hzero =>
  absurd (List.mem_takeWhile_imp hzero) (by simp)

/-- A zero byte is not part of the string that it ends. -/
theorem length_columnString_lt {text : Bytes} (hzero : 0 ∈ text) :
    (columnString text).length < text.length := by
  obtain ⟨before, rest, hsplit⟩ := List.append_of_mem hzero
  have hle : (columnString before).length ≤ before.length := (List.takeWhile_prefix _).length_le
  rw [hsplit, columnString_append_zero, List.length_append, List.length_cons]
  omega

/-- The rows that `query_base` returns of those a SELECT finds. The fetch loop ends at a row
    with a text that its buffer does not hold (`MYSQL_DATA_TRUNCATED`). A text that fills the
    buffer has no zero behind it and reading it is undefined; its row counts as not read. -/
def queryBase {α : Type} (texts : α → List Bytes) (rows : List α) : List α :=
  rows.takeWhile fun r => (texts r).all fun t => decide (t.length < columnSize)

/-- A text column that fits the buffer. -/
structure Varchar where
  text : Bytes
  fits : text.length < columnSize
deriving DecidableEq

namespace Varchar

instance : Inhabited Varchar := ⟨⟨[], by decide⟩⟩

/-- A text of one byte. -/
def single (b : UInt8) : Varchar where
  text := [b]
  fits := by simp [columnSize]

/-- The string that is read from the column. -/
def read (v : Varchar) : Bytes := columnString v.text

end Varchar

theorem queryBase_of_fits {α : Type} {texts : α → List Bytes} {rows : List α}
    (hfits : ∀ r ∈ rows, ∀ t ∈ texts r, t.length < columnSize) : queryBase texts rows = rows :=
  List.takeWhile_eq_self_iff.mpr fun r hr =>
    List.all_eq_true.mpr fun t ht => decide_eq_true (hfits r hr t ht)

/-! ## The tables -/

inductive UserState where
  | online
  | offline
deriving DecidableEq, Repr

structure UserRow where
  id : Int
  username : Varchar
  password : Varchar
  state : UserState
deriving DecidableEq

structure MessageRow where
  msgid : Int
  fromid : Int
  toid : Int
  content : Bytes
  createtime : Varchar
  status : Nat
deriving DecidableEq

structure FriendRow where
  userId : Int
  friendId : Int
  status : Nat
  addTime : Varchar
deriving DecidableEq

def FriendRow.key (r : FriendRow) : Int × Int := (r.userId, r.friendId)

structure Database where
  user : Table UserRow.id
  message : Table MessageRow.msgid
  friend : Table FriendRow.key
deriving DecidableEq

/-! ## The classes of the server program -/

/-- `User`, with the values of its constructor. -/
structure User where
  id : Int := -1
  name : Bytes := []
  pwd : Bytes := []
  state : UserState := .offline
deriving DecidableEq, Repr

structure Message where
  msgid : Int := -1
  fromid : Int := -1
  toid : Int := -1
  content : Bytes := []
  time : Bytes := []
deriving DecidableEq, Repr

/-- An entry of the two lists of `UserModel`. -/
structure FriendApply where
  userId : Int
  userName : Bytes
  applyTime : Bytes
deriving DecidableEq, Repr

namespace UserModel

def userTexts (r : UserRow) : List Bytes := [r.username.text, r.password.text]

/-- `SELECT * FROM user WHERE id = ?`. -/
def query (db : Database) (id : Int) : User :=
  match queryBase userTexts (db.user.select fun r => r.id = id) with
  | row :: _ =>
    { id := row.id, name := row.username.read, pwd := row.password.read, state := row.state }
  | [] => {}

/-- `UPDATE user SET state=? where id=?`. -/
def updateStates (db : Database) (id : Int) (state : UserState) : Database :=
  { db with user := db.user.update id (fun r => { r with state := state }) fun _ => rfl }

/-- `INSERT INTO message`, with the `msgid` and the `createtime` that the database gives the
    row, and the SELECT that reads the time back. -/
def insertMessage (db : Database) (msgid : Int) (now : Varchar) (fromid toid : Int)
    (message : Bytes) : Database × Message :=
  let r : Database × Int :=
    match db.message.insert
        { msgid := msgid, fromid := fromid, toid := toid, content := message
          createtime := now, status := 0 } with
    | some t => ({ db with message := t }, msgid)
    | none => (db, 0)
  let ret := queryBase (fun row => [row.createtime.text])
    (r.1.message.select fun row => row.msgid = r.2)
  (r.1, { msgid := r.2, time := (ret.head?.map fun row => row.createtime.read).getD [] })

/-- `update message set status=1 where msgid=?`. -/
def updateMesStatus (db : Database) (messageID : Int) : Database :=
  { db with message := db.message.update messageID (fun r => { r with status := 1 }) fun _ => rfl }

/-- The rows of `select … from message where toid=? and status=0`. -/
def offlineRows (db : Database) (id : Int) : List MessageRow :=
  db.message.select fun r => r.toid = id ∧ r.status = 0

/-- What is read of the rows of `offlineRows`, in the order in which the database sends them. -/
def getofflineMessage (rows : List MessageRow) : List Message :=
  (queryBase (fun r => [r.content, r.createtime.text]) rows).map fun r =>
    { msgid := r.msgid, fromid := r.fromid, content := columnString r.content
      time := r.createtime.read }

/-! ### The friend table

`execute` reports success for a statement that ran, also when it touched no row. -/

/-- `insert into friend(user_id,friend_id,status) values(?,?,0)`. -/
def applyFriend (db : Database) (now : Varchar) (u_id f_id : Int) : Database × Bool :=
  match db.friend.insert { userId := u_id, friendId := f_id, status := 0, addTime := now } with
  | some t => ({ db with friend := t }, true)
  | none => (db, false)

/-- `update friend set status=1 …`, and for the other direction
    `INSERT INTO friend … ON DUPLICATE KEY UPDATE status = 1`. -/
def agreeFriend (db : Database) (now : Varchar) (u_id f_id : Int) : Database :=
  let t := db.friend.update (u_id, f_id) (fun r => { r with status := 1 }) fun _ => rfl
  { db with
    friend := t.upsert { userId := f_id, friendId := u_id, status := 1, addTime := now }
      (fun r => { r with status := 1 }) fun _ => rfl }

/-- `DELETE FROM friend WHERE user_id=? AND friend_id=?`. -/
def refuseFriend (db : Database) (u_id f_id : Int) : Database :=
  { db with friend := db.friend.delete (u_id, f_id) }

/-- The rows of `friend f JOIN user u`, where `u` is the other user of the row. -/
def joinUser (db : Database) (other : FriendRow → Int) (rows : List FriendRow) :
    List (FriendRow × UserRow) :=
  rows.filterMap fun r => (db.user.find? (other r)).map fun u => (r, u)

def readFriendApply (other : FriendRow → Int) (rows : List (FriendRow × UserRow)) :
    List FriendApply :=
  (queryBase (fun p => [p.2.username.text, p.1.addTime.text]) rows).map fun p =>
    { userId := other p.1, userName := p.2.username.read, applyTime := p.1.addTime.read }

/-- The users who applied to a user, with the time. -/
def getApplyList (db : Database) (u_id : Int) : List FriendApply :=
  readFriendApply FriendRow.userId <| joinUser db FriendRow.userId <|
    db.friend.select fun r => r.friendId = u_id ∧ r.status = 0

/-- The friends of a user, without the remark. -/
def getFriendList (db : Database) (u_id : Int) : List FriendApply :=
  readFriendApply FriendRow.friendId <| joinUser db FriendRow.friendId <|
    db.friend.select fun r => r.userId = u_id ∧ r.status = 1

/-! ## What is read -/

theorem query_eq (db : Database) (id : Int) :
    query db id = ((db.user.find? id).map fun row =>
      { id := row.id, name := row.username.read, pwd := row.password.read
        state := row.state : User }).getD {} := by
  have hall : queryBase userTexts (db.user.select fun r => r.id = id) =
      (db.user.find? id).toList := by
    rw [Table.select_key]
    refine queryBase_of_fits fun r _ t ht => ?_
    obtain rfl | rfl := by simpa [userTexts] using ht
    · exact r.username.fits
    · exact r.password.fits
  unfold query
  rw [hall]
  cases db.user.find? id with
  | none => rfl
  | some row => rfl

theorem mem_readFriendApply {db : Database} {other : FriendRow → Int} {rows : List FriendRow}
    {v : Int} :
    v ∈ (readFriendApply other (joinUser db other rows)).map FriendApply.userId ↔
      ∃ r ∈ rows, other r = v ∧ (db.user.find? v).isSome := by
  unfold readFriendApply
  rw [queryBase_of_fits]
  · simp only [joinUser, List.map_map, List.mem_map, List.mem_filterMap, Function.comp,
      Option.map_eq_some_iff, Option.isSome_iff_exists]
    constructor
    · rintro ⟨_, ⟨r, hr, u, hu, rfl⟩, rfl⟩
      exact ⟨r, hr, rfl, u, hu⟩
    · rintro ⟨r, hr, rfl, u, hu⟩
      exact ⟨(r, u), ⟨r, hr, u, hu, rfl⟩, rfl⟩
  · intro p _ t ht
    obtain rfl | rfl := by simpa using ht
    · exact p.2.username.fits
    · exact p.1.addTime.fits

/-- Who is in the list of applications: registered users with a row of status 0. -/
theorem mem_getApplyList {db : Database} {u v : Int} :
    v ∈ (getApplyList db u).map FriendApply.userId ↔
      (∃ r, db.friend.find? (v, u) = some r ∧ r.status = 0) ∧ (db.user.find? v).isSome := by
  unfold getApplyList
  rw [mem_readFriendApply]
  simp only [← and_assoc, exists_and_right]
  refine and_congr_left' (Table.exists_mem_select_iff fun r => ?_)
  simp only [FriendRow.key, decide_eq_true_eq, Prod.mk.injEq]
  tauto

/-- Who is in the list of friends: registered users to whom there is a row of status 1. -/
theorem mem_getFriendList {db : Database} {u v : Int} :
    v ∈ (getFriendList db u).map FriendApply.userId ↔
      (∃ r, db.friend.find? (u, v) = some r ∧ r.status = 1) ∧ (db.user.find? v).isSome := by
  unfold getFriendList
  rw [mem_readFriendApply]
  simp only [← and_assoc, exists_and_right]
  refine and_congr_left' (Table.exists_mem_select_iff fun r => ?_)
  simp only [FriendRow.key, decide_eq_true_eq, Prod.mk.injEq]
  tauto

end UserModel

end Chat
