import LearnGit.Native.UserModel

/-!
# MysqlDB

`query_base` of `src/server/MysqlDB.cpp` with the buffers that it binds to the columns. The
MySQL client library is described by what it does with a fetched row: how it fills a buffer
and when it reports a truncation.
-/

namespace Chat.MysqlDB

/-- A row of a result set. `none` stands for NULL. -/
abbrev Row := List (Option Bytes)

structure ResultSet where
  cols : Nat
  rows : List Row
  width : ∀ row ∈ rows, row.length = cols

namespace ResultSet

def cell (rs : ResultSet) (i c : Nat) : Option (Option Bytes) :=
  rs.rows[i]?.bind fun row => row[c]?

end ResultSet

/-! ## The buffers -/

/-- What one of the `new char[1024]` contains. -/
abbrev Buffer := { bytes : Bytes // bytes.length = columnSize }

/-- `mysql_stmt_fetch` on one column. A NULL leaves the buffer as it is. A value gets a zero
    behind it if the buffer has room for that. -/
def fetchCell (buffer : Buffer) : Option Bytes → Buffer
  | none => buffer
  | some v =>
    ⟨(v ++ 0 :: buffer.val.drop (v.length + 1)).take columnSize, by
      have hlen := buffer.property
      simp only [List.length_take, List.length_append, List.length_cons, List.length_drop]
      omega⟩

/-- Whether `mysql_stmt_fetch` returns `MYSQL_DATA_TRUNCATED` for a row. -/
def truncated (row : Row) : Bool :=
  row.any fun cell => cell.any fun v => decide (columnSize < v.length)

/-- The string that `push_back(data[i])` makes of a buffer. Without a zero byte in it the
    behaviour is undefined. -/
def readString (buffer : Buffer) : Option Bytes :=
  if 0 ∈ buffer.val then some (columnString buffer.val) else none

/-! ## query_base -/

/-- The loop over the rows. It ends at the first status of `mysql_stmt_fetch` other than zero. -/
def fetchLoop : List Buffer → List Row → Option (List (List Bytes))
  | _, [] => some []
  | data, row :: rows =>
    if truncated row then some []
    else do
      let data := List.zipWith fetchCell data row
      let strings ← data.mapM readString
      let result ← fetchLoop data rows
      return strings :: result

/-- The outcome of preparing and executing a statement. -/
inductive Execution where
  /-- `mysql_stmt_init`, `mysql_stmt_prepare` or `mysql_stmt_execute` has failed. -/
  | failed
  | executed (rs : ResultSet)

/-- `data` is what the new buffers contain before anything is fetched. -/
def queryBase (data : Nat → Buffer) : Execution → Option (List (List Bytes))
  | .failed => some []
  | .executed rs => fetchLoop ((List.range rs.cols).map data) rs.rows

end Chat.MysqlDB
