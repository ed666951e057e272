import LearnGit.ForStd.OrderedStore
import LearnGit.Native.RaftRpc

/-!
# RocksEngine

`src/data_node/rocks_engine.cpp` over RocksDB with its default comparator: an
ordered map with bytewise order on the keys whose operations succeed.
-/

namespace Dkv

/-- The open database. -/
structure RocksEngine where
  db : Std.ExtTreeMap Bytes Bytes

namespace RocksEngine

/-- A database that `open` has just created. -/
def empty : RocksEngine := ⟨∅⟩

def put (e : RocksEngine) (key value : Bytes) : RocksEngine × Bool := (⟨e.db.insert key value⟩, true)

def get (e : RocksEngine) (key : Bytes) : Option Bytes := e.db[key]?

def del (e : RocksEngine) (key : Bytes) : RocksEngine × Bool := (⟨e.db.erase key⟩, true)

structure ScanResult where
  kvs : List (Bytes × Bytes) := []
  hasMore : Bool := false
  nextKey : Bytes := []
deriving DecidableEq, Repr

/-- The loop of `scan` over the pairs in front of the iterator. An empty end key
    stands for no end. -/
def scanLoop (endKey : Bytes) (limit count : Nat) : List (Bytes × Bytes) → ScanResult
  | [] => {}
  | kv :: rest =>
    if endKey ≠ [] ∧ (compare kv.1 endKey).isGE then {}
    else if count ≥ limit then { hasMore := true, nextKey := kv.1 }
    else
      let result := scanLoop endKey limit (count + 1) rest
      { result with kvs := kv :: result.kvs }

def scan (e : RocksEngine) (startKey endKey : Bytes) (limit : Nat) : ScanResult :=
  scanLoop endKey limit 0 (OrderedStore.seek e.db startKey)

/-- All puts, then all deletes, in one atomic write. -/
def writeBatch (e : RocksEngine) (puts : List (Bytes × Bytes)) (deletes : List Bytes) :
    RocksEngine × Bool :=
  let db := puts.foldl (fun db p => db.insert p.1 p.2) e.db
  (⟨deletes.foldl (fun db k => db.erase k) db⟩, true)

end RocksEngine

end Dkv
