import LearnGit.Native.PdRpc

/-!
# ShardRouter

The two routers over a shard map: `src/common/shard_router.cpp`, which the servers share,
and `src/client_sdk/router.cpp`, which a client fills from the placement driver. Both look
for the first shard in the list whose range holds the key.
-/

namespace Dkv

/-- The condition of the look-up loops. An empty start key stands for minus infinity, an
    empty end key for plus infinity. -/
def ShardMeta.holds (s : ShardMeta) (key : Bytes) : Bool :=
  let afterStart := decide (s.startKey = []) || (compare key s.startKey).isGE
  let beforeEnd := decide (s.endKey = []) || (compare key s.endKey).isLT
  afterStart && beforeEnd

/-- The look-up loop of both routers; zero stands for no shard. -/
def ShardMap.getShardId (map : ShardMap) (key : Bytes) : Nat :=
  ((map.shards.find? fun s => s.holds key).map ShardMeta.shardId).getD 0

structure ShardRouter where
  map : ShardMap := { shards := [], version := 0 }

namespace ShardRouter

def loadShardMap (_r : ShardRouter) (map : ShardMap) : ShardRouter := { map := map }

def getShardId (r : ShardRouter) (key : Bytes) : Nat := r.map.getShardId key

end ShardRouter

structure Router where
  usePd : Bool := false
  directAddr : Bytes := []
  shardMap : ShardMap := { shards := [], version := 0 }
  nodeAddrs : Std.ExtTreeMap Nat Bytes := ∅

namespace Router

def setDirectNode (r : Router) (addr : Bytes) : Router :=
  { r with directAddr := addr, usePd := false }

def loadShardMap (r : Router) (map : ShardMap) : Router :=
  { r with shardMap := map, usePd := true }

def getAddrForKey (r : Router) (key : Bytes) : Bytes :=
  if r.usePd then
    match r.shardMap.shards.find? fun s => s.holds key with
    | some s => r.nodeAddrs.getD s.leaderNodeId []
    | none => []
  else r.directAddr

def updateLeader (r : Router) (_shardId nodeId : Nat) (addr : Bytes) : Router :=
  { r with nodeAddrs := r.nodeAddrs.insert nodeId addr }

def getShardId (r : Router) (key : Bytes) : Nat := r.shardMap.getShardId key

/-- The loop goes on behind a shard with an unknown leader. -/
def getLeaderAddr (r : Router) (shardId : Nat) : Bytes :=
  (r.shardMap.shards.findSome? fun s =>
    if s.shardId = shardId then r.nodeAddrs[s.leaderNodeId]? else none).getD []

end Router

end Dkv
