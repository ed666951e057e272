import LearnGit.ForStd.Transition
import LearnGit.ForStd.Quorum
import LearnGit.ForStd.ReplicatedLog
import LearnGit.Native.RaftNode
import LearnGit.Native.RaftCluster
import LearnGit.Spec.RaftNodeSteps
import LearnGit.Spec.RaftClusterSteps
import LearnGit.Spec.ElectionSafety
import LearnGit.Spec.Replication
import LearnGit.Spec.LogMatching
import LearnGit.Spec.LeaderCompleteness
import LearnGit.Spec.ReplicationProgress
import LearnGit.Spec.StateMachineSafety
import LearnGit.Spec.HigherTerm
import LearnGit.ForStd.ProtoWire
import LearnGit.ForStd.OrderedStore
import LearnGit.ForStd.BigEndian
import LearnGit.Native.KvRpc
import LearnGit.Native.RocksEngine
import LearnGit.Native.RaftService
import LearnGit.Native.KvService
import LearnGit.Native.DataCluster
import LearnGit.Native.Protobuf
import LearnGit.Spec.RocksEngineSpec
import LearnGit.Spec.StoredPositions
import LearnGit.Spec.LogKeys
import LearnGit.Spec.Persistence
import LearnGit.Spec.CommandOrigin
import LearnGit.Spec.DataClusterSteps
import LearnGit.Spec.AckedWrites
import LearnGit.Spec.ReadAfterWrite
import LearnGit.Spec.LeaderAppendOnly
import LearnGit.Spec.RoleConsistency
import LearnGit.Spec.AppendExchange
import LearnGit.Spec.PairDelivery
import LearnGit.Spec.StuckPair
import LearnGit.Spec.CatchUp
import LearnGit.Spec.LeaderReads
import LearnGit.Spec.ReservedKeys
import LearnGit.Spec.ClientStore
import LearnGit.ForStd.CrashTriple
import LearnGit.Native.CrashingNode
import LearnGit.Spec.VoteDurability
import LearnGit.ForStd.ChunkedStream
import LearnGit.Native.FrameCodec
import LearnGit.Native.PdRpc
import LearnGit.Native.ShardManager
import LearnGit.Native.PdServer
import LearnGit.Spec.Framing
import LearnGit.Spec.PdDispatch
import LearnGit.ForStd.RequestReply
import LearnGit.Spec.StandAlone
import LearnGit.Native.PlacementDriver
import LearnGit.Spec.FailureDetector
import LearnGit.ForStd.RangePartition
import LearnGit.Native.ShardRouter
import LearnGit.Spec.InitialShards
import LearnGit.ForStd.JsonText
import LearnGit.Native.ChatClient
import LearnGit.Spec.JsonSplitting
import LearnGit.Native.ChatServer
import LearnGit.Spec.ChatDispatch
import LearnGit.ForStd.KeyedTable
import LearnGit.Native.UserModel
import LearnGit.Native.ChatService
import LearnGit.Native.ChatSystem
import LearnGit.Spec.ChatSteps
import LearnGit.Spec.SingleSession
import LearnGit.Spec.MessageDelivery
import LearnGit.Spec.SessionCleanup
import LearnGit.Spec.FriendTable
import LearnGit.Spec.Friendship
import LearnGit.Spec.AppendHandling
import LearnGit.Native.CheckedNode
import LearnGit.Spec.IndexSafety
import LearnGit.Spec.CommitCounting
import LearnGit.Spec.VoteCounting
import LearnGit.ForStd.LastWrite
import LearnGit.Spec.CommandReplay
import LearnGit.Spec.ScanPages
import LearnGit.Native.ShardOperations
import LearnGit.Spec.Rebalance
import LearnGit.Spec.Failover
import LearnGit.ForStd.WorkQueue
import LearnGit.Native.ConnectPool
import LearnGit.Spec.PoolAccounting
import LearnGit.Native.ThreadPool
import LearnGit.Spec.ThreadPoolTasks
import LearnGit.Spec.ChunkBoundaries
import LearnGit.Native.MysqlDB
import LearnGit.Spec.QueryResults
import LearnGit.Spec.RangeRouting
import LearnGit.ForStd.Decimal
import LearnGit.Native.KvClient
import LearnGit.Spec.Redirects
import LearnGit.Spec.CrossShardScan
import LearnGit.ForStd.StreamParser
import LearnGit.Native.RedisClient
import LearnGit.Spec.SubscriberLoop
import LearnGit.Spec.ReplicaHistory
import LearnGit.Native.CrashingCluster
import LearnGit.Spec.CrashElections
import LearnGit.Native.RaftProtobuf
import LearnGit.Native.RaftTransport
import LearnGit.Spec.WireMessages
import LearnGit.Spec.Linearizability
import LearnGit.Spec.WireRefinement
import LearnGit.Spec.ReplicaPlacement
import LearnGit.Spec.Electability
import LearnGit.Spec.ThreadPoolShutdown
import LearnGit.Spec.ChatPrivacy
import LearnGit.Spec.ChatMailbox
