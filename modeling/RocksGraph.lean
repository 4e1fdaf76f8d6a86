import RocksGraph.Replication.EntityIds
import RocksGraph.Replication.Tokens
import RocksGraph.Replication.SearchWal
import RocksGraph.Catalog.GraphReplacement
import RocksGraph.Raft.JointRestore
import RocksGraph.Raft.InflightRing
import RocksGraph.Raft.Reign
import RocksGraph.Raft.Membership
import RocksGraph.Replication.IndexDdl
import RocksGraph.Replication.ProposalAccounting
import RocksGraph.Replication.ReplicaData
import RocksGraph.Storage.IncidentEdges
import RocksGraph.Storage.VectorRecovery
import RocksGraph.Storage.IndexRange
import RocksGraph.Storage.LastWrite
import RocksGraph.Storage.FullTextDocuments
import RocksGraph.Query.ProjectEndpoints
import RocksGraph.Query.SubqueryProjection
import RocksGraph.Query.Uniqueness
import RocksGraph.Query.ClauseOrder
import RocksGraph.Raft.LogDatabase
import RocksGraph.Raft.Handout
import RocksGraph.Bolt.Conversation
import RocksGraph.Query.SortOperators
import RocksGraph.Values.Equality
import RocksGraph.Query.AliasReferences
import RocksGraph.Values.IntegerArithmetic
import RocksGraph.Bolt.Chunks
import RocksGraph.Raft.Ballots
