import TeeReplication.Foundations.Bytes
import TeeReplication.Foundations.Effects
import TeeReplication.Foundations.Machine
import TeeReplication.Foundations.Network
import TeeReplication.Foundations.Simulation
import TeeReplication.Foundations.Framing
import TeeReplication.Foundations.Threads
import TeeReplication.Foundations.Streams
import TeeReplication.Foundations.StreamProgress
import TeeReplication.Foundations.Confluence
import TeeReplication.Foundations.Rendezvous
import TeeReplication.Foundations.Phases
import TeeReplication.Foundations.Ranges
import TeeReplication.Foundations.Frontier
import TeeReplication.Foundations.Accepted
import TeeReplication.Config
import TeeReplication.Wire
import TeeReplication.Receive
import TeeReplication.Log
import TeeReplication.Raft.Leader
import TeeReplication.Raft.Follower
import TeeReplication.Chain.Head
import TeeReplication.Chain.Middle
import TeeReplication.Chain.Tail
import TeeReplication.Codec
import TeeReplication.Net.Socket
import TeeReplication.Net.Channel
import TeeReplication.Net.ReadN
import TeeReplication.Net.Framing
import TeeReplication.Net.Startup
import TeeReplication.AttestationLog
import TeeReplication.Authenticators
import TeeReplication.WriteAhead
import TeeReplication.Benchmark.Rpc
import TeeReplication.Benchmark.Program
import TeeReplication.Benchmark.Rounds
import TeeReplication.Benchmark.ClosedLoop
import TeeReplication.Benchmark.Sessions
import TeeReplication.Raft.LeaderSemantics
import TeeReplication.Raft.FollowerSemantics
import TeeReplication.Chain.Semantics
import TeeReplication.Authentication
import TeeReplication.Bounds
import TeeReplication.Raft.Cluster
import TeeReplication.Raft.Exchange
import TeeReplication.Raft.Lane
import TeeReplication.Raft.CommitSafety
import TeeReplication.Raft.Provenance
import TeeReplication.Raft.InFlight
import TeeReplication.Raft.Completion
import TeeReplication.Raft.Streams
import TeeReplication.Raft.Outcome
import TeeReplication.Raft.Startup
import TeeReplication.Raft.Programs
import TeeReplication.Raft.Delivery
import TeeReplication.Raft.ReorderBuffer
import TeeReplication.Raft.AckHistory
import TeeReplication.Raft.CommitLoop
import TeeReplication.Raft.Votes
import TeeReplication.Raft.Reclaim
import TeeReplication.Chain.Cluster
import TeeReplication.Chain.Exchange
import TeeReplication.Chain.Moves
import TeeReplication.Chain.Mirror
import TeeReplication.Chain.Propagation
import TeeReplication.Chain.HeadIndex
import TeeReplication.Chain.InFlight
import TeeReplication.Chain.Streams
import TeeReplication.Chain.Completion
import TeeReplication.Chain.Startup
import TeeReplication.Chain.Programs
