import TeeReplication.Foundations.Machine
import TeeReplication.Foundations.Network
import TeeReplication.Raft.Follower
import TeeReplication.Raft.Leader

/-!
# The raft cluster

The leader's sender thread, its two receiver threads and the two followers, joined
by one link in each direction between the leader and each follower. The threads
share nothing: every one has its own local variables and its own copy of
`cluster_info`. Any of them may move at any time, and the scheduler decides which
frame a link delivers. The machine takes the policy of the links as a parameter.
-/

namespace TeeReplication.Raft

/-- The two followers. -/
inductive FollowerId
  | one
  | two
  deriving DecidableEq

/-- The key of a follower in the leader's `cluster_info`, which its requests carry. -/
def FollowerId.key : FollowerId → ℤ
  | .one => follower1Id
  | .two => follower2Id

/-- The links of the cluster. -/
inductive Link
  /-- From the leader to a follower. -/
  | request (f : FollowerId)
  /-- From a follower to the leader's receiver for it. -/
  | ack (f : FollowerId)
  deriving DecidableEq

/-- What is fixed when the cluster starts. -/
structure Setup where
  /-- The HMAC that everybody uses. -/
  hmac : Hmac
  /-- The node id that each follower was started with. -/
  nodeId : FollowerId → Int32
  /-- The order in which a loop over `cluster_info` visits the connections. -/
  clusterInfo : List FollowerId
  /-- Both connections are visited once. -/
  clusterInfo_perm : clusterInfo.Perm [.one, .two]

namespace Setup

variable (S : Setup)

/-- The frame of request `reqId` to a follower. -/
def request (f : FollowerId) (reqId : ℤ) : Frame := Leader.genAndSendRequest S.hmac reqId f.key

/-- The frame with which a follower acknowledges `cmtIdx`. -/
def ack (f : FollowerId) (cmtIdx : ℤ) : Frame :=
  Follower.ackFrame S.hmac cmtIdx (S.nodeId f).toInt

/-- The loop of a follower. -/
def follower (f : FollowerId) : EventLoop Follower.Receiver RecvResult Event Fault :=
  Follower.receiver S.hmac (S.nodeId f).toInt

/-- The loop of the leader's receivers. -/
def receiver : EventLoop Leader.Receiver RecvResult Event Fault := Leader.receiver S.hmac

end Setup

/-- The position of the leader's `sender` between two frames. -/
structure Sender where
  /-- `i`. -/
  i : ℕ
  /-- The connections that the current call of `gen_and_send_request` has yet to visit. -/
  connections : List FollowerId
  deriving DecidableEq

/-- `sender` up to its next frame: the next connection of the current call, or the first one
of the next call. The frame is request `i` of the position after it. -/
def Sender.advance (S : Setup) (s : Sender) : Option (Sender × FollowerId) :=
  match s.connections with
  | f :: rest => some (⟨s.i, rest⟩, f)
  | [] =>
    if ((s.i + 1 : ℕ) : ℤ) < nbRequests then
      match S.clusterInfo with
      | f :: rest => some (⟨s.i + 1, rest⟩, f)
      | [] => none
    else none

/-- How many requests have been sent to a follower. -/
def Sender.sentTo (s : Sender) (f : FollowerId) : ℕ :=
  if f ∈ s.connections then s.i else s.i + 1

/-- The cluster: the local state of all five loops and the links. -/
structure Cluster where
  /-- `sender` of the leader. -/
  sender : Sender
  /-- `receiver` of each follower. -/
  follower : FollowerId → Process Follower.Receiver
  /-- `receiver` of the leader for each follower. -/
  receiver : FollowerId → Process Leader.Receiver
  /-- What has been sent and delivered. -/
  net : Network Link Frame

/-- Who moves next. -/
inductive Action
  /-- The sender sends its next frame. -/
  | send
  /-- A frame is delivered to the loop at the end of a link, which handles it. -/
  | deliver (d : Delivery Link)
  /-- The exit test of a follower succeeds. -/
  | finishFollower (f : FollowerId)
  /-- The exit test of a receiver of the leader succeeds. -/
  | finishReceiver (f : FollowerId)
  deriving DecidableEq

namespace Cluster

/-- Before the first move. -/
def start (S : Setup) : Cluster where
  sender := ⟨0, S.clusterInfo⟩
  follower _ := EventLoop.enter Follower.Receiver.init
  receiver _ := EventLoop.enter Leader.Receiver.init
  net := .empty

/-- A frame arrives at the end of a link. -/
def arrive (S : Setup) (c : Cluster) (b : Frame) : Link → Option (Cluster × List Event)
  | .request f => ((S.follower f).receive (c.follower f) (recvFrame b)).map fun r =>
      ({ c with
          follower := Function.update c.follower f r.1
          net := (c.net.deliver (.request f) b).sendAll (.ack f) (sentFrames r.2) }, r.2)
  | .ack f => (S.receiver.receive (c.receiver f) (recvFrame b)).map fun r =>
      ({ c with
          receiver := Function.update c.receiver f r.1
          net := c.net.deliver (.ack f) b }, r.2)

/-- One move, with the events of the loop that moves. -/
def step (S : Setup) (policy : Policy Link Frame) (c : Cluster) :
    Action → Option (Cluster × List Event)
  | .send => (c.sender.advance S).map fun r =>
      ({ c with
          sender := r.1
          net := c.net.sendAll (.request r.2) [S.request r.2 r.1.i] },
        [.send (S.request r.2 r.1.i)])
  | .deliver d =>
    if policy c.net d then (c.net.frame d).bind fun b => c.arrive S b d.target else none
  | .finishFollower f => ((S.follower f).finish (c.follower f)).map fun r =>
      ({ c with follower := Function.update c.follower f r.1 }, r.2)
  | .finishReceiver f => (S.receiver.finish (c.receiver f)).map fun r =>
      ({ c with receiver := Function.update c.receiver f r.1 }, r.2)

/-- The commit index of a follower. -/
def followerCmtIdx (c : Cluster) (f : FollowerId) : ℤ := (c.follower f).state.s.cmtIdx

/-- The commit index of the leader's receiver for a follower. -/
def leaderCmtIdx (c : Cluster) (f : FollowerId) : ℤ := (c.receiver f).state.s.cmtIdx

end Cluster

/-- The cluster as a machine. -/
def cluster (S : Setup) (policy : Policy Link Frame) : Machine Cluster Action Event :=
  ⟨Cluster.start S, Cluster.step S policy⟩

/-- The cluster that the programs build: the followers have the node ids 1 and 2. -/
def honestIds : FollowerId → Int32
  | .one => 1
  | .two => 2

/-- A setup on which the machine can be run. -/
def Setup.example : Setup := ⟨zeroHmac, honestIds, [.one, .two], .refl _⟩

end TeeReplication.Raft
