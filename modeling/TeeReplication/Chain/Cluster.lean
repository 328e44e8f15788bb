import TeeReplication.Chain.Head
import TeeReplication.Chain.Tail
import TeeReplication.Foundations.Machine
import TeeReplication.Foundations.Network

/-!
# The chain

The head's sender thread, the middle, the tail and the head's `receiver_finale`,
joined in a ring by three links. Any of them may move at any time, and the scheduler
decides which frame a link delivers. What the sender sends is a parameter, so that
the chain can be studied on inputs that the head would not produce.
-/

namespace TeeReplication.Chain

/-- The links of the chain, by their receiving end. -/
inductive Link
  | toMiddle
  | toTail
  | toHead
  deriving DecidableEq

/-- The requests that are sent to the middle, as pairs of an index and a node id. -/
structure Feed where
  /-- The request with a given number, unless there are no more. -/
  request : ℕ → Option (ℤ × ℤ)
  /-- All of them are pairs of `int`s. -/
  isInt : ∀ i id nodeId, request i = some (id, nodeId) → IsInt id ∧ IsInt nodeId

/-- What the head's `sender` sends. -/
def Feed.sender : Feed where
  request i := if (i : ℤ) < nbRequests then some (i, middleId) else none
  isInt i id nodeId h := by
    have hnb := nbRequests_lt
    split at h
    · obtain ⟨rfl, rfl⟩ := Prod.mk.inj (Option.some.inj h)
      exact ⟨⟨by omega, by omega⟩, by decide⟩
    · cases h

/-- Any list of pairs of 32-bit integers. -/
def Feed.ofList (x : List (Int32 × Int32)) : Feed where
  request i := x[i]?.map fun p => (p.1.toInt, p.2.toInt)
  isInt i id nodeId h := by
    obtain ⟨p, -, hp⟩ := Option.map_eq_some_iff.mp h
    obtain ⟨rfl, rfl⟩ := Prod.mk.inj hp
    exact ⟨isInt_toInt _, isInt_toInt _⟩

/-- What is fixed when the chain starts. -/
structure Setup where
  /-- The HMAC that everybody uses. -/
  hmac : Hmac
  /-- The node id that the tail was started with. -/
  tailNodeId : Int32
  /-- What is sent to the middle. -/
  feed : Feed

namespace Setup

variable (S : Setup)

/-- The frame of a request. For the head's own feed it is that of `gen_and_send_request`. -/
def request (pair : ℤ × ℤ) : Frame := attestedFrame S.hmac (writePair pair.1 pair.2)

/-- The frame with which the tail acknowledges `cmtIdx`. -/
def ack (cmtIdx : ℤ) : Frame := Tail.ackFrame S.hmac cmtIdx S.tailNodeId.toInt

/-- The loop of the middle. -/
def middle : EventLoop State RecvResult Event Fault := Middle.receiver S.hmac

/-- The loop of the tail. -/
def tail : EventLoop State RecvResult Event Fault := Tail.receiver S.hmac S.tailNodeId.toInt

/-- The loop of the head. -/
def head : EventLoop State RecvResult Event Fault := Head.receiverFinale S.hmac

end Setup

/-- The chain: how far the sender is, the local states of the three loops and the links. -/
structure Cluster where
  /-- `i` of the sender. -/
  i : ℕ
  /-- `receiver` of the middle. -/
  middle : Process State
  /-- `receiver` of the tail. -/
  tail : Process State
  /-- `receiver_finale` of the head. -/
  head : Process State
  /-- What has been sent and delivered. -/
  net : Network Link Frame

/-- Who moves next. -/
inductive Action
  /-- The sender sends its next frame. -/
  | send
  /-- A frame is delivered to the loop at the end of a link, which handles it. -/
  | deliver (d : Delivery Link)
  /-- The exit test of the head succeeds; the other loops have none. -/
  | finishHead
  deriving DecidableEq

namespace Cluster

/-- Before the first move. -/
def start : Cluster where
  i := 0
  middle := EventLoop.enter .init
  tail := EventLoop.enter .init
  head := EventLoop.enter .init
  net := .empty

/-- A frame arrives at the end of a link. -/
def arrive (S : Setup) (c : Cluster) (b : Frame) : Link → Option (Cluster × List Event)
  | .toMiddle => (S.middle.receive c.middle (recvFrame b)).map fun r =>
      ({ c with
          middle := r.1
          net := (c.net.deliver .toMiddle b).sendAll .toTail (sentFrames r.2) }, r.2)
  | .toTail => (S.tail.receive c.tail (recvFrame b)).map fun r =>
      ({ c with
          tail := r.1
          net := (c.net.deliver .toTail b).sendAll .toHead (sentFrames r.2) }, r.2)
  | .toHead => (S.head.receive c.head (recvFrame b)).map fun r =>
      ({ c with head := r.1, net := c.net.deliver .toHead b }, r.2)

/-- One move, with the events of the loop that moves. -/
def step (S : Setup) (policy : Policy Link Frame) (c : Cluster) :
    Action → Option (Cluster × List Event)
  | .send => (S.feed.request c.i).map fun pair =>
      ({ c with i := c.i + 1, net := c.net.sendAll .toMiddle [S.request pair] },
        [.send (S.request pair)])
  | .deliver d =>
    if policy c.net d then (c.net.frame d).bind fun b => c.arrive S b d.target else none
  | .finishHead => (S.head.finish c.head).map fun r => ({ c with head := r.1 }, r.2)

end Cluster

/-- The chain as a machine. -/
def chain (S : Setup) (policy : Policy Link Frame) : Machine Cluster Action Event :=
  ⟨Cluster.start, Cluster.step S policy⟩

/-- A setup with the given feed on which the machine can be run. -/
def Setup.example (feed : Feed) : Setup := ⟨zeroHmac, 2, feed⟩

end TeeReplication.Chain
