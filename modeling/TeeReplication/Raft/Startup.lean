import TeeReplication.Net.Startup
import TeeReplication.Raft.Streams

/-!
# How the raft programs find each other

The leader connects to one follower after the other and waits for each of them to
connect back. It tries once, so a follower that does not listen yet makes it exit; the
followers try repeatedly. Whatever the interleaving, the sockets that the threads get
in the end are those of the right peers.
-/

namespace TeeReplication.Raft

/-- The machines, each with one program. -/
inductive Node
  | leader
  | follower (f : FollowerId)
  deriving DecidableEq

/-- `follower_1_port` and `follower_2_port`. -/
def FollowerId.port : FollowerId → ℕ
  | .one => 18000
  | .two => 18002

/-- The node id that a follower is started with, and by which the leader knows it. -/
def FollowerId.nodeId : FollowerId → ℕ
  | .one => follower1Id.toNat
  | .two => follower2Id.toNat

open Net

/-- The socket calls of `main`. -/
def Node.main : Node → List (SocketCall (Endpoint Node))
  | .leader =>
    connectToTheServer (FollowerId.port .one) (.follower .one) (FollowerId.nodeId .one) .leader ++
      connectToTheServer (FollowerId.port .two) (.follower .two) (FollowerId.nodeId .two) .leader
  | .follower f => createReceiverConnection f.port (.follower f) f.nodeId (some .leader)

/-- The machine that a thread runs on. -/
def Thread.node : Thread → Node
  | .sender | .receiver _ => .leader
  | .follower f => .follower f

/-- The address at which the connection of a link is accepted. Its reader has the socket that is
accepted there as its `listening_socket`, its writer the one that connects as its
`sending_socket`. -/
def Link.endpoint : Link → Endpoint Node
  | .request f => (.follower f, f.port)
  | .ack f => (.leader, clientBaseAddr + f.nodeId)

instance : Fintype FollowerId where
  elems := {.one, .two}
  complete f := by cases f <;> decide

instance : Fintype Node where
  elems := {.leader, .follower .one, .follower .two}
  complete p := by rcases p with - | (_ | _) <;> decide

/-- Who connects to an address. -/
def dialer (a : Endpoint Node) : Node :=
  if a = Link.endpoint (.ack .one) then .follower .one
  else if a = Link.endpoint (.ack .two) then .follower .two
  else .leader

/-- The leader is connected to its first follower in both directions, then to the second one. -/
def plan : Rendezvous.Plan Node.main where
  addresses := [Link.endpoint (.request .one), Link.endpoint (.ack .one),
    Link.endpoint (.request .two), Link.endpoint (.ack .two)]
  dialer := dialer
  host := Prod.fst
  time a := [Link.endpoint (.request .one), Link.endpoint (.ack .one),
    Link.endpoint (.request .two), Link.endpoint (.ack .two)].idxOf a
  connects := by decide
  listens := by decide
  accepts := by decide
  mem_addresses := by decide
  waits := by decide

/-- The links of the cluster, from the machine of the writing thread to that of the reading one. -/
def links : plan.Links Link where
  address := Link.endpoint
  writer k := k.writer.node
  reader k := k.reader.node
  mem k := by rcases k with (_ | _) | (_ | _) <;> decide
  dialer_eq k := by rcases k with (_ | _) | (_ | _) <;> decide
  host_eq k := by rcases k with (_ | _) | (_ | _) <;> decide

/-- The programs of the cluster stop setting up their connections. On the way nobody accepts a wrong
peer, and a program exits exactly if it is refused a connection for the last time; that is the only
obstacle to all links being wired, and if everybody listens in time there is none. -/
theorem startup_wires : (rendezvous Node.main).Halts (fun _ _ => True) ∧
    (∀ s, (rendezvous Node.main).Reachable s → links.Outcome s) ∧
    ∀ s, (rendezvous Node.main).ReachableBy (Rendezvous.InTime Node.main) s →
      (∀ p, s.step Node.main p = none) → links.Wired s :=
  ⟨Rendezvous.halts _, fun _ h => links.outcome h, fun _ h hstuck =>
    links.wired_of_inTime h hstuck⟩

end TeeReplication.Raft
