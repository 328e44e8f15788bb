import TeeReplication.Raft.Exchange
import TeeReplication.Raft.Lane

/-!
# Where frames come from

Whatever the links do, as long as they do not forge, every frame is a request of
the sender or an acknowledgement of some follower, and a follower acknowledges
only indices it has received. What the leader's receivers log therefore comes from
one of these frames; since the encodings of requests and acknowledgements are the
same, it need not come from an acknowledgement.
-/

namespace TeeReplication.Raft

variable {S : Setup} {policy : Policy Link Frame} {c c' : Cluster} {f : FollowerId}
  {l l' : Lane} {Req Ack : Frame → Prop} {b : Frame}

/-- A frame that some sender of the cluster can build. -/
def Setup.Built (S : Setup) (b : Frame) : Prop :=
  ∃ id nodeId, IsInt id ∧ IsInt nodeId ∧ id < nbRequests ∧
    b = attestedFrame S.hmac (writePair id nodeId)

/-- The keys of the followers are `int`s. -/
theorem FollowerId.isInt_key (f : FollowerId) : IsInt f.key := by
  cases f <;> decide

/-- The indices of an experiment are `int`s. -/
theorem isInt_of_lt {k : ℤ} (hlo : -1 ≤ k) (hhi : k < nbRequests) : IsInt k := by
  have hnb := nbRequests_lt
  exact ⟨by omega, by omega⟩

/-- The indices of the frames are read back from them. -/
theorem frameId_request {k : ℤ} (hk : IsInt k) : frameId (S.request f k) = k :=
  frameId_attestedFrame S.hmac hk f.key

theorem frameId_ack {k : ℤ} (hk : IsInt k) : frameId (S.ack f k) = k :=
  frameId_attestedFrame S.hmac hk (S.nodeId f).toInt

/-- The leader's receiver of a lane that starts has received nothing. -/
theorem Lane.receiver_start (q : ℤ) : Leader.Represents q
    (members (Lane.start.acked.map frameId)) Lane.start.receiver.state := by
  have hnone : Lane.start.acked.map frameId = [] := rfl
  rw [hnone, members_nil]
  exact .init q

/-- What holds of a lane on any links that do not forge. -/
structure Lane.Honest (S : Setup) (f : FollowerId) (l : Lane) : Prop where
  /-- The requests sent are the first ones of the experiment, in order. -/
  requests_eq : l.requests = (Int.range 0 l.sentTo).map (S.request f)
  /-- There are no more than the experiment has. -/
  sentTo_le : (l.sentTo : ℤ) ≤ nbRequests
  /-- Every index received is one of the experiment. -/
  received_lt : ∀ k ∈ l.received.map frameId, k < nbRequests
  /-- The follower's state is that after the frames received. -/
  follower : Follower.Represents (members (l.received.map frameId)) l.follower.state
  /-- The follower has acknowledged only indices up to its commit index. -/
  acks : ∀ b ∈ l.acks, ∃ k, -1 ≤ k ∧ k ≤ l.follower.state.s.cmtIdx ∧ b = S.ack f k

namespace Lane.Honest

/-- Nothing has happened on a lane that starts. -/
theorem start : Lane.start.Honest S f where
  requests_eq := rfl
  sentTo_le := nbRequests_pos.le
  received_lt _ hk := absurd hk List.not_mem_nil
  follower := by
    rw [show Lane.start.received.map frameId = [] from rfl, members_nil]
    exact .init
  acks _ hb := absurd hb List.not_mem_nil

/-- The follower's commit index is one of the experiment. -/
theorem cmtIdx_lt (hl : l.Honest S f) : l.follower.state.s.cmtIdx < nbRequests := by
  have hnb := nbRequests_pos
  have hle := hl.follower.frontier.le_of_forall_le (b := nbRequests - 1) (by omega)
    fun k hk => Int.le_sub_one_of_lt (hl.received_lt k hk)
  omega

/-- The requests sent are those counted. -/
theorem length_requests (hl : l.Honest S f) : (l.requests.length : ℤ) = l.sentTo := by
  simp [hl.requests_eq]

/-- Every request sent is one of the first ones of the experiment. -/
theorem mem_requests (hl : l.Honest S f) :
    b ∈ l.requests ↔ ∃ i : ℤ, 0 ≤ i ∧ i < l.sentTo ∧ b = S.request f i := by
  rw [hl.requests_eq]
  simp [Int.mem_range_iff, and_assoc, eq_comm]

/-- A request is a frame that can be built. -/
theorem built_request (hl : l.Honest S f) (hb : b ∈ l.requests) : S.Built b := by
  obtain ⟨i, hlo, hi, rfl⟩ := hl.mem_requests.mp hb
  have hle := hl.sentTo_le
  exact ⟨i, f.key, isInt_of_lt (by omega) (by omega), f.isInt_key, by omega, rfl⟩

/-- An acknowledgement is a frame that can be built. -/
theorem built_ack (hl : l.Honest S f) (hb : b ∈ l.acks) : S.Built b := by
  obtain ⟨k, hlo, hle, rfl⟩ := hl.acks b hb
  have hlt := hl.cmtIdx_lt
  exact ⟨k, _, isInt_of_lt hlo (by omega), isInt_toInt _, by omega, rfl⟩

/-- Moves on which the follower gets only frames that can be built keep a lane honest. -/
theorem move (hl : l.Honest S f) (hmove : l.Move S f Req Ack l')
    (hreq : ∀ b, Req b → S.Built b) : l'.Honest S f := by
  cases hmove with
  | idle => exact hl
  | send hlt =>
    refine ⟨?_, ?_, hl.received_lt, hl.follower, hl.acks⟩
    · rw [hl.requests_eq, map_range_succ]
    · push_cast
      omega
  | receiveRequest hb hreceive =>
    obtain ⟨id, nodeId, hid, hnode, hlt, rfl⟩ := hreq _ hb
    obtain ⟨-, rfl, hsent⟩ := Follower.receive_recvFrame hid hnode hreceive
    have hmono := Follower.cmtIdx_le_afterRequest l.follower.state id nodeId
    have hafter := hl.follower.afterRequest id nodeId
    refine ⟨hl.requests_eq, hl.sentTo_le, ?_, ?_, ?_⟩
    · intro k hk
      rw [List.map_append, List.map_singleton, frameId_attestedFrame S.hmac hid,
        List.mem_append, List.mem_singleton] at hk
      rcases hk with hk | rfl
      · exact hl.received_lt k hk
      · exact hlt
    · rw [List.map_append, List.map_singleton, frameId_attestedFrame S.hmac hid, members_concat]
      exact hafter
    · intro b hb
      rw [hsent, List.mem_append, List.mem_singleton] at hb
      rcases hb with hb | rfl
      · obtain ⟨k, hlo, hle, rfl⟩ := hl.acks b hb
        exact ⟨k, hlo, hle.trans hmono, rfl⟩
      · exact ⟨_, hafter.frontier.neg_one_le, le_rfl, rfl⟩
  | receiveAck hb hreceive =>
    exact ⟨hl.requests_eq, hl.sentTo_le, hl.received_lt, hl.follower, hl.acks⟩
  | finishFollower hfinish =>
    obtain ⟨-, -, rfl⟩ := Follower.finish_eq_some hfinish
    exact ⟨hl.requests_eq, hl.sentTo_le, hl.received_lt, hl.follower, hl.acks⟩
  | finishReceiver hfinish =>
    exact ⟨hl.requests_eq, hl.sentTo_le, hl.received_lt, hl.follower, hl.acks⟩

end Lane.Honest

/-- What holds of a cluster on any links that do not forge. -/
structure Cluster.Honest (S : Setup) (c : Cluster) : Prop where
  /-- The sender is at a valid position. -/
  sender : c.sender.Valid S
  /-- Every lane is honest. -/
  lane : ∀ f, (c.lane f).Honest S f

namespace Cluster.Honest

/-- Every frame sent has been built by the leader or a follower. -/
theorem built (hc : c.Honest S) {k : Link} (hb : b ∈ c.net.sent k) : S.Built b := by
  cases k with
  | request g => exact (hc.lane g).built_request hb
  | ack g => exact (hc.lane g).built_ack hb

/-- Moves keep the cluster honest. -/
theorem step {a : Action} {events : List Event} (hc : c.Honest S)
    (hstep : c.step S policy a = some (c', events)) : c'.Honest S := by
  refine ⟨c.sender_valid hc.sender hstep, fun f => ?_⟩
  apply (hc.lane f).move (c.lane_move hc.sender hstep f)
  rintro b ⟨d, -, -, hframe⟩
  exact hc.built (Network.frame_mem hframe)

/-- Every reachable cluster is honest. -/
theorem of_reachable (h : (cluster S policy).Reachable c) : c.Honest S := by
  refine h.invariant (P := Cluster.Honest S) ⟨Sender.valid_start, fun f => ?_⟩ ?_
  · rw [show (cluster S policy).start = Cluster.start S from rfl, Cluster.lane_start]
    exact .start
  · exact fun _ _ _ _ hc hstep => hc.step hstep

end Cluster.Honest

/-- On a network that redirects and replays but does not forge, whatever a receiver of the
leader logs has been emitted before, by the follower whose node id it is or as a request to
the follower whose key it is. -/
theorem loggedEntries_origin (S : Setup) {c : Cluster}
    (h : (cluster S Network.replay).Reachable c) (f : FollowerId) {d : Delivery Link}
    (hd : d.target = .ack f) {c' : Cluster} {events : List Event}
    (hstep : c.step S Network.replay (.deliver d) = some (c', events)) {ackId nodeId : ℤ}
    (hlogged : (ackId, nodeId) ∈ loggedEntries events) :
    (∃ g, nodeId = (S.nodeId g).toInt ∧ S.ack g ackId ∈ c.net.sent (.ack g)) ∨
      ∃ g, nodeId = g.key ∧ S.request g ackId ∈ c.net.sent (.request g) := by
  have hc := Cluster.Honest.of_reachable h
  obtain ⟨source, target, index⟩ := d
  obtain rfl : target = .ack f := hd
  obtain ⟨b, -, hframe, harrive⟩ := Cluster.step_deliver_eq_some hstep
  obtain ⟨⟨p, t⟩, hreceive, heq⟩ := Option.map_eq_some_iff.mp harrive
  obtain ⟨-, rfl⟩ := Prod.mk.inj heq
  have hb := Network.frame_mem hframe
  have hpair {id node : ℤ} (hid : IsInt id) (hnode : IsInt node)
      (heq : b = attestedFrame S.hmac (writePair id node)) : ackId = id ∧ nodeId = node := by
    subst heq
    rw [Leader.loggedEntries_of_receive hid hnode hreceive, List.mem_singleton] at hlogged
    exact Prod.mk.inj hlogged
  cases source with
  | request g =>
    have hl := hc.lane g
    obtain ⟨i, hlo, hi, heq⟩ := hl.mem_requests.mp hb
    have hle := hl.sentTo_le
    obtain ⟨rfl, rfl⟩ := hpair (isInt_of_lt (by omega) (by omega)) g.isInt_key heq
    exact Or.inr ⟨g, rfl, heq ▸ hb⟩
  | ack g =>
    have hl := hc.lane g
    obtain ⟨k, hlo, hle, heq⟩ := hl.acks b hb
    have hlt := hl.cmtIdx_lt
    obtain ⟨rfl, rfl⟩ := hpair (isInt_of_lt hlo (by omega)) (isInt_toInt _) heq
    exact Or.inl ⟨g, rfl, heq ▸ hb⟩

/-- The theorem applies to the first acknowledgement of the first follower. -/
theorem loggedEntries_origin_first_ack : ∃ c c' events,
    (cluster .example Network.replay).Reachable c ∧
      c.step .example Network.replay (.deliver ⟨.ack .one, .ack .one, 0⟩) = some (c', events) ∧
      (0, 1) ∈ loggedEntries events ∧
      ((∃ g, 1 = (Setup.example.nodeId g).toInt ∧
          Setup.example.ack g 0 ∈ c.net.sent (.ack g)) ∨
        ∃ g, 1 = g.key ∧ Setup.example.request g 0 ∈ c.net.sent (.request g)) := by
  have hrun : (((cluster .example Network.replay).exec (Cluster.start .example)
      [.send, .deliver ⟨.request .one, .request .one, 0⟩]).bind fun c =>
        (c.step .example Network.replay (.deliver ⟨.ack .one, .ack .one, 0⟩)).map fun r =>
          loggedEntries r.2) = some [(0, 1)] := by decide +kernel
  obtain ⟨c, hexec, hrun⟩ := Option.bind_eq_some_iff.mp hrun
  obtain ⟨⟨c', events⟩, hstep, hlogged⟩ := Option.map_eq_some_iff.mp hrun
  have hmem : (0, 1) ∈ loggedEntries events := by
    rw [hlogged]
    exact List.mem_singleton.mpr rfl
  have hreach := Machine.reachable_of_exec hexec
  exact ⟨c, c', events, hreach, hstep, hmem,
    loggedEntries_origin .example hreach .one rfl hstep hmem⟩

/-- After some run a delivery to the leader's receiver for the first follower logs an entry,
though that follower has sent nothing. -/
def LogsUnsent (d : Delivery Link) (entry : ℤ × ℤ) : Prop :=
  ∃ c c' events, (cluster .example Network.replay).Reachable c ∧ d.target = .ack .one ∧
    c.step .example Network.replay (.deliver d) = some (c', events) ∧
    entry ∈ loggedEntries events ∧ c.net.sent (.ack .one) = []

/-- It is enough to run the cluster. -/
theorem logsUnsent_of_exec {d : Delivery Link} {entry : ℤ × ℤ} (actions : List Action)
    (hd : d.target = .ack .one)
    (hrun : (((cluster .example Network.replay).exec (Cluster.start .example) actions).bind
      fun c => (c.step .example Network.replay (.deliver d)).map fun r =>
        (loggedEntries r.2, c.net.sent (.ack .one))) = some ([entry], [])) :
    LogsUnsent d entry := by
  obtain ⟨c, hexec, hrun⟩ := Option.bind_eq_some_iff.mp hrun
  obtain ⟨⟨c', events⟩, hstep, heq⟩ := Option.map_eq_some_iff.mp hrun
  obtain ⟨hlogged, hsent⟩ := Prod.mk.inj heq
  refine ⟨c, c', events, Machine.reachable_of_exec hexec, hd, hstep, ?_, hsent⟩
  rw [hlogged]
  exact List.mem_singleton.mpr rfl

/-- A request to the first follower that is redirected to the leader's receiver for it is logged
there as if it were an acknowledgement, and so is an acknowledgement of the other follower. -/
theorem redirected_frames_are_logged :
    LogsUnsent ⟨.request .one, .ack .one, 0⟩ (0, 1) ∧
      LogsUnsent ⟨.ack .two, .ack .one, 0⟩ (0, 2) :=
  ⟨logsUnsent_of_exec [.send] rfl (by decide +kernel),
    logsUnsent_of_exec [.send, .send, .deliver ⟨.request .two, .request .two, 0⟩] rfl
      (by decide +kernel)⟩

end TeeReplication.Raft
