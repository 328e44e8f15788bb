import TeeReplication.Raft.Provenance

/-!
# Commit safety over unreliable links

Each link may lose, repeat and reorder its frames but delivers nothing else. The
leader then commits for a follower only what that follower has committed, and the
follower only what it was sent and has received, without gaps.
-/

namespace TeeReplication.Raft

variable {S : Setup} {c c' : Cluster} {f : FollowerId} {l l' : Lane} {b : Frame}

/-- What holds of a lane on links that deliver only what was sent on them. -/
structure Lane.Safe (S : Setup) (f : FollowerId) (l : Lane) : Prop extends Honest S f l where
  /-- The follower has received only requests sent to it. -/
  received_subset : ∀ b ∈ l.received, b ∈ l.requests
  /-- The leader's receiver has received only acknowledgements of the follower. -/
  acked_subset : ∀ b ∈ l.acked, b ∈ l.acks
  /-- Its state is that after the frames received. -/
  receiver : Leader.Represents (S.nodeId f).toInt (members (l.acked.map frameId)) l.receiver.state

namespace Lane.Safe

/-- Nothing has happened on a lane that starts. -/
theorem start : Lane.start.Safe S f where
  toHonest := .start
  received_subset _ hb := absurd hb List.not_mem_nil
  acked_subset _ hb := absurd hb List.not_mem_nil
  receiver := Lane.receiver_start _

/-- The index in an acknowledgement that was sent is at most the follower's commit index. -/
theorem eq_ack_of_mem_acks (hl : l.Safe S f) (hb : b ∈ l.acks) :
    ∃ k, IsInt k ∧ k ≤ l.follower.state.s.cmtIdx ∧ b = S.ack f k := by
  obtain ⟨k, hlo, hle, rfl⟩ := hl.acks b hb
  exact ⟨k, isInt_of_lt hlo (hle.trans_lt hl.cmtIdx_lt), hle, rfl⟩

/-- The leader has not committed more than the follower. -/
theorem receiver_le_follower (hl : l.Safe S f) :
    l.receiver.state.s.cmtIdx ≤ l.follower.state.s.cmtIdx := by
  apply hl.receiver.frontier.le_of_forall_le hl.follower.frontier.neg_one_le
  intro k hk
  obtain ⟨b, hb, rfl⟩ := List.mem_map.mp hk
  obtain ⟨k, hint, hle, rfl⟩ := hl.eq_ack_of_mem_acks (hl.acked_subset b hb)
  rwa [frameId_ack hint]

/-- Everything that the follower has committed was sent to it and received. -/
theorem request_mem (hl : l.Safe S f) {k : ℤ} (hlo : 0 ≤ k)
    (hle : k ≤ l.follower.state.s.cmtIdx) :
    S.request f k ∈ l.requests ∧ S.request f k ∈ l.received := by
  obtain ⟨b, hb, hk⟩ := List.mem_map.mp (hl.follower.frontier.mem k hlo hle)
  have hsent := hl.received_subset b hb
  obtain ⟨i, hlo, hi, rfl⟩ := hl.mem_requests.mp hsent
  have hsentTo := hl.sentTo_le
  rw [frameId_request (isInt_of_lt (by omega) (by omega))] at hk
  rw [← hk]
  exact ⟨hsent, hb⟩

/-- A move on which each end gets only what was sent to it keeps a lane safe, and neither commit
index goes down. -/
theorem move (hl : l.Safe S f) (hmove : l.Move S f (· ∈ l.requests) (· ∈ l.acks) l') :
    l'.Safe S f ∧ l.follower.state.s.cmtIdx ≤ l'.follower.state.s.cmtIdx ∧
      l.receiver.state.s.cmtIdx ≤ l'.receiver.state.s.cmtIdx := by
  have hhonest := hl.toHonest.move hmove fun b hb => hl.built_request hb
  cases hmove with
  | idle => exact ⟨hl, le_rfl, le_rfl⟩
  | send hlt =>
    refine ⟨⟨hhonest, fun b hb => ?_, hl.acked_subset, hl.receiver⟩, le_rfl, le_rfl⟩
    exact List.mem_append_left _ (hl.received_subset b hb)
  | receiveRequest hb hreceive =>
    obtain ⟨id, nodeId, hid, hnode, hlt, rfl⟩ := hl.built_request hb
    obtain ⟨-, rfl, -⟩ := Follower.receive_recvFrame hid hnode hreceive
    refine ⟨⟨hhonest, ?_, fun b hb => List.mem_append_left _ (hl.acked_subset b hb), hl.receiver⟩,
      Follower.cmtIdx_le_afterRequest _ _ _, le_rfl⟩
    intro b hmem
    rw [List.mem_append, List.mem_singleton] at hmem
    rcases hmem with hmem | rfl
    · exact hl.received_subset b hmem
    · exact hb
  | receiveAck hb hreceive =>
    obtain ⟨k, hint, hle, rfl⟩ := hl.eq_ack_of_mem_acks hb
    obtain ⟨-, -, hafter, hmono, -⟩ := hl.receiver.receive hint
      ((hle.trans_lt hl.cmtIdx_lt).trans_le nbRequests_le_intMax) (isInt_toInt _) hreceive
    refine ⟨⟨hhonest, hl.received_subset, ?_, ?_⟩, le_rfl, hmono⟩
    · intro b hmem
      rw [List.mem_append, List.mem_singleton] at hmem
      rcases hmem with hmem | rfl
      · exact hl.acked_subset b hmem
      · exact hb
    · rwa [List.map_append, List.map_singleton, frameId_ack hint, members_concat]
  | finishFollower hfinish =>
    obtain ⟨-, -, rfl⟩ := Follower.finish_eq_some hfinish
    exact ⟨⟨hhonest, hl.received_subset, hl.acked_subset, hl.receiver⟩, le_rfl, le_rfl⟩
  | finishReceiver hfinish =>
    obtain ⟨-, -, rfl⟩ := hl.receiver.finish hfinish
    exact ⟨⟨hhonest, hl.received_subset, hl.acked_subset, hl.receiver⟩, le_rfl, le_rfl⟩

end Lane.Safe

/-- On unreliable links each end of a lane gets only what was sent to it. -/
theorem Lane.Move.of_bag (hmove : (c.lane f).Move S f (Deliverable Network.bag c (.request f))
      (Deliverable Network.bag c (.ack f)) l') :
    (c.lane f).Move S f (· ∈ (c.lane f).requests) (· ∈ (c.lane f).acks) l' := by
  apply hmove.mono
  all_goals
    rintro b ⟨d, hd, hpolicy, hframe⟩
    have hsent := Network.bag_frame hpolicy hframe
    rwa [hd] at hsent

/-- Every lane of a cluster on unreliable links is safe. -/
theorem Cluster.safe_of_reachable (h : (cluster S Network.bag).Reachable c) :
    c.sender.Valid S ∧ ∀ f, (c.lane f).Safe S f :=
  Cluster.lanes_of_reachable (P := fun f l => l.Safe S f) (fun _ => .start)
    (fun _ _ _ hl hmove => (hl.move hmove.of_bag).1) h

/-- Commit safety: for each follower the leader has committed no more than the follower, the
follower has committed only requests that were sent to it and that it has received, and no move
lowers a commit index. -/
theorem commit_safety (S : Setup) {c : Cluster} (h : (cluster S Network.bag).Reachable c)
    (f : FollowerId) :
    c.leaderCmtIdx f ≤ c.followerCmtIdx f ∧
      (∀ k, 0 ≤ k → k ≤ c.followerCmtIdx f →
        S.request f k ∈ c.net.sent (.request f) ∧ S.request f k ∈ c.net.delivered (.request f)) ∧
      ∀ a c' events, c.step S Network.bag a = some (c', events) →
        c.leaderCmtIdx f ≤ c'.leaderCmtIdx f ∧ c.followerCmtIdx f ≤ c'.followerCmtIdx f := by
  obtain ⟨hs, hlane⟩ := Cluster.safe_of_reachable h
  refine ⟨(hlane f).receiver_le_follower, fun k hlo hle => (hlane f).request_mem hlo hle, ?_⟩
  intro a c' events hstep
  obtain ⟨-, hfollower, hreceiver⟩ := (hlane f).move (c.lane_move hs hstep f).of_bag
  exact ⟨hreceiver, hfollower⟩

/-- Commit safety applies after the second request has been delivered twice before the first, and
the last of the acknowledgements first. -/
theorem commit_safety_reordered : ∃ c, (cluster .example Network.bag).Reachable c ∧
    c.followerCmtIdx .one = 1 ∧ c.leaderCmtIdx .one = -1 ∧
      c.leaderCmtIdx .one ≤ c.followerCmtIdx .one := by
  have hrun : ((cluster .example Network.bag).exec (Cluster.start .example)
      [.send, .send, .send, .deliver ⟨.request .one, .request .one, 1⟩,
        .deliver ⟨.request .one, .request .one, 1⟩, .deliver ⟨.request .one, .request .one, 0⟩,
        .deliver ⟨.ack .one, .ack .one, 2⟩]).map
      (fun c => (c.followerCmtIdx .one, c.leaderCmtIdx .one)) = some (1, -1) := by decide +kernel
  obtain ⟨c, hexec, heq⟩ := Option.map_eq_some_iff.mp hrun
  obtain ⟨hfollower, hleader⟩ := Prod.mk.inj heq
  have hreach := Machine.reachable_of_exec hexec
  exact ⟨c, hreach, hfollower, hleader, (commit_safety .example hreach .one).1⟩

end TeeReplication.Raft
