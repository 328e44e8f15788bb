import TeeReplication.Raft.Provenance

/-!
# Out-of-order delivery

The follower acknowledges its commit index after every request, so that requests
that arrive early are acknowledged under an older index. The leader commits an
index only once that very index has been acknowledged. The two ends therefore agree
after all requests have been delivered only if they were delivered in order.
-/

namespace TeeReplication.Raft

variable {h : Hmac}

/-- A follower that is offered the requests of a list handles all of them and acknowledges the
frontier after each. -/
theorem Follower.feed_requests (curNodeId : ℤ) {nodeId : ℤ} (hnode : IsInt nodeId) {l : List ℤ}
    (hl : ∀ k ∈ l, IsInt k) (hlength : (l.length : ℤ) ≤ nbRequests) :
    let run := (receiver h curNodeId).feed (EventLoop.enter Receiver.init)
      (l.map fun k => recvFrame (attestedFrame h (writePair k nodeId)))
    run.1.status = .running ∧ Represents (members l) run.1.state ∧
      sentFrames run.2 = (progress l).map (ackFrame h · curNodeId) := by
  induction l using List.reverseRecOn with
  | nil =>
    refine ⟨rfl, ?_, rfl⟩
    rw [members_nil]
    exact .init
  | append_singleton l k ih =>
    rw [List.length_append, List.length_singleton] at hlength
    obtain ⟨hrunning, hstate, hsent⟩ := ih (fun i hi => hl i (List.mem_append_left _ hi)) (by omega)
    have hk := hl k (List.mem_append_right _ (List.mem_singleton.mpr rfl))
    simp only [EventLoop.feed_map_concat]
    generalize (receiver h curNodeId).feed (EventLoop.enter Receiver.init) _ = run at *
    have hwait : (receiver h curNodeId).Waiting run.1 = true := by
      have hroom := hstate.frontier.lt_length
      rw [waiting_iff, hstate.lastCmtAckId_eq]
      exact ⟨hrunning, by omega⟩
    have hafter := hstate.afterRequest k nodeId
    rw [← members_concat] at hafter
    rw [EventLoop.offer_of_waiting _ hwait, receiver_body, receiverBody_recvFrame hk hnode]
    refine ⟨rfl, hafter, ?_⟩
    rw [sentFrames_append, sentFrames_append, sentFrames_readTrace, List.nil_append,
      sentFrames_onRequest, hsent, progress_concat, List.map_append, List.map_singleton,
      hafter.frontier.unique (isFrontier_frontier _)]

/-- A receiver of the leader that is offered acknowledgements of one follower handles all of
them. -/
theorem Leader.feed_acks {q : ℤ} (hq : IsInt q) {l : List ℤ}
    (hl : ∀ k ∈ l, IsInt k ∧ k < intMax) (hlength : (l.length : ℤ) ≤ nbRequests) :
    let run := (receiver h).feed (EventLoop.enter Receiver.init)
      (l.map fun k => recvFrame (Follower.ackFrame h k q))
    run.1.status = .running ∧ Represents q (members l) run.1.state := by
  induction l using List.reverseRecOn with
  | nil =>
    refine ⟨rfl, ?_⟩
    rw [members_nil]
    exact .init q
  | append_singleton l k ih =>
    rw [List.length_append, List.length_singleton] at hlength
    obtain ⟨hrunning, hstate⟩ := ih (fun i hi => hl i (List.mem_append_left _ hi)) (by omega)
    obtain ⟨hk, hlt⟩ := hl k (List.mem_append_right _ (List.mem_singleton.mpr rfl))
    simp only [EventLoop.feed_map_concat]
    generalize (receiver h).feed (EventLoop.enter Receiver.init) _ = run at *
    have hwait : (receiver h).Waiting run.1 = true := by
      have hroom := hstate.frontier.lt_length
      exact waiting_iff.mpr ⟨hrunning, by omega⟩
    have hreceive := EventLoop.receive_of_waiting _ hwait (recvFrame (Follower.ackFrame h k q))
    obtain ⟨-, hnext, hafter, -⟩ := hstate.receive hk hlt hq hreceive
    rw [EventLoop.offer_of_waiting _ hwait, members_concat]
    exact ⟨hnext, hafter⟩

namespace Setup

variable (S : Setup)

/-- A follower that starts and is delivered requests in some order, with everything it does. -/
def followerRun (f : FollowerId) (order : List ℤ) : Process Follower.Receiver × List Event :=
  (S.follower f).feed (EventLoop.enter .init) (order.map fun k => recvFrame (S.request f k))

/-- A receiver of the leader that starts and is delivered the frames in a trace. -/
def leaderRun (trace : List Event) : Process Leader.Receiver :=
  (S.receiver.feed (EventLoop.enter .init) ((sentFrames trace).map recvFrame)).1

end Setup

/-- For every order in which the requests `0, .., n - 1` are delivered to a follower, the leader's
receiver that gets its acknowledgements ends with the follower's commit index `n - 1` exactly
when the order is the one in which they are sent. -/
theorem leaderRun_agrees_iff (S : Setup) (f : FollowerId) {n : ℤ} (hpos : 1 ≤ n)
    (hn : n ≤ nbRequests) {order : List ℤ} (horder : order.Perm (Int.range 0 n)) :
    ((S.leaderRun (S.followerRun f order).2).state.s.cmtIdx =
        (S.followerRun f order).1.state.s.cmtIdx ∧
      (S.followerRun f order).1.state.s.cmtIdx = n - 1) ↔ order = Int.range 0 n := by
  have hrange : upTo (n - 1) = Int.range 0 n := by rw [upTo, Int.sub_add_cancel]
  have hlength : (order.length : ℤ) = n := by
    rw [horder.length_eq, length_range]
    omega
  have hmem (k : ℤ) : k ∈ order ↔ 0 ≤ k ∧ k < n := by
    rw [horder.mem_iff, Int.mem_range_iff]
  have hint (k : ℤ) (hk : k ∈ order) : IsInt k := by
    obtain ⟨hlo, hhi⟩ := (hmem k).mp hk
    exact isInt_of_lt (by omega) (by omega)
  have hfrontier : IsFrontier (members order) (n - 1) := by
    have hall : members order = members (upTo (n - 1)) := by
      ext k
      rw [mem_members, mem_members, hrange, horder.mem_iff]
    rw [hall]
    exact isFrontier_upTo (by omega)
  obtain ⟨-, hfollower, hsent⟩ := Follower.feed_requests (h := S.hmac)
    (S.nodeId f).toInt f.isInt_key hint (by omega)
  have hacked (k : ℤ) (hk : k ∈ progress order) : IsInt k ∧ k < intMax := by
    have hle := le_frontier_of_mem_progress hk
    rw [(isFrontier_frontier order).unique hfrontier] at hle
    have hlt : k < nbRequests := by omega
    exact ⟨isInt_of_lt (neg_one_le_of_mem_progress hk) hlt, hlt.trans_le nbRequests_le_intMax⟩
  obtain ⟨-, hleader⟩ := Leader.feed_acks (h := S.hmac) (isInt_toInt (S.nodeId f)) hacked
    (by rw [length_progress]; omega)
  have hcmt : (S.followerRun f order).1.state.s.cmtIdx = n - 1 :=
    hfollower.frontier.unique hfrontier
  have hack :
      (S.leaderRun (S.followerRun f order).2).state.s.cmtIdx = frontier (progress order) := by
    rw [Setup.leaderRun, show sentFrames (S.followerRun f order).2 = _ from hsent, List.map_map]
    exact hleader.frontier.unique (isFrontier_frontier _)
  rw [hack, hcmt, ← hrange, ← hlength, frontier_progress_eq_iff]
  exact and_iff_left rfl

/-- The theorem on the order of delivery applies to the first two requests in order. -/
theorem leaderRun_agrees_iff_in_order :
    (Setup.example.leaderRun (Setup.example.followerRun .one [0, 1]).2).state.s.cmtIdx =
        (Setup.example.followerRun .one [0, 1]).1.state.s.cmtIdx ∧
      (Setup.example.followerRun .one [0, 1]).1.state.s.cmtIdx = 2 - 1 :=
  (leaderRun_agrees_iff .example .one (by decide) (by decide +kernel) (by decide)).mpr (by decide)

/-- When the second request arrives first, the follower commits both and the leader neither. -/
theorem leaderRun_disagrees_out_of_order :
    List.Perm [1, 0] (Int.range 0 2) ∧
      (Setup.example.followerRun .one [1, 0]).1.state.s.cmtIdx = 1 ∧
      (Setup.example.leaderRun (Setup.example.followerRun .one [1, 0]).2).state.s.cmtIdx = -1 := by
  decide +kernel

end TeeReplication.Raft
