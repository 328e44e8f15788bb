import TeeReplication.Raft.Provenance

/-!
# FIFO links: what is in flight, and why nothing gets stuck

With lossless links in order every request is acknowledged under its own index, so
the two commit indices of a lane say exactly how far each end has come. The frames
in flight are those between the indices, no exit test is missed, and the only
states without a move are those in which everything is committed.
-/

namespace TeeReplication.Raft

variable {S : Setup} {c c' : Cluster} {f : FollowerId} {l l' : Lane}

/-- The indices of the first `n` frames of a kind that carry their position. -/
theorem map_frameId_range {g : ℤ → Frame} (hg : ∀ k, IsInt k → frameId (g k) = k) {n : ℤ}
    (hn : n ≤ nbRequests) : ((Int.range 0 n).map g).map frameId = upTo (n - 1) := by
  rw [List.map_map, upTo, Int.sub_add_cancel]
  refine (List.map_congr_left fun k hk => ?_).trans (List.map_id _)
  obtain ⟨hlo, hhi⟩ := Int.mem_range_iff.mp hk
  exact hg k (isInt_of_lt (by omega) (by omega))

/-- A receiver of the leader that has received the first acknowledgements in order has committed
all of them. -/
theorem Leader.Represents.cmtIdx_of_acked {q : ℤ} {st : Leader.Receiver} {acked : List Frame}
    (hst : Represents q (members (acked.map frameId)) st) {n : ℕ} (hn : (n : ℤ) ≤ nbRequests)
    (hacked : acked = (Int.range 0 n).map (S.ack f)) : st.s.cmtIdx = n - 1 := by
  have hfrontier := hst.frontier
  rw [hacked, map_frameId_range (fun k hk => frameId_ack hk) hn] at hfrontier
  exact hfrontier.unique (isFrontier_upTo (by omega))

/-- What holds of a lane on lossless links in order. -/
structure Lane.Ordered (S : Setup) (f : FollowerId) (l : Lane) : Prop extends Honest S f l where
  /-- The follower has received no more requests than were sent. -/
  received_le : l.received.length ≤ l.sentTo
  /-- They are the first ones, in order. -/
  received_eq : l.received = (Int.range 0 l.received.length).map (S.request f)
  /-- It has acknowledged each of them under its own index. -/
  acks_eq : l.acks = (Int.range 0 l.received.length).map (S.ack f)
  /-- The leader's receiver has received no more acknowledgements than were sent. -/
  acked_le : l.acked.length ≤ l.received.length
  /-- They are the first ones, in order. -/
  acked_eq : l.acked = (Int.range 0 l.acked.length).map (S.ack f)
  /-- The receiver's state is that after the frames received. -/
  receiver : Leader.Represents (S.nodeId f).toInt (members (l.acked.map frameId)) l.receiver.state
  /-- Its log is empty. -/
  receiver_log : l.receiver.state.raftLog = .empty
  /-- The follower runs unless it has received every request. -/
  follower_status : l.follower.status = .running ∨
    l.follower.status = .returned ∧ (l.received.length : ℤ) = nbRequests
  /-- The receiver runs unless it has received every acknowledgement. -/
  receiver_status : l.receiver.status = .running ∨
    l.receiver.status = .returned ∧ (l.acked.length : ℤ) = nbRequests

/-- A follower that has received the first requests in order has committed all of them. -/
theorem Lane.Honest.cmtIdx_of_received (hl : l.Honest S f) {n : ℕ} (hn : (n : ℤ) ≤ nbRequests)
    (hreceived : l.received = (Int.range 0 n).map (S.request f)) :
    l.follower.state.s.cmtIdx = n - 1 := by
  have hfrontier := hl.follower.frontier
  rw [hreceived, map_frameId_range (fun k hk => frameId_request hk) hn] at hfrontier
  exact hfrontier.unique (isFrontier_upTo (by omega))

namespace Lane.Ordered

/-- Nothing has happened on a lane that starts. -/
theorem start : Lane.start.Ordered S f where
  toHonest := .start
  received_le := le_rfl
  received_eq := rfl
  acks_eq := rfl
  acked_le := le_rfl
  acked_eq := rfl
  receiver := Lane.receiver_start _
  receiver_log := rfl
  follower_status := Or.inl rfl
  receiver_status := Or.inl rfl

/-- No more requests are received than the experiment has. -/
theorem received_le_nbRequests (hl : l.Ordered S f) :
    (l.received.length : ℤ) ≤ nbRequests := by
  have hsent := hl.sentTo_le
  have hle := hl.received_le
  omega

/-- No more acknowledgements are received than the experiment has requests. -/
theorem acked_le_nbRequests (hl : l.Ordered S f) : (l.acked.length : ℤ) ≤ nbRequests := by
  have hreceived := hl.received_le_nbRequests
  have hle := hl.acked_le
  omega

/-- The follower's commit index counts the requests it has received. -/
theorem follower_cmtIdx (hl : l.Ordered S f) :
    l.follower.state.s.cmtIdx = l.received.length - 1 :=
  hl.toHonest.cmtIdx_of_received hl.received_le_nbRequests hl.received_eq

/-- The leader's commit index counts the acknowledgements received. -/
theorem receiver_cmtIdx (hl : l.Ordered S f) :
    l.receiver.state.s.cmtIdx = l.acked.length - 1 :=
  hl.receiver.cmtIdx_of_acked hl.acked_le_nbRequests hl.acked_eq

/-- The leader has not committed more than the follower. -/
theorem leader_le_follower (hl : l.Ordered S f) :
    l.receiver.state.s.cmtIdx ≤ l.follower.state.s.cmtIdx := by
  have hle := hl.acked_le
  rw [hl.receiver_cmtIdx, hl.follower_cmtIdx]
  omega

/-- The follower has not committed more than was sent. -/
theorem follower_lt_sent (hl : l.Ordered S f) :
    l.follower.state.s.cmtIdx < l.requests.length := by
  have hlength := hl.length_requests
  have hle := hl.received_le
  rw [hl.follower_cmtIdx]
  omega

/-- The follower's buffer is empty. -/
theorem follower_log (hl : l.Ordered S f) : l.follower.state.raftLog = .empty := by
  apply InMemLog.ext_entry
  intro k
  rw [InMemLog.entry_empty, ← InMemLog.hasKey_eq_false, Bool.eq_false_iff, Ne,
    hl.follower.hasKey_iff, hl.follower_cmtIdx, hl.received_eq,
    map_frameId_range (fun k hk => frameId_request hk) hl.received_le_nbRequests, List.length_map,
    length_range]
  rintro ⟨hmem, hlt⟩
  have hle := (Int.mem_range_iff.mp hmem).2
  omega

/-- The requests in flight are those that the follower has not received. -/
theorem drop_requests (hl : l.Ordered S f) :
    l.requests.drop l.received.length =
      (Int.range (l.follower.state.s.cmtIdx + 1) l.requests.length).map (S.request f) := by
  have hlength := hl.length_requests
  have hle := hl.received_le
  rw [hlength, hl.follower_cmtIdx, Int.sub_add_cancel, hl.requests_eq,
    drop_map_range _ (by omega)]

/-- The acknowledgements in flight are those that the leader's receiver has not received. -/
theorem drop_acks (hl : l.Ordered S f) :
    l.acks.drop l.acked.length =
      (Int.range (l.receiver.state.s.cmtIdx + 1) (l.follower.state.s.cmtIdx + 1)).map
        (S.ack f) := by
  have hle := hl.acked_le
  rw [hl.follower_cmtIdx, hl.receiver_cmtIdx, Int.sub_add_cancel, Int.sub_add_cancel, hl.acks_eq,
    drop_map_range _ (by omega)]

/-- Moves on which each end gets the next frame keep a lane in order. -/
theorem move (hl : l.Ordered S f)
    (hmove : l.Move S f (l.requests[l.received.length]? = some ·)
      (l.acks[l.acked.length]? = some ·) l') : l'.Ordered S f := by
  have hhonest := hl.toHonest.move hmove fun b hb => hl.built_request (List.mem_of_getElem? hb)
  cases hmove with
  | idle => exact hl
  | send hlt =>
    exact { hl with toHonest := hhonest, received_le := hl.received_le.trans (Nat.le_succ _) }
  | @receiveRequest b p events hb hreceive =>
    rw [hl.requests_eq, getElem?_map_range] at hb
    obtain ⟨hlt, rfl⟩ := hb
    have hsent := hl.sentTo_le
    have hle := hl.acked_le
    have hlength : (l.received ++ [S.request f l.received.length]).length =
        l.received.length + 1 := by simp
    have hreceived : l.received ++ [S.request f l.received.length] =
        (Int.range 0 (l.received.length + 1 : ℕ)).map (S.request f) := by
      rw [map_range_succ, ← hl.received_eq]
    have hcmt : p.state.s.cmtIdx = (l.received.length + 1 : ℕ) - 1 :=
      hhonest.cmtIdx_of_received (by omega) hreceived
    obtain ⟨-, rfl, hevents⟩ := Follower.receive_recvFrame
      (isInt_of_lt (by omega) (by omega)) f.isInt_key hreceive
    have hafter : (Follower.afterRequest l.follower.state l.received.length f.key).s.cmtIdx =
        l.received.length := by
      change _ = _ at hcmt
      exact hcmt.trans (by omega)
    have hacks : l.acks ++ sentFrames events =
        (Int.range 0 (l.received.length + 1 : ℕ)).map (S.ack f) := by
      rw [map_range_succ, ← hl.acks_eq, hevents, hafter]
      rfl
    exact { hl with
      toHonest := hhonest
      received_le := by rw [hlength]; exact_mod_cast hlt
      received_eq := by rw [hlength, hreceived]
      acks_eq := by rw [hlength, hacks]
      acked_le := by rw [hlength]; exact hle.trans (Nat.le_succ _)
      follower_status := Or.inl rfl }
  | @receiveAck b p events hb hreceive =>
    rw [hl.acks_eq, getElem?_map_range] at hb
    obtain ⟨hlt, rfl⟩ := hb
    have hid : (l.acked.length : ℤ) < nbRequests := hlt.trans_le hl.received_le_nbRequests
    have hint : IsInt l.acked.length := isInt_of_lt (by omega) hid
    obtain ⟨-, hrunning, hafter, -, hentry⟩ := hl.receiver.receive hint
      (hid.trans_le nbRequests_le_intMax) (isInt_toInt _) hreceive
    have hlength : (l.acked ++ [S.ack f l.acked.length]).length = l.acked.length + 1 := by simp
    have hacked : l.acked ++ [S.ack f l.acked.length] =
        (Int.range 0 (l.acked.length + 1 : ℕ)).map (S.ack f) := by
      rw [map_range_succ, ← hl.acked_eq]
    rw [← members_concat, ← frameId_ack (S := S) (f := f) hint, ← List.map_singleton,
      ← List.map_append] at hafter
    have hcmt := hafter.cmtIdx_of_acked (by omega) hacked
    have hlog : p.state.raftLog = .empty := by
      apply InMemLog.ext_entry
      intro k
      rw [hentry k, hcmt, hl.receiver_cmtIdx, hl.receiver_log, InMemLog.entry_empty]
      split
      · rfl
      · rw [InMemLog.entry_append_of_ne _ (by omega), InMemLog.entry_empty]
    exact { hl with
      toHonest := hhonest
      acked_le := by rw [hlength]; exact_mod_cast hlt
      acked_eq := by rw [hlength, hacked]
      receiver := hafter
      receiver_log := hlog
      receiver_status := Or.inl hrunning }
  | finishFollower hfinish =>
    obtain ⟨hrunning, hlast, rfl⟩ := Follower.finish_eq_some hfinish
    have hcmt := hl.follower_cmtIdx
    rw [hl.follower.lastCmtAckId_eq] at hlast
    exact { hl with toHonest := hhonest, follower_status := Or.inr ⟨rfl, by
      change (l.received.length : ℤ) = nbRequests; omega⟩ }
  | finishReceiver hfinish =>
    obtain ⟨hrunning, hlast, rfl⟩ := hl.receiver.finish hfinish
    have hcmt := hl.receiver_cmtIdx
    exact { hl with toHonest := hhonest, receiver_status := Or.inr ⟨rfl, by
      change (l.acked.length : ℤ) = nbRequests; omega⟩ }

end Lane.Ordered

/-- On FIFO links each end of a lane gets the next frame. -/
theorem Lane.Move.of_fifo (hmove : (c.lane f).Move S f (Deliverable Network.fifo c (.request f))
      (Deliverable Network.fifo c (.ack f)) l') :
    (c.lane f).Move S f ((c.lane f).requests[(c.lane f).received.length]? = some ·)
      ((c.lane f).acks[(c.lane f).acked.length]? = some ·) l' := by
  apply hmove.mono
  all_goals
    rintro b ⟨d, hd, hpolicy, hframe⟩
    have hnext := (Network.fifo_frame hpolicy hframe).2
    rwa [hd] at hnext

/-- Every lane of a cluster on FIFO links is in order. -/
theorem Cluster.ordered_of_reachable (h : (cluster S Network.fifo).Reachable c) :
    c.sender.Valid S ∧ ∀ f, (c.lane f).Ordered S f :=
  Cluster.lanes_of_reachable (P := fun f l => l.Ordered S f) (fun _ => .start)
    (fun _ _ _ hl hmove => hl.move hmove.of_fifo) h

/-- The exact account of one follower on FIFO links. -/
structure Cluster.Account (S : Setup) (c : Cluster) (f : FollowerId) : Prop where
  /-- The requests in flight start behind the follower's commit index. -/
  requests : c.net.inFlight (.request f) =
    (Int.range (c.followerCmtIdx f + 1) (c.net.sent (.request f)).length).map (S.request f)
  /-- The acknowledgements in flight are those between the two commit indices. -/
  acks : c.net.inFlight (.ack f) =
    (Int.range (c.leaderCmtIdx f + 1) (c.followerCmtIdx f + 1)).map (S.ack f)
  /-- The follower's log is empty. -/
  follower_log : (c.follower f).state.raftLog = .empty
  /-- The log of the leader's receiver is empty. -/
  receiver_log : (c.receiver f).state.raftLog = .empty
  /-- Cleanup has reached the index after the commit index. -/
  lastCleanup : (c.receiver f).state.lastCleanup = c.leaderCmtIdx f + 1
  /-- The leader is not ahead of the follower. -/
  leader_le_follower : c.leaderCmtIdx f ≤ c.followerCmtIdx f
  /-- The follower is not ahead of the sender. -/
  follower_lt_sent : c.followerCmtIdx f < (c.net.sent (.request f)).length
  /-- The follower's index does not pass the last request. -/
  followerCmtIdx_le : c.followerCmtIdx f ≤ nbRequests - 1
  /-- The leader's index does not pass the last request. -/
  leaderCmtIdx_le : c.leaderCmtIdx f ≤ nbRequests - 1
  /-- The follower runs, or it has returned at the last request. -/
  follower_status : (c.follower f).status = .running ∨
    (c.follower f).status = .returned ∧ c.followerCmtIdx f = nbRequests - 1
  /-- The leader's receiver runs, or it has returned at the last request. -/
  receiver_status : (c.receiver f).status = .running ∨
    (c.receiver f).status = .returned ∧ c.leaderCmtIdx f = nbRequests - 1

/-- Everything about one follower is sent and committed, and both loops have returned. -/
structure Cluster.Finished (c : Cluster) (f : FollowerId) : Prop where
  /-- The sender has sent every request. -/
  requests_sent : ((c.net.sent (.request f)).length : ℤ) = nbRequests
  /-- The follower has committed every request. -/
  followerCmtIdx : c.followerCmtIdx f = nbRequests - 1
  /-- The leader has committed every request. -/
  leaderCmtIdx : c.leaderCmtIdx f = nbRequests - 1
  /-- The follower's loop has returned. -/
  follower_returned : (c.follower f).status = .returned
  /-- The loop of the leader's receiver has returned. -/
  receiver_returned : (c.receiver f).status = .returned

/-- The account of a lane in order. -/
theorem Lane.Ordered.account (hl : (c.lane f).Ordered S f) : c.Account S f where
  requests := hl.drop_requests
  acks := hl.drop_acks
  follower_log := hl.follower_log
  receiver_log := hl.receiver_log
  lastCleanup := hl.receiver.lastCleanup_eq
  leader_le_follower := hl.leader_le_follower
  follower_lt_sent := hl.follower_lt_sent
  followerCmtIdx_le := hl.follower_cmtIdx.le.trans (by have := hl.received_le_nbRequests; omega)
  leaderCmtIdx_le := hl.receiver_cmtIdx.le.trans (by have := hl.acked_le_nbRequests; omega)
  follower_status := hl.follower_status.imp_right fun ⟨hreturned, hlength⟩ =>
    ⟨hreturned, hl.follower_cmtIdx.trans (by rw [hlength])⟩
  receiver_status := hl.receiver_status.imp_right fun ⟨hreturned, hlength⟩ =>
    ⟨hreturned, hl.receiver_cmtIdx.trans (by rw [hlength])⟩

/-- The next frame in flight on a link can be delivered if the loop at its end waits. -/
theorem Cluster.step_next_ne_none {k : Link} {b : Frame}
    (hnext : (c.net.sent k)[(c.net.delivered k).length]? = some b)
    (harrive : (c.arrive S b k).isSome = true) :
    c.step S Network.fifo (.deliver ⟨k, k, (c.net.delivered k).length⟩) ≠ none := by
  have hpolicy : Network.fifo c.net ⟨k, k, (c.net.delivered k).length⟩ = true := by
    simp [Network.fifo]
  rw [step, if_pos hpolicy, Network.frame, hnext, Option.bind_some]
  exact Option.isSome_iff_ne_none.mp harrive

/-- Without a move left the follower has received every request. -/
theorem Lane.Ordered.received_all (hl : (c.lane f).Ordered S f)
    (hsent : ((c.lane f).sentTo : ℤ) = nbRequests)
    (hstuck : ∀ a, c.step S Network.fifo a = none) :
    ((c.lane f).received.length : ℤ) = nbRequests := by
  by_contra hne
  have hrunning := hl.follower_status.resolve_right fun hreturned => hne hreturned.2
  have hcmt := hl.follower.lastCmtAckId_eq.trans hl.follower_cmtIdx
  have hwait : (S.follower f).Waiting (c.follower f) = true :=
    Follower.waiting_iff.mpr ⟨hrunning, fun hlast => hne (by
      have hack : (c.follower f).state.lastCmtAckId = _ := hcmt
      omega)⟩
  have hle := hl.received_le_nbRequests
  have hnext : (c.lane f).requests[(c.lane f).received.length]? =
      some (S.request f (c.lane f).received.length) := by
    rw [hl.requests_eq, getElem?_map_range]
    exact ⟨by omega, rfl⟩
  refine Cluster.step_next_ne_none (k := .request f) hnext ?_ (hstuck _)
  rw [Cluster.arrive, EventLoop.receive_of_waiting _ hwait, Option.map_some, Option.isSome_some]

/-- Without a move left the leader's receiver has received every acknowledgement. -/
theorem Lane.Ordered.acked_all (hl : (c.lane f).Ordered S f)
    (hreceived : ((c.lane f).received.length : ℤ) = nbRequests)
    (hstuck : ∀ a, c.step S Network.fifo a = none) :
    ((c.lane f).acked.length : ℤ) = nbRequests := by
  by_contra hne
  have hrunning := hl.receiver_status.resolve_right fun hreturned => hne hreturned.2
  have hwait : S.receiver.Waiting (c.receiver f) = true :=
    Leader.waiting_iff.mpr ⟨hrunning, fun hlast => hne (by
      have hcmt : (c.receiver f).state.s.cmtIdx = _ := hl.receiver_cmtIdx
      omega)⟩
  have hle := hl.acked_le_nbRequests
  have hnext : (c.lane f).acks[(c.lane f).acked.length]? =
      some (S.ack f (c.lane f).acked.length) := by
    rw [hl.acks_eq, getElem?_map_range]
    exact ⟨by omega, rfl⟩
  refine Cluster.step_next_ne_none (k := .ack f) hnext ?_ (hstuck _)
  rw [Cluster.arrive, EventLoop.receive_of_waiting _ hwait, Option.map_some, Option.isSome_some]

/-- In a state without a move everything about every follower is finished. -/
theorem Lane.Ordered.finished (hs : c.sender.Valid S) (hl : (c.lane f).Ordered S f)
    (hstuck : ∀ a, c.step S Network.fifo a = none) : c.Finished f := by
  have hsent : ((c.lane f).sentTo : ℤ) = nbRequests :=
    c.sender.sentTo_of_advance_eq_none hs (Option.map_eq_none_iff.mp (hstuck .send)) f
  have hreceived := hl.received_all hsent hstuck
  have hacked := hl.acked_all hreceived hstuck
  have hfollower : c.followerCmtIdx f = nbRequests - 1 :=
    hl.follower_cmtIdx.trans (by rw [hreceived])
  have hleader : c.leaderCmtIdx f = nbRequests - 1 := hl.receiver_cmtIdx.trans (by rw [hacked])
  refine ⟨?_, hfollower, hleader, ?_, ?_⟩
  · exact hl.length_requests.trans hsent
  · refine (hl.follower_status.resolve_left fun hrunning => ?_).1
    have hlast : (c.follower f).state.lastCmtAckId + 1 = nbRequests := by
      have heq : (c.follower f).state.lastCmtAckId = c.followerCmtIdx f :=
        hl.follower.lastCmtAckId_eq
      omega
    have hfinish : ((S.follower f).finish (c.follower f)).isSome = true :=
      Follower.finish_isSome hrunning hlast
    rw [Option.map_eq_none_iff.mp (hstuck (.finishFollower f))] at hfinish
    cases hfinish
  · refine (hl.receiver_status.resolve_left fun hrunning => ?_).1
    have hlast : (c.receiver f).state.s.cmtIdx + 1 = nbRequests := by
      change c.leaderCmtIdx f + 1 = nbRequests
      omega
    have hfinish : (S.receiver.finish (c.receiver f)).isSome = true :=
      Leader.finish_isSome hrunning hlast
    rw [Option.map_eq_none_iff.mp (hstuck (.finishReceiver f))] at hfinish
    cases hfinish

/-- The numbers of requests sent to the two followers differ by at most one. -/
theorem Sender.sentTo_le_succ (s : Sender) (f g : FollowerId) : s.sentTo f ≤ s.sentTo g + 1 := by
  unfold sentTo
  split <;> split <;> omega

/-- On FIFO links the account of each follower is exact, the two followers have been sent the
same number of requests up to one, and a state without a move is one in which everything is
finished. -/
theorem in_flight_accounting (S : Setup) {c : Cluster}
    (h : (cluster S Network.fifo).Reachable c) :
    (∀ f, c.Account S f) ∧
      (∀ f g, (c.net.sent (.request f)).length ≤ (c.net.sent (.request g)).length + 1) ∧
      ((∀ a, c.step S Network.fifo a = none) → ∀ f, c.Finished f) := by
  obtain ⟨hs, hlane⟩ := Cluster.ordered_of_reachable h
  have hlength (f : FollowerId) : (c.net.sent (.request f)).length = c.sender.sentTo f :=
    Int.ofNat.inj (hlane f).length_requests
  refine ⟨fun f => (hlane f).account, fun f g => ?_, fun hstuck f => (hlane f).finished hs hstuck⟩
  rw [hlength, hlength]
  exact c.sender.sentTo_le_succ f g

/-- The account applies while the first acknowledgement and the second request of the first
follower are in flight. -/
theorem in_flight_accounting_first_ack : ∃ c, (cluster .example Network.fifo).Reachable c ∧
    c.followerCmtIdx .one = 0 ∧ c.leaderCmtIdx .one = -1 ∧ c.Account .example .one := by
  have hrun : ((cluster .example Network.fifo).exec (Cluster.start .example)
      [.send, .send, .send, .deliver ⟨.request .one, .request .one, 0⟩]).map
      (fun c => (c.followerCmtIdx .one, c.leaderCmtIdx .one)) = some (0, -1) := by decide +kernel
  obtain ⟨c, hexec, heq⟩ := Option.map_eq_some_iff.mp hrun
  obtain ⟨hfollower, hleader⟩ := Prod.mk.inj heq
  have hreach := Machine.reachable_of_exec hexec
  exact ⟨c, hreach, hfollower, hleader, (in_flight_accounting .example hreach).1 .one⟩

end TeeReplication.Raft
