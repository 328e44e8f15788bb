import TeeReplication.Codec
import TeeReplication.Raft.FollowerSemantics
import TeeReplication.Raft.LeaderSemantics

/-!
# The raft loops on honest frames

What the two receive loops do with a frame that an honest sender built from a pair
of `int`s, in terms of that pair. Frames of this kind never make the follower
fault, and neither the leader as long as they all carry one node id and an index
below `INT_MAX`.
-/

namespace TeeReplication.Raft

variable {h : Hmac} {id nodeId : ℤ} {events : List Event}

namespace Follower

variable {curNodeId : ℤ} {st : Receiver} {p q : Process Receiver}

@[simp] theorem receiver_body (h : Hmac) (curNodeId : ℤ) :
    (receiver h curNodeId).body = receiverBody h curNodeId := rfl

/-- The follower waits for a request unless it has acknowledged the last one. -/
theorem waiting_iff : (receiver h curNodeId).Waiting p = true ↔
    p.status = .running ∧ p.state.lastCmtAckId + 1 ≠ nbRequests := by
  by_cases hlast : p.state.lastCmtAckId + 1 = nbRequests <;>
    simp [EventLoop.Waiting, receiver, receiverHead, hlast]

/-- One iteration of the follower on a frame. -/
theorem receiverBody_recvFrame (hid : IsInt id) (hnode : IsInt nodeId) :
    receiverBody h curNodeId st (recvFrame (attestedFrame h (writePair id nodeId))) =
      ⟨readTrace h (attestedBody h (writePair id nodeId)) ++
          (onRequest h curNodeId st id nodeId).trace, .ok (.next (afterRequest st id nodeId))⟩ := by
  rw [recvFrame_attestedFrame h (by simp), receiverBody_of_le (by simp) (by simp),
    bodyId_attestedBody h hid, bodyNodeId_attestedBody h id hnode]

/-- A follower that receives a frame handles its request and acknowledges its commit index. -/
theorem receive_recvFrame (hid : IsInt id) (hnode : IsInt nodeId)
    (hreceive : (receiver h curNodeId).receive p
      (recvFrame (attestedFrame h (writePair id nodeId))) = some (q, events)) :
    (p.status = .running ∧ p.state.lastCmtAckId + 1 ≠ nbRequests) ∧
      q = EventLoop.enter (afterRequest p.state id nodeId) ∧
      sentFrames events = [ackFrame h (afterRequest p.state id nodeId).s.cmtIdx curNodeId] := by
  obtain ⟨hwait, hq, hevents⟩ := EventLoop.receive_eq_some _ hreceive
  rw [hq, hevents]
  refine ⟨waiting_iff.mp hwait, ?_, ?_⟩
  · rw [receiver_body, receiverBody_recvFrame hid hnode]
    rfl
  · rw [receiver_body, receiverBody_recvFrame hid hnode, sentFrames_append, sentFrames_readTrace,
      List.nil_append, sentFrames_onRequest]

/-- A follower returns with the state it has, once it has acknowledged the last request. -/
theorem finish_eq_some (hfinish : (receiver h curNodeId).finish p = some (q, events)) :
    p.status = .running ∧ p.state.lastCmtAckId + 1 = nbRequests ∧ q = ⟨.returned, p.state⟩ := by
  obtain ⟨hrunning, x, hhead, rfl, -⟩ := EventLoop.finish_eq_some _ hfinish
  change receiverHead p.state = _ at hhead
  unfold receiverHead at hhead
  split at hhead
  · rename_i hlast
    obtain rfl := Option.some.inj hhead
    exact ⟨hrunning, hlast, rfl⟩
  · cases hhead

/-- A running follower that has acknowledged the last request can return. -/
theorem finish_isSome (hrunning : p.status = .running)
    (hlast : p.state.lastCmtAckId + 1 = nbRequests) :
    ((receiver h curNodeId).finish p).isSome = true := by
  simp [EventLoop.finish, hrunning, receiver, receiverHead, hlast]

end Follower

namespace Leader

variable {st : Receiver} {p q : Process Receiver} {A : Set ℤ}

@[simp] theorem receiver_body (h : Hmac) : (receiver h).body = receiverBody h := rfl

/-- A receiver of the leader waits for an acknowledgement unless it has committed the last
request. -/
theorem waiting_iff : (receiver h).Waiting p = true ↔
    p.status = .running ∧ p.state.s.cmtIdx + 1 ≠ nbRequests := by
  by_cases hlast : p.state.s.cmtIdx + 1 = nbRequests <;>
    simp [EventLoop.Waiting, receiver, receiverHead, hlast]

/-- One iteration of the leader's receiver on a frame. -/
theorem receiverBody_recvFrame (hid : IsInt id) (hnode : IsInt nodeId) :
    receiverBody h st (recvFrame (attestedFrame h (writePair id nodeId))) =
      (⟨readTrace h (attestedBody h (writePair id nodeId)), .ok ()⟩ : Exec Unit) >>= fun _ =>
        onAck st id nodeId >>= fun st => pure (.next st) := by
  rw [recvFrame_attestedFrame h (by simp), receiverBody_of_le (by simp) (by simp),
    bodyId_attestedBody h hid, bodyNodeId_attestedBody h id hnode]

/-- What the leader's receiver logs when it handles a frame is the pair in it. -/
theorem loggedEntries_of_receive (hid : IsInt id) (hnode : IsInt nodeId)
    (hreceive : (receiver h).receive p (recvFrame (attestedFrame h (writePair id nodeId))) =
      some (q, events)) : loggedEntries events = [(id, nodeId)] := by
  obtain ⟨-, -, hevents⟩ := EventLoop.receive_eq_some _ hreceive
  rw [hevents, receiver_body, receiverBody_recvFrame hid hnode, Traced.mk_ok_bind,
    loggedEntries_append, loggedEntries_readTrace, List.nil_append]
  cases hack : (onAck p.state id nodeId).result with
  | ok st => simp [Traced.bind_of_ok hack, loggedEntries_onAck]
  | error e => simp [Traced.bind_of_error hack, loggedEntries_onAck]

/-- While all acknowledgements carry one node id and none is of `INT_MAX`, a receiver of the leader
that receives a frame goes on with the index in it added to the set. -/
theorem Represents.receive (hst : Represents nodeId A p.state) (hid : IsInt id)
    (hlt : id < intMax) (hnode : IsInt nodeId)
    (hreceive : (receiver h).receive p (recvFrame (attestedFrame h (writePair id nodeId))) =
      some (q, events)) :
    (p.status = .running ∧ p.state.s.cmtIdx + 1 ≠ nbRequests) ∧
      q.status = .running ∧ Represents nodeId (insert id A) q.state ∧
      p.state.s.cmtIdx ≤ q.state.s.cmtIdx ∧
      ∀ k, q.state.raftLog.entry k =
        if p.state.s.cmtIdx < k ∧ k ≤ q.state.s.cmtIdx then none
        else (p.state.raftLog.append id nodeId).entry k := by
  obtain ⟨hwait, hq, -⟩ := EventLoop.receive_eq_some _ hreceive
  obtain ⟨st', hack, hafter⟩ := hst.onAck hlt
  rw [receiver_body, receiverBody_recvFrame hid hnode, Traced.mk_ok_bind,
    Traced.bind_of_ok hack] at hq
  rw [hq]
  exact ⟨waiting_iff.mp hwait, rfl, hafter⟩

/-- The last cleanup of a receiver of the leader finds nothing to do. -/
theorem Represents.finish (hst : Represents nodeId A p.state)
    (hfinish : (receiver h).finish p = some (q, events)) :
    p.status = .running ∧ p.state.s.cmtIdx + 1 = nbRequests ∧ q = ⟨.returned, p.state⟩ := by
  obtain ⟨hrunning, x, hhead, rfl, -⟩ := EventLoop.finish_eq_some _ hfinish
  have hkey : p.state.raftLog.hasKey p.state.lastCleanup = false := by
    rw [hst.lastCleanup_eq, Bool.eq_false_iff, Ne, hst.hasKey_iff _ (by omega)]
    exact hst.frontier.next_notMem
  change receiverHead p.state = _ at hhead
  unfold receiverHead at hhead
  split at hhead
  · rename_i hlast
    rw [cleanupLog_of_not_hasKey hkey] at hhead
    obtain rfl := Option.some.inj hhead
    exact ⟨hrunning, hlast, rfl⟩
  · cases hhead

/-- A running receiver of the leader that has committed the last request can return. -/
theorem finish_isSome (hrunning : p.status = .running)
    (hlast : p.state.s.cmtIdx + 1 = nbRequests) : ((receiver h).finish p).isSome = true := by
  simp [EventLoop.finish, hrunning, receiver, receiverHead, hlast]

end Leader

end TeeReplication.Raft
