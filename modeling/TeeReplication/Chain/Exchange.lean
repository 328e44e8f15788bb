import TeeReplication.Chain.Semantics
import TeeReplication.Codec

/-!
# The chain's loops on honest frames

What the three receive loops do with a frame that an honest sender built from a
pair of `int`s, in terms of that pair. The middle passes on the very frame it got.
-/

namespace TeeReplication.Chain

variable {h : Hmac} {id nodeId curNodeId : ℤ} {p q : Process State} {events : List Event}

/-- The middle waits for a request as long as it runs. -/
theorem Middle.waiting_iff : (Middle.receiver h).Waiting p = true ↔ p.status = .running := by
  simp [EventLoop.Waiting, Middle.receiver]

/-- The tail waits for a request as long as it runs. -/
theorem Tail.waiting_iff : (Tail.receiver h curNodeId).Waiting p = true ↔ p.status = .running := by
  simp [EventLoop.Waiting, Tail.receiver]

/-- The head waits for an acknowledgement unless it has reached the last request. -/
theorem Head.waiting_iff : (Head.receiverFinale h).Waiting p = true ↔
    p.status = .running ∧ p.state.cmtIdx + 1 ≠ nbRequests := by
  by_cases hlast : p.state.cmtIdx + 1 = nbRequests <;>
    simp [EventLoop.Waiting, Head.receiverFinale, Head.receiverFinaleHead, hlast]

@[simp] theorem Middle.receiver_body (h : Hmac) :
    (Middle.receiver h).body = Middle.receiverBody h := by rw [Middle.receiver]

@[simp] theorem Tail.receiver_body (h : Hmac) (curNodeId : ℤ) :
    (Tail.receiver h curNodeId).body = Tail.receiverBody h curNodeId := by rw [Tail.receiver]

@[simp] theorem Head.receiverFinale_body (h : Hmac) :
    (Head.receiverFinale h).body = Head.receiverFinaleBody h := by rw [Head.receiverFinale]

section Receive

variable (hid : IsInt id)

include hid

/-- A middle that receives a frame accepts its index if it is the next one, passes the frame on
and returns at the last request. -/
theorem Middle.receive_recvFrame (hreceive : (Middle.receiver h).receive p
      (recvFrame (attestedFrame h (writePair id nodeId))) = some (q, events)) :
    p.status = .running ∧
      q = ⟨if (afterAccept p.state id).cmtIdx + 1 = nbRequests then .returned else .running,
        afterAccept p.state id⟩ ∧
      sentFrames events = [attestedFrame h (writePair id nodeId)] ∧
      refusals events =
        if id = p.state.cmtIdx + 1 then [] else [(id, p.state.cmtIdx + 1)] := by
  obtain ⟨hwait, hq, hevents⟩ := EventLoop.receive_eq_some _ hreceive
  rw [Middle.receiver_body, recvFrame_attestedFrame h (by simp),
    Middle.receiverBody_of_le (by simp) (by simp), bodyId_attestedBody h hid,
    slice_attestedBody] at hq hevents
  refine ⟨Middle.waiting_iff.mp hwait, ?_, ?_, ?_⟩
  · rw [hq]
    split <;> rfl
  · rw [hevents]
    simp only [sentFrames_append, sentFrames_readTrace, sentFrames_acceptEvents]
    split <;> rfl
  · rw [hevents]
    simp only [refusals_append, refusals_readTrace, refusals_acceptEvents]
    split <;> split <;> rfl

/-- A tail that receives a frame accepts its index if it is the next one and acknowledges its
commit index. -/
theorem Tail.receive_recvFrame (hreceive : (Tail.receiver h curNodeId).receive p
      (recvFrame (attestedFrame h (writePair id nodeId))) = some (q, events)) :
    p.status = .running ∧ q = EventLoop.enter (afterAccept p.state id) ∧
      sentFrames events = [Tail.ackFrame h (afterAccept p.state id).cmtIdx curNodeId] ∧
      refusals events =
        if id = p.state.cmtIdx + 1 then [] else [(id, p.state.cmtIdx + 1)] := by
  obtain ⟨hwait, hq, hevents⟩ := EventLoop.receive_eq_some _ hreceive
  rw [Tail.receiver_body, recvFrame_attestedFrame h (by simp),
    Tail.receiverBody_of_le (by simp) (by simp), bodyId_attestedBody h hid] at hq hevents
  refine ⟨Tail.waiting_iff.mp hwait, hq, ?_, ?_⟩
  · rw [hevents]
    simp only [sentFrames_append, sentFrames_readTrace, sentFrames_acceptEvents]
    split <;> rfl
  · rw [hevents]
    simp only [refusals_append, refusals_readTrace, refusals_acceptEvents]
    split <;> split <;> rfl

/-- A head that receives a frame takes over its index. -/
theorem Head.receive_recvFrame (hreceive : (Head.receiverFinale h).receive p
      (recvFrame (attestedFrame h (writePair id nodeId))) = some (q, events)) :
    (p.status = .running ∧ p.state.cmtIdx + 1 ≠ nbRequests) ∧
      q = EventLoop.enter { p.state with cmtIdx := id } ∧ refusals events = [] := by
  obtain ⟨hwait, hq, hevents⟩ := EventLoop.receive_eq_some _ hreceive
  rw [Head.receiverFinale_body, recvFrame_attestedFrame h (by simp),
    Head.receiverFinaleBody_of_le (by simp) (by simp), bodyId_attestedBody h hid] at hq hevents
  exact ⟨Head.waiting_iff.mp hwait, hq, by rw [hevents, refusals_readTrace]⟩

end Receive

/-- A head returns with the state it has, once it has reached the last request. -/
theorem Head.finish_eq_some (hfinish : (Head.receiverFinale h).finish p = some (q, events)) :
    p.status = .running ∧ p.state.cmtIdx + 1 = nbRequests ∧ q = ⟨.returned, p.state⟩ ∧
      refusals events = [] := by
  obtain ⟨hrunning, x, hhead, rfl, rfl⟩ := EventLoop.finish_eq_some _ hfinish
  change Head.receiverFinaleHead p.state = _ at hhead
  unfold Head.receiverFinaleHead at hhead
  split at hhead
  · rename_i hlast
    obtain rfl := Option.some.inj hhead
    exact ⟨hrunning, hlast, rfl, rfl⟩
  · cases hhead

end TeeReplication.Chain
