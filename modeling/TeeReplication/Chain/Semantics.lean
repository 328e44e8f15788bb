import TeeReplication.Chain.Head
import TeeReplication.Chain.Tail

/-!
# What the chain's receivers compute

On a message long enough to hold a tag and a pair, the middle and the tail accept
the next index and answer every message, and the head takes over the index it
reads, whether or not the tag is right.
-/

namespace TeeReplication.Chain

/-- The state after the acceptance test. -/
def afterAccept (s : State) (reqId : ℤ) : State :=
  if reqId = s.cmtIdx + 1 then { s with cmtIdx := s.cmtIdx + 1 } else s

/-- The message that the acceptance test prints at an index that is not the next one. -/
def acceptEvents (s : State) (reqId : ℤ) : List Event :=
  if reqId = s.cmtIdx + 1 then [] else [.print (.errorInReqId reqId (s.cmtIdx + 1))]

/-- The acceptance test never faults. -/
theorem acceptNext_eq (s : State) (reqId : ℤ) :
    acceptNext s reqId = ⟨acceptEvents s reqId, .ok (afterAccept s reqId)⟩ := by
  unfold acceptNext acceptEvents afterAccept
  split <;> rfl

/-- The acceptance test moves the commit index by one or not at all. -/
theorem cmtIdx_afterAccept (s : State) (reqId : ℤ) :
    (afterAccept s reqId).cmtIdx = if reqId = s.cmtIdx + 1 then s.cmtIdx + 1 else s.cmtIdx := by
  unfold afterAccept
  split <;> rfl

/-- The acceptance test does not lower the commit index. -/
theorem le_cmtIdx_afterAccept (s : State) (reqId : ℤ) :
    s.cmtIdx ≤ (afterAccept s reqId).cmtIdx := by
  rw [cmtIdx_afterAccept]
  split <;> omega

/-- The commit index after the acceptance test is the one before it or the index of the request. -/
theorem cmtIdx_afterAccept_eq_or (s : State) (reqId : ℤ) :
    (afterAccept s reqId).cmtIdx = s.cmtIdx ∨ (afterAccept s reqId).cmtIdx = reqId := by
  rw [cmtIdx_afterAccept]
  split <;> omega

/-- The error branch is taken exactly at an index that is not the next one. -/
theorem refusals_acceptEvents (s : State) (reqId : ℤ) :
    refusals (acceptEvents s reqId) =
      if reqId = s.cmtIdx + 1 then [] else [(reqId, s.cmtIdx + 1)] := by
  unfold acceptEvents
  split <;> rfl

@[simp] theorem sentFrames_acceptEvents (s : State) (reqId : ℤ) :
    sentFrames (acceptEvents s reqId) = [] := by
  unfold acceptEvents
  split <;> rfl

/-- Acknowledging never faults. -/
theorem Tail.sendAckToLeader_eq (h : Hmac) (s : State) (curNodeId : ℤ) :
    Tail.sendAckToLeader h s curNodeId =
      ⟨.send (Tail.ackFrame h s.cmtIdx curNodeId) ::
          if s.cmtIdx + 1 = nbRequests then [.print (.finishExperiment s.cmtIdx)] else [],
        .ok ()⟩ := by
  unfold Tail.sendAckToLeader
  split <;> rfl

section Bodies

variable {h : Hmac} {s : State} {body : List UInt8} {hlt : body.length < 2 ^ 32}

/-- The middle accepts the index of a message if it is the next one, and forwards eight bytes of
the message in any case. -/
theorem Middle.receiverBody_of_le (hlen : 40 ≤ body.length) (hsmall : body.length < 2 ^ 31) :
    Middle.receiverBody h s (.body body hlt) =
      ⟨readTrace h body ++ acceptEvents s (bodyId body) ++
          [.read 32 8, .send (Middle.forwardedFrame h (slice 32 8 body))] ++
          if (afterAccept s (bodyId body)).cmtIdx + 1 = nbRequests then [.print .needsToFinish]
          else [],
        .ok (if (afterAccept s (bodyId body)).cmtIdx + 1 = nbRequests then
          .leave (afterAccept s (bodyId body)) else .next (afterAccept s (bodyId body)))⟩ := by
  have hcast : ¬ castInt body.length ≤ 0 := by
    rw [castInt_le_zero_iff hlt]
    omega
  by_cases hdone : (afterAccept s (bodyId body)).cmtIdx + 1 = nbRequests <;>
  simp [Middle.receiverBody, RecvResult.buffer, RecvResult.bytecount, hcast, hdone,
    verifyAttestedMsg_of_le (show 32 ≤ body.length by omega) hlt, extract_of_le hlen, readTrace,
    acceptNext_eq, Middle.forwardMsg, readBuffer_of_le (show 32 + 8 ≤ body.length by omega)]

/-- The tail accepts the index of a message if it is the next one, and answers with its commit
index in any case. -/
theorem Tail.receiverBody_of_le {curNodeId : ℤ} (hlen : 40 ≤ body.length)
    (hsmall : body.length < 2 ^ 31) :
    Tail.receiverBody h curNodeId s (.body body hlt) =
      ⟨readTrace h body ++ acceptEvents s (bodyId body) ++
          [.send (Tail.ackFrame h (afterAccept s (bodyId body)).cmtIdx curNodeId)] ++
          if (afterAccept s (bodyId body)).cmtIdx + 1 = nbRequests then
            [.print (.finishExperiment (afterAccept s (bodyId body)).cmtIdx)] else [],
        .ok (.next (afterAccept s (bodyId body)))⟩ := by
  have hcast : ¬ castInt body.length ≤ 0 := by
    rw [castInt_le_zero_iff hlt]
    omega
  by_cases hdone : (afterAccept s (bodyId body)).cmtIdx + 1 = nbRequests <;>
  simp [Tail.receiverBody, RecvResult.buffer, RecvResult.bytecount, hcast, hdone,
    verifyAttestedMsg_of_le (show 32 ≤ body.length by omega) hlt, extract_of_le hlen, readTrace,
    acceptNext_eq, Tail.sendAckToLeader_eq]

/-- The head takes over the index of a message. -/
theorem Head.receiverFinaleBody_of_le (hlen : 40 ≤ body.length)
    (hsmall : body.length < 2 ^ 31) :
    Head.receiverFinaleBody h s (.body body hlt) =
      ⟨readTrace h body, .ok (.next { s with cmtIdx := bodyId body })⟩ := by
  have hcast : ¬ castInt body.length ≤ 0 := by
    rw [castInt_le_zero_iff hlt]
    omega
  simp [Head.receiverFinaleBody, RecvResult.buffer, RecvResult.bytecount, hcast,
    verifyAttestedMsg_of_le (show 32 ≤ body.length by omega) hlt, extract_of_le hlen, readTrace]

end Bodies

end TeeReplication.Chain
