import TeeReplication.Chain.Middle

/-!
# The tail of the chain

`cr/tail.cpp`: a request is accepted if it is the next one, and every request is
answered with the current commit index.
-/

namespace TeeReplication.Chain.Tail

/-- The frame that `send_ack_to_leader` sends. -/
def ackFrame (h : Hmac) (cmtIdx curNodeId : ℤ) : Frame :=
  attestedFrame h (writePair cmtIdx curNodeId)

/-- `send_ack_to_leader`; the receiver ignores the value it returns. -/
def sendAckToLeader (h : Hmac) (s : State) (curNodeId : ℤ) : Exec Unit := do
  .emit (.send (ackFrame h s.cmtIdx curNodeId))
  if s.cmtIdx + 1 = nbRequests then
    .emit (.print (.finishExperiment s.cmtIdx))

/-- One iteration of `receiver` from the result of `secure_recv` on. A failed receive ends the
loop when the experiment is over; otherwise it is reported, and the iteration goes on. -/
def receiverBody (h : Hmac) (curNodeId : ℤ) (s : State) (r : RecvResult) :
    Exec (Control State) := do
  if castInt r.bytecount ≤ 0 then
    if s.cmtIdx + 1 = nbRequests then
      .emit (.print (.finishExperiment s.cmtIdx))
      return .leave s
    .emit (.print (.errorCmtIdx s.cmtIdx))
  let ptrToData ← verifyAttestedMsg h r.buffer r.bytecount
  reportUnauthenticated ptrToData
  let (reqId, _) ← extract r.buffer ptrToData
  let s ← acceptNext s reqId
  sendAckToLeader h s curNodeId
  return .next s

/-- `receiver`: the loop of the tail with node id `curNodeId` has no test at its head. -/
def receiver (h : Hmac) (curNodeId : ℤ) : EventLoop State RecvResult Event Fault :=
  ⟨fun _ => none, receiverBody h curNodeId⟩

end TeeReplication.Chain.Tail
