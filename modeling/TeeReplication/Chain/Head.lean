import TeeReplication.Log

/-!
# The head of the chain

`cr/head.cpp`: the frames of the sender thread, and `receiver_finale`, which
takes over whatever index an acknowledgement carries.
-/

namespace TeeReplication.Chain.Head

/-- The frame that `gen_and_send_request` sends to the middle. -/
def genAndSendRequest (h : Hmac) (reqId : ℤ) : Frame :=
  attestedFrame h (writePair reqId middleId)

/-- The exit test at the head of `receiver_finale`. -/
def receiverFinaleHead (s : State) : Option (Exec State) :=
  if s.cmtIdx + 1 = nbRequests then some do
    .emit (.print (.finishExperiment s.cmtIdx))
    return s
  else none

/-- One iteration of `receiver_finale` from the result of `secure_recv` on. -/
def receiverFinaleBody (h : Hmac) (s : State) (r : RecvResult) : Exec (Control State) := do
  if castInt r.bytecount ≤ 0 then
    .emit (.print .error)
    .emit (.print (.lastCmtIdx s.cmtIdx))
    return .leave s
  let ptrToData ← verifyAttestedMsg h r.buffer r.bytecount
  reportUnauthenticated ptrToData
  let (ackId, _) ← extract r.buffer ptrToData
  return .next { s with cmtIdx := ackId }

/-- `receiver_finale`. -/
def receiverFinale (h : Hmac) : EventLoop State RecvResult Event Fault :=
  ⟨receiverFinaleHead, receiverFinaleBody h⟩

end TeeReplication.Chain.Head
