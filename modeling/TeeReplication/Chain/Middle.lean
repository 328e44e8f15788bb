import TeeReplication.Log

/-!
# The middle of the chain

`cr/middle.cpp`: a request is accepted if it is the next one and is forwarded to
the tail in any case.
-/

namespace TeeReplication.Chain

/-- The acceptance test that the middle and the tail share: accept the next request, or print
the error of any other one. -/
def acceptNext (s : State) (reqId : ℤ) : Exec State :=
  if reqId = s.cmtIdx + 1 then return { s with cmtIdx := s.cmtIdx + 1 }
  else do
    .emit (.print (.errorInReqId reqId (s.cmtIdx + 1)))
    return s

namespace Middle

/-- The frame that `forward_msg` builds from the bytes it copies. -/
def forwardedFrame (h : Hmac) (data : List UInt8) : Frame := attestedFrame h data

/-- `forward_msg`: `sz` bytes are copied from the received buffer and sent with a fresh tag. -/
def forwardMsg (h : Hmac) (buffer : List UInt8) (data : Option ℕ) (sz : ℕ) : Exec Unit :=
  match data with
  | none => .fault .nullPointer
  | some ptr => do
    let tmpData ← readBuffer buffer ptr sz
    .emit (.send (forwardedFrame h tmpData))

/-- One iteration of `receiver` from the result of `secure_recv` on. A failed receive is
reported, and the iteration goes on. -/
def receiverBody (h : Hmac) (s : State) (r : RecvResult) : Exec (Control State) := do
  if castInt r.bytecount ≤ 0 then
    .emit (.print (.errorCmtIdx s.cmtIdx))
  let ptrToData ← verifyAttestedMsg h r.buffer r.bytecount
  reportUnauthenticated ptrToData
  let (reqId, _) ← extract r.buffer ptrToData
  let s ← acceptNext s reqId
  forwardMsg h r.buffer ptrToData (sizeofInt + sizeofInt)
  if s.cmtIdx + 1 = nbRequests then
    .emit (.print .needsToFinish)
    return .leave s
  return .next s

/-- `receiver`: the loop has no test at its head. -/
def receiver (h : Hmac) : EventLoop State RecvResult Event Fault :=
  ⟨fun _ => none, receiverBody h⟩

end Middle

end TeeReplication.Chain
