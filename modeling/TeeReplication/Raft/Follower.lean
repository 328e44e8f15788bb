import TeeReplication.Log

/-!
# The follower

`raft/follower.cpp`: the acknowledgement it sends, the loop that drains its
reorder buffer and its receiver thread. The loop counts without a bound; its `int`
would overflow only behind a request of every index up to `INT_MAX`.
-/

namespace TeeReplication.Raft.Follower

/-- The local variables of the follower's `receiver`. -/
structure Receiver where
  /-- `s`. -/
  s : State
  /-- `raft_log`. -/
  raftLog : InMemLog
  /-- `last_cmt_ack_id`. -/
  lastCmtAckId : ℤ
  deriving DecidableEq

/-- The local variables before the loop. -/
def Receiver.init : Receiver := ⟨.init, .empty, -1⟩

/-- The frame that `send_new_cmt_idx` sends. -/
def ackFrame (h : Hmac) (cmtIdx curNodeId : ℤ) : Frame :=
  attestedFrame h (writePair cmtIdx curNodeId)

/-- `send_new_cmt_idx`: the current commit index is sent and returned. -/
def sendNewCmtIdx (h : Hmac) (s : State) (curNodeId : ℤ) : Exec ℤ := do
  .emit (.send (ackFrame h s.cmtIdx curNodeId))
  return s.cmtIdx

/-- The loop of `iterate_log_and_commit` at index `nextCmt`: present indices are removed. -/
def drainFrom (raftLog : InMemLog) (nextCmt : ℤ) : InMemLog × ℤ :=
  if h : raftLog.hasKey nextCmt then drainFrom (raftLog.remove nextCmt) (nextCmt + 1)
  else (raftLog, nextCmt - 1)
termination_by raftLog.size
decreasing_by exact InMemLog.size_remove_lt h

/-- `iterate_log_and_commit`. -/
def iterateLogAndCommit (raftLog : InMemLog) (s : State) : InMemLog × State :=
  ((drainFrom raftLog (s.cmtIdx + 1)).1,
    { s with cmtIdx := (drainFrom raftLog (s.cmtIdx + 1)).2 })

/-- Buffering a request: `insert` at a new index above `cmt_idx`, else nothing. -/
def bufferRequest (st : Receiver) (reqId nodeId : ℤ) : Exec InMemLog :=
  if reqId > st.s.cmtIdx ∧ ¬ st.raftLog.hasKey reqId then do
    .emit (.logInsert reqId nodeId)
    return st.raftLog.insert reqId nodeId
  else return st.raftLog

/-- The rest of an iteration once a request has been extracted. -/
def onRequest (h : Hmac) (curNodeId : ℤ) (st : Receiver) (reqId nodeId : ℤ) : Exec Receiver := do
  let raftLog ← bufferRequest st reqId nodeId
  let (raftLog, s) := iterateLogAndCommit raftLog st.s
  let lastCmtAckId ← sendNewCmtIdx h s curNodeId
  return ⟨s, raftLog, lastCmtAckId⟩

/-- The exit test at the head of `receiver`. -/
def receiverHead (st : Receiver) : Option (Exec Receiver) :=
  if st.lastCmtAckId + 1 = nbRequests then some do
    .emit (.print (.summary st.s.cmtIdx st.raftLog.size))
    return st
  else none

/-- One iteration of `receiver` from the result of `secure_recv` on. A failed receive is
reported, and the iteration goes on. -/
def receiverBody (h : Hmac) (curNodeId : ℤ) (st : Receiver) (r : RecvResult) :
    Exec (Control Receiver) := do
  let ptrToData ← verifyAttestedMsg h r.buffer r.bytecount
  reportUnauthenticated ptrToData
  if castInt r.bytecount ≤ 0 then
    .emit (.print (.errorCmtIdx st.s.cmtIdx))
  let (reqId, nodeId) ← extract r.buffer ptrToData
  let st ← onRequest h curNodeId st reqId nodeId
  return .next st

/-- `receiver`: the loop of the follower with node id `curNodeId`. -/
def receiver (h : Hmac) (curNodeId : ℤ) : EventLoop Receiver RecvResult Event Fault :=
  ⟨receiverHead, receiverBody h curNodeId⟩

end TeeReplication.Raft.Follower
