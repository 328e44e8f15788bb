import TeeReplication.Log

/-!
# The leader

`raft/leader.cpp`: the frames of the sender thread, the commit loop, the cleanup
loop and the receiver thread that runs once for each follower. The loops count with
`int`s, so that each of their additions is a fault at `INT_MAX`. The exit test adds
one to a commit index, which stays below `INT_MAX`.
-/

namespace TeeReplication.Raft.Leader

/-- The frame that `gen_and_send_request` sends to one follower. -/
def genAndSendRequest (h : Hmac) (reqId nodeId : ℤ) : Frame :=
  attestedFrame h (writePair reqId nodeId)

/-- The local variables of the leader's `receiver`. -/
structure Receiver where
  /-- `s`. -/
  s : State
  /-- `raft_log`. -/
  raftLog : InMemLog
  /-- `last_cleanup`. -/
  lastCleanup : ℤ
  deriving DecidableEq

/-- The local variables before the loop. -/
def Receiver.init : Receiver := ⟨.init, .empty, 0⟩

/-- The loop of `iterate_log_and_commit` at index `nextCmt`. `prev_node` is a reference to
`s.last_cmt_node`, so the loop returns both fields of `s`. -/
def commitFrom (raftLog : InMemLog) (nextCmt prevNode : ℤ) : Except Fault (InMemLog × State) :=
  if h : raftLog.hasKey nextCmt then
    if (raftLog.sizeAtKey nextCmt).1 = kNodesSize then
      -- `next_cmt++`
      if nextCmt < intMax then commitFrom (raftLog.sizeAtKey nextCmt).2 (nextCmt + 1) prevNode
      else .error .overflow
    else do
      let node ← (raftLog.sizeAtKey nextCmt).2.getNodeAt nextCmt
      if prevNode = -1 ∨ prevNode = node then
        if nextCmt < intMax then commitFrom (raftLog.sizeAtKey nextCmt).2 (nextCmt + 1) node
        else .error .overflow
      else return ((raftLog.sizeAtKey nextCmt).2, ⟨nextCmt - 1, prevNode⟩)
  else return (raftLog, ⟨nextCmt - 1, prevNode⟩)
termination_by raftLog.sizeFrom nextCmt
decreasing_by
  all_goals
    rw [InMemLog.sizeAtKey_snd_of_hasKey h]
    exact InMemLog.sizeFrom_succ_lt h

/-- `iterate_log_and_commit`. -/
def iterateLogAndCommit (raftLog : InMemLog) (s : State) : Except Fault (InMemLog × State) :=
  if s.cmtIdx < intMax then commitFrom raftLog (s.cmtIdx + 1) s.lastCmtNode
  else .error .overflow

/-- `cleanup_log`: the log and `last_cleanup` after it, and the line it prints when it stops at
an entry that is not committed. -/
def cleanupLog (raftLog : InMemLog) (lastCleanup : ℤ) (s : State) :
    Except Fault ((InMemLog × ℤ) × List Line) :=
  if h : raftLog.hasKey lastCleanup then
    if (raftLog.sizeAtKey lastCleanup).1 = kNodesSize then
      -- `starting_cmt++`
      if lastCleanup < intMax then
        cleanupLog ((raftLog.sizeAtKey lastCleanup).2.remove lastCleanup) (lastCleanup + 1) s
      else .error .overflow
    else if lastCleanup ≤ s.cmtIdx then
      if lastCleanup < intMax then
        cleanupLog ((raftLog.sizeAtKey lastCleanup).2.remove lastCleanup) (lastCleanup + 1) s
      else .error .overflow
    else
      .ok (((raftLog.sizeAtKey lastCleanup).2, lastCleanup),
        [.uncommitted lastCleanup (raftLog.sizeAtKey lastCleanup).2.size])
  else .ok ((raftLog, lastCleanup), [])
termination_by raftLog.size
decreasing_by
  all_goals
    rw [InMemLog.sizeAtKey_snd_of_hasKey h]
    exact InMemLog.size_remove_lt h

/-- Logging an acknowledgement: `insert` at a new index above `cmt_idx`, else `append`. -/
def logAck (st : Receiver) (ackId nodeId : ℤ) : Exec InMemLog :=
  if ackId > st.s.cmtIdx ∧ ¬ st.raftLog.hasKey ackId then do
    .emit (.logInsert ackId nodeId)
    return st.raftLog.insert ackId nodeId
  else do
    .emit (.logAppend ackId nodeId)
    return st.raftLog.append ackId nodeId

/-- The rest of an iteration once an acknowledgement has been extracted. -/
def onAck (st : Receiver) (ackId nodeId : ℤ) : Exec Receiver := do
  let raftLog ← logAck st ackId nodeId
  let (raftLog, s) ← .lift (iterateLogAndCommit raftLog st.s)
  let ((raftLog, lastCleanup), lines) ← .lift (cleanupLog raftLog st.lastCleanup s)
  .emitAll (lines.map .print)
  return ⟨s, raftLog, lastCleanup⟩

/-- The exit test at the head of `receiver`, with the last cleanup before it returns. -/
def receiverHead (st : Receiver) : Option (Exec Receiver) :=
  if st.s.cmtIdx + 1 = nbRequests then some do
    let ((raftLog, lastCleanup), lines) ← .lift (cleanupLog st.raftLog st.lastCleanup st.s)
    .emitAll (lines.map .print)
    .emit (.print (.summary st.s.cmtIdx raftLog.size))
    return ⟨st.s, raftLog, lastCleanup⟩
  else none

/-- One iteration of `receiver` from the result of `secure_recv` on. The size it prints in the
error branch is that of the unused local map `replication_log`. -/
def receiverBody (h : Hmac) (st : Receiver) (r : RecvResult) : Exec (Control Receiver) := do
  let ptrToData ← verifyAttestedMsg h r.buffer r.bytecount
  reportUnauthenticated ptrToData
  if castInt r.bytecount ≤ 0 then
    .emit (.print .error)
    .emit (.print (.summary st.s.cmtIdx 0))
    return .leave st
  let (ackId, nodeId) ← extract r.buffer ptrToData
  let st ← onAck st ackId nodeId
  return .next st

/-- `receiver`: the loop of one receiver thread. -/
def receiver (h : Hmac) : EventLoop Receiver RecvResult Event Fault :=
  ⟨receiverHead, receiverBody h⟩

end TeeReplication.Raft.Leader
