import TeeReplication.Raft.Exchange

/-!
# The follower's reorder buffer

For every sequence of requests, in any order and with any repetitions and gaps, the
follower's commit index is the frontier of the indices it has received, and its
buffer holds exactly the received indices above it, each with the node id of its
first arrival. Both depend on the set of indices alone.
-/

namespace TeeReplication.Raft.Follower

/-- The indices of a list of requests. -/
def ids (requests : List (Int32 × Int32)) : List ℤ := requests.map fun r => r.1.toInt

/-- The vector that the first request with an index leaves in the buffer. -/
def firstArrival (requests : List (Int32 × Int32)) (k : ℤ) : Option (List ℤ) :=
  (requests.find? fun r => r.1.toInt = k).map fun r => [r.2.toInt]

/-- The result of `secure_recv` on the frame of a request. -/
def recvRequest (h : Hmac) (r : Int32 × Int32) : RecvResult :=
  recvFrame (Leader.genAndSendRequest h r.1.toInt r.2.toInt)

/-- A follower that starts and is delivered requests, with everything it does. -/
def requestRun (h : Hmac) (curNodeId : ℤ) (requests : List (Int32 × Int32)) :
    Process Receiver × List Event :=
  (receiver h curNodeId).feed (EventLoop.enter .init) (requests.map (recvRequest h))

/-- The requests that it receives before it returns. -/
def received (h : Hmac) (curNodeId : ℤ) (requests : List (Int32 × Int32)) :
    List (Int32 × Int32) :=
  requests.take ((receiver h curNodeId).handled (EventLoop.enter .init)
    (requests.map (recvRequest h)))

/-- The commit index after requests have been delivered. -/
def cmtIdxAfter (h : Hmac) (curNodeId : ℤ) (requests : List (Int32 × Int32)) : ℤ :=
  (requestRun h curNodeId requests).1.state.s.cmtIdx

@[simp] theorem ids_concat (requests : List (Int32 × Int32)) (r : Int32 × Int32) :
    ids (requests ++ [r]) = ids requests ++ [r.1.toInt] := by simp [ids]

/-- One more request is the first arrival of its index unless there was one before. -/
theorem firstArrival_concat (requests : List (Int32 × Int32)) (r : Int32 × Int32) (k : ℤ) :
    firstArrival (requests ++ [r]) k =
      (firstArrival requests k).or (if r.1.toInt = k then some [r.2.toInt] else none) := by
  unfold firstArrival
  rw [List.find?_append]
  cases requests.find? fun r => r.1.toInt = k with
  | some first => rfl
  | none =>
    by_cases hk : r.1.toInt = k <;> simp [hk]

/-- The entries of the buffer once a request has been considered for it. -/
theorem entry_buffered (st : Receiver) (reqId nodeId k : ℤ) :
    (buffered st reqId nodeId).entry k =
      if st.s.cmtIdx < reqId then
        (st.raftLog.entry k).or (if reqId = k then some [nodeId] else none)
      else st.raftLog.entry k := by
  unfold buffered
  by_cases hk : k = reqId
  · subst hk
    cases hentry : st.raftLog.entry k with
    | none =>
      have hkey := InMemLog.hasKey_eq_false.mpr hentry
      by_cases hlt : st.s.cmtIdx < k <;>
        simp [hlt, hkey, InMemLog.insert_eq_append, InMemLog.entry_append_self, hentry]
    | some vector =>
      have hkey := InMemLog.hasKey_eq_true.mpr ⟨_, hentry⟩
      simp [hkey, hentry]
  · rw [if_neg (Ne.symm hk), Option.or_none, ite_self]
    split
    · rw [InMemLog.insert_eq_append, InMemLog.entry_append_of_ne _ hk]
    · rfl

/-- The local variables are those after the requests in a list: the commit index is the
frontier of their indices, and the buffer holds the first arrivals above it. -/
structure Buffers (requests : List (Int32 × Int32)) (st : Receiver) : Prop
    extends Represents (members (ids requests)) st where
  /-- The entries of the buffer. -/
  entry_eq : ∀ k, st.raftLog.entry k = if st.s.cmtIdx < k then firstArrival requests k else none

/-- Nothing has been received before the loop. -/
theorem Buffers.init : Buffers [] Receiver.init :=
  ⟨members_nil ▸ .init, fun k => (InMemLog.entry_empty k).trans (ite_self _).symm⟩

/-- One iteration adds its request. -/
theorem Buffers.afterRequest {requests : List (Int32 × Int32)} {st : Receiver}
    (hst : Buffers requests st) (r : Int32 × Int32) :
    Buffers (requests ++ [r]) (afterRequest st r.1.toInt r.2.toInt) := by
  have hrep := hst.toRepresents.afterRequest r.1.toInt r.2.toInt
  rw [← members_concat, ← ids_concat] at hrep
  refine ⟨hrep, fun k => ?_⟩
  obtain ⟨hwalk, hentry⟩ := drainFrom_spec (buffered st r.1.toInt r.2.toInt) st.s.cmtIdx
  have hle := hwalk.le
  change (drainFrom (buffered st r.1.toInt r.2.toInt) (st.s.cmtIdx + 1)).1.entry k =
    if (drainFrom (buffered st r.1.toInt r.2.toInt) (st.s.cmtIdx + 1)).2 < k then _ else none
  rw [hentry k, entry_buffered, hst.entry_eq, firstArrival_concat]
  by_cases hnew : (drainFrom (buffered st r.1.toInt r.2.toInt) (st.s.cmtIdx + 1)).2 < k
  · have hk : st.s.cmtIdx < k := by omega
    rw [if_neg (by omega), if_pos hk, if_pos hnew]
    split
    · rfl
    · -- a request at or below the commit index is not buffered, and is no arrival above it
      rw [if_neg (by omega), Option.or_none]
  · rw [if_neg hnew]
    by_cases hk : st.s.cmtIdx < k
    · rw [if_pos ⟨hk, by omega⟩]
    · rw [if_neg (by omega), if_neg hk]
      split
      · rw [if_neg (by omega), Option.or_none]
      · rfl

/-- What a follower has done once it has read the requests in a list. -/
structure Exact (h : Hmac) (curNodeId : ℤ) (requests : List (Int32 × Int32)) : Prop where
  /-- It has neither returned nor stopped. -/
  running : (requestRun h curNodeId requests).1.status = .running
  /-- Its local variables. -/
  buffers : Buffers requests (requestRun h curNodeId requests).1.state
  /-- One acknowledgement after each request, of the commit index at that point. -/
  sent : sentFrames (requestRun h curNodeId requests).2 =
    (history (cmtIdxAfter h curNodeId) requests).map (ackFrame h · curNodeId)
  /-- The commit indices after each request. -/
  history_eq : history (cmtIdxAfter h curNodeId) requests = progress (ids requests)

/-- A follower that reads one more request. -/
theorem Exact.concat {h : Hmac} {curNodeId : ℤ} {requests : List (Int32 × Int32)}
    (hrun : Exact h curNodeId requests)
    (hwait : (receiver h curNodeId).Waiting (requestRun h curNodeId requests).1 = true)
    (r : Int32 × Int32) : Exact h curNodeId (requests ++ [r]) := by
  have hstep : requestRun h curNodeId (requests ++ [r]) =
      (EventLoop.enter
        (afterRequest (requestRun h curNodeId requests).1.state r.1.toInt r.2.toInt),
      (requestRun h curNodeId requests).2 ++
        (readTrace h (attestedBody h (writePair r.1.toInt r.2.toInt)) ++
          (onRequest h curNodeId (requestRun h curNodeId requests).1.state r.1.toInt
            r.2.toInt).trace)) := by
    have hbody (st : Receiver) : receiverBody h curNodeId st (recvRequest h r) = _ :=
      receiverBody_recvFrame (isInt_toInt r.1) (isInt_toInt r.2)
    rw [requestRun, EventLoop.feed_map_concat, ← requestRun, EventLoop.offer_of_waiting _ hwait,
      receiver_body, hbody]
    rfl
  have hcmt : cmtIdxAfter h curNodeId (requests ++ [r]) =
      (afterRequest (requestRun h curNodeId requests).1.state r.1.toInt r.2.toInt).s.cmtIdx := by
    rw [cmtIdxAfter, hstep]
    rfl
  have hafter := hrun.buffers.afterRequest r
  refine ⟨?_, ?_, ?_, ?_⟩
  · rw [hstep]
    rfl
  · rw [hstep]
    exact hafter
  · rw [hstep, sentFrames_append, sentFrames_append, sentFrames_readTrace, List.nil_append,
      sentFrames_onRequest, hrun.sent, history_concat, List.map_append, List.map_singleton, hcmt]
  · rw [history_concat, hrun.history_eq, ids_concat, progress_concat, hcmt, ← ids_concat,
      hafter.frontier.unique (isFrontier_frontier _)]

/-- Whatever requests are delivered, the follower has done what the ones it has read ask for. -/
theorem exact_received (h : Hmac) (curNodeId : ℤ) (requests : List (Int32 × Int32)) :
    Exact h curNodeId (received h curNodeId requests) := by
  refine (receiver h curNodeId).handled_induction (recvRequest h) ?_ ?_ requests
  · exact ⟨rfl, .init, rfl, rfl⟩
  · intro read r hread hwait
    exact hread.concat hwait r

/-- The requests that come after the follower has returned do not matter. -/
theorem requestRun_received (h : Hmac) (curNodeId : ℤ) (requests : List (Int32 × Int32)) :
    requestRun h curNodeId (received h curNodeId requests) = requestRun h curNodeId requests := by
  rw [requestRun, received, List.map_take, EventLoop.feed_take_handled]
  rfl

/-- The follower receives all requests delivered to it unless it has acknowledged the last one. -/
theorem received_eq_or (h : Hmac) (curNodeId : ℤ) (requests : List (Int32 × Int32)) :
    received h curNodeId requests = requests ∨
      (requestRun h curNodeId requests).1.state.lastCmtAckId + 1 = nbRequests := by
  by_cases hlast : (requestRun h curNodeId requests).1.state.lastCmtAckId + 1 = nbRequests
  · exact Or.inr hlast
  · left
    have hrunning := (exact_received h curNodeId requests).running
    rw [requestRun_received] at hrunning
    have hall := EventLoop.handled_of_waiting _ (waiting_iff.mpr ⟨hrunning, hlast⟩)
    rw [received, hall, List.length_map, List.take_length]

/-- For every sequence of requests delivered to a follower, the index after its commit index is
the least one it has not received, its log holds the received indices above the commit index with
the node ids of their first arrivals, it has sent one acknowledgement for each request, of the
commit index at that point and hence in non-decreasing order, and the commit index and the keys
depend on the set of received indices only. -/
theorem reorder_buffer_exact (h : Hmac) (curNodeId : ℤ) (requests : List (Int32 × Int32)) :
    (requestRun h curNodeId requests).1.status = .running ∧
    (received h curNodeId requests = requests ∨
      (requestRun h curNodeId requests).1.state.lastCmtAckId + 1 = nbRequests) ∧
    IsLeast {i | 0 ≤ i ∧ i ∉ ids (received h curNodeId requests)}
      (cmtIdxAfter h curNodeId requests + 1) ∧
    (∀ k, (requestRun h curNodeId requests).1.state.raftLog.entry k =
      if cmtIdxAfter h curNodeId requests < k then
        firstArrival (received h curNodeId requests) k
      else none) ∧
    sentFrames (requestRun h curNodeId requests).2 =
      (history (cmtIdxAfter h curNodeId) (received h curNodeId requests)).map
        (ackFrame h · curNodeId) ∧
    (history (cmtIdxAfter h curNodeId) (received h curNodeId requests)).Pairwise (· ≤ ·) ∧
    ∀ requests', members (ids (received h curNodeId requests')) =
        members (ids (received h curNodeId requests)) →
      cmtIdxAfter h curNodeId requests' = cmtIdxAfter h curNodeId requests ∧
      ∀ k, (requestRun h curNodeId requests').1.state.raftLog.hasKey k =
        (requestRun h curNodeId requests).1.state.raftLog.hasKey k := by
  have hbuffers (requests : List (Int32 × Int32)) :
      Buffers (received h curNodeId requests) (requestRun h curNodeId requests).1.state := by
    rw [← requestRun_received]
    exact (exact_received h curNodeId requests).buffers
  have hrun := exact_received h curNodeId requests
  refine ⟨?_, received_eq_or h curNodeId requests, (hbuffers requests).frontier.isLeast,
    (hbuffers requests).entry_eq, ?_, ?_, ?_⟩
  · rw [← requestRun_received]
    exact hrun.running
  · rw [← requestRun_received h curNodeId requests]
    exact hrun.sent
  · rw [hrun.history_eq]
    exact pairwise_progress _
  · intro requests' hsame
    have hfrontier := (hbuffers requests').frontier
    rw [hsame] at hfrontier
    have hcmt := hfrontier.unique (hbuffers requests).frontier
    refine ⟨hcmt, fun k => ?_⟩
    rw [Bool.eq_iff_iff, (hbuffers requests').hasKey_iff, (hbuffers requests).hasKey_iff, hsame,
      hcmt]

end TeeReplication.Raft.Follower
