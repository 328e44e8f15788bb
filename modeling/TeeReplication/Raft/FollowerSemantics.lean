import TeeReplication.Foundations.Frontier
import TeeReplication.Raft.Follower

/-!
# What the follower's receiver computes

Draining the reorder buffer walks through consecutive present keys and removes
them. Over any sequence of requests, the commit index is therefore the frontier
of the set of indices received, and the buffer holds the received indices above it.
-/

namespace TeeReplication.Raft.Follower

/-- Draining from the key after `c` walks through the present keys to some `d`, removes the keys
passed and leaves the others alone. -/
theorem drainFrom_spec (raftLog : InMemLog) (c : ℤ) :
    Advances {k | raftLog.hasKey k = true} c (drainFrom raftLog (c + 1)).2 ∧
      ∀ k, (drainFrom raftLog (c + 1)).1.entry k =
        if c < k ∧ k ≤ (drainFrom raftLog (c + 1)).2 then none else raftLog.entry k := by
  generalize hn : c + 1 = n
  induction raftLog, n using drainFrom.induct generalizing c with
  | case1 raftLog n hkey ih =>
    subst hn
    rw [drainFrom, dif_pos hkey]
    obtain ⟨hwalk, hentry⟩ := ih (c + 1) rfl
    have hle := hwalk.le
    refine ⟨⟨by omega, ?_, ?_⟩, ?_⟩
    · intro i hci hid
      by_cases hi : i = c + 1
      · subst hi
        exact hkey
      · exact ((raftLog.hasKey_remove _ _).mp (hwalk.mem i (by omega) hid)).2
    · intro hnext
      exact hwalk.next_notMem ((raftLog.hasKey_remove _ _).mpr ⟨by omega, hnext⟩)
    · intro k
      rw [hentry k]
      by_cases hk : k = c + 1
      · subst hk
        rw [if_neg (by omega), InMemLog.entry_remove_self, if_pos ⟨by omega, hle⟩]
      · rw [InMemLog.entry_remove_of_ne _ hk]
        by_cases hck : c + 1 < k
        · simp only [show c < k by omega, hck, true_and]
        · rw [if_neg (by omega), if_neg (by omega)]
  | case2 raftLog n hkey =>
    subst hn
    rw [drainFrom, dif_neg hkey]
    have hc : c + 1 - 1 = c := by omega
    rw [hc]
    refine ⟨⟨le_rfl, fun i h h' => absurd h (by omega), hkey⟩, fun k => ?_⟩
    rw [if_neg (by omega)]

/-- The buffer after a request has been considered for it. -/
def buffered (st : Receiver) (reqId nodeId : ℤ) : InMemLog :=
  if reqId > st.s.cmtIdx ∧ ¬ st.raftLog.hasKey reqId then st.raftLog.insert reqId nodeId
  else st.raftLog

/-- The local variables after an iteration on a request. -/
def afterRequest (st : Receiver) (reqId nodeId : ℤ) : Receiver :=
  ⟨(iterateLogAndCommit (buffered st reqId nodeId) st.s).2,
    (iterateLogAndCommit (buffered st reqId nodeId) st.s).1,
    (iterateLogAndCommit (buffered st reqId nodeId) st.s).2.cmtIdx⟩

/-- The entry that an iteration on a request logs. -/
def insertEvents (st : Receiver) (reqId nodeId : ℤ) : List Event :=
  if reqId > st.s.cmtIdx ∧ ¬ st.raftLog.hasKey reqId then [.logInsert reqId nodeId] else []

/-- An iteration on a request never faults and sends one acknowledgement, of the commit index
it ends with. -/
theorem onRequest_eq (h : Hmac) (curNodeId : ℤ) (st : Receiver) (reqId nodeId : ℤ) :
    onRequest h curNodeId st reqId nodeId =
      ⟨insertEvents st reqId nodeId ++
          [.send (ackFrame h (afterRequest st reqId nodeId).s.cmtIdx curNodeId)],
        .ok (afterRequest st reqId nodeId)⟩ := by
  unfold onRequest bufferRequest afterRequest insertEvents buffered
  split <;> simp [sendNewCmtIdx]

/-- An iteration on a request sends one acknowledgement. -/
theorem sentFrames_onRequest (h : Hmac) (curNodeId : ℤ) (st : Receiver) (reqId nodeId : ℤ) :
    sentFrames (onRequest h curNodeId st reqId nodeId).trace =
      [ackFrame h (afterRequest st reqId nodeId).s.cmtIdx curNodeId] := by
  rw [onRequest_eq, sentFrames_append]
  unfold insertEvents
  split <;> rfl

/-- On a body long enough to hold a tag and two `int`s, an iteration of `receiver` handles the
request in it, whether or not the tag is right. -/
theorem receiverBody_of_le {h : Hmac} {curNodeId : ℤ} {st : Receiver} {body : List UInt8}
    {hlt : body.length < 2 ^ 32} (hlen : 40 ≤ body.length) (hsmall : body.length < 2 ^ 31) :
    receiverBody h curNodeId st (.body body hlt) =
      ⟨readTrace h body ++ (onRequest h curNodeId st (bodyId body) (bodyNodeId body)).trace,
        .ok (.next (afterRequest st (bodyId body) (bodyNodeId body)))⟩ := by
  have hcast : ¬ castInt body.length ≤ 0 := by
    rw [castInt_le_zero_iff hlt]
    omega
  simp [receiverBody, RecvResult.buffer, RecvResult.bytecount,
    verifyAttestedMsg_of_le (show 32 ≤ body.length by omega) hlt, hcast, extract_of_le hlen,
    onRequest_eq, readTrace]

/-- The commit index and the buffer are determined by the set `R` of indices received: the
index is its frontier and the buffer holds its members above the index. -/
structure Represents (R : Set ℤ) (st : Receiver) : Prop where
  /-- The commit index is the frontier. -/
  frontier : IsFrontier R st.s.cmtIdx
  /-- The keys of the buffer are the indices received above the commit index. -/
  hasKey_iff : ∀ k, st.raftLog.hasKey k = true ↔ k ∈ R ∧ st.s.cmtIdx < k
  /-- The last acknowledgement carried the commit index. -/
  lastCmtAckId_eq : st.lastCmtAckId = st.s.cmtIdx

/-- Nothing has been received before the loop. -/
theorem Represents.init : Represents ∅ Receiver.init :=
  ⟨IsFrontier.empty, fun k => by simp [Receiver.init], rfl⟩

/-- The keys of the buffer once a request has been considered for it. -/
theorem Represents.hasKey_buffered {R : Set ℤ} {st : Receiver} (hst : Represents R st)
    (reqId nodeId k : ℤ) :
    (buffered st reqId nodeId).hasKey k = true ↔ k ∈ insert reqId R ∧ st.s.cmtIdx < k := by
  unfold buffered
  split
  · rename_i hnew
    rw [InMemLog.insert_eq_append, InMemLog.hasKey_append, hst.hasKey_iff, Set.mem_insert_iff]
    constructor
    · rintro (rfl | ⟨hR, hk⟩)
      · exact ⟨Or.inl rfl, hnew.1⟩
      · exact ⟨Or.inr hR, hk⟩
    · rintro ⟨rfl | hR, hk⟩
      · exact Or.inl rfl
      · exact Or.inr ⟨hR, hk⟩
  · rename_i hold
    rw [hst.hasKey_iff, Set.mem_insert_iff]
    refine ⟨fun hk => ⟨Or.inr hk.1, hk.2⟩, ?_⟩
    rintro ⟨rfl | hR, hk⟩
    · have hkey : st.raftLog.hasKey k = true := by
        by_contra hkey
        exact hold ⟨hk, hkey⟩
      exact (hst.hasKey_iff k).mp hkey
    · exact ⟨hR, hk⟩

/-- One iteration adds the request to the set received. -/
theorem Represents.afterRequest {R : Set ℤ} {st : Receiver} (hst : Represents R st)
    (reqId nodeId : ℤ) : Represents (insert reqId R) (afterRequest st reqId nodeId) := by
  obtain ⟨hwalk, hentry⟩ := drainFrom_spec (buffered st reqId nodeId) st.s.cmtIdx
  have hkeys := hst.hasKey_buffered reqId nodeId
  refine ⟨?_, ?_, rfl⟩
  · refine hst.frontier.advance (Set.subset_insert _ _) ⟨hwalk.le, ?_, ?_⟩
    · intro i hci hid
      exact ((hkeys i).mp (hwalk.mem i hci hid)).1
    · intro hnext
      have hle := hwalk.le
      exact hwalk.next_notMem ((hkeys _).mpr ⟨hnext, by omega⟩)
  · intro k
    have hle := hwalk.le
    change ((drainFrom (buffered st reqId nodeId) (st.s.cmtIdx + 1)).1.entry k).isSome = true ↔
      k ∈ insert reqId R ∧ (drainFrom (buffered st reqId nodeId) (st.s.cmtIdx + 1)).2 < k
    rw [hentry k]
    split
    · rename_i hpassed
      simp only [Option.isSome_none, Bool.false_eq_true, false_iff, not_and]
      intro _
      omega
    · rename_i hkept
      rw [show ((buffered st reqId nodeId).entry k).isSome = true ↔ _ from hkeys k]
      constructor
      · rintro ⟨hR, hk⟩
        exact ⟨hR, by omega⟩
      · rintro ⟨hR, hk⟩
        exact ⟨hR, by omega⟩

/-- An iteration does not lower the commit index. -/
theorem cmtIdx_le_afterRequest (st : Receiver) (reqId nodeId : ℤ) :
    st.s.cmtIdx ≤ (afterRequest st reqId nodeId).s.cmtIdx :=
  (drainFrom_spec (buffered st reqId nodeId) st.s.cmtIdx).1.le

end TeeReplication.Raft.Follower
