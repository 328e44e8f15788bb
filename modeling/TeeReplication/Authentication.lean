import TeeReplication.Chain.Semantics
import TeeReplication.Codec
import TeeReplication.Raft.FollowerSemantics
import TeeReplication.Raft.LeaderSemantics

/-!
# Messages with a wrong tag

`verify_attested_msg` returns a pointer to the payload whether or not the tag
matches, so no receive loop can tell the two cases apart. These theorems say for
each loop on which messages with a wrong tag an iteration still has no effect.
-/

namespace TeeReplication

/-- An iteration ends with the part `kept` of the local state as it was and sends no frame. -/
def NoEffect {σ τ : Type} (kept : σ → τ) (s : σ) (x : Exec (Control σ)) : Prop :=
  sentFrames x.trace = [] ∧ ∃ c, x.result = .ok c ∧ kept c.state = kept s

/-- A computation that sends a frame has an effect. -/
theorem not_noEffect_of_send {σ τ : Type} {kept : σ → τ} {s : σ} {x : Exec (Control σ)}
    (frame : Frame) (hsend : .send frame ∈ x.trace) : ¬ NoEffect kept s x := by
  rintro ⟨hnone, -⟩
  have hmem : frame ∈ sentFrames x.trace := List.mem_filterMap.mpr ⟨_, hsend, rfl⟩
  rw [hnone] at hmem
  cases hmem

variable {h : Hmac} {body : List UInt8} {hlt : body.length < 2 ^ 32}

/-- Verification sends nothing. -/
@[simp] theorem sentFrames_verifyTrace (h : Hmac) (body : List UInt8) :
    sentFrames (verifyTrace h body) = [] := by
  unfold verifyTrace
  split <;> rfl

/-- A length of at least `2 ^ 31` is negative as an `int`. -/
theorem castInt_le_zero_of_large (hlarge : 2 ^ 31 ≤ body.length) (hlt : body.length < 2 ^ 32) :
    castInt body.length ≤ 0 := (castInt_le_zero_iff hlt).mpr (Or.inr hlarge)

/-- On a huge message the leader verifies and then returns. -/
theorem Raft.Leader.receiverBody_of_large (hlarge : 2 ^ 31 ≤ body.length) (st : Receiver) :
    receiverBody h st (.body body hlt) =
      ⟨verifyTrace h body ++ [.print .error, .print (.summary st.s.cmtIdx 0)],
        .ok (.leave st)⟩ := by
  simp [receiverBody, RecvResult.buffer, RecvResult.bytecount,
    verifyAttestedMsg_of_le (show 32 ≤ body.length by omega) hlt,
    castInt_le_zero_of_large hlarge hlt]

/-- Handling an acknowledgement always changes the log or `last_cleanup`. -/
theorem Raft.Leader.onAck_state_ne {st st' : Receiver} {ackId nodeId : ℤ}
    (hok : (onAck st ackId nodeId).result = .ok st') : st' ≠ st := by
  obtain ⟨raftLog, lines, hcommit, hcleanup⟩ := exists_of_onAck_result hok
  obtain ⟨rfl, -, -⟩ := iterateLogAndCommit_spec hcommit
  rintro rfl
  exact st'.raftLog.append_ne ackId nodeId (cleanupLog_eq_of_lastCleanup_eq hcleanup rfl).symm

/-- The leader's iteration has no effect exactly on huge messages. -/
theorem Raft.Leader.noEffect_iff (hlen : 40 ≤ body.length) (st : Receiver) :
    NoEffect id st (receiverBody h st (.body body hlt)) ↔ 2 ^ 31 ≤ body.length := by
  by_cases hlarge : 2 ^ 31 ≤ body.length
  · refine iff_of_true ?_ hlarge
    rw [receiverBody_of_large hlarge]
    exact ⟨by rw [sentFrames_append, sentFrames_verifyTrace]; rfl, _, rfl, rfl⟩
  · refine iff_of_false ?_ hlarge
    rintro ⟨-, c, hok, hkept⟩
    rw [receiverBody_of_le hlen (by omega), Traced.mk_ok_bind] at hok
    obtain ⟨st', hack, hc⟩ := Traced.bind_result_eq_ok.mp hok
    obtain rfl : Control.next st' = c := Except.ok.inj hc
    exact onAck_state_ne hack hkept

/-- The follower answers every message. -/
theorem Raft.Follower.not_noEffect (hlen : 40 ≤ body.length) (curNodeId : ℤ) (st : Receiver) :
    ¬ NoEffect (fun st : Receiver => (st.s, st.raftLog)) st
      (receiverBody h curNodeId st (.body body hlt)) := by
  have hverify := verifyAttestedMsg_of_le (h := h) (show 32 ≤ body.length by omega) hlt
  apply not_noEffect_of_send
    (ackFrame h (afterRequest st (bodyId body) (bodyNodeId body)).s.cmtIdx curNodeId)
  by_cases hcast : castInt body.length ≤ 0 <;>
    simp [receiverBody, RecvResult.buffer, RecvResult.bytecount, hverify, hcast,
      extract_of_le hlen, onRequest_eq]

/-- The middle forwards every message. -/
theorem Chain.Middle.not_noEffect (hlen : 40 ≤ body.length) (s : State) :
    ¬ NoEffect id s (receiverBody h s (.body body hlt)) := by
  have hverify := verifyAttestedMsg_of_le (h := h) (show 32 ≤ body.length by omega) hlt
  apply not_noEffect_of_send (forwardedFrame h (slice 32 8 body))
  by_cases hcast : castInt body.length ≤ 0 <;>
    simp [receiverBody, RecvResult.buffer, RecvResult.bytecount, hverify, hcast,
      extract_of_le hlen, acceptNext_eq, forwardMsg,
      readBuffer_of_le (show 32 + 8 ≤ body.length by omega)]

/-- The tail answers every message, except for a huge one after the end of the experiment. -/
theorem Chain.Tail.noEffect_iff (hlen : 40 ≤ body.length) (curNodeId : ℤ) (s : State) :
    NoEffect id s (receiverBody h curNodeId s (.body body hlt)) ↔
      2 ^ 31 ≤ body.length ∧ s.cmtIdx + 1 = nbRequests := by
  have hverify := verifyAttestedMsg_of_le (h := h) (show 32 ≤ body.length by omega) hlt
  by_cases hfinished : 2 ^ 31 ≤ body.length ∧ s.cmtIdx + 1 = nbRequests
  · refine iff_of_true ?_ hfinished
    have hcast := castInt_le_zero_of_large hfinished.1 hlt
    refine ⟨?_, .leave s, ?_, rfl⟩ <;>
      simp [receiverBody, RecvResult.bytecount, hcast, hfinished.2, sentFrames, Event.frame?]
  · refine iff_of_false ?_ hfinished
    apply not_noEffect_of_send
      (ackFrame h (afterAccept s (bodyId body)).cmtIdx curNodeId)
    by_cases hcast : castInt body.length ≤ 0
    · have hlarge : 2 ^ 31 ≤ body.length := by
        rw [castInt_le_zero_iff hlt] at hcast
        omega
      have hrunning : ¬ s.cmtIdx + 1 = nbRequests := fun hdone => hfinished ⟨hlarge, hdone⟩
      simp [receiverBody, RecvResult.buffer, RecvResult.bytecount, hverify, hcast, hrunning,
        extract_of_le hlen, acceptNext_eq, sendAckToLeader_eq]
    · simp [receiverBody, RecvResult.buffer, RecvResult.bytecount, hverify, hcast,
        extract_of_le hlen, acceptNext_eq, sendAckToLeader_eq]

/-- The head's iteration has no effect on huge messages and on those that carry its own commit
index. -/
theorem Chain.Head.noEffect_iff (hlen : 40 ≤ body.length) (s : State) :
    NoEffect id s (receiverFinaleBody h s (.body body hlt)) ↔
      2 ^ 31 ≤ body.length ∨ bodyId body = s.cmtIdx := by
  by_cases hlarge : 2 ^ 31 ≤ body.length
  · refine iff_of_true ⟨?_, .leave s, ?_, rfl⟩ (Or.inl hlarge) <;>
      simp [receiverFinaleBody, RecvResult.bytecount, castInt_le_zero_of_large hlarge hlt,
        sentFrames, Event.frame?]
  · rw [receiverFinaleBody_of_le hlen (by omega), NoEffect, sentFrames_readTrace,
      or_iff_right hlarge]
    constructor
    · rintro ⟨-, c, hok, hkept⟩
      obtain rfl : Control.next { s with cmtIdx := bodyId body } = c := Except.ok.inj hok
      exact congrArg State.cmtIdx hkept
    · intro hid
      exact ⟨rfl, _, rfl, by rw [hid]; rfl⟩

/-- Messages with a wrong tag have an effect on every loop, but for huge messages that end a
loop and for those that tell the head the index it already has. -/
theorem noEffect_of_unauthentic_iff (h : Hmac) (body : List UInt8) (hlt : body.length < 2 ^ 32)
    (hlen : 40 ≤ body.length) (_hbad : ¬ Authentic h body) :
    (∀ st, NoEffect id st (Raft.Leader.receiverBody h st (.body body hlt)) ↔
      2 ^ 31 ≤ body.length) ∧
    (∀ curNodeId st, ¬ NoEffect (fun st : Raft.Follower.Receiver => (st.s, st.raftLog)) st
      (Raft.Follower.receiverBody h curNodeId st (.body body hlt))) ∧
    (∀ s, ¬ NoEffect id s (Chain.Middle.receiverBody h s (.body body hlt))) ∧
    (∀ curNodeId s, NoEffect id s (Chain.Tail.receiverBody h curNodeId s (.body body hlt)) ↔
      2 ^ 31 ≤ body.length ∧ s.cmtIdx + 1 = nbRequests) ∧
    (∀ s, NoEffect id s (Chain.Head.receiverFinaleBody h s (.body body hlt)) ↔
      2 ^ 31 ≤ body.length ∨ bodyId body = s.cmtIdx) :=
  ⟨fun st => Raft.Leader.noEffect_iff hlen st,
    fun curNodeId st => Raft.Follower.not_noEffect hlen curNodeId st,
    fun s => Chain.Middle.not_noEffect hlen s,
    fun curNodeId s => Chain.Tail.noEffect_iff hlen curNodeId s,
    fun s => Chain.Head.noEffect_iff hlen s⟩

/-- A body of 40 bytes that are all one, whose tag is not the all-zero one. -/
def forgedBody : List UInt8 := List.replicate 40 1

/-- The theorem on messages with a wrong tag applies to the forged body. -/
theorem noEffect_of_unauthentic_iff_forgedBody :
    40 ≤ forgedBody.length ∧ ¬ Authentic zeroHmac forgedBody ∧
      (NoEffect id Raft.Leader.Receiver.init
        (Raft.Leader.receiverBody zeroHmac .init (.body forgedBody (by decide))) ↔
          2 ^ 31 ≤ forgedBody.length) :=
  ⟨by decide, by decide, (noEffect_of_unauthentic_iff zeroHmac forgedBody (by decide) (by decide)
    (by decide)).1 _⟩

/-- The leader counts a forged acknowledgement: its log changes. -/
theorem leader_logs_forgedBody :
    ¬ Authentic zeroHmac forgedBody ∧ 40 ≤ forgedBody.length ∧
      ¬ NoEffect id Raft.Leader.Receiver.init
        (Raft.Leader.receiverBody zeroHmac .init (.body forgedBody (by decide))) := by
  refine ⟨by decide, by decide, ?_⟩
  rw [Raft.Leader.noEffect_iff (by decide)]
  decide

end TeeReplication
