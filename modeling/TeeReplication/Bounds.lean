import TeeReplication.Chain.Semantics
import TeeReplication.Codec
import TeeReplication.Raft.FollowerSemantics
import TeeReplication.Raft.LeaderSemantics

/-!
# Accesses to the received buffer

Which results of `secure_recv` the receive loops handle without leaving the
buffer. A body of at least 40 bytes is read inside its bounds. On anything
shorter every loop still verifies and extracts, except for the tail when a
receive of zero bytes ends its finished experiment.
-/

namespace TeeReplication

/-- An event stays inside a buffer of `n` bytes: its subtraction does not wrap around and its
reads do not leave the buffer. -/
def Event.InBounds (n : ℕ) : Event → Prop
  | .sizeSub a b => b ≤ a
  | .read off len => off + len ≤ n
  | _ => True

/-- The iteration on a message reads nothing, logs nothing, sends nothing and keeps its state. -/
structure Rejects {σ : Type} (s : σ) (x : Exec (Control σ)) : Prop where
  /-- It only prints. -/
  prints : x.Emits fun e => ∃ line, e = .print line
  /-- It ends, and its state is the one it began with. -/
  state_eq : ∃ c, x.result = .ok c ∧ c.state = s

/-- The iteration on a received message performs only in-bounds accesses, and rejects a failed
or too short receive before it accesses any byte. -/
structure AccessSafe {σ : Type} (s : σ) (r : RecvResult) (x : Exec (Control σ)) : Prop where
  /-- All accesses are in bounds. -/
  inBounds : x.Emits (Event.InBounds r.bytecount)
  /-- A message without room for a tag and a pair is rejected. -/
  rejects : r.bytecount < 40 → Rejects s x

variable {h : Hmac} {r : RecvResult}

/-- Verification of at least 32 bytes stays inside them and returns a pointer to the payload. -/
theorem verifyAttestedMsg_inBounds (hlen : 32 ≤ r.bytecount) :
    (verifyAttestedMsg h r.buffer r.bytecount).Emits (Event.InBounds r.bytecount) ∧
      (verifyAttestedMsg h r.buffer r.bytecount).result = .ok (some 32) := by
  have hlt := r.bytecount_lt
  rw [r.bytecount_eq] at hlen hlt ⊢
  rw [verifyAttestedMsg_of_le hlen hlt]
  refine ⟨fun e he => ?_, rfl⟩
  simp only [verifyTrace, List.mem_append, List.mem_cons, List.not_mem_nil, or_false] at he
  rcases he with (rfl | rfl | rfl) | he
  · exact hlen
  · exact (by omega : 32 + (r.buffer.length - 32) ≤ r.buffer.length)
  · exact (by omega : 0 + 32 ≤ r.buffer.length)
  · split at he
    · cases he
    · rw [List.mem_singleton.mp he]
      trivial

/-- After a verification in bounds comes the rest, with the pointer to the payload. -/
theorem verify_bind_inBounds {α : Type} (hlen : 40 ≤ r.bytecount) {rest : Option ℕ → Exec α}
    (hrest : (rest (some 32)).Emits (Event.InBounds r.bytecount)) :
    (verifyAttestedMsg h r.buffer r.bytecount >>= rest).Emits (Event.InBounds r.bytecount) := by
  obtain ⟨hin, hok⟩ := verifyAttestedMsg_inBounds (h := h) (show 32 ≤ r.bytecount by omega)
  apply hin.bind
  intro ptr hptr
  rw [hok] at hptr
  obtain rfl : some 32 = ptr := Except.ok.inj hptr
  exact hrest

/-- Extraction behind the tag of at least 40 bytes stays inside them. -/
theorem extract_bind_inBounds {α : Type} (hlen : 40 ≤ r.bytecount) {rest : ℤ × ℤ → Exec α}
    (hrest : ∀ pair, (rest pair).Emits (Event.InBounds r.bytecount)) :
    (extract r.buffer (some 32) >>= rest).Emits (Event.InBounds r.bytecount) := by
  refine Traced.Emits.bind ?_ fun pair _ => hrest pair
  rw [r.bytecount_eq] at hlen ⊢
  rw [extract_of_le hlen]
  intro e he
  simp only [List.mem_cons, List.not_mem_nil, or_false] at he
  rcases he with rfl | rfl
  · exact (by omega : 32 + 4 ≤ r.buffer.length)
  · exact hlen

/-- The acceptance test accesses nothing. -/
theorem acceptNext_inBounds (n : ℕ) (s : State) (reqId : ℤ) :
    (Chain.acceptNext s reqId).Emits (Event.InBounds n) := by
  rw [Chain.acceptNext_eq]
  intro e he
  unfold Chain.acceptEvents at he
  split at he
  · cases he
  · rw [List.mem_singleton.mp he]
    trivial

/-- On at least 40 bytes the leader's receiver stays in bounds. -/
theorem Raft.Leader.receiverBody_inBounds (hlen : 40 ≤ r.bytecount) (st : Receiver) :
    (receiverBody h st r).Emits (Event.InBounds r.bytecount) := by
  apply verify_bind_inBounds hlen
  rw [reportUnauthenticated_some, Traced.pure_bind]
  split
  · exact .bind (.emit trivial) fun _ _ => .bind (.emit trivial) fun _ _ => .pure _
  · refine extract_bind_inBounds hlen fun pair => .bind ?_ fun _ _ => .pure _
    intro e he
    obtain ⟨lines, htrace⟩ := onAck_trace st pair.1 pair.2
    rw [htrace, List.mem_append, List.mem_map] at he
    rcases he with he | ⟨line, -, rfl⟩
    · rcases logAck_trace st pair.1 pair.2 with h | h <;> rw [h, List.mem_singleton] at he <;>
        rw [he] <;> trivial
    · trivial

/-- On at least 40 bytes the follower's receiver stays in bounds. -/
theorem Raft.Follower.receiverBody_inBounds (hlen : 40 ≤ r.bytecount) (curNodeId : ℤ)
    (st : Receiver) : (receiverBody h curNodeId st r).Emits (Event.InBounds r.bytecount) := by
  have hrequest (pair : ℤ × ℤ) :
      (onRequest h curNodeId st pair.1 pair.2).Emits (Event.InBounds r.bytecount) := by
    rw [onRequest_eq]
    intro e he
    rcases List.mem_append.mp he with he | he
    · unfold insertEvents at he
      split at he
      · rw [List.mem_singleton.mp he]
        trivial
      · cases he
    · rw [List.mem_singleton.mp he]
      trivial
  apply verify_bind_inBounds hlen
  rw [reportUnauthenticated_some, Traced.pure_bind]
  split
  · exact .bind (.emit trivial) fun _ _ =>
      extract_bind_inBounds hlen fun pair => .bind (hrequest pair) fun _ _ => .pure _
  · exact extract_bind_inBounds hlen fun pair => .bind (hrequest pair) fun _ _ => .pure _

/-- Forwarding eight bytes behind the tag of at least 40 bytes stays inside them. -/
theorem forwardMsg_inBounds (hlen : 40 ≤ r.bytecount) :
    (Chain.Middle.forwardMsg h r.buffer (some 32) (sizeofInt + sizeofInt)).Emits
      (Event.InBounds r.bytecount) := by
  rw [r.bytecount_eq] at hlen ⊢
  simp only [Chain.Middle.forwardMsg, sizeofInt_eq,
    readBuffer_of_le (show 32 + (4 + 4) ≤ r.buffer.length by omega)]
  intro e he
  simp only [Traced.mk_ok_bind, Traced.trace_emit, List.cons_append, List.nil_append,
    List.mem_cons, List.not_mem_nil, or_false] at he
  rcases he with rfl | rfl
  · exact hlen
  · trivial

/-- On at least 40 bytes the middle's receiver stays in bounds. -/
theorem Chain.Middle.receiverBody_inBounds (hlen : 40 ≤ r.bytecount) (s : State) :
    (receiverBody h s r).Emits (Event.InBounds r.bytecount) := by
  have hrest : (verifyAttestedMsg h r.buffer r.bytecount >>= fun ptr =>
      reportUnauthenticated ptr >>= fun _ => extract r.buffer ptr >>= fun pair =>
      acceptNext s pair.1 >>= fun s' =>
      forwardMsg h r.buffer ptr (sizeofInt + sizeofInt) >>= fun _ =>
      if s'.cmtIdx + 1 = nbRequests then
        Traced.emit (.print .needsToFinish) >>= fun _ => pure (Control.leave s')
      else pure (Control.next s')).Emits (Event.InBounds r.bytecount) := by
    apply verify_bind_inBounds hlen
    rw [reportUnauthenticated_some, Traced.pure_bind]
    refine extract_bind_inBounds hlen fun pair => (acceptNext_inBounds _ _ _).bind fun s' _ =>
      (forwardMsg_inBounds hlen).bind fun _ _ => ?_
    split
    · exact .bind (.emit trivial) fun _ _ => .pure _
    · exact .pure _
  unfold receiverBody
  split
  · exact .bind (.emit trivial) fun _ _ => hrest
  · exact hrest

/-- On at least 40 bytes the tail's receiver stays in bounds. -/
theorem Chain.Tail.receiverBody_inBounds (hlen : 40 ≤ r.bytecount) (curNodeId : ℤ) (s : State) :
    (receiverBody h curNodeId s r).Emits (Event.InBounds r.bytecount) := by
  have hack (s' : State) :
      (sendAckToLeader h s' curNodeId).Emits (Event.InBounds r.bytecount) := by
    unfold sendAckToLeader
    refine .bind (.emit trivial) fun _ _ => ?_
    split
    · exact .emit trivial
    · exact .pure _
  have hrest : (verifyAttestedMsg h r.buffer r.bytecount >>= fun ptr =>
      reportUnauthenticated ptr >>= fun _ => extract r.buffer ptr >>= fun pair =>
      acceptNext s pair.1 >>= fun s' => sendAckToLeader h s' curNodeId >>= fun _ =>
      pure (Control.next s')).Emits (Event.InBounds r.bytecount) := by
    apply verify_bind_inBounds hlen
    rw [reportUnauthenticated_some, Traced.pure_bind]
    exact extract_bind_inBounds hlen fun pair => (acceptNext_inBounds _ _ _).bind fun s' _ =>
      (hack s').bind fun _ _ => .pure _
  unfold receiverBody
  split
  · split
    · exact .bind (.emit trivial) fun _ _ => .pure _
    · exact .bind (.emit trivial) fun _ _ => hrest
  · exact hrest

/-- Some event leaves a buffer of `n` bytes. -/
def Outside {α : Type} (n : ℕ) (x : Exec α) : Prop := ∃ e ∈ x.trace, ¬ e.InBounds n

/-- A computation that leaves the buffer is not safe. -/
theorem Outside.not_accessSafe {σ : Type} {s : σ} {x : Exec (Control σ)}
    (hout : Outside r.bytecount x) : ¬ AccessSafe s r x := by
  obtain ⟨e, he, hnot⟩ := hout
  exact fun hsafe => hnot (hsafe.inBounds e he)

/-- Printing first does not help. -/
theorem Outside.emit_bind {α : Type} {n : ℕ} {e : Event} {f : Unit → Exec α}
    (hout : Outside n (f ())) : Outside n (Traced.emit e >>= f) := by
  obtain ⟨e', he', hnot⟩ := hout
  exact ⟨e', List.mem_cons_of_mem _ he', hnot⟩

/-- Below 32 bytes verification wraps around; otherwise the rest runs on the pointer behind
the tag. -/
theorem verify_bind_outside {α : Type} {rest : Option ℕ → Exec α}
    (hrest : 32 ≤ r.bytecount → Outside r.bytecount (rest (some 32))) :
    Outside r.bytecount (verifyAttestedMsg h r.buffer r.bytecount >>= rest) := by
  by_cases hlen : 32 ≤ r.bytecount
  · obtain ⟨e, he, hnot⟩ := hrest hlen
    obtain ⟨-, hok⟩ := verifyAttestedMsg_inBounds (h := h) hlen
    exact ⟨e, Traced.mem_trace_bind.mpr (Or.inr ⟨_, hok, he⟩), hnot⟩
  · refine ⟨.sizeSub r.bytecount 32, Traced.mem_trace_bind.mpr (Or.inl ?_), hlen⟩
    rw [r.bytecount_eq, verifyAttestedMsg_of_lt (by rw [← r.bytecount_eq]; omega)]
    exact List.mem_cons_self

/-- Below 40 bytes extraction reads behind the end. -/
theorem extract_bind_outside {α : Type} (hlen : r.bytecount < 40) {rest : ℤ × ℤ → Exec α} :
    Outside r.bytecount (extract r.buffer (some 32) >>= rest) := by
  rw [r.bytecount_eq] at hlen ⊢
  obtain ⟨before, off, hextract, hoff⟩ := extract_of_lt hlen
  refine ⟨.read off 4, Traced.mem_trace_bind.mpr (Or.inl ?_), Nat.not_le.mpr hoff⟩
  simp [hextract]

/-- The length of a message of 32 bytes or a few more is positive as an `int`. -/
theorem not_castInt_le_zero (hlo : 32 ≤ r.bytecount) (hhi : r.bytecount < 40) :
    ¬ castInt r.bytecount ≤ 0 := by
  rw [castInt_le_zero_iff r.bytecount_lt]
  omega

/-- On a short message the leader's receiver leaves the buffer. -/
theorem Raft.Leader.receiverBody_outside (hlen : r.bytecount < 40) (st : Receiver) :
    Outside r.bytecount (receiverBody h st r) := by
  apply verify_bind_outside
  intro h32
  rw [reportUnauthenticated_some, Traced.pure_bind, if_neg (not_castInt_le_zero h32 hlen)]
  exact extract_bind_outside hlen

/-- On a short message the follower's receiver leaves the buffer. -/
theorem Raft.Follower.receiverBody_outside (hlen : r.bytecount < 40) (curNodeId : ℤ)
    (st : Receiver) : Outside r.bytecount (receiverBody h curNodeId st r) := by
  apply verify_bind_outside
  intro h32
  rw [reportUnauthenticated_some, Traced.pure_bind, if_neg (not_castInt_le_zero h32 hlen)]
  exact extract_bind_outside hlen

/-- On a short message the middle's receiver leaves the buffer. -/
theorem Chain.Middle.receiverBody_outside (hlen : r.bytecount < 40) (s : State) :
    Outside r.bytecount (receiverBody h s r) := by
  unfold receiverBody
  split
  · refine .emit_bind (verify_bind_outside fun _ => ?_)
    rw [reportUnauthenticated_some, Traced.pure_bind]
    exact extract_bind_outside hlen
  · apply verify_bind_outside
    intro _
    rw [reportUnauthenticated_some, Traced.pure_bind]
    exact extract_bind_outside hlen

/-- On a short message the tail's receiver leaves the buffer, unless the message is empty and
the experiment is finished. -/
theorem Chain.Tail.receiverBody_outside (hlen : r.bytecount < 40) (curNodeId : ℤ) {s : State}
    (hunfinished : ¬ (r.bytecount = 0 ∧ s.cmtIdx + 1 = nbRequests)) :
    Outside r.bytecount (receiverBody h curNodeId s r) := by
  unfold receiverBody
  split
  · rename_i hcast
    have hempty : r.bytecount = 0 := by
      rw [castInt_le_zero_iff r.bytecount_lt] at hcast
      omega
    rw [if_neg fun hdone => hunfinished ⟨hempty, hdone⟩]
    refine .emit_bind (verify_bind_outside fun _ => ?_)
    rw [reportUnauthenticated_some, Traced.pure_bind]
    exact extract_bind_outside hlen
  · apply verify_bind_outside
    intro _
    rw [reportUnauthenticated_some, Traced.pure_bind]
    exact extract_bind_outside hlen

/-- An empty receive at the end of the experiment only makes the tail print and return. -/
theorem Chain.Tail.receiverBody_finished (curNodeId : ℤ) {s : State} (hempty : r.bytecount = 0)
    (hdone : s.cmtIdx + 1 = nbRequests) :
    receiverBody h curNodeId s r =
      ⟨[.print (.finishExperiment s.cmtIdx)], .ok (.leave s)⟩ := by
  have hcast : castInt r.bytecount ≤ 0 := by
    rw [castInt_le_zero_iff r.bytecount_lt]
    exact Or.inl hempty
  unfold receiverBody
  rw [if_pos hcast, if_pos hdone]
  rfl

/-- For the four loops that verify what they receive: an iteration stays in bounds and rejects
short messages exactly on messages of at least 40 bytes, and the tail also on an empty receive
when it has committed every request. -/
theorem accessSafe_iff (h : Hmac) (r : RecvResult) :
    (∀ st, AccessSafe st r (Raft.Leader.receiverBody h st r) ↔ 40 ≤ r.bytecount) ∧
    (∀ curNodeId st,
      AccessSafe st r (Raft.Follower.receiverBody h curNodeId st r) ↔ 40 ≤ r.bytecount) ∧
    (∀ s, AccessSafe s r (Chain.Middle.receiverBody h s r) ↔ 40 ≤ r.bytecount) ∧
    (∀ curNodeId s, AccessSafe s r (Chain.Tail.receiverBody h curNodeId s r) ↔
      40 ≤ r.bytecount ∨ r.bytecount = 0 ∧ s.cmtIdx + 1 = nbRequests) := by
  have hiff {σ : Type} {s : σ} {x : Exec (Control σ)}
      (hin : 40 ≤ r.bytecount → x.Emits (Event.InBounds r.bytecount))
      (hout : r.bytecount < 40 → Outside r.bytecount x) : AccessSafe s r x ↔ 40 ≤ r.bytecount := by
    refine ⟨fun hsafe => ?_, fun hlen => ⟨hin hlen, fun hlt => absurd hlt (by omega)⟩⟩
    by_contra hlen
    exact (hout (by omega)).not_accessSafe hsafe
  refine ⟨fun st => hiff (fun hlen => Raft.Leader.receiverBody_inBounds hlen st)
      (fun hlen => Raft.Leader.receiverBody_outside hlen st),
    fun curNodeId st => hiff (fun hlen => Raft.Follower.receiverBody_inBounds hlen curNodeId st)
      (fun hlen => Raft.Follower.receiverBody_outside hlen curNodeId st),
    fun s => hiff (fun hlen => Chain.Middle.receiverBody_inBounds hlen s)
      (fun hlen => Chain.Middle.receiverBody_outside hlen s), fun curNodeId s => ?_⟩
  by_cases hdone : r.bytecount = 0 ∧ s.cmtIdx + 1 = nbRequests
  · refine iff_of_true ?_ (Or.inr hdone)
    rw [Chain.Tail.receiverBody_finished curNodeId hdone.1 hdone.2]
    have hprints : ∀ e ∈ [Event.print (.finishExperiment s.cmtIdx)], ∃ line, e = .print line :=
      fun e he => ⟨_, List.mem_singleton.mp he⟩
    refine ⟨fun e he => ?_, fun _ => ⟨hprints, _, rfl, rfl⟩⟩
    obtain ⟨line, rfl⟩ := hprints e he
    trivial
  · rw [or_iff_left hdone]
    exact hiff (fun hlen => Chain.Tail.receiverBody_inBounds hlen curNodeId s)
      (fun hlen => Chain.Tail.receiverBody_outside hlen curNodeId hdone)

/-- The leader that starts and finds its connection closed hashes bytes behind a null pointer. -/
theorem leader_closed_connection_not_accessSafe :
    ¬ AccessSafe Raft.Leader.Receiver.init .failed
      (Raft.Leader.receiverBody zeroHmac Raft.Leader.Receiver.init .failed) := by
  refine Outside.not_accessSafe ⟨.read 32 (2 ^ 64 - 32), by decide, ?_⟩
  change ¬ 32 + (2 ^ 64 - 32) ≤ 0
  omega

end TeeReplication
