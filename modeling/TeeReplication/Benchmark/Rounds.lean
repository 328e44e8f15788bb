import TeeReplication.Benchmark.Program

/-!
# Calls one after another

What each function of the benchmark does when it has got its attestation and when it
has not, and what follows for calls that are made one after another by one program.
-/

namespace TeeReplication.Benchmark

section Functions

variable {σ : Type} {A : Authenticator σ} {ctx ctx' : AppContext σ}
variable {msg : List UInt8} {mode m : Mode} {e : Exit} {destId sessionNum : ℤ}

/-- A node keeps the session that it has been given. -/
theorem sessionOf_sessionOf (connections : List (ℤ × ℤ)) (destId : ℤ) :
    (sessionOf (sessionOf connections destId).2 destId).1 = (sessionOf connections destId).1 := by
  cases h : connections.lookup destId with
  | none => simp [sessionOf, h]
  | some sessionNum => simp [sessionOf, h]

/-- An attestation changes nothing but the state of the authenticator. -/
theorem getAttestation_ok (h : (getAttestation A mode ctx).result = .ok (msg, ctx')) :
    ∃ reply auth, (A.getAttestation ctx.auth msgBuf).result = .ok (reply, auth) ∧
      msg = attestedMsg reply ∧ ctx' = { ctx with auth := auth } := by
  rw [getAttestation] at h
  dsimp only at h
  split at h
  · rename_i reply auth hauth
    obtain ⟨rfl, rfl⟩ := Prod.mk.inj (Except.ok.inj h)
    exact ⟨reply, auth, hauth, rfl, rfl⟩
  · cases h

/-- The program that a failure of the authenticator ends is the one that asked it. -/
theorem getAttestation_error (h : (getAttestation A mode ctx).result = .error (m, e)) :
    m = mode := by
  rw [getAttestation] at h
  dsimp only at h
  split at h
  · cases h
  · exact (Prod.mk.inj (Except.error.inj h)).1.symm

/-- A request that is sent is behind its attestation and is counted. -/
theorem sendReq_ok (h : (sendReq A destId ctx).result = .ok ((sessionNum, msg), ctx')) :
    ∃ reply auth, (A.getAttestation ctx.auth msgBuf).result = .ok (reply, auth) ∧
      msg = attestedMsg reply ∧ sessionNum = (sessionOf ctx.connections destId).1 ∧
      ctx' = { ctx with
        auth := auth
        enqueuedMsgsCnt := ctx.enqueuedMsgsCnt + 1
        connections := (sessionOf ctx.connections destId).2 } ∧
      (sendReq A destId ctx).trace =
        (A.getAttestation ctx.auth msgBuf).trace.map (.auth .sender) ++
          [.request sessionNum msg] := by
  obtain ⟨⟨req, c⟩, hatt, hrest⟩ := Traced.bind_result_eq_ok.mp h
  obtain ⟨reply, auth, hauth, rfl, rfl⟩ := getAttestation_ok hatt
  cases hrest
  refine ⟨reply, auth, hauth, rfl, rfl, rfl, ?_⟩
  rw [sendReq, Traced.bind_of_ok hatt]
  rfl

/-- A response that is sent is behind its attestation and is counted. -/
theorem reqHandlerLatency_ok (h : (reqHandlerLatency A ctx).result = .ok (msg, ctx')) :
    ∃ reply auth, (A.getAttestation ctx.auth msgBuf).result = .ok (reply, auth) ∧
      msg = attestedMsg reply ∧
      ctx' = { ctx with auth := auth, sentAcksCnt := ctx.sentAcksCnt + 1 } ∧
      (reqHandlerLatency A ctx).trace =
        (A.getAttestation ctx.auth msgBuf).trace.map (.auth .receiver) ++ [.response msg] := by
  obtain ⟨⟨req, c⟩, hatt, hrest⟩ := Traced.bind_result_eq_ok.mp h
  obtain ⟨reply, auth, hauth, rfl, rfl⟩ := getAttestation_ok hatt
  cases hrest
  refine ⟨reply, auth, hauth, rfl, rfl, ?_⟩
  rw [reqHandlerLatency, Traced.bind_of_ok hatt]
  rfl

/-- Without an attestation the sender exits. -/
theorem sendReq_error (h : (sendReq A destId ctx).result = .error (m, e)) :
    m = .sender ∧ (sendReq A destId ctx).trace =
      (A.getAttestation ctx.auth msgBuf).trace.map (.auth .sender) := by
  rw [sendReq] at h ⊢
  cases hatt : (getAttestation A .sender ctx).result with
  | ok x =>
    rw [Traced.bind_of_ok hatt] at h
    cases h
  | error x =>
    rw [Traced.bind_of_error hatt] at h ⊢
    obtain rfl := Except.error.inj h
    exact ⟨getAttestation_error hatt, rfl⟩

/-- Without an attestation the receiver exits. -/
theorem reqHandlerLatency_error (h : (reqHandlerLatency A ctx).result = .error (m, e)) :
    m = .receiver ∧ (reqHandlerLatency A ctx).trace =
      (A.getAttestation ctx.auth msgBuf).trace.map (.auth .receiver) := by
  rw [reqHandlerLatency] at h ⊢
  cases hatt : (getAttestation A .receiver ctx).result with
  | ok x =>
    rw [Traced.bind_of_ok hatt] at h
    cases h
  | error x =>
    rw [Traced.bind_of_error hatt] at h ⊢
    obtain rfl := Except.error.inj h
    exact ⟨getAttestation_error hatt, rfl⟩

/-- What a request changes in the counters. -/
theorem sendReq_counts (h : (sendReq A destId ctx).result = .ok ((sessionNum, msg), ctx')) :
    ctx'.enqueuedMsgsCnt = ctx.enqueuedMsgsCnt + 1 ∧
      ctx'.receivedMsgsCnt = ctx.receivedMsgsCnt := by
  obtain ⟨reply, auth, -, -, -, rfl, -⟩ := sendReq_ok h
  exact ⟨rfl, rfl⟩

/-- What a response changes in them. -/
theorem reqHandlerLatency_counts (h : (reqHandlerLatency A ctx).result = .ok (msg, ctx')) :
    ctx'.sentAcksCnt = ctx.sentAcksCnt + 1 := by
  obtain ⟨reply, auth, -, -, rfl, -⟩ := reqHandlerLatency_ok h
  rfl

end Functions

/-- How the sender goes on when it does not send a request. -/
inductive SenderAt.Advances (n receivedMsgsCnt : ℕ) : SenderAt → SenderAt → Prop
  /-- It begins its loop. -/
  | connected : Advances n receivedMsgsCnt .connecting (.head 0)
  /-- It has sent all requests. -/
  | last {i : ℕ} (h : n ≤ i) : Advances n receivedMsgsCnt (.head i) .finale
  /-- It has the response to a request. -/
  | answered {i : ℕ} (h : i + 1 ≤ receivedMsgsCnt) :
      Advances n receivedMsgsCnt (.polling i) (.head (i + 1))
  /-- It has all responses. -/
  | all (h : receivedMsgsCnt = n) : Advances n receivedMsgsCnt .finale .draining
  /-- It returns. -/
  | drained : Advances n receivedMsgsCnt .draining .returned

/-- How the receiver goes on. -/
inductive ReceiverAt.Advances (n sentAcksCnt : ℕ) : ReceiverAt → ReceiverAt → Prop
  /-- It has sent all responses. -/
  | all (h : sentAcksCnt = n) : Advances n sentAcksCnt .polling .draining
  /-- It returns. -/
  | drained : Advances n sentAcksCnt .draining .returned

section Steps

variable {σ ρ ω : Type} {S : Setup σ ρ ω} {b b' : Bench σ ρ ω} {events : List Event} {i : ℕ}
variable {ctx : AppContext σ} {receiverCtx : AppContext ρ} {sessionNum : ℤ} {msg : List UInt8}
variable {m : Mode} {e : Exit}

/-- A request is enqueued on its session. -/
theorem sendStep_of_ok (h : (sendReq S.senderAuth Mode.sender.number b.senderCtx).result =
      .ok ((sessionNum, msg), ctx)) :
    sendStep S b i = ({ b with
      sender := .polling i
      senderCtx := ctx
      rpc := S.rpc.enqueueRequest b.rpc sessionNum msg kMsgSize },
      (sendReq S.senderAuth Mode.sender.number b.senderCtx).trace) := by
  rw [sendStep, h]

/-- Without an attestation the sender has exited. -/
theorem sendStep_of_error
    (h : (sendReq S.senderAuth Mode.sender.number b.senderCtx).result = .error (m, e)) :
    sendStep S b i = ({ b with sender := .exited e },
      (sendReq S.senderAuth Mode.sender.number b.senderCtx).trace) := by
  rw [sendStep, h]

/-- A response to a request is enqueued. -/
theorem onRequest_of_ok (reqHandle : ReqHandle) (rpc : ω)
    (h : (reqHandlerLatency S.receiverAuth b.receiverCtx).result = .ok (msg, receiverCtx)) :
    onRequest S b reqHandle rpc = ({ b with
      receiverCtx := receiverCtx
      rpc := S.rpc.enqueueResponse rpc reqHandle msg },
      (reqHandlerLatency S.receiverAuth b.receiverCtx).trace) := by
  rw [onRequest, h]

/-- Without an attestation the receiver has exited. -/
theorem onRequest_of_error (reqHandle : ReqHandle) (rpc : ω)
    (h : (reqHandlerLatency S.receiverAuth b.receiverCtx).result = .error (m, e)) :
    onRequest S b reqHandle rpc = ({ b with receiver := .exited e, rpc := rpc },
      (reqHandlerLatency S.receiverAuth b.receiverCtx).trace) := by
  rw [onRequest, h]

/-- A step of the sender sends a request, or does not and changes only where it is. -/
theorem senderFunc_cases (hstep : senderFunc S b = some (b', events)) :
    (∃ i, b.sender = .head i ∧ i < S.reqsNum ∧ (b', events) = sendStep S b i) ∨
      events = [] ∧ ∃ sender, b' = { b with sender := sender } ∧
        b.sender.Advances S.reqsNum b.senderCtx.receivedMsgsCnt sender := by
  rw [senderFunc] at hstep
  cases hat : b.sender with
  | connecting =>
    simp only [hat] at hstep
    obtain ⟨rfl, rfl⟩ := Prod.mk.inj (Option.some.inj hstep)
    exact Or.inr ⟨rfl, _, rfl, .connected⟩
  | head i =>
    simp only [hat] at hstep
    split at hstep
    · exact Or.inl ⟨i, rfl, ‹_›, (Option.some.inj hstep).symm⟩
    · obtain ⟨rfl, rfl⟩ := Prod.mk.inj (Option.some.inj hstep)
      exact Or.inr ⟨rfl, _, rfl, .last (not_lt.mp ‹_›)⟩
  | polling i =>
    simp only [hat] at hstep
    split at hstep
    · cases hstep
    · obtain ⟨rfl, rfl⟩ := Prod.mk.inj (Option.some.inj hstep)
      exact Or.inr ⟨rfl, _, rfl, .answered (not_lt.mp ‹_›)⟩
  | finale =>
    simp only [hat] at hstep
    split at hstep
    · obtain ⟨rfl, rfl⟩ := Prod.mk.inj (Option.some.inj hstep)
      exact Or.inr ⟨rfl, _, rfl, .all ‹_›⟩
    · cases hstep
  | draining =>
    simp only [hat] at hstep
    obtain ⟨rfl, rfl⟩ := Prod.mk.inj (Option.some.inj hstep)
    exact Or.inr ⟨rfl, _, rfl, .drained⟩
  | returned =>
    simp only [hat] at hstep
    cases hstep
  | exited e =>
    simp only [hat] at hstep
    cases hstep

/-- A step of the receiver changes only where it is. -/
theorem receiverFunc_cases (hstep : receiverFunc S b = some (b', events)) :
    events = [] ∧ ∃ receiver, b' = { b with receiver := receiver } ∧
      b.receiver.Advances S.reqsNum b.receiverCtx.sentAcksCnt receiver := by
  rw [receiverFunc] at hstep
  cases hat : b.receiver with
  | polling =>
    simp only [hat] at hstep
    split at hstep
    · obtain ⟨rfl, rfl⟩ := Prod.mk.inj (Option.some.inj hstep)
      exact ⟨rfl, _, rfl, .all ‹_›⟩
    · cases hstep
  | draining =>
    simp only [hat] at hstep
    obtain ⟨rfl, rfl⟩ := Prod.mk.inj (Option.some.inj hstep)
    exact ⟨rfl, _, rfl, .drained⟩
  | returned =>
    simp only [hat] at hstep
    cases hstep
  | exited e =>
    simp only [hat] at hstep
    cases hstep

/-- An invocation of the handler comes from the library, while the receiver runs its event loop. -/
theorem exists_of_handleStep {j : ℕ} (hstep : handleStep S b j = some (b', events)) :
    ∃ reqHandle rpc, b.receiver.Polls = true ∧ S.rpc.handle b.rpc j = some (reqHandle, rpc) ∧
      (b', events) = onRequest S b reqHandle rpc := by
  rw [handleStep] at hstep
  split at hstep
  · rename_i hpolls
    obtain ⟨⟨reqHandle, rpc⟩, hhandle, heq⟩ := Option.map_eq_some_iff.mp hstep
    exact ⟨reqHandle, rpc, hpolls, hhandle, heq.symm⟩
  · cases hstep

/-- So does one of the continuation, while the sender does. -/
theorem exists_of_contStep {j : ℕ} (hstep : contStep S b j = some (b', events)) :
    ∃ resp rpc, b.sender.Polls = true ∧ S.rpc.cont b.rpc j = some (resp, rpc) ∧
      b' = { b with senderCtx := contFunc b.senderCtx, rpc := rpc } ∧
      events = [.received resp] := by
  rw [contStep] at hstep
  split at hstep
  · rename_i hpolls
    obtain ⟨⟨resp, rpc⟩, hcont, heq⟩ := Option.map_eq_some_iff.mp hstep
    obtain ⟨rfl, rfl⟩ := Prod.mk.inj heq
    exact ⟨resp, rpc, hpolls, hcont, rfl, rfl⟩
  · cases hstep

/-- When the receiver runs its event loop and no handler is invoked, the library invokes none. -/
theorem handle_eq_none {j : ℕ} (hpolls : b.receiver.Polls = true)
    (hnone : (bench S).step b (.handle j) = none) : S.rpc.handle b.rpc j = none := by
  have hnone : handleStep S b j = none := hnone
  rwa [handleStep, if_pos hpolls, Option.map_eq_none_iff] at hnone

/-- When the sender does and no continuation is invoked, neither. -/
theorem cont_eq_none {j : ℕ} (hpolls : b.sender.Polls = true)
    (hnone : (bench S).step b (.cont j) = none) : S.rpc.cont b.rpc j = none := by
  have hnone : contStep S b j = none := hnone
  rwa [contStep, if_pos hpolls, Option.map_eq_none_iff] at hnone

end Steps

section Rounds

variable {σ ρ ω : Type} {S : Setup σ ρ ω} {k n : ℕ} {c c' : AppContext σ} {d d' : AppContext ρ}
variable {req resp : List UInt8} {sessionNum : ℤ} {x : Mode × Exit}

/-- The counters after some calls. -/
theorem counts_of_rounds (h : (rounds S k).result = .ok (c, d)) :
    c.enqueuedMsgsCnt = k ∧ c.receivedMsgsCnt = k ∧ d.sentAcksCnt = k := by
  induction k generalizing c d with
  | zero =>
    cases h
    exact ⟨rfl, rfl, rfl⟩
  | succ k ih =>
    obtain ⟨⟨c₀, d₀⟩, hrounds, h⟩ := Traced.bind_result_eq_ok.mp h
    obtain ⟨⟨⟨sessionNum, req⟩, c₁⟩, hsend, h⟩ := Traced.bind_result_eq_ok.mp h
    obtain ⟨⟨resp, d₁⟩, hhandle, h⟩ := Traced.bind_result_eq_ok.mp h
    cases h
    obtain ⟨hsent, hreceived, hacked⟩ := ih hrounds
    obtain ⟨henqueued, hsame⟩ := sendReq_counts hsend
    have hacks := reqHandlerLatency_counts hhandle
    exact ⟨by simp only [contFunc]; omega, by simp only [contFunc]; omega, by omega⟩

/-- All requests are for the session with the number zero. -/
theorem sessionOf_of_rounds (h : (rounds S k).result = .ok (c, d)) :
    (sessionOf c.connections Mode.sender.number).1 = 0 := by
  induction k generalizing c d with
  | zero =>
    cases h
    rfl
  | succ k ih =>
    obtain ⟨⟨c₀, d₀⟩, hrounds, h⟩ := Traced.bind_result_eq_ok.mp h
    obtain ⟨⟨⟨sessionNum, req⟩, c₁⟩, hsend, h⟩ := Traced.bind_result_eq_ok.mp h
    obtain ⟨⟨resp, d₁⟩, -, h⟩ := Traced.bind_result_eq_ok.mp h
    cases h
    obtain ⟨reply, auth, -, -, -, rfl, -⟩ := sendReq_ok hsend
    exact (sessionOf_sessionOf _ _).trans (ih hrounds)

/-- A call that is completed. -/
theorem rounds_succ_of_ok (h : (rounds S k).result = .ok (c, d))
    (hsend : (sendReq S.senderAuth Mode.sender.number c).result = .ok ((sessionNum, req), c'))
    (hhandle : (reqHandlerLatency S.receiverAuth d).result = .ok (resp, d')) :
    rounds S (k + 1) = ⟨(rounds S k).trace ++ (sendReq S.senderAuth Mode.sender.number c).trace ++
      (reqHandlerLatency S.receiverAuth d).trace ++ [.received resp], .ok (contFunc c', d')⟩ := by
  rw [rounds, Traced.bind_of_ok h]
  dsimp only
  rw [Traced.bind_of_ok hsend]
  dsimp only
  rw [Traced.bind_of_ok hhandle]
  simp only [List.append_assoc]
  rfl

/-- A call for which the sender gets no attestation. -/
theorem rounds_succ_of_not_sent (h : (rounds S k).result = .ok (c, d))
    (hsend : (sendReq S.senderAuth Mode.sender.number c).result = .error x) :
    rounds S (k + 1) =
      ⟨(rounds S k).trace ++ (sendReq S.senderAuth Mode.sender.number c).trace, .error x⟩ := by
  rw [rounds, Traced.bind_of_ok h]
  dsimp only
  rw [Traced.bind_of_error hsend]

/-- A call for which the receiver gets no attestation. -/
theorem rounds_succ_of_not_handled (h : (rounds S k).result = .ok (c, d))
    (hsend : (sendReq S.senderAuth Mode.sender.number c).result = .ok ((sessionNum, req), c'))
    (hhandle : (reqHandlerLatency S.receiverAuth d).result = .error x) :
    rounds S (k + 1) = ⟨(rounds S k).trace ++ (sendReq S.senderAuth Mode.sender.number c).trace ++
      (reqHandlerLatency S.receiverAuth d).trace, .error x⟩ := by
  rw [rounds, Traced.bind_of_ok h]
  dsimp only
  rw [Traced.bind_of_ok hsend]
  dsimp only
  rw [Traced.bind_of_error hhandle]
  simp only [List.append_assoc]

/-- Behind an exit nothing happens. -/
theorem rounds_of_error (h : (rounds S k).result = .error x) (hk : k ≤ n) :
    rounds S n = rounds S k := by
  induction n, hk using Nat.le_induction with
  | base => rfl
  | succ n hk ih =>
    rw [rounds, Traced.bind_of_error (ih ▸ h), ih]
    exact Traced.ext rfl h.symm

end Rounds

end TeeReplication.Benchmark
