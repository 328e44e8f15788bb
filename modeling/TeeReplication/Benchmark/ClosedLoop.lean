import TeeReplication.Benchmark.Rounds

/-!
# The closed loop

The sender does not go on before it has the response to its last request. So if the
library hands over every message at most once, then whatever the order of the steps is,
the two programs do what one program does that makes the calls one after another, and
nothing else. If it loses none of them they stop, and all calls have been made unless
one of them was ended by its authenticator; then the other one waits for good.
-/

namespace TeeReplication.Benchmark

/-- Where the sender can be when `k` of `n` calls are behind it and none is under way. -/
def SenderAt.Idle (n k : ℕ) : SenderAt → Prop
  | .connecting => 0 = k
  | .head i => i = k
  | .polling i => i + 1 = k
  | .finale | .draining | .returned => k = n
  | .exited _ => False

/-- Where the receiver can be when it has sent `k` of `n` responses. -/
def ReceiverAt.Idle (n k : ℕ) : ReceiverAt → Prop
  | .polling => True
  | .draining | .returned => k = n
  | .exited _ => False

/-- The messages with the attestations fit into the buffers of the library. -/
structure Setup.Fits {σ ρ ω : Type} (S : Setup σ ρ ω) : Prop where
  /-- The requests. -/
  request : ∀ s reply t, (S.senderAuth.getAttestation s msgBuf).result = .ok (reply, t) →
    (attestedMsg reply).length ≤ S.rpc.maxMsgSize
  /-- The responses. -/
  response : ∀ s reply t, (S.receiverAuth.getAttestation s msgBuf).result = .ok (reply, t) →
    (attestedMsg reply).length ≤ kMsgSize

/-- A receiver that goes on has sent as many responses as before. -/
theorem ReceiverAt.Idle.advances {n k : ℕ} {receiver receiver' : ReceiverAt}
    (h : receiver.Idle n k) (hadvances : receiver.Advances n k receiver') :
    receiver'.Idle n k := by
  cases hadvances with
  | all hall => exact hall
  | drained => exact h

/-- The states that the benchmark can be in, with what has happened before. A call that is under way
can get lost, if the library is not `lossless`. -/
inductive Loop {σ ρ ω : Type} (S : Setup σ ρ ω) (requests responses : ω → List (List UInt8))
    (lossless : Prop) : List Event → Bench σ ρ ω → Prop
  /-- No call is under way. -/
  | idle {k : ℕ} {c : AppContext σ} {d : AppContext ρ} {sender : SenderAt} {receiver : ReceiverAt}
      {rpc : ω} (hrounds : (rounds S k).result = .ok (c, d)) (hk : k ≤ S.reqsNum)
      (hsender : sender.Idle S.reqsNum k) (hreceiver : receiver.Idle S.reqsNum k)
      (hrequests : requests rpc = []) (hresponses : responses rpc = []) :
      Loop S requests responses lossless (rounds S k).trace ⟨sender, c, receiver, d, rpc⟩
  /-- A request is under way. -/
  | requested {k : ℕ} {c c' : AppContext σ} {d : AppContext ρ} {sessionNum : ℤ} {req : List UInt8}
      {rpc : ω} (hrounds : (rounds S k).result = .ok (c, d)) (hk : k < S.reqsNum)
      (hsend : (sendReq S.senderAuth Mode.sender.number c).result = .ok ((sessionNum, req), c'))
      (hrequests : (requests rpc).Subperm [req]) (hresponses : responses rpc = [])
      (hkept : lossless → requests rpc ≠ []) :
      Loop S requests responses lossless
        ((rounds S k).trace ++ (sendReq S.senderAuth Mode.sender.number c).trace)
        ⟨.polling k, c', .polling, d, rpc⟩
  /-- A response is under way. -/
  | answered {k : ℕ} {c c' : AppContext σ} {d d' : AppContext ρ} {sessionNum : ℤ}
      {req resp : List UInt8} {receiver : ReceiverAt} {rpc : ω}
      (hrounds : (rounds S k).result = .ok (c, d)) (hk : k < S.reqsNum)
      (hsend : (sendReq S.senderAuth Mode.sender.number c).result = .ok ((sessionNum, req), c'))
      (hhandle : (reqHandlerLatency S.receiverAuth d).result = .ok (resp, d'))
      (hreceiver : receiver.Idle S.reqsNum (k + 1)) (hrequests : requests rpc = [])
      (hresponses : (responses rpc).Subperm [resp]) (hkept : lossless → responses rpc ≠ []) :
      Loop S requests responses lossless
        ((rounds S k).trace ++ (sendReq S.senderAuth Mode.sender.number c).trace ++
          (reqHandlerLatency S.receiverAuth d).trace)
        ⟨.polling k, c', receiver, d', rpc⟩
  /-- The sender has got no attestation. -/
  | notSent {k : ℕ} {c : AppContext σ} {d : AppContext ρ} {m : Mode} {e : Exit} {rpc : ω}
      (hrounds : (rounds S k).result = .ok (c, d)) (hk : k < S.reqsNum)
      (hsend : (sendReq S.senderAuth Mode.sender.number c).result = .error (m, e))
      (hrequests : requests rpc = []) (hresponses : responses rpc = []) :
      Loop S requests responses lossless
        ((rounds S k).trace ++ (sendReq S.senderAuth Mode.sender.number c).trace)
        ⟨.exited e, c, .polling, d, rpc⟩
  /-- The receiver has got no attestation. -/
  | notHandled {k : ℕ} {c c' : AppContext σ} {d : AppContext ρ} {sessionNum : ℤ}
      {req : List UInt8} {m : Mode} {e : Exit} {rpc : ω}
      (hrounds : (rounds S k).result = .ok (c, d)) (hk : k < S.reqsNum)
      (hsend : (sendReq S.senderAuth Mode.sender.number c).result = .ok ((sessionNum, req), c'))
      (hhandle : (reqHandlerLatency S.receiverAuth d).result = .error (m, e))
      (hrequests : requests rpc = []) (hresponses : responses rpc = []) :
      Loop S requests responses lossless
        ((rounds S k).trace ++ (sendReq S.senderAuth Mode.sender.number c).trace ++
          (reqHandlerLatency S.receiverAuth d).trace)
        ⟨.polling k, c', .exited e, d, rpc⟩

namespace Loop

variable {σ ρ ω : Type} {S : Setup σ ρ ω} {requests responses : ω → List (List UInt8)}
variable {lossless : Prop} {b b' : Bench σ ρ ω} {trace events : List Event}

/-- The response to a request is missing. -/
theorem received_lt {k : ℕ} {c c' : AppContext σ} {d : AppContext ρ} {sessionNum : ℤ}
    {req : List UInt8} (hrounds : (rounds S k).result = .ok (c, d))
    (hsend : (sendReq S.senderAuth Mode.sender.number c).result = .ok ((sessionNum, req), c')) :
    c'.receivedMsgsCnt < k + 1 := by
  rw [(sendReq_counts hsend).2, (counts_of_rounds hrounds).2.1]
  exact Nat.lt_succ_self k

/-- A request is under way once it is sent. -/
theorem of_sendStep (hR : S.rpc.AtMostOnce requests responses)
    (hkept : lossless → S.rpc.Delivers requests responses) (hfits : S.Fits) {k : ℕ}
    {c : AppContext σ} {d : AppContext ρ} {rpc : ω} (hrounds : (rounds S k).result = .ok (c, d))
    (hk : k < S.reqsNum) (hrequests : requests rpc = []) (hresponses : responses rpc = []) :
    Loop S requests responses lossless
      ((rounds S k).trace ++ (sendStep S ⟨.head k, c, .polling, d, rpc⟩ k).2)
      (sendStep S ⟨.head k, c, .polling, d, rpc⟩ k).1 := by
  cases hsend : (sendReq S.senderAuth Mode.sender.number c).result with
  | ok x =>
    obtain ⟨⟨sessionNum, req⟩, c'⟩ := x
    obtain ⟨reply, auth, hreply, hmsg, hsession, -, -⟩ := sendReq_ok hsend
    have hsession : sessionNum = S.rpc.sessionNum := by
      rw [hR.sessionNum_eq, hsession, sessionOf_of_rounds hrounds]
    have hreq : req.length ≤ S.rpc.maxMsgSize := hmsg ▸ hfits.request _ _ _ hreply
    obtain ⟨hadded, hsame⟩ := hR.enqueueRequest rpc req hreq
    rw [hrequests] at hadded
    rw [hresponses] at hsame
    rw [sendStep_of_ok hsend, hsession]
    exact .requested hrounds hk hsend hadded (List.subperm_nil.mp hsame)
      fun h => (hkept h).requests_ne_nil rpc req hreq
  | error x =>
    rw [sendStep_of_error hsend]
    exact .notSent hrounds hk hsend hrequests hresponses

/-- The sender goes on. -/
theorem senderFunc (hR : S.rpc.AtMostOnce requests responses)
    (hkept : lossless → S.rpc.Delivers requests responses) (hfits : S.Fits)
    (h : Loop S requests responses lossless trace b)
    (hstep : Benchmark.senderFunc S b = some (b', events)) :
    Loop S requests responses lossless (trace ++ events) b' := by
  rcases senderFunc_cases hstep with ⟨i, hat, hi, heq⟩ | ⟨rfl, sender', rfl, hadvances⟩
  · cases h with
    | @idle k c d sender receiver rpc hrounds hk hsender hreceiver hrequests hresponses =>
      obtain rfl : sender = .head i := hat
      obtain rfl : i = k := hsender
      have hpolling : receiver = .polling := by
        cases receiver with
        | polling => rfl
        | draining => exact absurd hreceiver hi.ne
        | returned => exact absurd hreceiver hi.ne
        | exited e => exact hreceiver.elim
      subst hpolling
      obtain ⟨rfl, rfl⟩ := Prod.mk.inj heq
      exact of_sendStep hR hkept hfits hrounds hi hrequests hresponses
    | requested => cases hat
    | answered => cases hat
    | notSent => cases hat
    | notHandled => cases hat
  · rw [List.append_nil]
    cases h with
    | @idle k c d sender receiver rpc hrounds hk hsender hreceiver hrequests hresponses =>
      have hidle : sender'.Idle S.reqsNum k := by
        cases hadvances with
        | connected => exact hsender
        | last hlast => exact Nat.le_antisymm hk (hlast.trans_eq hsender)
        | answered => exact hsender
        | all => exact hsender
        | drained => exact hsender
      exact .idle hrounds hk hidle hreceiver hrequests hresponses
    | requested hrounds _ hsend =>
      cases hadvances with
      | answered hanswered => exact absurd (received_lt hrounds hsend) (not_lt.mpr hanswered)
    | answered hrounds _ hsend =>
      cases hadvances with
      | answered hanswered => exact absurd (received_lt hrounds hsend) (not_lt.mpr hanswered)
    | notSent => cases hadvances
    | notHandled hrounds _ hsend =>
      cases hadvances with
      | answered hanswered => exact absurd (received_lt hrounds hsend) (not_lt.mpr hanswered)

/-- The receiver goes on. -/
theorem receiverFunc (h : Loop S requests responses lossless trace b)
    (hstep : Benchmark.receiverFunc S b = some (b', events)) :
    Loop S requests responses lossless (trace ++ events) b' := by
  obtain ⟨rfl, receiver', rfl, hadvances⟩ := receiverFunc_cases hstep
  rw [List.append_nil]
  cases h with
  | idle hrounds hk hsender hreceiver hrequests hresponses =>
    rw [(counts_of_rounds hrounds).2.2] at hadvances
    exact .idle hrounds hk hsender (hreceiver.advances hadvances) hrequests hresponses
  | requested hrounds hk =>
    rw [(counts_of_rounds hrounds).2.2] at hadvances
    cases hadvances with
    | all hall => exact absurd hall hk.ne
  | answered hrounds hk hsend hhandle hreceiver hrequests hresponses hkept =>
    rw [reqHandlerLatency_counts hhandle, (counts_of_rounds hrounds).2.2] at hadvances
    exact .answered hrounds hk hsend hhandle (hreceiver.advances hadvances) hrequests hresponses
      hkept
  | notSent hrounds hk =>
    rw [(counts_of_rounds hrounds).2.2] at hadvances
    cases hadvances with
    | all hall => exact absurd hall hk.ne
  | notHandled => cases hadvances

/-- Without requests no handler is invoked. -/
theorem not_handle (hR : S.rpc.AtMostOnce requests responses) {rpc rpc' : ω} {j : ℕ}
    {reqHandle : ReqHandle} (hrequests : requests rpc = [])
    (hhandle : S.rpc.handle rpc j = some (reqHandle, rpc')) : False := by
  have htaken := (hR.handle _ _ _ _ hhandle).1
  rw [hrequests] at htaken
  exact List.cons_ne_nil _ _ (List.subperm_nil.mp htaken)

/-- Without responses no continuation is. -/
theorem not_cont (hR : S.rpc.AtMostOnce requests responses) {rpc rpc' : ω} {j : ℕ}
    {msg : List UInt8} (hresponses : responses rpc = [])
    (hcont : S.rpc.cont rpc j = some (msg, rpc')) : False := by
  have htaken := (hR.cont _ _ _ _ hcont).2
  rw [hresponses] at htaken
  exact List.cons_ne_nil _ _ (List.subperm_nil.mp htaken)

/-- The only message is the one that is taken. -/
theorem eq_of_subperm_singleton {x y : List UInt8} {l : List (List UInt8)}
    (h : (x :: l).Subperm [y]) : x = y ∧ l = [] := by
  have hlength := h.length_le
  simp only [List.length_cons, List.length_nil] at hlength
  exact ⟨List.mem_singleton.mp (h.subset List.mem_cons_self),
    List.length_eq_zero_iff.mp (by omega)⟩

/-- A request is handled. -/
theorem handleStep (hR : S.rpc.AtMostOnce requests responses)
    (hkept : lossless → S.rpc.Delivers requests responses) (hfits : S.Fits) {j : ℕ}
    (h : Loop S requests responses lossless trace b)
    (hstep : Benchmark.handleStep S b j = some (b', events)) :
    Loop S requests responses lossless (trace ++ events) b' := by
  obtain ⟨reqHandle, rpc', hpolls, hinvoked, heq⟩ := exists_of_handleStep hstep
  cases h with
  | idle _ _ _ _ hrequests => exact (not_handle hR hrequests hinvoked).elim
  | @requested k c c' d sessionNum req rpc hrounds hk hsend hrequests hresponses =>
    obtain ⟨htaken, hsame⟩ := hR.handle _ _ _ _ hinvoked
    obtain ⟨-, hnone⟩ := eq_of_subperm_singleton (htaken.trans hrequests)
    rw [hresponses] at hsame
    have hnone' := List.subperm_nil.mp hsame
    cases hhandle : (reqHandlerLatency S.receiverAuth d).result with
    | ok x =>
      obtain ⟨resp, d'⟩ := x
      obtain ⟨reply, auth, hreply, hmsg, -, -⟩ := reqHandlerLatency_ok hhandle
      have hresp : resp.length ≤ kMsgSize := hmsg ▸ hfits.response _ _ _ hreply
      obtain ⟨hkeeps, hadded⟩ := hR.enqueueResponse _ _ _ _ resp hinvoked hresp
      rw [hnone] at hkeeps
      rw [hnone'] at hadded
      rw [onRequest_of_ok reqHandle rpc' hhandle] at heq
      obtain ⟨rfl, rfl⟩ := Prod.mk.inj heq
      exact .answered hrounds hk hsend hhandle trivial (List.subperm_nil.mp hkeeps) hadded
        fun h => (hkept h).responses_ne_nil _ _ _ _ resp hinvoked hresp
    | error x =>
      rw [onRequest_of_error reqHandle rpc' hhandle] at heq
      obtain ⟨rfl, rfl⟩ := Prod.mk.inj heq
      exact .notHandled hrounds hk hsend hhandle hnone hnone'
  | answered _ _ _ _ _ hrequests => exact (not_handle hR hrequests hinvoked).elim
  | notSent _ _ _ hrequests => exact (not_handle hR hrequests hinvoked).elim
  | notHandled => exact absurd hpolls Bool.false_ne_true

/-- A response is received. -/
theorem contStep (hR : S.rpc.AtMostOnce requests responses) {j : ℕ}
    (h : Loop S requests responses lossless trace b)
    (hstep : Benchmark.contStep S b j = some (b', events)) :
    Loop S requests responses lossless (trace ++ events) b' := by
  obtain ⟨msg, rpc', -, hinvoked, rfl, rfl⟩ := exists_of_contStep hstep
  cases h with
  | idle _ _ _ _ _ hresponses => exact (not_cont hR hresponses hinvoked).elim
  | requested _ _ _ _ hresponses => exact (not_cont hR hresponses hinvoked).elim
  | @answered k c c' d d' sessionNum req resp receiver rpc hrounds hk hsend hhandle hreceiver
      hrequests hresponses =>
    obtain ⟨hsame, htaken⟩ := hR.cont _ _ _ _ hinvoked
    obtain ⟨rfl, hnone⟩ := eq_of_subperm_singleton (htaken.trans hresponses)
    rw [hrequests] at hsame
    have hsucc := rounds_succ_of_ok hrounds hsend hhandle
    have hnext : Loop S requests responses lossless (rounds S (k + 1)).trace
        ⟨.polling k, contFunc c', receiver, d', rpc'⟩ :=
      .idle (by rw [hsucc]) hk rfl hreceiver (List.subperm_nil.mp hsame) hnone
    rwa [hsucc] at hnext
  | notSent _ _ _ _ hresponses => exact (not_cont hR hresponses hinvoked).elim
  | notHandled _ _ _ _ _ hresponses => exact (not_cont hR hresponses hinvoked).elim

variable (lossless) in
/-- Whatever happens, the benchmark is in one of these states. -/
theorem of_run (hR : S.rpc.AtMostOnce requests responses)
    (hkept : lossless → S.rpc.Delivers requests responses) (hfits : S.Fits)
    (h : (bench S).Run trace b) : Loop S requests responses lossless trace b := by
  induction h with
  | start =>
    exact .idle (k := 0) rfl (Nat.zero_le _) rfl trivial hR.requests_start hR.responses_start
  | @step trace events s t a _ hstep ih =>
    cases a with
    | sender => exact ih.senderFunc hR hkept hfits hstep
    | receiver => exact ih.receiverFunc hstep
    | handle j => exact ih.handleStep hR hkept hfits hstep
    | cont j => exact ih.contStep hR hstep

/-- No call is made twice, and one at most is under way. -/
theorem counts (h : Loop S requests responses lossless trace b) :
    b.senderCtx.receivedMsgsCnt ≤ b.receiverCtx.sentAcksCnt ∧
      b.receiverCtx.sentAcksCnt ≤ b.senderCtx.enqueuedMsgsCnt ∧
      b.senderCtx.enqueuedMsgsCnt ≤ b.senderCtx.receivedMsgsCnt + 1 ∧
      b.senderCtx.enqueuedMsgsCnt ≤ S.reqsNum := by
  cases h with
  | idle hrounds hk =>
    obtain ⟨henqueued, hreceived, hacked⟩ := counts_of_rounds hrounds
    dsimp only
    omega
  | requested hrounds hk hsend =>
    obtain ⟨henqueued, hreceived, hacked⟩ := counts_of_rounds hrounds
    obtain ⟨hnext, hsame⟩ := sendReq_counts hsend
    dsimp only
    omega
  | answered hrounds hk hsend hhandle =>
    obtain ⟨henqueued, hreceived, hacked⟩ := counts_of_rounds hrounds
    obtain ⟨hnext, hsame⟩ := sendReq_counts hsend
    have hacks := reqHandlerLatency_counts hhandle
    dsimp only
    omega
  | notSent hrounds hk =>
    obtain ⟨henqueued, hreceived, hacked⟩ := counts_of_rounds hrounds
    dsimp only
    omega
  | notHandled hrounds hk hsend =>
    obtain ⟨henqueued, hreceived, hacked⟩ := counts_of_rounds hrounds
    obtain ⟨hnext, hsame⟩ := sendReq_counts hsend
    dsimp only
    omega

/-- The sender waits for a response to one of its requests. -/
theorem polling_lt {i : ℕ} (h : Loop S requests responses lossless trace b)
    (hsender : b.sender = .polling i) : i < S.reqsNum := by
  cases h with
  | idle _ hk hidle =>
    subst hsender
    exact (Nat.lt_succ_self i).trans_le ((show i + 1 = _ from hidle).trans_le hk)
  | requested _ hk =>
    obtain rfl := SenderAt.polling.inj hsender
    exact hk
  | answered _ hk =>
    obtain rfl := SenderAt.polling.inj hsender
    exact hk
  | notSent => cases hsender
  | notHandled _ hk =>
    obtain rfl := SenderAt.polling.inj hsender
    exact hk

end Loop

section Ending

variable {σ ρ ω : Type} {S : Setup σ ρ ω} {requests responses : ω → List (List UInt8)}
variable {b b' : Bench σ ρ ω} {trace events : List Event}

/-- What the sender has still to do. -/
def SenderAt.left (n : ℕ) : SenderAt → ℕ
  | .connecting => 2 * n + 4
  | .head i => 2 * (n - i) + 3
  | .polling i => 2 * (n - i) + 2
  | .finale => 2
  | .draining => 1
  | .returned | .exited _ => 0

/-- What the receiver has still to do. -/
def ReceiverAt.left : ReceiverAt → ℕ
  | .polling => 2
  | .draining => 1
  | .returned | .exited _ => 0

/-- What is still to be done. -/
def left (S : Setup σ ρ ω) (b : Bench σ ρ ω) : ℕ :=
  b.sender.left S.reqsNum + b.receiver.left + (S.reqsNum - b.receiverCtx.sentAcksCnt) +
    (S.reqsNum - b.senderCtx.receivedMsgsCnt)

/-- A receiver that runs its event loop has something to do. -/
theorem ReceiverAt.left_pos {receiver : ReceiverAt} (h : receiver.Polls = true) :
    0 < receiver.left := by
  cases receiver with
  | polling => exact Nat.two_pos
  | draining => exact Nat.one_pos
  | returned => cases h
  | exited e => cases h

/-- A request that is sent leaves less to do. -/
theorem sendStep_left {i : ℕ} (hat : b.sender = .head i) :
    left S (sendStep S b i).1 < left S b := by
  cases hsend : (sendReq S.senderAuth Mode.sender.number b.senderCtx).result with
  | ok x =>
    have hsame := (sendReq_counts hsend).2
    rw [sendStep_of_ok hsend]
    simp only [left, hat, SenderAt.left, hsame]
    omega
  | error x =>
    rw [sendStep_of_error hsend]
    simp only [left, hat, SenderAt.left]
    omega

/-- A step of the sender leaves less to do. -/
theorem senderFunc_left (hpolling : ∀ i, b.sender = .polling i → i < S.reqsNum)
    (hstep : senderFunc S b = some (b', events)) : left S b' < left S b := by
  rcases senderFunc_cases hstep with ⟨i, hat, -, heq⟩ | ⟨-, sender, rfl, hadvances⟩
  · obtain rfl : b' = (sendStep S b i).1 := congrArg Prod.fst heq
    exact sendStep_left hat
  · have hless : sender.left S.reqsNum < b.sender.left S.reqsNum := by
      generalize b.sender = sender' at hadvances hpolling
      cases hadvances with
      | connected => simp [SenderAt.left]
      | last => simp [SenderAt.left]
      | @answered i =>
        have hi := hpolling i rfl
        simp only [SenderAt.left]
        omega
      | all => exact Nat.one_lt_two
      | drained => exact Nat.one_pos
    simp only [left]
    omega

/-- So does a step of the receiver. -/
theorem receiverFunc_left (hstep : receiverFunc S b = some (b', events)) :
    left S b' < left S b := by
  obtain ⟨-, receiver, rfl, hadvances⟩ := receiverFunc_cases hstep
  have hless : receiver.left < b.receiver.left := by
    generalize b.receiver = receiver' at hadvances
    cases hadvances with
    | all => exact Nat.one_lt_two
    | drained => exact Nat.one_pos
  simp only [left]
  omega

/-- So does a request that is handled, if it is counted. -/
theorem handleStep_left {j : ℕ} (hcount : b'.receiverCtx.sentAcksCnt ≤ S.reqsNum)
    (hstep : handleStep S b j = some (b', events)) : left S b' < left S b := by
  obtain ⟨reqHandle, rpc, hpolls, -, heq⟩ := exists_of_handleStep hstep
  cases hhandle : (reqHandlerLatency S.receiverAuth b.receiverCtx).result with
  | ok x =>
    have hacks := reqHandlerLatency_counts hhandle
    rw [onRequest_of_ok reqHandle rpc hhandle] at heq
    obtain ⟨rfl, -⟩ := Prod.mk.inj heq
    simp only [left] at hcount ⊢
    omega
  | error x =>
    have hleft := ReceiverAt.left_pos hpolls
    have hexited : (ReceiverAt.exited x.2).left = 0 := rfl
    rw [onRequest_of_error reqHandle rpc hhandle] at heq
    obtain ⟨rfl, -⟩ := Prod.mk.inj heq
    simp only [left, hexited]
    omega

/-- So does a response that is received. -/
theorem contStep_left {j : ℕ} (hcount : b'.senderCtx.receivedMsgsCnt ≤ S.reqsNum)
    (hstep : contStep S b j = some (b', events)) : left S b' < left S b := by
  obtain ⟨resp, rpc, -, -, rfl, -⟩ := exists_of_contStep hstep
  simp only [left, contFunc] at hcount ⊢
  omega

/-- The benchmark ends. -/
theorem halts (hR : S.rpc.AtMostOnce requests responses) (hfits : S.Fits) :
    (bench S).Halts fun _ _ => True := by
  apply Machine.halts_of_lt (left S)
  intro s a t events hs _ hstep
  obtain ⟨trace, hrun⟩ := hs.exists_run
  have hloop := Loop.of_run False hR False.elim hfits hrun
  have hcounts := (Loop.of_run False hR False.elim hfits (hrun.step hstep)).counts
  cases a with
  | sender => exact senderFunc_left (fun i => hloop.polling_lt) hstep
  | receiver => exact receiverFunc_left hstep
  | handle j => exact handleStep_left (by omega) hstep
  | cont j => exact contStep_left (by omega) hstep

/-- How the two programs end. -/
def Ended (S : Setup σ ρ ω) (b : Bench σ ρ ω) : Prop :=
  match (rounds S S.reqsNum).result with
  | .ok (c, d) =>
    b.sender = .returned ∧ b.senderCtx = c ∧ b.receiver = .returned ∧ b.receiverCtx = d
  | .error (.sender, e) => b.sender = .exited e ∧ b.receiver = .polling
  | .error (.receiver, e) =>
    b.sender = .polling b.senderCtx.receivedMsgsCnt ∧ b.receiver = .exited e

/-- Where nothing can happen, everything has happened. -/
theorem Loop.ended (hR : S.rpc.Delivers requests responses)
    (h : Loop S requests responses True trace b) (hstuck : (bench S).Stuck (fun _ _ => True) b) :
    trace = (rounds S S.reqsNum).trace ∧ requests b.rpc = [] ∧ responses b.rpc = [] ∧
      Ended S b := by
  have hsender : Benchmark.senderFunc S b = none := hstuck .sender trivial
  have hreceiver : Benchmark.receiverFunc S b = none := hstuck .receiver trivial
  cases h with
  | @idle k c d sender receiver rpc hrounds hk hidle hidle' hrequests hresponses =>
    obtain ⟨-, hreceived, hacked⟩ := counts_of_rounds hrounds
    obtain ⟨rfl, rfl⟩ : sender = .returned ∧ k = S.reqsNum := by
      cases sender with
      | connecting => cases hsender
      | head i =>
        rw [Benchmark.senderFunc] at hsender
        dsimp only at hsender
        split at hsender <;> cases hsender
      | polling i =>
        obtain rfl : i + 1 = k := hidle
        have hgo : some _ = none := (if_neg (by dsimp only; omega)).symm.trans hsender
        cases hgo
      | finale =>
        obtain rfl : k = S.reqsNum := hidle
        have hgo : some _ = none := (if_pos hreceived).symm.trans hsender
        cases hgo
      | draining => cases hsender
      | returned => exact ⟨rfl, hidle⟩
      | exited e => exact hidle.elim
    obtain rfl : receiver = .returned := by
      cases receiver with
      | polling =>
        have hgo : some _ = none := (if_pos hacked).symm.trans hreceiver
        cases hgo
      | draining => cases hreceiver
      | returned => rfl
      | exited e => exact hidle'.elim
    rw [Ended, hrounds]
    exact ⟨rfl, hrequests, hresponses, rfl, rfl, rfl, rfl⟩
  | @requested _ _ _ _ _ _ rpc _ _ _ _ _ hkept =>
    -- the receiver runs its event loop, which invokes the handler
    obtain ⟨j, hj⟩ := hR.exists_handle rpc (hkept trivial)
    exact absurd (handle_eq_none rfl (hstuck (.handle j) trivial)) hj
  | @answered _ _ _ _ _ _ _ _ _ rpc _ _ _ _ _ _ _ hkept =>
    -- the sender runs its own, which invokes the continuation
    obtain ⟨j, hj⟩ := hR.exists_cont rpc (hkept trivial)
    exact absurd (cont_eq_none rfl (hstuck (.cont j) trivial)) hj
  | @notSent k c d m e rpc hrounds hk hsend hrequests hresponses =>
    obtain ⟨rfl, -⟩ := sendReq_error hsend
    have hsucc := rounds_succ_of_not_sent hrounds hsend
    have hall := rounds_of_error (congrArg Traced.result hsucc) hk
    rw [Ended, hall, hsucc]
    exact ⟨rfl, hrequests, hresponses, rfl, rfl⟩
  | @notHandled k c c' d sessionNum req m e rpc hrounds hk hsend hhandle hrequests hresponses =>
    obtain ⟨rfl, -⟩ := reqHandlerLatency_error hhandle
    have hsucc := rounds_succ_of_not_handled hrounds hsend hhandle
    have hall := rounds_of_error (congrArg Traced.result hsucc) hk
    have hreceived : c'.receivedMsgsCnt = k :=
      (sendReq_counts hsend).2.trans (counts_of_rounds hrounds).2.1
    rw [Ended, hall, hsucc]
    exact ⟨rfl, hrequests, hresponses, congrArg SenderAt.polling hreceived.symm, rfl⟩

end Ending

end TeeReplication.Benchmark
