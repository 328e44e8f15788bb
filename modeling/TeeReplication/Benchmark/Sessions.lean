import TeeReplication.Benchmark.ClosedLoop
import TeeReplication.WriteAhead

/-!
# The authenticators of the benchmark

In the benchmark an authenticator works through one session: every message is the same
buffer, and every attestation goes into a request or a response. So what holds in a
session holds there, whatever the library does with the messages. In particular, with a
class that logs its attestations no message leaves a program before its attestation and
all earlier ones are durable.
-/

namespace TeeReplication

/-- A session with one more message at the end. -/
theorem Authenticator.session_concat {σ : Type} {A : Authenticator σ} {s t : σ}
    {datas : List (List UInt8)} (h : (A.session s datas).result = .ok t) (data : List UInt8) :
    A.session s (datas ++ [data]) = ⟨(A.session s datas).trace ++ (A.getAttestation t data).trace,
      (A.getAttestation t data).result.map Prod.snd⟩ := by
  induction datas generalizing s with
  | nil =>
    obtain rfl : s = t := Except.ok.inj h
    have hone : A.session s [data] = A.getAttestation s data >>= fun x => pure x.2 := rfl
    rw [List.nil_append, hone]
    cases hatt : (A.getAttestation s data).result with
    | ok x =>
      rw [Traced.bind_of_ok hatt]
      exact Traced.ext (List.append_nil _) rfl
    | error e =>
      rw [Traced.bind_of_error hatt]
      rfl
  | cons first datas ih =>
    rw [session] at h
    obtain ⟨⟨reply, s'⟩, hfirst, hrest⟩ := Traced.bind_result_eq_ok.mp h
    rw [List.cons_append, session, session, Traced.bind_of_ok hfirst, Traced.bind_of_ok hfirst]
    dsimp only
    rw [ih hrest, List.append_assoc]

/-- The sessions with more messages do more. -/
theorem Authenticator.session_isPrefix {σ : Type} (A : Authenticator σ) (s : σ)
    (datas more : List (List UInt8)) :
    (A.session s datas).trace <+: (A.session s (datas ++ more)).trace := by
  induction datas generalizing s with
  | nil => exact List.nil_prefix
  | cons data datas ih =>
    rw [List.cons_append, session, session]
    cases hatt : (A.getAttestation s data).result with
    | ok x =>
      rw [Traced.bind_of_ok hatt, Traced.bind_of_ok hatt]
      exact List.prefix_append_right_inj _ |>.mpr (ih x.2)
    | error e =>
      rw [Traced.bind_of_error hatt, Traced.bind_of_error hatt]

/-- An authenticator that gets an attestation logs it and hands it out, and that is all. -/
structure Authenticator.Attests {σ : Type} (A : Authenticator σ) : Prop where
  /-- What it does. -/
  trace_eq : ∀ s data reply t, (A.getAttestation s data).result = .ok (reply, t) →
    ∃ events : List LogEvent,
      (A.getAttestation s data).trace = events.map .log ++ [.attested reply]

/-- The classes that ask the service are of this kind. -/
theorem attests_of_getAttestation {τ ρ : Type} {T : TrustedService τ}
    {logReply : ρ → AuthReply → List LogEvent × ρ} (A : Authenticator (Connection τ × ρ))
    (hA : A.getAttestation = getAttestation T logReply) : A.Attests where
  trace_eq s data reply t h := by
    rw [hA] at h ⊢
    rw [getAttestation] at h ⊢
    cases hrequest : sendReqToTrustedService T data s.1 with
    | error e =>
      rw [hrequest] at h
      cases h
    | ok c =>
      rw [hrequest, Traced.lift_ok_bind] at h
      rw [Traced.lift_ok_bind]
      cases hreply : recvAttestation T c with
      | error e =>
        rw [hreply] at h
        cases h
      | ok x =>
        rw [hreply, Traced.lift_ok_bind] at h
        rw [Traced.lift_ok_bind]
        cases h
        exact ⟨_, rfl⟩

namespace Benchmark

/-- The step of the authenticator of one program that an event is. -/
def Event.auth? (mode : Mode) : Event → Option AuthEvent
  | .auth m event => if m = mode then some event else none
  | .request _ _ | .response _ | .received _ => none

/-- The message that one program sends by an event. -/
def Event.sent? : Mode → Event → Option (List UInt8)
  | .sender, .request _ msg => some msg
  | .receiver, .response msg => some msg
  | _, _ => none

/-- The steps of the authenticator of one program, in order. -/
def authEvents (mode : Mode) (trace : List Event) : List AuthEvent :=
  trace.filterMap (Event.auth? mode)

/-- The messages that one program sends, in order. -/
def sent (mode : Mode) (trace : List Event) : List (List UInt8) :=
  trace.filterMap (Event.sent? mode)

section Events

variable {mode m : Mode} {trace trace' : List Event} {events : List AuthEvent}

@[simp] theorem authEvents_append :
    authEvents mode (trace ++ trace') = authEvents mode trace ++ authEvents mode trace' :=
  List.filterMap_append

@[simp] theorem sent_append : sent mode (trace ++ trace') = sent mode trace ++ sent mode trace' :=
  List.filterMap_append

/-- All steps of the authenticator of a program are its own. -/
@[simp] theorem authEvents_map_self : authEvents mode (events.map (.auth mode)) = events := by
  induction events with
  | nil => rfl
  | cons e events ih =>
    have hsome : Event.auth? mode (.auth mode e) = some e := if_pos rfl
    rw [List.map_cons, authEvents, List.filterMap_cons_some hsome]
    exact congrArg (e :: ·) ih

/-- The authenticator of the other program does none of them. -/
theorem authEvents_map_of_ne (h : m ≠ mode) : authEvents mode (events.map (.auth m)) = [] := by
  induction events with
  | nil => rfl
  | cons e events ih =>
    have hnone : Event.auth? mode (.auth m e) = none := if_neg h
    rw [List.map_cons, authEvents, List.filterMap_cons_none hnone]
    exact ih

/-- An authenticator sends no message itself. -/
@[simp] theorem sent_map : sent mode (events.map (.auth m)) = [] := by
  induction events with
  | nil => rfl
  | cons e events ih =>
    have hnone : Event.sent? mode (.auth m e) = none := by cases mode <;> rfl
    rw [List.map_cons, sent, List.filterMap_cons_none hnone]
    exact ih

end Events

/-- After these events the authenticator of a program has worked through a session, and every
attestation is in a message. -/
structure Attested {σ : Type} (A : Authenticator σ) (s : σ) (mode : Mode) (trace : List Event)
    (auth : σ) : Prop where
  /-- The session. -/
  session_eq : A.session s (List.replicate (sent mode trace).length msgBuf) =
    ⟨authEvents mode trace, .ok auth⟩
  /-- The messages. -/
  sent_eq : sent mode trace = (attestations (authEvents mode trace)).map attestedMsg

/-- Before a program sends a message, its authenticator has worked through a session with as many
messages as have been sent, this one included. It has just handed out the attestation in this one,
and the others are in those before. -/
def Ready {σ : Type} (A : Authenticator σ) (s : σ) (mode : Mode) (before : List Event)
    (msg : List UInt8) : Prop :=
  ∃ auth events reply,
    A.session s (List.replicate ((sent mode before).length + 1) msgBuf) =
      ⟨events ++ [.attested reply], .ok auth⟩ ∧
    authEvents mode before = events ++ [.attested reply] ∧
    sent mode before = (attestations events).map attestedMsg ∧ msg = attestedMsg reply

namespace Attested

variable {σ : Type} {A : Authenticator σ} {s auth auth' : σ} {mode : Mode}
variable {trace trace' : List Event} {reply : AuthReply}

/-- At the start. -/
theorem nil (A : Authenticator σ) (s : σ) (mode : Mode) : Attested A s mode [] s := ⟨rfl, rfl⟩

/-- What the other program does changes nothing. -/
theorem other (h : Attested A s mode trace auth) (hauth : authEvents mode trace' = [])
    (hsent : sent mode trace' = []) : Attested A s mode (trace ++ trace') auth where
  session_eq := by
    rw [authEvents_append, sent_append, hauth, hsent, List.append_nil, List.append_nil,
      h.session_eq]
  sent_eq := by rw [authEvents_append, sent_append, hauth, hsent, List.append_nil, List.append_nil,
    h.sent_eq]

/-- One more attestation, which has not been sent. -/
theorem attest (h : Attested A s mode trace auth) (hA : A.Attests)
    (hauth : (A.getAttestation auth msgBuf).result = .ok (reply, auth')) :
    ∃ events, A.session s (List.replicate ((sent mode trace).length + 1) msgBuf) =
        ⟨events ++ [.attested reply], .ok auth'⟩ ∧
      authEvents mode (trace ++ (A.getAttestation auth msgBuf).trace.map (.auth mode)) =
        events ++ [.attested reply] ∧
      sent mode trace = (attestations events).map attestedMsg := by
  obtain ⟨logged, htrace⟩ := hA.trace_eq _ _ _ _ hauth
  have hresult : (A.session s (List.replicate (sent mode trace).length msgBuf)).result =
      .ok auth := by rw [h.session_eq]
  refine ⟨authEvents mode trace ++ logged.map .log, ?_, ?_, ?_⟩
  · rw [List.replicate_succ', Authenticator.session_concat hresult, h.session_eq, hauth, htrace,
      List.append_assoc]
    rfl
  · rw [authEvents_append, authEvents_map_self, htrace, List.append_assoc]
  · rw [h.sent_eq, attestations_append, attestations_map, List.append_nil]

/-- The program is ready to send it. -/
theorem ready (h : Attested A s mode trace auth) (hA : A.Attests)
    (hauth : (A.getAttestation auth msgBuf).result = .ok (reply, auth')) :
    Ready A s mode (trace ++ (A.getAttestation auth msgBuf).trace.map (.auth mode))
      (attestedMsg reply) := by
  obtain ⟨events, hsession, hevents, hmsgs⟩ := h.attest hA hauth
  refine ⟨auth', events, reply, ?_, hevents, ?_, rfl⟩
  · rw [sent_append, sent_map, List.append_nil, hsession]
  · rw [sent_append, sent_map, List.append_nil, hmsgs]

/-- Then it is in the next message. -/
theorem send (h : Attested A s mode trace auth) (hA : A.Attests)
    (hauth : (A.getAttestation auth msgBuf).result = .ok (reply, auth')) {e : Event}
    (he : e.auth? mode = none) (hsent : e.sent? mode = some (attestedMsg reply)) :
    Attested A s mode
      (trace ++ (A.getAttestation auth msgBuf).trace.map (.auth mode) ++ [e]) auth' := by
  obtain ⟨events, hsession, hevents, hmsgs⟩ := h.attest hA hauth
  have hnone : authEvents mode [e] = [] := List.filterMap_cons_none he
  have hone : sent mode [e] = [attestedMsg reply] := List.filterMap_cons_some hsent
  constructor
  · rw [sent_append, sent_append, sent_map, List.append_nil, hone, List.length_append,
      List.length_singleton, authEvents_append, hnone, List.append_nil, hsession, hevents]
  · rw [sent_append, sent_append, sent_map, List.append_nil, hone, authEvents_append, hnone,
      List.append_nil, hevents, attestations_append, List.map_append, hmsgs]
    rfl

end Attested

/-- Whenever a program sends a message, this holds of what has happened before. -/
def Sends (mode : Mode) (Q : List Event → List UInt8 → Prop) (trace : List Event) : Prop :=
  ∀ before e after msg, trace = before ++ e :: after → e.sent? mode = some msg → Q before msg

namespace Sends

variable {mode : Mode} {Q : List Event → List UInt8 → Prop} {trace trace' : List Event} {e : Event}

/-- One more event. -/
theorem concat (h : Sends mode Q trace) (hlast : ∀ msg, e.sent? mode = some msg → Q trace msg) :
    Sends mode Q (trace ++ [e]) := by
  intro before e' after msg hsplit hmsg
  rcases after.eq_nil_or_concat' with rfl | ⟨front, last, rfl⟩
  · obtain ⟨rfl, heq⟩ := List.append_inj' hsplit rfl
    obtain rfl := List.singleton_inj.mp heq
    exact hlast msg hmsg
  · rw [← List.cons_append, ← List.append_assoc] at hsplit
    exact h before e' front msg (List.append_inj' hsplit rfl).1 hmsg

/-- More events that are no messages of the program. -/
theorem append (h : Sends mode Q trace) (hnone : sent mode trace' = []) :
    Sends mode Q (trace ++ trace') := by
  induction trace' using List.reverseRecOn with
  | nil => rwa [List.append_nil]
  | append_singleton trace' e ih =>
    rw [sent_append] at hnone
    obtain ⟨hfront, hlast⟩ := List.append_eq_nil_iff.mp hnone
    rw [← List.append_assoc]
    refine (ih hfront).concat fun msg hmsg => ?_
    rw [sent, List.filterMap_cons_some hmsg] at hlast
    cases hlast

end Sends

section Programs

variable {σ : Type} {A : Authenticator σ} {s auth auth' : σ} {mode : Mode} {n : ℕ}
variable {trace trace' : List Event} {reply : AuthReply} {exited exited' : Prop}

/-- What a program has done that has sent `n` messages. -/
structure Worked {σ : Type} (A : Authenticator σ) (s : σ) (mode : Mode) (trace : List Event) (n : ℕ)
    (auth : σ) (exited : Prop) : Prop where
  /-- It has been ready whenever it has sent a message. -/
  ready : Sends mode (Ready A s mode) trace
  /-- The messages are counted. -/
  length_eq : (sent mode trace).length = n
  /-- Every attestation is in a message, unless its authenticator has ended it. -/
  attested : ¬ exited → Attested A s mode trace auth

namespace Worked

/-- At the start. -/
theorem nil (A : Authenticator σ) (s : σ) (mode : Mode) (exited : Prop) :
    Worked A s mode [] 0 s exited where
  ready before e after msg hsplit := absurd hsplit (by simp)
  length_eq := rfl
  attested _ := .nil A s mode

/-- What the other program does changes nothing. -/
theorem other (h : Worked A s mode trace n auth exited) (hauth : authEvents mode trace' = [])
    (hsent : sent mode trace' = []) (hexited : exited → exited') :
    Worked A s mode (trace ++ trace') n auth exited' where
  ready := h.ready.append hsent
  length_eq := by rw [sent_append, hsent, List.append_nil, h.length_eq]
  attested hgoes := (h.attested (mt hexited hgoes)).other hauth hsent

/-- Its authenticator ends it. -/
theorem exit (h : Worked A s mode trace n auth exited) (events : List AuthEvent)
    (hexited : exited') : Worked A s mode (trace ++ events.map (.auth mode)) n auth exited' where
  ready := h.ready.append sent_map
  length_eq := by rw [sent_append, sent_map, List.append_nil, h.length_eq]
  attested hgoes := absurd hexited hgoes

/-- It sends one more message. -/
theorem send (h : Worked A s mode trace n auth exited) (hgoes : ¬ exited) (hA : A.Attests)
    (hauth : (A.getAttestation auth msgBuf).result = .ok (reply, auth')) {e : Event}
    (he : e.auth? mode = none) (hsent : e.sent? mode = some (attestedMsg reply)) :
    Worked A s mode (trace ++ ((A.getAttestation auth msgBuf).trace.map (.auth mode) ++ [e]))
      (n + 1) auth' exited' := by
  have hattested := h.attested hgoes
  have hone : sent mode [e] = [attestedMsg reply] := List.filterMap_cons_some hsent
  rw [← List.append_assoc]
  refine ⟨(h.ready.append sent_map).concat fun msg hmsg => ?_, ?_, fun _ => ?_⟩
  · rw [hsent] at hmsg
    exact Option.some.inj hmsg ▸ hattested.ready hA hauth
  · rw [sent_append, sent_append, sent_map, hone, List.append_nil, List.length_append,
      List.length_singleton, h.length_eq]
  · exact hattested.send hA hauth he hsent

end Worked

end Programs

section Runs

variable {σ ρ ω : Type} {S : Setup σ ρ ω} {b b' : Bench σ ρ ω} {trace events : List Event}

/-- The receiver does nothing in `send_req`. -/
theorem sendReq_receiver (A : Authenticator σ) (destId : ℤ) (ctx : AppContext σ) :
    authEvents .receiver (sendReq A destId ctx).trace = [] ∧
      sent .receiver (sendReq A destId ctx).trace = [] := by
  have hne : Mode.sender ≠ .receiver := by decide
  cases hresult : (sendReq A destId ctx).result with
  | ok x =>
    obtain ⟨reply, auth, -, -, -, -, htrace⟩ := sendReq_ok hresult
    rw [htrace, authEvents_append, sent_append, authEvents_map_of_ne hne, sent_map]
    exact ⟨rfl, rfl⟩
  | error x =>
    rw [(sendReq_error hresult).2]
    exact ⟨authEvents_map_of_ne hne, sent_map⟩

/-- The sender does nothing in `req_handler_latency`. -/
theorem reqHandlerLatency_sender (A : Authenticator σ) (ctx : AppContext σ) :
    authEvents .sender (reqHandlerLatency A ctx).trace = [] ∧
      sent .sender (reqHandlerLatency A ctx).trace = [] := by
  have hne : Mode.receiver ≠ .sender := by decide
  cases hresult : (reqHandlerLatency A ctx).result with
  | ok x =>
    obtain ⟨reply, auth, -, -, -, htrace⟩ := reqHandlerLatency_ok hresult
    rw [htrace, authEvents_append, sent_append, authEvents_map_of_ne hne, sent_map]
    exact ⟨rfl, rfl⟩
  | error x =>
    rw [(reqHandlerLatency_error hresult).2]
    exact ⟨authEvents_map_of_ne hne, sent_map⟩

/-- The sender has been ended by its authenticator. -/
def SenderAt.Exited (sender : SenderAt) : Prop := ∃ e, sender = .exited e

/-- So has the receiver. -/
def ReceiverAt.Exited (receiver : ReceiverAt) : Prop := ∃ e, receiver = .exited e

/-- A sender that goes on has not been ended. -/
theorem SenderAt.Advances.not_exited {n receivedMsgsCnt : ℕ} {sender sender' : SenderAt}
    (h : sender.Advances n receivedMsgsCnt sender') : ¬ sender.Exited := by
  rintro ⟨e, rfl⟩
  cases h

/-- Nor has a receiver. -/
theorem ReceiverAt.Advances.not_exited {n sentAcksCnt : ℕ} {receiver receiver' : ReceiverAt}
    (h : receiver.Advances n sentAcksCnt receiver') : ¬ receiver.Exited := by
  rintro ⟨e, rfl⟩
  cases h

/-- The turns of the loop that the sender has begun, all of them behind it. -/
def SenderAt.turns (n : ℕ) : SenderAt → ℕ
  | .connecting => 0
  | .head i => min i n
  | .polling i => min (i + 1) n
  | .finale | .draining | .returned | .exited _ => n

/-- There are as many as there are requests to send. -/
theorem SenderAt.turns_le (n : ℕ) (sender : SenderAt) : sender.turns n ≤ n := by
  cases sender with
  | connecting => exact Nat.zero_le n
  | head i => exact min_le_right i n
  | polling i => exact min_le_right (i + 1) n
  | finale => exact le_rfl
  | draining => exact le_rfl
  | returned => exact le_rfl
  | exited e => exact le_rfl

/-- A sender that goes on without sending a request begins no turn. -/
theorem SenderAt.Advances.turns_eq {n receivedMsgsCnt : ℕ} {sender sender' : SenderAt}
    (h : sender.Advances n receivedMsgsCnt sender') : sender'.turns n = sender.turns n := by
  cases h with
  | connected => exact Nat.zero_min n
  | last hlast => exact (min_eq_right hlast).symm
  | answered => rfl
  | all => rfl
  | drained => rfl

/-- The handler does nothing to the sender. -/
theorem onRequest_sender {reqHandle : ReqHandle} {rpc : ω}
    (h : (b', events) = onRequest S b reqHandle rpc) : b'.sender = b.sender ∧
      b'.senderCtx = b.senderCtx ∧
      events = (reqHandlerLatency S.receiverAuth b.receiverCtx).trace := by
  cases hhandle : (reqHandlerLatency S.receiverAuth b.receiverCtx).result with
  | ok x =>
    rw [onRequest_of_ok reqHandle rpc hhandle] at h
    obtain ⟨rfl, rfl⟩ := Prod.mk.inj h
    exact ⟨rfl, rfl, rfl⟩
  | error x =>
    rw [onRequest_of_error reqHandle rpc hhandle] at h
    obtain ⟨rfl, rfl⟩ := Prod.mk.inj h
    exact ⟨rfl, rfl, rfl⟩

/-- `send_req` does nothing to the receiver. -/
theorem sendStep_receiver {i : ℕ} (h : (b', events) = sendStep S b i) :
    b'.receiver = b.receiver ∧ b'.receiverCtx = b.receiverCtx ∧
      events = (sendReq S.senderAuth Mode.sender.number b.senderCtx).trace := by
  cases hsend : (sendReq S.senderAuth Mode.sender.number b.senderCtx).result with
  | ok x =>
    rw [sendStep_of_ok hsend] at h
    obtain ⟨rfl, rfl⟩ := Prod.mk.inj h
    exact ⟨rfl, rfl, rfl⟩
  | error x =>
    rw [sendStep_of_error hsend] at h
    obtain ⟨rfl, rfl⟩ := Prod.mk.inj h
    exact ⟨rfl, rfl, rfl⟩

/-- A receiver that runs its event loop has not been ended. -/
theorem ReceiverAt.not_exited {receiver : ReceiverAt} (hpolls : receiver.Polls = true) :
    ¬ receiver.Exited := by
  rintro ⟨e, rfl⟩
  cases hpolls

/-- Whatever the library does, the sender works through a session. -/
theorem sender_worked (hA : S.senderAuth.Attests) (hrun : (bench S).Run trace b) :
    Worked S.senderAuth S.senderStart .sender trace b.senderCtx.enqueuedMsgsCnt b.senderCtx.auth
      b.sender.Exited := by
  induction hrun with
  | start => exact .nil _ _ _ _
  | @step trace events b b' a _ hstep ih =>
    cases a with
    | sender =>
      rcases senderFunc_cases hstep with ⟨i, hat, -, heq⟩ | ⟨rfl, sender, rfl, hadvances⟩
      · have hgoes : ¬ b.sender.Exited := by
          rintro ⟨e, hexited⟩
          cases hat.symm.trans hexited
        cases hsend : (sendReq S.senderAuth Mode.sender.number b.senderCtx).result with
        | ok x =>
          obtain ⟨reply, auth, hreply, hmsg, -, hctx, htrace⟩ := sendReq_ok hsend
          rw [sendStep_of_ok hsend, htrace] at heq
          obtain ⟨rfl, rfl⟩ := Prod.mk.inj heq
          rw [hctx]
          exact ih.send hgoes hA hreply rfl (congrArg some hmsg)
        | error x =>
          rw [sendStep_of_error hsend, (sendReq_error hsend).2] at heq
          obtain ⟨rfl, rfl⟩ := Prod.mk.inj heq
          exact ih.exit _ ⟨_, rfl⟩
      · exact ih.other rfl rfl fun hexited => absurd hexited hadvances.not_exited
    | receiver =>
      obtain ⟨rfl, receiver, rfl, -⟩ := receiverFunc_cases hstep
      exact ih.other rfl rfl id
    | handle j =>
      obtain ⟨reqHandle, rpc, -, -, heq⟩ := exists_of_handleStep hstep
      obtain ⟨hsender, hctx, rfl⟩ := onRequest_sender heq
      obtain ⟨hauth, hnone⟩ := reqHandlerLatency_sender S.receiverAuth b.receiverCtx
      rw [hsender, hctx]
      exact ih.other hauth hnone id
    | cont j =>
      obtain ⟨resp, rpc, -, -, rfl, rfl⟩ := exists_of_contStep hstep
      exact ih.other rfl rfl id

/-- So does the receiver. -/
theorem receiver_worked (hA : S.receiverAuth.Attests) (hrun : (bench S).Run trace b) :
    Worked S.receiverAuth S.receiverStart .receiver trace b.receiverCtx.sentAcksCnt
      b.receiverCtx.auth b.receiver.Exited := by
  induction hrun with
  | start => exact .nil _ _ _ _
  | @step trace events b b' a _ hstep ih =>
    cases a with
    | sender =>
      rcases senderFunc_cases hstep with ⟨i, -, -, heq⟩ | ⟨rfl, sender, rfl, -⟩
      · obtain ⟨hreceiver, hctx, rfl⟩ := sendStep_receiver heq
        obtain ⟨hauth, hnone⟩ := sendReq_receiver S.senderAuth Mode.sender.number b.senderCtx
        rw [hreceiver, hctx]
        exact ih.other hauth hnone id
      · exact ih.other rfl rfl id
    | receiver =>
      obtain ⟨rfl, receiver, rfl, hadvances⟩ := receiverFunc_cases hstep
      exact ih.other rfl rfl fun hexited => absurd hexited hadvances.not_exited
    | handle j =>
      obtain ⟨reqHandle, rpc, hpolls, -, heq⟩ := exists_of_handleStep hstep
      cases hhandle : (reqHandlerLatency S.receiverAuth b.receiverCtx).result with
      | ok x =>
        obtain ⟨reply, auth, hreply, hmsg, hctx, htrace⟩ := reqHandlerLatency_ok hhandle
        rw [onRequest_of_ok reqHandle rpc hhandle, htrace] at heq
        obtain ⟨rfl, rfl⟩ := Prod.mk.inj heq
        rw [hctx]
        exact ih.send (ReceiverAt.not_exited hpolls) hA hreply rfl (congrArg some hmsg)
      | error x =>
        rw [onRequest_of_error reqHandle rpc hhandle, (reqHandlerLatency_error hhandle).2] at heq
        obtain ⟨rfl, rfl⟩ := Prod.mk.inj heq
        exact ih.exit _ ⟨_, rfl⟩
    | cont j =>
      obtain ⟨resp, rpc, -, -, rfl, rfl⟩ := exists_of_contStep hstep
      exact ih.other rfl rfl id

/-- Whatever the library does, the sender sends at most one request in a turn of its loop. -/
theorem enqueuedMsgsCnt_le (hrun : (bench S).Run trace b) :
    b.senderCtx.enqueuedMsgsCnt ≤ b.sender.turns S.reqsNum := by
  induction hrun with
  | start => exact Nat.zero_le _
  | @step trace events b b' a _ hstep ih =>
    cases a with
    | sender =>
      rcases senderFunc_cases hstep with ⟨i, hat, hi, heq⟩ | ⟨-, sender, rfl, hadvances⟩
      · rw [hat, SenderAt.turns, min_eq_left hi.le] at ih
        cases hsend : (sendReq S.senderAuth Mode.sender.number b.senderCtx).result with
        | ok x =>
          have hcount := (sendReq_counts hsend).1
          rw [sendStep_of_ok hsend] at heq
          obtain ⟨rfl, -⟩ := Prod.mk.inj heq
          rw [SenderAt.turns, min_eq_left (Nat.succ_le_of_lt hi), hcount]
          exact Nat.succ_le_succ ih
        | error x =>
          rw [sendStep_of_error hsend] at heq
          obtain ⟨rfl, -⟩ := Prod.mk.inj heq
          exact ih.trans hi.le
      · exact ih.trans_eq hadvances.turns_eq.symm
    | receiver =>
      obtain ⟨-, receiver, rfl, -⟩ := receiverFunc_cases hstep
      exact ih
    | handle j =>
      obtain ⟨reqHandle, rpc, -, -, heq⟩ := exists_of_handleStep hstep
      obtain ⟨hsender, hctx, -⟩ := onRequest_sender heq
      rwa [hsender, hctx]
    | cont j =>
      obtain ⟨resp, rpc, -, -, rfl, -⟩ := exists_of_contStep hstep
      exact ih

end Runs

/-- A message can be sent: the attestations in it and in those before it are in the file, nothing
else is, and the last thing done to the file was `fsync`. -/
def InFile (mode : Mode) (before : List Event) (msg : List UInt8) : Prop :=
  ∃ rs : List AuthReply, sent mode before ++ [msg] = rs.map attestedMsg ∧
    Durable (logEvents (authEvents mode before)) (rs.flatMap AuthReply.bytes)

section Logging

variable {τ κ υ ω : Type} {T : TrustedService τ} {D : LogDevice} {calls : κ → ℕ}
variable {attest : τ → List UInt8 → τ × Option (List UInt8)}
variable {logReply : κ → AuthReply → List LogEvent × κ}

/-- A program that is ready has everything in the file. -/
theorem Ready.inFile (h : Logs D calls logReply) {A : Authenticator (Connection τ × κ)}
    (hA : A.getAttestation = TeeReplication.getAttestation T logReply) (hT : T.RepliesWith attest)
    {c : Connection τ} (hrest : c.fd.unread = []) {r : κ} {n : ℕ}
    (hD : D.Harmless (calls r) ((replies attest c.service (List.replicate n msgBuf)).take
      (Net.sendAll T.sends c.sends (List.replicate n msgBuf)).2))
    {mode : Mode} {before : List Event} {msg : List UInt8} (hn : (sent mode before).length < n)
    (hready : Ready A (c, r) mode before msg) : InFile mode before msg := by
  obtain ⟨auth, events, reply, hsession, hevents, hsent, rfl⟩ := hready
  have hpre := A.session_isPrefix (c, r)
    (List.replicate ((sent mode before).length + 1) msgBuf)
    (List.replicate (n - ((sent mode before).length + 1)) msgBuf)
  rw [← List.replicate_add, Nat.add_sub_cancel' hn, hsession] at hpre
  obtain ⟨more, hmore⟩ := hpre
  rw [List.append_assoc] at hmore
  have hdatas : ∀ data ∈ List.replicate n msgBuf, data.length < 2 ^ 31 := by
    intro data hdata
    rw [List.eq_of_mem_replicate hdata, msgBuf, List.length_replicate]
    decide
  have hdurable := h.durable_of_attested A hA hT hrest hdatas hD hmore.symm
  refine ⟨attestations events ++ [reply], ?_, ?_⟩
  · rw [hsent, List.map_append, List.map_singleton]
  · rw [hevents, logEvents, List.filterMap_append, ← logEvents]
    exact (List.append_nil _).symm ▸ hdurable

/-- So a program that has sent at most `n` messages has had everything in the file whenever it has
sent one. -/
theorem Worked.inFile (h : Logs D calls logReply) {A : Authenticator (Connection τ × κ)}
    (hA : A.getAttestation = TeeReplication.getAttestation T logReply) (hT : T.RepliesWith attest)
    {c : Connection τ} (hrest : c.fd.unread = []) {r : κ} {n : ℕ}
    (hD : D.Harmless (calls r) ((replies attest c.service (List.replicate n msgBuf)).take
      (Net.sendAll T.sends c.sends (List.replicate n msgBuf)).2))
    {mode : Mode} {trace : List Event} {count : ℕ} {auth : Connection τ × κ} {exited : Prop}
    (hcount : count ≤ n) (hworked : Worked A (c, r) mode trace count auth exited) :
    Sends mode (InFile mode) trace := by
  intro before e after msg hsplit hmsg
  refine (hworked.ready before e after msg hsplit hmsg).inFile h hA hT hrest hD ?_
  have hlength := hworked.length_eq
  have hone : sent mode (e :: after) = msg :: sent mode after := List.filterMap_cons_some hmsg
  rw [hsplit, sent_append, hone, List.length_append, List.length_cons] at hlength
  omega

/-- If the authenticator of one of the two programs logs its attestations, then in every run, with
any library, no message leaves this program before its attestation and those in all its earlier
messages are in the file, in this order and synced. -/
theorem messages_in_file (h : Logs D calls logReply) (A : Authenticator (Connection τ × κ))
    (hA : A.getAttestation = TeeReplication.getAttestation T logReply) (hT : T.RepliesWith attest)
    (c : Connection τ) (hrest : c.fd.unread = []) (r : κ) (n : ℕ)
    (hD : D.Harmless (calls r) ((replies attest c.service (List.replicate n msgBuf)).take
      (Net.sendAll T.sends c.sends (List.replicate n msgBuf)).2))
    (B : Authenticator υ) (s : υ) (R : Rpc ω) (reqsNum : ℕ) :
    (reqsNum ≤ n → ∀ trace b, (bench ⟨reqsNum, A, (c, r), B, s, R⟩).Run trace b →
      Sends .sender (InFile .sender) trace) ∧
      ∀ trace b, (bench ⟨reqsNum, B, s, A, (c, r), R⟩).Run trace b →
        b.receiverCtx.sentAcksCnt ≤ n → Sends .receiver (InFile .receiver) trace := by
  have hattests := attests_of_getAttestation A hA
  constructor
  · intro hn trace b hrun
    have hcount := (enqueuedMsgsCnt_le hrun).trans (SenderAt.turns_le _ _)
    exact (sender_worked hattests hrun).inFile h hA hT hrest hD (hcount.trans hn)
  · intro trace b hrun hcount
    exact (receiver_worked hattests hrun).inFile h hA hT hrest hD hcount

end Logging

/-- Two calls: the sender has the service that numbers its replies, from 7 on, and a file that takes
everything at once. -/
def numberedCalls : Setup (Connection UInt8 × ℕ) Unit Calls :=
  ⟨2, authSgxWithPersistency .numbering (.whole 0), (⟨0, ⟨[], 0⟩, 7⟩, 0), authTnic, (),
    .inMemory (2 ^ 23)⟩

/-- When its first request is sent, the first number is in the file. -/
theorem messages_in_file_first : ∃ before msg,
    (sendReq numberedCalls.senderAuth Mode.sender.number (senderCtx numberedCalls)).trace =
        before ++ [.request 0 msg] ∧ msg.head? = some 7 ∧ InFile .sender before msg := by
  have hD (m : ℕ) : (LogDevice.whole 0).Harmless 0
      ((replies numberUpTo8 7 (List.replicate 2 msgBuf)).take m) := by
    match m with
    | 0 => trivial
    | 1 => exact ⟨harmless_whole (by decide), trivial⟩
    | m + 2 =>
      refine ⟨harmless_whole (by decide), harmless_whole (by decide), ?_⟩
      cases m <;> trivial
  have hsend : (Net.secureSend TrustedService.numbering.sends 0 (constructMessage msgBuf)).1 =
      some (constructMessage msgBuf).length := by
    have hsends (i : ℕ) : TrustedService.numbering.sends i ≠ none := Option.some_ne_none 4
    rw [Net.secureSend]
    exact if_pos (Net.sendLoop_ok hsends 0 (constructMessage msgBuf))
  have hreply : (numberUpTo8 7 msgBuf).2 = some [7] := rfl
  obtain ⟨fd, -, hattested⟩ := getAttestation_of_reply
    (AuthSgxWithPersistency.logReply (.whole 0)) (c := ⟨0, ⟨[], 0⟩, 7⟩) (r := 0)
    TrustedService.numbering_repliesWith rfl (by decide) hsend hreply
  obtain ⟨ctx, hresult⟩ : ∃ ctx,
      (sendReq numberedCalls.senderAuth Mode.sender.number (senderCtx numberedCalls)).result =
        .ok ((0, attestedMsg (.ofBytes [7])), ctx) := by
    have hauth : numberedCalls.senderAuth.getAttestation (senderCtx numberedCalls).auth msgBuf =
        _ := hattested
    rw [sendReq, Benchmark.getAttestation]
    dsimp only
    rw [hauth]
    exact ⟨_, rfl⟩
  obtain ⟨reply, auth, -, -, -, -, htrace⟩ := sendReq_ok hresult
  have hrun : (bench numberedCalls).Run _ _ :=
    .step (a := .sender) (.step (a := .sender) .start rfl) rfl
  have hfirst : ([] : List Event) ++ [] ++
      (sendStep numberedCalls { start numberedCalls with sender := .head 0 } 0).2 = _ := htrace
  refine ⟨_, _, htrace, rfl, ?_⟩
  exact (messages_in_file (AuthSgxWithPersistency.logs (.whole 0)) numberedCalls.senderAuth rfl
    TrustedService.numbering_repliesWith ⟨0, ⟨[], 0⟩, 7⟩ rfl 0 2 (hD _) authTnic ()
    (.inMemory (2 ^ 23)) 2).1 le_rfl _ _ hrun _ _ [] _ hfirst rfl

end Benchmark

end TeeReplication
