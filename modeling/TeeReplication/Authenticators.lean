import TeeReplication.AttestationLog
import TeeReplication.Foundations.Effects
import TeeReplication.Net.Channel

/-!
# Authenticators and their trusted service

`network-unused/authenticators`: an authenticator has messages attested by a service on
its own machine. It sends every message as one frame and waits for one frame back;
two of the classes then write the attestation to a file before they hand it out. The
service is not part of this program. It is given by the bytes that it writes back.
-/

namespace TeeReplication

/-- `exit` with a code. -/
structure Exit where
  /-- The code. -/
  code : ℕ
  deriving DecidableEq

/-- `auth_reply`: a size and a buffer. -/
structure AuthReply where
  /-- The size. -/
  size : ℤ
  /-- The bytes of the buffer. -/
  bytes : List UInt8
  deriving DecidableEq

/-- What an authenticator does. -/
inductive AuthEvent
  /-- A step of `log_attestation`. -/
  | log (event : LogEvent)
  /-- `get_attestation` returns. -/
  | attested (reply : AuthReply)
  deriving DecidableEq

/-- The other end of the two connections of an authenticator. -/
structure TrustedService (τ : Type) where
  /-- Its state after some bytes have been sent to it, and what it writes back to them. -/
  answer : τ → List UInt8 → τ × List UInt8
  /-- What the calls of `send` on `sending_fd` do. -/
  sends : ℕ → Option ℕ
  /-- What the calls of `recv` on `fd` do. -/
  recvs : Net.RecvSchedule

/-- The two connections, `sending_fd` and `fd`. -/
structure Connection (τ : Type) where
  /-- The number of the next call of `send` on `sending_fd`. -/
  sends : ℕ
  /-- What can be read from `fd`. -/
  fd : Net.Stream
  /-- The state of the service. -/
  service : τ

section Service

variable {τ ρ : Type} (T : TrustedService τ)

/-- `sent_request`. -/
def sentRequest (request : List UInt8) (c : Connection τ) : Except Exit (Connection τ) :=
  let (numbytes, accepted, sends) := Net.secureSend T.sends c.sends request
  match numbytes with
  | none => .error ⟨1⟩
  | some _ =>
    let (service, answer) := T.answer c.service accepted
    .ok ⟨sends, ⟨c.fd.unread ++ answer, c.fd.calls⟩, service⟩

/-- `recv_ack`. -/
def recvAck (c : Connection τ) : Except Exit (AuthReply × Connection τ) :=
  let (result, fd) := Net.secureRecv T.recvs.socket c.fd
  match result with
  | .failed => .error ⟨2⟩
  | .body buffer _ =>
    if buffer.length = 0 then .error ⟨2⟩
    else .ok (⟨castInt buffer.length, buffer⟩, { c with fd := fd })

/-- `send_req_to_trusted_service`. -/
def sendReqToTrustedService (data : List UInt8) (c : Connection τ) :
    Except Exit (Connection τ) := sentRequest T (constructMessage data) c

/-- `recv_attestation`. -/
def recvAttestation (c : Connection τ) : Except Exit (AuthReply × Connection τ) := recvAck T c

/-- `get_attestation` of the classes that ask the service, with what they do to log a reply. -/
def getAttestation (logReply : ρ → AuthReply → List LogEvent × ρ) (s : Connection τ × ρ)
    (data : List UInt8) : Traced AuthEvent Exit (AuthReply × (Connection τ × ρ)) := do
  let c ← Traced.lift (sendReqToTrustedService T data s.1)
  let (res, c) ← Traced.lift (recvAttestation T c)
  let (events, r) := logReply s.2 res
  Traced.emitAll (events.map .log)
  Traced.emit (.attested res)
  pure (res, (c, r))

end Service

/-- `authenticator_f`: a class with this function. -/
structure Authenticator (σ : Type) where
  /-- `get_attestation`. -/
  getAttestation : σ → List UInt8 → Traced AuthEvent Exit (AuthReply × σ)

/-- The file of an authenticator. -/
structure LogDevice where
  /-- How it takes bytes in the `k`-th call of `log_attestation`. -/
  file : ℕ → LogFile
  /-- The memory behind the reply in that call. -/
  beyond : ℕ → ℕ → UInt8

section Classes

variable {τ : Type} (T : TrustedService τ) (D : LogDevice)

/-- `log_attestation` of `auth_sgx_with_persistency` on a reply, in its `k`-th call. -/
def AuthSgxWithPersistency.logReply (k : ℕ) (res : AuthReply) : List LogEvent × ℕ :=
  (logAttestation (D.file k) res.size (buffer res.bytes (D.beyond k)), k + 1)

/-- `auth_sgx_with_persistency`. -/
def authSgxWithPersistency : Authenticator (Connection τ × ℕ) where
  getAttestation := getAttestation T (AuthSgxWithPersistency.logReply D)

/-- `log_attestation` of `auth_sgx_with_rollback` on a reply, in its `k`-th call and with the
counter. -/
def AuthSgxWithRollback.logReply (s : ℕ × ℤ) (res : AuthReply) : List LogEvent × (ℕ × ℤ) :=
  let (events, cnt) :=
    logAttestation (D.file s.1) res.size (buffer res.bytes (D.beyond s.1)) s.2
  (events, s.1 + 1, cnt)

/-- `auth_sgx_with_rollback`. -/
def authSgxWithRollback : Authenticator (Connection τ × (ℕ × ℤ)) where
  getAttestation := getAttestation T (AuthSgxWithRollback.logReply D)

/-- `auth_tnic`. -/
def authTnic : Authenticator Unit where
  getAttestation _ data := ⟨[.attested ⟨data.length, data⟩], .ok (⟨data.length, data⟩, ())⟩

end Classes

/-- Calls of `get_attestation` one after another. -/
def Authenticator.session {σ : Type} (A : Authenticator σ) (s : σ) :
    List (List UInt8) → Traced AuthEvent Exit σ
  | [] => pure s
  | data :: rest => do
    let (_, s) ← A.getAttestation s data
    A.session s rest

/-- A reply of the given bytes. -/
def AuthReply.ofBytes (bytes : List UInt8) : AuthReply := ⟨bytes.length, bytes⟩

/-- The service answers a message with one frame, whose payload is not empty and has a size that is
an `int`, or it writes back nothing that is received with a payload, and closes the connection. -/
structure TrustedService.RepliesWith {τ : Type} (T : TrustedService τ)
    (attest : τ → List UInt8 → τ × Option (List UInt8)) : Prop where
  /-- The frame. -/
  answer_of_some : ∀ s data reply, data.length < 2 ^ 31 → (attest s data).2 = some reply →
    T.answer s (constructMessage data) = ((attest s data).1, constructMessage reply)
  /-- It has a payload. -/
  reply_ne_nil : ∀ s data, (attest s data).2 ≠ some []
  /-- The payload fits. -/
  reply_lt : ∀ s data reply, (attest s data).2 = some reply → reply.length < 2 ^ 31
  /-- Without a reply nothing is received. -/
  answer_of_none : ∀ s data, data.length < 2 ^ 31 → (attest s data).2 = none →
    (recvFrame (T.answer s (constructMessage data)).2).bytecount = 0

/-- The replies to a list of messages, up to the first one without a reply. -/
def replies {τ : Type} (attest : τ → List UInt8 → τ × Option (List UInt8)) :
    τ → List (List UInt8) → List AuthReply
  | _, [] => []
  | s, data :: rest =>
    match (attest s data).2 with
    | none => []
    | some reply => .ofBytes reply :: replies attest (attest s data).1 rest

/-- What is done with a list of replies: each is logged and then handed out. -/
def handOut {ρ : Type} (logReply : ρ → AuthReply → List LogEvent × ρ) : ρ → List AuthReply →
    List AuthEvent
  | _, [] => []
  | r, res :: rest =>
    (logReply r res).1.map .log ++ .attested res :: handOut logReply (logReply r res).2 rest

/-- A first frame that is not sent whole. -/
theorem Net.sendAll_cons_of_none {sends : ℕ → Option ℕ} {i : ℕ} {data : List UInt8}
    (h : (Net.secureSend sends i (constructMessage data)).1 = none) (rest : List (List UInt8)) :
    (Net.sendAll sends i (data :: rest)).2 = 0 := by
  rw [Net.sendAll]
  split
  rename_i result accepted j heq
  rw [heq] at h
  subst h
  rfl

/-- A first frame that is sent whole. -/
theorem Net.sendAll_cons_of_some {sends : ℕ → Option ℕ} {i n : ℕ} {data : List UInt8}
    (h : (Net.secureSend sends i (constructMessage data)).1 = some n) (rest : List (List UInt8)) :
    (Net.sendAll sends i (data :: rest)).2 =
      (Net.sendAll sends (Net.secureSend sends i (constructMessage data)).2.2 rest).2 + 1 := by
  rw [Net.sendAll]
  split
  rename_i result accepted j heq
  rw [heq] at h ⊢
  subst h
  rfl

section Session

variable {τ ρ : Type} {T : TrustedService τ} {attest : τ → List UInt8 → τ × Option (List UInt8)}
variable {logReply : ρ → AuthReply → List LogEvent × ρ} {c : Connection τ} {r : ρ}
variable {data : List UInt8}

/-- When `send` fails the program exits. -/
theorem getAttestation_of_not_sent
    (hsend : (Net.secureSend T.sends c.sends (constructMessage data)).1 = none) :
    getAttestation T logReply (c, r) data = ⟨[], .error ⟨1⟩⟩ := by
  have hrequest : sendReqToTrustedService T data c = .error ⟨1⟩ := by
    rw [sendReqToTrustedService, sentRequest]
    split
    rename_i numbytes accepted sends heq
    rw [heq] at hsend
    subst hsend
    rfl
  rw [getAttestation, hrequest]
  rfl

/-- A request that has been sent. -/
theorem sentRequest_of_some {request : List UInt8} {n : ℕ}
    (hsend : (Net.secureSend T.sends c.sends request).1 = some n) :
    sentRequest T request c = .ok ⟨(Net.secureSend T.sends c.sends request).2.2,
      ⟨c.fd.unread ++ (T.answer c.service request).2, c.fd.calls⟩,
      (T.answer c.service request).1⟩ := by
  have haccepted := (Net.sendLoop_accepted T.sends c.sends request).1
  rw [sentRequest]
  rcases hloop : Net.sendLoop T.sends c.sends request with ⟨ok, accepted, j⟩
  rw [hloop] at haccepted
  rw [Net.secureSend, hloop] at hsend ⊢
  cases ok with
  | false => cases hsend
  | true =>
    obtain rfl : accepted = request := haccepted rfl
    rfl

/-- A reply that is there is received. -/
theorem recvAttestation_of_frame {bytes : List UInt8} (hne : bytes ≠ [])
    (hlt : bytes.length < 2 ^ 31) (hunread : c.fd.unread = constructMessage bytes) :
    ∃ fd, fd.unread = [] ∧ recvAttestation T c = .ok (.ofBytes bytes, { c with fd := fd }) := by
  obtain ⟨hresult, hrest⟩ := Net.secureRecv_socket (r := T.recvs) c.fd
  have hlt' : bytes.length < 2 ^ 32 := hlt.trans (by decide)
  have hframe := recvFrame_constructMessage hlt' []
  have hbehind := Net.behindFrame_constructMessage hlt' []
  rw [List.append_nil] at hframe hbehind
  rw [hunread, hframe] at hresult
  rw [hunread, hbehind] at hrest
  refine ⟨_, hrest, ?_⟩
  have hpos : ¬ bytes.length = 0 := fun hzero => hne (List.eq_nil_of_length_eq_zero hzero)
  rw [recvAttestation, recvAck]
  rcases hrecv : Net.secureRecv T.recvs.socket c.fd with ⟨result, fd⟩
  rw [hrecv] at hresult
  subst hresult
  dsimp only
  rw [if_neg hpos, castInt_of_lt hlt]
  rfl

/-- Without a payload the program exits. -/
theorem recvAttestation_of_none (hunread : (recvFrame c.fd.unread).bytecount = 0) :
    recvAttestation T c = .error ⟨2⟩ := by
  obtain ⟨hresult, -⟩ := Net.secureRecv_socket (r := T.recvs) c.fd
  rw [recvAttestation, recvAck]
  rcases hrecv : Net.secureRecv T.recvs.socket c.fd with ⟨result, fd⟩
  rw [hrecv] at hresult
  subst hresult
  cases hframe : recvFrame c.fd.unread with
  | failed => rfl
  | body buffer hlt =>
    rw [hframe] at hunread
    exact if_pos hunread

/-- Where the service gives no reply the program exits, and nothing has been logged. -/
theorem getAttestation_of_no_reply (hT : T.RepliesWith attest) (hrest : c.fd.unread = [])
    (hdata : data.length < 2 ^ 31) {n : ℕ}
    (hsend : (Net.secureSend T.sends c.sends (constructMessage data)).1 = some n)
    (hnone : (attest c.service data).2 = none) :
    getAttestation T logReply (c, r) data = ⟨[], .error ⟨2⟩⟩ := by
  have hrequest := sentRequest_of_some hsend
  rw [hrest, List.nil_append] at hrequest
  have hreply := recvAttestation_of_none (T := T)
    (c := ⟨(Net.secureSend T.sends c.sends (constructMessage data)).2.2,
      ⟨(T.answer c.service (constructMessage data)).2, c.fd.calls⟩,
      (T.answer c.service (constructMessage data)).1⟩) (hT.answer_of_none _ _ hdata hnone)
  rw [getAttestation, sendReqToTrustedService, hrequest, Traced.lift_ok_bind, hreply]
  rfl

variable (logReply) in
/-- A reply of the service is logged and handed out, and nothing is left to be read. -/
theorem getAttestation_of_reply (hT : T.RepliesWith attest) (hrest : c.fd.unread = [])
    (hdata : data.length < 2 ^ 31) {n : ℕ}
    (hsend : (Net.secureSend T.sends c.sends (constructMessage data)).1 = some n)
    {reply : List UInt8} (hreply : (attest c.service data).2 = some reply) :
    ∃ fd, fd.unread = [] ∧ getAttestation T logReply (c, r) data =
      ⟨(logReply r (.ofBytes reply)).1.map .log ++ [.attested (.ofBytes reply)],
        .ok (.ofBytes reply, ⟨(Net.secureSend T.sends c.sends (constructMessage data)).2.2, fd,
            (attest c.service data).1⟩, (logReply r (.ofBytes reply)).2)⟩ := by
  have hrequest := sentRequest_of_some hsend
  rw [hT.answer_of_some _ _ _ hdata hreply, hrest, List.nil_append] at hrequest
  have hne : reply ≠ [] := by
    rintro rfl
    exact hT.reply_ne_nil _ _ hreply
  obtain ⟨fd, hfd, hreceived⟩ := recvAttestation_of_frame (T := T)
    (c := ⟨(Net.secureSend T.sends c.sends (constructMessage data)).2.2,
      ⟨constructMessage reply, c.fd.calls⟩, (attest c.service data).1⟩)
    hne (hT.reply_lt _ _ _ hreply) rfl
  refine ⟨fd, hfd, ?_⟩
  rw [getAttestation, sendReqToTrustedService, hrequest, Traced.lift_ok_bind, hreceived,
    Traced.lift_ok_bind]
  rfl

variable (logReply) in
/-- A session hands out the replies to the messages whose frames are sent whole, each logged before.
At the first message that is not sent, or gets no reply, the program exits. -/
theorem session_spec (A : Authenticator (Connection τ × ρ))
    (hA : A.getAttestation = getAttestation T logReply) (hT : T.RepliesWith attest)
    (hrest : c.fd.unread = []) (datas : List (List UInt8))
    (hdatas : ∀ data ∈ datas, data.length < 2 ^ 31) :
    let sent := (Net.sendAll T.sends c.sends datas).2
    let rs := (replies attest c.service datas).take sent
    (A.session (c, r) datas).trace = handOut logReply r rs ∧
      (rs.length = datas.length ∧ (∃ s, (A.session (c, r) datas).result = .ok s) ∨
        rs.length < datas.length ∧
          (A.session (c, r) datas).result = .error ⟨if rs.length < sent then 2 else 1⟩) := by
  induction datas generalizing c r with
  | nil => exact ⟨rfl, .inl ⟨rfl, _, rfl⟩⟩
  | cons data datas ih =>
    have hdata := hdatas data List.mem_cons_self
    rw [Authenticator.session, hA]
    cases hsend : (Net.secureSend T.sends c.sends (constructMessage data)).1 with
    | none =>
      rw [getAttestation_of_not_sent hsend, Net.sendAll_cons_of_none hsend]
      exact ⟨rfl, .inr ⟨Nat.succ_pos _, rfl⟩⟩
    | some n =>
      rw [Net.sendAll_cons_of_some hsend]
      cases hreply : (attest c.service data).2 with
      | none =>
        rw [getAttestation_of_no_reply hT hrest hdata hsend hreply, replies, hreply]
        exact ⟨rfl, .inr ⟨Nat.succ_pos _, rfl⟩⟩
      | some reply =>
        obtain ⟨fd, hfd, hattested⟩ := getAttestation_of_reply logReply (r := r) hT
          hrest hdata hsend hreply
        obtain ⟨htrace, hresult⟩ := ih (c := ⟨_, fd, (attest c.service data).1⟩) hfd
          (r := (logReply r (.ofBytes reply)).2)
          fun data h => hdatas data (List.mem_cons_of_mem _ h)
        rw [hattested, Traced.mk_ok_bind, replies, hreply]
        dsimp only at htrace hresult ⊢
        rw [htrace, List.take_succ_cons, handOut, List.append_assoc, List.length_cons,
          List.length_cons]
        refine ⟨rfl, ?_⟩
        rcases hresult with ⟨hall, hok⟩ | ⟨hlt, herror⟩
        · exact .inl ⟨congrArg (· + 1) hall, hok⟩
        · simp only [Nat.add_lt_add_iff_right]
          exact .inr ⟨hlt, herror⟩

end Session

/-- The reply that an event hands out. -/
def AuthEvent.reply? : AuthEvent → Option AuthReply
  | .log _ => none
  | .attested reply => some reply

/-- The step of `log_attestation` that an event is. -/
def AuthEvent.log? : AuthEvent → Option LogEvent
  | .log event => some event
  | .attested _ => none

/-- The replies handed out, in order. -/
def attestations (trace : List AuthEvent) : List AuthReply := trace.filterMap AuthEvent.reply?

/-- What is done to the file, in order. -/
def logEvents (trace : List AuthEvent) : List LogEvent := trace.filterMap AuthEvent.log?

/-- What is done to the file by steps of `log_attestation`. -/
@[simp] theorem logEvents_map (events : List LogEvent) : logEvents (events.map .log) = events := by
  induction events with
  | nil => rfl
  | cons e events ih => exact congrArg (e :: ·) ih

/-- They hand nothing out. -/
@[simp] theorem attestations_map (events : List LogEvent) :
    attestations (events.map .log) = [] := by
  induction events with
  | nil => rfl
  | cons e events ih => exact ih

/-- One part of a trace after another hands out the replies of both. -/
theorem attestations_append (trace trace' : List AuthEvent) :
    attestations (trace ++ trace') = attestations trace ++ attestations trace' :=
  List.filterMap_append

/-- The same with more behind them. -/
theorem logEvents_map_append (events : List LogEvent) (trace : List AuthEvent) :
    logEvents (events.map .log ++ trace) = events ++ logEvents trace := by
  rw [logEvents, List.filterMap_append, ← logEvents, ← logEvents, logEvents_map]

/-- Only what is behind them hands something out. -/
theorem attestations_map_append (events : List LogEvent) (trace : List AuthEvent) :
    attestations (events.map .log ++ trace) = attestations trace := by
  rw [attestations_append, attestations_map, List.nil_append]

section Classes

variable {τ : Type} {T : TrustedService τ} {attest : τ → List UInt8 → τ × Option (List UInt8)}

end Classes

/-- What a service says that numbers its replies up to 8. -/
def numberUpTo8 (s : UInt8) (_ : List UInt8) : UInt8 × Option (List UInt8) :=
  if s ≤ 8 then (s + 1, some [s]) else (s, none)

/-- This service. It closes the connection afterwards. -/
def TrustedService.numbering : TrustedService UInt8 where
  answer s _ := if s ≤ 8 then (s + 1, constructMessage [s]) else (s, [])
  sends _ := some 4
  recvs := Net.stuttering

/-- It replies with the numbers. -/
theorem TrustedService.numbering_repliesWith : numbering.RepliesWith numberUpTo8 where
  answer_of_some s data reply _ h := by
    unfold numberUpTo8 numbering at *
    split at h <;> simp_all
  reply_ne_nil s data h := by
    unfold numberUpTo8 at h
    split at h <;> simp_all
  reply_lt s data reply h := by
    unfold numberUpTo8 at h
    split at h
    · obtain rfl := Option.some.inj h
      rw [List.length_singleton]
      decide
    · cases h
  answer_of_none s data _ h := by
    unfold numberUpTo8 at h
    unfold numbering
    split at h
    · cases h
    · rename_i hlast
      dsimp only
      rw [if_neg hlast]
      rfl

/-- Three messages can be sent to it. -/
theorem TrustedService.numbering_sends :
    (Net.sendAll numbering.sends 0 [[1], [2], [3]]).2 = 3 := by
  have hone : constructMessage [1] = [0, 0, 0, 1, 1] := by decide
  have htwo : constructMessage [2] = [0, 0, 0, 1, 2] := by decide
  have hthree : constructMessage [3] = [0, 0, 0, 1, 3] := by decide
  simp [Net.sendAll, Net.secureSend, Net.sendLoop, numbering, hone, htwo, hthree]

/-- A file that takes everything at once. -/
def LogFile.whole (n : ℕ) : LogFile := ⟨fun _ => some n, 0, fun _ _ => Option.some_ne_none n⟩

/-- A device with such a file. -/
def LogDevice.whole (n : ℕ) : LogDevice := ⟨fun _ => .whole n, fun _ _ => 0⟩

end TeeReplication
