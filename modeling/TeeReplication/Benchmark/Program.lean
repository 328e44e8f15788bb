import TeeReplication.Authenticators
import TeeReplication.Benchmark.Rpc
import TeeReplication.Foundations.Simulation

/-!
# The latency benchmark

`network-unused/main.cc`: a sender has a message attested, sends it as a remote
procedure call and waits for the response before it goes on; the receiver has every
response attested. Each of them stops when its own counter has reached the number of
requests. A handler and a continuation run only while the event loop of their program
does, and when they do is up to the library.
-/

namespace TeeReplication.Benchmark

/-- `mode`. -/
inductive Mode
  | sender
  | receiver
  deriving DecidableEq

/-- The numbers of the two. -/
def Mode.number : Mode → ℤ
  | .sender => 0
  | .receiver => 1

/-- What the two programs do. -/
inductive Event
  /-- A step of the authenticator of one of them. -/
  | auth (mode : Mode) (event : AuthEvent)
  /-- `enqueue_request`. -/
  | request (sessionNum : ℤ) (msg : List UInt8)
  /-- `enqueue_response`. -/
  | response (msg : List UInt8)
  /-- The continuation of a call. -/
  | received (msg : List UInt8)
  deriving DecidableEq

/-- `app_context`. -/
structure AppContext (σ : Type) where
  /-- The state of `auth`. -/
  auth : σ
  /-- `enqueued_msgs_cnt`. -/
  enqueuedMsgsCnt : ℕ
  /-- `received_msgs_cnt`. -/
  receivedMsgsCnt : ℕ
  /-- `sent_acks_cnt`. -/
  sentAcksCnt : ℕ
  /-- `connections`, from a node to the number of the session with it. -/
  connections : List (ℤ × ℤ)
  deriving DecidableEq

/-- A new `app_context`. -/
def AppContext.new {σ : Type} (auth : σ) : AppContext σ := ⟨auth, 0, 0, 0, []⟩

/-- `create_session` with a node, with the number of the session. -/
def createSession {σ : Type} (sessionNum remNodeId : ℤ) (ctx : AppContext σ) : AppContext σ :=
  -- `insert` keeps what is already there
  if (ctx.connections.lookup remNodeId).isSome then ctx
  else { ctx with connections := (remNodeId, sessionNum) :: ctx.connections }

/-- `connections[dest_id]`, which adds the number zero for a node that is not there. -/
def sessionOf (connections : List (ℤ × ℤ)) (destId : ℤ) : ℤ × List (ℤ × ℤ) :=
  match connections.lookup destId with
  | some sessionNum => (sessionNum, connections)
  | none => (0, (destId, 0) :: connections)

/-- `msg_buf` of `send_req` and of `req_handler_latency`. -/
def msgBuf : List UInt8 := List.replicate 64 0

/-- What they write into the buffer of a call: the attestation and `msg_buf`. -/
def attestedMsg (attestation : AuthReply) : List UInt8 :=
  attestation.bytes.take attestation.size.toNat ++ msgBuf

section Functions

variable {σ : Type} (A : Authenticator σ)

/-- `get_attestation` of the two functions on `msg_buf`, and the message with its result. -/
def getAttestation (mode : Mode) (ctx : AppContext σ) :
    Traced Event (Mode × Exit) (List UInt8 × AppContext σ) :=
  let t := A.getAttestation ctx.auth msgBuf
  ⟨t.trace.map (.auth mode),
    match t.result with
    | .ok (attestation, auth) => .ok (attestedMsg attestation, { ctx with auth := auth })
    | .error e => .error (mode, e)⟩

/-- `send_req`, with the session and the request that it enqueues. -/
def sendReq (destId : ℤ) (ctx : AppContext σ) :
    Traced Event (Mode × Exit) ((ℤ × List UInt8) × AppContext σ) := do
  let (req, ctx) ← getAttestation A .sender ctx
  let (sessionNum, connections) := sessionOf ctx.connections destId
  Traced.emit (.request sessionNum req)
  pure ((sessionNum, req),
    { ctx with enqueuedMsgsCnt := ctx.enqueuedMsgsCnt + 1, connections := connections })

/-- `req_handler_latency`, and the response. -/
def reqHandlerLatency (ctx : AppContext σ) :
    Traced Event (Mode × Exit) (List UInt8 × AppContext σ) := do
  let (resp, ctx) ← getAttestation A .receiver ctx
  Traced.emit (.response resp)
  pure (resp, { ctx with sentAcksCnt := ctx.sentAcksCnt + 1 })

/-- `cont_func`. -/
def contFunc (ctx : AppContext σ) : AppContext σ :=
  { ctx with receivedMsgsCnt := ctx.receivedMsgsCnt + 1 }

end Functions

/-- Where `sender_func` is. -/
inductive SenderAt
  /-- In the event loop in which it waits after it has created its session. -/
  | connecting
  /-- At the head of the loop over the requests. -/
  | head (i : ℕ)
  /-- In the loop that waits for the response to a request. -/
  | polling (i : ℕ)
  /-- In the last loop. -/
  | finale
  /-- In the event loop before it leaves that one. -/
  | draining
  /-- Behind it. -/
  | returned
  /-- `get_attestation` has ended the program. -/
  | exited (e : Exit)
  deriving DecidableEq

/-- Where `receiver_func` is. -/
inductive ReceiverAt
  /-- In its loop. -/
  | polling
  /-- In the event loop before it leaves that one. -/
  | draining
  /-- Behind it. -/
  | returned
  /-- `get_attestation` has ended the program. -/
  | exited (e : Exit)
  deriving DecidableEq

/-- The sender runs its event loop. -/
def SenderAt.Polls : SenderAt → Bool
  | .connecting | .polling _ | .finale | .draining => true
  | .head _ | .returned | .exited _ => false

/-- The receiver runs its event loop. -/
def ReceiverAt.Polls : ReceiverAt → Bool
  | .polling | .draining => true
  | .returned | .exited _ => false

/-- Both programs and the library. -/
structure Bench (σ ρ ω : Type) where
  /-- The sender. -/
  sender : SenderAt
  /-- Its context. -/
  senderCtx : AppContext σ
  /-- The receiver. -/
  receiver : ReceiverAt
  /-- Its context. -/
  receiverCtx : AppContext ρ
  /-- The state of the library. -/
  rpc : ω
  deriving DecidableEq

/-- The parameters of a run. -/
structure Setup (σ ρ ω : Type) where
  /-- `reqs_num`. -/
  reqsNum : ℕ
  /-- `auth` of the sender. -/
  senderAuth : Authenticator σ
  /-- Its state at the start. -/
  senderStart : σ
  /-- `auth` of the receiver. -/
  receiverAuth : Authenticator ρ
  /-- Its state at the start. -/
  receiverStart : ρ
  /-- The library. -/
  rpc : Rpc ω

/-- What can happen next. -/
inductive Action
  /-- The sender goes on. -/
  | sender
  /-- The receiver goes on. -/
  | receiver
  /-- The event loop of the receiver invokes the handler. -/
  | handle (j : ℕ)
  /-- The event loop of the sender invokes the continuation. -/
  | cont (j : ℕ)
  deriving DecidableEq

section Run

variable {σ ρ ω : Type} (S : Setup σ ρ ω)

/-- The context of the sender when it has created its session. -/
def senderCtx : AppContext σ :=
  createSession S.rpc.sessionNum Mode.receiver.number (.new S.senderStart)

/-- Before the first request. -/
def start : Bench σ ρ ω :=
  ⟨.connecting, senderCtx S, .polling, .new S.receiverStart, S.rpc.start⟩

/-- `send_req` in the turn `i` of the loop. It is given `mode::sender`. -/
def sendStep (b : Bench σ ρ ω) (i : ℕ) : Bench σ ρ ω × List Event :=
  let t := sendReq S.senderAuth Mode.sender.number b.senderCtx
  (match t.result with
    | .ok ((sessionNum, req), ctx) =>
      { b with
        sender := .polling i
        senderCtx := ctx
        rpc := S.rpc.enqueueRequest b.rpc sessionNum req kMsgSize }
    | .error (_, e) => { b with sender := .exited e }, t.trace)

/-- A step of `sender_func`. -/
def senderFunc (b : Bench σ ρ ω) : Option (Bench σ ρ ω × List Event) :=
  match b.sender with
  | .connecting => some ({ b with sender := .head 0 }, [])
  | .head i =>
    if i < S.reqsNum then some (sendStep S b i) else some ({ b with sender := .finale }, [])
  | .polling i =>
    if b.senderCtx.receivedMsgsCnt < i + 1 then none
    else some ({ b with sender := .head (i + 1) }, [])
  | .finale =>
    if b.senderCtx.receivedMsgsCnt = S.reqsNum then some ({ b with sender := .draining }, [])
    else none
  | .draining => some ({ b with sender := .returned }, [])
  | .returned | .exited _ => none

/-- A step of `receiver_func`. -/
def receiverFunc (b : Bench σ ρ ω) : Option (Bench σ ρ ω × List Event) :=
  match b.receiver with
  | .polling =>
    if b.receiverCtx.sentAcksCnt = S.reqsNum then some ({ b with receiver := .draining }, [])
    else none
  | .draining => some ({ b with receiver := .returned }, [])
  | .returned | .exited _ => none

/-- `req_handler_latency` on a request that the library hands over. -/
def onRequest (b : Bench σ ρ ω) (reqHandle : ReqHandle) (rpc : ω) : Bench σ ρ ω × List Event :=
  let t := reqHandlerLatency S.receiverAuth b.receiverCtx
  (match t.result with
    | .ok (resp, ctx) =>
      { b with receiverCtx := ctx, rpc := S.rpc.enqueueResponse rpc reqHandle resp }
    | .error (_, e) => { b with receiver := .exited e, rpc := rpc }, t.trace)

/-- The event loop of the receiver invokes the handler. -/
def handleStep (b : Bench σ ρ ω) (j : ℕ) : Option (Bench σ ρ ω × List Event) :=
  if b.receiver.Polls then
    (S.rpc.handle b.rpc j).map fun (reqHandle, rpc) => onRequest S b reqHandle rpc
  else none

/-- The event loop of the sender invokes the continuation. -/
def contStep (b : Bench σ ρ ω) (j : ℕ) : Option (Bench σ ρ ω × List Event) :=
  if b.sender.Polls then
    (S.rpc.cont b.rpc j).map fun (resp, rpc) =>
      ({ b with senderCtx := contFunc b.senderCtx, rpc := rpc }, [.received resp])
  else none

/-- The benchmark as a machine. -/
def bench : Machine (Bench σ ρ ω) Action Event where
  start := start S
  step b a := match a with
    | .sender => senderFunc S b
    | .receiver => receiverFunc S b
    | .handle j => handleStep S b j
    | .cont j => contStep S b j

/-- A number of calls one after another, as one program. -/
def rounds : ℕ → Traced Event (Mode × Exit) (AppContext σ × AppContext ρ)
  | 0 => pure (senderCtx S, .new S.receiverStart)
  | k + 1 => do
    let (c, d) ← rounds k
    let (_, c) ← sendReq S.senderAuth Mode.sender.number c
    let (resp, d) ← reqHandlerLatency S.receiverAuth d
    Traced.emit (.received resp)
    pure (contFunc c, d)

end Run

end TeeReplication.Benchmark
