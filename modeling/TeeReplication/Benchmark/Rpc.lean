import Mathlib.Data.Int.Init
import Mathlib.Data.List.Perm.Subperm

/-!
# The library of the remote procedure calls

The benchmark makes its calls with a library, which is a parameter here: it keeps what
it needs in a state of its own, and its event loops invoke the handler of the receiver
and the continuation of the sender. What a result assumes of it is said over an account
of its state, the requests that no handler has got and the responses that no
continuation has got.
-/

namespace TeeReplication.Benchmark

/-- `kMsgSize`, the size of the buffer for a response. -/
def kMsgSize : ℕ := 256 + 64

/-- A request for its handler. -/
structure ReqHandle where
  /-- The number by which the library knows it. -/
  number : ℕ
  /-- `get_req_msgbuf`. -/
  reqMsgbuf : List UInt8
  deriving DecidableEq

/-- The library, of the sender and the receiver together. -/
structure Rpc (ω : Type) where
  /-- The state in which the sender has created its session. -/
  start : ω
  /-- The number that `create_session` has returned. -/
  sessionNum : ℤ
  /-- The size of the largest message that can be sent. -/
  maxMsgSize : ℕ
  /-- `enqueue_request` on a session, of a message and with the size of the buffer for its
  response. -/
  enqueueRequest : ω → ℤ → List UInt8 → ℕ → ω
  /-- The event loop of the receiver invokes the handler, in one of the ways it can. -/
  handle : ω → ℕ → Option (ReqHandle × ω)
  /-- `enqueue_response`. -/
  enqueueResponse : ω → ReqHandle → List UInt8 → ω
  /-- The event loop of the sender invokes the continuation with a response in its buffer. -/
  cont : ω → ℕ → Option (List UInt8 × ω)

namespace Rpc

variable {ω : Type}

/-- While no session fails, the library hands over each message at most once and as it is, provided
that it fits into its buffer, and hands over nothing else. The first session has the number zero. -/
structure AtMostOnce (R : Rpc ω) (requests responses : ω → List (List UInt8)) : Prop where
  /-- The number of the session. -/
  sessionNum_eq : R.sessionNum = 0
  /-- There are no requests at the start. -/
  requests_start : requests R.start = []
  /-- There are no responses. -/
  responses_start : responses R.start = []
  /-- A request is added at most once. -/
  enqueueRequest : ∀ s msg, msg.length ≤ R.maxMsgSize →
    (requests (R.enqueueRequest s R.sessionNum msg kMsgSize)).Subperm (msg :: requests s) ∧
      (responses (R.enqueueRequest s R.sessionNum msg kMsgSize)).Subperm (responses s)
  /-- What a handler gets is a request, which no other one gets. -/
  handle : ∀ s j h t, R.handle s j = some (h, t) →
    (h.reqMsgbuf :: requests t).Subperm (requests s) ∧ (responses t).Subperm (responses s)
  /-- A response in a handler is added at most once. -/
  enqueueResponse : ∀ s j h t msg, R.handle s j = some (h, t) → msg.length ≤ kMsgSize →
    (requests (R.enqueueResponse t h msg)).Subperm (requests t) ∧
      (responses (R.enqueueResponse t h msg)).Subperm (msg :: responses t)
  /-- What a continuation gets is a response, which no other one gets. -/
  cont : ∀ s j msg t, R.cont s j = some (msg, t) →
    (requests t).Subperm (requests s) ∧ (msg :: responses t).Subperm (responses s)

/-- It loses none of them either: each one that fits can be handed over, also after the receiver
has returned. -/
structure Delivers (R : Rpc ω) (requests responses : ω → List (List UInt8)) : Prop extends
    R.AtMostOnce requests responses where
  /-- A request is added. -/
  requests_ne_nil : ∀ s msg, msg.length ≤ R.maxMsgSize →
    requests (R.enqueueRequest s R.sessionNum msg kMsgSize) ≠ []
  /-- A handler can be invoked on a request. -/
  exists_handle : ∀ s, requests s ≠ [] → ∃ j, R.handle s j ≠ none
  /-- A response is added. -/
  responses_ne_nil : ∀ s j h t msg, R.handle s j = some (h, t) → msg.length ≤ kMsgSize →
    responses (R.enqueueResponse t h msg) ≠ []
  /-- A continuation can be invoked on a response. -/
  exists_cont : ∀ s, responses s ≠ [] → ∃ j, R.cont s j ≠ none

end Rpc

/-- The messages under way in a library that keeps them in lists. -/
structure Calls where
  /-- The requests. -/
  requests : List (List UInt8)
  /-- The responses. -/
  responses : List (List UInt8)
  deriving DecidableEq

/-- A library that keeps the messages under way in lists and hands them over in any order. It drops
those that do not fit and those for a session that has not been created. -/
def Rpc.inMemory (maxMsgSize : ℕ) : Rpc Calls where
  start := ⟨[], []⟩
  sessionNum := 0
  maxMsgSize := maxMsgSize
  enqueueRequest c sessionNum msg size :=
    if sessionNum = 0 ∧ msg.length ≤ maxMsgSize ∧ size = kMsgSize then
      { c with requests := msg :: c.requests }
    else c
  handle c j := c.requests[j]?.map fun msg =>
    (⟨j, msg⟩, { c with requests := c.requests.eraseIdx j })
  enqueueResponse c _ msg :=
    if msg.length ≤ kMsgSize then { c with responses := msg :: c.responses } else c
  cont c j := c.responses[j]?.map fun msg => (msg, { c with responses := c.responses.eraseIdx j })

end TeeReplication.Benchmark
