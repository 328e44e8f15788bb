import TeeReplication.Foundations.Effects
import TeeReplication.Wire

/-!
# What every receive loop does with a received message

The result of `secure_recv`, the verification of `common.hpp` and the `extract`
lambda that all receivers share. A receiver is a traced computation: its events
are the unsigned subtractions and reads it makes on the received buffer, the
lines it prints, the frames it sends and the entries it logs. A read outside the
buffer, a null dereference, an index into an empty vector and an `int` that overflows
are faults.
-/

namespace TeeReplication

/-- The bytes of one frame. -/
abbrev Frame := List UInt8

/-- The lines that the modelled functions print. -/
inductive Line
  /-- `"verify_attested_msg verification failed"`. -/
  | verificationFailed
  /-- `"[receiver] error authenticating the message"`. -/
  | errorAuthenticating
  /-- `"[receiver] error"`. -/
  | error
  /-- `"[receiver] error, s.cmt_idx={}"`. -/
  | errorCmtIdx (cmtIdx : ℤ)
  /-- `"receiver error in req_id={} (expected s.cmt_idx+1={})"`. -/
  | errorInReqId (reqId expected : ℤ)
  /-- `"[receiver] cmt_idx={} replication_log={}"`. -/
  | summary (cmtIdx : ℤ) (logSize : ℕ)
  /-- `"[cleanup_log] replication_log[{}].size()={}"`. -/
  | uncommitted (key : ℤ) (logSize : ℕ)
  /-- `"[receiver_finale] cmt_idx={}"`. -/
  | lastCmtIdx (cmtIdx : ℤ)
  /-- `"receiver needs to finish .."`. -/
  | needsToFinish
  /-- `"cmt_idx={} finish experiment!"`. -/
  | finishExperiment (cmtIdx : ℤ)
  deriving DecidableEq

/-- What a receiver does that others can see, or that touches the received buffer. -/
inductive Event
  /-- The `size_t` subtraction `a - b`. -/
  | sizeSub (a b : ℕ)
  /-- The bytes `off, .., off + len - 1` of the received buffer are read. -/
  | read (off len : ℕ)
  /-- A line is printed. -/
  | print (line : Line)
  /-- A frame is handed to `secure_send`. -/
  | send (frame : Frame)
  /-- `in_mem_log_t::insert`. -/
  | logInsert (key value : ℤ)
  /-- `in_mem_log_t::append`. -/
  | logAppend (key value : ℤ)
  deriving DecidableEq

/-- The frame an event sends. -/
def Event.frame? : Event → Option Frame
  | .send frame => some frame
  | _ => none

/-- The frames sent in a trace, in order. -/
def sentFrames (trace : List Event) : List Frame := trace.filterMap Event.frame?

/-- The entry an event adds to the log. -/
def Event.entry? : Event → Option (ℤ × ℤ)
  | .logInsert key value => some (key, value)
  | .logAppend key value => some (key, value)
  | _ => none

/-- The entries logged in a trace, in order. -/
def loggedEntries (trace : List Event) : List (ℤ × ℤ) := trace.filterMap Event.entry?

/-- The request an event reports as not the next one, with the next index. -/
def Event.refusal? : Event → Option (ℤ × ℤ)
  | .print (.errorInReqId reqId expected) => some (reqId, expected)
  | _ => none

/-- The requests reported as not the next one in a trace, in order. -/
def refusals (trace : List Event) : List (ℤ × ℤ) := trace.filterMap Event.refusal?

/-- Undefined behaviour that the modelled code can run into. -/
inductive Fault
  /-- A read outside the received buffer. -/
  | outOfBounds (off len : ℕ)
  /-- A read through a null pointer. -/
  | nullPointer
  /-- `operator[](0)` on the empty vector of a key. -/
  | emptyVector (key : ℤ)
  /-- An addition to the largest `int`. -/
  | overflow
  deriving DecidableEq

/-- The computations of the receivers. -/
abbrev Exec := Traced Event Fault

/-- The pair that `secure_recv` returns. -/
inductive RecvResult
  /-- `{0, nullptr}`. -/
  | failed
  /-- `{n, buf}` for a buffer of `n` bytes, where `n` is a `uint32_t`. -/
  | body (bytes : List UInt8) (length_lt : bytes.length < 2 ^ 32)

/-- The pair itself: a length, and the bytes of the buffer unless it is null. -/
def RecvResult.pair : RecvResult → ℕ × Option (List UInt8)
  | .failed => (0, none)
  | .body bytes _ => (bytes.length, some bytes)

/-- What `secure_recv` returns on a stream that begins with the given bytes and ends there. -/
def recvFrame (stream : List UInt8) : RecvResult :=
  match destructMessage stream with
  | none => .failed
  | some sz =>
    if h : sz.toNat ≤ (stream.drop lengthSizeField).length then
      .body ((stream.drop lengthSizeField).take sz.toNat)
        (by rw [List.length_take_of_le h]; exact sz.toNat_lt)
    else .failed

/-- `bytecount`. -/
def RecvResult.bytecount : RecvResult → ℕ
  | .failed => 0
  | .body bytes _ => bytes.length

/-- The bytes behind `buffer.get()`; there are none behind a null pointer. -/
def RecvResult.buffer : RecvResult → List UInt8
  | .failed => []
  | .body bytes _ => bytes

/-- The payload at the front of a stream is received. -/
theorem recvFrame_constructMessage {payload : List UInt8} (hlt : payload.length < 2 ^ 32)
    (rest : List UInt8) : recvFrame (constructMessage payload ++ rest) = .body payload hlt := by
  have hsize : (UInt32.ofNat payload.length).toNat = payload.length :=
    UInt32.toNat_ofNat_of_lt' hlt
  have hdrop : (constructMessage payload ++ rest).drop lengthSizeField = payload ++ rest := rfl
  have hdestruct : destructMessage (constructMessage payload ++ rest) =
      some (UInt32.ofNat payload.length) := by
    rw [constructMessage, List.append_assoc, destructMessage_append]
  unfold recvFrame
  simp only [hdestruct, hdrop, hsize, List.length_append, Nat.le_add_right, dite_true,
    List.take_left]

/-- The length returned is that of the buffer. -/
theorem RecvResult.bytecount_eq (r : RecvResult) : r.bytecount = r.buffer.length := by
  cases r <;> rfl

/-- Every length returned is a `uint32_t`. -/
theorem RecvResult.bytecount_lt (r : RecvResult) : r.bytecount < 2 ^ 32 := by
  cases r with
  | failed => decide
  | body bytes hlt => exact hlt

/-- `static_cast<int>` of a `size_t`. -/
def castInt (n : ℕ) : ℤ := (n : ℤ).bmod (2 ^ 32)

/-- The subtraction of `size_t`, which wraps around. -/
def subSize (a b : ℕ) : ℕ := (a + (2 ^ 64 - b)) % 2 ^ 64

/-- `len` bytes of a buffer from `off`. -/
def slice (off len : ℕ) (buffer : List UInt8) : List UInt8 := (buffer.drop off).take len

/-- Read `len` bytes of the received buffer from `off`. -/
def readBuffer (buffer : List UInt8) (off len : ℕ) : Exec (List UInt8) := do
  .emit (.read off len)
  if off + len ≤ buffer.length then return slice off len buffer
  else .fault (.outOfBounds off len)

/-- `verify_attested_msg`: the tag is recomputed from the bytes behind it and compared with the
one in front; the pointer returned, an offset into the buffer, is the same either way. -/
def verifyAttestedMsg (h : Hmac) (attestedMsg : List UInt8) (attestedMsgSz : ℕ) :
    Exec (Option ℕ) := do
  .emit (.sizeSub attestedMsgSz hmacSize)
  -- `HMAC_Update` and the `memcpy` of `generate_attested_msg` both read this range
  let payload ← readBuffer attestedMsg hmacSize (subSize attestedMsgSz hmacSize)
  let (calcAttestation, _) := generateAttestedMsg h payload
  let tag ← readBuffer attestedMsg 0 hmacSize
  if tag = calcAttestation.take hmacSize then return some hmacSize
  .emit (.print .verificationFailed)
  return some hmacSize

/-- `extract`: two `int`s copied from the bytes at a pointer. -/
def extract (buffer : List UInt8) : Option ℕ → Exec (ℤ × ℤ)
  | none => .fault .nullPointer
  | some ptr => do
    let id ← readBuffer buffer ptr sizeofInt
    let nodeId ← readBuffer buffer (ptr + sizeofInt) sizeofInt
    return (readInt id, readInt nodeId)

/-- `if (!ptr_to_data)` with its message. -/
def reportUnauthenticated (ptr : Option ℕ) : Exec Unit :=
  if ptr = none then .emit (.print .errorAuthenticating) else pure ()

/-- The index that `extract` reads from a body. -/
def bodyId (body : List UInt8) : ℤ := readInt (slice 32 4 body)

/-- The node id that `extract` reads from a body. -/
def bodyNodeId (body : List UInt8) : ℤ := readInt (slice 36 4 body)

/-- The first 32 bytes of a body are the HMAC of the rest. -/
def Authentic (h : Hmac) (body : List UInt8) : Prop := body.take 32 = h.mac (body.drop 32)

instance (h : Hmac) (body : List UInt8) : Decidable (Authentic h body) :=
  inferInstanceAs (Decidable (_ = _))

/-- What `verify_attested_msg` does with a body that is not too short. -/
def verifyTrace (h : Hmac) (body : List UInt8) : List Event :=
  [.sizeSub body.length 32, .read 32 (body.length - 32), .read 0 32] ++
    if Authentic h body then [] else [.print .verificationFailed]

/-- What verification and extraction do with a body that is not too short. -/
def readTrace (h : Hmac) (body : List UInt8) : List Event :=
  verifyTrace h body ++ [.read 32 4, .read 36 4]

@[simp] theorem castInt_of_lt {n : ℕ} (h : n < 2 ^ 31) : castInt n = n := by
  unfold castInt
  apply Int.bmod_eq_of_le_mul_two <;> omega

/-- A length with its top bit set turns into a negative `int`. -/
theorem castInt_of_ge {n : ℕ} (hlo : 2 ^ 31 ≤ n) (hhi : n < 2 ^ 32) : castInt n = n - 2 ^ 32 := by
  unfold castInt
  rw [Int.bmod_def]
  omega

/-- The error branch of a received length: zero, or at least `2 ^ 31`. -/
theorem castInt_le_zero_iff {n : ℕ} (h : n < 2 ^ 32) : castInt n ≤ 0 ↔ n = 0 ∨ 2 ^ 31 ≤ n := by
  by_cases hn : n < 2 ^ 31
  · rw [castInt_of_lt hn]
    omega
  · rw [castInt_of_ge (by omega) h]
    omega

/-- The subtraction is exact on lengths that are large enough. -/
theorem subSize_of_le {a b : ℕ} (hb : b ≤ a) (ha : a < 2 ^ 64) : subSize a b = a - b := by
  unfold subSize
  omega

/-- The subtraction wraps around on smaller lengths. -/
theorem subSize_of_lt {a b : ℕ} (ha : a < b) (hb : b ≤ 2 ^ 64) :
    subSize a b = 2 ^ 64 - (b - a) := by
  unfold subSize
  omega

/-- A read inside the buffer returns its bytes. -/
theorem readBuffer_of_le {buffer : List UInt8} {off len : ℕ} (h : off + len ≤ buffer.length) :
    readBuffer buffer off len = ⟨[.read off len], .ok (slice off len buffer)⟩ := by
  simp [readBuffer, h]

/-- A read that leaves the buffer is a fault. -/
theorem readBuffer_of_gt {buffer : List UInt8} {off len : ℕ} (h : buffer.length < off + len) :
    readBuffer buffer off len = ⟨[.read off len], .error (.outOfBounds off len)⟩ := by
  simp [readBuffer, Nat.not_le.mpr h]

/-- On a body of at least 32 bytes, verification stays inside it and always returns a pointer
to its payload. -/
theorem verifyAttestedMsg_of_le {h : Hmac} {body : List UInt8} (hlen : 32 ≤ body.length)
    (hlt : body.length < 2 ^ 32) :
    verifyAttestedMsg h body body.length = ⟨verifyTrace h body, .ok (some 32)⟩ := by
  have hsub : subSize body.length 32 = body.length - 32 := subSize_of_le hlen (by omega)
  have hpayload : slice 32 (body.length - 32) body = body.drop 32 :=
    List.take_of_length_le (by simp)
  have htag : slice 0 32 body = body.take 32 := by simp [slice]
  have hcalc : (h.mac (body.drop 32) ++ body.drop 32).take 32 = h.mac (body.drop 32) :=
    List.take_left' (h.mac_length _)
  simp only [verifyAttestedMsg, hmacSize_eq, hsub, generateAttestedMsg_eq,
    readBuffer_of_le (show 32 + (body.length - 32) ≤ body.length by omega),
    readBuffer_of_le (show 0 + 32 ≤ body.length by omega), hpayload, htag, verifyTrace,
    Authentic]
  by_cases hauth : body.take 32 = h.mac (body.drop 32) <;> simp [hauth, hcalc]

/-- On fewer than 32 bytes the length wraps around and the first read leaves the buffer. -/
theorem verifyAttestedMsg_of_lt {h : Hmac} {body : List UInt8} (hlen : body.length < 32) :
    verifyAttestedMsg h body body.length =
      ⟨[.sizeSub body.length 32, .read 32 (subSize body.length 32)],
        .error (.outOfBounds 32 (subSize body.length 32))⟩ := by
  have hsub : subSize body.length 32 = 2 ^ 64 - (32 - body.length) :=
    subSize_of_lt hlen (by decide)
  have hout : body.length < 32 + subSize body.length 32 := by omega
  simp [verifyAttestedMsg, readBuffer_of_gt hout]

/-- On a body of at least 40 bytes, extraction stays inside it. -/
theorem extract_of_le {body : List UInt8} (hlen : 40 ≤ body.length) :
    extract body (some 32) =
      ⟨[.read 32 4, .read 36 4], .ok (bodyId body, bodyNodeId body)⟩ := by
  simp [extract, readBuffer_of_le (show 32 + 4 ≤ body.length by omega),
    readBuffer_of_le (show 36 + 4 ≤ body.length by omega), bodyId, bodyNodeId]

/-- On a shorter body, extraction ends with a read that leaves it. -/
theorem extract_of_lt {body : List UInt8} (hlen : body.length < 40) :
    ∃ before off, extract body (some 32) =
      ⟨before ++ [.read off 4], .error (.outOfBounds off 4)⟩ ∧ body.length < off + 4 := by
  by_cases h36 : body.length < 36
  · refine ⟨[], 32, ?_, h36⟩
    simp [extract, readBuffer_of_gt (show body.length < 32 + 4 by omega)]
  · refine ⟨[.read 32 4], 36, ?_, hlen⟩
    simp [extract, readBuffer_of_le (show 32 + 4 ≤ body.length by omega),
      readBuffer_of_gt (show body.length < 36 + 4 by omega)]

@[simp] theorem reportUnauthenticated_some (ptr : ℕ) :
    reportUnauthenticated (some ptr) = pure () := rfl

@[simp] theorem sentFrames_append (t u : List Event) :
    sentFrames (t ++ u) = sentFrames t ++ sentFrames u := List.filterMap_append

@[simp] theorem loggedEntries_append (t u : List Event) :
    loggedEntries (t ++ u) = loggedEntries t ++ loggedEntries u := List.filterMap_append

/-- Reading a message logs nothing. -/
@[simp] theorem loggedEntries_readTrace (h : Hmac) (body : List UInt8) :
    loggedEntries (readTrace h body) = [] := by
  unfold readTrace verifyTrace
  split <;> rfl

@[simp] theorem refusals_append (t u : List Event) :
    refusals (t ++ u) = refusals t ++ refusals u := List.filterMap_append

/-- Reading a message refuses nothing. -/
@[simp] theorem refusals_readTrace (h : Hmac) (body : List UInt8) :
    refusals (readTrace h body) = [] := by
  unfold readTrace verifyTrace
  split <;> rfl

/-- Printing logs nothing. -/
@[simp] theorem loggedEntries_map_print (lines : List Line) :
    loggedEntries (lines.map .print) = [] := by
  simp [loggedEntries, Event.entry?]

/-- Reading a message sends nothing. -/
@[simp] theorem sentFrames_readTrace (h : Hmac) (body : List UInt8) :
    sentFrames (readTrace h body) = [] := by
  unfold readTrace verifyTrace
  split <;> rfl

end TeeReplication
