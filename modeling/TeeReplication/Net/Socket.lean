import TeeReplication.Receive

/-!
# Sockets and the framed channel

`net/shared.cpp`: the loop that reads a number of bytes, the loop that sends a
buffer, and the receive of one frame. What `recv` and `send` return is up to the
socket. A socket that is read from comes with a bound on the negative results that
it still gives, without which `read_n` need not end.
-/

namespace TeeReplication.Net

/-- What one call of `recv` gives. -/
inductive RecvOutcome
  /-- A negative result. -/
  | negative
  /-- The bytes received; none of them for the result zero. -/
  | bytes (chunk : List UInt8)

/-- A socket that is read from. -/
structure Socket (σ : Type) where
  /-- `recv` with the number of bytes requested. -/
  recv : σ → ℕ → σ × RecvOutcome
  /-- A bound on the number of negative results still to come. -/
  negatives : σ → ℕ
  /-- A negative result uses up the bound. -/
  negatives_lt : ∀ s n, (recv s n).2 = .negative → negatives (recv s n).1 < negatives s
  /-- Other results do not raise it. -/
  negatives_le : ∀ s n chunk, (recv s n).2 = .bytes chunk → negatives (recv s n).1 ≤ negatives s
  /-- No more bytes are received than requested. -/
  length_le : ∀ s n chunk, (recv s n).2 = .bytes chunk → chunk.length ≤ n

variable {σ : Type}

/-- The loop of `read_n` with the bytes read so far and the value of `retries`. -/
def readLoop (sock : Socket σ) (n : ℕ) (s : σ) (buffer : List UInt8) (retries : ℕ) :
    List UInt8 × σ :=
  if buffer.length < n then
    match _h : (sock.recv s (n - buffer.length)).2 with
    | .negative => readLoop sock n (sock.recv s (n - buffer.length)).1 buffer retries
    | .bytes [] =>
      if maxRetries ≤ retries then (buffer, (sock.recv s (n - buffer.length)).1)
      else readLoop sock n (sock.recv s (n - buffer.length)).1 buffer (retries + 1)
    | .bytes (b :: chunk) =>
      readLoop sock n (sock.recv s (n - buffer.length)).1 (buffer ++ b :: chunk) 0
  else (buffer, s)
termination_by (sock.negatives s, n - buffer.length, maxRetries - retries)
decreasing_by
  · exact Prod.Lex.left _ _ (sock.negatives_lt _ _ _h)
  · have hle := sock.negatives_le _ _ _ _h
    rcases hle.lt_or_eq with hlt | heq
    · exact Prod.Lex.left _ _ hlt
    · rw [heq]
      exact Prod.Lex.right _ (Prod.Lex.right _ (by omega))
  · have hle := sock.negatives_le _ _ _ _h
    rcases hle.lt_or_eq with hlt | heq
    · exact Prod.Lex.left _ _ hlt
    · rw [heq]
      refine Prod.Lex.right _ (Prod.Lex.left _ _ ?_)
      rw [List.length_append, List.length_cons]
      omega

section ReadLoop

variable {sock : Socket σ} {n : ℕ} {s : σ} {buffer : List UInt8} {retries : ℕ}

theorem readLoop_full (hfull : ¬ buffer.length < n) :
    readLoop sock n s buffer retries = (buffer, s) := by
  rw [readLoop, if_neg hfull]

/-- A negative result is ignored; even the number of retries stays as it is. -/
theorem readLoop_negative (hroom : buffer.length < n)
    (h : (sock.recv s (n - buffer.length)).2 = .negative) :
    readLoop sock n s buffer retries =
      readLoop sock n (sock.recv s (n - buffer.length)).1 buffer retries := by
  rw [readLoop, if_pos hroom]
  split <;> simp_all

/-- The result zero is retried up to `max_retries` times. -/
theorem readLoop_zero (hroom : buffer.length < n)
    (h : (sock.recv s (n - buffer.length)).2 = .bytes []) :
    readLoop sock n s buffer retries =
      if maxRetries ≤ retries then (buffer, (sock.recv s (n - buffer.length)).1)
      else readLoop sock n (sock.recv s (n - buffer.length)).1 buffer (retries + 1) := by
  rw [readLoop, if_pos hroom]
  split <;> simp_all

/-- Bytes are appended, and the count of retries starts again. -/
theorem readLoop_bytes {b : UInt8} {chunk : List UInt8} (hroom : buffer.length < n)
    (h : (sock.recv s (n - buffer.length)).2 = .bytes (b :: chunk)) :
    readLoop sock n s buffer retries =
      readLoop sock n (sock.recv s (n - buffer.length)).1 (buffer ++ b :: chunk) 0 := by
  rw [readLoop, if_pos hroom]
  split <;> simp_all

end ReadLoop

/-- `read_n`: the bytes read, at most `n`, and the socket after them. -/
def readN (sock : Socket σ) (n : ℕ) (s : σ) : List UInt8 × σ := readLoop sock n s [] 0

/-- `secure_recv`. -/
def secureRecv (sock : Socket σ) (s : σ) : RecvResult × σ :=
  let (dlen, s) := readN sock lengthSizeField s
  if dlen.length ≠ lengthSizeField then (.failed, s)
  else
    match destructMessage dlen with
    | none => (.failed, s)
    | some actualMsgSize =>
      let (buf, s) := readN sock actualMsgSize.toNat s
      if h : buf.length = actualMsgSize.toNat then
        (.body buf (h ▸ actualMsgSize.toNat_lt), s)
      else (.failed, s)

/-- Without a whole length field nothing is received. -/
theorem secureRecv_of_ne {sock : Socket σ} {s : σ}
    (h : (readN sock lengthSizeField s).1.length ≠ lengthSizeField) :
    secureRecv sock s = (.failed, (readN sock lengthSizeField s).2) := if_pos h

/-- With a length field, as many bytes as it says are received, or nothing. -/
theorem secureRecv_of_eq {sock : Socket σ} {s : σ} {sz : UInt32}
    (h : (readN sock lengthSizeField s).1.length = lengthSizeField)
    (hsz : destructMessage (readN sock lengthSizeField s).1 = some sz) :
    secureRecv sock s =
      let (buf, s) := readN sock sz.toNat (readN sock lengthSizeField s).2
      (if h : buf.length = sz.toNat then .body buf (h ▸ sz.toNat_lt) else .failed, s) := by
  unfold secureRecv
  dsimp only
  rw [if_neg (not_not.mpr h), hsz]
  dsimp only
  split <;> rfl

/-- Repeated calls of `secure_recv`. -/
def secureRecvs (sock : Socket σ) : ℕ → σ → List RecvResult
  | 0, _ => []
  | n + 1, s => (secureRecv sock s).1 :: secureRecvs sock n (secureRecv sock s).2

/-- The loop of `secure_send` on the bytes left to send, when the `i`-th call of `send` accepts
`sends i + 1` bytes, if there are as many, or fails: whether it ends without a failure, the bytes
accepted and the number of the next call. -/
def sendLoop (sends : ℕ → Option ℕ) (i : ℕ) (data : List UInt8) : Bool × List UInt8 × ℕ :=
  if data.length = 0 then (true, [], i)
  else
    match sends i with
    | none => (false, [], i + 1)
    | some bytes =>
      let (ok, accepted, j) := sendLoop sends (i + 1) (data.drop (bytes + 1))
      (ok, data.take (bytes + 1) ++ accepted, j)
termination_by data.length
decreasing_by
  rw [List.length_drop]
  omega

/-- `secure_send`: the length or nothing, the bytes accepted and the number of the next call. -/
def secureSend (sends : ℕ → Option ℕ) (i : ℕ) (data : List UInt8) :
    Option ℕ × List UInt8 × ℕ :=
  let (ok, accepted, j) := sendLoop sends i data
  (if ok then some data.length else none, accepted, j)

/-- A sender that frames payloads and sends them one after another until a send fails: all bytes
accepted and how many frames were sent without a failure. -/
def sendAll (sends : ℕ → Option ℕ) : ℕ → List (List UInt8) → List UInt8 × ℕ
  | _, [] => ([], 0)
  | i, payload :: rest =>
    let (result, accepted, j) := secureSend sends i (constructMessage payload)
    match result with
    | none => (accepted, 0)
    | some _ =>
      let (accepted', complete) := sendAll sends j rest
      (accepted ++ accepted', complete + 1)

end TeeReplication.Net
