import Mathlib.Data.List.GetD
import TeeReplication.Net.Socket

/-!
# What `read_n` reports

The loop of `read_n` on the memory that it writes. On every socket it ends, returns the
number of bytes received, has stored exactly these bytes in order at the front of the
buffer, and returns fewer bytes than requested only after `max_retries + 1` results
zero with no bytes received between them.
-/

namespace TeeReplication.Net

/-- The bytes of a result. -/
def RecvOutcome.chunk : RecvOutcome → List UInt8
  | .negative => []
  | .bytes chunk => chunk

/-- The result is zero. -/
def RecvOutcome.isZero : RecvOutcome → Bool
  | .bytes [] => true
  | _ => false

/-- Memory after bytes have been stored from an offset on. -/
def storeAt (memory : ℕ → UInt8) (off : ℕ) (bytes : List UInt8) : ℕ → UInt8 := fun i =>
  if off ≤ i then bytes.getD (i - off) (memory i) else memory i

/-- A socket whose calls of `recv` have the results in a stream, cut to the number of bytes that is
requested. Negative results end at a given position. -/
def Socket.ofOutcomes (outcomes : ℕ → RecvOutcome) (settled : ℕ)
    (h : ∀ i, settled ≤ i → outcomes i ≠ .negative) : Socket ℕ where
  recv i n :=
    match outcomes i with
    | .negative => (i + 1, .negative)
    | .bytes chunk => (i + 1, .bytes (chunk.take n))
  negatives i := settled - i
  negatives_lt i n hneg := by
    have hlt : i < settled := by
      by_contra hle
      cases hi : outcomes i with
      | negative => exact h i (by omega) hi
      | bytes chunk => simp [hi] at hneg
    cases outcomes i <;> dsimp only <;> omega
  negatives_le i n chunk _ := by
    cases outcomes i <;> dsimp only <;> omega
  length_le i n chunk hbytes := by
    cases hi : outcomes i with
    | negative => simp [hi] at hbytes
    | bytes all =>
      simp only [hi, RecvOutcome.bytes.injEq] at hbytes
      rw [← hbytes]
      exact List.length_take_le n all

/-- What `read_n` returns, and what it has done. -/
structure ReadResult (σ : Type) where
  /-- `bytes_read`. -/
  bytesRead : ℕ
  /-- The memory behind `buffer`. -/
  buffer : ℕ → UInt8
  /-- The results of `recv`, in order. -/
  outcomes : List RecvOutcome
  /-- The socket after them. -/
  socket : σ

/-- One more result of `recv` before the others. -/
def ReadResult.after {σ : Type} (r : ReadResult σ) (outcome : RecvOutcome) : ReadResult σ :=
  { r with outcomes := outcome :: r.outcomes }

variable {σ : Type}

/-- The loop of `read_n`. -/
def readIntoFrom (sock : Socket σ) (n : ℕ) (s : σ) (buffer : ℕ → UInt8) (bytesRead retries : ℕ) :
    ReadResult σ :=
  if bytesRead < n then
    match _h : (sock.recv s (n - bytesRead)).2 with
    | .negative =>
      (readIntoFrom sock n (sock.recv s (n - bytesRead)).1 buffer bytesRead retries).after
        .negative
    | .bytes [] =>
      if maxRetries ≤ retries then
        ⟨bytesRead, buffer, [.bytes []], (sock.recv s (n - bytesRead)).1⟩
      else
        (readIntoFrom sock n (sock.recv s (n - bytesRead)).1 buffer bytesRead (retries + 1)).after
          (.bytes [])
    | .bytes (b :: chunk) =>
      (readIntoFrom sock n (sock.recv s (n - bytesRead)).1
        (storeAt buffer bytesRead (b :: chunk)) (bytesRead + (b :: chunk).length) 0).after
        (.bytes (b :: chunk))
  else ⟨bytesRead, buffer, [], s⟩
termination_by (sock.negatives s, n - bytesRead, maxRetries - retries)
decreasing_by
  · exact Prod.Lex.left _ _ (sock.negatives_lt _ _ _h)
  · have hle := sock.negatives_le _ _ _ _h
    rcases hle.lt_or_eq with hlt | heq
    · exact Prod.Lex.left _ _ hlt
    · rw [heq]
      exact Prod.Lex.right _ (Prod.Lex.right _ (by omega))
  · have hle := sock.negatives_le _ _ _ _h
    rcases hle.lt_or_eq with hlt | heq
    · exact Prod.Lex.left _ _ hlt
    · rw [heq]
      refine Prod.Lex.right _ (Prod.Lex.left _ _ ?_)
      rw [List.length_cons]
      omega

/-- `read_n` on the memory behind `buffer`. -/
def readInto (sock : Socket σ) (n : ℕ) (s : σ) (buffer : ℕ → UInt8) : ReadResult σ :=
  readIntoFrom sock n s buffer 0 0

/-- The bytes received, in order. -/
def received (outcomes : List RecvOutcome) : List UInt8 := outcomes.flatMap RecvOutcome.chunk

/-- How many results are zero. -/
def zeros (outcomes : List RecvOutcome) : ℕ := outcomes.countP RecvOutcome.isZero

/-- Successive calls of `recv`, each for the bytes that are still missing: from a socket and a
number of bytes read on, the results and the socket after them. -/
inductive Recvs (sock : Socket σ) (n : ℕ) : σ → ℕ → List RecvOutcome → σ → Prop
  /-- No call. -/
  | nil (s : σ) (bytesRead : ℕ) : Recvs sock n s bytesRead [] s
  /-- A call while bytes are missing, and those after it. -/
  | cons {s s' : σ} {bytesRead : ℕ} {outcomes : List RecvOutcome} (hroom : bytesRead < n)
      (rest : Recvs sock n (sock.recv s (n - bytesRead)).1
        (bytesRead + (sock.recv s (n - bytesRead)).2.chunk.length) outcomes s') :
      Recvs sock n s bytesRead ((sock.recv s (n - bytesRead)).2 :: outcomes) s'

/-- Storing nothing. -/
theorem storeAt_nil (memory : ℕ → UInt8) (off : ℕ) : storeAt memory off [] = memory := by
  funext i
  simp [storeAt]

/-- Storing one chunk behind another. -/
theorem storeAt_storeAt (memory : ℕ → UInt8) (off : ℕ) (bytes bytes' : List UInt8) :
    storeAt (storeAt memory off bytes) (off + bytes.length) bytes' =
      storeAt memory off (bytes ++ bytes') := by
  funext i
  unfold storeAt
  by_cases hoff : off ≤ i
  · by_cases hlast : off + bytes.length ≤ i
    · have hsub : i - off = bytes.length + (i - (off + bytes.length)) := by omega
      rw [if_pos hlast, if_pos hoff, if_pos hoff, hsub, List.getD_append_right _ _ _ _ (by omega),
        List.getD_eq_default bytes _ (by omega), Nat.add_sub_cancel_left]
    · rw [if_neg hlast, if_pos hoff, if_pos hoff, List.getD_append _ _ _ _ (by omega)]
  · rw [if_neg (by omega), if_neg hoff, if_neg hoff]

/-- The read has given up: behind some first results there are no bytes and `max_retries + 1`
zeros, or `c` of them if there are no first results. -/
def GivesUp (outcomes : List RecvOutcome) (c : ℕ) : Prop :=
  ∃ before after, outcomes = before ++ after ∧ received after = [] ∧
    (zeros after = maxRetries + 1 ∨ before = [] ∧ zeros after = c)

namespace GivesUp

variable {outcomes : List RecvOutcome} {c : ℕ}

/-- A negative result does not count. -/
theorem negative (h : GivesUp outcomes c) : GivesUp (.negative :: outcomes) c := by
  obtain ⟨before, after, rfl, hnone, hzeros | ⟨rfl, hzeros⟩⟩ := h
  · exact ⟨.negative :: before, after, rfl, hnone, Or.inl hzeros⟩
  · exact ⟨[], .negative :: after, rfl, hnone, Or.inr ⟨rfl, hzeros⟩⟩

/-- The result zero counts. -/
theorem zero (h : GivesUp outcomes c) : GivesUp (.bytes [] :: outcomes) (c + 1) := by
  obtain ⟨before, after, rfl, hnone, hzeros | ⟨rfl, hzeros⟩⟩ := h
  · exact ⟨.bytes [] :: before, after, rfl, hnone, Or.inl hzeros⟩
  · refine ⟨[], .bytes [] :: after, rfl, hnone, Or.inr ⟨rfl, ?_⟩⟩
    rw [zeros, List.countP_cons_of_pos rfl, ← zeros, hzeros]

/-- After any result the count may have begun anew. -/
theorem anew (h : GivesUp outcomes (maxRetries + 1)) (outcome : RecvOutcome) :
    GivesUp (outcome :: outcomes) c := by
  obtain ⟨before, after, rfl, hnone, hzeros⟩ := h
  exact ⟨outcome :: before, after, rfl, hnone, Or.inl (hzeros.elim id And.right)⟩

end GivesUp

/-- What the loop has done, from `bytesRead` bytes and a number of retries on. -/
structure ReadSpec (n : ℕ) (buffer : ℕ → UInt8) (bytesRead retries : ℕ) (r : ReadResult σ) :
    Prop where
  /-- The bytes received are stored behind those read before. -/
  buffer_eq : r.buffer = storeAt buffer bytesRead (received r.outcomes)
  /-- They are counted. -/
  bytesRead_eq : r.bytesRead = bytesRead + (received r.outcomes).length
  /-- There are no more than requested. -/
  le : bytesRead ≤ n → r.bytesRead ≤ n
  /-- With less the loop has given up. -/
  givesUp : retries ≤ maxRetries → r.bytesRead < n →
    GivesUp r.outcomes (maxRetries + 1 - retries)

/-- The loop does what it should from every point on. -/
theorem readIntoFrom_spec (sock : Socket σ) (n : ℕ) (s : σ) (buffer : ℕ → UInt8)
    (bytesRead retries : ℕ) :
    ReadSpec n buffer bytesRead retries (readIntoFrom sock n s buffer bytesRead retries) := by
  fun_induction readIntoFrom sock n s buffer bytesRead retries with
  | case1 s buffer bytesRead retries hroom hneg ih =>
    exact ⟨ih.buffer_eq, ih.bytesRead_eq, ih.le, fun hr hlt => (ih.givesUp hr hlt).negative⟩
  | case2 s buffer bytesRead retries hroom hzero hlast =>
    refine ⟨(storeAt_nil _ _).symm, rfl, id, fun hr _ => ?_⟩
    have hone : maxRetries + 1 - retries = 1 := by omega
    exact ⟨[], [.bytes []], rfl, rfl, Or.inr ⟨rfl, hone.symm⟩⟩
  | case3 s buffer bytesRead retries hroom hzero hlast ih =>
    refine ⟨ih.buffer_eq, ih.bytesRead_eq, ih.le, fun hr hlt => ?_⟩
    have hsub : maxRetries + 1 - retries = maxRetries + 1 - (retries + 1) + 1 := by omega
    rw [hsub]
    exact (ih.givesUp (by omega) hlt).zero
  | case4 s buffer bytesRead retries hroom b chunk hbytes ih =>
    have hlength := sock.length_le _ _ _ hbytes
    refine ⟨?_, ?_, fun _ => ih.le (by omega), fun _ hlt => ?_⟩
    · rw [ReadResult.after, ih.buffer_eq, storeAt_storeAt]
      rfl
    · rw [ReadResult.after, ih.bytesRead_eq, Nat.add_assoc, ← List.length_append]
      rfl
    · exact (ih.givesUp (Nat.zero_le _) hlt).anew _
  | case5 s buffer bytesRead retries hfull =>
    exact ⟨(storeAt_nil _ _).symm, rfl, id, fun _ hlt => absurd hlt hfull⟩

/-- The results are those of the calls that the loop makes, one after another. -/
theorem readIntoFrom_recvs (sock : Socket σ) (n : ℕ) (s : σ) (buffer : ℕ → UInt8)
    (bytesRead retries : ℕ) :
    Recvs sock n s bytesRead (readIntoFrom sock n s buffer bytesRead retries).outcomes
      (readIntoFrom sock n s buffer bytesRead retries).socket := by
  fun_induction readIntoFrom sock n s buffer bytesRead retries with
  | case1 s buffer bytesRead retries hroom hneg ih =>
    have hcall := Recvs.cons hroom (by rwa [hneg])
    rwa [hneg] at hcall
  | case2 s buffer bytesRead retries hroom hzero hlast =>
    have hcall : Recvs sock n s bytesRead _ _ := .cons hroom (.nil (sock.recv s _).1 _)
    rwa [hzero] at hcall
  | case3 s buffer bytesRead retries hroom hzero hlast ih =>
    have hcall := Recvs.cons hroom (by rwa [hzero])
    rwa [hzero] at hcall
  | case4 s buffer bytesRead retries hroom b chunk hbytes ih =>
    have hcall := Recvs.cons hroom (by rwa [hbytes])
    rwa [hbytes] at hcall
  | case5 s buffer bytesRead retries hfull => exact .nil s bytesRead

/-- The loop reads nothing from a socket that only gives the result zero. -/
theorem readIntoFrom_of_zeros {sock : Socket σ} {P : σ → Prop}
    (hzero : ∀ s k, P s → (sock.recv s k).2 = .bytes [] ∧ P (sock.recv s k).1) {n : ℕ} {s : σ}
    (hs : P s) (buffer : ℕ → UInt8) (bytesRead retries : ℕ) :
    (readIntoFrom sock n s buffer bytesRead retries).bytesRead = bytesRead := by
  fun_induction readIntoFrom sock n s buffer bytesRead retries with
  | case1 s buffer bytesRead retries hroom hneg ih =>
    rw [(hzero s _ hs).1] at hneg
    cases hneg
  | case2 s buffer bytesRead retries hroom hnone hlast => rfl
  | case3 s buffer bytesRead retries hroom hnone hlast ih => exact ih (hzero s _ hs).2
  | case4 s buffer bytesRead retries hroom b chunk hbytes ih =>
    rw [(hzero s _ hs).1] at hbytes
    cases hbytes
  | case5 s buffer bytesRead retries hfull => rfl

/-- The loop on memory reads the same bytes as the one on lists of bytes. -/
theorem readLoop_eq (sock : Socket σ) (n : ℕ) (s : σ) (buffer : ℕ → UInt8) (read : List UInt8)
    (retries : ℕ) :
    readLoop sock n s read retries =
      (read ++ received (readIntoFrom sock n s buffer read.length retries).outcomes,
        (readIntoFrom sock n s buffer read.length retries).socket) := by
  generalize hk : read.length = k
  fun_induction readIntoFrom sock n s buffer k retries generalizing read with
  | case1 s buffer bytesRead retries hroom hneg ih =>
    subst hk
    rw [readLoop_negative hroom hneg]
    exact ih read rfl
  | case2 s buffer bytesRead retries hroom hzero hlast =>
    subst hk
    rw [readLoop_zero hroom hzero, if_pos hlast]
    simp [received, RecvOutcome.chunk]
  | case3 s buffer bytesRead retries hroom hzero hlast ih =>
    subst hk
    rw [readLoop_zero hroom hzero, if_neg hlast]
    exact ih read rfl
  | case4 s buffer bytesRead retries hroom b chunk hbytes ih =>
    subst hk
    rw [readLoop_bytes hroom hbytes, ih (read ++ b :: chunk) List.length_append,
      List.append_assoc]
    rfl
  | case5 s buffer bytesRead retries hfull =>
    subst hk
    rw [readLoop_full hfull]
    simp [received]

/-- `read_n` on memory returns the number of the bytes that it reads, and stores them. -/
theorem readN_eq (sock : Socket σ) (n : ℕ) (s : σ) (buffer : ℕ → UInt8) :
    readN sock n s =
      (received (readInto sock n s buffer).outcomes, (readInto sock n s buffer).socket) := by
  rw [readN, readLoop_eq sock n s buffer [] 0]
  rfl

/-- The sum of the positive results. -/
def positiveSum (outcomes : List RecvOutcome) : ℕ := (outcomes.map fun o => o.chunk.length).sum

/-- For every socket, every number of bytes and every buffer, `read_n` makes finitely many calls of
`recv`, each for the bytes that are still missing, and reads what they give; it returns at most the
number requested, which is the sum of the positive results; it has stored the chunks received, in
order, at the front of the buffer and nothing behind them; and it returns less only after
`max_retries + 1` zeros without a positive result among them. -/
theorem readInto_exact (sock : Socket σ) (n : ℕ) (s : σ) (buffer : ℕ → UInt8) :
    Recvs sock n s 0 (readInto sock n s buffer).outcomes (readInto sock n s buffer).socket ∧
    readN sock n s =
      (received (readInto sock n s buffer).outcomes, (readInto sock n s buffer).socket) ∧
    (readInto sock n s buffer).bytesRead ≤ n ∧
    (readInto sock n s buffer).bytesRead = positiveSum (readInto sock n s buffer).outcomes ∧
    (List.range (readInto sock n s buffer).bytesRead).map (readInto sock n s buffer).buffer =
      received (readInto sock n s buffer).outcomes ∧
    (∀ i, (readInto sock n s buffer).bytesRead ≤ i →
      (readInto sock n s buffer).buffer i = buffer i) ∧
    ((readInto sock n s buffer).bytesRead < n → ∃ before after,
      (readInto sock n s buffer).outcomes = before ++ after ∧
      (∀ o ∈ after, o.chunk = []) ∧ zeros after = maxRetries + 1) := by
  obtain ⟨hbuffer, hread, hle, hgives⟩ := readIntoFrom_spec sock n s buffer 0 0
  rw [← readInto] at hbuffer hread hle hgives
  rw [Nat.zero_add] at hread
  refine ⟨readIntoFrom_recvs sock n s buffer 0 0, readN_eq sock n s buffer, hle (Nat.zero_le n),
    ?_, ?_, ?_, fun hlt => ?_⟩
  · rw [hread, received, List.length_flatMap]
    rfl
  · rw [hread, hbuffer]
    apply List.ext_getElem
    · rw [List.length_map, List.length_range]
    · intro i hi hi'
      rw [List.length_map, List.length_range] at hi
      simp [storeAt, List.getD_eq_getElem?_getD, hi]
  · intro i hi
    rw [hbuffer, storeAt, if_pos (Nat.zero_le i), List.getD_eq_default _ _ (by omega)]
  · obtain ⟨before, after, heq, hnone, hzeros⟩ := hgives (Nat.zero_le _) hlt
    exact ⟨before, after, heq, List.flatMap_eq_nil_iff.mp hnone, hzeros.elim id And.right⟩

/-- A socket that gives a negative result, one byte and then zero for ever. -/
def stallingSocket : Socket ℕ :=
  .ofOutcomes (fun i => if i = 0 then .negative else if i = 1 then .bytes [7] else .bytes []) 1
    (fun i hi => by
      rw [if_neg (show i ≠ 0 by omega)]
      split <;> nofun)

/-- Of two bytes requested from the stalling socket `read_n` reads one, and gives up after
`max_retries + 1` zeros. -/
theorem readInto_exact_stallingSocket :
    (readInto stallingSocket 2 0 fun _ => 0).bytesRead = 1 ∧ ∃ before after,
      (readInto stallingSocket 2 0 fun _ => 0).outcomes = before ++ after ∧
      (∀ o ∈ after, o.chunk = []) ∧ zeros after = maxRetries + 1 := by
  have hread : (readInto stallingSocket 2 0 fun _ => 0).bytesRead = 1 := by
    have hsecond : (readIntoFrom stallingSocket 2 1 (fun _ => 0) 0 0).bytesRead = 1 := by
      rw [readIntoFrom]
      exact readIntoFrom_of_zeros (P := fun s => 2 ≤ s)
        (fun s k hs => by simp [stallingSocket, Socket.ofOutcomes, show s ≠ 0 by omega,
          show s ≠ 1 by omega, show 2 ≤ s + 1 by omega]) le_rfl _ _ _
    rw [readInto, readIntoFrom]
    exact hsecond
  obtain ⟨-, -, -, -, -, -, hgives⟩ := readInto_exact stallingSocket 2 0 fun _ => 0
  exact ⟨hread, hgives (by omega)⟩

end TeeReplication.Net
