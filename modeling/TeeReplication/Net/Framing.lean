import TeeReplication.Foundations.Framing
import TeeReplication.Net.Channel

/-!
# The receive of a frame, one call at a time

`secure_recv` and `read_n` of `net/shared.cpp` cut at the calls of `recv`: where the
function stands between two calls, and what it does with the result of the next one.
Followed to its end on any socket this is `secure_recv`. It never asks for bytes
behind the frame that it is in.
-/

namespace TeeReplication.Net

/-- Where `secure_recv` stands between two calls of `recv`. -/
inductive RecvState
  /-- In the `read_n` of the length field, with the bytes read and `retries`. -/
  | length (dlen : List UInt8) (retries : ℕ)
  /-- In the `read_n` of a body of the given size, with the bytes read and `retries`. -/
  | body (actualMsgSize : UInt32) (buf : List UInt8) (retries : ℕ)

namespace RecvState

/-- The first call of `read_n` before its first call of `recv`. -/
def start : RecvState := .length [] 0

/-- `bytes_left`, which the next call of `recv` asks for. -/
def bytesLeft : RecvState → ℕ
  | .length dlen _ => lengthSizeField - dlen.length
  | .body actualMsgSize buf _ => actualMsgSize.toNat - buf.length

/-- `retries`. -/
def retries : RecvState → ℕ
  | .length _ retries => retries
  | .body _ _ retries => retries

end RecvState

/-- A body of the size promised is no longer than any `uint32_t`. -/
theorem length_lt_of_eq_size {buf : List UInt8} {sz : UInt32} (h : buf.length = sz.toNat) :
    buf.length < 2 ^ 32 := h ▸ sz.toNat_lt

/-- What `secure_recv` returns with what `read_n` has read of the body. -/
def checkBody (actualMsgSize : UInt32) (buf : List UInt8) : RecvResult :=
  if h : buf.length = actualMsgSize.toNat then .body buf (length_lt_of_eq_size h) else .failed

/-- The head of the loop of `read_n` on the body: another call of `recv`, or the end. -/
def readBody (actualMsgSize : UInt32) (buf : List UInt8) (retries : ℕ) : RecvState ⊕ RecvResult :=
  if buf.length < actualMsgSize.toNat then .inl (.body actualMsgSize buf retries)
  else .inr (checkBody actualMsgSize buf)

/-- What `secure_recv` does with what `read_n` has read of the length field. -/
def checkLength (dlen : List UInt8) : RecvState ⊕ RecvResult :=
  if dlen.length ≠ lengthSizeField then .inr .failed
  else
    match destructMessage dlen with
    | none => .inr .failed
    | some actualMsgSize => readBody actualMsgSize [] 0

/-- The head of the loop of `read_n` on the length field: another call of `recv`, or the body is
next. -/
def readLength (dlen : List UInt8) (retries : ℕ) : RecvState ⊕ RecvResult :=
  if dlen.length < lengthSizeField then .inl (.length dlen retries) else checkLength dlen

namespace RecvState

/-- The call of `recv` gives some bytes. -/
def push : RecvState → List UInt8 → RecvState ⊕ RecvResult
  | .length dlen _, chunk => readLength (dlen ++ chunk) 0
  | .body actualMsgSize buf _, chunk => readBody actualMsgSize (buf ++ chunk) 0

/-- The call of `recv` gives the result zero. -/
def zero : RecvState → RecvState ⊕ RecvResult
  | .length dlen retries =>
    if maxRetries ≤ retries then .inr .failed else .inl (.length dlen (retries + 1))
  | .body actualMsgSize buf retries =>
    if maxRetries ≤ retries then .inr .failed else .inl (.body actualMsgSize buf (retries + 1))

end RecvState

/-- Followed on a socket, the receive ends with this result and leaves the socket like this. -/
inductive Receives {σ : Type} (sock : Socket σ) : RecvState ⊕ RecvResult → σ → RecvResult → σ → Prop
  /-- The receive is over. -/
  | ended {r : RecvResult} {s : σ} : Receives sock (.inr r) s r s
  /-- A negative result is ignored. -/
  | negative {st : RecvState} {s s' : σ} {r : RecvResult} :
      (sock.recv s st.bytesLeft).2 = .negative →
      Receives sock (.inl st) (sock.recv s st.bytesLeft).1 r s' → Receives sock (.inl st) s r s'
  /-- The result zero is counted. -/
  | zero {st : RecvState} {s s' : σ} {r : RecvResult} :
      (sock.recv s st.bytesLeft).2 = .bytes [] →
      Receives sock st.zero (sock.recv s st.bytesLeft).1 r s' → Receives sock (.inl st) s r s'
  /-- Bytes are appended. -/
  | bytes {st : RecvState} {s s' : σ} {r : RecvResult} {b : UInt8} {chunk : List UInt8} :
      (sock.recv s st.bytesLeft).2 = .bytes (b :: chunk) →
      Receives sock (st.push (b :: chunk)) (sock.recv s st.bytesLeft).1 r s' →
      Receives sock (.inl st) s r s'

section Socket

variable {σ : Type} {sock : Socket σ} {s s' s'' : σ} {r r' : RecvResult}

/-- A receive has one result. -/
theorem Receives.unique {x : RecvState ⊕ RecvResult} (h : Receives sock x s r s')
    (h' : Receives sock x s r' s'') : r = r' ∧ s' = s'' := by
  induction h with
  | ended =>
    cases h'
    exact ⟨rfl, rfl⟩
  | negative hrecv _ ih | zero hrecv _ ih | bytes hrecv _ ih =>
    cases h' <;> simp_all

/-- The loop of `read_n` on the body ends with what `read_n` has read. -/
theorem receives_readBody (actualMsgSize : UInt32) (s : σ) (buf : List UInt8) (retries : ℕ) :
    Receives sock (readBody actualMsgSize buf retries) s
      (checkBody actualMsgSize (readLoop sock actualMsgSize.toNat s buf retries).1)
      (readLoop sock actualMsgSize.toNat s buf retries).2 := by
  induction s, buf, retries using readLoop.induct sock actualMsgSize.toNat with
  | case1 s buf retries hroom h ih =>
    rw [readLoop_negative hroom h]
    rw [readBody, if_pos hroom] at ih ⊢
    exact .negative h ih
  | case2 s buf retries hroom h hretries =>
    rw [readLoop_zero hroom h, if_pos hretries, readBody, if_pos hroom]
    apply Receives.zero h
    rw [RecvState.zero, if_pos hretries, checkBody, dif_neg (Nat.ne_of_lt hroom)]
    exact .ended
  | case3 s buf retries hroom h hretries ih =>
    rw [readLoop_zero hroom h, if_neg hretries]
    rw [readBody, if_pos hroom] at ih ⊢
    apply Receives.zero h
    rw [RecvState.zero, if_neg hretries]
    exact ih
  | case4 s buf retries hroom b chunk h ih =>
    rw [readLoop_bytes hroom h, readBody, if_pos hroom]
    exact .bytes h ih
  | case5 s buf retries hfull =>
    rw [readLoop_full hfull, readBody, if_neg hfull]
    exact .ended

/-- The loop of `read_n` on the length field goes on with what `read_n` has read. -/
theorem receives_readLength (s : σ) (dlen : List UInt8) (retries : ℕ)
    (h : Receives sock (checkLength (readLoop sock lengthSizeField s dlen retries).1)
      (readLoop sock lengthSizeField s dlen retries).2 r s') :
    Receives sock (readLength dlen retries) s r s' := by
  induction s, dlen, retries using readLoop.induct sock lengthSizeField with
  | case1 s dlen retries hroom hrecv ih =>
    rw [readLoop_negative hroom hrecv] at h
    rw [readLength, if_pos hroom] at ih ⊢
    exact .negative hrecv (ih h)
  | case2 s dlen retries hroom hrecv hretries =>
    rw [readLoop_zero hroom hrecv, if_pos hretries, checkLength, if_pos (Nat.ne_of_lt hroom)] at h
    rw [readLength, if_pos hroom]
    apply Receives.zero hrecv
    rw [RecvState.zero, if_pos hretries]
    exact h
  | case3 s dlen retries hroom hrecv hretries ih =>
    rw [readLoop_zero hroom hrecv, if_neg hretries] at h
    rw [readLength, if_pos hroom] at ih ⊢
    apply Receives.zero hrecv
    rw [RecvState.zero, if_neg hretries]
    exact ih h
  | case4 s dlen retries hroom b chunk hrecv ih =>
    rw [readLoop_bytes hroom hrecv] at h
    rw [readLength, if_pos hroom]
    exact .bytes hrecv (ih h)
  | case5 s dlen retries hfull =>
    rw [readLoop_full hfull] at h
    rw [readLength, if_neg hfull]
    exact h

/-- The receive, one call of `recv` at a time, is `secure_recv` on every socket. -/
theorem receives_iff_secureRecv :
    Receives sock (.inl .start) s r s' ↔ secureRecv sock s = (r, s') := by
  have hsecure : Receives sock (.inl .start) s (secureRecv sock s).1 (secureRecv sock s).2 := by
    refine receives_readLength s [] 0 ?_
    rw [← readN, checkLength]
    split
    · rename_i hlength
      rw [secureRecv_of_ne hlength]
      exact .ended
    · rename_i hlength
      have hlength' := not_not.mp hlength
      obtain ⟨sz, hsz, -⟩ := destructMessage_take (readN sock lengthSizeField s).1 hlength'.ge
      rw [hsz, secureRecv_of_eq hlength' hsz]
      exact receives_readBody sz _ [] 0
  constructor
  · intro h
    obtain ⟨rfl, rfl⟩ := h.unique hsecure
    rfl
  · intro h
    rw [h] at hsecure
    exact hsecure

end Socket

/-- The frames that `construct_message` builds. -/
def Framed (frame : List UInt8) : Prop :=
  ∃ payload, payload.length < 2 ^ 32 ∧ frame = constructMessage payload

/-- What the receive has got of a frame in each of its states. -/
def RecvState.Consumed : RecvState → List UInt8 → Prop
  | .length dlen _, p => p = dlen ∧ dlen.length < lengthSizeField
  | .body actualMsgSize buf _, p =>
    p = convertIntToByteArray actualMsgSize ++ buf ∧ buf.length < actualMsgSize.toNat

/-- Length fields that agree are those of one size. -/
theorem convertIntToByteArray_injective : Function.Injective convertIntToByteArray := by
  intro sz sz' h
  have hread := destructMessage_append sz []
  rw [h, destructMessage_append] at hread
  exact (Option.some.inj hread).symm

/-- A frame is a length field and a body of this length. -/
theorem Framed.exists_size {dlen rest : List UInt8} (h : Framed (dlen ++ rest))
    (hlength : dlen.length = lengthSizeField) : ∃ sz : UInt32,
      dlen = convertIntToByteArray sz ∧ sz.toNat = rest.length ∧ rest.length < 2 ^ 32 := by
  obtain ⟨payload, hlt, heq⟩ := h
  obtain ⟨rfl, rfl⟩ := List.append_inj heq (by rw [hlength]; rfl)
  exact ⟨_, rfl, UInt32.toNat_ofNat_of_lt' hlt, hlt⟩

/-- With the length field consumed, the body has the size that it promises. -/
theorem Framed.size_eq {sz : UInt32} {buf rest : List UInt8}
    (h : Framed (convertIntToByteArray sz ++ buf ++ rest)) :
    sz.toNat = buf.length + rest.length := by
  rw [List.append_assoc] at h
  obtain ⟨sz', heq, hsize, -⟩ := h.exists_size (convertIntToByteArray_length sz)
  rw [convertIntToByteArray_injective heq, hsize, List.length_append]

/-- A frame is at least its length field. -/
theorem Framed.le_length {frame : List UInt8} (h : Framed frame) :
    lengthSizeField ≤ frame.length := by
  obtain ⟨payload, -, rfl⟩ := h
  exact Nat.le_add_left _ _

/-- The frame of an attested message can be received. -/
theorem framed_attestedFrame (h : Hmac) {payload : List UInt8}
    (hlt : payload.length < 2 ^ 32 - 32) : Framed (attestedFrame h payload) := by
  refine ⟨h.mac payload ++ payload, ?_, ?_⟩
  · rw [List.length_append, h.mac_length]
    omega
  · rw [attestedFrame, generateAttestedMsg_eq]
    dsimp only
    rw [List.take_of_length_le]
    rw [List.length_append, h.mac_length]

/-- A frame whose body is there is received. -/
theorem readBody_of_framed {sz : UInt32} {buf : List UInt8}
    (h : Framed (convertIntToByteArray sz ++ buf)) (retries : ℕ) :
    readBody sz buf retries = .inr (recvFrame (convertIntToByteArray sz ++ buf)) := by
  obtain ⟨sz', heq, hsize, hlt⟩ := h.exists_size (convertIntToByteArray_length sz)
  rw [← convertIntToByteArray_injective heq] at hsize
  have hframe : convertIntToByteArray sz ++ buf = constructMessage buf := by
    rw [constructMessage, ← hsize, UInt32.ofNat_toNat]
  have hreceived := recvFrame_constructMessage hlt []
  rw [List.append_nil] at hreceived
  rw [readBody, if_neg (by omega), checkBody, dif_pos hsize.symm, hframe, hreceived]

/-- No frame is empty. -/
theorem Framed.ne_nil {frame : List UInt8} (h : Framed frame) : frame ≠ [] := by
  have hle := h.le_length
  rintro rfl
  simp [lengthSizeField] at hle

namespace RecvState

variable {st st' : RecvState} {p chunk rest : List UInt8}

/-- A receive starts with nothing consumed. -/
theorem consumed_start : start.Consumed [] := ⟨rfl, by decide⟩

/-- A receive that is not over asks for a byte. -/
theorem bytesLeft_pos (hp : st.Consumed p) : 0 < st.bytesLeft := by
  cases st with
  | length dlen retries =>
    have hlt := hp.2
    rw [bytesLeft]
    omega
  | body sz buf retries =>
    have hlt := hp.2
    rw [bytesLeft]
    omega

/-- It asks for no more bytes than the frame has left. -/
theorem bytesLeft_le (hp : st.Consumed p) (hframed : Framed (p ++ rest)) :
    st.bytesLeft ≤ rest.length := by
  cases st with
  | length dlen retries =>
    obtain ⟨rfl, -⟩ := hp
    have hle := hframed.le_length
    rw [List.length_append] at hle
    rw [bytesLeft]
    omega
  | body sz buf retries =>
    obtain ⟨rfl, -⟩ := hp
    have hsize := hframed.size_eq
    rw [bytesLeft]
    omega

/-- With the last bytes of a frame the frame is received. -/
theorem push_last (hp : st.Consumed p) (hframed : Framed (p ++ chunk))
    (hneed : chunk.length ≤ st.bytesLeft) : st.push chunk = .inr (recvFrame (p ++ chunk)) := by
  cases st with
  | length dlen retries =>
    obtain ⟨rfl, hlt⟩ := hp
    have hle := hframed.le_length
    rw [bytesLeft] at hneed
    rw [List.length_append] at hle
    have hlength : (p ++ chunk).length = lengthSizeField := by
      rw [List.length_append]
      omega
    rw [← List.append_nil (p ++ chunk)] at hframed
    obtain ⟨sz, heq, -⟩ := hframed.exists_size hlength
    rw [push, readLength, if_neg (by omega), checkLength, if_neg (not_not.mpr hlength)]
    rw [heq] at hframed ⊢
    have hread := destructMessage_append sz []
    rw [List.append_nil] at hread
    rw [hread]
    simpa using readBody_of_framed hframed 0
  | body sz buf retries =>
    obtain ⟨rfl, -⟩ := hp
    rw [List.append_assoc] at hframed ⊢
    exact readBody_of_framed hframed 0

/-- With other bytes of it the receive goes on. -/
theorem push_more (hp : st.Consumed p) (hframed : Framed (p ++ (chunk ++ rest))) (hrest : rest ≠ [])
    (hneed : chunk.length ≤ st.bytesLeft) :
    ∃ st', st.push chunk = .inl st' ∧ st'.Consumed (p ++ chunk) := by
  have hpos := List.length_pos_iff.mpr hrest
  rw [← List.append_assoc] at hframed
  cases st with
  | length dlen retries =>
    obtain ⟨rfl, hlt⟩ := hp
    rw [bytesLeft] at hneed
    have hle : (p ++ chunk).length ≤ lengthSizeField := by
      rw [List.length_append]
      omega
    rcases hle.lt_or_eq with hroom | hlength
    · refine ⟨.length (p ++ chunk) 0, ?_, rfl, hroom⟩
      rw [push, readLength, if_pos hroom]
    · obtain ⟨sz, heq, hsize, -⟩ := hframed.exists_size hlength
      have hread := destructMessage_append sz []
      rw [List.append_nil, ← heq] at hread
      refine ⟨.body sz [] 0, ?_, ?_, ?_⟩
      · rw [push, readLength, if_neg (by omega), checkLength, if_neg (not_not.mpr hlength), hread]
        exact if_pos (by rw [List.length_nil]; omega)
      · rw [heq, List.append_nil]
      · rw [List.length_nil]
        omega
  | body sz buf retries =>
    obtain ⟨rfl, -⟩ := hp
    rw [List.append_assoc (convertIntToByteArray sz)] at hframed ⊢
    have hsize := hframed.size_eq
    have hroom : (buf ++ chunk).length < sz.toNat := by omega
    exact ⟨.body sz (buf ++ chunk) 0, if_pos hroom, rfl, hroom⟩

/-- After the result zero the receive goes on where it is, with one retry fewer, -/
theorem zero_more (hp : st.Consumed p) (hzero : st.zero = .inl st') :
    st'.Consumed p ∧ maxRetries - st'.retries < maxRetries - st.retries := by
  cases st with
  | length dlen retries | body sz buf retries =>
    rw [RecvState.zero] at hzero
    split at hzero
    · cases hzero
    · obtain rfl := Sum.inl.inj hzero
      refine ⟨hp, ?_⟩
      simp only [RecvState.retries]
      omega

/-- or fails. -/
theorem zero_over {r : RecvResult} (hzero : st.zero = .inr r) : r = .failed := by
  cases st with
  | length dlen retries | body sz buf retries =>
    rw [RecvState.zero] at hzero
    split at hzero
    · exact (Sum.inr.inj hzero).symm
    · cases hzero

end RecvState

/-- The receive that is cut at the calls of `recv` finds the frames in a stream. -/
def framing : Framing UInt8 RecvResult where
  State := RecvState
  start := .start
  need := RecvState.bytesLeft
  push := RecvState.push
  zero := RecvState.zero
  received := recvFrame
  failed := .failed
  Framed := Framed
  Consumed := RecvState.Consumed
  patience st := maxRetries - st.retries
  maxPatience := maxRetries
  ne_nil_of_framed _ h := h.ne_nil
  consumed_start := RecvState.consumed_start
  need_pos _ _ _ hp _ _ := RecvState.bytesLeft_pos hp
  need_le _ _ _ hp hframed := RecvState.bytesLeft_le hp hframed
  push_last _ _ _ hp hframed _ hneed := RecvState.push_last hp hframed hneed
  push_more _ _ _ _ hp hframed _ hrest hneed := RecvState.push_more hp hframed hrest hneed
  zero_more _ _ _ hp hzero := RecvState.zero_more hp hzero
  zero_over _ _ hzero := RecvState.zero_over hzero
  patience_le _ := Nat.sub_le _ _

end TeeReplication.Net
