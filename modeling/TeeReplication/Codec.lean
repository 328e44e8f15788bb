import TeeReplication.Chain.Head
import TeeReplication.Chain.Tail
import TeeReplication.Raft.Follower
import TeeReplication.Raft.Leader

/-!
# Encoding and decoding agree

Every sender builds its frame in the same way from a pair of `int`s, and every
receiver finds the pair again: the length field gives the size of the attested
message, the recomputed tag is the carried one, and the two `int`s behind it are
those that were written. The middle rebuilds the very frame it received.
-/

namespace TeeReplication

/-- The attested message of a payload: what a frame carries behind its length. -/
def attestedBody (h : Hmac) (payload : List UInt8) : List UInt8 := h.mac payload ++ payload

@[simp] theorem attestedBody_length (h : Hmac) (payload : List UInt8) :
    (attestedBody h payload).length = 32 + payload.length := by
  simp [attestedBody, h.mac_length]

/-- The payload of an attested message starts behind the tag. -/
@[simp] theorem drop_attestedBody (h : Hmac) (payload : List UInt8) :
    (attestedBody h payload).drop 32 = payload :=
  List.drop_left' (h.mac_length payload)

/-- An attested message carries the tag of its payload. -/
theorem authentic_attestedBody (h : Hmac) (payload : List UInt8) :
    Authentic h (attestedBody h payload) := by
  rw [Authentic, drop_attestedBody]
  exact List.take_left' (h.mac_length payload)

/-- A frame is built from the attested message. -/
theorem attestedFrame_eq (h : Hmac) (payload : List UInt8) :
    attestedFrame h payload = constructMessage (attestedBody h payload) := by
  have htake : (h.mac payload ++ payload).take (32 + payload.length) = attestedBody h payload :=
    List.take_of_length_le (by simp [h.mac_length])
  simp [attestedFrame, htake]

/-- The bytes behind the length field of a frame are its attested message. -/
@[simp] theorem drop_attestedFrame (h : Hmac) (payload : List UInt8) :
    (attestedFrame h payload).drop lengthSizeField = attestedBody h payload := by
  rw [attestedFrame_eq]
  exact List.drop_left' rfl

/-- Receiving a frame gives its attested message. -/
theorem recvFrame_attestedFrame (h : Hmac) {payload : List UInt8}
    (hlt : 32 + payload.length < 2 ^ 32) :
    recvFrame (attestedFrame h payload) =
      .body (attestedBody h payload) (by rw [attestedBody_length]; exact hlt) := by
  rw [attestedFrame_eq, ← List.append_nil (constructMessage _), recvFrame_constructMessage]

/-- The index of a request or acknowledgement is read back from its attested message. -/
theorem bodyId_attestedBody (h : Hmac) {id : ℤ} (hid : IsInt id) (nodeId : ℤ) :
    bodyId (attestedBody h (writePair id nodeId)) = id := by
  rw [bodyId, slice, drop_attestedBody, writePair, List.take_left' (writeInt_length id),
    readInt_writeInt hid]

/-- The node id of a request or acknowledgement is read back from its attested message. -/
theorem bodyNodeId_attestedBody (h : Hmac) (id : ℤ) {nodeId : ℤ} (hnode : IsInt nodeId) :
    bodyNodeId (attestedBody h (writePair id nodeId)) = nodeId := by
  have hdrop : (attestedBody h (writePair id nodeId)).drop 36 = writeInt nodeId := by
    rw [show 36 = 32 + 4 from rfl, ← List.drop_drop, drop_attestedBody, writePair,
      List.drop_left' (writeInt_length id)]
  rw [bodyNodeId, slice, hdrop, List.take_of_length_le (by simp), readInt_writeInt hnode]

/-- The index that a receiver reads from a frame. -/
def frameId (frame : Frame) : ℤ := bodyId (frame.drop lengthSizeField)

/-- The index of a request or acknowledgement is read back from its frame. -/
theorem frameId_attestedFrame (h : Hmac) {id : ℤ} (hid : IsInt id) (nodeId : ℤ) :
    frameId (attestedFrame h (writePair id nodeId)) = id := by
  rw [frameId, drop_attestedFrame, bodyId_attestedBody h hid]

/-- A frame carries a pair: the body behind its length field is received whole, verifies with
the tag it carries and with no other and holds the pair, and forwarding the body gives the frame
again. -/
structure Carries (h : Hmac) (frame : Frame) (id nodeId : ℤ) : Prop where
  /-- The length field is the number of bytes behind it. -/
  length_field : ∃ sz, destructMessage (frame.take lengthSizeField) = some sz ∧
    frame.length = lengthSizeField + sz.toNat
  /-- `secure_recv` returns these bytes. -/
  received : ∃ hlt, recvFrame frame = .body (frame.drop lengthSizeField) hlt
  /-- The tag in front of the payload is the payload's HMAC. -/
  tag_eq : (frame.drop lengthSizeField).take hmacSize =
    h.mac ((frame.drop lengthSizeField).drop hmacSize)
  /-- `verify_attested_msg` subtracts, reads the payload and the tag, reports no failure and
  returns the pointer to the payload. -/
  verified : verifyAttestedMsg h (frame.drop lengthSizeField)
      (frame.drop lengthSizeField).length =
    ⟨[.sizeSub (frame.drop lengthSizeField).length hmacSize,
      .read hmacSize ((frame.drop lengthSizeField).length - hmacSize), .read 0 hmacSize],
      .ok (some hmacSize)⟩
  /-- With any other tag in front of this payload it reports the failure. -/
  checked : ∀ tag : List UInt8, tag.length = hmacSize →
    tag ≠ h.mac ((frame.drop lengthSizeField).drop hmacSize) →
    .print .verificationFailed ∈ (verifyAttestedMsg h
      (tag ++ (frame.drop lengthSizeField).drop hmacSize)
      (tag ++ (frame.drop lengthSizeField).drop hmacSize).length).trace
  /-- `extract` reads the pair. -/
  extracted : (extract (frame.drop lengthSizeField) (some hmacSize)).result = .ok (id, nodeId)
  /-- `forward_msg` rebuilds the frame from the verified payload. -/
  forwarded : sentFrames (Chain.Middle.forwardMsg h (frame.drop lengthSizeField) (some hmacSize)
    (sizeofInt + sizeofInt)).trace = [frame]

/-- Verification of an attested message reports no failure. -/
theorem verifyAttestedMsg_attestedBody (h : Hmac) {payload : List UInt8}
    (hlt : 32 + payload.length < 2 ^ 32) :
    verifyAttestedMsg h (attestedBody h payload) (attestedBody h payload).length =
      ⟨[.sizeSub (attestedBody h payload).length 32,
        .read 32 ((attestedBody h payload).length - 32), .read 0 32], .ok (some 32)⟩ := by
  have hlen := attestedBody_length h payload
  rw [verifyAttestedMsg_of_le (by omega) (by omega), verifyTrace,
    if_pos (authentic_attestedBody h payload), List.append_nil]

/-- Verification of a payload behind any other tag reports the failure. -/
theorem verificationFailed_mem_of_ne {h : Hmac} {tag payload : List UInt8}
    (htag : tag.length = 32) (hne : tag ≠ h.mac payload)
    (hlt : 32 + payload.length < 2 ^ 32) :
    .print .verificationFailed ∈
      (verifyAttestedMsg h (tag ++ payload) (tag ++ payload).length).trace := by
  have hlen : (tag ++ payload).length = 32 + payload.length := by
    rw [List.length_append, htag]
  have hbad : ¬ Authentic h (tag ++ payload) := by
    rwa [Authentic, List.take_left' htag, List.drop_left' htag]
  rw [verifyAttestedMsg_of_le (by omega) (by omega), verifyTrace, if_neg hbad]
  exact List.mem_append_right _ (List.mem_singleton_self _)

/-- The payload of a pair is the eight bytes behind the tag. -/
theorem slice_attestedBody (h : Hmac) (id nodeId : ℤ) :
    slice 32 8 (attestedBody h (writePair id nodeId)) = writePair id nodeId := by
  rw [slice, drop_attestedBody]
  exact List.take_of_length_le (by simp)

/-- Forwarding the attested message of a pair rebuilds its frame. -/
theorem forwardMsg_attestedBody (h : Hmac) (id nodeId : ℤ) :
    Chain.Middle.forwardMsg h (attestedBody h (writePair id nodeId)) (some 32) 8 =
      ⟨[.read 32 8, .send (attestedFrame h (writePair id nodeId))], .ok ()⟩ := by
  simp [Chain.Middle.forwardMsg, Chain.Middle.forwardedFrame, slice_attestedBody,
    readBuffer_of_le (show 32 + 8 ≤ (attestedBody h (writePair id nodeId)).length by simp)]

/-- Every frame built from a pair of `int`s carries it. -/
theorem carries_attestedFrame (h : Hmac) {id nodeId : ℤ} (hid : IsInt id) (hnode : IsInt nodeId) :
    Carries h (attestedFrame h (writePair id nodeId)) id nodeId := by
  have hlength : (attestedBody h (writePair id nodeId)).length = 40 := by simp
  have hsize : 32 + (writePair id nodeId).length < 2 ^ 32 := by simp
  refine ⟨⟨UInt32.ofNat 40, ?_, ?_⟩, ⟨by rw [drop_attestedFrame, hlength]; decide, ?_⟩,
    ?_, ?_, fun tag htag hne => ?_, ?_, ?_⟩
  · have htake : (attestedFrame h (writePair id nodeId)).take lengthSizeField =
        convertIntToByteArray (UInt32.ofNat 40) := by
      rw [attestedFrame_eq, constructMessage, hlength]
      exact List.take_left' rfl
    rw [htake]
    simpa using destructMessage_append (UInt32.ofNat 40) []
  · rw [attestedFrame_eq, constructMessage, List.length_append, hlength]
    rfl
  · simp only [drop_attestedFrame]
    exact recvFrame_attestedFrame h hsize
  · rw [drop_attestedFrame, hmacSize_eq]
    exact authentic_attestedBody h (writePair id nodeId)
  · rw [drop_attestedFrame, hmacSize_eq, verifyAttestedMsg_attestedBody h hsize]
  · rw [drop_attestedFrame, hmacSize_eq, drop_attestedBody] at hne ⊢
    exact verificationFailed_mem_of_ne htag hne hsize
  · rw [drop_attestedFrame, hmacSize_eq, extract_of_le (by omega), bodyId_attestedBody h hid,
      bodyNodeId_attestedBody h id hnode]
  · rw [drop_attestedFrame, hmacSize_eq, sizeofInt_eq, forwardMsg_attestedBody]
    rfl

/-- Encoding and decoding agree for all four senders, every pair of 32-bit integers and every
HMAC, and the middle forwards the frame it received. -/
theorem frames_carry_their_pairs (h : Hmac) (id nodeId : Int32) :
    Carries h (Raft.Leader.genAndSendRequest h id.toInt nodeId.toInt) id.toInt nodeId.toInt ∧
    Carries h (Raft.Follower.ackFrame h id.toInt nodeId.toInt) id.toInt nodeId.toInt ∧
    Carries h (Chain.Tail.ackFrame h id.toInt nodeId.toInt) id.toInt nodeId.toInt ∧
    Carries h (Chain.Head.genAndSendRequest h id.toInt) id.toInt middleId :=
  ⟨carries_attestedFrame h (isInt_toInt id) (isInt_toInt nodeId),
    carries_attestedFrame h (isInt_toInt id) (isInt_toInt nodeId),
    carries_attestedFrame h (isInt_toInt id) (isInt_toInt nodeId),
    carries_attestedFrame h (isInt_toInt id) (by decide)⟩

end TeeReplication
