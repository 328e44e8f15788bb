import Mathlib.Tactic.Ring
import TeeReplication.Config
import TeeReplication.Foundations.Bytes

/-!
# Frames: lengths, integers and tags

The encoding half of `net/shared.h` and `common.hpp`. A frame is a four-byte
big-endian length followed by the attested message, which is the HMAC of the
payload followed by the payload; the payload of every message is a pair of
little-endian `int`s. The HMAC itself is a parameter with 32-byte results.
-/

namespace TeeReplication

/-- A keyed hash from byte strings to 32-byte strings. -/
structure Hmac where
  /-- The tag of a byte string. -/
  mac : List UInt8 → List UInt8
  /-- Every tag has 32 bytes. -/
  mac_length : ∀ data, (mac data).length = 32

/-- An HMAC whose tags are all zero, on which the model can be evaluated. -/
def zeroHmac : Hmac := ⟨fun _ => List.replicate 32 0, fun _ => List.length_replicate⟩

/-- `hmac_sha256`: the digest buffer of `EVP_MAX_MD_SIZE` bytes and the length written to it. -/
def hmacSha256 (h : Hmac) (data : List UInt8) : List UInt8 × ℕ :=
  (h.mac data ++ List.replicate (evpMaxMdSize - (h.mac data).length) 0, (h.mac data).length)

/-- `generate_attested_msg`: the tag followed by the payload, and the total size. -/
def generateAttestedMsg (h : Hmac) (payload : List UInt8) : List UInt8 × ℕ :=
  let (hmacData, hmacSz) := hmacSha256 h payload
  (hmacData.take hmacSz ++ payload, hmacSz + payload.length)

/-- The value of a `char`, which is signed, after promotion to `int`. -/
def promoteChar (b : UInt8) : Int32 := b.toInt8.toInt32

/-- `convert_byte_array_to_int` on the four bytes it reads. -/
def convertByteArrayToInt (b₀ b₁ b₂ b₃ : UInt8) : UInt32 :=
  ((promoteChar b₀ <<< 24) ||| ((promoteChar b₁ &&& 0xFF) <<< 16) |||
    ((promoteChar b₂ &&& 0xFF) <<< 8) ||| (promoteChar b₃ &&& 0xFF)).toUInt32

/-- `convert_int_to_byte_array`: the four bytes it writes. -/
def convertIntToByteArray (sz : UInt32) : List UInt8 :=
  [((sz >>> 24) &&& 0xFF).toUInt8, ((sz >>> 16) &&& 0xFF).toUInt8,
    ((sz >>> 8) &&& 0xFF).toUInt8, (sz &&& 0xFF).toUInt8]

/-- `construct_message`: the payload behind its size, which is narrowed to `uint32_t`. -/
def constructMessage (payload : List UInt8) : List UInt8 :=
  convertIntToByteArray (UInt32.ofNat payload.length) ++ payload

/-- `destruct_message`: the payload size at the front of a message of at least four bytes. -/
def destructMessage : List UInt8 → Option UInt32
  | b₀ :: b₁ :: b₂ :: b₃ :: _ => some (convertByteArrayToInt b₀ b₁ b₂ b₃)
  | _ => none

/-- The bytes of an `int` in memory. -/
def writeInt (x : ℤ) : List UInt8 := Bytes.leBytesSigned sizeofInt x

/-- The `int` that some bytes in memory hold. -/
def readInt (bs : List UInt8) : ℤ := Bytes.ofLeBytesSigned bs

/-- The payload of a request or acknowledgement: an index and a node id. -/
def writePair (id nodeId : ℤ) : List UInt8 := writeInt id ++ writeInt nodeId

/-- The frame that every sender builds from its eight-byte payload. -/
def attestedFrame (h : Hmac) (payload : List UInt8) : List UInt8 :=
  let (vData, size) := generateAttestedMsg h payload
  constructMessage (vData.take size)

/-- A number is the value of an `int`. -/
def IsInt (x : ℤ) : Prop := -2 ^ 31 ≤ x ∧ x < 2 ^ 31

instance (x : ℤ) : Decidable (IsInt x) := inferInstanceAs (Decidable (_ ∧ _))

/-- The largest `int`, to which nothing can be added. -/
def intMax : ℤ := 2 ^ 31 - 1

/-- Every request id is less than the largest `int`. -/
theorem nbRequests_le_intMax : nbRequests ≤ intMax := Int.le_sub_one_of_lt nbRequests_lt

/-- The values of `Int32` are values of `int`. -/
theorem isInt_toInt (x : Int32) : IsInt x.toInt := ⟨x.le_toInt, x.toInt_lt⟩

/-- The digest is the tag: `hmac_sha256` reports 32 bytes of it. -/
@[simp] theorem generateAttestedMsg_eq (h : Hmac) (payload : List UInt8) :
    generateAttestedMsg h payload = (h.mac payload ++ payload, 32 + payload.length) := by
  simp [generateAttestedMsg, hmacSha256, h.mac_length, evpMaxMdSize]

@[simp] theorem writeInt_length (x : ℤ) : (writeInt x).length = 4 := by simp [writeInt]

@[simp] theorem writePair_length (id nodeId : ℤ) : (writePair id nodeId).length = 8 := by
  simp [writePair]

/-- Reading back an `int` that was written. -/
theorem readInt_writeInt {x : ℤ} (hx : IsInt x) : readInt (writeInt x) = x := by
  obtain ⟨hlo, hhi⟩ := hx
  refine Bytes.ofLeBytesSigned_leBytesSigned_of_mem ?_ ?_ <;> norm_num <;> omega

/-- Masking a promoted `char` leaves its unsigned value. -/
theorem promoteChar_and (b : UInt8) :
    (promoteChar b &&& 0xFF).toBitVec = b.toBitVec.setWidth 32 := by
  have h : ∀ x : BitVec 8, x.signExtend 32 &&& 255#32 = x.setWidth 32 := by decide
  simpa [promoteChar] using h b.toBitVec

/-- Shifting a promoted `char` into the top byte drops its sign extension. -/
theorem promoteChar_shiftLeft (b : UInt8) :
    (promoteChar b <<< 24).toBitVec = b.toBitVec.setWidth 32 <<< 24 := by
  have h : ∀ x : BitVec 8, x.signExtend 32 <<< 24 = x.setWidth 32 <<< 24 := by decide
  simpa [promoteChar] using h b.toBitVec

/-- Placing one more byte below the digits already placed. -/
private theorem mul_two_pow_or (x : ℕ) {y : ℕ} (hy : y < 256) (i : ℕ) :
    x * 2 ^ (i + 8) ||| y * 2 ^ i = (x * 256 + y) * 2 ^ i := by
  have hlt : y * 2 ^ i < 2 ^ (i + 8) := by
    rw [pow_add, Nat.mul_comm (2 ^ i)]
    exact Nat.mul_lt_mul_of_pos_right hy (Nat.two_pow_pos i)
  rw [Nat.mul_comm x, ← Nat.two_pow_add_eq_or_of_lt hlt, pow_add]
  ring

/-- The length field is read as the big-endian number of its bytes, whatever their signs. -/
theorem toNat_convertByteArrayToInt (b₀ b₁ b₂ b₃ : UInt8) :
    (convertByteArrayToInt b₀ b₁ b₂ b₃).toNat =
      ((b₀.toNat * 256 + b₁.toNat) * 256 + b₂.toNat) * 256 + b₃.toNat := by
  have hbits : (convertByteArrayToInt b₀ b₁ b₂ b₃).toBitVec =
      b₀.toBitVec.setWidth 32 <<< 24 ||| b₁.toBitVec.setWidth 32 <<< 16 |||
        b₂.toBitVec.setWidth 32 <<< 8 ||| b₃.toBitVec.setWidth 32 := by
    rw [← promoteChar_shiftLeft, ← promoteChar_and b₁, ← promoteChar_and b₂, ← promoteChar_and b₃]
    simp [convertByteArrayToInt]
  have h₀ : b₀.toNat < 256 := b₀.toNat_lt
  have h₁ : b₁.toNat < 256 := b₁.toNat_lt
  have h₂ : b₂.toNat < 256 := b₂.toNat_lt
  have h₃ : b₃.toNat < 256 := b₃.toNat_lt
  have hwidth {x k : ℕ} (hx : x < 256) (hk : k ≤ 24) : x % 2 ^ 32 * 2 ^ k % 2 ^ 32 = x * 2 ^ k := by
    have hle : x * 2 ^ k ≤ 255 * 2 ^ 24 :=
      Nat.mul_le_mul (by omega) (Nat.pow_le_pow_right (by decide) hk)
    rw [Nat.mod_eq_of_lt (show x < 2 ^ 32 by omega), Nat.mod_eq_of_lt (by omega)]
  rw [← UInt32.toNat_toBitVec, hbits]
  simp only [BitVec.toNat_or, BitVec.toNat_shiftLeft, BitVec.toNat_setWidth, UInt8.toNat_toBitVec,
    Nat.shiftLeft_eq]
  rw [hwidth h₀ (by decide), hwidth h₁ (by decide), hwidth h₂ (by decide),
    Nat.mod_eq_of_lt (show b₃.toNat < 2 ^ 32 by omega), mul_two_pow_or _ h₁ 16,
    mul_two_pow_or _ h₂ 8]
  simpa using mul_two_pow_or _ h₃ 0

/-- The bytes of a length field are its base-256 digits, most significant first. -/
theorem convertIntToByteArray_eq (sz : UInt32) :
    convertIntToByteArray sz = [UInt8.ofNat (sz.toNat / 2 ^ 24), UInt8.ofNat (sz.toNat / 2 ^ 16),
      UInt8.ofNat (sz.toNat / 2 ^ 8), UInt8.ofNat sz.toNat] := by
  have hmask (n : ℕ) : n % 256 &&& 255 = n % 256 := by
    simpa using Nat.and_two_pow_sub_one_eq_mod (n % 256) 8
  simp only [convertIntToByteArray, List.cons.injEq, and_true]
  refine ⟨?_, ?_, ?_, ?_⟩ <;> apply UInt8.toNat_inj.mp <;>
    simp [Nat.shiftRight_eq_div_pow, hmask]

@[simp] theorem convertIntToByteArray_length (sz : UInt32) :
    (convertIntToByteArray sz).length = 4 := rfl

/-- A length field is read back as it was written. -/
theorem destructMessage_append (sz : UInt32) (rest : List UInt8) :
    destructMessage (convertIntToByteArray sz ++ rest) = some sz := by
  have hlt : sz.toNat < 2 ^ 32 := sz.toNat_lt
  rw [convertIntToByteArray_eq]
  simp only [List.cons_append, destructMessage, Option.some.injEq]
  apply UInt32.toNat_inj.mp
  rw [toNat_convertByteArrayToInt]
  simp only [UInt8.toNat_ofNat']
  omega

end TeeReplication
