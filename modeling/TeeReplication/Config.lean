import Mathlib.Algebra.Ring.Int.Defs

/-!
# Configuration constants

The constants of `raft/config.h`, `cr/config.h`, `crypto.hpp` and `net/shared.h`
that the modelled code reads. Both programs use the same number of requests and
the same `kNodesSize`.
-/

namespace TeeReplication

/-- `nb_requests`: how many requests one experiment sends. -/
@[irreducible] def nbRequests : ℤ := 100000

/-- `kNodesSize`: the number of acknowledgements that commit an index by themselves. -/
def kNodesSize : ℕ := 2

/-- `follower_1_id`. -/
def follower1Id : ℤ := 1

/-- `follower_2_id`. -/
def follower2Id : ℤ := 2

/-- `middle_id`: the node id that the head writes into its requests. -/
def middleId : ℤ := 1

/-- OpenSSL's `EVP_MAX_MD_SIZE`. -/
def evpMaxMdSize : ℕ := 64

/-- `_hmac_size`: the tag length that the receivers skip. -/
def hmacSize : ℕ := evpMaxMdSize / 2

/-- `length_size_field`, that is `sizeof(uint32_t)`. -/
def lengthSizeField : ℕ := 4

/-- `sizeof(int)`. -/
def sizeofInt : ℕ := 4

/-- `max_retries` of `read_n`. -/
def maxRetries : ℕ := 10000

/-- There is at least one request. -/
theorem nbRequests_pos : 0 < nbRequests := by
  unfold nbRequests
  decide

/-- Every request id is an `int`. -/
theorem nbRequests_lt : nbRequests < 2 ^ 31 := by
  unfold nbRequests
  decide

/-- The receivers skip as many bytes as the HMAC has. -/
@[simp] theorem hmacSize_eq : hmacSize = 32 := rfl

@[simp] theorem sizeofInt_eq : sizeofInt = 4 := rfl

end TeeReplication
