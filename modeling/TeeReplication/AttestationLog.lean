import Mathlib.Data.Int.Order.Basic
import Mathlib.Data.List.Basic
import Mathlib.Data.Nat.Init

/-!
# The attestation log

`log_attestation` of the two authenticators in `network-unused/authenticators/apis.h`
that keep attestations in a file. How many bytes a call of `write` accepts is up to
the file. The loop hands `data` itself to every call, so a call after the first one
appends bytes from the front again, and a failed call counts as minus one byte.
-/

namespace TeeReplication

/-- A file that is written to. -/
structure LogFile where
  /-- The `i`-th call of `write` accepts `writes i + 1` bytes, or as many as are requested if these
  are fewer, or fails. -/
  writes : ℕ → Option ℕ
  /-- From this call on none fails. -/
  settled : ℕ
  /-- Finitely many calls fail. -/
  writes_ne_none : ∀ i, settled ≤ i → writes i ≠ none

/-- What `log_attestation` does. -/
inductive LogEvent
  /-- `write` of `count` bytes from `data + off`, and the bytes that it appends to the file. -/
  | write (off count : ℕ) (appended : List UInt8)
  /-- The same, with the result `-1`. -/
  | writeFailed (off count : ℕ)
  /-- `"Error while logging"`. -/
  | errorWhileLogging
  /-- `get_ROTE_counter`, with the value it returns. -/
  | getROTECounter (cnt : ℤ)
  /-- `fsync`. -/
  | fsync
  deriving DecidableEq

/-- The bytes that an event appends to the file. -/
def LogEvent.appended : LogEvent → List UInt8
  | .write _ _ appended => appended
  | _ => []

/-- The range behind `data` that an event hands to `write`. -/
def LogEvent.request? : LogEvent → Option (ℕ × ℕ)
  | .write off count _ => some (off, count)
  | .writeFailed off count => some (off, count)
  | _ => none

/-- The bytes appended to the file, in order. -/
def fileBytes (events : List LogEvent) : List UInt8 := events.flatMap LogEvent.appended

/-- The first bytes behind a pointer. -/
def bytesAt (memory : ℕ → UInt8) (count : ℕ) : List UInt8 := (List.range count).map memory

/-- The memory from a buffer on. -/
def buffer (data : List UInt8) (beyond : ℕ → UInt8) : ℕ → UInt8 := fun i => data.getD i (beyond i)

/-- The loop of `log_attestation` at the `i`-th call of `write`. -/
def writeLoop (file : LogFile) (data : ℕ → UInt8) (size : ℤ) (i : ℕ) (completedBytes : ℤ) :
    List LogEvent :=
  if completedBytes < size then
    let count := (size - completedBytes).toNat
    match _h : file.writes i with
    | none =>
      .writeFailed 0 count :: .errorWhileLogging ::
        writeLoop file data size (i + 1) (completedBytes - 1)
    | some k =>
      let written := min (k + 1) count
      .write 0 count (bytesAt data written) ::
        writeLoop file data size (i + 1) (completedBytes + written)
  else []
-- a failed call gives back one byte, and a call that may fail is worth two
termination_by 2 * (file.settled - i) + (size - completedBytes).toNat
decreasing_by
  · have hlt : i < file.settled := by
      by_contra hle
      exact file.writes_ne_none i (by omega) _h
    omega
  · omega

/-- `auth_sgx_with_persistency::log_attestation`. -/
def AuthSgxWithPersistency.logAttestation (file : LogFile) (size : ℤ) (data : ℕ → UInt8) :
    List LogEvent :=
  writeLoop file data size 0 0 ++ [.fsync]

/-- `auth_sgx_with_rollback::log_attestation`, with the counter after it. -/
def AuthSgxWithRollback.logAttestation (file : LogFile) (size : ℤ) (data : ℕ → UInt8) (cnt : ℤ) :
    List LogEvent × ℤ :=
  (writeLoop file data size 0 0 ++ [.getROTECounter cnt, .fsync], cnt + 1)

section WriteLoop

variable {file : LogFile} {data : ℕ → UInt8} {size completedBytes : ℤ} {i : ℕ}

/-- The loop ends when nothing is left to be written. -/
theorem writeLoop_done (hdone : ¬ completedBytes < size) :
    writeLoop file data size i completedBytes = [] := by
  rw [writeLoop, if_neg hdone]

/-- A failed call is reported and counts as minus one byte. -/
theorem writeLoop_failed (hleft : completedBytes < size) (h : file.writes i = none) :
    writeLoop file data size i completedBytes =
      .writeFailed 0 (size - completedBytes).toNat :: .errorWhileLogging ::
        writeLoop file data size (i + 1) (completedBytes - 1) := by
  rw [writeLoop, if_pos hleft]
  dsimp only
  split <;> simp_all

/-- A call that accepts bytes takes them from the front of the buffer. -/
theorem writeLoop_accepted {k : ℕ} (hleft : completedBytes < size) (h : file.writes i = some k) :
    writeLoop file data size i completedBytes =
      .write 0 (size - completedBytes).toNat
          (bytesAt data (min (k + 1) (size - completedBytes).toNat)) ::
        writeLoop file data size (i + 1)
          (completedBytes + min (k + 1) (size - completedBytes).toNat) := by
  rw [writeLoop, if_pos hleft]
  dsimp only
  split <;> simp_all

/-- As long as something is left the loop asks for all of it. -/
theorem exists_writeLoop_cons (file : LogFile) (data : ℕ → UInt8) (i : ℕ)
    (hleft : completedBytes < size) : ∃ e rest,
    writeLoop file data size i completedBytes = e :: rest ∧
      e.request? = some (0, (size - completedBytes).toNat) := by
  cases h : file.writes i with
  | none => exact ⟨_, _, writeLoop_failed hleft h, rfl⟩
  | some k => exact ⟨_, _, writeLoop_accepted hleft h, rfl⟩

end WriteLoop

/-- The first bytes of a buffer are those of its data. -/
theorem bytesAt_buffer {data : List UInt8} (beyond : ℕ → UInt8) {count : ℕ}
    (h : count ≤ data.length) : bytesAt (buffer data beyond) count = data.take count := by
  apply List.ext_getElem
  · rw [bytesAt, List.length_map, List.length_range, List.length_take_of_le h]
  · intro j hj hj'
    rw [bytesAt, List.length_map, List.length_range] at hj
    simp [bytesAt, buffer, List.getD_eq_getElem?_getD, show j < data.length by omega]

/-- The events append exactly the rest of `data` from position `pos`, no call is given a range that
leaves `data`, and none asks for more than what is left. -/
structure Records (data : List UInt8) (pos : ℕ) (events : List LogEvent) : Prop where
  /-- The bytes appended to the file. -/
  appended : fileBytes events = data.drop pos
  /-- Every range is inside `data`. -/
  inside : ∀ e ∈ events, ∀ off count, e.request? = some (off, count) → off + count ≤ data.length
  /-- Every count fits in what is left when the call is made. -/
  count_le : ∀ before e after, events = before ++ e :: after →
    ∀ off count, e.request? = some (off, count) →
      pos + (fileBytes before).length + count ≤ data.length

namespace Records

variable {data bytes : List UInt8} {pos off count : ℕ} {e : LogEvent} {events : List LogEvent}

/-- Nothing has to be written at the end of the data. -/
theorem of_length_le (hpos : data.length ≤ pos) (happended : fileBytes events = [])
    (hrequest : ∀ e ∈ events, e.request? = none) : Records data pos events := by
  refine ⟨?_, ?_, ?_⟩
  · rw [happended, List.drop_eq_nil_of_le hpos]
  · intro e he off count hreq
    rw [hrequest e he] at hreq
    cases hreq
  · rintro before e after rfl off count hreq
    rw [hrequest e (List.mem_append_right _ List.mem_cons_self)] at hreq
    cases hreq

/-- A first call that accepts bytes takes the next ones of the data, and the rest goes on behind
them. -/
theorem write_iff : Records data pos (.write off count bytes :: events) ↔
    off + count ≤ data.length ∧ pos + count ≤ data.length ∧ bytes <+: data.drop pos ∧
      Records data (pos + bytes.length) events := by
  constructor
  · rintro ⟨happended, hinside, hcount⟩
    have hsplit : bytes ++ fileBytes events = data.drop pos := happended
    have hrest : fileBytes events = data.drop (pos + bytes.length) := by
      rw [← List.drop_drop, ← hsplit, List.drop_left]
    refine ⟨hinside _ List.mem_cons_self off count rfl, hcount [] _ _ rfl off count rfl,
      ⟨_, hsplit⟩, hrest, fun e he => hinside e (List.mem_cons_of_mem _ he), ?_⟩
    rintro before e after rfl off' count' hreq
    have hle := hcount (.write off count bytes :: before) e after rfl off' count' hreq
    have hlength : (fileBytes (.write off count bytes :: before)).length =
        bytes.length + (fileBytes before).length := List.length_append
    omega
  · rintro ⟨hoff, hpos, hpre, happended, hinside, hcount⟩
    refine ⟨?_, ?_, ?_⟩
    · change bytes ++ fileBytes events = data.drop pos
      rw [happended, ← List.drop_drop]
      exact List.prefix_iff_eq_append.mp hpre
    · intro e he off' count' hreq
      rcases List.mem_cons.mp he with rfl | he
      · cases hreq
        exact hoff
      · exact hinside e he off' count' hreq
    · intro before e after heq off' count' hreq
      cases before with
      | nil =>
        obtain ⟨rfl, rfl⟩ := List.cons.inj heq
        cases hreq
        exact hpos
      | cons first before =>
        obtain ⟨rfl, rfl⟩ := List.cons.inj heq
        have hle := hcount before e after rfl off' count' hreq
        have hlength : (fileBytes (.write off count bytes :: before)).length =
            bytes.length + (fileBytes before).length := List.length_append
        omega

end Records

/-- How many bytes the calls before the `j`-th one have accepted if none of them has failed. -/
def acceptedBefore (file : LogFile) (size : ℕ) : ℕ → ℕ
  | 0 => 0
  | j + 1 => min size (acceptedBefore file size j + ((file.writes j).getD 0 + 1))

/-- From the `i`-th call on, while bytes are left no call fails, and the bytes that a call accepts
from the front of the data are also those at the position reached. -/
def Harmless (file : LogFile) (data : List UInt8) (i : ℕ) : Prop :=
  ∀ j, i ≤ j → acceptedBefore file data.length j < data.length → ∃ k, file.writes j = some k ∧
    data.take (min (k + 1) (data.length - acceptedBefore file data.length j)) <+:
      data.drop (acceptedBefore file data.length j)

section Harmless

variable {file : LogFile} {data : List UInt8} {i : ℕ}

/-- Once everything is accepted it stays so. -/
theorem le_acceptedBefore {size j : ℕ} (hij : i ≤ j) (h : size ≤ acceptedBefore file size i) :
    size ≤ acceptedBefore file size j := by
  induction j, hij using Nat.le_induction with
  | base => exact h
  | succ j _ ih =>
    rw [acceptedBefore]
    omega

/-- A call that accepts bytes moves the position on by them. -/
theorem acceptedBefore_succ {size j k : ℕ} (hleft : acceptedBefore file size j < size)
    (hwrite : file.writes j = some k) : acceptedBefore file size (j + 1) =
      acceptedBefore file size j + min (k + 1) (size - acceptedBefore file size j) := by
  rw [acceptedBefore, hwrite, Option.getD_some]
  omega

/-- The condition on one call and the ones after it. -/
theorem harmless_iff (hleft : acceptedBefore file data.length i < data.length) :
    Harmless file data i ↔
      (∃ k, file.writes i = some k ∧
        data.take (min (k + 1) (data.length - acceptedBefore file data.length i)) <+:
          data.drop (acceptedBefore file data.length i)) ∧ Harmless file data (i + 1) := by
  constructor
  · intro h
    exact ⟨h i (Nat.le_refl i) hleft, fun j hj => h j (by omega)⟩
  · rintro ⟨hfirst, hrest⟩ j hj
    rcases Nat.eq_or_lt_of_le hj with rfl | hlt
    · exact fun _ => hfirst
    · exact hrest j hlt

/-- After a failed call the next one asks for one byte more than is left. -/
theorem not_records_of_failed {memory : ℕ → UInt8} {pos : ℕ} (hleft : (pos : ℤ) < data.length)
    (hwrite : file.writes i = none) (last : List LogEvent) :
    ¬ Records data pos (writeLoop file memory data.length i pos ++ last) := by
  intro hrecords
  have hmore : (pos : ℤ) - 1 < data.length := by omega
  obtain ⟨e, rest, hnext, hreq⟩ := exists_writeLoop_cons file memory (i + 1) hmore
  rw [writeLoop_failed hleft hwrite, hnext] at hrecords
  have hle := hrecords.count_le [_, _] e (rest ++ last) rfl _ _ hreq
  rw [show fileBytes [.writeFailed 0 _, .errorWhileLogging] = [] from rfl] at hle
  simp only [List.length_nil] at hle
  omega

/-- The loop from the `i`-th call on, after calls that have not failed, records the rest of the
data exactly when the calls to come are harmless. -/
theorem records_writeLoop_iff (beyond : ℕ → UInt8) {last : List LogEvent}
    (happended : fileBytes last = []) (hrequest : ∀ e ∈ last, e.request? = none) :
    Records data (acceptedBefore file data.length i)
        (writeLoop file (buffer data beyond) data.length i (acceptedBefore file data.length i) ++
          last) ↔ Harmless file data i := by
  induction hm : (file.settled - i) + (data.length - acceptedBefore file data.length i)
    using Nat.strong_induction_on generalizing i with
  | h m ih =>
    by_cases hleft : acceptedBefore file data.length i < data.length
    · have hleft' : (acceptedBefore file data.length i : ℤ) < data.length := by omega
      have hcount : ((data.length : ℤ) - acceptedBefore file data.length i).toNat =
          data.length - acceptedBefore file data.length i := by omega
      rw [harmless_iff hleft]
      cases hwrite : file.writes i with
      | none =>
        constructor
        · intro hrecords
          exact absurd hrecords (not_records_of_failed hleft' hwrite last)
        · rintro ⟨⟨k, hk, -⟩, -⟩
          cases hk
      | some k =>
        have hwritten : min (k + 1) (data.length - acceptedBefore file data.length i) ≤
            data.length := by omega
        have hnext := acceptedBefore_succ hleft hwrite
        have hih := ih _ (by omega) (i := i + 1) rfl
        rw [hnext, Int.natCast_add] at hih
        rw [writeLoop_accepted hleft' hwrite, hcount, List.cons_append, Records.write_iff,
          bytesAt_buffer beyond hwritten, List.length_take_of_le hwritten, hih]
        constructor
        · rintro ⟨-, -, hpre, hrest⟩
          exact ⟨⟨k, rfl, hpre⟩, hrest⟩
        · rintro ⟨⟨k', hk', hpre⟩, hrest⟩
          obtain rfl := Option.some.inj hk'
          exact ⟨by omega, by omega, hpre, hrest⟩
    · rw [writeLoop_done (by omega), List.nil_append]
      constructor
      · intro _ j hj hlt
        have hle := le_acceptedBefore hj (Nat.le_of_not_lt hleft)
        omega
      · intro _
        exact .of_length_le (Nat.le_of_not_lt hleft) happended hrequest

end Harmless

/-- For both authenticators, every attestation and every file: the attestation is recorded exactly,
with every call of `write` inside it and asking for no more than what is left, exactly when no call
fails before the end and the bytes that each call accepts from the front are also those at the
position reached. -/
theorem logAttestation_records_iff (file : LogFile) (data : List UInt8) (beyond : ℕ → UInt8)
    (cnt : ℤ) :
    (Records data 0
        (AuthSgxWithPersistency.logAttestation file data.length (buffer data beyond)) ↔
      Harmless file data 0) ∧
    (Records data 0
        (AuthSgxWithRollback.logAttestation file data.length (buffer data beyond) cnt).1 ↔
      Harmless file data 0) := by
  have hloop {last : List LogEvent} (happended : fileBytes last = [])
      (hrequest : ∀ e ∈ last, e.request? = none) :
      Records data 0 (writeLoop file (buffer data beyond) data.length 0 0 ++ last) ↔
        Harmless file data 0 := records_writeLoop_iff (i := 0) beyond happended hrequest
  exact ⟨hloop rfl (by simp [LogEvent.request?]), hloop rfl (by simp [LogEvent.request?])⟩

/-- A file whose calls accept one byte each. -/
def LogFile.byByte : LogFile := ⟨fun _ => some 0, 0, fun _ _ => Option.some_ne_none 0⟩

/-- When the first call accepts one of two bytes, the second call appends it again. -/
theorem logAttestation_repeats_byte :
    fileBytes (AuthSgxWithPersistency.logAttestation .byByte 2 (buffer [1, 2] fun _ => 0)) =
      [1, 1] ∧
    fileBytes (AuthSgxWithRollback.logAttestation .byByte 2 (buffer [1, 2] fun _ => 0) 0).1 =
      [1, 1] := by
  decide +kernel

end TeeReplication
