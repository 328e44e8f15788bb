import TeeReplication.Codec
import TeeReplication.Net.Socket

/-!
# The framed channel delivers messages

The bytes that a sender got accepted are read by its peer under any schedule of
chunks and negative results, after which the stream ends. What `read_n` reads does
not depend on the schedule. The peer therefore receives the messages whose frames
were accepted whole, in order, and nothing else.
-/

namespace TeeReplication.Net

/-- What the calls of `recv` do before the end of the stream. Only finitely many results are
negative. -/
structure RecvSchedule where
  /-- The `i`-th call receives `choice i + 1` bytes, if as many are requested and available, or
  gives a negative result. -/
  choice : ℕ → Option ℕ
  /-- The number of a call after the last negative result. -/
  settled : ℕ
  /-- There are no negative results from there on. -/
  isSome_of_le : ∀ i, settled ≤ i → (choice i).isSome = true

/-- The receiving end of a connection whose sender has closed it. -/
structure Stream where
  /-- The bytes that were accepted and have not been read. -/
  unread : List UInt8
  /-- The number of calls of `recv` so far. -/
  calls : ℕ

namespace RecvSchedule

variable (r : RecvSchedule)

/-- `recv` at the receiving end: zero once everything has been read. -/
def recv (s : Stream) (n : ℕ) : Stream × RecvOutcome :=
  if s.unread = [] then (⟨[], s.calls + 1⟩, .bytes [])
  else
    match r.choice s.calls with
    | none => (⟨s.unread, s.calls + 1⟩, .negative)
    | some bytes =>
      (⟨s.unread.drop (min (bytes + 1) n), s.calls + 1⟩, .bytes (s.unread.take (min (bytes + 1) n)))

variable {r} {s : Stream} {n : ℕ} {chunk : List UInt8}

@[simp] theorem calls_recv : (r.recv s n).1.calls = s.calls + 1 := by
  unfold recv
  split
  · rfl
  · split <;> rfl

/-- After a negative result everything is still unread, and the schedule is not settled. -/
theorem recv_negative (h : (r.recv s n).2 = .negative) :
    (r.recv s n).1.unread = s.unread ∧ s.calls < r.settled := by
  unfold recv at h ⊢
  split at h
  · cases h
  · rename_i hunread
    rw [if_neg hunread]
    split at h
    · rename_i hchoice
      refine ⟨rfl, Nat.lt_of_not_le fun hle => ?_⟩
      simpa [hchoice] using r.isSome_of_le _ hle
    · cases h

/-- Bytes received are the first unread ones, and no more than requested. -/
theorem recv_bytes (h : (r.recv s n).2 = .bytes chunk) :
    chunk ++ (r.recv s n).1.unread = s.unread ∧ chunk.length ≤ n := by
  unfold recv at h ⊢
  split at h
  · rename_i hunread
    rw [if_pos hunread]
    obtain rfl : [] = chunk := RecvOutcome.bytes.inj h
    exact ⟨hunread.symm, Nat.zero_le n⟩
  · rename_i hunread
    rw [if_neg hunread]
    split at h
    · cases h
    · rename_i bytes hchoice
      obtain rfl := RecvOutcome.bytes.inj h
      refine ⟨List.take_append_drop _ _, ?_⟩
      rw [List.length_take]
      omega

/-- The result zero means the end of the stream. -/
theorem unread_of_recv_zero (hn : 0 < n) (h : (r.recv s n).2 = .bytes []) : s.unread = [] := by
  by_contra hunread
  rw [recv, if_neg hunread] at h
  split at h
  · cases h
  · have hnil := RecvOutcome.bytes.inj h
    rw [List.take_eq_nil_iff] at hnil
    rcases hnil with hzero | hnil
    · omega
    · exact hunread hnil

/-- The receiving end as a socket. -/
def socket (r : RecvSchedule) : Socket Stream where
  recv := r.recv
  negatives s := r.settled - s.calls
  negatives_lt s n h := by
    have hlt := (recv_negative h).2
    rw [calls_recv]
    omega
  negatives_le s n chunk _ := by
    rw [calls_recv]
    omega
  length_le _ _ _ h := (recv_bytes h).2

end RecvSchedule

variable {r : RecvSchedule}

/-- However the bytes arrive, the loop of `read_n` completes the buffer from the unread bytes. -/
theorem readLoop_socket (n : ℕ) (s : Stream) (buffer : List UInt8) (retries : ℕ) :
    (readLoop r.socket n s buffer retries).1 = buffer ++ s.unread.take (n - buffer.length) ∧
      (readLoop r.socket n s buffer retries).2.unread = s.unread.drop (n - buffer.length) := by
  induction s, buffer, retries using readLoop.induct r.socket n with
  | case1 s buffer retries hroom h ih =>
    rw [readLoop_negative hroom h]
    rwa [show (r.socket.recv s _).1.unread = s.unread from (RecvSchedule.recv_negative h).1] at ih
  | case2 s buffer retries hroom h hretries =>
    have hnil : s.unread = [] := RecvSchedule.unread_of_recv_zero (by omega) h
    have hrest : (r.socket.recv s (n - buffer.length)).1.unread = s.unread :=
      (RecvSchedule.recv_bytes h).1
    rw [readLoop_zero hroom h, if_pos hretries, hnil]
    simpa using hrest.trans hnil
  | case3 s buffer retries hroom h hretries ih =>
    have hrest : (r.socket.recv s (n - buffer.length)).1.unread = s.unread :=
      (RecvSchedule.recv_bytes h).1
    rw [readLoop_zero hroom h, if_neg hretries]
    rwa [hrest] at ih
  | case4 s buffer retries hroom b chunk h ih =>
    have hle := (RecvSchedule.recv_bytes h).2
    have hrest : b :: chunk ++ (r.socket.recv s (n - buffer.length)).1.unread = s.unread :=
      (RecvSchedule.recv_bytes h).1
    have hroom' : n - (buffer ++ b :: chunk).length = n - buffer.length - (b :: chunk).length := by
      rw [List.length_append, Nat.sub_add_eq]
    rw [readLoop_bytes hroom h, ih.1, ih.2, hroom', ← hrest, List.take_append, List.drop_append,
      List.take_of_length_le hle, List.drop_of_length_le hle, List.append_assoc, List.nil_append]
    exact ⟨rfl, rfl⟩
  | case5 s buffer retries hfull =>
    rw [readLoop_full hfull, show n - buffer.length = 0 by omega]
    simp

/-- `read_n` reads the first unread bytes, as many as there are. -/
theorem readN_socket (n : ℕ) (s : Stream) :
    (readN r.socket n s).1 = s.unread.take n ∧ (readN r.socket n s).2.unread = s.unread.drop n :=
  readLoop_socket n s [] 0

/-- What is left of a stream behind its first frame. -/
def behindFrame (stream : List UInt8) : List UInt8 :=
  match destructMessage stream with
  | none => []
  | some sz => (stream.drop lengthSizeField).drop sz.toNat

/-- Four bytes are enough for a length, and it depends on no others. -/
theorem destructMessage_take (stream : List UInt8) (h : 4 ≤ stream.length) :
    ∃ sz, destructMessage stream = some sz ∧ destructMessage (stream.take 4) = some sz := by
  match stream, h with
  | b₀ :: b₁ :: b₂ :: b₃ :: _, _ => exact ⟨convertByteArrayToInt b₀ b₁ b₂ b₃, rfl, rfl⟩

/-- Fewer than four bytes have no length. -/
theorem destructMessage_of_lt {stream : List UInt8} (h : stream.length < 4) :
    destructMessage stream = none := by
  match stream, h with
  | [], _ | [_], _ | [_, _], _ | [_, _, _], _ => rfl

/-- `secure_recv` under any schedule takes the first frame off the stream. -/
theorem secureRecv_socket (s : Stream) :
    (secureRecv r.socket s).1 = recvFrame s.unread ∧
      (secureRecv r.socket s).2.unread = behindFrame s.unread := by
  obtain ⟨hdlen, hrest⟩ := readN_socket (r := r) lengthSizeField s
  have hlength : (s.unread.take lengthSizeField).length = min 4 s.unread.length :=
    List.length_take
  by_cases hshort : s.unread.length < 4
  · have hdrop : s.unread.drop lengthSizeField = [] := List.drop_of_length_le hshort.le
    rw [secureRecv_of_ne (by rw [hdlen, hlength, lengthSizeField]; omega), recvFrame, behindFrame,
      destructMessage_of_lt hshort]
    exact ⟨rfl, hrest.trans hdrop⟩
  · obtain ⟨sz, hsz, htake⟩ := destructMessage_take s.unread (by omega)
    obtain ⟨hbuf, hleft⟩ := readN_socket (r := r) sz.toNat (readN r.socket lengthSizeField s).2
    rw [hrest] at hbuf hleft
    rw [secureRecv_of_eq (by rw [hdlen, hlength, lengthSizeField]; omega) (hdlen ▸ htake),
      recvFrame, behindFrame, hsz]
    refine ⟨?_, hleft⟩
    dsimp only
    simp only [hbuf, List.length_take, min_eq_left_iff]

/-- What follows a frame in a stream is behind it. -/
theorem behindFrame_constructMessage {payload : List UInt8} (hlt : payload.length < 2 ^ 32)
    (rest : List UInt8) : behindFrame (constructMessage payload ++ rest) = rest := by
  have hsize : (UInt32.ofNat payload.length).toNat = payload.length :=
    UInt32.toNat_ofNat_of_lt' hlt
  have hdrop : (constructMessage payload ++ rest).drop lengthSizeField = payload ++ rest := rfl
  have hdestruct : destructMessage (constructMessage payload ++ rest) =
      some (UInt32.ofNat payload.length) := by
    rw [constructMessage, List.append_assoc, destructMessage_append]
  simp only [behindFrame, hdestruct, hdrop, hsize, List.drop_left]

/-- A frame was cut off: some of its bytes, perhaps none, but not all. -/
def IsCut (payload cut : List UInt8) : Prop :=
  cut <+: constructMessage payload ∧ cut.length < (constructMessage payload).length

/-- A frame that was cut off is not received, and nothing is left behind it. -/
theorem IsCut.not_received {payload cut : List UInt8} (hlt : payload.length < 2 ^ 32)
    (h : IsCut payload cut) : recvFrame cut = .failed ∧ behindFrame cut = [] := by
  obtain ⟨hpre, hshort⟩ := h
  by_cases hheader : cut.length < 4
  · rw [recvFrame, behindFrame, destructMessage_of_lt hheader]
    exact ⟨rfl, rfl⟩
  · have hsize : (UInt32.ofNat payload.length).toNat = payload.length :=
      UInt32.toNat_ofNat_of_lt' hlt
    -- the length field was not cut off, and it promises more than there is
    obtain ⟨body, rfl⟩ : convertIntToByteArray (UInt32.ofNat payload.length) <+: cut :=
      List.prefix_of_prefix_length_le (List.prefix_append _ _) hpre (by simpa using hheader)
    have hbody : body.length < payload.length := by
      simpa [constructMessage] using hshort
    have hdrop : (convertIntToByteArray (UInt32.ofNat payload.length) ++ body).drop
        lengthSizeField = body := rfl
    simp only [recvFrame, behindFrame, destructMessage_append, hdrop, hsize]
    exact ⟨dif_neg (by omega), List.drop_of_length_le hbody.le⟩

section Sender

variable (sends : ℕ → Option ℕ)

/-- The loop of `secure_send` gets all of the data accepted, or fails behind a proper prefix. -/
theorem sendLoop_accepted (i : ℕ) (data : List UInt8) :
    ((sendLoop sends i data).1 = true → (sendLoop sends i data).2.1 = data) ∧
      ((sendLoop sends i data).1 = false → (sendLoop sends i data).2.1 <+: data ∧
        (sendLoop sends i data).2.1.length < data.length) := by
  induction i, data using sendLoop.induct sends with
  | case1 i data hempty =>
    rw [sendLoop, if_pos hempty]
    exact ⟨fun _ => (List.eq_nil_of_length_eq_zero hempty).symm, fun h => Bool.noConfusion h⟩
  | case2 i data hempty hfail =>
    rw [sendLoop, if_neg hempty, hfail]
    refine ⟨fun h => Bool.noConfusion h, fun _ => ⟨List.nil_prefix, ?_⟩⟩
    exact Nat.pos_of_ne_zero hempty
  | case3 i data hempty bytes hsend ok accepted j hrest ih =>
    simp only [hrest] at ih
    rw [sendLoop, if_neg hempty, hsend]
    simp only [hrest]
    constructor
    · intro h
      rw [ih.1 h, List.take_append_drop]
    · intro h
      obtain ⟨⟨tail, htail⟩, hshort⟩ := ih.2 h
      constructor
      · exact ⟨tail, by rw [List.append_assoc, htail, List.take_append_drop]⟩
      · have hdata := congrArg List.length (List.take_append_drop (bytes + 1) data)
        rw [List.length_append] at hdata ⊢
        omega

/-- If no call of `send` fails, the loop of `secure_send` ends without a failure. -/
theorem sendLoop_ok {sends : ℕ → Option ℕ} (h : ∀ i, sends i ≠ none) (i : ℕ) (data : List UInt8) :
    (sendLoop sends i data).1 = true := by
  induction i, data using sendLoop.induct sends with
  | case1 i data hempty => rw [sendLoop, if_pos hempty]
  | case2 i data hempty hfail => exact absurd hfail (h i)
  | case3 i data hempty bytes hsend ok accepted j hrest ih =>
    rw [sendLoop, if_neg hempty, hsend]
    simp only [hrest] at ih ⊢
    exact ih

/-- The frames sent without a failure were accepted whole, in order, and unless all of them were,
the next one was cut off. -/
theorem sendAll_accepted (i : ℕ) (payloads : List (List UInt8)) :
    ∃ cut, (sendAll sends i payloads).1 =
        (payloads.take (sendAll sends i payloads).2).flatMap constructMessage ++ cut ∧
      ((sendAll sends i payloads).2 = payloads.length ∧ cut = [] ∨
        ∃ payload, payloads[(sendAll sends i payloads).2]? = some payload ∧ IsCut payload cut) := by
  induction payloads generalizing i with
  | nil => exact ⟨[], rfl, .inl ⟨rfl, rfl⟩⟩
  | cons payload rest ih =>
    obtain ⟨hok, hcut⟩ := sendLoop_accepted sends i (constructMessage payload)
    rcases hsend : sendLoop sends i (constructMessage payload) with ⟨ok, accepted, j⟩
    rw [hsend] at hok hcut
    cases ok with
    | false =>
      refine ⟨accepted, ?_, .inr ⟨payload, ?_, hcut rfl⟩⟩
      · simp [sendAll, secureSend, hsend]
      · simp [sendAll, secureSend, hsend]
    | true =>
      obtain ⟨cut, heq, hend⟩ := ih j
      have haccepted : accepted = constructMessage payload := hok rfl
      refine ⟨cut, ?_, ?_⟩
      · simp [sendAll, secureSend, hsend, haccepted, heq]
      · simpa [sendAll, secureSend, hsend] using hend

end Sender

/-- Nothing is received from a stream that has been read to its end. -/
theorem secureRecvs_nil (m : ℕ) {s : Stream} (h : s.unread = []) :
    secureRecvs r.socket m s = List.replicate m .failed := by
  induction m generalizing s with
  | zero => rfl
  | succ m ih =>
    obtain ⟨hresult, hrest⟩ := secureRecv_socket (r := r) s
    rw [h] at hresult hrest
    rw [secureRecvs, hresult, ih hrest]
    rfl

/-- Whole frames are received one by one, and the cut one behind them never. -/
theorem secureRecvs_frames (m : ℕ) {s : Stream} {cut : List UInt8} (payloads : List (List UInt8))
    (hlt : ∀ payload ∈ payloads, payload.length < 2 ^ 32)
    (hcut : recvFrame cut = .failed ∧ behindFrame cut = [])
    (h : s.unread = payloads.flatMap constructMessage ++ cut) :
    (secureRecvs r.socket (payloads.length + m) s).map RecvResult.pair =
      payloads.map (fun payload => (payload.length, some payload)) ++
        List.replicate m (0, none) := by
  obtain ⟨hresult, hrest⟩ := secureRecv_socket (r := r) s
  induction payloads generalizing s with
  | nil =>
    cases m with
    | zero => rfl
    | succ m =>
      rw [h] at hresult hrest
      have hfailed : secureRecvs r.socket (m + 1) s = List.replicate (m + 1) .failed := by
        rw [secureRecvs, hresult, List.flatMap_nil, List.nil_append, hcut.1,
          secureRecvs_nil m (hrest.trans hcut.2)]
        rfl
      rw [List.length_nil, Nat.zero_add, hfailed, List.map_replicate]
      rfl
  | cons payload rest ih =>
    have hpayload := hlt payload List.mem_cons_self
    rw [h, List.flatMap_cons, List.append_assoc] at hresult hrest
    rw [recvFrame_constructMessage hpayload] at hresult
    rw [behindFrame_constructMessage hpayload] at hrest
    obtain ⟨hresult', hrest'⟩ := secureRecv_socket (r := r) (secureRecv r.socket s).2
    have htail := ih (fun p hp => hlt p (List.mem_cons_of_mem _ hp)) hrest hresult' hrest'
    rw [List.length_cons, Nat.add_right_comm, secureRecvs, List.map_cons, htail, hresult]
    rfl

/-- The framed channel is a FIFO of messages. Whatever the calls of `send` accept and however the
bytes arrive, the calls of `secure_recv` return the payloads whose frames were accepted whole, in
order, and every later call fails. -/
theorem channel_fifo (r : RecvSchedule) (sends : ℕ → Option ℕ) (payloads : List (List UInt8))
    (hlt : ∀ payload ∈ payloads, payload.length < 2 ^ 32) (m : ℕ) :
    (∃ cut, (sendAll sends 0 payloads).1 =
        (payloads.take (sendAll sends 0 payloads).2).flatMap constructMessage ++ cut ∧
      ((sendAll sends 0 payloads).2 = payloads.length ∧ cut = [] ∨
        ∃ payload, payloads[(sendAll sends 0 payloads).2]? = some payload ∧ IsCut payload cut)) ∧
    (secureRecvs r.socket ((sendAll sends 0 payloads).2 + m)
        ⟨(sendAll sends 0 payloads).1, 0⟩).map RecvResult.pair =
      (payloads.take (sendAll sends 0 payloads).2).map
          (fun payload => (payload.length, some payload)) ++
        List.replicate m (0, none) := by
  obtain ⟨cut, haccepted, hend⟩ := sendAll_accepted sends 0 payloads
  refine ⟨⟨cut, haccepted, hend⟩, ?_⟩
  have hle : (sendAll sends 0 payloads).2 ≤ payloads.length := by
    rcases hend with ⟨hall, -⟩ | ⟨payload, hget, -⟩
    · exact hall.le
    · exact (List.getElem?_eq_some_iff.mp hget).1.le
  have hcut : recvFrame cut = .failed ∧ behindFrame cut = [] := by
    rcases hend with ⟨-, rfl⟩ | ⟨payload, hget, hcut⟩
    · exact ⟨rfl, rfl⟩
    · exact hcut.not_received (hlt payload (List.mem_of_getElem? hget))
  have hreceived := secureRecvs_frames (r := r) m (s := ⟨(sendAll sends 0 payloads).1, 0⟩)
    (payloads.take (sendAll sends 0 payloads).2)
    (fun payload hp => hlt payload (List.mem_of_mem_take hp)) hcut haccepted
  rwa [List.length_take, min_eq_left hle] at hreceived

/-- At most three bytes at a time, after one negative result. -/
def stuttering : RecvSchedule where
  choice i := if i = 1 then none else some 2
  settled := 2
  isSome_of_le i hi := by
    rw [if_neg (by omega)]
    rfl

/-- The third call of `send` leaves the second frame without its payload. -/
theorem channel_fifo_cut :
    sendAll (fun i => if i < 3 then some 3 else none) 0 [[1, 2], [3]] =
        ([0, 0, 0, 2, 1, 2, 0, 0, 0, 1], 1) ∧
      (secureRecvs stuttering.socket 2 ⟨[0, 0, 0, 2, 1, 2, 0, 0, 0, 1], 0⟩).map RecvResult.pair =
        [(2, some [1, 2]), (0, none)] := by
  have hfirst : constructMessage [1, 2] = [0, 0, 0, 2, 1, 2] := by decide
  have hsecond : constructMessage [3] = [0, 0, 0, 1, 3] := by decide
  have hsend : sendAll (fun i => if i < 3 then some 3 else none) 0 [[1, 2], [3]] =
      ([0, 0, 0, 2, 1, 2, 0, 0, 0, 1], 1) := by
    simp [sendAll, secureSend, sendLoop, hfirst, hsecond]
  have hreceived := (channel_fifo stuttering (fun i => if i < 3 then some 3 else none)
    [[1, 2], [3]] (by decide) 1).2
  rw [hsend] at hreceived
  exact ⟨hsend, hreceived⟩

end TeeReplication.Net
