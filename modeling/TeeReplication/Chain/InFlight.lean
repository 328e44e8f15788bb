import TeeReplication.Chain.Mirror

/-!
# What is under way in the chain

On FIFO links the frames in flight on a link of the chain are those between the commit
indices at its two ends, and no loop ever crashes. When nothing can move any more,
every replica has committed every request.
-/

namespace TeeReplication.Chain

variable {S : Setup} {c c' : Cluster} {a : Action} {events : List Event}

/-- No loop of the chain has crashed, and a loop that has returned has reached the last request. -/
structure Sound (c : Cluster) : Prop where
  /-- The middle runs or has returned at the last request. -/
  middle : c.middle.status = .running ∨
    c.middle.status = .returned ∧ c.middle.state.cmtIdx + 1 = nbRequests
  /-- The tail runs. -/
  tail : c.tail.status = .running
  /-- The head runs or has returned at the last request. -/
  head : c.head.status = .running ∨
    c.head.status = .returned ∧ c.head.state.cmtIdx + 1 = nbRequests

/-- Every move keeps the loops sound. -/
theorem Sound.move (hc : Sound c) (hstep : InStep S c)
    (hmove : c.Move S Network.fifo a c' events) : Sound c' := by
  cases hmove with
  | send hpair => exact { hc with }
  | @middle d b p events hd hpolicy hframe hreceive =>
    have hnext := next_of_fifo hd hpolicy hframe
    obtain ⟨pair, hid, -, rfl⟩ := hstep.exists_request (List.mem_of_getElem? hnext)
    obtain ⟨-, rfl, -, -⟩ := Middle.receive_recvFrame hid hreceive
    refine ⟨?_, hc.tail, hc.head⟩
    by_cases hlast : (afterAccept c.middle.state pair.1).cmtIdx + 1 = nbRequests
    · exact Or.inr ⟨if_pos hlast, hlast⟩
    · exact Or.inl (if_neg hlast)
  | @tail d b p events hd hpolicy hframe hreceive =>
    have hnext := next_of_fifo hd hpolicy hframe
    obtain ⟨pair, hid, -, rfl⟩ := hstep.exists_request_toTail (List.mem_of_getElem? hnext)
    obtain ⟨-, rfl, -, -⟩ := Tail.receive_recvFrame hid hreceive
    exact ⟨hc.middle, rfl, hc.head⟩
  | @head d b p events hd hpolicy hframe hreceive =>
    obtain ⟨k, hk, -, rfl⟩ := hstep.exists_ack (next_of_fifo hd hpolicy hframe)
    obtain ⟨-, rfl, -⟩ := Head.receive_recvFrame hk hreceive
    exact ⟨hc.middle, hc.tail, Or.inl rfl⟩
  | finishHead hfinish =>
    obtain ⟨-, hlast, rfl, -⟩ := Head.finish_eq_some hfinish
    exact ⟨hc.middle, hc.tail, Or.inr ⟨rfl, hlast⟩⟩

/-- The loops of every reachable chain on links in order are sound. -/
theorem Sound.of_reachable (h : (chain S Network.fifo).Reachable c) : Sound c := by
  have hboth : InStep S c ∧ Sound c := by
    refine h.invariant (P := fun c => InStep S c ∧ Sound c)
      ⟨.start, Or.inl rfl, rfl, Or.inl rfl⟩ ?_
    rintro c a c' events ⟨hstep, hc⟩ hmove
    have hmove := Cluster.move_of_step hmove
    exact ⟨hstep.move hmove, hc.move hstep hmove⟩
  exact hboth.2

/-- When the head has reached the last request, the middle has returned. -/
theorem InStep.middle_returned (hc : InStep S c) (hsound : Sound c)
    (hlast : c.head.state.cmtIdx + 1 = nbRequests) : c.middle.status = .returned := by
  have htail := hc.tail_le_middle
  have hhead := hc.head_le_tail
  have hmiddle := hc.middle_lt
  exact (hsound.middle.resolve_left fun hrunning =>
    hc.middle_running hrunning (by omega)).1

/-- With nothing in flight between them, the tail has committed what the middle has. -/
theorem InStep.tail_eq_middle (hc : InStep S c) (hempty : c.net.inFlight .toTail = []) :
    c.tail.state.cmtIdx = c.middle.state.cmtIdx := by
  rw [hc.tail, hc.middle, Cluster.handled, (hc.inOrder .toTail).delivered_eq_sent hempty,
    hc.sent_toTail, Cluster.handled]

/-- With nothing in flight between them, the head has committed what the tail has. -/
theorem InStep.head_eq_tail (hc : InStep S c) (hempty : c.net.inFlight .toHead = []) :
    c.head.state.cmtIdx = c.tail.state.cmtIdx := by
  rw [hc.head, hc.tail, (hc.inOrder .toHead).delivered_eq_sent hempty, hc.sent_toHead,
    List.length_map, length_history, List.take_length]

/-- The chain of an experiment, fed by the head's own sender. -/
abbrev Setup.experiment (hmac : Hmac) (tailNodeId : Int32) : Setup := ⟨hmac, tailNodeId, .sender⟩

/-- The frame of a request of the head. -/
def Setup.requestTo (S : Setup) (id : ℤ) : Frame := S.request (id, middleId)

/-- The head's first requests. -/
theorem Feed.requests_sender_of_le {n : ℕ} (h : (n : ℤ) ≤ nbRequests) :
    Feed.sender.requests n = (Int.range 0 n).map fun id => (id, middleId) := by
  induction n with
  | zero => rfl
  | succ n ih =>
    have hlt : (n : ℤ) < nbRequests := by omega
    have hnext : Feed.sender.request n = some ((n : ℤ), middleId) := if_pos hlt
    rw [Feed.requests_succ hnext, ih (by omega),
      map_range_succ (fun id => (id, middleId)) n]

/-- Accepting the indices in order gives the indices in order. -/
theorem history_accepted_range (n : ℕ) : history accepted (Int.range 0 n) = Int.range 0 n := by
  induction n with
  | zero => rfl
  | succ n ih =>
    rw [range_natCast_succ, history_concat, ih, ← range_natCast_succ,
      accepted_of_isPrefix List.prefix_rfl, length_range, range_natCast_succ]
    simp

/-- The frames in flight in an experiment. -/
structure Cluster.Account (S : Setup) (c : Cluster) : Prop where
  /-- Those to the middle are the requests that it has not committed. -/
  toMiddle : c.net.inFlight .toMiddle =
    (Int.range (c.middle.state.cmtIdx + 1) c.i).map S.requestTo
  /-- Those to the tail are the requests that only the middle has committed. -/
  toTail : c.net.inFlight .toTail =
    (Int.range (c.tail.state.cmtIdx + 1) (c.middle.state.cmtIdx + 1)).map S.requestTo
  /-- Those to the head are the acknowledgements that only the tail has committed. -/
  toHead : c.net.inFlight .toHead =
    (Int.range (c.head.state.cmtIdx + 1) (c.tail.state.cmtIdx + 1)).map S.ack
  /-- As many requests have been handled by the middle as it has committed. -/
  middle : c.middle.state.cmtIdx = (c.net.delivered .toMiddle).length - 1
  /-- So it is with the tail. -/
  tail : c.tail.state.cmtIdx = (c.net.delivered .toTail).length - 1
  /-- So it is with the head. -/
  head : c.head.state.cmtIdx = (c.net.delivered .toHead).length - 1
  /-- The head is not ahead of the tail. -/
  head_le_tail : c.head.state.cmtIdx ≤ c.tail.state.cmtIdx
  /-- The tail is not ahead of the middle. -/
  tail_le_middle : c.tail.state.cmtIdx ≤ c.middle.state.cmtIdx
  /-- The middle is not ahead of the sender. -/
  middle_lt_i : c.middle.state.cmtIdx < c.i
  /-- The sender stops after the last request. -/
  i_le : (c.i : ℤ) ≤ nbRequests

/-- The sender of an experiment does not go past the last request. -/
theorem i_le_of_reachable (hfeed : S.feed = .sender) (h : (chain S Network.fifo).Reachable c) :
    (c.i : ℤ) ≤ nbRequests := by
  refine h.invariant (P := fun c => (c.i : ℤ) ≤ nbRequests) nbRequests_pos.le ?_
  intro c a c' events hc hstep
  cases Cluster.move_of_step hstep with
  | send hpair =>
    rw [hfeed] at hpair
    change (if (c.i : ℤ) < nbRequests then _ else _) = _ at hpair
    split at hpair
    · push_cast
      omega
    · cases hpair
  | middle | tail | head | finishHead => exact hc

/-- The frames of a range without its first ones. -/
theorem inFlight_eq {k : Link} {f : ℤ → Frame} {n : ℕ}
    (hsent : c.net.sent k = (Int.range 0 n).map f) (hle : (c.net.delivered k).length ≤ n) :
    c.net.inFlight k = (Int.range (c.net.delivered k).length n).map f := by
  rw [Network.inFlight, hsent]
  exact drop_map_range f (by omega)

/-- The frames delivered are those of the first indices. -/
theorem delivered_eq {k : Link} {f : ℤ → Frame} {n : ℕ} (hin : c.net.InOrder k)
    (hsent : c.net.sent k = (Int.range 0 n).map f) :
    (c.net.delivered k).length ≤ n ∧
      c.net.delivered k = (Int.range 0 (c.net.delivered k).length).map f := by
  have hle := hin.length_le
  rw [hsent, List.length_map, length_range] at hle
  refine ⟨by omega, ?_⟩
  have htake := List.prefix_iff_eq_take.mp hin
  rw [hsent, ← range_append (Int.natCast_nonneg (c.net.delivered k).length) (by omega),
    List.map_append, List.take_left' (by simp)] at htake
  exact htake

/-- Everything that an experiment has under way is between the commit indices. -/
theorem Cluster.account_of_reachable (hfeed : S.feed = .sender)
    (h : (chain S Network.fifo).Reachable c) : c.Account S := by
  have hc := InStep.of_reachable h
  have hi := i_le_of_reachable hfeed h
  have hsent : c.net.sent .toMiddle = (Int.range 0 c.i).map S.requestTo := by
    rw [hc.sent_toMiddle, hfeed, Feed.requests_sender_of_le hi, List.map_map]
    rfl
  obtain ⟨hmiddleLe, hmiddle⟩ := delivered_eq (hc.inOrder .toMiddle) hsent
  have hsentTail := hc.sent_toTail.trans hmiddle
  obtain ⟨htailLe, -⟩ := delivered_eq (hc.inOrder .toTail) hsentTail
  have hx := hc.handled_isPrefix
  rw [hfeed, Feed.requests_sender] at hx
  have htail := hc.tail_isPrefix.trans hx
  have hlength (k : Link) : (c.handled k).length = (c.net.delivered k).length := by
    simp [Cluster.handled, ids]
  have hsentHead : c.net.sent .toHead =
      (Int.range 0 (c.net.delivered .toTail).length).map S.ack := by
    rw [hc.sent_toHead, eq_range_of_isPrefix htail, history_accepted_range, hlength]
  have hheadLe := (delivered_eq (hc.inOrder .toHead) hsentHead).1
  have hmiddleCmt : c.middle.state.cmtIdx = (c.net.delivered .toMiddle).length - 1 := by
    rw [hc.middle, accepted_of_isPrefix hx, hlength]
  have htailCmt : c.tail.state.cmtIdx = (c.net.delivered .toTail).length - 1 := by
    rw [hc.tail, accepted_of_isPrefix htail, hlength]
  have hheadCmt : c.head.state.cmtIdx = (c.net.delivered .toHead).length - 1 := by
    rw [hc.head, accepted_of_isPrefix ((List.take_prefix _ _).trans htail), List.length_take,
      hlength, min_eq_left hheadLe]
  refine ⟨?_, ?_, ?_, hmiddleCmt, htailCmt, hheadCmt, hc.head_le_tail, hc.tail_le_middle, by omega,
    hi⟩
  · rw [hmiddleCmt, Int.sub_add_cancel]
    exact inFlight_eq hsent hmiddleLe
  · rw [htailCmt, hmiddleCmt, Int.sub_add_cancel, Int.sub_add_cancel]
    exact inFlight_eq hsentTail htailLe
  · rw [hheadCmt, htailCmt, Int.sub_add_cancel, Int.sub_add_cancel]
    exact inFlight_eq hsentHead hheadLe

end TeeReplication.Chain
