import TeeReplication.Chain.Moves
import TeeReplication.Foundations.Accepted

/-!
# FIFO links: the replicas mirror each other

On lossless links in order the middle passes on exactly the frames it has handled,
and the tail answers each of them. Whatever is sent to the middle, the three commit
indices are therefore the same function of what each replica has handled so far.
-/

namespace TeeReplication.Chain

variable {S : Setup} {c c' : Cluster} {a : Action} {events : List Event} {b : Frame}

/-- The acceptance test does one step of the accepted index. -/
theorem cmtIdx_afterAccept_eq (s : State) (reqId : ℤ) :
    (afterAccept s reqId).cmtIdx = acceptStep s.cmtIdx reqId := cmtIdx_afterAccept s reqId

/-- What holds of a chain on lossless links in order. -/
structure InStep (S : Setup) (c : Cluster) : Prop where
  /-- The sender has sent the first requests of its feed. -/
  sent_toMiddle : c.net.sent .toMiddle = (S.feed.requests c.i).map S.request
  /-- The middle has passed on every frame it has handled. -/
  sent_toTail : c.net.sent .toTail = c.net.delivered .toMiddle
  /-- The tail has acknowledged every frame with the index accepted so far. -/
  sent_toHead : c.net.sent .toHead = (history accepted (c.handled .toTail)).map S.ack
  /-- All links are in order. -/
  inOrder : ∀ k, c.net.InOrder k
  /-- The middle's commit index is the index accepted. -/
  middle : c.middle.state.cmtIdx = accepted (c.handled .toMiddle)
  /-- The tail's commit index is the index accepted. -/
  tail : c.tail.state.cmtIdx = accepted (c.handled .toTail)
  /-- The head's commit index is the index that the tail had accepted. -/
  head : c.head.state.cmtIdx =
    accepted ((c.handled .toTail).take (c.net.delivered .toHead).length)
  /-- The middle's commit index does not pass the last request. -/
  middle_lt : c.middle.state.cmtIdx < nbRequests
  /-- While the middle runs it has not reached the last request. -/
  middle_running : c.middle.status = .running → c.middle.state.cmtIdx + 1 ≠ nbRequests

namespace InStep

/-- Nothing has happened in a chain that starts. -/
theorem start : InStep S Cluster.start where
  sent_toMiddle := rfl
  sent_toTail := rfl
  sent_toHead := rfl
  inOrder _ := List.nil_prefix
  middle := rfl
  tail := rfl
  head := rfl
  middle_lt := by
    have hpos := nbRequests_pos
    change (-1 : ℤ) < nbRequests
    omega
  middle_running _ := by
    have hpos := nbRequests_pos
    change (-1 : ℤ) + 1 ≠ nbRequests
    omega

/-- What the tail has handled the middle has handled before. -/
theorem tail_isPrefix (hc : InStep S c) : c.handled .toTail <+: c.handled .toMiddle := by
  have horder := hc.inOrder .toTail
  rw [Network.InOrder, hc.sent_toTail] at horder
  exact horder.map frameId

/-- The head has handled no more acknowledgements than the tail has handled requests. -/
theorem head_length_le (hc : InStep S c) :
    (c.net.delivered .toHead).length ≤ (c.net.delivered .toTail).length := by
  have hle := (hc.inOrder .toHead).length_le
  rw [hc.sent_toHead, List.length_map, length_history] at hle
  simpa [Cluster.handled, ids] using hle

/-- The tail's commit index is at most the middle's. -/
theorem tail_le_middle (hc : InStep S c) : c.tail.state.cmtIdx ≤ c.middle.state.cmtIdx := by
  rw [hc.tail, hc.middle]
  exact accepted_mono hc.tail_isPrefix

/-- The head's commit index is at most the tail's. -/
theorem head_le_tail (hc : InStep S c) : c.head.state.cmtIdx ≤ c.tail.state.cmtIdx := by
  rw [hc.tail, hc.head]
  exact accepted_mono (List.take_prefix _ _)

/-- A frame on its way to the middle is a request of the feed. -/
theorem exists_request (hc : InStep S c) (hb : b ∈ c.net.sent .toMiddle) :
    ∃ pair, IsInt pair.1 ∧ IsInt pair.2 ∧ b = S.request pair := by
  rw [hc.sent_toMiddle] at hb
  obtain ⟨pair, hpair, rfl⟩ := List.mem_map.mp hb
  exact ⟨pair, (Feed.isInt_of_mem hpair).1, (Feed.isInt_of_mem hpair).2, rfl⟩

/-- So is a frame on its way to the tail. -/
theorem exists_request_toTail (hc : InStep S c) (hb : b ∈ c.net.sent .toTail) :
    ∃ pair, IsInt pair.1 ∧ IsInt pair.2 ∧ b = S.request pair := by
  rw [hc.sent_toTail] at hb
  exact hc.exists_request ((hc.inOrder .toMiddle).subset hb)

end InStep

/-- On links in order a delivery hands over the next frame. -/
theorem next_of_fifo {d : Delivery Link} {k : Link} (hd : d.target = k)
    (hpolicy : Network.fifo c.net d = true) (hframe : c.net.frame d = some b) :
    (c.net.sent k)[(c.net.delivered k).length]? = some b :=
  hd ▸ (Network.fifo_frame hpolicy hframe).2

/-- The next acknowledgement on its way to the head carries the index that the tail had accepted
after one request more than the head has handled. -/
theorem InStep.exists_ack (hc : InStep S c)
    (hnext : (c.net.sent .toHead)[(c.net.delivered .toHead).length]? = some b) :
    ∃ k, IsInt k ∧ k = accepted ((c.handled .toTail).take ((c.net.delivered .toHead).length + 1)) ∧
      b = S.ack k := by
  rw [hc.sent_toHead, List.getElem?_map, Option.map_eq_some_iff] at hnext
  obtain ⟨k, hk, rfl⟩ := hnext
  obtain ⟨-, rfl⟩ := (getElem?_history accepted).mp hk
  refine ⟨_, ?_, rfl, rfl⟩
  have hlo := (isAccepted_accepted
    ((c.handled .toTail).take ((c.net.delivered .toHead).length + 1))).1.1
  have hle := accepted_mono (List.take_prefix ((c.net.delivered .toHead).length + 1)
    (c.handled .toTail))
  have htail := hc.tail_le_middle
  have hlt := hc.middle_lt
  have hnb := nbRequests_lt
  rw [hc.tail] at htail
  exact ⟨by omega, by omega⟩

/-- Every move keeps the chain in step. -/
theorem InStep.move (hc : InStep S c) (hmove : c.Move S Network.fifo a c' events) :
    InStep S c' := by
  cases hmove with
  | send hpair =>
    refine { hc with
      sent_toMiddle := ?_, sent_toTail := ?_, sent_toHead := ?_,
      inOrder := fun k => (hc.inOrder k).sendAll _ _ }
    · simp [hc.sent_toMiddle, Feed.requests_succ hpair]
    · simpa using hc.sent_toTail
    · exact (Network.sent_sendAll_of_ne _ (by decide) _).trans hc.sent_toHead
  | @middle d b p events hd hpolicy hframe hreceive =>
    have hnext := next_of_fifo hd hpolicy hframe
    obtain ⟨pair, hid, hnode, rfl⟩ := hc.exists_request (List.mem_of_getElem? hnext)
    obtain ⟨hrunning, rfl, hsent, -⟩ := Middle.receive_recvFrame hid hreceive
    have hcmt : (afterAccept c.middle.state pair.1).cmtIdx =
        accepted (c.handled .toMiddle ++ [pair.1]) := by
      rw [cmtIdx_afterAccept_eq, accepted_concat, hc.middle]
    have hhandled : ids (((c.net.deliver .toMiddle (S.request pair)).sendAll .toTail
        (sentFrames events)).delivered .toMiddle) = c.handled .toMiddle ++ [pair.1] := by
      rw [Network.delivered_sendAll, c.ids_deliver, frameId_request hid]
    refine ⟨?_, ?_, ?_, fun k => ((hc.inOrder k).deliver hnext).sendAll _ _, ?_, hc.tail, hc.head,
      ?_, ?_⟩
    · simpa using hc.sent_toMiddle
    · rw [hsent, Network.sent_sendAll_self, Network.sent_deliver, Network.delivered_sendAll,
        Network.delivered_deliver_self, hc.sent_toTail]
      rfl
    · exact (Network.sent_sendAll_of_ne _ (by decide) _).trans hc.sent_toHead
    · exact hcmt.trans (congrArg accepted hhandled).symm
    · have hlt := hc.middle_lt
      have hne := hc.middle_running hrunning
      change (afterAccept c.middle.state pair.1).cmtIdx < nbRequests
      rw [cmtIdx_afterAccept]
      split <;> omega
    · intro hstill hlast
      change (if (afterAccept c.middle.state pair.1).cmtIdx + 1 = nbRequests then
        Status.returned else Status.running) = Status.running at hstill
      rw [if_pos hlast] at hstill
      cases hstill
  | @tail d b p events hd hpolicy hframe hreceive =>
    have hnext := next_of_fifo hd hpolicy hframe
    obtain ⟨pair, hid, hnode, rfl⟩ := hc.exists_request_toTail (List.mem_of_getElem? hnext)
    obtain ⟨hrunning, rfl, hsent, -⟩ := Tail.receive_recvFrame hid hreceive
    have hcmt : (afterAccept c.tail.state pair.1).cmtIdx =
        accepted (c.handled .toTail ++ [pair.1]) := by
      rw [cmtIdx_afterAccept_eq, accepted_concat, hc.tail]
    have hhandled : ids (((c.net.deliver .toTail (S.request pair)).sendAll .toHead
        (sentFrames events)).delivered .toTail) = c.handled .toTail ++ [pair.1] := by
      rw [Network.delivered_sendAll, c.ids_deliver, frameId_request hid]
    have hlength : (c.net.delivered .toHead).length ≤ (c.handled .toTail).length :=
      hc.head_length_le.trans (by simp [Cluster.handled, ids])
    refine ⟨?_, ?_, ?_, fun k => ((hc.inOrder k).deliver hnext).sendAll _ _, hc.middle, ?_, ?_,
      hc.middle_lt, hc.middle_running⟩
    · simpa using hc.sent_toMiddle
    · simpa using hc.sent_toTail
    · rw [Cluster.handled, hhandled, history_concat, List.map_append, List.map_singleton, hsent,
        Network.sent_sendAll_self, Network.sent_deliver, hc.sent_toHead, hcmt]
      rfl
    · exact hcmt.trans (congrArg accepted hhandled).symm
    · rw [Cluster.handled, hhandled, Network.delivered_sendAll,
        Network.delivered_deliver_of_ne _ (by decide), List.take_append_of_le_length hlength]
      exact hc.head
  | @head d b p events hd hpolicy hframe hreceive =>
    have hnext := next_of_fifo hd hpolicy hframe
    obtain ⟨k, hk, hidx, rfl⟩ := hc.exists_ack hnext
    obtain ⟨-, rfl, -⟩ := Head.receive_recvFrame hk hreceive
    refine ⟨hc.sent_toMiddle, ?_, hc.sent_toHead, fun k => (hc.inOrder k).deliver hnext,
      hc.middle, hc.tail, ?_, hc.middle_lt, hc.middle_running⟩
    · simpa using hc.sent_toTail
    · rw [Network.delivered_deliver_self, List.length_append, List.length_singleton]
      exact hidx
  | finishHead hfinish =>
    obtain ⟨-, -, rfl, -⟩ := Head.finish_eq_some hfinish
    exact { hc with }

/-- Every reachable chain on links in order is in step. -/
theorem InStep.of_reachable (h : (chain S Network.fifo).Reachable c) : InStep S c :=
  h.invariant (P := InStep S) .start fun _ _ _ _ hc hstep => hc.move (Cluster.move_of_step hstep)

/-- The replicas of a chain mirror each other on the sequence of indices `x` sent to the middle:
each has committed what its first frames allow, and no replica is ahead of the one before it. -/
structure Mirrors (x : List ℤ) (c : Cluster) : Prop where
  /-- The tail has handled no more frames than the middle. -/
  tail_length_le : (c.net.delivered .toTail).length ≤ (c.net.delivered .toMiddle).length
  /-- The head has handled no more frames than the tail. -/
  head_length_le : (c.net.delivered .toHead).length ≤ (c.net.delivered .toTail).length
  /-- The middle has committed what the frames it handled allow. -/
  middle : IsAccepted (x.take (c.net.delivered .toMiddle).length) c.middle.state.cmtIdx
  /-- So has the tail. -/
  tail : IsAccepted (x.take (c.net.delivered .toTail).length) c.tail.state.cmtIdx
  /-- So has the head. -/
  head : IsAccepted (x.take (c.net.delivered .toHead).length) c.head.state.cmtIdx
  /-- The head is not ahead of the tail. -/
  head_le_tail : c.head.state.cmtIdx ≤ c.tail.state.cmtIdx
  /-- The tail is not ahead of the middle. -/
  tail_le_middle : c.tail.state.cmtIdx ≤ c.middle.state.cmtIdx

/-- A chain in step mirrors every sequence that begins with what the middle has handled. -/
theorem InStep.mirrors (hc : InStep S c) {x : List ℤ} (hx : c.handled .toMiddle <+: x) :
    Mirrors x c := by
  have hlength (k : Link) : (c.handled k).length = (c.net.delivered k).length := by
    simp [Cluster.handled, ids]
  have hmiddle : x.take (c.net.delivered .toMiddle).length = c.handled .toMiddle := by
    rw [← hlength]
    exact (List.prefix_iff_eq_take.mp hx).symm
  have htail : x.take (c.net.delivered .toTail).length = c.handled .toTail := by
    rw [← hlength]
    exact (List.prefix_iff_eq_take.mp (hc.tail_isPrefix.trans hx)).symm
  have hhead : x.take (c.net.delivered .toHead).length =
      (c.handled .toTail).take (c.net.delivered .toHead).length := by
    rw [← htail, List.take_take, min_eq_left hc.head_length_le]
  refine ⟨?_, hc.head_length_le, ?_, ?_, ?_, hc.head_le_tail, hc.tail_le_middle⟩
  · rw [← hlength, ← hlength]
    exact hc.tail_isPrefix.length_le
  · rw [hmiddle, hc.middle]
    exact isAccepted_accepted _
  · rw [htail, hc.tail]
    exact isAccepted_accepted _
  · rw [hhead, hc.head]
    exact isAccepted_accepted _

/-- Between two states that mirror the same sequence no commit index goes down. -/
theorem Mirrors.cmtIdx_mono {x : List ℤ} (hc : Mirrors x c) (hc' : Mirrors x c')
    (hdelivered : ∀ k, c.net.delivered k <+: c'.net.delivered k) :
    c.middle.state.cmtIdx ≤ c'.middle.state.cmtIdx ∧
      c.tail.state.cmtIdx ≤ c'.tail.state.cmtIdx ∧ c.head.state.cmtIdx ≤ c'.head.state.cmtIdx := by
  have htake (k : Link) : List.Sublist (x.take (c.net.delivered k).length)
      (x.take (c'.net.delivered k).length) :=
    (List.take_prefix_take_left (hdelivered k).length_le).sublist
  exact ⟨hc.middle.mono hc'.middle (htake _), hc.tail.mono hc'.tail (htake _),
    hc.head.mono hc'.head (htake _)⟩

/-- What the middle has handled is the beginning of what its feed has sent. -/
theorem InStep.handled_isPrefix (hc : InStep S c) :
    c.handled .toMiddle <+: (S.feed.requests c.i).map Prod.fst := by
  have horder := (hc.inOrder .toMiddle).map frameId
  rw [hc.sent_toMiddle, List.map_map] at horder
  have hids : (S.feed.requests c.i).map (frameId ∘ S.request) =
      (S.feed.requests c.i).map Prod.fst :=
    List.map_congr_left fun pair hpair => frameId_request (Feed.isInt_of_mem hpair).1
  rwa [hids] at horder

/-- When what the middle has handled is a range of indices from zero, nobody refuses anything. -/
theorem InStep.refusals_eq_nil (hc : InStep S c) (hmove : c.Move S Network.fifo a c' events)
    {n : ℤ} (hx : c'.handled .toMiddle <+: Int.range 0 n) : refusals events = [] := by
  have hc' := hc.move hmove
  cases hmove with
  | send _ => rfl
  | middle hd hpolicy hframe hreceive =>
    have hnext := next_of_fifo hd hpolicy hframe
    obtain ⟨pair, hid, -, rfl⟩ := hc.exists_request (List.mem_of_getElem? hnext)
    obtain ⟨-, -, -, hrefusals⟩ := Middle.receive_recvFrame hid hreceive
    have hids : c.handled .toMiddle ++ [pair.1] <+: Int.range 0 n := by
      rw [← frameId_request hid, ← c.ids_deliver]
      exact hx
    rw [hrefusals, hc.middle, if_pos (eq_accepted_add_one hids)]
  | tail hd hpolicy hframe hreceive =>
    have hnext := next_of_fifo hd hpolicy hframe
    obtain ⟨pair, hid, -, rfl⟩ := hc.exists_request_toTail (List.mem_of_getElem? hnext)
    obtain ⟨-, -, -, hrefusals⟩ := Tail.receive_recvFrame hid hreceive
    have hids : c.handled .toTail ++ [pair.1] <+: Int.range 0 n := by
      rw [← frameId_request hid, ← c.ids_deliver]
      exact hc'.tail_isPrefix.trans hx
    rw [hrefusals, hc.tail, if_pos (eq_accepted_add_one hids)]
  | head hd hpolicy hframe hreceive =>
    obtain ⟨k, hk, -, rfl⟩ := hc.exists_ack (next_of_fifo hd hpolicy hframe)
    exact (Head.receive_recvFrame hk hreceive).2.2
  | finishHead hfinish => exact (Head.finish_eq_some hfinish).2.2.2

/-- Every replica of the chain has committed every request. -/
structure Cluster.Finished (c : Cluster) : Prop where
  /-- So has the middle. -/
  middle : c.middle.state.cmtIdx = nbRequests - 1
  /-- So has the tail. -/
  tail : c.tail.state.cmtIdx = nbRequests - 1
  /-- So has the head. -/
  head : c.head.state.cmtIdx = nbRequests - 1

/-- When all requests of the experiment have been sent and nothing is in flight, every replica has
committed every request. -/
theorem InStep.finished (hc : InStep S c)
    (hsent : (S.feed.requests c.i).map Prod.fst = Int.range 0 nbRequests)
    (hempty : ∀ k, c.net.inFlight k = []) : c.Finished := by
  have hdelivered (k : Link) := (hc.inOrder k).delivered_eq_sent (hempty k)
  have hmiddle : c.handled .toMiddle = Int.range 0 nbRequests := by
    rw [Cluster.handled, hdelivered, hc.sent_toMiddle, ← hsent, ids, List.map_map]
    exact List.map_congr_left fun pair hpair => frameId_request (Feed.isInt_of_mem hpair).1
  have htail : c.handled .toTail = c.handled .toMiddle := by
    rw [Cluster.handled, hdelivered, hc.sent_toTail]
    rfl
  have hhead : (c.net.delivered .toHead).length = (c.handled .toTail).length := by
    rw [hdelivered, hc.sent_toHead, List.length_map, length_history]
  have hall : accepted (Int.range 0 nbRequests) = nbRequests - 1 := by
    have hpos := nbRequests_pos
    rw [accepted_of_isPrefix List.prefix_rfl, length_range]
    omega
  refine ⟨?_, ?_, ?_⟩
  · rw [hc.middle, hmiddle, hall]
  · rw [hc.tail, htail, hmiddle, hall]
  · rw [hc.head, hhead, List.take_length, htail, hmiddle, hall]

/-- On FIFO links the replicas mirror each other on any list of requests and no commit index goes
down; on the requests of the head's sender nobody refuses anything, and once everything has been
sent and handled every replica has committed every request. -/
theorem chain_mirrors (hmac : Hmac) (tailNodeId : Int32) :
    (∀ (x : List (Int32 × Int32)) (c : Cluster),
      (chain ⟨hmac, tailNodeId, .ofList x⟩ Network.fifo).Reachable c →
        Mirrors (x.map fun p => p.1.toInt) c ∧
        ∀ a c' events, c.step ⟨hmac, tailNodeId, .ofList x⟩ Network.fifo a = some (c', events) →
          c.middle.state.cmtIdx ≤ c'.middle.state.cmtIdx ∧
          c.tail.state.cmtIdx ≤ c'.tail.state.cmtIdx ∧
          c.head.state.cmtIdx ≤ c'.head.state.cmtIdx) ∧
    ∀ c : Cluster, (chain ⟨hmac, tailNodeId, .sender⟩ Network.fifo).Reachable c →
      (∀ a c' events, c.step ⟨hmac, tailNodeId, .sender⟩ Network.fifo a = some (c', events) →
        refusals events = []) ∧
      (Feed.sender.request c.i = none → (∀ k, c.net.inFlight k = []) → c.Finished) := by
  constructor
  · intro x c h
    have hpre (n : ℕ) :
        ((Feed.ofList x).requests n).map Prod.fst <+: x.map fun p => p.1.toInt := by
      rw [Feed.requests_ofList, List.map_map, List.map_take]
      exact List.take_prefix _ _
    have hc := InStep.of_reachable h
    have hmirrors := hc.mirrors (hc.handled_isPrefix.trans (hpre _))
    constructor
    · exact hmirrors
    · intro a c' events hstep
      have hmove := Cluster.move_of_step hstep
      have hc' := hc.move hmove
      exact hmirrors.cmtIdx_mono (hc'.mirrors (hc'.handled_isPrefix.trans (hpre _)))
        hmove.delivered_isPrefix
  · intro c h
    have hc := InStep.of_reachable h
    constructor
    · intro a c' events hstep
      have hmove := Cluster.move_of_step hstep
      have hhandled := (hc.move hmove).handled_isPrefix
      rw [Feed.requests_sender] at hhandled
      exact hc.refusals_eq_nil hmove hhandled
    · intro hdone hempty
      apply hc.finished ?_ hempty
      have hlast : ¬ (c.i : ℤ) < nbRequests := by
        intro hlt
        simp [Feed.sender, hlt] at hdone
      rw [Feed.requests_sender, min_eq_right (by omega)]

/-- The theorem applies when a request is skipped and comes late, and to the head's first request
on its way. -/
theorem chain_mirrors_example :
    (∃ c, (chain ⟨zeroHmac, 2, .ofList [(0, 1), (2, 1), (1, 1)]⟩ Network.fifo).Reachable c ∧
      c.middle.state.cmtIdx = 1 ∧ c.tail.state.cmtIdx = 0 ∧ Mirrors [0, 2, 1] c) ∧
    ∃ c c' events, (chain ⟨zeroHmac, 2, .sender⟩ Network.fifo).Reachable c ∧
      c.step ⟨zeroHmac, 2, .sender⟩ Network.fifo (.deliver ⟨.toMiddle, .toMiddle, 0⟩) =
        some (c', events) ∧ refusals events = [] := by
  constructor
  · have hrun : ((chain ⟨zeroHmac, 2, .ofList [(0, 1), (2, 1), (1, 1)]⟩ Network.fifo).exec
        Cluster.start [.send, .send, .send, .deliver ⟨.toMiddle, .toMiddle, 0⟩,
          .deliver ⟨.toMiddle, .toMiddle, 1⟩, .deliver ⟨.toMiddle, .toMiddle, 2⟩,
          .deliver ⟨.toTail, .toTail, 0⟩]).map
        (fun c => (c.middle.state.cmtIdx, c.tail.state.cmtIdx)) = some (1, 0) := by
      decide +kernel
    obtain ⟨c, hexec, heq⟩ := Option.map_eq_some_iff.mp hrun
    obtain ⟨hmiddle, htail⟩ := Prod.mk.inj heq
    have hreach := Machine.reachable_of_exec hexec
    exact ⟨c, hreach, hmiddle, htail, ((chain_mirrors zeroHmac 2).1 _ c hreach).1⟩
  · have hrun : (((chain ⟨zeroHmac, 2, .sender⟩ Network.fifo).exec Cluster.start [.send]).bind
        fun c => c.step ⟨zeroHmac, 2, .sender⟩ Network.fifo
          (.deliver ⟨.toMiddle, .toMiddle, 0⟩)).isSome = true := by decide +kernel
    obtain ⟨⟨c', events⟩, hrun⟩ := Option.isSome_iff_exists.mp hrun
    obtain ⟨c, hexec, hstep⟩ := Option.bind_eq_some_iff.mp hrun
    have hreach := Machine.reachable_of_exec hexec
    exact ⟨c, c', events, hreach, hstep,
      ((chain_mirrors zeroHmac 2).2 c hreach).1 _ _ _ hstep⟩

end TeeReplication.Chain
