import TeeReplication.Chain.Streams
import TeeReplication.Foundations.Confluence

/-!
# How an experiment on the chain ends

Every step of the chain brings it one step closer to its end: a request is sent, or it
is handled by the middle or the tail, or its acknowledgement by the head, or one of the
two loops returns that do not return with a request. All interleavings have the same
length and the same outcome, in which everybody has returned and nothing is left.
-/

namespace TeeReplication.Chain

variable {S : Setup} {s s' : (threads S).State} {c c' : Cluster} {a : Action}
  {events : List Event}

/-- A loop of an experiment with frames in flight to it waits for them. -/
theorem Follows.attended (hs : Follows s c) (hfeed : S.feed = .sender)
    (hc : (chain S Network.fifo).Reachable c) {k : Link} (hflight : s.net.inFlight k ≠ []) :
    (threads S).waiting k.reader (s.locals k.reader) = true := by
  have haccount := Cluster.account_of_reachable hfeed hc
  have hsound := Sound.of_reachable hc
  rw [hs.net] at hflight
  have hhead := haccount.head_le_tail
  have htail := haccount.tail_le_middle
  have hmiddle := haccount.middle_lt_i
  have hi := haccount.i_le
  cases k with
  | toMiddle =>
    rw [haccount.toMiddle, Ne, List.map_eq_nil_iff, ← List.length_eq_zero_iff, length_range]
      at hflight
    have hrunning : c.middle.status = .running :=
      hsound.middle.resolve_right fun ⟨_, hlast⟩ => by omega
    exact Middle.waiting_iff.mpr ((congrArg Process.status hs.middle).trans hrunning)
  | toTail =>
    have htail : s.locals .tail = c.tail :=
      hs.tail.resolve_right fun ⟨_, hended⟩ => hflight hended.inFlight
    exact Tail.waiting_iff.mpr ((congrArg Process.status htail).trans hsound.tail)
  | toHead =>
    rw [haccount.toHead, Ne, List.map_eq_nil_iff, ← List.length_eq_zero_iff, length_range]
      at hflight
    have hrunning : c.head.status = .running :=
      hsound.head.resolve_right fun ⟨_, hlast⟩ => by omega
    have hnext : c.head.state.cmtIdx + 1 ≠ nbRequests := by omega
    have hcmt := congrArg (fun p : Process State => p.state.cmtIdx) hs.finale
    exact Head.waiting_iff.mpr ⟨(congrArg Process.status hs.finale).trans hrunning,
      fun hlast => hnext (hcmt ▸ hlast)⟩

/-- A head that has reached the last request can return. -/
theorem Head.finish_isSome {h : Hmac} {p : Process State} (hrunning : p.status = .running)
    (hlast : p.state.cmtIdx + 1 = nbRequests) :
    ((Head.receiverFinale h).finish p).isSome = true := by
  simp [EventLoop.finish, Head.receiverFinale, Head.receiverFinaleHead, hrunning, hlast]

/-- Everybody has committed every request and has returned, and nothing is left. -/
structure Completed (s : (threads S).State) (c : Cluster) : Prop where
  /-- Everybody has committed every request. -/
  finished : c.Finished
  /-- Everybody has returned. -/
  returned : ∀ t, (threads S).returned t (s.locals t) = true
  /-- Nothing is on its way. -/
  inFlight : ∀ k, s.net.inFlight k = []

/-- Where nothing can move any more, the experiment is complete. -/
theorem Follows.completed_of_stuck (hs : Follows s c) (hfeed : S.feed = .sender)
    (hc : (chain S Network.fifo).Reachable c)
    (hstuck : ∀ m, (threads S).step Net.framing s m = none) : Completed s c := by
  have haccount := Cluster.account_of_reachable hfeed hc
  have hsound := Sound.of_reachable hc
  have hin := InStep.of_reachable hc
  have hflight (k : Link) : s.net.inFlight k = [] := by
    by_contra hne
    exact Threads.step_deliver_ne_none hne (hs.attended hfeed hc hne) (hstuck (.deliver k))
  have hnone : S.feed.request (s.locals .sender) = none :=
    Option.map_eq_none_iff.mp (Option.map_eq_none_iff.mp (hstuck (.act .sender)))
  have hlast : (c.i : ℤ) = nbRequests := by
    have hi := haccount.i_le
    by_contra hne
    have hlt : (c.i : ℤ) < nbRequests := by omega
    rw [hs.sender, hfeed] at hnone
    exact Option.some_ne_none _ ((if_pos hlt).symm.trans hnone)
  have hempty (k : Link) : c.net.inFlight k = [] := by
    rw [← hs.net]
    exact hflight k
  have hmiddle : c.middle.state.cmtIdx = nbRequests - 1 := by
    have hmiddle := hempty .toMiddle
    have hlt := haccount.middle_lt_i
    rw [haccount.toMiddle, List.map_eq_nil_iff, ← List.length_eq_zero_iff, length_range] at hmiddle
    omega
  have htail := (hin.tail_eq_middle (hempty .toTail)).trans hmiddle
  have hhead := (hin.head_eq_tail (hempty .toHead)).trans htail
  have hreturned : c.middle.status = .returned :=
    hin.middle_returned hsound (by omega)
  refine ⟨⟨hmiddle, htail, hhead⟩, ?_, hflight⟩
  intro t
  cases t with
  | sender => exact Option.isNone_iff_eq_none.mpr hnone
  | middle => exact beq_iff_eq.mpr ((congrArg Process.status hs.middle).trans hreturned)
  | tail =>
    rcases hs.tail with htail | ⟨htail, -⟩
    · -- the end of its stream makes it return
      have hover : (threads S).Over s.locals .toTail := by
        intro t ht
        obtain rfl := List.mem_singleton.mp ht
        exact beq_iff_eq.mpr ((congrArg Process.status hs.middle).trans hreturned)
      have hwait : (threads S).waiting .tail (s.locals .tail) = true :=
        Tail.waiting_iff.mpr ((congrArg Process.status htail).trans hsound.tail)
      exact absurd (hstuck (.eof .toTail))
        (Threads.step_eof_ne_none (hflight .toTail) hover hwait)
    · exact beq_iff_eq.mpr (congrArg Process.status htail)
  | finale =>
    refine beq_iff_eq.mpr ((congrArg Process.status hs.finale).trans ?_)
    refine (hsound.head.resolve_left fun hrunning => ?_).1
    have hstay : S.head.finish (s.locals .finale) = none :=
      Option.map_eq_none_iff.mp (Option.map_eq_none_iff.mp (hstuck (.act .finale)))
    rw [hs.finale] at hstay
    have hfinish := Head.finish_isSome (h := S.hmac) hrunning (by omega)
    exact absurd (hfinish.symm.trans (congrArg Option.isSome hstay)) (by decide)

/-- The steps of the chain taken. -/
def Cluster.progress (c : Cluster) : ℕ :=
  c.i + (c.net.delivered .toMiddle).length + (c.net.delivered .toTail).length +
    (c.net.delivered .toHead).length + c.head.status.returns

/-- Every move of the chain is one more. -/
theorem Cluster.Move.progress (hmove : c.Move S Network.fifo a c' events) (hin : InStep S c) :
    c'.progress = c.progress + 1 := by
  cases hmove with
  | send hpair =>
    simp only [Cluster.progress, Network.delivered_sendAll]
    omega
  | middle | tail =>
    simp [Cluster.progress]
    omega
  | @head d b p events hd hpolicy hframe hreceive =>
    obtain ⟨k, hk, -, rfl⟩ := hin.exists_ack (next_of_fifo hd hpolicy hframe)
    obtain ⟨⟨hrunning, -⟩, rfl, -⟩ := Head.receive_recvFrame hk hreceive
    simp [Cluster.progress, hrunning, EventLoop.enter]
    omega
  | finishHead hfinish =>
    obtain ⟨hrunning, -, rfl, -⟩ := Head.finish_eq_some hfinish
    simp [Cluster.progress, hrunning, Status.returns]

/-- The requests that the sender has sent. -/
def requestsSent (s : (threads S).State) : ℕ := s.locals .sender

/-- The steps of the threads taken. -/
def progress (s : (threads S).State) : ℕ :=
  requestsSent s + (s.net.delivered .toMiddle).length + (s.net.delivered .toTail).length +
    (s.net.delivered .toHead).length + (Process.status (s.locals .finale)).returns +
    (Process.status (s.locals .tail)).returns

/-- They are those of the chain, and the return of the tail. -/
theorem Follows.progress_eq (hs : Follows s c) :
    progress s = c.progress + (Process.status (s.locals .tail)).returns := by
  have hsender : requestsSent s = c.i := hs.sender
  have hfinale : Process.status (s.locals .finale) = c.head.status :=
    congrArg Process.status hs.finale
  rw [progress, hsender, hfinale, hs.net, Cluster.progress]

/-- Every step is one more. -/
theorem Follows.progress_step (hs : Follows s c) (hc : (chain S Network.fifo).Reachable c)
    {m : Move Thread Link} (hstep : (threads S).step Net.framing s m = some (s', events)) :
    progress s' = progress s + 1 := by
  rcases hs.step hc hstep with ⟨a, c', hc', hs', htail⟩ | ⟨-, htail, hs', htail', -⟩
  · have hmove := (Cluster.move_of_step hc').progress (InStep.of_reachable hc)
    have hsame : Process.status (s'.locals .tail) = Process.status (s.locals .tail) := by
      rcases hs.tail_status hc with ⟨heq, hstatus⟩ | ⟨hne, hstatus⟩
      · rw [hstatus]
        exact ((hs'.tail_status (hc.next hc')).resolve_right fun h => h.1 (htail.mpr heq)).2
      · rw [hstatus]
        exact ((hs'.tail_status (hc.next hc')).resolve_left fun h => hne (htail.mp h.1)).2
    rw [hs'.progress_eq, hs.progress_eq, hsame, hmove]
    omega
  · have hbefore : Process.status (s.locals .tail) = .running :=
      (congrArg Process.status htail).trans (Sound.of_reachable hc).tail
    have hafter : Process.status (s'.locals .tail) = .returned := congrArg Process.status htail'
    rw [hs'.progress_eq, hs.progress_eq, hbefore, hafter]
    rfl

/-- No more steps are taken than there are requests to be sent and handled three times, and two
loops to return. -/
theorem Follows.progress_le (hs : Follows s c) (hfeed : S.feed = .sender)
    (hc : (chain S Network.fifo).Reachable c) : (progress s : ℤ) ≤ 4 * nbRequests + 2 := by
  have haccount := Cluster.account_of_reachable hfeed hc
  have hmiddle := haccount.middle
  have htail := haccount.tail
  have hhead := haccount.head
  have hle := haccount.head_le_tail
  have hle' := haccount.tail_le_middle
  have hlt := haccount.middle_lt_i
  have hi := haccount.i_le
  have hreturn := Status.returns_le c.head.status
  have hreturn' := Status.returns_le (Process.status (s.locals .tail))
  rw [hs.progress_eq, Cluster.progress]
  push_cast
  omega

/-- When an experiment is complete, all of them have been taken. -/
theorem Completed.progress_eq (hcompleted : Completed s c) (hs : Follows s c)
    (hfeed : S.feed = .sender) (hc : (chain S Network.fifo).Reachable c) :
    (progress s : ℤ) = 4 * nbRequests + 2 := by
  have haccount := Cluster.account_of_reachable hfeed hc
  have hmiddle := haccount.middle
  have htail := haccount.tail
  have hhead := haccount.head
  have hlt := haccount.middle_lt_i
  have hi := haccount.i_le
  have hfinished := hcompleted.finished
  have hlast := hfinished.middle
  have hlast' := hfinished.tail
  have hlast'' := hfinished.head
  have hreturn : c.head.status = .returned :=
    (congrArg Process.status hs.finale).symm.trans (beq_iff_eq.mp (hcompleted.returned .finale))
  have hreturn' : Process.status (s.locals .tail) = .returned :=
    beq_iff_eq.mp (hcompleted.returned .tail)
  rw [hs.progress_eq, Cluster.progress, hreturn, hreturn', Status.returns]
  push_cast
  omega

section Experiment

variable (hmac : Hmac) (tailNodeId : Int32)

/-- The experiment stops on links that hand over whole frames. -/
theorem linked_halts :
    ((threads (.experiment hmac tailNodeId)).linked Net.framing).Halts fun _ _ => True := by
  refine Machine.halts_of_count progress (4 * nbRequests + 2).toNat ?_ ?_
  · intro s m s' events hs hstep
    obtain ⟨c, hc, hfollows⟩ := linked_follows hs
    exact hfollows.progress_step hc hstep
  · intro s hs
    obtain ⟨c, hc, hfollows⟩ := linked_follows hs
    have hle := hfollows.progress_le rfl hc
    omega

/-- Every interleaving of an experiment on the chain comes to its end after the same number of
steps, and only there: four for each request, one for the head to return, and one for the tail. -/
theorem chain_experiment_length {moves : List (Move Thread Link)}
    {s : (threads (.experiment hmac tailNodeId)).State}
    (hexec : ((threads (.experiment hmac tailNodeId)).linked Net.framing).exec
      ⟨Thread.start, .empty⟩ moves = some s) :
    (moves.length : ℤ) ≤ 4 * nbRequests + 2 ∧
      ((∀ m, (threads (.experiment hmac tailNodeId)).step Net.framing s m = none) ↔
        (moves.length : ℤ) = 4 * nbRequests + 2) := by
  have h := Machine.reachable_of_exec hexec
  obtain ⟨c, hc, hfollows⟩ := linked_follows h
  have hlength : progress s = moves.length := by
    refine Machine.count_eq_length progress rfl ?_ hexec
    intro s m s' events hs hstep
    obtain ⟨c, hc, hfollows⟩ := linked_follows hs
    exact hfollows.progress_step hc hstep
  rw [← hlength]
  refine ⟨hfollows.progress_le rfl hc, fun hstuck => ?_, fun hall m => ?_⟩
  · exact (hfollows.completed_of_stuck rfl hc hstuck).progress_eq hfollows rfl hc
  · cases hstep : (threads (.experiment hmac tailNodeId)).step Net.framing s m with
    | none => rfl
    | some r =>
      obtain ⟨s', events⟩ := r
      have hnext := hfollows.progress_step hc hstep
      obtain ⟨c', hc', hfollows'⟩ := linked_follows (h.next hstep)
      have hbound := hfollows'.progress_le rfl hc'
      omega

/-- After its first step an experiment is not over. -/
theorem chain_experiment_length_send : ∃ s,
    ((threads (.experiment zeroHmac 2)).linked Net.framing).exec ⟨Thread.start, .empty⟩
        [.act .sender] = some s ∧
      ∃ m, (threads (.experiment zeroHmac 2)).step Net.framing s m ≠ none := by
  have hrun : (((threads (.experiment zeroHmac 2)).linked Net.framing).exec
      ⟨Thread.start, .empty⟩ [.act .sender]).isSome = true := by decide +kernel
  obtain ⟨s, hexec⟩ := Option.isSome_iff_exists.mp hrun
  have hpos := nbRequests_pos
  refine ⟨s, hexec, ?_⟩
  by_contra! hall
  have hlength := (chain_experiment_length zeroHmac 2 hexec).2.mp hall
  rw [List.length_singleton] at hlength
  omega

/-- Requests go down the chain, and acknowledgements come last. -/
def Link.rank : Link → ℕ
  | .toMiddle => 2
  | .toTail => 1
  | .toHead => 0

/-- The streams of the chain flow: the head's loop reads acknowledgements and writes nothing. -/
theorem flows : (threads (.experiment hmac tailNodeId)).Flows Net.framing Link.rank where
  lower k k' h := by
    cases k <;> cases k' <;> first | decide | cases h
  attended s hs k hflight := by
    obtain ⟨c, hc, hfollows⟩ := linked_follows hs
    exact Or.inl (hfollows.attended rfl hc hflight)

instance : Fintype Thread where
  elems := {.sender, .middle, .tail, .finale}
  complete t := by cases t <;> decide

instance : Fintype Link where
  elems := {.toMiddle, .toTail, .toHead}
  complete k := by cases k <;> decide

/-- Where nothing can happen over TCP but negative results, the experiment is complete. -/
theorem finished_of_stuck {capacity : Link → ℕ} (hcapacity : ∀ k, 0 < capacity k)
    {w : (threads (.experiment hmac tailNodeId)).Wired Net.framing}
    (hw : ((threads (.experiment hmac tailNodeId)).overStreams Net.framing capacity).Reachable w)
    (hstuck : ((threads (.experiment hmac tailNodeId)).overStreams Net.framing capacity).Stuck
      (fun _ call => call.Productive) w) :
    (∃ c, (chain (.experiment hmac tailNodeId) Network.fifo).Reachable c ∧ OnStreams w c ∧
        c.Finished) ∧
      (∀ t, (threads (.experiment hmac tailNodeId)).returned t (w.locals t) = true) ∧
      (∀ k, w.unread k = []) ∧ ∀ t, w.outbox t = [] := by
  obtain ⟨s, hs, hcarries⟩ := (Threads.overStreams_refines (allFramed _)).reachable hw
  obtain ⟨c, hc, hfollows⟩ := linked_follows hs
  obtain ⟨hnone, -, hunread, houtbox⟩ :=
    hcarries.stuck hcapacity hstuck (flows hmac tailNodeId) (allFramed _) hs
  have hcompleted := hfollows.completed_of_stuck rfl hc fun m => hnone m trivial
  refine ⟨⟨c, hc, .of_carries hcarries hfollows, hcompleted.finished⟩, ?_, hunread, houtbox⟩
  rw [hcarries.locals]
  exact hcompleted.returned

/-- Over TCP with buffers of any size an experiment on the chain completes. As long as `recv` does
not give negative results forever it comes to an end, and there every request is committed by
everybody, the four loops have returned, the tail at the end of its stream, and no byte is left. -/
theorem chainStreams_completes (capacity : Link → ℕ) (hcapacity : ∀ k, 0 < capacity k) :
    ((threads (.experiment hmac tailNodeId)).overStreams Net.framing capacity).Halts
        (fun _ call => call.Productive) ∧
      ∀ w, ((threads (.experiment hmac tailNodeId)).overStreams Net.framing capacity).Reachable w →
        ((threads (.experiment hmac tailNodeId)).overStreams Net.framing capacity).Stuck
          (fun _ call => call.Productive) w →
        (∃ c, (chain (.experiment hmac tailNodeId) Network.fifo).Reachable c ∧ OnStreams w c ∧
          c.Finished) ∧
        (∀ t, (threads (.experiment hmac tailNodeId)).returned t (w.locals t) = true) ∧
        (∀ k, w.unread k = []) ∧ ∀ t, w.outbox t = [] := by
  constructor
  · exact Threads.overStreams_halts (allFramed _) (linked_halts hmac tailNodeId)
  · intro w hw hstuck
    exact finished_of_stuck hmac tailNodeId hcapacity hw hstuck

/-- One byte of room on every link is enough: some run comes to an end, with everything finished
and no byte left. -/
theorem chainStreams_completes_one_byte :
    ((threads (.experiment zeroHmac 2)).overStreams Net.framing fun _ => 1).Halts
        (fun _ call => call.Productive) ∧
      ∃ w, ((threads (.experiment zeroHmac 2)).overStreams Net.framing fun _ => 1).Reachable w ∧
        (∃ c, (chain (.experiment zeroHmac 2) Network.fifo).Reachable c ∧ OnStreams w c ∧
          c.Finished) ∧
        (∀ t, (threads (.experiment zeroHmac 2)).returned t (w.locals t) = true) ∧
        (∀ k, w.unread k = []) ∧ ∀ t, w.outbox t = [] := by
  obtain ⟨hhalts, hend⟩ := chainStreams_completes zeroHmac 2 (fun _ => 1) fun _ => Nat.one_pos
  obtain ⟨w, hw, hstuck⟩ := hhalts.exists_stuck
  exact ⟨hhalts, w, hw, hend w hw hstuck⟩

end Experiment

/-- A thread of the chain's programs does nothing but wait, take one turn or return. -/
theorem sequential (S : Setup) : (threads S).Sequential where
  reader_injective k k' h := by
    cases k <;> cases k' <;> first | rfl | cases h
  act_eq_none t l h := by
    cases t with
    | sender => cases h
    | middle | tail | finale => exact congrArg (Option.map _) (EventLoop.finish_of_waiting _ h)
  returned t l h := by
    cases t with
    | sender => exact ⟨congrArg (Option.map _) (Option.isNone_iff_eq_none.mp h), rfl⟩
    | middle | tail | finale =>
      have hreturned : Process.status l = .returned := beq_iff_eq.mp h
      exact ⟨congrArg (Option.map _) (EventLoop.finish_of_returned _ hreturned),
        EventLoop.waiting_of_returned _ hreturned⟩

/-- There is one end that every run of an experiment on the chain comes to, and it is complete
there. Every interleaving of the loops can be completed to a permutation of the same steps, and
every run over TCP that cannot go on has this end, whatever the buffers and the portions in which
the bytes were sent and received. -/
theorem chain_one_outcome (hmac : Hmac) (tailNodeId : Int32) :
    ∃ moves s c, (threads (.experiment hmac tailNodeId)).OneOutcome Net.framing moves s ∧
      (chain (.experiment hmac tailNodeId) Network.fifo).Reachable c ∧ Follows s c ∧
      Completed s c := by
  obtain ⟨moves, s, houtcome⟩ := (sequential (.experiment hmac tailNodeId)).oneOutcome
    (flows hmac tailNodeId) (allFramed _) (linked_halts hmac tailNodeId)
  obtain ⟨c, hc, hfollows⟩ :=
    linked_follows (Machine.reachable_of_exec houtcome.exec)
  exact ⟨moves, s, c, houtcome, hc, hfollows,
    hfollows.completed_of_stuck rfl hc fun m => houtcome.stuck m trivial⟩

end TeeReplication.Chain
