import TeeReplication.Foundations.StreamProgress
import TeeReplication.Net.Framing
import TeeReplication.Raft.Completion

/-!
# The raft cluster over TCP

The five loops as threads of three processes, with the streams of `net/shared.cpp`
between them: every frame is sent by the loop of `secure_send` and received by that
of `secure_recv`, in any portions, through buffers of any size. The sockets that are
written to block; the ones that are read may give negative results. The cluster on
FIFO links is what is left when the calls of `send` and `recv` are not looked at.
-/

namespace TeeReplication.Raft

/-- The threads of the raft programs. -/
inductive Thread
  /-- The leader's `sender`. -/
  | sender
  /-- The `receiver` of a follower. -/
  | follower (f : FollowerId)
  /-- The leader's `receiver` for a follower. -/
  | receiver (f : FollowerId)
  deriving DecidableEq

/-- The local variables of a thread. -/
def Thread.Local : Thread → Type
  | .sender => Sender
  | .follower _ => Process Follower.Receiver
  | .receiver _ => Process Leader.Receiver

namespace Thread

/-- The local variables before the first turn. -/
def start (S : Setup) : (t : Thread) → t.Local
  | .sender => (⟨0, S.clusterInfo⟩ : Sender)
  | .follower _ => EventLoop.enter Follower.Receiver.init
  | .receiver _ => EventLoop.enter Leader.Receiver.init

/-- The sender sends its next frame; the other loops return if their exit test succeeds. -/
def act (S : Setup) : (t : Thread) → t.Local → Option (Turn t.Local Link UInt8 Event)
  | .sender, s => (Sender.advance S s).map fun r =>
      ⟨r.1, [(.request r.2, S.request r.2 r.1.i)], [.send (S.request r.2 r.1.i)]⟩
  | .follower f, p => ((S.follower f).finish p).map fun r => ⟨r.1, [], r.2⟩
  | .receiver _, p => (S.receiver.finish p).map fun r => ⟨r.1, [], r.2⟩

/-- The sender never calls `secure_recv`. -/
def waiting (S : Setup) : (t : Thread) → t.Local → Bool
  | .sender, _ => false
  | .follower f, p => (S.follower f).Waiting p
  | .receiver _, p => S.receiver.Waiting p

/-- One iteration of the loop on the result of `secure_recv`. -/
def handle (S : Setup) :
    (t : Thread) → t.Local → RecvResult → Option (Turn t.Local Link UInt8 Event)
  | .sender, _, _ => none
  | .follower f, p, i => ((S.follower f).receive p i).map fun r =>
      ⟨r.1, (sentFrames r.2).map fun b => (.ack f, b), r.2⟩
  | .receiver _, p, i => (S.receiver.receive p i).map fun r => ⟨r.1, [], r.2⟩

/-- The loop has been left. -/
def returned (S : Setup) : (t : Thread) → t.Local → Bool
  | .sender, s => (Sender.advance S s).isNone
  | .follower _, p => Process.status p == .returned
  | .receiver _, p => Process.status p == .returned

/-- The threads that the same `main` joins. -/
def process : Thread → List Thread
  | .follower f => [.follower f]
  | _ => [.sender, .receiver .one, .receiver .two]

end Thread

/-- The thread that writes to a link. -/
def Link.writer : Link → Thread
  | .request _ => .sender
  | .ack f => .follower f

/-- The thread that reads from a link. -/
def Link.reader : Link → Thread
  | .request f => .follower f
  | .ack f => .receiver f

/-- The programs of the cluster. -/
def threads (S : Setup) : Threads Thread Link UInt8 RecvResult Event where
  Local := Thread.Local
  start := Thread.start S
  act := Thread.act S
  waiting := Thread.waiting S
  handle := Thread.handle S
  returned := Thread.returned S
  process := Thread.process
  writer := Link.writer
  reader := Link.reader
  isSome_handle t l i := by
    cases t with
    | sender => rfl
    | follower f | receiver f =>
      rw [Thread.handle, Option.isSome_map]
      exact EventLoop.isSome_receive _ l i
  writer_of_act t l r h w hw := by
    cases t with
    | sender =>
      obtain ⟨r', -, rfl⟩ := Option.map_eq_some_iff.mp h
      obtain rfl := List.mem_singleton.mp hw
      rfl
    | follower f | receiver f =>
      obtain ⟨r', -, rfl⟩ := Option.map_eq_some_iff.mp h
      exact absurd hw List.not_mem_nil
  writer_of_handle t l i r h w hw := by
    cases t with
    | sender => cases h
    | follower f =>
      obtain ⟨r', -, rfl⟩ := Option.map_eq_some_iff.mp h
      obtain ⟨b, -, rfl⟩ := List.mem_map.mp hw
      rfl
    | receiver f =>
      obtain ⟨r', -, rfl⟩ := Option.map_eq_some_iff.mp h
      exact absurd hw List.not_mem_nil
  mem_process t := by
    cases t with
    | sender => decide
    | follower f => exact List.mem_singleton_self _
    | receiver f => cases f <;> decide

variable {S : Setup} {s s' : (threads S).State} {events : List Event} {f : FollowerId}

/-- The cluster that the threads make up. -/
def toCluster (s : (threads S).State) : Cluster where
  sender := s.locals .sender
  follower f := s.locals (.follower f)
  receiver f := s.locals (.receiver f)
  net := s.net

/-- A turn of the sender. -/
theorem toCluster_turn_sender (r : Turn Sender Link UInt8 Event) :
    toCluster (s.turn .sender r) =
      { toCluster s with sender := r.state, net := s.net.writeAll r.written } := by
  simp [toCluster, Threads.State.turn]

/-- A turn of a follower. -/
theorem toCluster_turn_follower (r : Turn (Process Follower.Receiver) Link UInt8 Event) :
    toCluster (s.turn (.follower f) r) = { toCluster s with
      follower := Function.update (toCluster s).follower f r.state
      net := s.net.writeAll r.written } := by
  have hfollower : (toCluster (s.turn (.follower f) r)).follower =
      Function.update (toCluster s).follower f r.state :=
    Function.update_comp_eq_of_injective' s.locals (fun _ _ => Thread.follower.inj) f r.state
  rw [← hfollower]
  simp [toCluster, Threads.State.turn]

/-- A turn of a receiver of the leader. -/
theorem toCluster_turn_receiver (r : Turn (Process Leader.Receiver) Link UInt8 Event) :
    toCluster (s.turn (.receiver f) r) = { toCluster s with
      receiver := Function.update (toCluster s).receiver f r.state
      net := s.net.writeAll r.written } := by
  have hreceiver : (toCluster (s.turn (.receiver f) r)).receiver =
      Function.update (toCluster s).receiver f r.state :=
    Function.update_comp_eq_of_injective' s.locals (fun _ _ => Thread.receiver.inj) f r.state
  rw [← hreceiver]
  simp [toCluster, Threads.State.turn]

/-- A follower with requests in flight runs. -/
theorem Lane.Ordered.follower_running {l : Lane} (hl : l.Ordered S f)
    (hflight : l.requests.drop l.received.length ≠ []) : l.follower.status = .running := by
  refine hl.follower_status.resolve_right fun hreturned => hflight ?_
  have hlength := hl.length_requests
  have hsent := hl.sentTo_le
  have hall := hreturned.2
  exact List.drop_of_length_le (by omega)

/-- A follower sends as many acknowledgements as it has received requests. -/
theorem Lane.Ordered.length_acks {l : Lane} (hl : l.Ordered S f) :
    l.acks.length = l.received.length := by
  have hlength := congrArg List.length hl.acks_eq
  rw [List.length_map, length_range] at hlength
  omega

/-- A receiver of the leader with acknowledgements in flight runs. -/
theorem Lane.Ordered.receiver_running {l : Lane} (hl : l.Ordered S f)
    (hflight : l.acks.drop l.acked.length ≠ []) : l.receiver.status = .running := by
  refine hl.receiver_status.resolve_right fun hreturned => hflight ?_
  have hlength := hl.length_acks
  have hreceived := hl.received_le_nbRequests
  have hall := hreturned.2
  exact List.drop_of_length_le (by omega)

/-- The receivers of the leader are threads of the process that sends the requests. -/
theorem Thread.receiver_mem_process (f : FollowerId) : .receiver f ∈ Thread.process .sender := by
  cases f <;> decide

/-- No loop waits for a link whose writer is over. -/
theorem step_eof (hs : (cluster S Network.fifo).Reachable (toCluster s)) (k : Link) :
    (threads S).step Net.framing s (.eof k) = none := by
  have hlane := (Cluster.ordered_of_reachable hs).2
  change (if _ then _ else _) = _
  by_cases hover : s.net.inFlight k = [] ∧ (threads S).Over s.locals k
  · rw [if_pos hover, Option.map_eq_none_iff, ← Option.not_isSome_iff_eq_none,
      (threads S).isSome_handle]
    intro hwait
    obtain ⟨hflight, hover⟩ := hover
    cases k with
    | request f =>
      have hl := hlane f
      obtain ⟨-, hlast⟩ := Follower.waiting_iff.mp hwait
      have hreturned := hover (.receiver f) (Thread.receiver_mem_process f)
      have hstatus : ((toCluster s).lane f).receiver.status = .returned :=
        beq_iff_eq.mp hreturned
      have hacked := (hl.receiver_status.resolve_left (by simp [hstatus])).2
      have hack := hl.follower.lastCmtAckId_eq.trans hl.follower_cmtIdx
      have hle := hl.acked_le
      have hbound := hl.received_le_nbRequests
      change ((toCluster s).lane f).follower.state.lastCmtAckId + 1 ≠ nbRequests at hlast
      omega
    | ack f =>
      have hl := hlane f
      obtain ⟨-, hlast⟩ := Leader.waiting_iff.mp hwait
      have hreturned := hover (.follower f) (List.mem_singleton_self _)
      have hstatus : ((toCluster s).lane f).follower.status = .returned :=
        beq_iff_eq.mp hreturned
      have hreceived := (hl.follower_status.resolve_left (by simp [hstatus])).2
      have hacks := hl.length_acks
      have hempty : ((toCluster s).lane f).acks.length ≤ ((toCluster s).lane f).acked.length :=
        List.drop_eq_nil_iff.mp hflight
      have hcmt := hl.receiver_cmtIdx
      have hbound := hl.acked_le_nbRequests
      change ((toCluster s).lane f).receiver.state.s.cmtIdx + 1 ≠ nbRequests at hlast
      omega
  · exact if_neg hover

/-- A step of the threads is one of the cluster. -/
theorem step_toCluster (hs : (cluster S Network.fifo).Reachable (toCluster s))
    {m : Move Thread Link} (hstep : (threads S).step Net.framing s m = some (s', events)) :
    ∃ a, (toCluster s).step S Network.fifo a = some (toCluster s', events) := by
  cases m with
  | act t =>
    obtain ⟨r, hact, heq⟩ := Option.map_eq_some_iff.mp hstep
    obtain ⟨rfl, rfl⟩ := Prod.mk.inj heq
    cases t with
    | sender =>
      obtain ⟨r', hadvance, rfl⟩ := Option.map_eq_some_iff.mp hact
      have hturn := toCluster_turn_sender (s := s)
        ⟨r'.1, [(.request r'.2, S.request r'.2 r'.1.i)], [.send (S.request r'.2 r'.1.i)]⟩
      have hnet := s.net.writeAll_map (.request r'.2) [S.request r'.2 r'.1.i]
      refine ⟨.send, ?_⟩
      change Option.map _ (Sender.advance S (s.locals .sender)) = _
      rw [hadvance]
      refine congrArg (fun c => some (c, _)) (Eq.trans ?_ hturn.symm)
      exact congrArg (fun n => { toCluster s with sender := r'.1, net := n }) hnet.symm
    | follower f =>
      obtain ⟨r', hfinish, rfl⟩ := Option.map_eq_some_iff.mp hact
      have hturn := toCluster_turn_follower (s := s) (f := f) ⟨r'.1, [], r'.2⟩
      refine ⟨.finishFollower f, ?_⟩
      change Option.map _ ((S.follower f).finish (s.locals (.follower f))) = _
      rw [hfinish]
      rw [Network.writeAll_nil] at hturn
      exact congrArg (fun c => some (c, _)) hturn.symm
    | receiver f =>
      obtain ⟨r', hfinish, rfl⟩ := Option.map_eq_some_iff.mp hact
      have hturn := toCluster_turn_receiver (s := s) (f := f) ⟨r'.1, [], r'.2⟩
      refine ⟨.finishReceiver f, ?_⟩
      change Option.map _ (S.receiver.finish (s.locals (.receiver f))) = _
      rw [hfinish]
      rw [Network.writeAll_nil] at hturn
      exact congrArg (fun c => some (c, _)) hturn.symm
  | deliver k =>
    obtain ⟨b, hnext, hhandle⟩ := Option.bind_eq_some_iff.mp hstep
    obtain ⟨r, hturn, heq⟩ := Option.map_eq_some_iff.mp hhandle
    obtain ⟨rfl, rfl⟩ := Prod.mk.inj heq
    refine ⟨.deliver ⟨k, k, (s.net.delivered k).length⟩, ?_⟩
    have hpolicy : Network.fifo (toCluster s).net ⟨k, k, (s.net.delivered k).length⟩ = true := by
      simp [Network.fifo, toCluster]
    have hframe : (toCluster s).net.frame ⟨k, k, (s.net.delivered k).length⟩ = some b := hnext
    rw [Cluster.step, if_pos hpolicy, hframe, Option.bind_some]
    cases k with
    | request f =>
      obtain ⟨r', hreceive, rfl⟩ := Option.map_eq_some_iff.mp hturn
      have hturn := toCluster_turn_follower (f := f)
        (s := ⟨s.locals, s.net.deliver (.request f) b⟩)
        ⟨r'.1, (sentFrames r'.2).map fun b => (.ack f, b), r'.2⟩
      change Option.map _ ((S.follower f).receive (s.locals (.follower f)) (recvFrame b)) = _
      change (S.follower f).receive (s.locals (.follower f)) (recvFrame b) = _ at hreceive
      rw [hreceive]
      rw [Network.writeAll_map] at hturn
      exact congrArg (fun c => some (c, _)) hturn.symm
    | ack f =>
      obtain ⟨r', hreceive, rfl⟩ := Option.map_eq_some_iff.mp hturn
      have hturn := toCluster_turn_receiver (f := f)
        (s := ⟨s.locals, s.net.deliver (.ack f) b⟩) ⟨r'.1, [], r'.2⟩
      change Option.map _ (S.receiver.receive (s.locals (.receiver f)) (recvFrame b)) = _
      change S.receiver.receive (s.locals (.receiver f)) (recvFrame b) = _ at hreceive
      rw [hreceive]
      rw [Network.writeAll_nil] at hturn
      exact congrArg (fun c => some (c, _)) hturn.symm
  | eof k =>
    rw [step_eof hs] at hstep
    cases hstep

/-- Where no thread can take a step, neither can the cluster. -/
theorem stuck_toCluster (hstuck : ∀ m, (threads S).step Net.framing s m = none) (a : Action) :
    (toCluster s).step S Network.fifo a = none := by
  cases a with
  | send =>
    have hnone : Sender.advance S (s.locals .sender) = none :=
      Option.map_eq_none_iff.mp (Option.map_eq_none_iff.mp (hstuck (.act .sender)))
    exact Option.map_eq_none_iff.mpr hnone
  | deliver d =>
    rw [← Option.not_isSome_iff_eq_none]
    intro hsome
    obtain ⟨⟨c', events⟩, hstep⟩ := Option.isSome_iff_exists.mp hsome
    obtain ⟨b, hpolicy, hframe, harrive⟩ := Cluster.step_deliver_eq_some hstep
    obtain ⟨-, hnext⟩ := Network.fifo_frame hpolicy hframe
    obtain ⟨source, target, index⟩ := d
    have hnone := hstuck (.deliver target)
    rw [Threads.step] at hnone
    change ((toCluster s).net.sent target)[((toCluster s).net.delivered target).length]?.bind _ = _
      at hnone
    rw [hnext, Option.bind_some, Option.map_eq_none_iff] at hnone
    cases target with
    | request f | ack f =>
      obtain ⟨r, hreceive, -⟩ := Option.map_eq_some_iff.mp harrive
      exact Option.some_ne_none r (hreceive.symm.trans (Option.map_eq_none_iff.mp hnone))
  | finishFollower f =>
    have hnone : (S.follower f).finish (s.locals (.follower f)) = none :=
      Option.map_eq_none_iff.mp (Option.map_eq_none_iff.mp (hstuck (.act (.follower f))))
    exact Option.map_eq_none_iff.mpr hnone
  | finishReceiver f =>
    have hnone : S.receiver.finish (s.locals (.receiver f)) = none :=
      Option.map_eq_none_iff.mp (Option.map_eq_none_iff.mp (hstuck (.act (.receiver f))))
    exact Option.map_eq_none_iff.mpr hnone

/-- The threads on links that hand over whole frames are the cluster on FIFO links. -/
theorem linked_refines (S : Setup) : ((threads S).linked Net.framing).Refines
    (cluster S Network.fifo) some some (fun s c => toCluster s = c) where
  start := rfl
  step s c m s' events _ hc := by
    rintro rfl hstep
    obtain ⟨a, ha⟩ := step_toCluster hc hstep
    exact Or.inr ⟨a, toCluster s', events, ha, rfl, rfl⟩

/-- The cluster of reachable threads is reachable. -/
theorem reachable_toCluster (h : ((threads S).linked Net.framing).Reachable s) :
    (cluster S Network.fifo).Reachable (toCluster s) := by
  obtain ⟨c, hc, rfl⟩ := (linked_refines S).reachable h
  exact hc

/-- Every frame of the cluster is one that `secure_recv` receives. -/
theorem allFramed (S : Setup) : (threads S).AllFramed Net.framing := by
  intro s hs k b hb
  have hlane := (Cluster.ordered_of_reachable (reachable_toCluster hs)).2
  cases k with
  | request f =>
    have hmem : b ∈ ((toCluster s).lane f).requests := hb
    rw [(hlane f).requests_eq] at hmem
    obtain ⟨i, -, rfl⟩ := List.mem_map.mp hmem
    exact Net.framed_attestedFrame S.hmac (by simp)
  | ack f =>
    have hmem : b ∈ ((toCluster s).lane f).acks := hb
    rw [(hlane f).acks_eq] at hmem
    obtain ⟨i, -, rfl⟩ := List.mem_map.mp hmem
    exact Net.framed_attestedFrame S.hmac (by simp)

/-- Requests are upstream of acknowledgements. -/
def Link.rank : Link → ℕ
  | .request _ => 1
  | .ack _ => 0

/-- The streams of the cluster flow: acknowledgements are read by threads that write nothing. -/
theorem flows (S : Setup) : (threads S).Flows Net.framing Link.rank where
  lower k k' h := by
    cases k with
    | request f =>
      cases k' with
      | request g => cases h
      | ack g => exact Nat.one_pos
    | ack f => cases k' <;> cases h
  attended s hs k hflight := by
    have hlane := (Cluster.ordered_of_reachable (reachable_toCluster hs)).2
    cases k with
    | request f =>
      have hrunning := (hlane f).follower_running hflight
      by_cases hlast : ((toCluster s).follower f).state.lastCmtAckId + 1 = nbRequests
      · right
        have hfinish : ((S.follower f).finish ((toCluster s).follower f)).isSome = true :=
          Follower.finish_isSome hrunning hlast
        exact Option.isSome_map.trans hfinish
      · left
        exact Follower.waiting_iff.mpr ⟨hrunning, hlast⟩
    | ack f =>
      have hrunning := (hlane f).receiver_running hflight
      by_cases hlast : ((toCluster s).receiver f).state.s.cmtIdx + 1 = nbRequests
      · right
        have hfinish : (S.receiver.finish ((toCluster s).receiver f)).isSome = true :=
          Leader.finish_isSome hrunning hlast
        exact Option.isSome_map.trans hfinish
      · left
        exact Leader.waiting_iff.mpr ⟨hrunning, hlast⟩

instance : Fintype Thread where
  elems := {.sender, .follower .one, .follower .two, .receiver .one, .receiver .two}
  complete t := by rcases t with - | (_ | _) | (_ | _) <;> decide

instance : Fintype Link where
  elems := {.request .one, .request .two, .ack .one, .ack .two}
  complete k := by rcases k with (_ | _) | (_ | _) <;> decide

/-- The threads stop on links that hand over whole frames. -/
theorem linked_halts (S : Setup) : ((threads S).linked Net.framing).Halts fun _ _ => True := by
  refine (cluster_halts S).of_related (fun s c => toCluster s = c) (fun _ => 0)
    (fun s hs => (linked_refines S).reachable hs) ?_
  rintro s c m s' events - hc rfl - hstep
  obtain ⟨a, ha⟩ := step_toCluster hc hstep
  right
  exact ⟨toCluster s', ⟨hc, a, events, trivial, ha⟩, rfl⟩

/-- A cluster whose frames are under way on streams. -/
structure OnStreams (w : (threads S).Wired Net.framing) (c : Cluster) : Prop where
  /-- The sender is where that of the cluster is. -/
  sender : w.locals .sender = c.sender
  /-- So are the loops of the followers. -/
  follower : ∀ f, w.locals (.follower f) = c.follower f
  /-- So are those of the leader's receivers. -/
  receiver : ∀ f, w.locals (.receiver f) = c.receiver f
  /-- The bytes on every link are those of the frames in flight, without what the receive there has
  consumed. -/
  streams : ∀ k, Net.framing.Streams (w.receive k) (w.unread k ++ w.outgoing k) (c.net.inFlight k)

/-- Streams that carry the frames of the threads carry those of the cluster. -/
theorem OnStreams.of_carries {w : (threads S).Wired Net.framing} (h : Threads.Carries w s) :
    OnStreams w (toCluster s) where
  sender := congrFun h.locals .sender
  follower f := congrFun h.locals (.follower f)
  receiver f := congrFun h.locals (.receiver f)
  streams := h.streams

/-- Over TCP the programs behave as the cluster on FIFO links, however the calls of `send` and
`recv` cut the frames: every run has the events of a run there, with the same local variables at
its end and with the bytes of the frames in flight on every link. -/
theorem overStreams_run (S : Setup) (capacity : Link → ℕ) {trace : List Event}
    {w : (threads S).Wired Net.framing}
    (h : ((threads S).overStreams Net.framing capacity).Run trace w) :
    ∃ c, (cluster S Network.fifo).Run trace c ∧ OnStreams w c := by
  obtain ⟨trace', c, hrun, htrace, s, -, hcarries, rfl⟩ :=
    ((Threads.overStreams_refines (allFramed S)).trans (linked_refines S)).run h
  rw [List.filterMap_some, List.filterMap_some] at htrace
  subst htrace
  exact ⟨toCluster s, hrun, .of_carries hcarries⟩

/-- The first request of the sender has been cut: three of its bytes are in the buffer, and two of
them have been received. -/
theorem overStreams_run_cut : ∃ trace w, ((threads .example).overStreams Net.framing
      fun _ => 5).Run trace w ∧ w.unread (.request .one) = [0] ∧
      (w.outgoing (.request .one)).length = 41 ∧
      ∃ c, (cluster .example Network.fifo).Run trace c ∧ OnStreams w c := by
  have hrun : (((threads .example).overStreams Net.framing fun _ => 5).exec
      (Threads.Wired.start _ _) [.act .sender, .accept .sender 3, .bytes (.request .one) 2]).map
      (fun w => (w.unread (.request .one), (w.outgoing (.request .one)).length)) =
        some ([0], 41) := by decide +kernel
  obtain ⟨w, hexec, heq⟩ := Option.map_eq_some_iff.mp hrun
  obtain ⟨hunread, houtgoing⟩ := Prod.mk.inj heq
  obtain ⟨trace, htrace⟩ := (Machine.reachable_of_exec hexec).exists_run
  exact ⟨trace, w, htrace, hunread, houtgoing, overStreams_run .example _ htrace⟩

/-- The commit index of a follower. -/
def followerCmtIdx (w : (threads S).Wired Net.framing) (f : FollowerId) : ℤ :=
  Follower.Receiver.s (Process.state (w.locals (.follower f))) |>.cmtIdx

/-- The commit index of the leader's receiver for a follower. -/
def leaderCmtIdx (w : (threads S).Wired Net.framing) (f : FollowerId) : ℤ :=
  Leader.Receiver.s (Process.state (w.locals (.receiver f))) |>.cmtIdx

/-- The bytes under way to and from one follower. -/
structure StreamAccount (w : (threads S).Wired Net.framing) (f : FollowerId) : Prop where
  /-- Those to the follower are the requests that it has not committed, without what its receive
  has consumed. -/
  requests : ∃ p, (w.receive (.request f)).Consumed p ∧
    p ++ (w.unread (.request f) ++ w.outgoing (.request f)) =
      ((Int.range (followerCmtIdx w f + 1) (Sender.sentTo (w.locals .sender) f)).map
        (S.request f)).flatten
  /-- Those from the follower are the acknowledgements that the leader has not committed, without
  what its receive has consumed. -/
  acks : ∃ p, (w.receive (.ack f)).Consumed p ∧
    p ++ (w.unread (.ack f) ++ w.outgoing (.ack f)) =
      ((Int.range (leaderCmtIdx w f + 1) (followerCmtIdx w f + 1)).map (S.ack f)).flatten
  /-- The leader is not ahead of the follower. -/
  leader_le_follower : leaderCmtIdx w f ≤ followerCmtIdx w f
  /-- The follower is not ahead of the sender. -/
  follower_lt_sent : followerCmtIdx w f < Sender.sentTo (w.locals .sender) f
  /-- The follower has not crashed. -/
  follower : Process.status (w.locals (.follower f)) ≠ .crashed
  /-- Neither has the leader's receiver. -/
  receiver : Process.status (w.locals (.receiver f)) ≠ .crashed

/-- Over TCP, whatever part of a frame has been sent or received, the bytes under way are exactly
those of the frames between the commit indices, which are ordered, and no loop crashes. -/
theorem overStreams_account (S : Setup) (capacity : Link → ℕ)
    {w : (threads S).Wired Net.framing}
    (h : ((threads S).overStreams Net.framing capacity).Reachable w) (f : FollowerId) :
    StreamAccount w f := by
  obtain ⟨s, hs, hcarries⟩ := (Threads.overStreams_refines (allFramed S)).reachable h
  have hc := reachable_toCluster hs
  have haccount := ((Cluster.ordered_of_reachable hc).2 f).account
  have hon := OnStreams.of_carries hcarries
  have hlength : ((toCluster s).net.sent (.request f)).length = ((toCluster s).lane f).sentTo :=
    Int.ofNat.inj ((Cluster.ordered_of_reachable hc).2 f).length_requests
  have hsender : Sender.sentTo (w.locals .sender) f = ((toCluster s).lane f).sentTo :=
    congrArg (Sender.sentTo · f) hon.sender
  have hfollower : followerCmtIdx w f = (toCluster s).followerCmtIdx f :=
    congrArg (fun p => p.state.s.cmtIdx) (hon.follower f)
  have hleader : leaderCmtIdx w f = (toCluster s).leaderCmtIdx f :=
    congrArg (fun p => p.state.s.cmtIdx) (hon.receiver f)
  refine ⟨?_, ?_, ?_, ?_, ?_, ?_⟩
  · obtain ⟨p, hp, hflatten, -⟩ := hon.streams (.request f)
    rw [haccount.requests, hlength] at hflatten
    rw [hfollower, hsender]
    exact ⟨p, hp, hflatten.symm⟩
  · obtain ⟨p, hp, hflatten, -⟩ := hon.streams (.ack f)
    rw [haccount.acks] at hflatten
    rw [hfollower, hleader]
    exact ⟨p, hp, hflatten.symm⟩
  · rw [hfollower, hleader]
    exact haccount.leader_le_follower
  · rw [hfollower, hsender, ← hlength]
    exact haccount.follower_lt_sent
  · rw [hon.follower]
    rcases haccount.follower_status with hrunning | ⟨hreturned, -⟩
    · simp [hrunning]
    · simp [hreturned]
  · rw [hon.receiver]
    rcases haccount.receiver_status with hrunning | ⟨hreturned, -⟩
    · simp [hrunning]
    · simp [hreturned]

/-- The account holds while the first request is being received. -/
theorem overStreams_account_cut : ∃ w, ((threads .example).overStreams Net.framing
      fun _ => 5).Reachable w ∧ w.unread (.request .one) = [0] ∧ StreamAccount w .one := by
  have hrun : (((threads .example).overStreams Net.framing fun _ => 5).exec
      (Threads.Wired.start _ _) [.act .sender, .accept .sender 3, .bytes (.request .one) 2]).map
      (fun w => w.unread (.request .one)) = some [0] := by decide +kernel
  obtain ⟨w, hexec, hunread⟩ := Option.map_eq_some_iff.mp hrun
  have hreach := Machine.reachable_of_exec hexec
  exact ⟨w, hreach, hunread, overStreams_account .example _ hreach .one⟩

/-- Where nothing can happen over TCP but negative results, the experiment is complete. -/
theorem finished_of_stuck {S : Setup} {capacity : Link → ℕ} (hcapacity : ∀ k, 0 < capacity k)
    {w : (threads S).Wired Net.framing}
    (hw : ((threads S).overStreams Net.framing capacity).Reachable w)
    (hstuck : ((threads S).overStreams Net.framing capacity).Stuck
      (fun _ call => call.Productive) w) :
    (∃ c, (cluster S Network.fifo).Reachable c ∧ OnStreams w c ∧ ∀ f, c.Finished f) ∧
      (∀ k, w.unread k = []) ∧ ∀ t, w.outbox t = [] := by
  obtain ⟨s, hs, hcarries⟩ := (Threads.overStreams_refines (allFramed S)).reachable hw
  obtain ⟨hnone, -, hunread, houtbox⟩ := hcarries.stuck hcapacity hstuck (flows S) (allFramed S) hs
  have hc := reachable_toCluster hs
  obtain ⟨hsender, hlane⟩ := Cluster.ordered_of_reachable hc
  refine ⟨⟨toCluster s, hc, .of_carries hcarries, fun f => ?_⟩, hunread, houtbox⟩
  exact (hlane f).finished hsender (stuck_toCluster fun m => hnone m trivial)

/-- Over TCP with buffers of any size the experiment completes. As long as `recv` does not give
negative results forever it comes to an end, and there every request is committed by everybody,
every loop has returned and no byte is left. -/
theorem overStreams_completes (S : Setup) (capacity : Link → ℕ) (hcapacity : ∀ k, 0 < capacity k) :
    ((threads S).overStreams Net.framing capacity).Halts (fun _ call => call.Productive) ∧
      ∀ w, ((threads S).overStreams Net.framing capacity).Reachable w →
        ((threads S).overStreams Net.framing capacity).Stuck
          (fun _ call => call.Productive) w →
        (∃ c, (cluster S Network.fifo).Reachable c ∧ OnStreams w c ∧ ∀ f, c.Finished f) ∧
          (∀ k, w.unread k = []) ∧ ∀ t, w.outbox t = [] := by
  constructor
  · exact Threads.overStreams_halts (allFramed S) (linked_halts S)
  · intro w hw hstuck
    exact finished_of_stuck hcapacity hw hstuck

/-- One byte of room on every link is enough: some run comes to an end, with everything finished
and no byte left. -/
theorem overStreams_completes_one_byte :
    ((threads .example).overStreams Net.framing fun _ => 1).Halts
        (fun _ call => call.Productive) ∧
      ∃ w, ((threads .example).overStreams Net.framing fun _ => 1).Reachable w ∧
        (∃ c, (cluster .example Network.fifo).Reachable c ∧ OnStreams w c ∧ ∀ f, c.Finished f) ∧
          (∀ k, w.unread k = []) ∧ ∀ t, w.outbox t = [] := by
  obtain ⟨hhalts, hend⟩ := overStreams_completes .example (fun _ => 1) fun _ => Nat.one_pos
  obtain ⟨w, hw, hstuck⟩ := hhalts.exists_stuck
  exact ⟨hhalts, w, hw, hend w hw hstuck⟩

end TeeReplication.Raft
