import TeeReplication.Chain.InFlight
import TeeReplication.Foundations.StreamProgress
import TeeReplication.Net.Framing

/-!
# The chain over TCP

The loops of the chain as threads of three processes, with the streams of
`net/shared.cpp` between them. The tail has no exit test: it is told that the
experiment is over by the end of its stream, which it sees when the middle has
returned and everything that the middle passed on has been read.
-/

namespace TeeReplication.Chain

/-- The threads of the chain's programs. -/
inductive Thread
  /-- The head's `sender`. -/
  | sender
  /-- The `receiver` of the middle. -/
  | middle
  /-- The `receiver` of the tail. -/
  | tail
  /-- The head's `receiver_finale`. -/
  | finale
  deriving DecidableEq

/-- The local variables of a thread. -/
def Thread.Local : Thread → Type
  | .sender => ℕ
  | .middle | .tail | .finale => Process State

namespace Thread

/-- The local variables before the first turn. -/
def start : (t : Thread) → t.Local
  | .sender => (0 : ℕ)
  | .middle | .tail | .finale => EventLoop.enter State.init

/-- The sender sends its next frame; the other loops return if their exit test succeeds. -/
def act (S : Setup) : (t : Thread) → t.Local → Option (Turn t.Local Link UInt8 Event)
  | .sender, (i : ℕ) => (S.feed.request i).map fun pair =>
      ⟨i + 1, [(.toMiddle, S.request pair)], [.send (S.request pair)]⟩
  | .middle, p => (S.middle.finish p).map fun r => ⟨r.1, [], r.2⟩
  | .tail, p => (S.tail.finish p).map fun r => ⟨r.1, [], r.2⟩
  | .finale, p => (S.head.finish p).map fun r => ⟨r.1, [], r.2⟩

/-- The sender never calls `secure_recv`. -/
def waiting (S : Setup) : (t : Thread) → t.Local → Bool
  | .sender, _ => false
  | .middle, p => S.middle.Waiting p
  | .tail, p => S.tail.Waiting p
  | .finale, p => S.head.Waiting p

/-- One iteration of the loop on the result of `secure_recv`. -/
def handle (S : Setup) :
    (t : Thread) → t.Local → RecvResult → Option (Turn t.Local Link UInt8 Event)
  | .sender, _, _ => none
  | .middle, p, i => (S.middle.receive p i).map fun r =>
      ⟨r.1, (sentFrames r.2).map fun b => (.toTail, b), r.2⟩
  | .tail, p, i => (S.tail.receive p i).map fun r =>
      ⟨r.1, (sentFrames r.2).map fun b => (.toHead, b), r.2⟩
  | .finale, p, i => (S.head.receive p i).map fun r => ⟨r.1, [], r.2⟩

/-- The loop has been left. -/
def returned (S : Setup) : (t : Thread) → t.Local → Bool
  | .sender, (i : ℕ) => (S.feed.request i).isNone
  | .middle, p | .tail, p | .finale, p => Process.status p == .returned

/-- The threads that the same `main` joins. -/
def process : Thread → List Thread
  | .middle => [.middle]
  | .tail => [.tail]
  | .sender | .finale => [.sender, .finale]

end Thread

/-- The thread that writes to a link. -/
def Link.writer : Link → Thread
  | .toMiddle => .sender
  | .toTail => .middle
  | .toHead => .tail

/-- The thread that reads from a link. -/
def Link.reader : Link → Thread
  | .toMiddle => .middle
  | .toTail => .tail
  | .toHead => .finale

/-- The programs of the chain. -/
def threads (S : Setup) : Threads Thread Link UInt8 RecvResult Event where
  Local := Thread.Local
  start := Thread.start
  act := Thread.act S
  waiting := Thread.waiting S
  handle := Thread.handle S
  returned := Thread.returned S
  process := Thread.process
  writer := Link.writer
  reader := Link.reader
  isSome_handle t l i := by
    cases t with
    | sender => rfl
    | middle | tail | finale =>
      rw [Thread.handle, Option.isSome_map]
      exact EventLoop.isSome_receive _ l i
  writer_of_act t l r h w hw := by
    cases t with
    | sender =>
      obtain ⟨pair, -, rfl⟩ := Option.map_eq_some_iff.mp h
      obtain rfl := List.mem_singleton.mp hw
      rfl
    | middle | tail | finale =>
      obtain ⟨r', -, rfl⟩ := Option.map_eq_some_iff.mp h
      exact absurd hw List.not_mem_nil
  writer_of_handle t l i r h w hw := by
    cases t with
    | sender => cases h
    | middle | tail =>
      obtain ⟨r', -, rfl⟩ := Option.map_eq_some_iff.mp h
      obtain ⟨b, -, rfl⟩ := List.mem_map.mp hw
      rfl
    | finale =>
      obtain ⟨r', -, rfl⟩ := Option.map_eq_some_iff.mp h
      exact absurd hw List.not_mem_nil
  mem_process t := by cases t <;> decide

variable {S : Setup} {s s' : (threads S).State} {c c' : Cluster} {events : List Event}

/-- The tail has got everything, and the middle has returned. -/
structure Cluster.Ended (c : Cluster) : Prop where
  /-- The tail has reached the last request. -/
  last : c.tail.state.cmtIdx + 1 = nbRequests
  /-- Nothing is on its way to it. -/
  inFlight : c.net.inFlight .toTail = []
  /-- The middle has returned. -/
  middle : c.middle.status = .returned

/-- The tail is where that of a chain is, or it has returned at the end of its stream. -/
def Cluster.TailAt (c : Cluster) (p : Process State) : Prop :=
  p = c.tail ∨ p = ⟨.returned, c.tail.state⟩ ∧ c.Ended

/-- The threads are where the loops of a chain are, except that the tail may have returned. -/
structure Follows (s : (threads S).State) (c : Cluster) : Prop where
  /-- The sender. -/
  sender : s.locals .sender = c.i
  /-- The middle. -/
  middle : s.locals .middle = c.middle
  /-- The tail. -/
  tail : c.TailAt (s.locals .tail)
  /-- The head's `receiver_finale`. -/
  finale : s.locals .finale = c.head
  /-- What has been sent and delivered. -/
  net : s.net = c.net

/-- A tail that waits has not returned. -/
theorem Cluster.TailAt.eq_of_running {p : Process State} (h : c.TailAt p)
    (hrunning : p.status = .running) : p = c.tail := by
  refine h.resolve_right fun ⟨hreturned, _⟩ => ?_
  rw [hreturned] at hrunning
  cases hrunning

/-- A failing receive ends the tail's loop after the last request. -/
theorem Tail.receive_failed {h : Hmac} {nodeId : ℤ} {p q : Process State}
    (hlast : p.state.cmtIdx + 1 = nbRequests)
    (hreceive : (Tail.receiver h nodeId).receive p .failed = some (q, events)) :
    p.status = .running ∧ q = ⟨.returned, p.state⟩ ∧
      events = [.print (.finishExperiment p.state.cmtIdx)] := by
  obtain ⟨hwait, rfl, rfl⟩ := EventLoop.receive_eq_some _ hreceive
  have hbody : Tail.receiverBody h nodeId p.state .failed =
      ⟨[.print (.finishExperiment p.state.cmtIdx)], .ok (.leave p.state)⟩ := by
    simp [Tail.receiverBody, RecvResult.bytecount, hlast]
  rw [Tail.receiver_body, hbody]
  exact ⟨Tail.waiting_iff.mp hwait, rfl, rfl⟩

namespace Follows

/-- The head stays until the middle has returned. -/
theorem middle_of_over (hs : Follows s c) (hc : (chain S Network.fifo).Reachable c)
    (hover : (threads S).Over s.locals .toMiddle) : c.middle.status = .returned := by
  have hmem : Thread.finale ∈ Thread.process .sender := by decide
  have hreturned : Process.status (s.locals .finale) = .returned :=
    beq_iff_eq.mp (hover .finale hmem)
  rw [hs.finale] at hreturned
  have hsound := Sound.of_reachable hc
  exact (InStep.of_reachable hc).middle_returned hsound
    (hsound.head.resolve_left (by simp [hreturned])).2

/-- When the middle has returned and everything that it passed on has been read, the tail has
reached the last request. -/
theorem tail_of_over (hs : Follows s c) (hc : (chain S Network.fifo).Reachable c)
    (hflight : c.net.inFlight .toTail = []) (hover : (threads S).Over s.locals .toTail) :
    c.middle.status = .returned ∧ c.tail.state.cmtIdx + 1 = nbRequests := by
  have hreturned : Process.status (s.locals .middle) = .returned :=
    beq_iff_eq.mp (hover .middle (List.mem_singleton_self _))
  rw [hs.middle] at hreturned
  rw [(InStep.of_reachable hc).tail_eq_middle hflight]
  exact ⟨hreturned, ((Sound.of_reachable hc).middle.resolve_left (by simp [hreturned])).2⟩

/-- When the tail has returned and all its acknowledgements have been read, the head has reached
the last request. -/
theorem head_of_over (hs : Follows s c) (hc : (chain S Network.fifo).Reachable c)
    (hflight : c.net.inFlight .toHead = []) (hover : (threads S).Over s.locals .toHead) :
    c.head.state.cmtIdx + 1 = nbRequests := by
  have hreturned : Process.status (s.locals .tail) = .returned :=
    beq_iff_eq.mp (hover .tail (List.mem_singleton_self _))
  rw [(InStep.of_reachable hc).head_eq_tail hflight]
  rcases hs.tail with htail | ⟨-, hended⟩
  · rw [htail, (Sound.of_reachable hc).tail] at hreturned
    cases hreturned
  · exact hended.last

/-- A waiting reader sees the end of its link only at the tail, after the last request. -/
theorem eof (hs : Follows s c) (hc : (chain S Network.fifo).Reachable c) {k : Link}
    (hstep : (threads S).step Net.framing s (.eof k) = some (s', events)) :
    k = .toTail ∧ s.locals .tail = c.tail ∧ Follows s' c ∧
      s'.locals .tail = (⟨.returned, c.tail.state⟩ : Process State) ∧
      events = [.print (.finishExperiment c.tail.state.cmtIdx)] := by
  change (if _ then _ else _) = _ at hstep
  split at hstep
  · rename_i hend
    obtain ⟨hflight, hover⟩ := hend
    obtain ⟨r, hhandle, heq⟩ := Option.map_eq_some_iff.mp hstep
    obtain ⟨rfl, rfl⟩ := Prod.mk.inj heq
    rw [hs.net] at hflight
    cases k with
    | toMiddle =>
      obtain ⟨q, hreceive, -⟩ := Option.map_eq_some_iff.mp hhandle
      have hrunning := Middle.waiting_iff.mp (EventLoop.receive_eq_some _ hreceive).1
      change Process.status (s.locals .middle) = _ at hrunning
      rw [hs.middle, hs.middle_of_over hc hover] at hrunning
      cases hrunning
    | toTail =>
      obtain ⟨hmiddle, hlast⟩ := hs.tail_of_over hc hflight hover
      obtain ⟨⟨q, t⟩, hreceive, rfl⟩ := Option.map_eq_some_iff.mp hhandle
      have htail := hs.tail.eq_of_running
        (Tail.waiting_iff.mp (EventLoop.receive_eq_some _ hreceive).1)
      change (Tail.receiver S.hmac S.tailNodeId.toInt).receive (s.locals .tail) .failed = _
        at hreceive
      rw [htail] at hreceive
      obtain ⟨-, rfl, rfl⟩ := Tail.receive_failed hlast hreceive
      refine ⟨rfl, htail, ⟨?_, ?_, Or.inr ⟨?_, hlast, hflight, hmiddle⟩, ?_, ?_⟩, ?_, rfl⟩
      · exact (s.locals_turn_of_ne (show Thread.sender ≠ .tail by decide) _).trans hs.sender
      · exact (s.locals_turn_of_ne (show Thread.middle ≠ .tail by decide) _).trans hs.middle
      · exact s.locals_turn_self _ _
      · exact (s.locals_turn_of_ne (show Thread.finale ≠ .tail by decide) _).trans hs.finale
      · exact (Network.writeAll_nil s.net).trans hs.net
      · exact s.locals_turn_self _ _
    | toHead =>
      obtain ⟨q, hreceive, -⟩ := Option.map_eq_some_iff.mp hhandle
      have hwait := (Head.waiting_iff.mp (EventLoop.receive_eq_some _ hreceive).1).2
      change (Process.state (s.locals .finale)).cmtIdx + 1 ≠ nbRequests at hwait
      rw [hs.finale] at hwait
      exact absurd (hs.head_of_over hc hflight hover) hwait
  · cases hstep

/-- The sender sends its next request. -/
theorem act_sender (hs : Follows s c) {r : Turn ℕ Link UInt8 Event}
    (hact : Thread.act S .sender (s.locals .sender) = some r) :
    ∃ c', c.step S Network.fifo .send = some (c', r.events) ∧ Follows (s.turn .sender r) c' ∧
      ((s.turn .sender r).locals .tail = c'.tail ↔ s.locals .tail = c.tail) := by
  have hsame {t : Thread} (ht : t ≠ .sender) := s.locals_turn_of_ne ht r
  obtain ⟨pair, hpair, rfl⟩ := Option.map_eq_some_iff.mp hact
  rw [hs.sender] at hpair
  refine ⟨{ c with i := c.i + 1, net := c.net.sendAll .toMiddle [S.request pair] },
    congrArg (Option.map _) hpair, ⟨?_, (hsame (by decide)).trans hs.middle, ?_,
    (hsame (by decide)).trans hs.finale, ?_⟩, Eq.congr_left (hsame (by decide))⟩
  · exact (s.locals_turn_self _ _).trans (congrArg (· + 1) hs.sender)
  · exact hs.tail.imp (hsame (by decide)).trans fun ⟨hreturned, hended⟩ =>
      ⟨(hsame (by decide)).trans hreturned, hended.last,
        (c.net.inFlight_sendAll_of_ne (by decide) _).trans hended.inFlight, hended.middle⟩
  · change s.net.writeAll [(.toMiddle, S.request pair)] = _
    rw [hs.net]
    exact Network.writeAll_map c.net .toMiddle [S.request pair]

/-- The head returns. -/
theorem act_finale (hs : Follows s c) {r : Turn (Process State) Link UInt8 Event}
    (hact : Thread.act S .finale (s.locals .finale) = some r) :
    ∃ c', c.step S Network.fifo .finishHead = some (c', r.events) ∧
      Follows (s.turn .finale r) c' ∧
      ((s.turn .finale r).locals .tail = c'.tail ↔ s.locals .tail = c.tail) := by
  have hsame {t : Thread} (ht : t ≠ .finale) := s.locals_turn_of_ne ht r
  obtain ⟨q, hfinish, rfl⟩ := Option.map_eq_some_iff.mp hact
  rw [hs.finale] at hfinish
  refine ⟨{ c with head := q.1 }, congrArg (Option.map _) hfinish,
    ⟨(hsame (by decide)).trans hs.sender, (hsame (by decide)).trans hs.middle, ?_,
    s.locals_turn_self _ _, (Network.writeAll_nil s.net).trans hs.net⟩,
    Eq.congr_left (hsame (by decide))⟩
  exact hs.tail.imp (hsame (by decide)).trans fun ⟨hreturned, hended⟩ =>
    ⟨(hsame (by decide)).trans hreturned, hended.last, hended.inFlight, hended.middle⟩

/-- A frame arrives at the end of a link. -/
theorem deliver (hs : Follows s c) {k : Link} {b : Frame} {r : Turn k.reader.Local Link UInt8 Event}
    (hhandle : Thread.handle S k.reader (s.locals k.reader) (recvFrame b) = some r) :
    ∃ c', c.arrive S b k = some (c', r.events) ∧
      Follows (Threads.State.turn ⟨s.locals, s.net.deliver k b⟩ k.reader r) c' ∧
      ((Threads.State.turn ⟨s.locals, s.net.deliver k b⟩ k.reader r).locals .tail = c'.tail ↔
        s.locals .tail = c.tail) := by
  have hsame {t : Thread} (ht : t ≠ k.reader) :=
    Threads.State.locals_turn_of_ne (P := threads S) ⟨s.locals, s.net.deliver k b⟩ ht r
  cases k with
  | toMiddle =>
    obtain ⟨q, hreceive, rfl⟩ := Option.map_eq_some_iff.mp hhandle
    change S.middle.receive (s.locals .middle) (recvFrame b) = some q at hreceive
    rw [hs.middle] at hreceive
    refine ⟨{ c with
        middle := q.1
        net := (c.net.deliver .toMiddle b).sendAll .toTail (sentFrames q.2) },
      congrArg (Option.map _) hreceive, ⟨(hsame (by decide)).trans hs.sender,
      Threads.State.locals_turn_self _ _ _, ?_, (hsame (by decide)).trans hs.finale, ?_⟩,
      Eq.congr_left (hsame (by decide))⟩
    · refine Or.inl ((hsame (by decide)).trans (hs.tail.resolve_right fun ⟨_, hended⟩ => ?_))
      have hrunning := Middle.waiting_iff.mp (EventLoop.receive_eq_some _ hreceive).1
      rw [hended.middle] at hrunning
      cases hrunning
    · change (s.net.deliver .toMiddle b).writeAll _ = _
      rw [hs.net]
      exact Network.writeAll_map _ Link.toTail _
  | toTail =>
    obtain ⟨q, hreceive, rfl⟩ := Option.map_eq_some_iff.mp hhandle
    change S.tail.receive (s.locals .tail) (recvFrame b) = some q at hreceive
    have htail := hs.tail.eq_of_running
      (Tail.waiting_iff.mp (EventLoop.receive_eq_some _ hreceive).1)
    rw [htail] at hreceive
    refine ⟨{ c with
        tail := q.1
        net := (c.net.deliver .toTail b).sendAll .toHead (sentFrames q.2) },
      congrArg (Option.map _) hreceive, ⟨(hsame (by decide)).trans hs.sender,
      (hsame (by decide)).trans hs.middle, Or.inl (Threads.State.locals_turn_self _ _ _),
      (hsame (by decide)).trans hs.finale, ?_⟩,
      iff_of_true (Threads.State.locals_turn_self _ _ _) htail⟩
    change (s.net.deliver .toTail b).writeAll _ = _
    rw [hs.net]
    exact Network.writeAll_map _ Link.toHead _
  | toHead =>
    obtain ⟨q, hreceive, rfl⟩ := Option.map_eq_some_iff.mp hhandle
    change S.head.receive (s.locals .finale) (recvFrame b) = some q at hreceive
    rw [hs.finale] at hreceive
    refine ⟨{ c with head := q.1, net := c.net.deliver .toHead b },
      congrArg (Option.map _) hreceive, ⟨(hsame (by decide)).trans hs.sender,
      (hsame (by decide)).trans hs.middle, ?_, Threads.State.locals_turn_self _ _ _, ?_⟩,
      Eq.congr_left (hsame (by decide))⟩
    · exact hs.tail.imp (hsame (by decide)).trans fun ⟨hreturned, hended⟩ =>
        ⟨(hsame (by decide)).trans hreturned, hended.last,
          (c.net.inFlight_deliver_of_ne (by decide) _).trans hended.inFlight, hended.middle⟩
    · change (s.net.deliver .toHead b).writeAll [] = _
      rw [Network.writeAll_nil, hs.net]

/-- The middle and the tail have no exit test. -/
theorem finish_eq_none {body : State → RecvResult → Exec (Control State)} (p : Process State) :
    (⟨fun _ => none, body⟩ : EventLoop State RecvResult Event Fault).finish p = none := by
  rw [EventLoop.finish]
  split <;> rfl

/-- A step of the threads is one of the chain, which the tail follows if it did before, or the tail
returns. -/
theorem step (hs : Follows s c) (hc : (chain S Network.fifo).Reachable c) {m : Move Thread Link}
    (hstep : (threads S).step Net.framing s m = some (s', events)) :
    (∃ a c', c.step S Network.fifo a = some (c', events) ∧ Follows s' c' ∧
      (s'.locals .tail = c'.tail ↔ s.locals .tail = c.tail)) ∨
      m = .eof .toTail ∧ s.locals .tail = c.tail ∧ Follows s' c ∧
        s'.locals .tail = (⟨.returned, c.tail.state⟩ : Process State) ∧
        events = [.print (.finishExperiment c.tail.state.cmtIdx)] := by
  cases m with
  | act t =>
    left
    obtain ⟨r, hact, heq⟩ := Option.map_eq_some_iff.mp hstep
    obtain ⟨rfl, rfl⟩ := Prod.mk.inj heq
    cases t with
    | sender =>
      obtain ⟨c', hc', hs'⟩ := hs.act_sender hact
      exact ⟨.send, c', hc', hs'⟩
    | middle | tail =>
      obtain ⟨q, hfinish, -⟩ := Option.map_eq_some_iff.mp hact
      have hnone := (finish_eq_none _).symm.trans hfinish
      cases hnone
    | finale =>
      obtain ⟨c', hc', hs'⟩ := hs.act_finale hact
      exact ⟨.finishHead, c', hc', hs'⟩
  | deliver k =>
    left
    obtain ⟨b, hnext, hhandle⟩ := Option.bind_eq_some_iff.mp hstep
    obtain ⟨r, hturn, heq⟩ := Option.map_eq_some_iff.mp hhandle
    obtain ⟨rfl, rfl⟩ := Prod.mk.inj heq
    obtain ⟨c', harrive, hs'⟩ := hs.deliver hturn
    refine ⟨.deliver ⟨k, k, (c.net.delivered k).length⟩, c', ?_, hs'⟩
    rw [hs.net] at hnext
    have hpolicy : Network.fifo c.net ⟨k, k, (c.net.delivered k).length⟩ = true := by
      simp [Network.fifo]
    have hframe : c.net.frame ⟨k, k, (c.net.delivered k).length⟩ = some b := hnext
    rw [Cluster.step, if_pos hpolicy, hframe, Option.bind_some]
    exact harrive
  | eof k =>
    right
    obtain ⟨rfl, hrest⟩ := hs.eof hc hstep
    exact ⟨rfl, hrest⟩

end Follows

/-- The tail runs while it is where that of the chain is, and has returned otherwise. -/
theorem Follows.tail_status (hs : Follows s c) (hc : (chain S Network.fifo).Reachable c) :
    s.locals .tail = c.tail ∧ Process.status (s.locals .tail) = .running ∨
      s.locals .tail ≠ c.tail ∧ Process.status (s.locals .tail) = .returned := by
  have hrunning := (Sound.of_reachable hc).tail
  rcases hs.tail with htail | ⟨htail, -⟩
  · exact Or.inl ⟨htail, (congrArg Process.status htail).trans hrunning⟩
  · have hreturned : Process.status (s.locals .tail) = .returned := congrArg Process.status htail
    refine Or.inr ⟨fun heq => ?_, hreturned⟩
    rw [heq, hrunning] at hreturned
    cases hreturned

/-- The trace of the threads is that of a chain. If the tail has returned at the end of its stream,
it has one event more: the message with which the tail did so. -/
def Cluster.TraceAt (c : Cluster) (p : Process State) (trace trace' : List Event) : Prop :=
  p = c.tail ∧ trace = trace' ∨
    p.status = .returned ∧ ∃ before after,
      trace = before ++ .print (.finishExperiment (nbRequests - 1)) :: after ∧
      trace' = before ++ after

/-- A step of the chain adds the same events to both traces. -/
theorem Cluster.TraceAt.append {p p' : Process State} {trace trace' : List Event}
    (h : c.TraceAt p trace trace') (hsame : p = c.tail → p' = c'.tail)
    (hreturned : p.status = .returned → p'.status = .returned) (events : List Event) :
    c'.TraceAt p' (trace ++ events) (trace' ++ events) := by
  rcases h with ⟨htail, rfl⟩ | ⟨hp, before, after, rfl, rfl⟩
  · exact Or.inl ⟨hsame htail, rfl⟩
  · refine Or.inr ⟨hreturned hp, before, after ++ events, ?_, ?_⟩
    · rw [List.append_assoc, List.cons_append]
    · rw [List.append_assoc]

/-- A tail that has returned remains so. -/
theorem Follows.tail_returned (hs : Follows s c) (hc : (chain S Network.fifo).Reachable c)
    (hs' : Follows s' c') (hc' : (chain S Network.fifo).Reachable c')
    (htail : s'.locals .tail = c'.tail ↔ s.locals .tail = c.tail)
    (h : Process.status (s.locals .tail) = .returned) :
    Process.status (s'.locals .tail) = .returned := by
  rcases hs'.tail_status hc' with ⟨heq, -⟩ | ⟨-, hreturned⟩
  · rcases hs.tail_status hc with ⟨-, hrunning⟩ | ⟨hne, -⟩
    · cases h.symm.trans hrunning
    · exact absurd (htail.mp heq) hne
  · exact hreturned

/-- On links that hand over whole frames the threads run as the chain on FIFO links, until the tail
returns. -/
theorem linked_run {trace : List Event} (h : ((threads S).linked Net.framing).Run trace s) :
    ∃ trace' c, (chain S Network.fifo).Run trace' c ∧ Follows s c ∧
      c.TraceAt (s.locals .tail) trace trace' := by
  induction h with
  | start => exact ⟨[], _, .start, ⟨rfl, rfl, Or.inl rfl, rfl, rfl⟩, Or.inl ⟨rfl, rfl⟩⟩
  | @step trace events s s' m _ hstep ih =>
    obtain ⟨trace', c, hrun, hs, htrace⟩ := ih
    have hc := hrun.reachable
    rcases hs.step hc hstep with ⟨a, c', hmove, hs', htail⟩ | ⟨-, htail, hs', htail', rfl⟩
    · exact ⟨_, c', hrun.step hmove, hs', htrace.append htail.mpr
        (hs.tail_returned hc hs' (hc.next hmove) htail) events⟩
    · -- the tail has been where that of the chain is, and the traces have been the same
      have hreturned : Process.status (s'.locals .tail) = .returned :=
        congrArg Process.status htail'
      have hrunning : Process.status (s.locals .tail) = .running :=
        (congrArg Process.status htail).trans (Sound.of_reachable hc).tail
      obtain ⟨-, rfl⟩ := htrace.resolve_right fun hreturned => by
        cases hreturned.1.symm.trans hrunning
      have hlast : c.tail.state.cmtIdx = nbRequests - 1 := by
        rcases hs'.tail with heq | ⟨-, hended⟩
        · rw [heq, (Sound.of_reachable hc).tail] at hreturned
          cases hreturned
        · exact eq_sub_of_add_eq hended.last
      rw [hlast]
      exact ⟨trace, c, hrun, hs', Or.inr ⟨hreturned, trace, [], rfl, (List.append_nil _).symm⟩⟩

/-- Reachable threads follow a reachable chain. -/
theorem linked_follows (h : ((threads S).linked Net.framing).Reachable s) :
    ∃ c, (chain S Network.fifo).Reachable c ∧ Follows s c := by
  obtain ⟨trace, hrun⟩ := h.exists_run
  obtain ⟨trace', c, hrun', hs, -⟩ := linked_run hrun
  exact ⟨c, hrun'.reachable, hs⟩

/-- Every frame of the chain is one that `secure_recv` receives. -/
theorem allFramed (S : Setup) : (threads S).AllFramed Net.framing := by
  intro s hs k b hb
  obtain ⟨c, hc, hfollows⟩ := linked_follows hs
  have hin := InStep.of_reachable hc
  rw [hfollows.net] at hb
  cases k with
  | toMiddle =>
    obtain ⟨pair, -, -, rfl⟩ := hin.exists_request hb
    exact Net.framed_attestedFrame S.hmac (by simp)
  | toTail =>
    obtain ⟨pair, -, -, rfl⟩ := hin.exists_request_toTail hb
    exact Net.framed_attestedFrame S.hmac (by simp)
  | toHead =>
    rw [hin.sent_toHead] at hb
    obtain ⟨i, -, rfl⟩ := List.mem_map.mp hb
    exact Net.framed_attestedFrame S.hmac (by simp)

/-- A chain whose frames are under way on streams. -/
structure OnStreams (w : (threads S).Wired Net.framing) (c : Cluster) : Prop where
  /-- The sender is where that of the chain is. -/
  sender : w.locals .sender = c.i
  /-- So is the middle. -/
  middle : w.locals .middle = c.middle
  /-- So is the tail, unless it has returned at the end of its stream. -/
  tail : c.TailAt (w.locals .tail)
  /-- So is the head's `receiver_finale`. -/
  finale : w.locals .finale = c.head
  /-- The bytes on every link are those of the frames in flight, without what the receive there has
  consumed. -/
  streams : ∀ k, Net.framing.Streams (w.receive k) (w.unread k ++ w.outgoing k) (c.net.inFlight k)

/-- Streams that carry the frames of the threads carry those of the chain. -/
theorem OnStreams.of_carries {w : (threads S).Wired Net.framing} (h : Threads.Carries w s)
    (hs : Follows s c) : OnStreams w c where
  sender := (congrFun h.locals .sender).trans hs.sender
  middle := (congrFun h.locals .middle).trans hs.middle
  tail := by
    rw [h.locals]
    exact hs.tail
  finale := (congrFun h.locals .finale).trans hs.finale
  streams k := by
    rw [← hs.net]
    exact h.streams k

/-- A state over TCP carries the frames of a reachable chain. -/
theorem exists_onStreams {capacity : Link → ℕ} {w : (threads S).Wired Net.framing}
    (h : ((threads S).overStreams Net.framing capacity).Reachable w) :
    ∃ c, (chain S Network.fifo).Reachable c ∧ OnStreams w c := by
  obtain ⟨s, hs, hcarries⟩ := (Threads.overStreams_refines (allFramed S)).reachable h
  obtain ⟨c, hc, hfollows⟩ := linked_follows hs
  exact ⟨c, hc, .of_carries hcarries hfollows⟩

/-- Over TCP the programs behave as the chain on FIFO links, whatever pairs of `int`s are sent to
the middle and however the calls of `send` and `recv` cut the frames: for every run there is one of
the chain with the same loops, with the frames in flight whose bytes are under way, and with the
same events, but for the message of a tail that has returned at the end of its stream. -/
theorem chainStreams_run (S : Setup) (capacity : Link → ℕ) {trace : List Event}
    {w : (threads S).Wired Net.framing}
    (h : ((threads S).overStreams Net.framing capacity).Run trace w) :
    ∃ trace' c, (chain S Network.fifo).Run trace' c ∧ OnStreams w c ∧
      c.TraceAt (w.locals .tail) trace trace' := by
  obtain ⟨trace', s, hrun, htrace, hcarries⟩ :=
    (Threads.overStreams_refines (allFramed S)).run h
  rw [List.filterMap_some, List.filterMap_some] at htrace
  subst htrace
  obtain ⟨trace'', c, hrun', hs, hat⟩ := linked_run hrun
  refine ⟨trace'', c, hrun', .of_carries hcarries hs, ?_⟩
  rwa [hcarries.locals]

/-- The first request of the sender has been cut: three of its bytes are in the buffer, and two of
them have been received. -/
theorem chainStreams_run_cut : ∃ trace w,
    ((threads (.experiment zeroHmac 2)).overStreams Net.framing fun _ => 5).Run trace w ∧
      w.unread .toMiddle = [0] ∧ (w.outgoing .toMiddle).length = 41 ∧
      ∃ trace' c, (chain (.experiment zeroHmac 2) Network.fifo).Run trace' c ∧ OnStreams w c ∧
        c.TraceAt (w.locals .tail) trace trace' := by
  have hrun : (((threads (.experiment zeroHmac 2)).overStreams Net.framing fun _ => 5).exec
      (Threads.Wired.start _ _) [.act .sender, .accept .sender 3, .bytes .toMiddle 2]).map
      (fun w => (w.unread .toMiddle, (w.outgoing .toMiddle).length)) = some ([0], 41) := by
    decide +kernel
  obtain ⟨w, hexec, heq⟩ := Option.map_eq_some_iff.mp hrun
  obtain ⟨hunread, houtgoing⟩ := Prod.mk.inj heq
  obtain ⟨trace, htrace⟩ := (Machine.reachable_of_exec hexec).exists_run
  exact ⟨trace, w, htrace, hunread, houtgoing, chainStreams_run (.experiment zeroHmac 2) _ htrace⟩

/-- The requests that the sender has handed to `secure_send`. -/
def sentIdx (w : (threads S).Wired Net.framing) : ℕ := w.locals .sender

/-- The commit index of the middle. -/
def middleCmtIdx (w : (threads S).Wired Net.framing) : ℤ :=
  (Process.state (w.locals .middle) : State).cmtIdx

/-- The commit index of the tail. -/
def tailCmtIdx (w : (threads S).Wired Net.framing) : ℤ :=
  (Process.state (w.locals .tail) : State).cmtIdx

/-- The commit index of the head. -/
def headCmtIdx (w : (threads S).Wired Net.framing) : ℤ :=
  (Process.state (w.locals .finale) : State).cmtIdx

/-- The bytes under way in an experiment on the chain. -/
structure StreamAccount (w : (threads S).Wired Net.framing) : Prop where
  /-- Those to the middle are the requests that it has not committed, without what its receive has
  consumed. -/
  toMiddle : ∃ p, (w.receive .toMiddle).Consumed p ∧
    p ++ (w.unread .toMiddle ++ w.outgoing .toMiddle) =
      ((Int.range (middleCmtIdx w + 1) (sentIdx w)).map S.requestTo).flatten
  /-- Those to the tail are the requests that only the middle has committed, without what its
  receive has consumed. -/
  toTail : ∃ p, (w.receive .toTail).Consumed p ∧
    p ++ (w.unread .toTail ++ w.outgoing .toTail) =
      ((Int.range (tailCmtIdx w + 1) (middleCmtIdx w + 1)).map S.requestTo).flatten
  /-- Those to the head are the acknowledgements that only the tail has committed, without what its
  receive has consumed. -/
  toHead : ∃ p, (w.receive .toHead).Consumed p ∧
    p ++ (w.unread .toHead ++ w.outgoing .toHead) =
      ((Int.range (headCmtIdx w + 1) (tailCmtIdx w + 1)).map S.ack).flatten
  /-- The head is not ahead of the tail. -/
  head_le_tail : headCmtIdx w ≤ tailCmtIdx w
  /-- The tail is not ahead of the middle. -/
  tail_le_middle : tailCmtIdx w ≤ middleCmtIdx w
  /-- The middle is not ahead of the sender. -/
  middle_lt_sent : middleCmtIdx w < sentIdx w
  /-- The middle has not crashed. -/
  middle : Process.status (w.locals .middle) ≠ .crashed
  /-- Neither has the tail. -/
  tail : Process.status (w.locals .tail) ≠ .crashed
  /-- Neither has the head. -/
  finale : Process.status (w.locals .finale) ≠ .crashed

/-- The bytes on streams that carry frames. -/
theorem OnStreams.bytes {w : (threads S).Wired Net.framing} (h : OnStreams w c) {k : Link}
    {frames : List Frame} (hflight : c.net.inFlight k = frames) :
    ∃ p, (w.receive k).Consumed p ∧ p ++ (w.unread k ++ w.outgoing k) = frames.flatten := by
  obtain ⟨p, hp, hflatten, -⟩ := h.streams k
  rw [hflight] at hflatten
  exact ⟨p, hp, hflatten.symm⟩

/-- Over TCP, whatever part of a frame has been sent or received, the bytes under way in an
experiment are exactly those of the frames between the commit indices, and no loop crashes. -/
theorem chainStreams_account (hmac : Hmac) (tailNodeId : Int32) (capacity : Link → ℕ)
    {w : (threads (.experiment hmac tailNodeId)).Wired Net.framing}
    (h : ((threads (.experiment hmac tailNodeId)).overStreams Net.framing capacity).Reachable w) :
    StreamAccount w := by
  obtain ⟨c, hc, hon⟩ := exists_onStreams h
  have haccount := Cluster.account_of_reachable rfl hc
  have hsound := Sound.of_reachable hc
  have hsent : sentIdx w = c.i := hon.sender
  have hmiddle : middleCmtIdx w = c.middle.state.cmtIdx :=
    congrArg (fun p : Process State => p.state.cmtIdx) hon.middle
  have hhead : headCmtIdx w = c.head.state.cmtIdx :=
    congrArg (fun p : Process State => p.state.cmtIdx) hon.finale
  have htail : tailCmtIdx w = c.tail.state.cmtIdx := by
    rcases hon.tail with htail | ⟨htail, -⟩
    · exact congrArg (fun p : Process State => p.state.cmtIdx) htail
    · have hcmt := congrArg (fun p : Process State => p.state.cmtIdx) htail
      exact hcmt
  have hmiddleStatus : Process.status (w.locals .middle) = c.middle.status :=
    congrArg Process.status hon.middle
  have hheadStatus : Process.status (w.locals .finale) = c.head.status :=
    congrArg Process.status hon.finale
  refine ⟨?_, ?_, ?_, ?_, ?_, ?_, ?_, ?_, ?_⟩
  · rw [hmiddle, hsent]
    exact hon.bytes haccount.toMiddle
  · rw [htail, hmiddle]
    exact hon.bytes haccount.toTail
  · rw [hhead, htail]
    exact hon.bytes haccount.toHead
  · rw [hhead, htail]
    exact haccount.head_le_tail
  · rw [htail, hmiddle]
    exact haccount.tail_le_middle
  · rw [hmiddle, hsent]
    exact haccount.middle_lt_i
  · rw [hmiddleStatus]
    rcases hsound.middle with hrunning | ⟨hreturned, -⟩ <;> simp_all
  · rcases hon.tail with htail | ⟨htail, -⟩
    · rw [show Process.status (w.locals .tail) = .running from
        (congrArg Process.status htail).trans hsound.tail]
      decide
    · rw [show Process.status (w.locals .tail) = .returned from congrArg Process.status htail]
      decide
  · rw [hheadStatus]
    rcases hsound.head with hrunning | ⟨hreturned, -⟩ <;> simp_all

/-- The account holds while the first request is being received. -/
theorem chainStreams_account_cut : ∃ w, ((threads (.experiment zeroHmac 2)).overStreams Net.framing
      fun _ => 5).Reachable w ∧ w.unread .toMiddle = [0] ∧ StreamAccount w := by
  have hrun : (((threads (.experiment zeroHmac 2)).overStreams Net.framing fun _ => 5).exec
      (Threads.Wired.start _ _) [.act .sender, .accept .sender 3, .bytes .toMiddle 2]).map
      (fun w => w.unread .toMiddle) = some [0] := by decide +kernel
  obtain ⟨w, hexec, hunread⟩ := Option.map_eq_some_iff.mp hrun
  have hreach := Machine.reachable_of_exec hexec
  exact ⟨w, hreach, hunread, chainStreams_account zeroHmac 2 _ hreach⟩

end TeeReplication.Chain
