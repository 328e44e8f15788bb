import TeeReplication.Chain.Completion
import TeeReplication.Chain.Startup
import TeeReplication.Foundations.Phases

/-!
# The programs of the chain as a whole

As with raft, each program starts its threads when its own connections are made.
Provided that the others listen in time, the head included when the tail connects to
it, a whole experiment comes to an end and is complete there, and no program closes its
sockets before all the others have made their connections. As there, programs that exit
while they connect are not followed further.
-/

namespace TeeReplication.Chain

variable (hmac : Hmac) (tailNodeId : Int32)

/-- The three programs, from the start of `main` on. -/
abbrev programs (capacity : Link → ℕ) :
    Machine (Rendezvous.State Node (Net.Endpoint Node) ×
        (threads (.experiment hmac tailNodeId)).Wired Net.framing)
      (Node ⊕ Call Thread Link) (Notice Node (Net.Endpoint Node) ⊕ Event) :=
  program Node.main (threads (.experiment hmac tailNodeId)) Net.framing capacity Thread.node

/-- All threads of a program have returned. -/
def Node.Over {S : Setup} (p : Node) (w : (threads S).Wired Net.framing) : Prop :=
  ∀ t : Thread, t.node = p → (threads S).returned t (w.locals t) = true

variable {hmac tailNodeId} {capacity : Link → ℕ}
  {x : Rendezvous.State Node (Net.Endpoint Node) ×
    (threads (.experiment hmac tailNodeId)).Wired Net.framing}

/-- When a program is over, the head has sent something and the middle has committed something. -/
theorem moved_of_over {w : (threads (.experiment hmac tailNodeId)).Wired Net.framing} {p : Node}
    (hover : p.Over w)
    (h : ((threads (.experiment hmac tailNodeId)).overStreams Net.framing capacity).Reachable w) :
    0 < sentIdx w ∧ 0 ≤ middleCmtIdx w := by
  obtain ⟨c, hc, hon⟩ := exists_onStreams h
  have haccount := Cluster.account_of_reachable rfl hc
  have hsound := Sound.of_reachable hc
  have hlt := haccount.middle_lt_i
  have hpos := nbRequests_pos
  have hsent : sentIdx w = c.i := hon.sender
  have hmiddle : middleCmtIdx w = c.middle.state.cmtIdx :=
    congrArg (fun p : Process State => p.state.cmtIdx) hon.middle
  have hlast (hreturned : c.middle.status = .returned) : 0 < sentIdx w ∧ 0 ≤ middleCmtIdx w := by
    rcases hsound.middle with hrunning | ⟨-, hlast⟩
    · cases hreturned.symm.trans hrunning
    · constructor <;> omega
  cases p with
  | head =>
    have hreturned : Process.status (w.locals .finale) = .returned :=
      beq_iff_eq.mp (hover .finale rfl)
    rw [hon.finale] at hreturned
    rcases hsound.head with hrunning | ⟨-, hall⟩
    · cases hreturned.symm.trans hrunning
    · have hle := haccount.head_le_tail.trans haccount.tail_le_middle
      constructor <;> omega
  | middle =>
    have hreturned : Process.status (w.locals .middle) = .returned :=
      beq_iff_eq.mp (hover .middle rfl)
    rw [hon.middle] at hreturned
    exact hlast hreturned
  | tail =>
    have hreturned : Process.status (w.locals .tail) = .returned :=
      beq_iff_eq.mp (hover .tail rfl)
    rcases hon.tail with htail | ⟨-, hended⟩
    · rw [htail] at hreturned
      cases hreturned.symm.trans hsound.tail
    · exact hlast hended.middle

/-- When a program is over, all of them have made their connections. -/
theorem done_of_over {p : Node} (h : (programs hmac tailNodeId capacity).Reachable x)
    (hover : p.Over x.2) (q : Node) : x.1.Done Node.main q := by
  obtain ⟨hs, hw⟩ := h.of_gated
  obtain ⟨hsent, hcmt⟩ := moved_of_over hover hw
  have hhead : x.1.Done Node.main .head := by
    refine done_of_moved (t := .sender) h fun hstart => ?_
    have hzero : sentIdx x.2 = 0 := hstart
    omega
  cases q with
  | head => exact hhead
  | middle =>
    refine done_of_moved (t := .middle) h fun hstart => ?_
    have hinit : middleCmtIdx x.2 = -1 := congrArg (fun p : Process State => p.state.cmtIdx) hstart
    omega
  | tail =>
    -- its last call connects to the head, which has accepted this
    have hconnected := plan.connected_of_done hs (links.mem .toHead) hhead
    have hdialer : plan.dialer (links.address .toHead) = .tail := links.dialer_eq .toHead
    rw [hdialer] at hconnected
    exact Rendezvous.lt_next_of_count (n := 3) (by decide) hconnected

/-- If every program listens before the last attempt to connect to it, the experiment as a whole
comes to an end, and everything is committed there. As long as `recv` does not give negative results
forever, no run goes on forever, and where nothing can happen all connections are made between the
right programs, all requests are committed everywhere, all loops have returned and no byte is left;
and by the time that a program is over, all of them have made their connections. -/
theorem chain_programs_complete (hmac : Hmac) (tailNodeId : Int32) (capacity : Link → ℕ)
    (hcapacity : ∀ k, 0 < capacity k) :
    (programs hmac tailNodeId capacity).Halts
        (Machine.both (Rendezvous.InTime Node.main) fun _ call => call.Productive) ∧
      (∀ x, (programs hmac tailNodeId capacity).Reachable x →
        ∀ p : Node, p.Over x.2 → ∀ q, x.1.Done Node.main q) ∧
      ∀ x, (programs hmac tailNodeId capacity).ReachableBy
          (Machine.both (Rendezvous.InTime Node.main) fun _ _ => True) x →
        (programs hmac tailNodeId capacity).Stuck
          (Machine.both (fun _ _ => True) fun _ call => call.Productive) x →
        links.Wired x.1 ∧
          (∃ c, (chain (.experiment hmac tailNodeId) Network.fifo).Reachable c ∧
            OnStreams x.2 c ∧ c.Finished) ∧
          (∀ t, (threads (.experiment hmac tailNodeId)).returned t (x.2.locals t) = true) ∧
          (∀ k, x.2.unread k = []) ∧ ∀ t, x.2.outbox t = [] := by
  have hhalts : ((threads (.experiment hmac tailNodeId)).overStreams Net.framing capacity).Halts
      fun _ call => call.Productive :=
    Threads.overStreams_halts (allFramed _) (linked_halts hmac tailNodeId)
  have hconnects : (rendezvous Node.main).Halts (Rendezvous.InTime Node.main) :=
    (Rendezvous.halts Node.main).mono fun _ _ _ => trivial
  refine ⟨hconnects.gated hhalts, fun x hx p hover q => done_of_over hx hover q,
    fun x hx hstuck => ?_⟩
  obtain ⟨hfirst, hsecond⟩ := hstuck.of_gated
  obtain ⟨hs, hw⟩ := hx.of_gated
  have hwired := links.wired_of_inTime hs fun p => hfirst p trivial
  exact ⟨hwired, finished_of_stuck hmac tailNodeId hcapacity hw
    (hsecond fun call => hwired.done _)⟩

/-- The middle and the tail can listen first, and then everybody makes its connections. -/
theorem exists_connected : ∃ s, (rendezvous Node.main).ReachableBy
    (Rendezvous.InTime Node.main) s ∧ (∀ p, s.step Node.main p = none) ∧
      ∀ p, s.Done Node.main p := by
  have hrun : ((rendezvous Node.main).execBy (Rendezvous.InTime Node.main) .start
      [.middle, .tail, .head, .head, .middle, .middle, .middle, .middle, .tail, .tail, .head,
        .head, .tail, .head, .middle]).map
      (fun s => decide ((∀ p, (s.step Node.main p).isNone = true) ∧ ∀ p, s.Done Node.main p)) =
        some true := by decide +kernel
  obtain ⟨s, hexec, hend⟩ := Option.map_eq_some_iff.mp hrun
  obtain ⟨hstuck, hdone⟩ := of_decide_eq_true hend
  exact ⟨s, Machine.ReachableBy.execBy .start hexec,
    fun p => Option.isNone_iff_eq_none.mp (hstuck p), hdone⟩

/-- One byte of room on every link is enough: a whole experiment comes to an end, with all
connections made, everything committed, all loops returned and no byte left. -/
theorem chain_programs_complete_one_byte :
    (programs zeroHmac 2 fun _ => 1).Halts
        (Machine.both (Rendezvous.InTime Node.main) fun _ call => call.Productive) ∧
      ∃ x, (programs zeroHmac 2 fun _ => 1).ReachableBy
          (Machine.both (Rendezvous.InTime Node.main) fun _ _ => True) x ∧
        links.Wired x.1 ∧
        (∃ c, (chain (.experiment zeroHmac 2) Network.fifo).Reachable c ∧ OnStreams x.2 c ∧
          c.Finished) ∧
        (∀ t, (threads (.experiment zeroHmac 2)).returned t (x.2.locals t) = true) ∧
        (∀ k, x.2.unread k = []) ∧ ∀ t, x.2.outbox t = [] := by
  obtain ⟨hhalts, -, hend⟩ :=
    chain_programs_complete zeroHmac 2 (fun _ => 1) fun _ => Nat.one_pos
  obtain ⟨s, hs, hfirst, hdone⟩ := exists_connected
  have hthreads : ((threads (.experiment zeroHmac 2)).overStreams Net.framing fun _ => 1).Halts
      fun _ call => call.Productive :=
    Threads.overStreams_halts (allFramed _) (linked_halts zeroHmac 2)
  obtain ⟨w, hw, hsecond⟩ := hthreads.exists_stuck
  have hreach : (programs zeroHmac 2 fun _ => 1).ReachableBy
      (Machine.both (Rendezvous.InTime Node.main) fun _ _ => True) (s, w) :=
    hs.gated (fun call => hdone _) hw
  exact ⟨hhalts, (s, w), hreach, hend (s, w) hreach (Machine.Stuck.gated (fun p _ => hfirst p)
    hsecond)⟩

end TeeReplication.Chain
