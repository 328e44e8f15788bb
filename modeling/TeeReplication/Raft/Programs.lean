import TeeReplication.Foundations.Phases
import TeeReplication.Raft.Startup

/-!
# The raft programs as a whole

Each program starts its threads when its own connections are made; the others may still
be connecting. Provided that no attempt to connect comes too early for the last time, a
whole experiment, from the first calls of the three `main` to the last acknowledgement,
comes to an end and is complete there. No program is over, and closes its sockets,
before all the others have made their connections. A program that exits while it
connects closes them as well; what the others read then is not part of this model.
-/

namespace TeeReplication.Raft

/-- The three programs, from the start of `main` on. -/
abbrev programs (S : Setup) (capacity : Link → ℕ) :
    Machine (Rendezvous.State Node (Net.Endpoint Node) × (threads S).Wired Net.framing)
      (Node ⊕ Call Thread Link) (Notice Node (Net.Endpoint Node) ⊕ Event) :=
  program Node.main (threads S) Net.framing capacity Thread.node

/-- All threads of a program have returned. -/
def Node.Over {S : Setup} (p : Node) (w : (threads S).Wired Net.framing) : Prop :=
  ∀ t : Thread, t.node = p → (threads S).returned t (w.locals t) = true

variable {S : Setup} {capacity : Link → ℕ}
  {x : Rendezvous.State Node (Net.Endpoint Node) × (threads S).Wired Net.framing}

/-- When a program is over, the sender has sent something. -/
theorem sentTo_pos_of_over {w : (threads S).Wired Net.framing} {p : Node} (hover : p.Over w)
    (h : ((threads S).overStreams Net.framing capacity).Reachable w) :
    ∃ f, 0 < Sender.sentTo (w.locals .sender) f := by
  obtain ⟨c, hc, s, -, hcarries, rfl⟩ :=
    ((Threads.overStreams_refines (allFramed S)).trans (linked_refines S)).reachable h
  have hon := OnStreams.of_carries hcarries
  obtain ⟨hvalid, hordered⟩ := Cluster.ordered_of_reachable hc
  have hpos := nbRequests_pos
  cases p with
  | leader =>
    have hreturned := hover .sender rfl
    refine ⟨.one, ?_⟩
    rw [hon.sender] at hreturned ⊢
    have hnone := Option.isNone_iff_eq_none.mp hreturned
    have hall := Sender.sentTo_of_advance_eq_none hvalid hnone .one
    omega
  | follower f =>
    have hreturned : Process.status (w.locals (.follower f)) = .returned :=
      beq_iff_eq.mp (hover (.follower f) rfl)
    refine ⟨f, ?_⟩
    rw [hon.follower] at hreturned
    rw [hon.sender]
    rcases (hordered f).follower_status with hrunning | ⟨-, hall⟩
    · cases hreturned.symm.trans hrunning
    · have hle : ((toCluster s).net.delivered (.request f)).length ≤
          (toCluster s).sender.sentTo f := (hordered f).received_le
      have hall : (((toCluster s).net.delivered (.request f)).length : ℤ) = nbRequests := hall
      omega

/-- A program that is over has not begun before the leader had made its connections. -/
theorem leader_done_of_over {p : Node} (h : (programs S capacity).Reachable x)
    (hover : p.Over x.2) : x.1.Done Node.main .leader := by
  obtain ⟨f, hpos⟩ := sentTo_pos_of_over hover h.of_gated.2
  refine done_of_moved (t := .sender) h fun hstart => ?_
  rw [hstart] at hpos
  have hzero : Sender.sentTo ⟨0, S.clusterInfo⟩ f = 0 := if_pos (S.mem_clusterInfo f)
  exact absurd hzero hpos.ne'

/-- When a program is over, all of them have made their connections. -/
theorem done_of_over {p : Node} (h : (programs S capacity).Reachable x) (hover : p.Over x.2)
    (q : Node) : x.1.Done Node.main q := by
  have hleader := leader_done_of_over h hover
  cases q with
  | leader => exact hleader
  | follower f =>
    -- its last call connects to the leader, which has accepted this
    have hconnected := plan.connected_of_done h.of_gated.1 (links.mem (.ack f)) hleader
    have hdialer : plan.dialer (links.address (.ack f)) = .follower f := links.dialer_eq (.ack f)
    rw [hdialer] at hconnected
    exact Rendezvous.lt_next_of_count (n := 2) (by cases f <;> decide) hconnected

/-- If every program listens before the last attempt to connect to it, the experiment as a whole
comes to an end, and everything is committed there. As long as `recv` does not give negative results
forever, no run goes on forever, and where nothing can happen all connections are made between the
right programs, all requests are committed by everybody, all loops have returned and no byte is
left; and by the time that a program is over, all of them have made their connections. -/
theorem programs_complete (S : Setup) (capacity : Link → ℕ) (hcapacity : ∀ k, 0 < capacity k) :
    (programs S capacity).Halts
        (Machine.both (Rendezvous.InTime Node.main) fun _ call => call.Productive) ∧
      (∀ x, (programs S capacity).Reachable x →
        ∀ p : Node, p.Over x.2 → ∀ q, x.1.Done Node.main q) ∧
      ∀ x, (programs S capacity).ReachableBy
          (Machine.both (Rendezvous.InTime Node.main) fun _ _ => True) x →
        (programs S capacity).Stuck
          (Machine.both (fun _ _ => True) fun _ call => call.Productive) x →
        links.Wired x.1 ∧
          (∃ c, (cluster S Network.fifo).Reachable c ∧ OnStreams x.2 c ∧ ∀ f, c.Finished f) ∧
          (∀ k, x.2.unread k = []) ∧ ∀ t, x.2.outbox t = [] := by
  have hhalts : ((threads S).overStreams Net.framing capacity).Halts
      fun _ call => call.Productive := Threads.overStreams_halts (allFramed S) (linked_halts S)
  have hconnects : (rendezvous Node.main).Halts (Rendezvous.InTime Node.main) :=
    (Rendezvous.halts Node.main).mono fun _ _ _ => trivial
  refine ⟨hconnects.gated hhalts, fun x hx p hover q => done_of_over hx hover q,
    fun x hx hstuck => ?_⟩
  obtain ⟨hfirst, hsecond⟩ := hstuck.of_gated
  obtain ⟨hs, hw⟩ := hx.of_gated
  have hwired := links.wired_of_inTime hs fun p => hfirst p trivial
  exact ⟨hwired, finished_of_stuck hcapacity hw (hsecond fun call => hwired.done _)⟩

/-- The followers can listen first, and then everybody makes its connections. -/
theorem exists_connected : ∃ s, (rendezvous Node.main).ReachableBy
    (Rendezvous.InTime Node.main) s ∧ (∀ p, s.step Node.main p = none) ∧
      ∀ p, s.Done Node.main p := by
  have hrun : ((rendezvous Node.main).execBy (Rendezvous.InTime Node.main) .start
      [.follower .one, .follower .two, .leader, .leader, .follower .one, .follower .one, .leader,
        .leader, .leader, .follower .two, .follower .two, .leader]).map
      (fun s => decide ((∀ p, (s.step Node.main p).isNone = true) ∧ ∀ p, s.Done Node.main p)) =
        some true := by decide +kernel
  obtain ⟨s, hexec, hend⟩ := Option.map_eq_some_iff.mp hrun
  obtain ⟨hstuck, hdone⟩ := of_decide_eq_true hend
  exact ⟨s, Machine.ReachableBy.execBy .start hexec,
    fun p => Option.isNone_iff_eq_none.mp (hstuck p), hdone⟩

/-- One byte of room on every link is enough: a whole experiment comes to an end, with all
connections made, everything committed, all loops returned and no byte left. -/
theorem programs_complete_one_byte :
    (programs .example fun _ => 1).Halts
        (Machine.both (Rendezvous.InTime Node.main) fun _ call => call.Productive) ∧
      ∃ x, (programs .example fun _ => 1).ReachableBy
          (Machine.both (Rendezvous.InTime Node.main) fun _ _ => True) x ∧
        links.Wired x.1 ∧
        (∃ c, (cluster .example Network.fifo).Reachable c ∧ OnStreams x.2 c ∧
          ∀ f, c.Finished f) ∧
        (∀ k, x.2.unread k = []) ∧ ∀ t, x.2.outbox t = [] := by
  obtain ⟨hhalts, -, hend⟩ := programs_complete .example (fun _ => 1) fun _ => Nat.one_pos
  obtain ⟨s, hs, hfirst, hdone⟩ := exists_connected
  have hthreads : ((threads .example).overStreams Net.framing fun _ => 1).Halts
      fun _ call => call.Productive := Threads.overStreams_halts (allFramed _) (linked_halts _)
  obtain ⟨w, hw, hsecond⟩ := hthreads.exists_stuck
  have hreach : (programs .example fun _ => 1).ReachableBy
      (Machine.both (Rendezvous.InTime Node.main) fun _ _ => True) (s, w) :=
    hs.gated (fun call => hdone _) hw
  exact ⟨hhalts, (s, w), hreach, hend (s, w) hreach (Machine.Stuck.gated (fun p _ => hfirst p)
    hsecond)⟩

end TeeReplication.Raft
