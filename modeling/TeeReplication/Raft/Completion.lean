import TeeReplication.Foundations.Simulation
import TeeReplication.Raft.InFlight

/-!
# The length of an experiment

On FIFO links every step of the cluster brings it one step closer to its end: a
request is sent, received or its acknowledgement received, or a loop returns. All
interleavings therefore have the same length.
-/

namespace TeeReplication

namespace Raft

variable {S : Setup} {c c' : Cluster} {f : FollowerId} {l : Lane} {a : Action}
  {events : List Event}

/-- The steps taken for one follower. -/
def Lane.progress (l : Lane) : ℕ :=
  l.requests.length + l.received.length + l.acked.length + l.follower.status.returns +
    l.receiver.status.returns

/-- The steps taken. -/
def Cluster.progress (c : Cluster) : ℕ := (c.lane .one).progress + (c.lane .two).progress

/-- A follower that handles a request goes on. -/
theorem Lane.Ordered.follower_goes_on (hl : l.Ordered S f) {b : Frame}
    {p : Process Follower.Receiver} (hb : b ∈ l.requests)
    (hreceive : (S.follower f).receive l.follower (recvFrame b) = some (p, events)) :
    l.follower.status = .running ∧ p.status = .running := by
  obtain ⟨id, nodeId, hid, hnode, -, rfl⟩ := hl.built_request hb
  obtain ⟨⟨hrunning, -⟩, rfl, -⟩ := Follower.receive_recvFrame hid hnode hreceive
  exact ⟨hrunning, rfl⟩

/-- A receiver of the leader that handles an acknowledgement goes on. -/
theorem Lane.Ordered.receiver_goes_on (hl : l.Ordered S f) {b : Frame}
    {p : Process Leader.Receiver} (hb : b ∈ l.acks)
    (hreceive : S.receiver.receive l.receiver (recvFrame b) = some (p, events)) :
    l.receiver.status = .running ∧ p.status = .running := by
  obtain ⟨k, hlo, hle, rfl⟩ := hl.acks b hb
  have hlt := hle.trans_lt hl.cmtIdx_lt
  obtain ⟨⟨hrunning, -⟩, hgoes, -⟩ := hl.receiver.receive (isInt_of_lt hlo hlt)
    (hlt.trans_le nbRequests_le_intMax) (isInt_toInt _) hreceive
  exact ⟨hrunning, hgoes⟩

/-- A step is one for exactly one follower. -/
theorem Cluster.lane_progress (h : (cluster S Network.fifo).Reachable c)
    (hstep : c.step S Network.fifo a = some (c', events)) :
    ∃ f, ∀ g, (c'.lane g).progress = (c.lane g).progress + if g = f then 1 else 0 := by
  have hlane := (Cluster.ordered_of_reachable h).2
  cases a with
  | send =>
    obtain ⟨⟨s, f⟩, -, heq⟩ := Option.map_eq_some_iff.mp hstep
    obtain ⟨rfl, -⟩ := Prod.mk.inj heq
    refine ⟨f, fun g => ?_⟩
    by_cases hg : g = f
    · subst hg
      simp only [Lane.progress, lane, Network.sent_sendAll_self, Network.delivered_sendAll,
        List.length_append, List.length_singleton, if_true]
      omega
    · simp [Lane.progress, lane, hg]
  | deliver d =>
    obtain ⟨b, hpolicy, hframe, harrive⟩ := step_deliver_eq_some hstep
    have hmem := List.mem_of_getElem? (Network.fifo_frame hpolicy hframe).2
    obtain ⟨source, target, index⟩ := d
    cases target with
    | request f =>
      obtain ⟨⟨p, t⟩, hreceive, heq⟩ := Option.map_eq_some_iff.mp harrive
      obtain ⟨rfl, -⟩ := Prod.mk.inj heq
      obtain ⟨hrunning, hgoes⟩ := (hlane f).follower_goes_on hmem hreceive
      refine ⟨f, fun g => ?_⟩
      by_cases hg : g = f
      · subst hg
        have hrunning' : (c.follower g).status = .running := hrunning
        have hgoes' : p.status = .running := hgoes
        simp [Lane.progress, lane, hrunning', hgoes']
        omega
      · simp [Lane.progress, lane, hg]
    | ack f =>
      obtain ⟨⟨p, t⟩, hreceive, heq⟩ := Option.map_eq_some_iff.mp harrive
      obtain ⟨rfl, -⟩ := Prod.mk.inj heq
      obtain ⟨hrunning, hgoes⟩ := (hlane f).receiver_goes_on hmem hreceive
      refine ⟨f, fun g => ?_⟩
      by_cases hg : g = f
      · subst hg
        have hrunning' : (c.receiver g).status = .running := hrunning
        have hgoes' : p.status = .running := hgoes
        simp [Lane.progress, lane, hrunning', hgoes']
        omega
      · simp [Lane.progress, lane, hg]
  | finishFollower f =>
    obtain ⟨⟨p, t⟩, hfinish, heq⟩ := Option.map_eq_some_iff.mp hstep
    obtain ⟨rfl, -⟩ := Prod.mk.inj heq
    obtain ⟨hrunning, -, rfl⟩ := Follower.finish_eq_some hfinish
    refine ⟨f, fun g => ?_⟩
    by_cases hg : g = f
    · subst hg
      simp [Lane.progress, lane, hrunning, Status.returns]
      omega
    · simp [Lane.progress, lane, hg]
  | finishReceiver f =>
    obtain ⟨⟨p, t⟩, hfinish, heq⟩ := Option.map_eq_some_iff.mp hstep
    obtain ⟨rfl, -⟩ := Prod.mk.inj heq
    obtain ⟨hrunning, -, rfl⟩ := (hlane f).receiver.finish hfinish
    have hrunning' : (c.receiver f).status = .running := hrunning
    refine ⟨f, fun g => ?_⟩
    by_cases hg : g = f
    · subst hg
      simp [Lane.progress, lane, hrunning', Status.returns]
    · simp [Lane.progress, lane, hg]

/-- Every step is one more. -/
theorem Cluster.progress_step (h : (cluster S Network.fifo).Reachable c)
    (hstep : c.step S Network.fifo a = some (c', events)) : c'.progress = c.progress + 1 := by
  obtain ⟨f, hf⟩ := Cluster.lane_progress h hstep
  rw [progress, progress, hf, hf]
  cases f <;> simp <;> omega

/-- No more steps are taken for one follower than it has requests to be sent, received and
acknowledged, and loops to return. -/
theorem Lane.Ordered.progress_le (hl : l.Ordered S f) :
    (l.progress : ℤ) ≤ 3 * nbRequests + 2 := by
  have hrequests := hl.length_requests
  have hsent := hl.sentTo_le
  have hreceived := hl.received_le_nbRequests
  have hacked := hl.acked_le_nbRequests
  have hfollower := Status.returns_le l.follower.status
  have hreceiver := Status.returns_le l.receiver.status
  rw [Lane.progress]
  push_cast
  omega

/-- Nor are more steps taken in all. -/
theorem Cluster.progress_le (h : (cluster S Network.fifo).Reachable c) :
    (c.progress : ℤ) ≤ 6 * nbRequests + 4 := by
  have hlane := (Cluster.ordered_of_reachable h).2
  have hone := (hlane .one).progress_le
  have htwo := (hlane .two).progress_le
  rw [progress]
  push_cast
  omega

/-- When everything about a follower is finished, all its steps have been taken. -/
theorem Cluster.Finished.progress_eq (hl : (c.lane f).Ordered S f) (hf : c.Finished f) :
    ((c.lane f).progress : ℤ) = 3 * nbRequests + 2 := by
  have hreceived : ((c.lane f).received.length : ℤ) = nbRequests := by
    have hcmt : c.followerCmtIdx f = (c.lane f).received.length - 1 := hl.follower_cmtIdx
    have hlast := hf.followerCmtIdx
    omega
  have hacked : ((c.lane f).acked.length : ℤ) = nbRequests := by
    have hcmt : c.leaderCmtIdx f = (c.lane f).acked.length - 1 := hl.receiver_cmtIdx
    have hlast := hf.leaderCmtIdx
    omega
  have hfollower : (c.lane f).follower.status.returns = 1 := by
    change (c.follower f).status.returns = 1
    rw [hf.follower_returned]
    rfl
  have hreceiver : (c.lane f).receiver.status.returns = 1 := by
    change (c.receiver f).status.returns = 1
    rw [hf.receiver_returned]
    rfl
  have hrequests : ((c.lane f).requests.length : ℤ) = nbRequests := hf.requests_sent
  rw [Lane.progress, hfollower, hreceiver]
  push_cast
  omega

/-- The cluster on FIFO links stops. -/
theorem cluster_halts (S : Setup) : (cluster S Network.fifo).Halts fun _ _ => True :=
  Machine.halts_of_count Cluster.progress (6 * nbRequests + 4).toNat
    (fun _ _ _ _ h hstep => Cluster.progress_step h hstep)
    fun _ h => by have hle := Cluster.progress_le h; omega

/-- On FIFO links every interleaving comes to its end after the same number of steps, and only
there: six for each request, and one for each loop that returns. -/
theorem experiment_length (S : Setup) {actions : List Action} {c : Cluster}
    (hexec : (cluster S Network.fifo).exec (Cluster.start S) actions = some c) :
    (actions.length : ℤ) ≤ 6 * nbRequests + 4 ∧
      ((∀ a, c.step S Network.fifo a = none) ↔ (actions.length : ℤ) = 6 * nbRequests + 4) := by
  have h := Machine.reachable_of_exec hexec
  have hlength : c.progress = actions.length := by
    refine Machine.count_eq_length Cluster.progress ?_ ?_ hexec
    · simp [cluster, Cluster.progress, Lane.progress, Lane.start, EventLoop.enter, Status.returns]
    · intro s a t events hs hstep
      exact Cluster.progress_step hs hstep
  have hle := Cluster.progress_le h
  rw [← hlength]
  refine ⟨hle, fun hstuck => ?_, fun hall a => ?_⟩
  · obtain ⟨hsender, hlane⟩ := Cluster.ordered_of_reachable h
    have hone := ((hlane .one).finished hsender hstuck).progress_eq (hlane .one)
    have htwo := ((hlane .two).finished hsender hstuck).progress_eq (hlane .two)
    rw [Cluster.progress]
    push_cast
    omega
  · cases hstep : c.step S Network.fifo a with
    | none => rfl
    | some r =>
      obtain ⟨c', events⟩ := r
      have hnext := Cluster.progress_step h hstep
      have hbound := Cluster.progress_le (h.next hstep)
      omega

/-- After its first step an experiment is not over. -/
theorem experiment_length_send : ∃ c,
    (cluster .example Network.fifo).exec (Cluster.start .example) [.send] = some c ∧
      ∃ a, c.step .example Network.fifo a ≠ none := by
  have hrun : ((cluster .example Network.fifo).exec (Cluster.start .example) [.send]).isSome =
      true := by decide +kernel
  obtain ⟨c, hexec⟩ := Option.isSome_iff_exists.mp hrun
  have hpos := nbRequests_pos
  refine ⟨c, hexec, ?_⟩
  by_contra! hall
  have hlength := (experiment_length .example hexec).2.mp hall
  rw [List.length_singleton] at hlength
  omega

end Raft

end TeeReplication
