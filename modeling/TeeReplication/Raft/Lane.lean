import TeeReplication.Raft.Cluster

/-!
# One follower's part of the cluster

A lane is what concerns one follower: the requests sent to it, its loop, its
acknowledgements and the leader's receiver for it. Every move of the cluster is a
move of each lane, most often an idle one, so that invariants of lanes are
invariants of the cluster. Which frames may arrive on a lane is left open here; it
depends on the policy of the links.
-/

namespace TeeReplication.Raft

/-- The part of a cluster that belongs to one follower. -/
structure Lane where
  /-- How many requests the sender has sent to the follower. -/
  sentTo : ℕ
  /-- The frames sent to the follower. -/
  requests : List Frame
  /-- The frames that the follower has received. -/
  received : List Frame
  /-- The follower's loop. -/
  follower : Process Follower.Receiver
  /-- The frames that the follower has sent. -/
  acks : List Frame
  /-- The frames that the leader's receiver has received. -/
  acked : List Frame
  /-- The loop of the leader's receiver. -/
  receiver : Process Leader.Receiver

/-- The lane of a follower. -/
def Cluster.lane (c : Cluster) (f : FollowerId) : Lane where
  sentTo := c.sender.sentTo f
  requests := c.net.sent (.request f)
  received := c.net.delivered (.request f)
  follower := c.follower f
  acks := c.net.sent (.ack f)
  acked := c.net.delivered (.ack f)
  receiver := c.receiver f

/-- Before the first move. -/
def Lane.start : Lane :=
  ⟨0, [], [], EventLoop.enter .init, [], [], EventLoop.enter .init⟩

/-- The moves of a lane, on which the frames `Req` may arrive at the follower and the frames
`Ack` at the leader's receiver. -/
inductive Lane.Move (S : Setup) (f : FollowerId) (Req Ack : Frame → Prop) (l : Lane) : Lane → Prop
  /-- Another lane moves. -/
  | idle : Move S f Req Ack l l
  /-- The sender sends the next request to the follower. -/
  | send : (l.sentTo : ℤ) < nbRequests → Move S f Req Ack l
      { l with sentTo := l.sentTo + 1, requests := l.requests ++ [S.request f l.sentTo] }
  /-- The follower handles a frame. -/
  | receiveRequest {b : Frame} {p : Process Follower.Receiver} {events : List Event} : Req b →
      (S.follower f).receive l.follower (recvFrame b) = some (p, events) → Move S f Req Ack l
        { l with
          received := l.received ++ [b], follower := p, acks := l.acks ++ sentFrames events }
  /-- The leader's receiver handles a frame. -/
  | receiveAck {b : Frame} {p : Process Leader.Receiver} {events : List Event} : Ack b →
      S.receiver.receive l.receiver (recvFrame b) = some (p, events) →
      Move S f Req Ack l { l with acked := l.acked ++ [b], receiver := p }
  /-- The follower returns. -/
  | finishFollower {p : Process Follower.Receiver} {events : List Event} :
      (S.follower f).finish l.follower = some (p, events) →
      Move S f Req Ack l { l with follower := p }
  /-- The leader's receiver returns. -/
  | finishReceiver {p : Process Leader.Receiver} {events : List Event} :
      S.receiver.finish l.receiver = some (p, events) →
      Move S f Req Ack l { l with receiver := p }

/-- A move of a lane stays one when more frames may arrive. -/
theorem Lane.Move.mono {S : Setup} {f : FollowerId} {Req Req' Ack Ack' : Frame → Prop}
    {l l' : Lane} (hmove : l.Move S f Req Ack l') (hreq : ∀ b, Req b → Req' b)
    (hack : ∀ b, Ack b → Ack' b) : l.Move S f Req' Ack' l' := by
  cases hmove with
  | idle => exact .idle
  | send hlt => exact .send hlt
  | receiveRequest hb hreceive => exact .receiveRequest (hreq _ hb) hreceive
  | receiveAck hb hreceive => exact .receiveAck (hack _ hb) hreceive
  | finishFollower hfinish => exact .finishFollower hfinish
  | finishReceiver hfinish => exact .finishReceiver hfinish

/-- What holds of the sender's position: the connections left are the last ones of the round,
and the round is not the one after the last. -/
structure Sender.Valid (S : Setup) (s : Sender) : Prop where
  /-- The connections left are at the end of the round. -/
  suffix : s.connections <:+ S.clusterInfo
  /-- The current request is one of the experiment. -/
  lt : (s.i : ℤ) < nbRequests

namespace Setup

variable (S : Setup)

/-- Every follower is visited in a round. -/
theorem mem_clusterInfo (f : FollowerId) : f ∈ S.clusterInfo := by
  rw [S.clusterInfo_perm.mem_iff]
  cases f <;> decide

/-- No follower is visited twice in a round. -/
theorem nodup_clusterInfo : S.clusterInfo.Nodup :=
  S.clusterInfo_perm.nodup_iff.mpr (by decide)

end Setup

variable {S : Setup} {policy : Policy Link Frame} {c c' : Cluster} {f : FollowerId}
  {a : Action} {events : List Event}

/-- Before the first round all connections are left. -/
theorem Sender.valid_start : Sender.Valid S ⟨0, S.clusterInfo⟩ :=
  ⟨List.suffix_rfl, nbRequests_pos⟩

/-- A frame of the sender is the next request to one follower and nothing to the other. -/
theorem Sender.advance_spec {s s' : Sender} (hs : s.Valid S)
    (hadvance : s.advance S = some (s', f)) :
    s'.Valid S ∧ s'.i = s.sentTo f ∧ s'.sentTo f = s.sentTo f + 1 ∧
      ∀ g, g ≠ f → s'.sentTo g = s.sentTo g := by
  obtain ⟨i, connections⟩ := s
  obtain ⟨hsuffix, hlt⟩ := hs
  have hnodup := S.nodup_clusterInfo.sublist hsuffix.sublist
  cases connections with
  | cons f' rest =>
    obtain ⟨rfl, rfl⟩ : ⟨i, rest⟩ = s' ∧ f' = f := by
      simpa [advance] using hadvance
    have hf : f' ∉ rest := (List.nodup_cons.mp hnodup).1
    refine ⟨⟨(List.suffix_cons _ _).trans hsuffix, hlt⟩, ?_, ?_, fun g hg => ?_⟩ <;>
      simp [sentTo, *]
  | nil =>
    cases hinfo : S.clusterInfo with
    | nil => simp [advance, hinfo] at hadvance
    | cons f' rest =>
      obtain ⟨hnext, rfl, rfl⟩ : ((i : ℤ) + 1 < nbRequests) ∧ ⟨i + 1, rest⟩ = s' ∧ f' = f := by
        simpa [advance, hinfo] using hadvance
      have hf : f' ∉ rest := (List.nodup_cons.mp (hinfo ▸ S.nodup_clusterInfo)).1
      refine ⟨⟨hinfo ▸ List.suffix_cons _ _, by simpa using hnext⟩, rfl, ?_, fun g hg => ?_⟩
      · simp [sentTo, hf]
      · have hmem : g ∈ rest := by
          have hg' := S.mem_clusterInfo g
          rw [hinfo, List.mem_cons] at hg'
          exact hg'.resolve_left hg
        simp [sentTo, hmem]

/-- The sender stops exactly when it has sent every request to everybody. -/
theorem Sender.sentTo_of_advance_eq_none {s : Sender} (hs : s.Valid S)
    (hdone : s.advance S = none) (f : FollowerId) : (s.sentTo f : ℤ) = nbRequests := by
  obtain ⟨i, connections⟩ := s
  have hlt := hs.lt
  cases connections with
  | cons f' rest => simp [advance] at hdone
  | nil =>
    have hlast : nbRequests ≤ (i : ℤ) + 1 := by
      cases hinfo : S.clusterInfo with
      | nil => simpa [hinfo] using S.mem_clusterInfo f
      | cons f' rest => simpa [advance, hinfo] using hdone
    have hsent : (⟨i, []⟩ : Sender).sentTo f = i + 1 := if_neg List.not_mem_nil
    rw [hsent]
    change (i : ℤ) < nbRequests at hlt
    push_cast
    omega

/-- A frame that the policy lets arrive at the end of a link. -/
def Deliverable (policy : Policy Link Frame) (c : Cluster) (target : Link) (b : Frame) : Prop :=
  ∃ d, d.target = target ∧ policy c.net d = true ∧ c.net.frame d = some b

/-- A delivery hands over a frame that the policy allows, and the loop at the end of the link
handles it. -/
theorem Cluster.step_deliver_eq_some {d : Delivery Link}
    (hstep : c.step S policy (.deliver d) = some (c', events)) :
    ∃ b, policy c.net d = true ∧ c.net.frame d = some b ∧
      c.arrive S b d.target = some (c', events) := by
  rw [step] at hstep
  split at hstep
  · rename_i hpolicy
    obtain ⟨b, hframe, harrive⟩ := Option.bind_eq_some_iff.mp hstep
    exact ⟨b, hpolicy, hframe, harrive⟩
  · cases hstep

/-- A move of the cluster is a move of every lane. -/
theorem Cluster.lane_move (hs : c.sender.Valid S) (hstep : c.step S policy a = some (c', events))
    (f : FollowerId) :
    Lane.Move S f (Deliverable policy c (.request f)) (Deliverable policy c (.ack f))
      (c.lane f) (c'.lane f) := by
  cases a with
  | send =>
    obtain ⟨⟨s, g⟩, hadvance, heq⟩ := Option.map_eq_some_iff.mp hstep
    obtain ⟨rfl, -⟩ := Prod.mk.inj heq
    obtain ⟨hvalid, hi, hself, hother⟩ := Sender.advance_spec hs hadvance
    by_cases hfg : f = g
    · subst hfg
      have hlt : (c.sender.sentTo f : ℤ) < nbRequests := hi ▸ hvalid.lt
      convert Lane.Move.send (l := c.lane f) hlt using 1
      simp [Cluster.lane, hself, hi]
    · simpa [Cluster.lane, hother f hfg, hfg] using Lane.Move.idle
  | deliver d =>
    obtain ⟨b, hpolicy, hframe, harrive⟩ := step_deliver_eq_some hstep
    obtain ⟨source, target, index⟩ := d
    cases target with
    | request g =>
      obtain ⟨⟨p, t⟩, hreceive, heq⟩ := Option.map_eq_some_iff.mp harrive
      obtain ⟨rfl, -⟩ := Prod.mk.inj heq
      by_cases hfg : f = g
      · subst hfg
        have hb : Deliverable policy c (.request f) b := ⟨_, rfl, hpolicy, hframe⟩
        convert Lane.Move.receiveRequest (l := c.lane f) hb hreceive using 1
        simp [Cluster.lane]
      · simpa [Cluster.lane, hfg] using Lane.Move.idle
    | ack g =>
      obtain ⟨⟨p, t⟩, hreceive, heq⟩ := Option.map_eq_some_iff.mp harrive
      obtain ⟨rfl, -⟩ := Prod.mk.inj heq
      by_cases hfg : f = g
      · subst hfg
        have hb : Deliverable policy c (.ack f) b := ⟨_, rfl, hpolicy, hframe⟩
        convert Lane.Move.receiveAck (l := c.lane f) hb hreceive using 1
        simp [Cluster.lane]
      · simpa [Cluster.lane, hfg] using Lane.Move.idle
  | finishFollower g =>
    obtain ⟨⟨p, t⟩, hfinish, heq⟩ := Option.map_eq_some_iff.mp hstep
    obtain ⟨rfl, -⟩ := Prod.mk.inj heq
    by_cases hfg : f = g
    · subst hfg
      convert Lane.Move.finishFollower (l := c.lane f) hfinish using 1
      simp [Cluster.lane]
    · simpa [Cluster.lane, hfg] using Lane.Move.idle
  | finishReceiver g =>
    obtain ⟨⟨p, t⟩, hfinish, heq⟩ := Option.map_eq_some_iff.mp hstep
    obtain ⟨rfl, -⟩ := Prod.mk.inj heq
    by_cases hfg : f = g
    · subst hfg
      convert Lane.Move.finishReceiver (l := c.lane f) hfinish using 1
      simp [Cluster.lane]
    · simpa [Cluster.lane, hfg] using Lane.Move.idle

/-- Moves of the cluster keep the sender's position valid. -/
theorem Cluster.sender_valid (hs : c.sender.Valid S)
    (hstep : c.step S policy a = some (c', events)) : c'.sender.Valid S := by
  cases a with
  | send =>
    obtain ⟨⟨s, g⟩, hadvance, heq⟩ := Option.map_eq_some_iff.mp hstep
    obtain ⟨rfl, -⟩ := Prod.mk.inj heq
    exact (Sender.advance_spec hs hadvance).1
  | deliver d =>
    obtain ⟨b, -, -, harrive⟩ := step_deliver_eq_some hstep
    obtain ⟨source, target, index⟩ := d
    cases target <;> obtain ⟨r, -, heq⟩ := Option.map_eq_some_iff.mp harrive <;>
      exact (Prod.mk.inj heq).1 ▸ hs
  | finishFollower g | finishReceiver g =>
    obtain ⟨r, -, heq⟩ := Option.map_eq_some_iff.mp hstep
    exact (Prod.mk.inj heq).1 ▸ hs

/-- The lanes before the first move. -/
@[simp] theorem Cluster.lane_start (f : FollowerId) : (start S).lane f = .start := by
  simp [lane, start, Lane.start, Sender.sentTo, S.mem_clusterInfo f, Network.empty]

/-- A property of the lane that starts which the moves of lanes preserve holds of every lane of a
reachable cluster. -/
theorem Cluster.lanes_of_reachable {P : FollowerId → Lane → Prop} (hstart : ∀ f, P f .start)
    (hmove : ∀ (c c' : Cluster) (f : FollowerId), P f (c.lane f) →
      (c.lane f).Move S f (Deliverable policy c (.request f)) (Deliverable policy c (.ack f))
        (c'.lane f) → P f (c'.lane f))
    (h : (cluster S policy).Reachable c) : c.sender.Valid S ∧ ∀ f, P f (c.lane f) := by
  refine h.invariant (P := fun c => c.sender.Valid S ∧ ∀ f, P f (c.lane f)) ?_ ?_
  · constructor
    · exact Sender.valid_start
    · intro f
      rw [show (cluster S policy).start = Cluster.start S from rfl, Cluster.lane_start]
      exact hstart f
  · rintro c a c' events ⟨hs, hlane⟩ hstep
    constructor
    · exact c.sender_valid hs hstep
    · intro f
      exact hmove c c' f (hlane f) (c.lane_move hs hstep f)

end TeeReplication.Raft
