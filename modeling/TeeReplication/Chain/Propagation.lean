import TeeReplication.Chain.Moves

/-!
# Unreliable links: when the tail stays behind the middle

The middle passes on a request that it refuses. When links reorder frames, the tail
can therefore commit a request that the middle has not committed. It cannot as long
as no request reaches the middle before the ones below it.
-/

namespace TeeReplication.Chain

variable {S : Setup} {c c' : Cluster} {a : Action} {events : List Event} {b : Frame}

/-- The action delivers no request to the middle that leaves out an index. -/
def NoGap (c : Cluster) : Action → Prop
  | .deliver d => d.target = .toMiddle →
    ∀ b ∈ c.net.frame d, frameId b ≤ c.middle.state.cmtIdx + 1
  | _ => True

instance (c : Cluster) : (a : Action) → Decidable (NoGap c a)
  | .deliver d => inferInstanceAs (Decidable (d.target = .toMiddle → _))
  | .send => inferInstanceAs (Decidable True)
  | .finishHead => inferInstanceAs (Decidable True)

/-- What holds of a chain in which no request has left out an index. -/
structure Behind (S : Setup) (c : Cluster) : Prop where
  /-- Frames on their way to the middle carry pairs of `int`s. -/
  toMiddle : ∀ b ∈ c.net.sent .toMiddle, ∃ pair, IsInt pair.1 ∧ b = S.request pair
  /-- So do frames on their way to the tail, and the middle has committed their indices. -/
  toTail : ∀ b ∈ c.net.sent .toTail, ∃ pair, IsInt pair.1 ∧ b = S.request pair ∧
    pair.1 ≤ c.middle.state.cmtIdx
  /-- The tail is not ahead of the middle. -/
  tail_le_middle : c.tail.state.cmtIdx ≤ c.middle.state.cmtIdx

namespace Behind

/-- Nothing has happened in a chain that starts. -/
theorem start : Behind S Cluster.start where
  toMiddle _ hb := absurd hb List.not_mem_nil
  toTail _ hb := absurd hb List.not_mem_nil
  tail_le_middle := le_rfl

/-- A move that delivers no request with a gap keeps the tail behind the middle. -/
theorem move (hc : Behind S c) (hgap : NoGap c a) (hmove : c.Move S Network.bag a c' events) :
    Behind S c' := by
  cases hmove with
  | @send pair hpair =>
    refine ⟨?_, ?_, hc.tail_le_middle⟩
    · intro b hb
      rcases Network.mem_sent_sendAll_iff.mp hb with hb | ⟨-, hb⟩
      · exact hc.toMiddle b hb
      · exact ⟨pair, (S.feed.isInt c.i _ _ hpair).1, List.mem_singleton.mp hb⟩
    · intro b hb
      rw [Network.sent_sendAll_of_ne _ (by decide)] at hb
      exact hc.toTail b hb
  | @middle d b p events hd hpolicy hframe hreceive =>
    have hb := hd ▸ Network.bag_frame hpolicy hframe
    obtain ⟨pair, hid, rfl⟩ := hc.toMiddle b hb
    have hle : pair.1 ≤ c.middle.state.cmtIdx + 1 := by
      rw [← frameId_request (S := S) hid]
      exact hgap hd _ hframe
    obtain ⟨-, rfl, hsent, -⟩ := Middle.receive_recvFrame hid hreceive
    have hmono := le_cmtIdx_afterAccept c.middle.state pair.1
    have hafter : pair.1 ≤ (afterAccept c.middle.state pair.1).cmtIdx := by
      rw [cmtIdx_afterAccept]
      split <;> omega
    refine ⟨?_, ?_, hc.tail_le_middle.trans hmono⟩
    · intro b hb
      rw [Network.sent_sendAll_of_ne _ (by decide)] at hb
      exact hc.toMiddle b hb
    · intro b hb
      rcases Network.mem_sent_sendAll_iff.mp hb with hb | ⟨-, hb⟩
      · obtain ⟨pair', hid', rfl, hle'⟩ := hc.toTail b hb
        exact ⟨pair', hid', rfl, hle'.trans hmono⟩
      · rw [hsent, List.mem_singleton] at hb
        exact ⟨pair, hid, hb, hafter⟩
  | @tail d b p events hd hpolicy hframe hreceive =>
    have hb := hd ▸ Network.bag_frame hpolicy hframe
    obtain ⟨pair, hid, rfl, hle⟩ := hc.toTail b hb
    obtain ⟨-, rfl, -, -⟩ := Tail.receive_recvFrame hid hreceive
    refine ⟨?_, ?_, ?_⟩
    · intro b hb
      rw [Network.sent_sendAll_of_ne _ (by decide)] at hb
      exact hc.toMiddle b hb
    · intro b hb
      rw [Network.sent_sendAll_of_ne _ (by decide)] at hb
      exact hc.toTail b hb
    · have hbehind := hc.tail_le_middle
      change (afterAccept c.tail.state pair.1).cmtIdx ≤ c.middle.state.cmtIdx
      rw [cmtIdx_afterAccept]
      split <;> omega
  | head hd hpolicy hframe hreceive => exact ⟨hc.toMiddle, hc.toTail, hc.tail_le_middle⟩
  | finishHead hfinish => exact ⟨hc.toMiddle, hc.toTail, hc.tail_le_middle⟩

end Behind

/-- In every run in which no request reaches the middle before the ones below it, the tail is never
ahead of the middle. -/
theorem tail_le_middle_of_noGap (S : Setup) {c : Cluster}
    (h : (chain S Network.bag).ReachableBy NoGap c) :
    c.tail.state.cmtIdx ≤ c.middle.state.cmtIdx := by
  have hbehind : Behind S c := by
    apply h.invariant .start
    intro c a c' events hc hgap hstep
    exact hc.move hgap (Cluster.move_of_step hstep)
  exact hbehind.tail_le_middle

/-- The theorem on gaps applies when the middle gets its second request twice after the first and
the tail gets them in the other order. -/
theorem tail_le_middle_of_noGap_reordered : ∃ c,
    (chain (.example .sender) Network.bag).ReachableBy NoGap c ∧ c.middle.state.cmtIdx = 1 ∧
      c.tail.state.cmtIdx = 0 ∧ c.tail.state.cmtIdx ≤ c.middle.state.cmtIdx := by
  have hrun : ((chain (.example .sender) Network.bag).execBy NoGap Cluster.start
      [.send, .send, .deliver ⟨.toMiddle, .toMiddle, 0⟩, .deliver ⟨.toMiddle, .toMiddle, 1⟩,
        .deliver ⟨.toMiddle, .toMiddle, 1⟩, .deliver ⟨.toTail, .toTail, 1⟩,
        .deliver ⟨.toTail, .toTail, 0⟩]).map
      (fun c => (c.middle.state.cmtIdx, c.tail.state.cmtIdx)) = some (1, 0) := by decide +kernel
  obtain ⟨c, hexec, heq⟩ := Option.map_eq_some_iff.mp hrun
  obtain ⟨hmiddle, htail⟩ := Prod.mk.inj heq
  have hreach := Machine.ReachableBy.execBy .start hexec
  exact ⟨c, hreach, hmiddle, htail, tail_le_middle_of_noGap (.example .sender) hreach⟩

/-- When the second request overtakes the first one on the way to the middle and the order is
restored on the way to the tail, the tail commits both and the middle only the first. -/
theorem tail_ahead_of_middle : ∃ c, (chain (.example .sender) Network.bag).Reachable c ∧
    c.middle.state.cmtIdx = 0 ∧ c.tail.state.cmtIdx = 1 := by
  have hrun : ((chain (.example .sender) Network.bag).exec Cluster.start
      [.send, .send, .deliver ⟨.toMiddle, .toMiddle, 1⟩, .deliver ⟨.toMiddle, .toMiddle, 0⟩,
        .deliver ⟨.toTail, .toTail, 1⟩, .deliver ⟨.toTail, .toTail, 0⟩]).map
      (fun c => (c.middle.state.cmtIdx, c.tail.state.cmtIdx)) = some (0, 1) := by decide +kernel
  obtain ⟨c, hexec, heq⟩ := Option.map_eq_some_iff.mp hrun
  obtain ⟨hmiddle, htail⟩ := Prod.mk.inj heq
  exact ⟨c, Machine.reachable_of_exec hexec, hmiddle, htail⟩

end TeeReplication.Chain
