import TeeReplication.Chain.Cluster
import TeeReplication.Chain.Exchange

/-!
# The head's commit index

The tail answers every request with its commit index, and the head takes over the index
of every acknowledgement that reaches it. When acknowledgements overtake each other or
come again, the head's index therefore goes back; it is the largest one acknowledged
exactly as long as the acknowledgements reach it in a non-decreasing order.
-/

namespace TeeReplication.Chain

/-- The tail and the head's `receiver_finale`, and what has passed between them. -/
structure Ends where
  /-- `receiver` of the tail. -/
  tail : Process State
  /-- The acknowledgements that the tail has sent. -/
  sent : List Frame
  /-- `receiver_finale` of the head. -/
  head : Process State
  /-- The indices of the acknowledgements that the head has received. -/
  acked : List ℤ

namespace Ends

/-- What is delivered next. -/
inductive Action
  /-- A request to the tail. -/
  | request (r : Int32 × Int32)
  /-- The `j`-th acknowledgement that the tail has sent, to the head. -/
  | ack (j : ℕ)

/-- Before the first delivery. -/
def start : Ends := ⟨EventLoop.enter .init, [], EventLoop.enter .init, []⟩

/-- One delivery. Acknowledgements may be delivered in any order, repeatedly or never, as long as
the head waits for one. -/
def step (h : Hmac) (tailNodeId : ℤ) (e : Ends) : Action → Option (Ends × List Event)
  | .request r =>
    ((Tail.receiver h tailNodeId).receive e.tail
      (recvFrame (attestedFrame h (writePair r.1.toInt r.2.toInt)))).map fun q =>
        ({ e with tail := q.1, sent := e.sent ++ sentFrames q.2 }, q.2)
  | .ack j => e.sent[j]?.bind fun b =>
    ((Head.receiverFinale h).receive e.head (recvFrame b)).map fun q =>
      ({ e with head := q.1, acked := e.acked ++ [frameId b] }, q.2)

end Ends

/-- The tail and the head as a machine. -/
def ends (h : Hmac) (tailNodeId : ℤ) : Machine Ends Ends.Action Event :=
  ⟨Ends.start, Ends.step h tailNodeId⟩

namespace Ends

variable {h : Hmac} {tailNodeId : ℤ} {e e' : Ends} {a : Action} {events : List Event}

/-- What holds of the two ends after any deliveries. -/
structure Consistent (h : Hmac) (tailNodeId : ℤ) (e : Ends) : Prop where
  /-- The tail's commit index is an `int`. -/
  isInt : IsInt e.tail.state.cmtIdx
  /-- It is at least `-1`. -/
  neg_one_le : -1 ≤ e.tail.state.cmtIdx
  /-- The tail has sent acknowledgements of its commit indices so far. -/
  sent : ∀ b ∈ e.sent, ∃ k, IsInt k ∧ -1 ≤ k ∧ k ≤ e.tail.state.cmtIdx ∧
    b = Tail.ackFrame h k tailNodeId
  /-- The head has received no others. -/
  acked : ∀ k ∈ e.acked, -1 ≤ k ∧ k ≤ e.tail.state.cmtIdx
  /-- Its commit index is the last one received. -/
  cmtIdx_eq : e.head.state.cmtIdx = e.acked.getLastD (-1)

/-- Nothing has been delivered at the start. -/
theorem Consistent.start : Consistent h tailNodeId start where
  isInt := by decide
  neg_one_le := le_rfl
  sent _ hb := absurd hb List.not_mem_nil
  acked _ hk := absurd hk List.not_mem_nil
  cmtIdx_eq := rfl

/-- A request to the tail keeps the ends consistent. -/
theorem Consistent.request (he : Consistent h tailNodeId e) {r : Int32 × Int32}
    (hstep : e.step h tailNodeId (.request r) = some (e', events)) :
    Consistent h tailNodeId e' ∧ e'.acked = e.acked := by
  obtain ⟨q, hreceive, heq⟩ := Option.map_eq_some_iff.mp hstep
  obtain ⟨rfl, rfl⟩ := Prod.mk.inj heq
  obtain ⟨-, htail, hsent, -⟩ := Tail.receive_recvFrame (isInt_toInt r.1) hreceive
  have hcmt : q.1.state.cmtIdx = (afterAccept e.tail.state r.1.toInt).cmtIdx := by
    rw [htail]
    rfl
  have hle : e.tail.state.cmtIdx ≤ q.1.state.cmtIdx := by
    rw [hcmt]
    exact le_cmtIdx_afterAccept _ _
  have hint : IsInt q.1.state.cmtIdx := by
    rw [hcmt]
    rcases cmtIdx_afterAccept_eq_or e.tail.state r.1.toInt with hsame | hnext
    · rw [hsame]
      exact he.isInt
    · rw [hnext]
      exact isInt_toInt r.1
  have hlo := he.neg_one_le.trans hle
  refine ⟨⟨hint, hlo, ?_, ?_, he.cmtIdx_eq⟩, rfl⟩
  · intro b hb
    rcases List.mem_append.mp hb with hb | hb
    · obtain ⟨k, hk, hk0, hkc, rfl⟩ := he.sent b hb
      exact ⟨k, hk, hk0, hkc.trans hle, rfl⟩
    · rw [hsent, List.mem_singleton, ← hcmt] at hb
      exact ⟨_, hint, hlo, le_rfl, hb⟩
  · intro k hk
    exact ⟨(he.acked k hk).1, (he.acked k hk).2.trans hle⟩

/-- An acknowledgement to the head keeps the ends consistent and adds an index to those
received. -/
theorem Consistent.ack (he : Consistent h tailNodeId e) {j : ℕ}
    (hstep : e.step h tailNodeId (.ack j) = some (e', events)) :
    Consistent h tailNodeId e' ∧ ∃ k, e'.acked = e.acked ++ [k] := by
  obtain ⟨b, hb, hdeliver⟩ := Option.bind_eq_some_iff.mp hstep
  obtain ⟨q, hreceive, heq⟩ := Option.map_eq_some_iff.mp hdeliver
  obtain ⟨rfl, rfl⟩ := Prod.mk.inj heq
  obtain ⟨k, hk, hk0, hkc, rfl⟩ := he.sent b (List.mem_of_getElem? hb)
  obtain ⟨-, hhead, -⟩ := Head.receive_recvFrame hk hreceive
  have hid : frameId (Tail.ackFrame h k tailNodeId) = k := frameId_attestedFrame h hk tailNodeId
  refine ⟨⟨he.isInt, he.neg_one_le, he.sent, ?_, ?_⟩, _, rfl⟩
  · intro i hi
    rcases List.mem_append.mp hi with hi | hi
    · exact he.acked i hi
    · rw [hid, List.mem_singleton] at hi
      subst hi
      exact ⟨hk0, hkc⟩
  · rw [hid, hhead]
    simp [EventLoop.enter]

/-- A delivery keeps the ends consistent, and adds at most one index to those received. -/
theorem Consistent.step (he : Consistent h tailNodeId e)
    (hstep : e.step h tailNodeId a = some (e', events)) :
    Consistent h tailNodeId e' ∧
      (e'.acked = e.acked ∨ ∃ k, e'.acked = e.acked ++ [k]) := by
  cases a with
  | request r =>
    obtain ⟨hcons, hsame⟩ := he.request hstep
    exact ⟨hcons, Or.inl hsame⟩
  | ack j =>
    obtain ⟨hcons, hnew⟩ := he.ack hstep
    exact ⟨hcons, Or.inr hnew⟩

/-- The head's commit index is the largest index that it has received, or `-1`, and the tail has
committed it. -/
structure Exact (e : Ends) : Prop where
  /-- It is the largest one. -/
  isGreatest : IsGreatest {k | k = -1 ∨ k ∈ e.acked} e.head.state.cmtIdx
  /-- The tail is not behind. -/
  le_tail : e.head.state.cmtIdx ≤ e.tail.state.cmtIdx

/-- While indices are received in a non-decreasing order the last one is the largest. -/
theorem Consistent.exact (he : Consistent h tailNodeId e)
    (hsorted : e.acked.Pairwise (· ≤ ·)) : e.Exact := by
  have hcmt := he.cmtIdx_eq
  cases hlast : e.acked using List.reverseRecOn with
  | nil =>
    rw [hlast] at hcmt
    refine ⟨⟨Or.inl hcmt, ?_⟩, hcmt.le.trans he.neg_one_le⟩
    rintro k (rfl | hk)
    · exact hcmt.ge
    · rw [hlast] at hk
      cases hk
  | append_singleton before k =>
    have hk : k ∈ e.acked := hlast ▸ List.mem_append_right _ (List.mem_singleton.mpr rfl)
    rw [hlast, List.getLastD_concat] at hcmt
    rw [hlast, List.pairwise_append] at hsorted
    refine ⟨⟨Or.inr (hcmt ▸ hk), ?_⟩, hcmt.le.trans (he.acked k hk).2⟩
    rintro i (rfl | hi)
    · exact (he.acked k hk).1.trans hcmt.ge
    · rw [hlast, List.mem_append, List.mem_singleton] at hi
      rcases hi with hi | rfl
      · exact (hsorted.2.2 i hi k (List.mem_singleton.mpr rfl)).trans hcmt.ge
      · exact hcmt.ge

/-- Every reachable state is consistent. -/
theorem Consistent.of_reachable (hreach : (ends h tailNodeId).Reachable e) :
    Consistent h tailNodeId e := by
  apply hreach.invariant .start
  intro e a e' events he hstep
  exact (he.step hstep).1

/-- A delivery leaves the tail's commit index as it is, or makes it the index of a request. -/
theorem tail_cmtIdx_of_step (hstep : e.step h tailNodeId a = some (e', events)) :
    e'.tail.state.cmtIdx = e.tail.state.cmtIdx ∨
      ∃ r, a = .request r ∧ e'.tail.state.cmtIdx = r.1.toInt := by
  cases a with
  | request r =>
    obtain ⟨q, hreceive, heq⟩ := Option.map_eq_some_iff.mp hstep
    obtain ⟨rfl, -⟩ := Prod.mk.inj heq
    obtain ⟨-, htail, -⟩ := Tail.receive_recvFrame (isInt_toInt r.1) hreceive
    have hcmt : q.1.state.cmtIdx = (afterAccept e.tail.state r.1.toInt).cmtIdx := by
      rw [htail]
      rfl
    rcases cmtIdx_afterAccept_eq_or e.tail.state r.1.toInt with hsame | hid
    · exact Or.inl (hcmt.trans hsame)
    · exact Or.inr ⟨r, rfl, hcmt.trans hid⟩
  | ack j =>
    obtain ⟨b, -, hdeliver⟩ := Option.bind_eq_some_iff.mp hstep
    obtain ⟨q, -, heq⟩ := Option.map_eq_some_iff.mp hdeliver
    obtain ⟨rfl, -⟩ := Prod.mk.inj heq
    exact Or.inl rfl

/-- The tail's commit index is less than `INT_MAX` if those of all requests are. -/
theorem tail_cmtIdx_lt {actions : List Action}
    (hids : ∀ r, .request r ∈ actions → r.1.toInt < intMax)
    (hexec : (ends h tailNodeId).exec start actions = some e) :
    e.tail.state.cmtIdx < intMax := by
  induction actions using List.reverseRecOn generalizing e with
  | nil =>
    cases hexec
    decide
  | append_singleton actions a ih =>
    obtain ⟨u, events, hu, hstep⟩ := Machine.exec_concat hexec
    rcases tail_cmtIdx_of_step hstep with hsame | ⟨r, rfl, hid⟩
    · rw [hsame]
      exact ih (fun r hr => hids r (List.mem_append_left _ hr)) hu
    · rw [hid]
      exact hids r (List.mem_append_right _ (List.mem_singleton_self _))

/-- The head is not ahead of the tail. -/
theorem Consistent.head_le_tail (he : Consistent h tailNodeId e) :
    e.head.state.cmtIdx ≤ e.tail.state.cmtIdx := by
  rw [he.cmtIdx_eq]
  cases hlast : e.acked using List.reverseRecOn with
  | nil => exact he.neg_one_le
  | append_singleton before k =>
    rw [List.getLastD_concat]
    exact (he.acked k (hlast ▸ List.mem_append_right _ (List.mem_singleton_self _))).2

/-- The indices received on the way are a beginning of those received in the end. -/
theorem acked_isPrefix {d : Ends} {actions before : List Action}
    (hexec : (ends h tailNodeId).exec start actions = some e) (hbefore : before <+: actions)
    (hd : (ends h tailNodeId).exec start before = some d) : d.acked <+: e.acked := by
  apply Machine.rel_of_exec (R := fun c d => c.acked <+: d.acked) ?_ ?_ ?_ hexec hbefore hd
  · exact fun c => List.prefix_rfl
  · intro b c d hbc hcd
    exact List.IsPrefix.trans hbc hcd
  · intro c a d events hreach hstep
    rcases ((Consistent.of_reachable hreach).step hstep).2 with hacked | ⟨k, hacked⟩
    · rw [hacked]
    · rw [hacked]
      exact List.prefix_append _ _

end Ends

/-- In a run of the tail and the head on requests below `INT_MAX` both indices stay below it, so
that no addition overflows; and the head's commit index is at every point the largest index
received so far, never goes back and never exceeds the tail's, exactly when the indices have been
received in a non-decreasing order. -/
theorem head_exact_iff (h : Hmac) (tailNodeId : ℤ) {actions : List Ends.Action} {e : Ends}
    (hids : ∀ r, .request r ∈ actions → r.1.toInt < intMax)
    (hexec : (ends h tailNodeId).exec Ends.start actions = some e) :
    (∀ before d, before <+: actions → (ends h tailNodeId).exec Ends.start before = some d →
      d.tail.state.cmtIdx < intMax ∧ d.head.state.cmtIdx < intMax) ∧
    (((∀ before d, before <+: actions →
        (ends h tailNodeId).exec Ends.start before = some d → d.Exact) ∧
      ∀ before later c d, before <+: later → later <+: actions →
        (ends h tailNodeId).exec Ends.start before = some c →
        (ends h tailNodeId).exec Ends.start later = some d →
        c.head.state.cmtIdx ≤ d.head.state.cmtIdx) ↔ e.acked.Pairwise (· ≤ ·)) := by
  refine ⟨fun before d hbefore hd => ?_, ?_, ?_⟩
  · have htail : d.tail.state.cmtIdx < intMax :=
      Ends.tail_cmtIdx_lt (fun r hr => hids r (hbefore.subset hr)) hd
    have hle := (Ends.Consistent.of_reachable (Machine.reachable_of_exec hd)).head_le_tail
    exact ⟨htail, hle.trans_lt htail⟩
  · rintro ⟨hexact, -⟩
    clear hids
    induction actions using List.reverseRecOn generalizing e with
    | nil =>
      cases hexec
      exact List.Pairwise.nil
    | append_singleton actions a ih =>
      obtain ⟨u, events, hu, hstep⟩ := Machine.exec_concat hexec
      have hsorted := ih hu fun before d hbefore =>
        hexact before d (hbefore.trans (List.prefix_append _ _))
      obtain ⟨hcons, hdelivery⟩ :=
        (Ends.Consistent.of_reachable (Machine.reachable_of_exec hu)).step hstep
      rcases hdelivery with hacked | ⟨k, hacked⟩
      · rwa [hacked]
      · have hgreatest := (hexact _ e List.prefix_rfl hexec).isGreatest.2
        have hcmt := hcons.cmtIdx_eq
        rw [hacked, List.getLastD_concat] at hcmt
        rw [hacked, List.pairwise_append]
        refine ⟨hsorted, List.pairwise_singleton _ _, fun i hi j hj => ?_⟩
        rw [List.mem_singleton.mp hj, ← hcmt]
        exact hgreatest (Or.inr (hacked ▸ List.mem_append_left _ hi))
  · intro hsorted
    have hexact (before : List Ends.Action) (d : Ends) (hbefore : before <+: actions)
        (hd : (ends h tailNodeId).exec Ends.start before = some d) : d.Exact :=
      (Ends.Consistent.of_reachable (Machine.reachable_of_exec hd)).exact
        (hsorted.sublist (Ends.acked_isPrefix hexec hbefore hd).sublist)
    refine ⟨hexact, fun before later c d hbefore hlater hc hd => ?_⟩
    have hsub := Ends.acked_isPrefix hd hbefore hc
    apply (hexact later d hlater hd).isGreatest.2
    rcases (hexact before c (hbefore.trans hlater) hc).isGreatest.1 with hcmt | hcmt
    · exact Or.inl hcmt
    · exact Or.inr (hsub.subset hcmt)

/-- The theorem on the order of acknowledgements applies when the first one is delivered twice and
the second one is lost. -/
theorem head_exact_iff_repeated : ∃ e,
    (ends zeroHmac 2).exec Ends.start
      [.request (0, 1), .request (1, 1), .request (2, 1), .ack 0, .ack 0, .ack 2] = some e ∧
    e.acked = [0, 0, 2] ∧ e.Exact := by
  have hrun : ((ends zeroHmac 2).exec Ends.start
      [.request (0, 1), .request (1, 1), .request (2, 1), .ack 0, .ack 0, .ack 2]).map
      Ends.acked = some [0, 0, 2] := by decide +kernel
  obtain ⟨e, hexec, hacked⟩ := Option.map_eq_some_iff.mp hrun
  have hids : ∀ r, Ends.Action.request r ∈ [.request (0, 1), .request (1, 1), .request (2, 1),
      .ack 0, .ack 0, .ack 2] → r.1.toInt < intMax := by
    rintro r hr
    simp only [List.mem_cons, Ends.Action.request.injEq, reduceCtorEq, List.not_mem_nil,
      or_false] at hr
    rcases hr with rfl | rfl | rfl <;> decide
  have hexact := (head_exact_iff zeroHmac 2 hids hexec).2.mpr (by rw [hacked]; decide)
  exact ⟨e, hexec, hacked, hexact.1 _ e List.prefix_rfl hexec⟩

/-- When the second acknowledgement overtakes the first one, the head's commit index goes back
from `1` to `0`. -/
theorem head_goes_back :
    ((ends zeroHmac 2).exec Ends.start
      [.request (0, 1), .request (1, 1), .ack 1]).map (fun e => e.head.state.cmtIdx) = some 1 ∧
    ((ends zeroHmac 2).exec Ends.start
      [.request (0, 1), .request (1, 1), .ack 1, .ack 0]).map
      (fun e => (e.head.state.cmtIdx, e.acked, e.tail.state.cmtIdx)) = some (0, [1, 0], 1) := by
  decide +kernel

end TeeReplication.Chain
