import TeeReplication.Chain.Cluster
import TeeReplication.Chain.Exchange
import TeeReplication.Foundations.Ranges

/-!
# The moves of the chain

Every step of the chain is a move of one of its loops. This module also collects
what the invariants say about feeds and about the frames on the links.
-/

namespace TeeReplication.Chain

variable {S : Setup} {policy : Policy Link Frame} {c c' : Cluster} {a : Action}
  {events : List Event}

/-- The moves of the chain, by the loop that moves. -/
inductive Cluster.Move (S : Setup) (policy : Policy Link Frame) (c : Cluster) :
    Action → Cluster → List Event → Prop
  /-- The sender sends the next request. -/
  | send {pair : ℤ × ℤ} : S.feed.request c.i = some pair → Move S policy c .send
      { c with i := c.i + 1, net := c.net.sendAll .toMiddle [S.request pair] }
      [.send (S.request pair)]
  /-- The middle handles a frame. -/
  | middle {d : Delivery Link} {b : Frame} {p : Process State} {events : List Event} :
      d.target = .toMiddle → policy c.net d = true → c.net.frame d = some b →
      S.middle.receive c.middle (recvFrame b) = some (p, events) →
      Move S policy c (.deliver d) { c with
        middle := p, net := (c.net.deliver .toMiddle b).sendAll .toTail (sentFrames events) } events
  /-- The tail handles a frame. -/
  | tail {d : Delivery Link} {b : Frame} {p : Process State} {events : List Event} :
      d.target = .toTail → policy c.net d = true → c.net.frame d = some b →
      S.tail.receive c.tail (recvFrame b) = some (p, events) →
      Move S policy c (.deliver d) { c with
        tail := p, net := (c.net.deliver .toTail b).sendAll .toHead (sentFrames events) } events
  /-- The head handles a frame. -/
  | head {d : Delivery Link} {b : Frame} {p : Process State} {events : List Event} :
      d.target = .toHead → policy c.net d = true → c.net.frame d = some b →
      S.head.receive c.head (recvFrame b) = some (p, events) →
      Move S policy c (.deliver d) { c with head := p, net := c.net.deliver .toHead b } events
  /-- The head returns. -/
  | finishHead {p : Process State} {events : List Event} :
      S.head.finish c.head = some (p, events) →
      Move S policy c .finishHead { c with head := p } events

/-- Every step is one of these moves. -/
theorem Cluster.move_of_step (hstep : c.step S policy a = some (c', events)) :
    c.Move S policy a c' events := by
  cases a with
  | send =>
    obtain ⟨pair, hpair, heq⟩ := Option.map_eq_some_iff.mp hstep
    obtain ⟨rfl, rfl⟩ := Prod.mk.inj heq
    exact .send hpair
  | deliver d =>
    rw [step] at hstep
    split at hstep
    · rename_i hpolicy
      obtain ⟨b, hframe, harrive⟩ := Option.bind_eq_some_iff.mp hstep
      cases htarget : d.target <;> rw [htarget] at harrive <;>
        obtain ⟨⟨p, t⟩, hreceive, heq⟩ := Option.map_eq_some_iff.mp harrive <;>
        obtain ⟨rfl, rfl⟩ := Prod.mk.inj heq
      · exact .middle htarget hpolicy hframe hreceive
      · exact .tail htarget hpolicy hframe hreceive
      · exact .head htarget hpolicy hframe hreceive
    · cases hstep
  | finishHead =>
    obtain ⟨⟨p, t⟩, hfinish, heq⟩ := Option.map_eq_some_iff.mp hstep
    obtain ⟨rfl, rfl⟩ := Prod.mk.inj heq
    exact .finishHead hfinish

/-- Moves only add to what has been handled. -/
theorem Cluster.Move.delivered_isPrefix (hmove : c.Move S policy a c' events) (k : Link) :
    c.net.delivered k <+: c'.net.delivered k := by
  cases hmove with
  | send _ => exact List.prefix_rfl
  | middle _ _ _ _ => exact Network.delivered_prefix_deliver _ _ _ _
  | tail _ _ _ _ => exact Network.delivered_prefix_deliver _ _ _ _
  | head _ _ _ _ => exact Network.delivered_prefix_deliver _ _ _ _
  | finishHead _ => exact List.prefix_rfl

/-- The first requests of a feed. -/
def Feed.requests (feed : Feed) (n : ℕ) : List (ℤ × ℤ) := (List.range n).filterMap feed.request

/-- One more request. -/
theorem Feed.requests_succ {feed : Feed} {n : ℕ} {pair : ℤ × ℤ}
    (hpair : feed.request n = some pair) :
    feed.requests (n + 1) = feed.requests n ++ [pair] := by
  simp [requests, List.range_succ, hpair]

/-- The requests of a feed are pairs of `int`s. -/
theorem Feed.isInt_of_mem {feed : Feed} {n : ℕ} {pair : ℤ × ℤ} (hpair : pair ∈ feed.requests n) :
    IsInt pair.1 ∧ IsInt pair.2 := by
  obtain ⟨i, -, hi⟩ := List.mem_filterMap.mp hpair
  exact feed.isInt i pair.1 pair.2 hi

/-- A list is sent from its beginning. -/
theorem Feed.requests_ofList (x : List (Int32 × Int32)) (n : ℕ) :
    (Feed.ofList x).requests n = (x.take n).map fun p => (p.1.toInt, p.2.toInt) := by
  induction n with
  | zero => rfl
  | succ n ih =>
    rw [requests, List.range_succ, List.filterMap_append, ← requests, ih, List.take_add_one,
      List.map_append]
    cases hx : x[n]? <;> simp [ofList, hx]

/-- The head sends the indices of the experiment in order. -/
theorem Feed.requests_sender (n : ℕ) :
    (Feed.sender.requests n).map Prod.fst = Int.range 0 (min n nbRequests) := by
  have hnb := nbRequests_pos
  induction n with
  | zero => simp [requests, min_eq_left hnb.le]
  | succ n ih =>
    rw [requests, List.range_succ, List.filterMap_append, ← requests, List.map_append, ih]
    by_cases hlt : (n : ℤ) < nbRequests
    · rw [min_eq_left hlt.le, min_eq_left (by push_cast; omega), range_natCast_succ]
      simp [sender, hlt]
    · rw [min_eq_right (by omega), min_eq_right (by push_cast; omega)]
      simp [sender, hlt]

/-- What a link has carried, as indices. -/
def ids (frames : List Frame) : List ℤ := frames.map frameId

/-- The indices handled at the end of a link. -/
def Cluster.handled (c : Cluster) (k : Link) : List ℤ := ids (c.net.delivered k)

/-- The index of a request is read back from its frame. -/
theorem frameId_request {pair : ℤ × ℤ} (hid : IsInt pair.1) : frameId (S.request pair) = pair.1 :=
  frameId_attestedFrame S.hmac hid pair.2

/-- One more frame at the end of a link. -/
theorem Cluster.ids_deliver (c : Cluster) (k : Link) (b : Frame) :
    ids ((c.net.deliver k b).delivered k) = c.handled k ++ [frameId b] := by
  simp [handled, ids]

end TeeReplication.Chain
