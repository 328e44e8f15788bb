import Mathlib.Data.List.Basic
import Mathlib.Logic.Function.Basic

/-!
# Networks of one-way links

A network records, for every link, all frames ever written to it and all frames
handed to its receiving end, both in order. What a scheduler may deliver is a
policy on top of this record: a FIFO link hands over the first frame not yet
delivered, a bag any frame ever written to the same link, and a redirecting
network any frame ever written to any link.
-/

namespace TeeReplication

/-- The history of a set of one-way links. -/
@[ext] structure Network (κ β : Type) where
  /-- All frames written to a link, in order. -/
  sent : κ → List β
  /-- All frames handed to the receiving end of a link, in order. -/
  delivered : κ → List β

/-- A scheduler's choice: hand the frame at a position of one link's history to the
receiving end of a link. -/
structure Delivery (κ : Type) where
  /-- The link whose history holds the frame. -/
  source : κ
  /-- The link whose receiving end gets it. -/
  target : κ
  /-- The position of the frame among those written to `source`. -/
  index : ℕ
  deriving DecidableEq

/-- The deliveries a network allows. -/
abbrev Policy (κ β : Type) := Network κ β → Delivery κ → Bool

namespace Network

variable {κ β : Type}

/-- No frame has been written. -/
def empty : Network κ β := ⟨fun _ => [], fun _ => []⟩

/-- The frame a delivery names, if there is one at that position. -/
def frame (n : Network κ β) (d : Delivery κ) : Option β := (n.sent d.source)[d.index]?

/-- The frames written to a link that have not been delivered, for a link in order. -/
def inFlight (n : Network κ β) (c : κ) : List β := (n.sent c).drop (n.delivered c).length

/-- Any delivery hands over a frame written to some link. -/
theorem frame_mem {n : Network κ β} {d : Delivery κ} {b : β} (hframe : n.frame d = some b) :
    b ∈ n.sent d.source := List.mem_of_getElem? hframe

/-- The frames delivered on a link are the first ones written to it. -/
def InOrder (n : Network κ β) (c : κ) : Prop := n.delivered c <+: n.sent c

/-- While a link is in order, what was written is what was delivered and what is in flight. -/
theorem InOrder.delivered_append_inFlight {n : Network κ β} {c : κ} (h : n.InOrder c) :
    n.delivered c ++ n.inFlight c = n.sent c := by
  obtain ⟨rest, hrest⟩ := h
  rw [inFlight, ← hrest, List.drop_left]

/-- While a link is in order with nothing in flight, everything written has been delivered. -/
theorem InOrder.delivered_eq_sent {n : Network κ β} {c : κ} (h : n.InOrder c)
    (hempty : n.inFlight c = []) : n.delivered c = n.sent c := by
  rw [← h.delivered_append_inFlight, hempty, List.append_nil]

/-- The first frame in flight is the one at the next position. -/
theorem inFlight_eq_cons_iff {n : Network κ β} {c : κ} {b : β} {rest : List β} :
    n.inFlight c = b :: rest ↔ (n.sent c)[(n.delivered c).length]? = some b ∧
      (n.sent c).drop ((n.delivered c).length + 1) = rest := by
  rw [inFlight, ← List.head?_drop, ← List.drop_drop, List.drop_one]
  cases (n.sent c).drop (n.delivered c).length <;> simp

variable [DecidableEq κ]

/-- Write frames to a link, in order. -/
def sendAll (n : Network κ β) (c : κ) (bs : List β) : Network κ β :=
  { n with sent := Function.update n.sent c (n.sent c ++ bs) }

/-- Hand a frame to the receiving end of a link. -/
def deliver (n : Network κ β) (c : κ) (b : β) : Network κ β :=
  { n with delivered := Function.update n.delivered c (n.delivered c ++ [b]) }

@[simp] theorem sent_sendAll_self (n : Network κ β) (c : κ) (bs : List β) :
    (n.sendAll c bs).sent c = n.sent c ++ bs := Function.update_self _ _ _

@[simp] theorem sent_sendAll_of_ne (n : Network κ β) {c c' : κ} (h : c' ≠ c) (bs : List β) :
    (n.sendAll c bs).sent c' = n.sent c' := Function.update_of_ne h _ _

@[simp] theorem delivered_sendAll (n : Network κ β) (c : κ) (bs : List β) :
    (n.sendAll c bs).delivered = n.delivered := rfl

@[simp] theorem delivered_deliver_self (n : Network κ β) (c : κ) (b : β) :
    (n.deliver c b).delivered c = n.delivered c ++ [b] := Function.update_self _ _ _

@[simp] theorem delivered_deliver_of_ne (n : Network κ β) {c c' : κ} (h : c' ≠ c) (b : β) :
    (n.deliver c b).delivered c' = n.delivered c' := Function.update_of_ne h _ _

@[simp] theorem sent_deliver (n : Network κ β) (c : κ) (b : β) :
    (n.deliver c b).sent = n.sent := rfl

/-- Writing to one link puts nothing in flight on another. -/
theorem inFlight_sendAll_of_ne (n : Network κ β) {c c' : κ} (h : c' ≠ c) (bs : List β) :
    (n.sendAll c bs).inFlight c' = n.inFlight c' := by
  rw [inFlight, sent_sendAll_of_ne n h, delivered_sendAll, inFlight]

/-- Delivering on one link takes nothing off another. -/
theorem inFlight_deliver_of_ne (n : Network κ β) {c c' : κ} (h : c' ≠ c) (b : β) :
    (n.deliver c b).inFlight c' = n.inFlight c' := by
  rw [inFlight, sent_deliver, delivered_deliver_of_ne n h, inFlight]

/-- A frame written to one link of a network was already there or is one of those just written. -/
theorem mem_sent_sendAll_iff {n : Network κ β} {c c' : κ} {bs : List β} {b : β} :
    b ∈ (n.sendAll c bs).sent c' ↔ b ∈ n.sent c' ∨ c' = c ∧ b ∈ bs := by
  by_cases hc : c' = c
  · subst hc
    simp
  · simp [hc]

/-- The frames of a list of writes that go to one link. -/
def framesTo (c : κ) (writes : List (κ × β)) : List β :=
  (writes.filter fun w => w.1 = c).map Prod.snd

@[simp] theorem framesTo_nil (c : κ) : framesTo c ([] : List (κ × β)) = [] := rfl

/-- The first write goes to the link or not. -/
theorem framesTo_cons (c : κ) (w : κ × β) (writes : List (κ × β)) :
    framesTo c (w :: writes) =
      if w.1 = c then w.2 :: framesTo c writes else framesTo c writes := by
  unfold framesTo
  split <;> simp_all

/-- Writes to one link only. -/
theorem framesTo_map (c c' : κ) (bs : List β) :
    framesTo c' (bs.map fun b => (c, b)) = if c = c' then bs else [] := by
  unfold framesTo
  split <;> simp_all [List.filter_map, Function.comp_def]

/-- Nothing goes to a link that none of the writes is for. -/
theorem framesTo_eq_nil {c : κ} {writes : List (κ × β)} (h : ∀ w ∈ writes, w.1 ≠ c) :
    framesTo c writes = [] := by
  rw [framesTo, List.map_eq_nil_iff, List.filter_eq_nil_iff]
  intro w hw
  simpa using h w hw

/-- A frame goes to its own link. -/
theorem mem_framesTo_self {w : κ × β} {writes : List (κ × β)} (h : w ∈ writes) :
    w.2 ∈ framesTo w.1 writes :=
  List.mem_map.mpr ⟨w, List.mem_filter.mpr ⟨h, by simp⟩, rfl⟩

/-- Write frames to several links, in order. -/
def writeAll (n : Network κ β) (writes : List (κ × β)) : Network κ β :=
  { n with sent := fun c => n.sent c ++ framesTo c writes }

@[simp] theorem sent_writeAll (n : Network κ β) (writes : List (κ × β)) (c : κ) :
    (n.writeAll writes).sent c = n.sent c ++ framesTo c writes := rfl

@[simp] theorem delivered_writeAll (n : Network κ β) (writes : List (κ × β)) :
    (n.writeAll writes).delivered = n.delivered := rfl

/-- Writing to one link only. -/
theorem writeAll_map (n : Network κ β) (c : κ) (bs : List β) :
    n.writeAll (bs.map fun b => (c, b)) = n.sendAll c bs := by
  ext c' : 2
  · by_cases hc : c' = c
    · subst hc
      rw [sent_writeAll, framesTo_map, if_pos rfl, sent_sendAll_self]
    · rw [sent_writeAll, framesTo_map, if_neg (Ne.symm hc), List.append_nil,
        sent_sendAll_of_ne _ hc]
  · rfl

/-- Writing nothing. -/
@[simp] theorem writeAll_nil (n : Network κ β) : n.writeAll [] = n := by
  ext c : 2
  · exact List.append_nil _
  · rfl

/-- In-order, lossless links: the next delivery on a link is its first frame in flight. -/
def fifo : Policy κ β := fun n d =>
  decide (d.source = d.target ∧ d.index = (n.delivered d.target).length)

/-- Unreliable links: any frame written to the link, in any order and any number of times. -/
def bag : Policy κ β := fun _ d => decide (d.source = d.target)

/-- A redirecting network: any frame written to any link. -/
def replay : Policy κ β := fun _ _ => true

/-- A FIFO delivery hands over the first frame in flight on its own link. -/
theorem fifo_frame {n : Network κ β} {d : Delivery κ} {b : β} (hpolicy : fifo n d = true)
    (hframe : n.frame d = some b) :
    d.source = d.target ∧ (n.sent d.target)[(n.delivered d.target).length]? = some b := by
  obtain ⟨hsource, hindex⟩ := of_decide_eq_true hpolicy
  rw [frame, hsource, hindex] at hframe
  exact ⟨hsource, hframe⟩

/-- A bag delivery hands over a frame written to the same link. -/
theorem bag_frame {n : Network κ β} {d : Delivery κ} {b : β} (hpolicy : bag n d = true)
    (hframe : n.frame d = some b) : b ∈ n.sent d.target := by
  have hsource : d.source = d.target := of_decide_eq_true hpolicy
  rw [← hsource]
  exact List.mem_of_getElem? hframe

/-- Delivering only adds to the histories. -/
theorem delivered_prefix_deliver (n : Network κ β) (c c' : κ) (b : β) :
    n.delivered c' <+: (n.deliver c b).delivered c' := by
  by_cases hc : c' = c
  · subst hc
    rw [delivered_deliver_self]
    exact List.prefix_append _ _
  · exact ⟨[], by rw [delivered_deliver_of_ne _ hc, List.append_nil]⟩

/-- Writing keeps a link in order. -/
theorem InOrder.sendAll {n : Network κ β} {c : κ} (h : n.InOrder c) (c' : κ) (bs : List β) :
    (n.sendAll c' bs).InOrder c := by
  by_cases hc : c = c'
  · subst hc
    rw [InOrder, delivered_sendAll, sent_sendAll_self]
    exact h.trans (List.prefix_append _ _)
  · rw [InOrder, delivered_sendAll, sent_sendAll_of_ne _ hc]
    exact h

/-- Writing to several links keeps each of them in order. -/
theorem InOrder.writeAll {n : Network κ β} {c : κ} (h : n.InOrder c) (writes : List (κ × β)) :
    (n.writeAll writes).InOrder c := h.trans (List.prefix_append _ _)

/-- What is written to a link that is in order is in flight behind what was. -/
theorem InOrder.inFlight_writeAll {n : Network κ β} {c : κ} (h : n.InOrder c)
    (writes : List (κ × β)) :
    (n.writeAll writes).inFlight c = n.inFlight c ++ framesTo c writes := by
  rw [inFlight, sent_writeAll, delivered_writeAll, List.drop_append_of_le_length h.length_le,
    inFlight]

/-- Delivering the first frame in flight leaves the others. -/
theorem inFlight_deliver {n : Network κ β} {c : κ} {b : β} {rest : List β}
    (h : n.inFlight c = b :: rest) (c' : κ) :
    (n.deliver c b).inFlight c' = if c' = c then rest else n.inFlight c' := by
  split
  · rename_i hc
    subst hc
    rw [inFlight, sent_deliver, delivered_deliver_self, List.length_append, List.length_singleton]
    exact (inFlight_eq_cons_iff.mp h).2
  · rename_i hc
    exact inFlight_deliver_of_ne n hc b

/-- Delivering the first frame in flight keeps a link in order. -/
theorem InOrder.deliver {n : Network κ β} {c : κ} (h : n.InOrder c) {c' : κ} {b : β}
    (hb : (n.sent c')[(n.delivered c').length]? = some b) : (n.deliver c' b).InOrder c := by
  by_cases hc : c = c'
  · subst hc
    obtain ⟨rest, hrest⟩ := h
    rw [InOrder, delivered_deliver_self, sent_deliver]
    rw [← hrest, List.getElem?_append_right (Nat.le_refl _), Nat.sub_self] at hb
    cases rest with
    | nil => simp at hb
    | cons x rest =>
      obtain rfl : x = b := by simpa using hb
      exact ⟨rest, by rw [← hrest, List.append_assoc, List.singleton_append]⟩
  · rw [InOrder, delivered_deliver_of_ne _ hc, sent_deliver]
    exact h

end Network

end TeeReplication
