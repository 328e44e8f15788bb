import Mathlib.Algebra.BigOperators.Ring.Finset
import Mathlib.Algebra.Order.BigOperators.Group.Finset
import Mathlib.Tactic.Ring
import TeeReplication.Foundations.Streams

/-!
# Streams neither block nor spin

If no thread writes, directly or through others, to a link that it reads, full buffers
cannot block the threads in a circle. A program on streams then stops only where it
would stop on links that hand over whole frames, and it stops if it would stop there,
unless `recv` keeps giving negative results.
-/

namespace TeeReplication.Threads

variable {θ κ ω ι ε : Type} [DecidableEq θ] [DecidableEq κ] {P : Threads θ κ ω ι ε}
  {F : Framing ω ι} {capacity : κ → ℕ} {w w' : P.Wired F} {s : P.State} {t : θ} {k : κ}

/-- What keeps the streams flowing: links lead downwards, and the reader of a link does not stop
before it has read what is in flight. -/
structure Flows (P : Threads θ κ ω ι ε) (F : Framing ω ι) (rank : κ → ℕ) : Prop where
  /-- The reader of a link writes to lower links only. -/
  lower : ∀ k k', P.writer k' = P.reader k → rank k' < rank k
  /-- The reader of a link with frames in flight waits or can take a turn. -/
  attended : ∀ s, (P.linked F).Reachable s → ∀ k, s.net.inFlight k ≠ [] →
    P.waiting (P.reader k) (s.locals (P.reader k)) = true ∨
      (P.act (P.reader k) (s.locals (P.reader k))).isSome = true

/-- A waiting thread handles what a receive gives. -/
theorem Wired.resume_ne_none (hwait : P.waiting (P.reader k) (w.locals (P.reader k)) = true)
    (outcome : F.State ⊕ ι) : w.resume k outcome ≠ none := by
  cases outcome with
  | inl st => exact Option.some_ne_none _
  | inr i =>
    rw [resume, Ne, Option.map_eq_none_iff, ← Ne, ← Option.isSome_iff_ne_none, P.isSome_handle]
    exact hwait

namespace Carries

section Stuck

variable (hcapacity : ∀ k, 0 < capacity k)
  (hstuck : (P.overStreams F capacity).Stuck (fun _ call => call.Productive) w)

include hcapacity hstuck

/-- A thread that is stuck with something to send has a full buffer in front of it. -/
theorem outbox_eq_nil_of_stuck (h : Carries w s)
    (hroom : ∀ k, P.writer k = t → w.unread k = []) : w.outbox t = [] := by
  cases hbox : w.outbox t with
  | nil => rfl
  | cons e rest =>
    obtain ⟨k, data⟩ := e
    obtain ⟨hwriter, hne⟩ := h.outbox t (k, data) (hbox ▸ List.mem_cons_self)
    have hcall := hstuck (.accept t 1) trivial
    have hpos := hcapacity k
    have hdata : 0 < data.length := List.length_pos_iff.mpr hne
    change w.step capacity (.accept t 1) = none at hcall
    simp only [Wired.step, hbox, hroom k hwriter, List.length_nil] at hcall
    rw [if_pos ⟨Nat.one_pos, hdata, by omega⟩] at hcall
    cases hcall

variable {rank : κ → ℕ} (hflows : P.Flows F rank) (hframed : P.AllFramed F)
  (hs : (P.linked F).Reachable s)

include hflows hframed hs

/-- A program that is stuck has read everything. -/
theorem unread_eq_nil_of_stuck (h : Carries w s) (k : κ) : w.unread k = [] := by
  induction hn : rank k using Nat.strong_induction_on generalizing k with
  | h n ih =>
    by_contra hne
    have hstream := h.streams k
    have hflight : s.net.inFlight k ≠ [] := fun hnil =>
      hne (List.append_eq_nil_iff.mp (hstream.eq_nil_iff.mpr hnil)).1
    -- the links that the reader writes are below this one, so none of them blocks it
    have hempty : w.outbox (P.reader k) = [] :=
      h.outbox_eq_nil_of_stuck hcapacity hstuck fun k' hk' =>
        ih (rank k') (hn ▸ hflows.lower k k' hk') k' rfl
    have hpos : 0 < (w.unread k).length := List.length_pos_iff.mpr hne
    rcases hflows.attended s hs k hflight with hwait | hact
    · rw [← h.locals] at hwait
      have hneed := hstream.need_pos (hframed.inFlight hs k)
        (List.append_ne_nil_of_left_ne_nil hne _)
      have hcall := hstuck (.bytes k 1) trivial
      change (if _ then _ else _) = _ at hcall
      rw [if_pos ⟨⟨hempty, hwait⟩, Nat.one_pos, hneed, hpos⟩] at hcall
      refine Wired.resume_ne_none ?_ _ hcall
      exact hwait
    · rw [← h.locals] at hact
      have hcall := hstuck (.act (P.reader k)) trivial
      change (if _ then _ else _) = _ at hcall
      rw [if_pos hempty, Option.map_eq_none_iff] at hcall
      rw [hcall] at hact
      cases hact

/-- A program that is stuck on streams would be stuck on links that hand over whole frames, and
nothing is on its way. -/
theorem stuck (h : Carries w s) :
    (P.linked F).Stuck (fun _ _ => True) s ∧ (∀ k, s.net.inFlight k = []) ∧
      (∀ k, w.unread k = []) ∧ ∀ t, w.outbox t = [] := by
  have hunread := h.unread_eq_nil_of_stuck hcapacity hstuck hflows hframed hs
  have hempty (t : θ) := h.outbox_eq_nil_of_stuck hcapacity hstuck (t := t) fun k _ => hunread k
  have hflight (k : κ) : s.net.inFlight k = [] := by
    apply (h.streams k).eq_nil_iff.mp
    rw [hunread k, Wired.outgoing_eq_nil (hempty _)]
    rfl
  refine ⟨?_, hflight, hunread, hempty⟩
  rintro m -
  cases m with
  | act t =>
    have hcall := hstuck (.act t) trivial
    change (if _ then _ else _) = _ at hcall
    rw [if_pos (hempty t), Option.map_eq_none_iff, h.locals] at hcall
    change Option.map _ _ = _
    rw [hcall]
    rfl
  | deliver k =>
    have hnext : (s.net.sent k)[(s.net.delivered k).length]? = none := by
      rw [← List.head?_drop]
      exact congrArg List.head? (hflight k)
    change Option.bind _ _ = _
    rw [hnext]
    rfl
  | eof k =>
    change (if _ then _ else _) = _
    split
    · rename_i hover
      rw [Option.map_eq_none_iff, ← Option.not_isSome_iff_eq_none, P.isSome_handle]
      intro hwait
      rw [← h.locals] at hwait hover
      have hcall := hstuck (.zero k) trivial
      change (if _ then _ else _) = _ at hcall
      rw [if_pos ⟨⟨hempty _, hwait⟩, hunread k, hover.2, fun t _ => hempty t⟩] at hcall
      exact Wired.resume_ne_none hwait _ hcall
    · rfl

end Stuck

end Carries

section Load

variable [Fintype θ] [Fintype κ]

/-- How many symbols a thread has yet to send. -/
def Wired.unsent (w : P.Wired F) (t : θ) : ℕ := ((w.outbox t).map fun e => e.2.length).sum

/-- What the steps that no thread takes part in use up: symbols in outboxes, then symbols in
buffers, then patience. -/
def Wired.load (w : P.Wired F) : ℕ :=
  (F.maxPatience + 2) * ∑ t, w.unsent t + (F.maxPatience + 1) * ∑ k, (w.unread k).length +
    ∑ k, F.patience (w.receive k)

/-- A sum after one summand has changed. -/
private theorem sum_update {α β : Type} [Fintype α] [DecidableEq α] (g : β → ℕ) (f : α → β) (a : α)
    (v : β) : ∑ x, g (Function.update f a v x) + g (f a) = ∑ x, g (f x) + g v := by
  have hrest : ∑ x ∈ Finset.univ.erase a, g (Function.update f a v x) =
      ∑ x ∈ Finset.univ.erase a, g (f x) :=
    Finset.sum_congr rfl fun x hx => by rw [Function.update_of_ne (Finset.ne_of_mem_erase hx)]
  rw [← Finset.add_sum_erase _ _ (Finset.mem_univ a), ← Finset.add_sum_erase _ (fun x => g (f x))
    (Finset.mem_univ a), hrest, Function.update_self]
  ring

omit [DecidableEq κ] [Fintype κ] in
/-- What is left of an outbox when `n` symbols of the frame in front have been accepted. -/
theorem Wired.sum_remaining (k : κ) {data : List ω} (rest : List (κ × List ω)) {n : ℕ}
    (hn : n ≤ data.length) : ((remaining k data rest n).map fun e => e.2.length).sum + n =
      (((k, data) :: rest).map fun e => e.2.length).sum := by
  unfold remaining
  split
  · rename_i hall
    simp only [List.map_cons, List.sum_cons]
    omega
  · simp only [List.map_cons, List.sum_cons, List.length_drop]
    omega

/-- A symbol in an outbox weighs more than one in a buffer. -/
private theorem load_lt_of_accept {m a a' b b' c n : ℕ} (hn : 0 < n) (ha : a' + n = a)
    (hb : b' = b + n) : (m + 2) * a' + (m + 1) * b' + c < (m + 2) * a + (m + 1) * b + c := by
  subst ha hb
  have hweight : (m + 2) * n = (m + 1) * n + n := by ring
  rw [Nat.mul_add, Nat.mul_add]
  omega

/-- A symbol in a buffer weighs more than all patience. -/
private theorem load_lt_of_bytes {m a b b' c c' n : ℕ} (hn : 0 < n) (hb : b' + n = b)
    (hc : c' ≤ c + m) : a + (m + 1) * b' + c' < a + (m + 1) * b + c := by
  subst hb
  have hweight : m + 1 ≤ (m + 1) * n := Nat.le_mul_of_pos_right _ hn
  rw [Nat.mul_add]
  omega

/-- Every such step lowers the load. -/
theorem Wired.Silent.load_lt (h : w.Silent w') : w'.load < w.load := by
  cases h with
  | @accept t k data rest n hbox hpos hn =>
    have hunsent := sum_update (fun box : List (κ × List ω) => (box.map fun e => e.2.length).sum)
      w.outbox t (remaining k data rest n)
    have hunread := sum_update List.length w.unread k (w.unread k ++ data.take n)
    have hsum := sum_remaining k rest hn
    rw [← hbox] at hsum
    rw [List.length_append, List.length_take_of_le hn] at hunread
    simp only [load, unsent]
    exact load_lt_of_accept hpos (by omega) (by omega)
  | @bytes k n st hpos hn =>
    have hunread := sum_update List.length w.unread k ((w.unread k).drop n)
    have hpatience := sum_update F.patience w.receive k st
    have hle := F.patience_le st
    rw [List.length_drop] at hunread
    simp only [load, unsent]
    exact load_lt_of_bytes hpos (by omega) (by omega)
  | @zero k st hlt =>
    have hpatience := sum_update F.patience w.receive k st
    simp only [load, unsent]
    omega

/-- If a program stops on links that hand over whole frames, then it stops on streams as long as no
`recv` gives a negative result. -/
theorem overStreams_halts (hframed : P.AllFramed F)
    (hhalts : (P.linked F).Halts fun _ _ => True) :
    (P.overStreams F capacity).Halts fun _ call => call.Productive := by
  refine hhalts.of_related Carries Wired.load
    (fun w hw => (overStreams_refines hframed).reachable hw) ?_
  intro w s call w' events _ hs hcarries hproductive hstep
  rcases hcarries.step hframed hs hstep with ⟨-, hcarries', hsilent⟩ | ⟨m, s', hmove, hcarries'⟩
  · left
    exact ⟨hcarries', (hsilent hproductive).load_lt⟩
  · right
    exact ⟨s', ⟨hs, m, events, trivial, hmove⟩, hcarries'⟩

end Load

end TeeReplication.Threads
