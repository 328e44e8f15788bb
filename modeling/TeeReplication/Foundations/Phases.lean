import Mathlib.Order.GameAdd
import TeeReplication.Foundations.Rendezvous
import TeeReplication.Foundations.StreamProgress

/-!
# Programs that connect and then exchange

Two machines run side by side, and each action of the second one waits until the first
one opens a gate for it. Programs are of this kind: the threads of a process start when
it has made its connections, whatever the other processes are doing by then. Such
programs stop if they stop connecting and their threads stop; and if every connection
is made, they stop only where the threads stop.
-/

namespace TeeReplication

namespace Machine

variable {σ τ α β ε δ : Type} {M : Machine σ α ε} {N : Machine τ β δ}

/-- Two machines, with a gate in front of every action of the second one. -/
def gated (M : Machine σ α ε) (N : Machine τ β δ) (gate : σ → β → Prop)
    [∀ s b, Decidable (gate s b)] : Machine (σ × τ) (α ⊕ β) (ε ⊕ δ) where
  start := (M.start, N.start)
  step x c := match c with
    | .inl a => (M.step x.1 a).map fun r => ((r.1, x.2), r.2.map .inl)
    | .inr b => if gate x.1 b then (N.step x.2 b).map fun r => ((x.1, r.1), r.2.map .inr) else none

/-- A condition on the steps of each of two machines. -/
def both (ok : σ → α → Prop) (ok' : τ → β → Prop) (x : σ × τ) : α ⊕ β → Prop :=
  Sum.elim (ok x.1) (ok' x.2)

variable {ok : σ → α → Prop} {ok' : τ → β → Prop} {gate : σ → β → Prop}
  [∀ s b, Decidable (gate s b)] {x y : σ × τ} {events : List (ε ⊕ δ)}

/-- A step of the first machine changes nothing in the second one. -/
theorem gated_inl {a : α} (h : (M.gated N gate).step x (.inl a) = some (y, events)) :
    ∃ events', M.step x.1 a = some (y.1, events') ∧ y.2 = x.2 := by
  obtain ⟨r, hstep, heq⟩ := Option.map_eq_some_iff.mp h
  obtain ⟨rfl, -⟩ := Prod.mk.inj heq
  exact ⟨r.2, hstep, rfl⟩

/-- A step of the second machine goes through an open gate and changes nothing in the first one. -/
theorem gated_inr {b : β} (h : (M.gated N gate).step x (.inr b) = some (y, events)) :
    gate x.1 b ∧ ∃ events', N.step x.2 b = some (y.2, events') ∧ y.1 = x.1 := by
  rw [gated] at h
  dsimp only at h
  split at h
  · rename_i hopen
    obtain ⟨r, hstep, heq⟩ := Option.map_eq_some_iff.mp h
    obtain ⟨rfl, -⟩ := Prod.mk.inj heq
    exact ⟨hopen, r.2, hstep, rfl⟩
  · cases h

/-- Each machine takes its own steps. -/
theorem ReachableBy.of_gated (h : (M.gated N gate).ReachableBy (both ok ok') x) :
    M.ReachableBy ok x.1 ∧ N.ReachableBy ok' x.2 := by
  induction h with
  | start => exact ⟨.start, .start⟩
  | @step x y c events _ hok hstep ih =>
    cases c with
    | inl a =>
      obtain ⟨events', ha, hsame⟩ := gated_inl hstep
      rw [hsame]
      exact ⟨ih.1.step hok ha, ih.2⟩
    | inr b =>
      obtain ⟨-, events', hb, hsame⟩ := gated_inr hstep
      rw [hsame]
      exact ⟨ih.1, ih.2.step hok hb⟩

/-- So does each of them in an unrestricted run. -/
theorem Reachable.of_gated (h : (M.gated N gate).Reachable x) :
    M.Reachable x.1 ∧ N.Reachable x.2 := by
  have hby : (M.gated N gate).ReachableBy (both (fun _ _ => True) fun _ _ => True) x := by
    induction h with
    | start => exact .start
    | @step x y c events _ _ hstep ih =>
      refine ih.step ?_ hstep
      cases c <;> trivial
  exact hby.of_gated

/-- A step of the first machine is one of the two. -/
theorem gated_step_inl {s s' : σ} (t : τ) {a : α} {events : List ε}
    (h : M.step s a = some (s', events)) :
    (M.gated N gate).step (s, t) (.inl a) = some ((s', t), events.map .inl) :=
  Option.map_eq_some_iff.mpr ⟨(s', events), h, rfl⟩

/-- So is a step of the second machine through an open gate. -/
theorem gated_step_inr {s : σ} {t t' : τ} {b : β} {events : List δ} (hopen : gate s b)
    (h : N.step t b = some (t', events)) :
    (M.gated N gate).step (s, t) (.inr b) = some ((s, t'), events.map .inr) :=
  (if_pos hopen).trans (Option.map_eq_some_iff.mpr ⟨(t', events), h, rfl⟩)

/-- A run of the first machine that opens all gates, and a run of the second one after it. -/
theorem ReachableBy.gated {s : σ} {t : τ} (hs : M.ReachableBy ok s) (hopen : ∀ b, gate s b)
    (ht : N.ReachableBy ok' t) : (M.gated N gate).ReachableBy (both ok ok') (s, t) := by
  have hfirst : (M.gated N gate).ReachableBy (both ok ok') (s, N.start) := by
    clear hopen
    induction hs with
    | start => exact .start
    | @step s s' a events _ hok hstep ih =>
      exact ih.step (a := .inl a) hok (gated_step_inl _ hstep)
  induction ht with
  | start => exact hfirst
  | @step t t' b events _ hok hstep ih =>
    exact ih.step (a := .inr b) hok (gated_step_inr (hopen b) hstep)

/-- A machine that halts does so when fewer steps are allowed. -/
theorem Halts.mono {ok' : σ → α → Prop} (h : M.Halts ok) (hle : ∀ s a, ok' s a → ok s a) :
    M.Halts ok' :=
  Subrelation.wf (fun ⟨hs, a, events, hok, hstep⟩ => ⟨hs, a, events, hle _ _ hok, hstep⟩) h

/-- Two machines that halt do so side by side. -/
theorem Halts.gated (hM : M.Halts ok) (hN : N.Halts ok') :
    (M.gated N gate).Halts (both ok ok') := by
  refine Subrelation.wf ?_ (WellFounded.prod_gameAdd hM hN)
  rintro ⟨s', t'⟩ ⟨s, t⟩ ⟨hreach, c, events, hok, hstep⟩
  obtain ⟨hs, ht⟩ := hreach.of_gated
  cases c with
  | inl a =>
    obtain ⟨events', ha, hsame⟩ := gated_inl hstep
    obtain rfl : t' = t := hsame
    exact .fst ⟨hs, a, events', hok, ha⟩
  | inr b =>
    obtain ⟨-, events', hb, hsame⟩ := gated_inr hstep
    obtain rfl : s' = s := hsame
    exact .snd ⟨ht, b, events', hok, hb⟩

/-- Where nothing can happen in either machine, nothing can happen. -/
theorem Stuck.gated {s : σ} {t : τ} (hM : M.Stuck ok s) (hN : N.Stuck ok' t) :
    (M.gated N gate).Stuck (both ok ok') (s, t) := by
  rintro (a | b) hok
  · exact Option.map_eq_none_iff.mpr (hM a hok)
  · have hnone : N.step t b = none := hN b hok
    simp [Machine.gated, hnone]

/-- Where nothing can happen, nothing can happen in the first machine, and nothing can happen in the
second one if all gates are open. -/
theorem Stuck.of_gated (h : (M.gated N gate).Stuck (both ok ok') x) :
    M.Stuck ok x.1 ∧ ((∀ b, gate x.1 b) → N.Stuck ok' x.2) := by
  constructor
  · intro a hok
    exact Option.map_eq_none_iff.mp (h (.inl a) hok)
  · intro hopen b hok
    have hnone : (if gate x.1 b then _ else _) = none := h (.inr b) hok
    rw [if_pos (hopen b)] at hnone
    exact Option.map_eq_none_iff.mp hnone

end Machine

namespace Rendezvous

variable {π α : Type} [DecidableEq π] [DecidableEq α] {script : π → List (SocketCall α)}
  {s s' : State π α} {p q : π} {a : α} {events : List (Notice π α)}

instance (script : π → List (SocketCall α)) (s : State π α) (p : π) :
    Decidable (s.Done script p) :=
  inferInstanceAs (Decidable (_ ≤ _))

/-- A process that is done remains so. -/
theorem State.Done.step (h : s.Done script q) (hstep : s.step script p = some (s', events)) :
    s'.Done script q := by
  obtain ⟨-, hmove⟩ := step_cases hstep
  have hle : (s.party q).next ≤ (s'.party q).next := by
    by_cases hq : q = p
    · cases hmove <;> simp [hq]
    · rw [party_of_step_of_ne hstep hq]
  exact Nat.le_trans h hle

/-- When a host is done, the dialer has connected. -/
theorem Plan.connected_of_done (P : Plan script) (h : (rendezvous script).Reachable s)
    (ha : a ∈ P.addresses) (hdone : s.Done script (P.host a)) :
    0 < s.count script (SocketCall.Connects a) (P.dialer a) := by
  have hs := Consistent.of_reachable (P := P) h ha
  have hone : (s.accepted a).length = 1 := by
    rw [hs.accepted, hdone.count_eq, P.accepts a ha, if_pos rfl]
  have hqueue := congrArg List.length hs.queue
  rw [List.length_append, List.length_replicate] at hqueue
  omega

end Rendezvous

section Program

variable {π α θ κ ω ι ε : Type} [DecidableEq π] [DecidableEq α] [DecidableEq θ] [DecidableEq κ]

/-- The thread that makes a call. -/
def Call.thread (P : Threads θ κ ω ι ε) : Call θ κ → θ
  | .act t | .accept t _ => t
  | .negative k | .bytes k _ | .zero k => P.reader k

/-- Processes that make their connections and then start their threads. -/
def program (script : π → List (SocketCall α)) (P : Threads θ κ ω ι ε) (F : Framing ω ι)
    (capacity : κ → ℕ) (node : θ → π) :
    Machine (Rendezvous.State π α × P.Wired F) (π ⊕ Call θ κ) (Notice π α ⊕ ε) :=
  (rendezvous script).gated (P.overStreams F capacity) fun s call =>
    s.Done script (node (call.thread P))

namespace Threads

variable {P : Threads θ κ ω ι ε} {F : Framing ω ι} {capacity : κ → ℕ} {w w' : P.Wired F}
  {events : List ε}

omit [DecidableEq κ] in
/-- A turn of a thread changes no local variables of another one. -/
theorem Wired.locals_turn_of_ne (w : P.Wired F) {t t' : θ} (h : t ≠ t')
    (r : Turn (P.Local t') κ ω ε) : (w.turn t' r).locals t = w.locals t :=
  Function.update_of_ne h _ _

/-- Nor does a receive of another thread. -/
theorem Wired.locals_of_resume {k : κ} {outcome : F.State ⊕ ι} {t : θ} (ht : t ≠ P.reader k)
    (h : w.resume k outcome = some (w', events)) : w'.locals t = w.locals t := by
  cases outcome with
  | inl st =>
    obtain ⟨rfl, -⟩ := Prod.mk.inj (Option.some.inj h)
    rfl
  | inr i =>
    obtain ⟨r, -, heq⟩ := Option.map_eq_some_iff.mp h
    obtain ⟨rfl, -⟩ := Prod.mk.inj heq
    exact locals_turn_of_ne _ ht r

/-- A call changes the local variables of the thread that makes it, if any. -/
theorem Wired.locals_of_step {call : Call θ κ} (h : w.step capacity call = some (w', events))
    {t : θ} (ht : t ≠ call.thread P) : w'.locals t = w.locals t := by
  cases call with
  | act t' =>
    rw [Wired.step] at h
    split at h
    · obtain ⟨r, -, heq⟩ := Option.map_eq_some_iff.mp h
      obtain ⟨rfl, -⟩ := Prod.mk.inj heq
      exact locals_turn_of_ne _ ht r
    · cases h
  | accept t' n =>
    rw [Wired.step] at h
    split at h
    · cases h
    · split at h
      · obtain ⟨rfl, -⟩ := Prod.mk.inj (Option.some.inj h)
        rfl
      · cases h
  | negative k =>
    rw [Wired.step] at h
    split at h
    · obtain ⟨rfl, -⟩ := Prod.mk.inj (Option.some.inj h)
      rfl
    · cases h
  | bytes k n =>
    rw [Wired.step] at h
    split at h
    · have hsame := locals_of_resume ht h
      exact hsame
    · cases h
  | zero k =>
    rw [Wired.step] at h
    split at h
    · have hsame := locals_of_resume ht h
      exact hsame
    · cases h

end Threads

variable {script : π → List (SocketCall α)} {P : Threads θ κ ω ι ε} {F : Framing ω ι}
  {capacity : κ → ℕ} {node : θ → π} {x : Rendezvous.State π α × P.Wired F} {t : θ}

/-- A thread that has done something runs in a process that has made its connections. -/
theorem done_of_moved (h : (program script P F capacity node).Reachable x)
    (hmoved : x.2.locals t ≠ P.start t) : x.1.Done script (node t) := by
  have hwaits : ∀ t, x.2.locals t = P.start t ∨ x.1.Done script (node t) := by
    refine h.invariant (P := fun x => ∀ t, x.2.locals t = P.start t ∨ x.1.Done script (node t))
      (fun t => .inl rfl) ?_
    intro x c y events hx hstep t
    cases c with
    | inl p =>
      obtain ⟨events', hp, hsame⟩ := Machine.gated_inl hstep
      rw [hsame]
      exact (hx t).imp_right fun hdone => hdone.step hp
    | inr call =>
      obtain ⟨hopen, events', hcall, hsame⟩ := Machine.gated_inr hstep
      rw [hsame]
      by_cases ht : t = call.thread P
      · subst ht
        exact .inr hopen
      · rw [Threads.Wired.locals_of_step hcall ht]
        exact hx t
  exact (hwaits t).resolve_left hmoved

end Program

end TeeReplication
