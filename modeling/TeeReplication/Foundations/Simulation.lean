import Mathlib.Order.WellFounded
import TeeReplication.Foundations.Machine

/-!
# Simulations between machines

A machine refines another one when each of its steps is matched by a step with the
same observable events, or has none and is not matched at all. Its runs then have
the observable traces of runs of the other machine, and its reachable states are
related to reachable ones. Progress goes the other way: if the other machine can
only move finitely often, and unmatched steps lower a rank, then the first one stops.
-/

namespace TeeReplication

variable {σ τ υ α β γ ε δ ζ : Type}

namespace Machine

/-- The events of a run, and the state at its end. -/
inductive Run (M : Machine σ α ε) : List ε → σ → Prop
  | start : Run M [] M.start
  | step {trace events : List ε} {s t : σ} {a : α} : Run M trace s →
      M.step s a = some (t, events) → Run M (trace ++ events) t

variable {M : Machine σ α ε} {N : Machine τ β δ}

/-- The state at the end of a run is reachable. -/
theorem Run.reachable {trace : List ε} {s : σ} (h : M.Run trace s) : M.Reachable s := by
  induction h with
  | start => exact .start
  | step _ hstep ih => exact ih.next hstep

/-- A reachable state is at the end of a run. -/
theorem Reachable.exists_run {s : σ} (h : M.Reachable s) : ∃ trace, M.Run trace s := by
  induction h with
  | start => exact ⟨[], .start⟩
  | step _ _ hstep ih =>
    obtain ⟨trace, hrun⟩ := ih
    exact ⟨_, hrun.step hstep⟩

/-- A list of actions is executable if its first one is enabled and the others are behind it. -/
theorem exec_cons {s t : σ} {a : α} {actions : List α} :
    M.exec s (a :: actions) = some t ↔
      ∃ u events, M.step s a = some (u, events) ∧ M.exec u actions = some t := by
  rw [exec, execBy, if_pos trivial, Option.bind_eq_some_iff]
  constructor
  · rintro ⟨⟨u, events⟩, hstep, hrest⟩
    exact ⟨u, events, hstep, hrest⟩
  · rintro ⟨u, events, hstep, hrest⟩
    exact ⟨⟨u, events⟩, hstep, hrest⟩

/-- One more action that is enabled. -/
theorem exec_append_singleton {s t u : σ} {actions : List α} {a : α} {events : List ε}
    (hexec : M.exec s actions = some t) (hstep : M.step t a = some (u, events)) :
    M.exec s (actions ++ [a]) = some u := by
  induction actions generalizing s with
  | nil =>
    cases hexec
    exact exec_cons.mpr ⟨u, events, hstep, rfl⟩
  | cons b actions ih =>
    obtain ⟨s', events', hb, hrest⟩ := exec_cons.mp hexec
    exact exec_cons.mpr ⟨s', events', hb, ih hrest⟩

/-- A reachable state is reached by a list of actions. -/
theorem Reachable.exists_exec {s : σ} (h : M.Reachable s) :
    ∃ actions, M.exec M.start actions = some s := by
  induction h with
  | start => exact ⟨[], rfl⟩
  | step _ _ hstep ih =>
    obtain ⟨actions, hexec⟩ := ih
    exact ⟨_, exec_append_singleton hexec hstep⟩

/-- A state that is reachable by steps of some kind is reachable. -/
theorem ReachableBy.reachable {ok : σ → α → Prop} {s : σ} (h : M.ReachableBy ok s) :
    M.Reachable s := by
  induction h with
  | start => exact .start
  | step _ _ hstep ih => exact ih.next hstep

/-- The machine `M` refines `N`: related states stay related, and an observer who sees of the events
what `obs` and `obs'` show sees of a step of `M` nothing or the same as of a step of `N`. -/
structure Refines (M : Machine σ α ε) (N : Machine τ β δ) (obs : ε → Option ζ) (obs' : δ → Option ζ)
    (R : σ → τ → Prop) : Prop where
  /-- The start states are related. -/
  start : R M.start N.start
  /-- Every step is matched or silent. -/
  step : ∀ s t a s' events, M.Reachable s → N.Reachable t → R s t →
    M.step s a = some (s', events) →
      events.filterMap obs = [] ∧ R s' t ∨
        ∃ b t' events', N.step t b = some (t', events') ∧
          events'.filterMap obs' = events.filterMap obs ∧ R s' t'

namespace Refines

variable {obs : ε → Option ζ} {obs' : δ → Option ζ} {R : σ → τ → Prop}

/-- The observable trace of a run is that of a run of the other machine. -/
theorem run (h : M.Refines N obs obs' R) {trace : List ε} {s : σ} (hrun : M.Run trace s) :
    ∃ trace' t, N.Run trace' t ∧ trace'.filterMap obs' = trace.filterMap obs ∧ R s t := by
  induction hrun with
  | start => exact ⟨[], N.start, .start, rfl, h.start⟩
  | @step trace events s s' a hrun hstep ih =>
    obtain ⟨trace', t, hrun', htrace, hst⟩ := ih
    rw [List.filterMap_append]
    rcases h.step s t a s' events hrun.reachable hrun'.reachable hst hstep with
      ⟨hsilent, hst'⟩ | ⟨b, t', events', hstep', hevents, hst'⟩
    · rw [hsilent, List.append_nil]
      exact ⟨trace', t, hrun', htrace, hst'⟩
    · exact ⟨_, t', hrun'.step hstep', by rw [List.filterMap_append, htrace, hevents], hst'⟩

/-- A reachable state is related to a reachable one. -/
theorem reachable (h : M.Refines N obs obs' R) {s : σ} (hs : M.Reachable s) :
    ∃ t, N.Reachable t ∧ R s t := by
  obtain ⟨trace, hrun⟩ := hs.exists_run
  obtain ⟨trace', t, hrun', -, hst⟩ := h.run hrun
  exact ⟨t, hrun'.reachable, hst⟩

/-- A refinement with the same events can be put before another one. -/
theorem trans {K : Machine υ γ ε} {R' : υ → σ → Prop} (hK : K.Refines M some some R')
    (h : M.Refines N obs obs' R) :
    K.Refines N obs obs' fun u t => ∃ s, M.Reachable s ∧ R' u s ∧ R s t where
  start := ⟨M.start, .start, hK.start, h.start⟩
  step u t a u' events hu ht := by
    rintro ⟨s, hs, hus, hst⟩ hstep
    rcases hK.step u s a u' events hu hs hus hstep with
      ⟨hsilent, hus'⟩ | ⟨b, s', events', hstep', hevents, hus'⟩
    · rw [List.filterMap_some] at hsilent
      subst hsilent
      exact Or.inl ⟨rfl, s, hs, hus', hst⟩
    · rw [List.filterMap_some, List.filterMap_some] at hevents
      subst hevents
      rcases h.step s t b s' _ hs ht hst hstep' with
        ⟨hsilent, hst'⟩ | ⟨c, t', events'', hstep'', hevents, hst'⟩
      · exact Or.inl ⟨hsilent, s', hs.next hstep', hus', hst'⟩
      · exact Or.inr ⟨c, t', events'', hstep'', hevents, s', hs.next hstep', hus', hst'⟩

end Refines

/-- One step forward from a reachable state, by an action that satisfies `ok`. -/
def Next (M : Machine σ α ε) (ok : σ → α → Prop) (t s : σ) : Prop :=
  M.Reachable s ∧ ∃ a events, ok s a ∧ M.step s a = some (t, events)

/-- No action that satisfies `ok` is enabled. -/
def Stuck (M : Machine σ α ε) (ok : σ → α → Prop) (s : σ) : Prop :=
  ∀ a, ok s a → M.step s a = none

/-- No run goes on forever with steps that satisfy `ok`. -/
def Halts (M : Machine σ α ε) (ok : σ → α → Prop) : Prop := WellFounded (M.Next ok)

/-- A machine that halts can be run to its end. -/
theorem Halts.exists_stuck {ok : σ → α → Prop} (h : M.Halts ok) :
    ∃ s, M.Reachable s ∧ M.Stuck ok s := by
  obtain ⟨s, hs, hmin⟩ := h.has_min {s | M.Reachable s} ⟨M.start, .start⟩
  refine ⟨s, hs, fun a hok => ?_⟩
  cases hstep : M.step s a with
  | none => rfl
  | some r => exact absurd ⟨hs, a, r.2, hok, hstep⟩ (hmin r.1 (hs.next hstep))

/-- A machine whose steps all lower a number halts. -/
theorem halts_of_lt {ok : σ → α → Prop} (potential : σ → ℕ)
    (hlt : ∀ s a t events, M.Reachable s → ok s a → M.step s a = some (t, events) →
      potential t < potential s) : M.Halts ok := by
  apply Subrelation.wf (r := InvImage (· < ·) potential) _ (InvImage.wf _ Nat.lt_wfRel.wf)
  rintro t s ⟨hs, a, events, hok, hstep⟩
  exact hlt s a t events hs hok hstep

/-- A number that every step raises by one counts the actions. -/
theorem count_eq_length (count : σ → ℕ) (hstart : count M.start = 0)
    (hstep : ∀ s a t events, M.Reachable s → M.step s a = some (t, events) →
      count t = count s + 1)
    {actions : List α} {t : σ} (hexec : M.exec M.start actions = some t) :
    count t = actions.length := by
  induction actions using List.reverseRecOn generalizing t with
  | nil =>
    cases hexec
    exact hstart
  | append_singleton actions a ih =>
    obtain ⟨s, events, hs, hlast⟩ := exec_concat hexec
    rw [hstep s a t events (reachable_of_exec hs) hlast, ih hs, List.length_append,
      List.length_singleton]

/-- A machine that counts its steps up to a bound halts. -/
theorem halts_of_count (count : σ → ℕ) (bound : ℕ)
    (hstep : ∀ s a t events, M.Reachable s → M.step s a = some (t, events) →
      count t = count s + 1)
    (hle : ∀ s, M.Reachable s → count s ≤ bound) : M.Halts fun _ _ => True := by
  apply halts_of_lt fun s => bound - count s
  intro s a t events hs _ hmove
  have hcount := hstep s a t events hs hmove
  have hbound := hle t (hs.next hmove)
  omega

/-- A machine halts if one that it is related to does, and its steps that are not matched there
lower a number. -/
theorem Halts.of_related {ok : σ → α → Prop} {ok' : τ → β → Prop} (hN : N.Halts ok')
    (R : σ → τ → Prop) (rank : σ → ℕ)
    (hreachable : ∀ s, M.Reachable s → ∃ t, N.Reachable t ∧ R s t)
    (hstep : ∀ s t a s' events, M.Reachable s → N.Reachable t → R s t → ok s a →
      M.step s a = some (s', events) →
        R s' t ∧ rank s' < rank s ∨ ∃ t', N.Next ok' t' t ∧ R s' t') : M.Halts ok := by
  have hacc (t : τ) : ∀ s, M.Reachable s → N.Reachable t → R s t → Acc (M.Next ok) s := by
    induction t using hN.induction with
    | h t iht =>
      intro s
      induction hn : rank s using Nat.strong_induction_on generalizing s with
      | h n ihs =>
        intro hs ht hst
        constructor
        rintro s' ⟨-, a, events, hok, hmove⟩
        have hs' := hs.next hmove
        rcases hstep s t a s' events hs ht hst hok hmove with ⟨hst', hlt⟩ | ⟨t', hnext, hst'⟩
        · exact ihs _ (hn ▸ hlt) s' rfl hs' ht hst'
        · obtain ⟨-, b, events', -, hmove'⟩ := id hnext
          exact iht t' hnext s' hs' (ht.next hmove') hst'
  constructor
  intro s
  by_cases hs : M.Reachable s
  · obtain ⟨t, ht, hst⟩ := hreachable s hs
    exact hacc t s hs ht hst
  · exact ⟨s, fun s' hnext => absurd hnext.1 hs⟩

end Machine

end TeeReplication
