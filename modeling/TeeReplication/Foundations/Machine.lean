import Mathlib.Data.List.Basic
import Mathlib.Data.List.Induction

/-!
# Machines and their runs

A machine has one start state and a partial step for each action; a step also
yields the list of events it emitted. An interleaving of several processes is a
machine whose actions name the process that moves. Runs are built by appending a
step at the end, and a run may be restricted to steps that satisfy a condition
on the action and the state before it.
-/

namespace TeeReplication

/-- A start state and a partial step function; every step emits a list of events. -/
structure Machine (σ α ε : Type) where
  /-- The state in which every run begins. -/
  start : σ
  /-- The state after an action and the events it emits; `none` if it is not enabled. -/
  step : σ → α → Option (σ × List ε)

namespace Machine

variable {σ α ε : Type} (M : Machine σ α ε)

/-- The states at the end of a run all of whose steps satisfy `ok`. -/
inductive ReachableBy (ok : σ → α → Prop) : σ → Prop
  | start : ReachableBy ok M.start
  | step {s t : σ} {a : α} {events : List ε} : ReachableBy ok s → ok s a →
      M.step s a = some (t, events) → ReachableBy ok t

/-- The states at the end of a run. -/
def Reachable (s : σ) : Prop := M.ReachableBy (fun _ _ => True) s

variable {M}

/-- One more step of an unrestricted run. -/
theorem Reachable.next {s t : σ} {a : α} {events : List ε} (h : M.Reachable s)
    (hstep : M.step s a = some (t, events)) : M.Reachable t :=
  ReachableBy.step h trivial hstep

/-- A property of the start state that every step of the run preserves holds at its end. -/
theorem ReachableBy.invariant {ok : σ → α → Prop} {P : σ → Prop} (hstart : P M.start)
    (hpreserved : ∀ s a t events, P s → ok s a → M.step s a = some (t, events) → P t)
    {s : σ} (h : M.ReachableBy ok s) : P s := by
  induction h with
  | start => exact hstart
  | step _ hok hstep ih => exact hpreserved _ _ _ _ ih hok hstep

/-- A property of the start state that every step preserves holds in every reachable state. -/
theorem Reachable.invariant {P : σ → Prop} (hstart : P M.start)
    (hpreserved : ∀ s a t events, P s → M.step s a = some (t, events) → P t)
    {s : σ} (h : M.Reachable s) : P s :=
  ReachableBy.invariant hstart (fun s a t events hs _ => hpreserved s a t events hs) h

variable (M)

/-- The state after a list of actions, if each of them is enabled in turn and satisfies `ok`. -/
def execBy (ok : σ → α → Prop) [∀ s a, Decidable (ok s a)] : σ → List α → Option σ
  | s, [] => some s
  | s, a :: rest => if ok s a then (M.step s a).bind fun r => execBy ok r.1 rest else none

/-- The state after a list of actions, if each of them is enabled in turn. -/
def exec : σ → List α → Option σ := M.execBy fun _ _ => True

variable {M}

/-- Executing one more action at the end. -/
theorem exec_concat {s t : σ} {actions : List α} {a : α}
    (h : M.exec s (actions ++ [a]) = some t) :
    ∃ u events, M.exec s actions = some u ∧ M.step u a = some (t, events) := by
  induction actions generalizing s with
  | nil =>
    rw [List.nil_append, exec, execBy, if_pos trivial] at h
    obtain ⟨⟨u, events⟩, hstep, hrest⟩ := Option.bind_eq_some_iff.mp h
    cases hrest
    exact ⟨s, events, rfl, hstep⟩
  | cons b rest ih =>
    rw [List.cons_append, exec, execBy, if_pos trivial] at h
    obtain ⟨⟨u, events⟩, hstep, hrest⟩ := Option.bind_eq_some_iff.mp h
    obtain ⟨v, events', hexec, hlast⟩ := ih hrest
    refine ⟨v, events', ?_, hlast⟩
    rw [exec, execBy, if_pos trivial, hstep]
    exact hexec

/-- Executing actions from the end of a restricted run continues the run. -/
theorem ReachableBy.execBy {ok : σ → α → Prop} [∀ s a, Decidable (ok s a)] {s t : σ}
    {actions : List α} (h : M.ReachableBy ok s) (hexec : M.execBy ok s actions = some t) :
    M.ReachableBy ok t := by
  induction actions generalizing s with
  | nil => cases hexec; exact h
  | cons a rest ih =>
    rw [Machine.execBy] at hexec
    split at hexec
    · rename_i hok
      obtain ⟨⟨u, events⟩, hstep, hrest⟩ := Option.bind_eq_some_iff.mp hexec
      exact ih (.step h hok hstep) hrest
    · cases hexec

/-- The state after an executable list of actions from the start is reachable. -/
theorem reachable_of_exec {t : σ} {actions : List α} (h : M.exec M.start actions = some t) :
    M.Reachable t :=
  ReachableBy.execBy .start h

/-- A reflexive and transitive relation between the states before and after every step of a run
holds between any earlier state of the run and its end. -/
theorem rel_of_exec {R : σ → σ → Prop} (hrefl : ∀ s, R s s)
    (htrans : ∀ s t u, R s t → R t u → R s u)
    (hrel : ∀ s a t events, M.Reachable s → M.step s a = some (t, events) → R s t)
    {t d : σ} {actions before : List α} (h : M.exec M.start actions = some t)
    (hbefore : before <+: actions) (hd : M.exec M.start before = some d) : R d t := by
  induction actions using List.reverseRecOn generalizing t with
  | nil =>
    rw [List.prefix_nil.mp hbefore, h] at hd
    cases hd
    exact hrefl _
  | append_singleton actions a ih =>
    rcases List.prefix_concat_iff.mp hbefore with rfl | hbefore
    · rw [h] at hd
      cases hd
      exact hrefl _
    · obtain ⟨u, events, hu, hstep⟩ := exec_concat h
      exact htrans d u t (ih hu hbefore) (hrel u a t events (reachable_of_exec hu) hstep)

end Machine

end TeeReplication
