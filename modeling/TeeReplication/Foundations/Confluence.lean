import TeeReplication.Foundations.StreamProgress

/-!
# Interleavings with one outcome

If two enabled actions can always be taken in either order, then all runs that cannot
go on end in the same state, and they are permutations of each other. Threads that
share nothing but links with one writer and one reader are of this kind as long as
none of them can choose between a turn of its own and a receive.
-/

namespace TeeReplication

namespace Machine

variable {σ α ε : Type} {M : Machine σ α ε}

/-- Two different actions that are both enabled can be taken in either order. -/
def Commutes (M : Machine σ α ε) : Prop :=
  ∀ s a b t u events events', M.Reachable s → a ≠ b → M.step s a = some (t, events) →
    M.step s b = some (u, events') →
    ∃ v, M.step t b = some (v, events') ∧ M.step u a = some (v, events)

namespace Commutes

variable {s t u : σ} {actions : List α}

/-- An enabled action can be moved to the front of a run that cannot go on. -/
theorem front (hM : M.Commutes) (hs : M.Reachable s) {a : α} {events : List ε}
    (hstep : M.step s a = some (t, events)) (hexec : M.exec s actions = some u)
    (hstuck : M.Stuck (fun _ _ => True) u) :
    ∃ rest, M.exec t rest = some u ∧ (a :: rest).Perm actions := by
  induction actions generalizing s t with
  | nil =>
    cases hexec
    rw [hstuck a trivial] at hstep
    cases hstep
  | cons b actions ih =>
    obtain ⟨s', events', hb, hrest⟩ := exec_cons.mp hexec
    by_cases hab : a = b
    · subst hab
      rw [hstep] at hb
      obtain ⟨rfl, rfl⟩ := Prod.mk.inj (Option.some.inj hb)
      exact ⟨actions, hrest, .refl _⟩
    · obtain ⟨v, htv, hv⟩ := hM s a b t s' events events' hs hab hstep hb
      obtain ⟨rest, hexec', hperm⟩ := ih (hs.next hb) hv hrest
      exact ⟨b :: rest, exec_cons.mpr ⟨v, events', htv, hexec'⟩,
        (List.Perm.swap b a rest).trans (hperm.cons b)⟩

/-- Every run can be completed to a permutation of one that cannot go on. -/
theorem complete (hM : M.Commutes) (hs : M.Reachable s) {others : List α}
    (hothers : M.exec s others = some t) (hexec : M.exec s actions = some u)
    (hstuck : M.Stuck (fun _ _ => True) u) :
    ∃ rest, M.exec t rest = some u ∧ (others ++ rest).Perm actions := by
  induction others generalizing s actions with
  | nil =>
    cases hothers
    exact ⟨actions, hexec, .refl _⟩
  | cons a others ih =>
    obtain ⟨s', events, ha, hrest⟩ := exec_cons.mp hothers
    obtain ⟨actions', hexec', hperm⟩ := hM.front hs ha hexec hstuck
    obtain ⟨rest, hend, hperm'⟩ := ih (hs.next ha) hrest hexec'
    exact ⟨rest, hend, (hperm'.cons a).trans hperm⟩

/-- Two runs that cannot go on end in the same state and are permutations of each other. -/
theorem unique (hM : M.Commutes) {others : List α} (hexec : M.exec M.start actions = some t)
    (hothers : M.exec M.start others = some u) (hstuck : M.Stuck (fun _ _ => True) t)
    (hstuck' : M.Stuck (fun _ _ => True) u) : t = u ∧ actions.Perm others := by
  obtain ⟨rest, hend, hperm⟩ := hM.complete .start hexec hothers hstuck'
  cases rest with
  | nil =>
    cases hend
    rw [List.append_nil] at hperm
    exact ⟨rfl, hperm⟩
  | cons a rest =>
    obtain ⟨v, events, ha, -⟩ := exec_cons.mp hend
    rw [hstuck a trivial] at ha
    cases ha

/-- There is only one reachable state that cannot go on. -/
theorem eq_of_stuck (hM : M.Commutes) (ht : M.Reachable t) (hu : M.Reachable u)
    (hstuck : M.Stuck (fun _ _ => True) t) (hstuck' : M.Stuck (fun _ _ => True) u) : t = u := by
  obtain ⟨actions, hexec⟩ := ht.exists_exec
  obtain ⟨others, hothers⟩ := hu.exists_exec
  exact (hM.unique hexec hothers hstuck hstuck').1

end Commutes

end Machine

namespace Network

variable {κ β : Type} [DecidableEq κ]

/-- Hand over a frame, if there is one. -/
def receive (n : Network κ β) : Option (κ × β) → Network κ β
  | none => n
  | some (c, b) => n.deliver c b

@[simp] theorem sent_receive (n : Network κ β) (x : Option (κ × β)) :
    (n.receive x).sent = n.sent := by
  cases x <;> rfl

/-- Other links get nothing. -/
theorem delivered_receive_of_ne (n : Network κ β) {x : Option (κ × β)} {c : κ}
    (h : ∀ e ∈ x, e.1 ≠ c) : (n.receive x).delivered c = n.delivered c := by
  cases x with
  | none => rfl
  | some e => exact delivered_deliver_of_ne n (h e rfl).symm e.2

/-- What a link has got depends on what it had got before. -/
theorem delivered_receive_congr {n n' : Network κ β} {c : κ} {x : Option (κ × β)}
    (h : n.delivered c = n'.delivered c) :
    (n.receive x).delivered c = (n'.receive x).delivered c := by
  cases x with
  | none => exact h
  | some e =>
    by_cases hc : c = e.1
    · subst hc
      simp [receive, h]
    · simp [receive, hc, h]

end Network

/-- A step receives something unless a thread takes a turn by itself. -/
def Move.receives {θ κ : Type} : Move θ κ → Bool
  | .act _ => false
  | .deliver _ | .eof _ => true

namespace Threads

variable {θ κ ω ι ε : Type} {P : Threads θ κ ω ι ε} {F : Framing ω ι} {s s' : P.State}
  {m m' : Move θ κ} {events : List ε}

/-- No thread can choose what to do next. -/
structure Sequential (P : Threads θ κ ω ι ε) : Prop where
  /-- A thread reads one link at most. -/
  reader_injective : Function.Injective P.reader
  /-- A thread that waits takes no turn of its own. -/
  act_eq_none : ∀ t l, P.waiting t l = true → P.act t l = none
  /-- A thread that has returned does nothing. -/
  returned : ∀ t l, P.returned t l = true → P.act t l = none ∧ P.waiting t l = false

/-- The thread that a step is one of. -/
def thread (P : Threads θ κ ω ι ε) : Move θ κ → θ
  | .act t => t
  | .deliver k | .eof k => P.reader k

/-- What a step receives, and the frame that it takes off a link. -/
def take (F : Framing ω ι) (s : P.State) : Move θ κ → Option (Option ι × Option (κ × List ω))
  | .act _ => some (none, none)
  | .deliver k => (s.net.sent k)[(s.net.delivered k).length]?.map fun b =>
      (some (F.received b), some (k, b))
  | .eof k => if s.net.inFlight k = [] ∧ P.Over s.locals k then some (some F.failed, none) else none

/-- The turn of a thread on what it has received, if anything. -/
def run (P : Threads θ κ ω ι ε) (t : θ) (l : P.Local t) : Option ι → Option (Turn (P.Local t) κ ω ε)
  | none => P.act t l
  | some i => P.handle t l i

/-- A turn writes to links of its thread. -/
theorem writer_of_run {t : θ} {l : P.Local t} {i : Option ι} {r : Turn (P.Local t) κ ω ε}
    (hrun : P.run t l i = some r) : ∀ w ∈ r.written, P.writer w.1 = t := by
  cases i with
  | none => exact P.writer_of_act t l r hrun
  | some i => exact P.writer_of_handle t l i r hrun

/-- A thread that has returned takes no turn. -/
theorem Sequential.run_eq_none (hP : P.Sequential) {t : θ} {l : P.Local t}
    (hreturned : P.returned t l = true) (i : Option ι) : P.run t l i = none := by
  obtain ⟨hact, hwait⟩ := hP.returned t l hreturned
  cases i with
  | none => exact hact
  | some i =>
    rw [run, ← Option.not_isSome_iff_eq_none, P.isSome_handle, hwait]
    exact Bool.false_ne_true

/-- A thread has received something exactly if it has waited. -/
theorem Sequential.isSome_of_run (hP : P.Sequential) {t : θ} {l : P.Local t} {i : Option ι}
    {r : Turn (P.Local t) κ ω ε} (hrun : P.run t l i = some r) : i.isSome = P.waiting t l := by
  cases i with
  | none =>
    rw [Option.isSome_none, eq_comm, Bool.eq_false_iff]
    intro hwait
    rw [run, hP.act_eq_none t l hwait] at hrun
    cases hrun
  | some i =>
    rw [← P.isSome_handle t l i, show P.handle t l i = some r from hrun, Option.isSome_some,
      Option.isSome_some]

/-- The frame that a step takes is on a link of its thread. -/
theorem reader_of_take {x : Option ι × Option (κ × List ω)} (htake : take F s m = some x) :
    ∀ e ∈ x.2, P.reader e.1 = P.thread m := by
  intro e he
  cases m with
  | act t =>
    obtain rfl := Option.some.inj htake
    cases he
  | deliver k =>
    obtain ⟨b, -, rfl⟩ := Option.map_eq_some_iff.mp htake
    obtain rfl := Option.some.inj he
    rfl
  | eof k =>
    rw [take] at htake
    split at htake
    · obtain rfl := Option.some.inj htake
      cases he
    · cases htake

/-- A step that takes nothing is a turn without a receive. -/
theorem isSome_of_take {x : Option ι × Option (κ × List ω)} (htake : take F s m = some x) :
    x.1.isSome = m.receives := by
  cases m with
  | act t =>
    obtain rfl := Option.some.inj htake
    rfl
  | deliver k =>
    obtain ⟨b, -, rfl⟩ := Option.map_eq_some_iff.mp htake
    rfl
  | eof k =>
    rw [take] at htake
    split at htake
    · obtain rfl := Option.some.inj htake
      rfl
    · cases htake

/-- A link with a frame in flight has not come to its end. -/
theorem take_eof_of_deliver {k : κ} {x : Option ι × Option (κ × List ω)}
    (htake : take F s (.deliver k) = some x) : take F s (.eof k) = none := by
  obtain ⟨b, hb, -⟩ := Option.map_eq_some_iff.mp htake
  refine if_neg fun h => ?_
  rw [Network.inFlight, List.drop_eq_nil_iff] at h
  have hlt := (List.getElem?_eq_some_iff.mp hb).1
  omega

/-- Different steps that are both possible are steps of different threads. -/
theorem Sequential.thread_ne (hP : P.Sequential) {x x' : Option ι × Option (κ × List ω)}
    {r : Turn (P.Local (P.thread m)) κ ω ε} {r' : Turn (P.Local (P.thread m')) κ ω ε}
    (hne : m ≠ m') (htake : take F s m = some x)
    (hrun : P.run (P.thread m) (s.locals (P.thread m)) x.1 = some r)
    (htake' : take F s m' = some x')
    (hrun' : P.run (P.thread m') (s.locals (P.thread m')) x'.1 = some r') :
    P.thread m ≠ P.thread m' := by
  intro heq
  have hwait : P.waiting (P.thread m) (s.locals (P.thread m)) =
      P.waiting (P.thread m') (s.locals (P.thread m')) := by rw [heq]
  rw [← hP.isSome_of_run hrun, ← hP.isSome_of_run hrun', isSome_of_take htake,
    isSome_of_take htake'] at hwait
  cases m with
  | act t =>
    cases m' with
    | act t' => exact hne (congrArg Move.act heq)
    | deliver k | eof k => cases hwait
  | deliver k =>
    cases m' with
    | act t => cases hwait
    | deliver k' => exact hne (congrArg Move.deliver (hP.reader_injective heq))
    | eof k' =>
      obtain rfl := hP.reader_injective heq
      rw [take_eof_of_deliver htake] at htake'
      cases htake'
  | eof k =>
    cases m' with
    | act t => cases hwait
    | deliver k' =>
      obtain rfl := hP.reader_injective heq
      rw [take_eof_of_deliver htake'] at htake
      cases htake
    | eof k' => exact hne (congrArg Move.eof (hP.reader_injective heq))

variable [DecidableEq θ] [DecidableEq κ]

/-- After a step of a thread that has taken a frame, if any. -/
def State.after (s : P.State) (t : θ) (x : Option (κ × List ω)) (r : Turn (P.Local t) κ ω ε) :
    P.State :=
  ⟨Function.update s.locals t r.state, (s.net.receive x).writeAll r.written⟩

theorem locals_after_of_ne (s : P.State) {t t' : θ} (h : t' ≠ t) (x : Option (κ × List ω))
    (r : Turn (P.Local t) κ ω ε) : (s.after t x r).locals t' = s.locals t' :=
  Function.update_of_ne h _ _

/-- Every step is a receive and a turn. -/
theorem step_eq_some_iff : P.step F s m = some (s', events) ↔
    ∃ x r, take F s m = some x ∧ P.run (P.thread m) (s.locals (P.thread m)) x.1 = some r ∧
      s' = s.after (P.thread m) x.2 r ∧ events = r.events := by
  have hstep : P.step F s m = (take F s m).bind fun x =>
      (P.run (P.thread m) (s.locals (P.thread m)) x.1).map fun r =>
        (s.after (P.thread m) x.2 r, r.events) := by
    cases m with
    | act t => rfl
    | deliver k =>
      rw [step, take]
      cases (s.net.sent k)[(s.net.delivered k).length]? <;> rfl
    | eof k =>
      rw [step, take]
      split <;> rfl
  rw [hstep, Option.bind_eq_some_iff]
  constructor
  · rintro ⟨x, hx, hrun⟩
    obtain ⟨r, hr, heq⟩ := Option.map_eq_some_iff.mp hrun
    obtain ⟨rfl, rfl⟩ := Prod.mk.inj heq
    exact ⟨x, r, hx, hr, rfl, rfl⟩
  · rintro ⟨x, r, hx, hr, rfl, rfl⟩
    exact ⟨x, hx, by rw [hr, Option.map_some]⟩

section Commute

variable {x x' : Option ι × Option (κ × List ω)}
  {r : Turn (P.Local (P.thread m)) κ ω ε} {r' : Turn (P.Local (P.thread m')) κ ω ε}

/-- A step of one thread leaves another one what it can receive. -/
theorem take_after (hP : P.Sequential) (hne : P.thread m ≠ P.thread m')
    (htake : take F s m = some x) (hrun : P.run (P.thread m) (s.locals (P.thread m)) x.1 = some r)
    (htake' : take F s m' = some x') : take F (s.after (P.thread m) x.2 r) m' = some x' := by
  have hdelivered {k : κ} (hk : P.reader k ≠ P.thread m) :
      (s.after (P.thread m) x.2 r).net.delivered k = s.net.delivered k :=
    Network.delivered_receive_of_ne _ fun e he heq => hk (heq ▸ reader_of_take htake e he)
  cases m' with
  | act t => exact htake'
  | deliver k =>
    obtain ⟨b, hb, rfl⟩ := Option.map_eq_some_iff.mp htake'
    have hsent : (s.after (P.thread m) x.2 r).net.sent k =
        s.net.sent k ++ Network.framesTo k r.written := by
      simp [State.after]
    rw [take, hdelivered hne.symm, hsent, List.getElem?_append_left
      (List.getElem?_eq_some_iff.mp hb).1, hb]
    rfl
  | eof k =>
    rw [take] at htake' ⊢
    split at htake'
    · rename_i hover
      obtain ⟨hflight, hover⟩ := hover
      obtain rfl := Option.some.inj htake'
      have hother (t : θ) (ht : t ∈ P.process (P.writer k)) : t ≠ P.thread m := by
        rintro rfl
        rw [hP.run_eq_none (hover _ ht)] at hrun
        cases hrun
      have hnone : Network.framesTo k r.written = [] :=
        Network.framesTo_eq_nil fun w hw heq =>
          hother _ (P.mem_process _) (heq ▸ writer_of_run hrun w hw)
      have hflight' : (s.after (P.thread m) x.2 r).net.inFlight k = [] := by
        rw [Network.inFlight, hdelivered hne.symm, State.after, Network.sent_writeAll,
          Network.sent_receive, hnone, List.append_nil]
        exact hflight
      rw [if_pos]
      refine ⟨hflight', fun t ht => ?_⟩
      rw [locals_after_of_ne _ (hother t ht)]
      exact hover t ht
    · cases htake'

/-- Steps of two threads come out the same in either order. -/
theorem after_comm (hne : P.thread m ≠ P.thread m') (htake : take F s m = some x)
    (hrun : P.run (P.thread m) (s.locals (P.thread m)) x.1 = some r)
    (htake' : take F s m' = some x')
    (hrun' : P.run (P.thread m') (s.locals (P.thread m')) x'.1 = some r') :
    (s.after (P.thread m) x.2 r).after (P.thread m') x'.2 r' =
      (s.after (P.thread m') x'.2 r').after (P.thread m) x.2 r := by
  apply State.ext
  · exact Function.update_comm hne _ _ _
  · ext k : 2
    · -- only one of the two threads writes to the link
      have hnone : Network.framesTo k r.written = [] ∨ Network.framesTo k r'.written = [] := by
        by_cases hk : P.writer k = P.thread m
        · right
          exact Network.framesTo_eq_nil fun w hw heq =>
            hne (hk.symm.trans (heq ▸ writer_of_run hrun' w hw))
        · left
          exact Network.framesTo_eq_nil fun w hw heq => hk (heq ▸ writer_of_run hrun w hw)
      rcases hnone with hnone | hnone <;> simp [State.after, hnone]
    · -- nor do both take a frame off it
      by_cases hk : P.reader k = P.thread m
      · have hother : ∀ e ∈ x'.2, e.1 ≠ k := fun e he heq =>
          hne (hk.symm.trans (heq ▸ reader_of_take htake' e he))
        exact (Network.delivered_receive_of_ne _ hother).trans
          (Network.delivered_receive_congr (Network.delivered_receive_of_ne _ hother).symm)
      · have hother : ∀ e ∈ x.2, e.1 ≠ k := fun e he heq => hk (heq ▸ reader_of_take htake e he)
        have hfirst : (s.after (P.thread m) x.2 r).net.delivered k = s.net.delivered k :=
          Network.delivered_receive_of_ne _ hother
        exact (Network.delivered_receive_congr hfirst).trans
          (Network.delivered_receive_of_ne (s.after (P.thread m') x'.2 r').net hother).symm

end Commute

/-- Sequential threads have one outcome, whatever the interleaving. -/
theorem Sequential.commutes (hP : P.Sequential) : (P.linked F).Commutes := by
  intro s m m' t u events events' hs hne hstep hstep'
  obtain ⟨x, r, htake, hrun, rfl, rfl⟩ := step_eq_some_iff.mp hstep
  obtain ⟨x', r', htake', hrun', rfl, rfl⟩ := step_eq_some_iff.mp hstep'
  have hthread := hP.thread_ne hne htake hrun htake' hrun'
  refine ⟨_, step_eq_some_iff.mpr ⟨x', r', take_after hP hthread htake hrun htake', ?_, rfl, rfl⟩,
    step_eq_some_iff.mpr ⟨x, r, take_after hP hthread.symm htake' hrun' htake, ?_,
      after_comm hthread htake hrun htake' hrun', rfl⟩⟩
  · rw [locals_after_of_ne _ hthread.symm]
    exact hrun'
  · rw [locals_after_of_ne _ hthread]
    exact hrun

/-- The end that all runs of a program come to, on links that hand over whole frames and on
streams. -/
structure OneOutcome (P : Threads θ κ ω ι ε) (F : Framing ω ι) (moves : List (Move θ κ))
    (s : P.State) : Prop where
  /-- It is the end of a run. -/
  exec : (P.linked F).exec (P.linked F).start moves = some s
  /-- Nothing can go on there. -/
  stuck : (P.linked F).Stuck (fun _ _ => True) s
  /-- Every run can be completed to a permutation of that run. -/
  perm : ∀ others s', (P.linked F).exec (P.linked F).start others = some s' →
    ∃ rest, (P.linked F).exec s' rest = some s ∧ (others ++ rest).Perm moves
  /-- Streams that cannot go on carry that end. -/
  streams : ∀ capacity : κ → ℕ, (∀ k, 0 < capacity k) → ∀ w,
    (P.overStreams F capacity).Reachable w →
      (P.overStreams F capacity).Stuck (fun _ call => call.Productive) w → Carries w s

/-- Sequential threads whose streams flow have one outcome, if they stop. -/
theorem Sequential.oneOutcome (hP : P.Sequential) {rank : κ → ℕ} (hflows : P.Flows F rank)
    (hframed : P.AllFramed F) (hhalts : (P.linked F).Halts fun _ _ => True) :
    ∃ moves s, P.OneOutcome F moves s := by
  obtain ⟨s, hs, hstuck⟩ := hhalts.exists_stuck
  obtain ⟨moves, hexec⟩ := hs.exists_exec
  refine ⟨moves, s, hexec, hstuck, fun others s' hothers => ?_,
    fun capacity hcapacity w hw hw' => ?_⟩
  · exact hP.commutes.complete .start hothers hexec hstuck
  · obtain ⟨s', hs', hcarries⟩ := (overStreams_refines hframed).reachable hw
    obtain ⟨hnone, -⟩ := hcarries.stuck hcapacity hw' hflows hframed hs'
    rw [hP.commutes.eq_of_stuck hs hs' hstuck hnone]
    exact hcarries

end Threads

end TeeReplication
