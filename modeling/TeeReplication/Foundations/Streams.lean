import TeeReplication.Foundations.Framing
import TeeReplication.Foundations.Simulation
import TeeReplication.Foundations.Threads

/-!
# Threads joined by byte streams

The same threads on links that are streams with a bounded buffer. A turn leaves its
frames in the outbox of the thread, from where calls of `send` move any part into the
buffer of the link as long as there is room; the thread goes on once the outbox is
empty. Calls of `recv` take any part of what the receiver asks for, may give a negative
result at any time, and give the result zero at the end of the stream. Whatever these
calls do, the program behaves as on links that hand over whole frames.
-/

namespace TeeReplication

variable {θ κ ω ι ε : Type}

/-- A step of a program whose links are streams. -/
inductive Call (θ κ : Type)
  /-- A thread takes a turn by itself. -/
  | act (t : θ)
  /-- A `send` of a thread accepts `n` symbols. -/
  | accept (t : θ) (n : ℕ)
  /-- A `recv` on a link gives a negative result. -/
  | negative (k : κ)
  /-- A `recv` on a link gives `n` symbols. -/
  | bytes (k : κ) (n : ℕ)
  /-- A `recv` on a link gives the result zero. -/
  | zero (k : κ)
  deriving DecidableEq

/-- The call is not a `recv` with a negative result. -/
def Call.Productive : Call θ κ → Prop
  | .negative _ => False
  | _ => True

namespace Threads

variable (P : Threads θ κ ω ι ε) (F : Framing ω ι)

/-- A program whose links are streams. -/
structure Wired where
  /-- The local variables. -/
  locals : (t : θ) → P.Local t
  /-- What a thread has yet to send, frame by frame, each with its link. -/
  outbox : θ → List (κ × List ω)
  /-- The buffer of a link. -/
  unread : κ → List ω
  /-- How far the receive on a link has come. -/
  receive : κ → F.State

/-- The first turn has yet to be taken. -/
def Wired.start : P.Wired F := ⟨P.start, fun _ => [], fun _ => [], fun _ => F.start⟩

variable {P F} [DecidableEq θ]

namespace Wired

/-- After a turn of a thread. -/
def turn (w : P.Wired F) (t : θ) (r : Turn (P.Local t) κ ω ε) : P.Wired F :=
  { w with
    locals := Function.update w.locals t r.state
    outbox := Function.update w.outbox t (r.written.filter fun e => !e.2.isEmpty) }

@[simp] theorem outbox_turn_self (w : P.Wired F) (t : θ) (r : Turn (P.Local t) κ ω ε) :
    (w.turn t r).outbox t = r.written.filter fun e => !e.2.isEmpty := Function.update_self _ _ _

@[simp] theorem outbox_turn_of_ne (w : P.Wired F) {t t' : θ} (h : t' ≠ t)
    (r : Turn (P.Local t) κ ω ε) : (w.turn t r).outbox t' = w.outbox t' :=
  Function.update_of_ne h _ _

/-- The reader of a link has sent everything and waits for what comes. -/
def Receiving (w : P.Wired F) (k : κ) : Prop :=
  w.outbox (P.reader k) = [] ∧ P.waiting (P.reader k) (w.locals (P.reader k)) = true

instance (w : P.Wired F) (k : κ) : Decidable (w.Receiving k) :=
  inferInstanceAs (Decidable (_ ∧ _))

/-- Nothing more comes from the process that writes a link. -/
def Over (w : P.Wired F) (k : κ) : Prop :=
  P.Over w.locals k ∧ ∀ t ∈ P.process (P.writer k), w.outbox t = []

instance (w : P.Wired F) (k : κ) : Decidable (w.Over k) :=
  inferInstanceAs (Decidable (_ ∧ _))

variable [DecidableEq κ]

/-- A receive goes on, or the thread handles what it has given. -/
def resume (w : P.Wired F) (k : κ) : F.State ⊕ ι → Option (P.Wired F × List ε)
  | .inl st => some ({ w with receive := Function.update w.receive k st }, [])
  | .inr i => (P.handle (P.reader k) (w.locals (P.reader k)) i).map fun r =>
      (turn { w with receive := Function.update w.receive k F.start } (P.reader k) r, r.events)

/-- What is left of a frame after `n` of its symbols, in front of the rest of an outbox. -/
def remaining (k : κ) (data : List ω) (rest : List (κ × List ω)) (n : ℕ) : List (κ × List ω) :=
  if n = data.length then rest else (k, data.drop n) :: rest

/-- One step, when a link has room for `capacity` symbols. -/
def step (capacity : κ → ℕ) (w : P.Wired F) : Call θ κ → Option (P.Wired F × List ε)
  | .act t =>
    if w.outbox t = [] then
      (P.act t (w.locals t)).map fun r => (w.turn t r, r.events)
    else none
  | .accept t n =>
    match w.outbox t with
    | [] => none
    | (k, data) :: rest =>
      if 0 < n ∧ n ≤ data.length ∧ (w.unread k).length + n ≤ capacity k then
        some ({ w with
          outbox := Function.update w.outbox t (remaining k data rest n)
          unread := Function.update w.unread k (w.unread k ++ data.take n) }, [])
      else none
  | .negative k => if w.Receiving k then some (w, []) else none
  | .bytes k n =>
    if w.Receiving k ∧ 0 < n ∧ n ≤ F.need (w.receive k) ∧ n ≤ (w.unread k).length then
      resume { w with unread := Function.update w.unread k ((w.unread k).drop n) } k
        (F.push (w.receive k) ((w.unread k).take n))
    else none
  | .zero k =>
    if w.Receiving k ∧ w.unread k = [] ∧ w.Over k then w.resume k (F.zero (w.receive k))
    else none

end Wired

variable [DecidableEq κ]

/-- The program on links that are streams. -/
def overStreams (P : Threads θ κ ω ι ε) (F : Framing ω ι) (capacity : κ → ℕ) :
    Machine (P.Wired F) (Call θ κ) ε :=
  ⟨Wired.start P F, Wired.step capacity⟩

namespace Wired

/-- What the writer of a link has yet to send to it. -/
def outgoing (w : P.Wired F) (k : κ) : List ω :=
  (Network.framesTo k (w.outbox (P.writer k))).flatten

end Wired

/-- The steps that no thread takes part in. -/
inductive Wired.Silent (w : P.Wired F) : P.Wired F → Prop
  /-- A `send` accepts symbols. -/
  | accept {t : θ} {k : κ} {data : List ω} {rest : List (κ × List ω)} {n : ℕ} :
      w.outbox t = (k, data) :: rest → 0 < n → n ≤ data.length → Silent w { w with
        outbox := Function.update w.outbox t (remaining k data rest n)
        unread := Function.update w.unread k (w.unread k ++ data.take n) }
  /-- A `recv` gives symbols. -/
  | bytes {k : κ} {n : ℕ} {st : F.State} : 0 < n → n ≤ (w.unread k).length → Silent w { w with
      unread := Function.update w.unread k ((w.unread k).drop n)
      receive := Function.update w.receive k st }
  /-- A `recv` gives the result zero and uses up patience. -/
  | zero {k : κ} {st : F.State} : F.patience st < F.patience (w.receive k) →
      Silent w { w with receive := Function.update w.receive k st }

/-- The streams carry the frames in flight. -/
structure Carries (w : P.Wired F) (s : P.State) : Prop where
  /-- The local variables are the same. -/
  locals : w.locals = s.locals
  /-- Threads have something to send on their own links only. -/
  outbox : ∀ t, ∀ e ∈ w.outbox t, P.writer e.1 = t ∧ e.2 ≠ []
  /-- Every stream is that of the frames in flight. -/
  streams : ∀ k, F.Streams (w.receive k) (w.unread k ++ w.outgoing k) (s.net.inFlight k)

/-- What is left to send on a link when `n` symbols of the frame in front have been accepted. -/
theorem Wired.flatten_framesTo_remaining {k k' : κ} {data : List ω} {rest : List (κ × List ω)}
    {n : ℕ} : (Network.framesTo k' (remaining k data rest n)).flatten =
      (if k = k' then data.drop n else []) ++ (Network.framesTo k' rest).flatten := by
  unfold remaining
  split
  · rename_i hall
    rw [hall, List.drop_length, ite_self, List.nil_append]
  · rw [Network.framesTo_cons]
    split <;> simp

/-- Every frame that is ever written can be received. -/
def AllFramed (P : Threads θ κ ω ι ε) (F : Framing ω ι) : Prop :=
  ∀ s, (P.linked F).Reachable s → ∀ k, ∀ b ∈ s.net.sent k, F.Framed b

variable {capacity : κ → ℕ} {w w' : P.Wired F} {s s' : P.State} {t : θ} {k : κ}
  {events : List ε}

/-- Frames in flight have been written. -/
theorem AllFramed.inFlight (hframed : P.AllFramed F) (hs : (P.linked F).Reachable s) (k : κ) :
    ∀ b ∈ s.net.inFlight k, F.Framed b :=
  fun b hb => hframed s hs k b (List.mem_of_mem_drop hb)

/-- Before the first turn. -/
theorem carries_start : Carries (Wired.start P F) ((P.linked F).start) where
  locals := rfl
  outbox _ _ he := absurd he List.not_mem_nil
  streams _ := F.streams_start

omit [DecidableEq θ] in
/-- A thread with nothing to send has nothing to send on any link. -/
theorem Wired.outgoing_eq_nil (hempty : w.outbox (P.writer k) = []) : w.outgoing k = [] := by
  rw [outgoing, hempty]
  rfl

namespace Carries

/-- A turn of a thread with an empty outbox on both sides. -/
theorem turn (h : Carries w s) {r : Turn (P.Local t) κ ω ε} (hempty : w.outbox t = [])
    (hwriter : ∀ e ∈ r.written, P.writer e.1 = t) (hinOrder : ∀ k, s.net.InOrder k)
    (hframed : ∀ e ∈ r.written, F.Framed e.2) : Carries (w.turn t r) (s.turn t r) where
  locals := congrArg (Function.update · t r.state) h.locals
  outbox t' e he := by
    by_cases ht : t' = t
    · subst ht
      rw [Wired.outbox_turn_self] at he
      obtain ⟨hmem, hne⟩ := List.mem_filter.mp he
      exact ⟨hwriter e hmem, by simpa using hne⟩
    · rw [Wired.outbox_turn_of_ne _ ht] at he
      exact h.outbox t' e he
  streams k := by
    rw [State.turn, (hinOrder k).inFlight_writeAll]
    have hall : (r.written.filter fun e => !e.2.isEmpty) = r.written := by
      apply List.filter_eq_self.mpr
      intro e he
      simpa using F.ne_nil_of_framed _ (hframed e he)
    have hout : (w.turn t r).outgoing k =
        w.outgoing k ++ (Network.framesTo k r.written).flatten := by
      by_cases ht : P.writer k = t
      · subst ht
        rw [Wired.outgoing, Wired.outbox_turn_self, hall, Wired.outgoing_eq_nil hempty,
          List.nil_append]
      · have hother : Network.framesTo k r.written = [] :=
          Network.framesTo_eq_nil fun e he hk => ht (hk ▸ hwriter e he)
        rw [Wired.outgoing, Wired.outbox_turn_of_ne _ ht, hother, List.flatten_nil,
          List.append_nil, Wired.outgoing]
    rw [hout, ← List.append_assoc]
    apply (h.streams k).append
    intro b hb
    obtain ⟨e, he, rfl⟩ := List.mem_map.mp hb
    exact hframed e (List.mem_of_mem_filter he)

omit [DecidableEq θ] in
/-- The receive on one link comes further. -/
theorem link (h : Carries w s) (hlocals : s'.locals = s.locals)
    (hother : ∀ k', k' ≠ k → s'.net.inFlight k' = s.net.inFlight k') {u : List ω} {st : F.State}
    (hk : F.Streams st (u ++ w.outgoing k) (s'.net.inFlight k)) :
    Carries { w with
      unread := Function.update w.unread k u
      receive := Function.update w.receive k st } s' where
  locals := h.locals.trans hlocals.symm
  outbox := h.outbox
  streams k' := by
    by_cases hk' : k' = k
    · subst hk'
      simpa [Wired.outgoing] using hk
    · simpa [Wired.outgoing, hk', hother k' hk'] using h.streams k'

/-- A `send` moves symbols from the outbox to the stream. -/
theorem accept (h : Carries w s) {data : List ω} {rest : List (κ × List ω)} {n : ℕ}
    (hbox : w.outbox t = (k, data) :: rest) (hn : n ≤ data.length) :
    Carries { w with
      outbox := Function.update w.outbox t (Wired.remaining k data rest n)
      unread := Function.update w.unread k (w.unread k ++ data.take n) } s where
  locals := h.locals
  outbox t' e he := by
    by_cases ht : t' = t
    · subst ht
      have hmem (e' : κ × List ω) (he' : e' ∈ rest) := h.outbox t' e' (hbox ▸ .tail _ he')
      have hhead := h.outbox t' (k, data) (hbox ▸ List.mem_cons_self)
      simp only [Function.update_self, Wired.remaining] at he
      split at he
      · exact hmem e he
      · rename_i hlt
        rcases List.mem_cons.mp he with rfl | he
        · refine ⟨hhead.1, fun hnil => hlt ?_⟩
          have hle := List.drop_eq_nil_iff.mp hnil
          omega
        · exact hmem e he
    · simp only [Function.update_of_ne ht] at he
      exact h.outbox t' e he
  streams k' := by
    have hwriter : P.writer k = t := (h.outbox t (k, data) (hbox ▸ List.mem_cons_self)).1
    have hstream := h.streams k'
    by_cases hk' : k' = k
    · subst hk'
      rw [Wired.outgoing, hwriter, hbox, Network.framesTo_cons, if_pos rfl, List.flatten_cons,
        ← List.take_append_drop n data, List.append_assoc, ← List.append_assoc] at hstream
      simpa [Wired.outgoing, hwriter, Wired.flatten_framesTo_remaining] using hstream
    · by_cases ht : P.writer k' = t
      · rw [Wired.outgoing, ht, hbox, Network.framesTo_cons, if_neg (Ne.symm hk')] at hstream
        simpa [Wired.outgoing, ht, hk', Ne.symm hk', Wired.flatten_framesTo_remaining]
          using hstream
      · simpa [Wired.outgoing, ht, hk'] using hstream

end Carries

/-- What a thread writes in a step of the program can be received. -/
theorem AllFramed.turn (hframed : P.AllFramed F) (hs : (P.linked F).Reachable s) {m : Move θ κ}
    {net : Network κ (List ω)} {r : Turn (P.Local t) κ ω ε}
    (hstep : P.step F s m = some (State.turn ⟨s.locals, net⟩ t r, events)) :
    ∀ e ∈ r.written, F.Framed e.2 :=
  fun e he => hframed _ (hs.next hstep) e.1 e.2
    (List.mem_append_right _ (Network.mem_framesTo_self he))

/-- A step on streams does not show on links that hand over whole frames, or it is one there with
the same events. -/
theorem Carries.step (hframed : P.AllFramed F) (hs : (P.linked F).Reachable s) (h : Carries w s)
    {call : Call θ κ} (hstep : w.step capacity call = some (w', events)) :
    events = [] ∧ Carries w' s ∧ (call.Productive → w.Silent w') ∨
      ∃ m s', P.step F s m = some (s', events) ∧ Carries w' s' := by
  have hinOrder := inOrder_of_reachable hs
  cases call with
  | act t =>
    change (if _ then _ else _) = _ at hstep
    split at hstep
    · rename_i hempty
      obtain ⟨r, hact, heq⟩ := Option.map_eq_some_iff.mp hstep
      obtain ⟨rfl, rfl⟩ := Prod.mk.inj heq
      rw [h.locals] at hact
      have hmove : P.step F s (.act t) = some (s.turn t r, r.events) := by
        rw [Threads.step, hact]
        rfl
      right
      exact ⟨_, _, hmove, h.turn hempty (P.writer_of_act t _ r hact) hinOrder
        (hframed.turn hs hmove)⟩
    · cases hstep
  | accept t n =>
    rw [Wired.step] at hstep
    split at hstep
    · cases hstep
    · rename_i k data rest hbox
      split at hstep
      · rename_i hroom
        obtain ⟨rfl, rfl⟩ := Prod.mk.inj (Option.some.inj hstep)
        left
        exact ⟨rfl, h.accept hbox hroom.2.1, fun _ => .accept hbox hroom.1 hroom.2.1⟩
      · cases hstep
  | negative k =>
    change (if _ then _ else _) = _ at hstep
    split at hstep
    · obtain ⟨rfl, rfl⟩ := Prod.mk.inj (Option.some.inj hstep)
      left
      exact ⟨rfl, h, False.elim⟩
    · cases hstep
  | bytes k n =>
    change (if _ then _ else _) = _ at hstep
    split at hstep
    · rename_i hcall
      obtain ⟨⟨hempty, -⟩, hpos, hneed, hle⟩ := hcall
      have hchunk : ((w.unread k).take n).length = n := List.length_take_of_le hle
      have hstream := h.streams k
      rw [← List.take_append_drop n (w.unread k), List.append_assoc] at hstream
      rcases hstream.push (hframed.inFlight hs k) (List.ne_nil_of_length_pos (by omega))
        (by omega) with ⟨st, hpush, hst⟩ | ⟨b, rest, hnext, hpush, hst⟩
      · rw [hpush] at hstep
        obtain ⟨rfl, rfl⟩ := Prod.mk.inj (Option.some.inj hstep)
        left
        exact ⟨rfl, h.link rfl (fun _ _ => rfl) hst, fun _ => .bytes hpos hle⟩
      · rw [hpush] at hstep
        obtain ⟨r, hhandle, heq⟩ := Option.map_eq_some_iff.mp hstep
        obtain ⟨rfl, rfl⟩ := Prod.mk.inj heq
        change P.handle _ (w.locals _) _ = _ at hhandle
        rw [h.locals] at hhandle
        have hmove : P.step F s (.deliver k) = some
            (State.turn ⟨s.locals, s.net.deliver k b⟩ (P.reader k) r, r.events) := by
          rw [Threads.step, (Network.inFlight_eq_cons_iff.mp hnext).1, Option.bind_some, hhandle]
          rfl
        have hdelivered := Network.inFlight_deliver hnext
        have hstate : State.locals ⟨s.locals, s.net.deliver k b⟩ = s.locals := rfl
        have hlink := h.link hstate (fun k' hk' => (hdelivered k').trans (if_neg hk'))
          (((hdelivered k).trans (if_pos rfl)).symm ▸ hst)
        right
        refine ⟨_, _, hmove, hlink.turn hempty (P.writer_of_handle _ _ _ r hhandle) ?_
          (hframed.turn hs hmove)⟩
        intro k'
        exact (hinOrder k').deliver (Network.inFlight_eq_cons_iff.mp hnext).1
    · cases hstep
  | zero k =>
    change (if _ then _ else _) = _ at hstep
    split at hstep
    · rename_i hcall
      obtain ⟨⟨hempty, -⟩, hunread, hover, hsent⟩ := hcall
      have hnone : w.unread k ++ w.outgoing k = [] := by
        rw [hunread, Wired.outgoing_eq_nil (hsent _ (P.mem_process _))]
        rfl
      have hstream := h.streams k
      have hflight := hstream.eq_nil_iff.mp hnone
      cases hzero : F.zero (w.receive k) with
      | inl st =>
        rw [hzero] at hstep
        obtain ⟨rfl, rfl⟩ := Prod.mk.inj (Option.some.inj hstep)
        have hlink := h.link rfl (fun _ _ => rfl) (hstream.zero hzero).1
        rw [Function.update_eq_self] at hlink
        left
        exact ⟨rfl, hlink, fun _ => .zero (hstream.zero hzero).2⟩
      | inr i =>
        rw [hzero] at hstep
        obtain ⟨r, hhandle, heq⟩ := Option.map_eq_some_iff.mp hstep
        obtain ⟨rfl, rfl⟩ := Prod.mk.inj heq
        rw [h.locals, F.zero_over _ i hzero] at hhandle
        rw [h.locals] at hover
        have hmove : P.step F s (.eof k) = some (s.turn (P.reader k) r, r.events) := by
          rw [Threads.step, if_pos ⟨hflight, hover⟩, hhandle]
          rfl
        have hstart : F.Streams F.start (w.unread k ++ w.outgoing k) (s.net.inFlight k) := by
          rw [hnone, hflight]
          exact F.streams_start
        have hlink := h.link rfl (fun _ _ => rfl) hstart
        rw [Function.update_eq_self] at hlink
        right
        exact ⟨_, _, hmove, hlink.turn hempty (P.writer_of_handle _ _ _ r hhandle) hinOrder
          (hframed.turn hs hmove)⟩
    · cases hstep

/-- On streams a program behaves as on links that hand over whole frames. -/
theorem overStreams_refines (hframed : P.AllFramed F) :
    (P.overStreams F capacity).Refines (P.linked F) some some Carries where
  start := carries_start
  step w s call w' events _ hs hcarries hstep := by
    rw [List.filterMap_some]
    rcases hcarries.step hframed hs hstep with ⟨hevents, hcarries', -⟩ | ⟨m, s', hmove, hcarries'⟩
    · exact Or.inl ⟨hevents, hcarries'⟩
    · exact Or.inr ⟨m, s', events, hmove, List.filterMap_some, hcarries'⟩

end Threads

end TeeReplication
