import TeeReplication.Foundations.Framing
import TeeReplication.Foundations.Machine
import TeeReplication.Foundations.Network

/-!
# Threads joined by links

A program of several threads in which every link is written by one thread and read
by one. A thread has local variables only. It either takes a turn by itself or
waits for what its link brings; in both cases it then writes frames to links of its
own. The links are lossless and in order. A link ends when everything written to it
has been read and the process that wrote it is over.
-/

namespace TeeReplication

variable {θ κ ω ι ε : Type}

/-- What a thread does between two receives. -/
structure Turn (τ κ ω ε : Type) where
  /-- The local variables after it. -/
  state : τ
  /-- The frames written, each with its link, in order. -/
  written : List (κ × List ω)
  /-- The events. -/
  events : List ε

/-- Threads that exchange frames over one-way links. A receive gives a thread an `ι`. -/
structure Threads (θ κ ω ι ε : Type) where
  /-- The local variables of a thread. -/
  Local : θ → Type
  /-- The local variables before the first turn. -/
  start : (t : θ) → Local t
  /-- A turn without a receive. -/
  act : (t : θ) → Local t → Option (Turn (Local t) κ ω ε)
  /-- The thread waits for its link. -/
  waiting : (t : θ) → Local t → Bool
  /-- The turn after a receive. -/
  handle : (t : θ) → Local t → ι → Option (Turn (Local t) κ ω ε)
  /-- The thread has returned. -/
  returned : (t : θ) → Local t → Bool
  /-- The threads of the same process. -/
  process : θ → List θ
  /-- The thread that writes a link. -/
  writer : κ → θ
  /-- The thread that reads a link. -/
  reader : κ → θ
  /-- A thread handles what it receives exactly if it waits. -/
  isSome_handle : ∀ t l i, (handle t l i).isSome = waiting t l
  /-- A thread that takes a turn by itself writes to its own links. -/
  writer_of_act : ∀ t l r, act t l = some r → ∀ w ∈ r.written, writer w.1 = t
  /-- So does a thread that handles what it has received. -/
  writer_of_handle : ∀ t l i r, handle t l i = some r → ∀ w ∈ r.written, writer w.1 = t
  /-- A thread is one of its process. -/
  mem_process : ∀ t, t ∈ process t

/-- A step of a program whose links hand over whole frames. -/
inductive Move (θ κ : Type)
  /-- A thread takes a turn by itself. -/
  | act (t : θ)
  /-- The first frame in flight on a link is received and handled. -/
  | deliver (k : κ)
  /-- The end of a link is received and handled. -/
  | eof (k : κ)
  deriving DecidableEq

namespace Threads

variable (P : Threads θ κ ω ι ε)

/-- A program whose links hand over whole frames. -/
@[ext] structure State where
  /-- The local variables. -/
  locals : (t : θ) → P.Local t
  /-- What has been written and received. -/
  net : Network κ (List ω)

variable {P} [DecidableEq θ] [DecidableEq κ]

/-- After a turn of a thread. -/
def State.turn (s : P.State) (t : θ) (r : Turn (P.Local t) κ ω ε) : P.State :=
  ⟨Function.update s.locals t r.state, s.net.writeAll r.written⟩

@[simp] theorem State.locals_turn_self (s : P.State) (t : θ) (r : Turn (P.Local t) κ ω ε) :
    (s.turn t r).locals t = r.state := Function.update_self _ _ _

@[simp] theorem State.locals_turn_of_ne (s : P.State) {t t' : θ} (h : t' ≠ t)
    (r : Turn (P.Local t) κ ω ε) : (s.turn t r).locals t' = s.locals t' :=
  Function.update_of_ne h _ _

variable (P)

/-- The process that writes a link is over. -/
def Over (locals : (t : θ) → P.Local t) (k : κ) : Prop :=
  ∀ t ∈ P.process (P.writer k), P.returned t (locals t) = true

instance (locals : (t : θ) → P.Local t) (k : κ) : Decidable (P.Over locals k) :=
  inferInstanceAs (Decidable (∀ t ∈ _, _ = _))

/-- One step on links that hand over whole frames. -/
def step (F : Framing ω ι) (s : P.State) : Move θ κ → Option (P.State × List ε)
  | .act t => (P.act t (s.locals t)).map fun r => (s.turn t r, r.events)
  | .deliver k => (s.net.sent k)[(s.net.delivered k).length]?.bind fun b =>
      (P.handle (P.reader k) (s.locals (P.reader k)) (F.received b)).map fun r =>
        (State.turn ⟨s.locals, s.net.deliver k b⟩ (P.reader k) r, r.events)
  | .eof k =>
    if s.net.inFlight k = [] ∧ P.Over s.locals k then
      (P.handle (P.reader k) (s.locals (P.reader k)) F.failed).map fun r =>
        (s.turn (P.reader k) r, r.events)
    else none

/-- The program on links that hand over whole frames. -/
def linked (F : Framing ω ι) : Machine P.State (Move θ κ) ε :=
  ⟨⟨P.start, .empty⟩, P.step F⟩

variable {P} {F : Framing ω ι} {s s' : P.State} {events : List ε}

/-- A waiting thread with a frame in flight on its link can take a step. -/
theorem step_deliver_ne_none {k : κ} (hflight : s.net.inFlight k ≠ [])
    (hwait : P.waiting (P.reader k) (s.locals (P.reader k)) = true) :
    P.step F s (.deliver k) ≠ none := by
  cases hnext : s.net.inFlight k with
  | nil => exact absurd hnext hflight
  | cons b rest =>
    rw [step, (Network.inFlight_eq_cons_iff.mp hnext).1, Option.bind_some, Ne,
      Option.map_eq_none_iff, ← Ne, ← Option.isSome_iff_ne_none, P.isSome_handle]
    exact hwait

/-- A waiting thread whose link has ended can take a step. -/
theorem step_eof_ne_none {k : κ} (hflight : s.net.inFlight k = []) (hover : P.Over s.locals k)
    (hwait : P.waiting (P.reader k) (s.locals (P.reader k)) = true) :
    P.step F s (.eof k) ≠ none := by
  rw [step, if_pos ⟨hflight, hover⟩, Ne, Option.map_eq_none_iff, ← Ne,
    ← Option.isSome_iff_ne_none, P.isSome_handle]
  exact hwait

/-- All links of a reachable program are in order. -/
theorem inOrder_of_reachable (h : (P.linked F).Reachable s) (k : κ) : s.net.InOrder k := by
  refine h.invariant (P := fun s => ∀ k, s.net.InOrder k) ?_ ?_ k
  · intro k
    exact List.nil_prefix
  · intro s m t events hs hstep k
    cases m with
    | act t =>
      obtain ⟨r, -, heq⟩ := Option.map_eq_some_iff.mp hstep
      obtain ⟨rfl, -⟩ := Prod.mk.inj heq
      exact (hs k).writeAll _
    | deliver k' =>
      obtain ⟨b, hnext, hhandle⟩ := Option.bind_eq_some_iff.mp hstep
      obtain ⟨r, -, heq⟩ := Option.map_eq_some_iff.mp hhandle
      obtain ⟨rfl, -⟩ := Prod.mk.inj heq
      exact ((hs k).deliver hnext).writeAll _
    | eof k' =>
      change (if _ then _ else _) = _ at hstep
      split at hstep
      · obtain ⟨r, -, heq⟩ := Option.map_eq_some_iff.mp hstep
        obtain ⟨rfl, -⟩ := Prod.mk.inj heq
        exact (hs k).writeAll _
      · cases hstep

end Threads

end TeeReplication
