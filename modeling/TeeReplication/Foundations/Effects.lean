import Mathlib.Data.List.Induction

/-!
# Computations with a trace, and the loops that run them

A `Traced` computation emits a list of events and then either returns a value or
stops at a fault; the events emitted before a fault are kept. An `EventLoop` is a
`for (;;)` loop that tests a condition at its head, waits for one input and runs
its body on it. A `Process` is such a loop at its head, together with the fact
whether it still runs.
-/

namespace TeeReplication

variable {ε φ α β σ ι : Type}

/-- The events of a computation, in order, and its value or the fault that stopped it. -/
@[ext] structure Traced (ε φ α : Type) where
  /-- Everything emitted up to the end of the computation or up to its fault. -/
  trace : List ε
  /-- The value returned, or the fault. -/
  result : Except φ α

namespace Traced

/-- Sequencing concatenates the traces; nothing runs after a fault. -/
def bind (x : Traced ε φ α) (f : α → Traced ε φ β) : Traced ε φ β :=
  match x.result with
  | .ok a => ⟨x.trace ++ (f a).trace, (f a).result⟩
  | .error e => ⟨x.trace, .error e⟩

instance : Monad (Traced ε φ) where
  pure a := ⟨[], .ok a⟩
  bind := bind

/-- Emit one event. -/
def emit (e : ε) : Traced ε φ Unit := ⟨[e], .ok ()⟩

/-- Emit a list of events. -/
def emitAll (es : List ε) : Traced ε φ Unit := ⟨es, .ok ()⟩

/-- Stop at a fault. -/
def fault (e : φ) : Traced ε φ α := ⟨[], .error e⟩

/-- A silent computation that may stop at a fault. -/
def lift (x : Except φ α) : Traced ε φ α := ⟨[], x⟩

@[simp] theorem trace_pure (a : α) : (pure a : Traced ε φ α).trace = [] := rfl

@[simp] theorem result_pure (a : α) : (pure a : Traced ε φ α).result = .ok a := rfl

@[simp] theorem trace_emit (e : ε) : (emit e : Traced ε φ Unit).trace = [e] := rfl

@[simp] theorem result_emit (e : ε) : (emit e : Traced ε φ Unit).result = .ok () := rfl

@[simp] theorem trace_fault (e : φ) : (fault e : Traced ε φ α).trace = [] := rfl

@[simp] theorem result_fault (e : φ) : (fault e : Traced ε φ α).result = .error e := rfl

/-- After a first part that returns, the rest runs on its value. -/
theorem bind_of_ok {x : Traced ε φ α} {a : α} (hx : x.result = .ok a) (f : α → Traced ε φ β) :
    x >>= f = ⟨x.trace ++ (f a).trace, (f a).result⟩ := by
  change bind x f = _
  simp only [bind, hx]

/-- After a first part that faults, the rest does not run. -/
theorem bind_of_error {x : Traced ε φ α} {e : φ} (hx : x.result = .error e)
    (f : α → Traced ε φ β) : x >>= f = ⟨x.trace, .error e⟩ := by
  change bind x f = _
  simp only [bind, hx]

@[simp] theorem mk_ok_bind (t : List ε) (a : α) (f : α → Traced ε φ β) :
    (⟨t, .ok a⟩ : Traced ε φ α) >>= f = ⟨t ++ (f a).trace, (f a).result⟩ := rfl

@[simp] theorem mk_error_bind (t : List ε) (e : φ) (f : α → Traced ε φ β) :
    (⟨t, .error e⟩ : Traced ε φ α) >>= f = ⟨t, .error e⟩ := rfl

@[simp] theorem pure_bind (a : α) (f : α → Traced ε φ β) : pure a >>= f = f a := rfl

@[simp] theorem emit_bind (e : ε) (f : Unit → Traced ε φ β) :
    emit e >>= f = ⟨e :: (f ()).trace, (f ()).result⟩ := rfl

@[simp] theorem emitAll_bind (es : List ε) (f : Unit → Traced ε φ β) :
    emitAll es >>= f = ⟨es ++ (f ()).trace, (f ()).result⟩ := rfl

@[simp] theorem lift_ok_bind (a : α) (f : α → Traced ε φ β) :
    (lift (.ok a) : Traced ε φ α) >>= f = f a := rfl

/-- The whole returns exactly when the first part returns and the rest then does. -/
theorem bind_result_eq_ok {x : Traced ε φ α} {f : α → Traced ε φ β} {b : β} :
    (x >>= f).result = .ok b ↔ ∃ a, x.result = .ok a ∧ (f a).result = .ok b := by
  cases hx : x.result with
  | ok a => simp [bind_of_ok hx]
  | error e => simp [bind_of_error hx]

/-- An event of the whole is one of the first part or, if that returns, one of the rest. -/
theorem mem_trace_bind {x : Traced ε φ α} {f : α → Traced ε φ β} {e : ε} :
    e ∈ (x >>= f).trace ↔ e ∈ x.trace ∨ ∃ a, x.result = .ok a ∧ e ∈ (f a).trace := by
  cases hx : x.result with
  | ok a => simp [bind_of_ok hx]
  | error e => simp [bind_of_error hx]

/-- Every event of a computation satisfies `P`. -/
def Emits (P : ε → Prop) (x : Traced ε φ α) : Prop := ∀ e ∈ x.trace, P e

/-- The events of a sequence are those of its first part and of the part that then runs. -/
theorem Emits.bind {P : ε → Prop} {x : Traced ε φ α} {f : α → Traced ε φ β} (hx : Emits P x)
    (hf : ∀ a, x.result = .ok a → Emits P (f a)) : Emits P (x >>= f) := by
  intro e he
  rcases mem_trace_bind.mp he with he | ⟨a, ha, he⟩
  · exact hx e he
  · exact hf a ha e he

/-- A computation that only returns emits nothing. -/
theorem Emits.pure {P : ε → Prop} (a : α) : Emits P (pure a : Traced ε φ α) :=
  fun _ he => absurd he List.not_mem_nil

/-- Emitting one event. -/
theorem Emits.emit {P : ε → Prop} {e : ε} (h : P e) : Emits P (emit e : Traced ε φ Unit) :=
  fun _ he => List.mem_singleton.mp he ▸ h

end Traced

/-- How the body of a loop ends: back to the head, or out of the loop. -/
inductive Control (σ : Type)
  /-- Go back to the head of the loop. -/
  | next (s : σ)
  /-- Leave the loop. -/
  | leave (s : σ)
  deriving DecidableEq

/-- The state at the end of the body. -/
def Control.state : Control σ → σ
  | .next s => s
  | .leave s => s

/-- A loop with a test at its head and one blocking receive in its body. -/
structure EventLoop (σ ι ε φ : Type) where
  /-- What the loop still does when it leaves at its head; `none` if it waits for an input. -/
  head : σ → Option (Traced ε φ σ)
  /-- The rest of one iteration, on the input received. -/
  body : σ → ι → Traced ε φ (Control σ)

/-- Whether a process is in its loop, has left it, or was stopped by a fault. -/
inductive Status
  | running
  | returned
  | crashed
  deriving DecidableEq

/-- Whether a loop has returned, as a number. -/
def Status.returns : Status → ℕ
  | .returned => 1
  | .running | .crashed => 0

/-- A loop returns at most once. -/
theorem Status.returns_le (status : Status) : status.returns ≤ 1 := by
  cases status <;> decide

/-- A loop at its head, with its local state. -/
structure Process (σ : Type) where
  /-- Whether the loop still runs. -/
  status : Status
  /-- The local variables; a fault keeps those from the head of the iteration. -/
  state : σ

namespace EventLoop

variable (L : EventLoop σ ι ε φ)

/-- A process that has entered the loop in the given state. -/
def enter (s : σ) : Process σ := ⟨.running, s⟩

/-- The process after the body of an iteration that began in state `s`. -/
def settle (s : σ) : Except φ (Control σ) → Process σ
  | .ok (.next t) => ⟨.running, t⟩
  | .ok (.leave t) => ⟨.returned, t⟩
  | .error _ => ⟨.crashed, s⟩

/-- The loop waits for an input. -/
def Waiting (p : Process σ) : Bool := p.status == .running && (L.head p.state).isNone

/-- One iteration on one input; only a waiting process can run it. -/
def receive (p : Process σ) (i : ι) : Option (Process σ × List ε) :=
  if L.Waiting p then some (settle p.state (L.body p.state i).result, (L.body p.state i).trace)
  else none

/-- The test at the head succeeds and the loop returns. -/
def finish (p : Process σ) : Option (Process σ × List ε) :=
  if p.status = .running then
    (L.head p.state).map fun x => (settle p.state (x.result.map .leave), x.trace)
  else none

/-- Offer one input to a process with the trace it has left so far. A process that does
not wait leaves the input unread. -/
def offer (run : Process σ × List ε) (i : ι) : Process σ × List ε :=
  match L.receive run.1 i with
  | none => run
  | some (p, t) => (p, run.2 ++ t)

/-- The process and its whole trace after a list of inputs has been offered to it. -/
def feed (p : Process σ) (inputs : List ι) : Process σ × List ε :=
  inputs.foldl L.offer (p, [])

/-- Offering one more input at the end. -/
theorem feed_concat (p : Process σ) (inputs : List ι) (i : ι) :
    L.feed p (inputs ++ [i]) = L.offer (L.feed p inputs) i := by
  simp [feed, List.foldl_append]

/-- The same for inputs that are made from the elements of a list. -/
theorem feed_map_concat {κ : Type} (f : κ → ι) (p : Process σ) (inputs : List κ) (k : κ) :
    L.feed p ((inputs ++ [k]).map f) = L.offer (L.feed p (inputs.map f)) (f k) := by
  rw [List.map_append, List.map_singleton, feed_concat]

/-- A process that waits runs the body of its loop on the input. -/
theorem receive_of_waiting {p : Process σ} (h : L.Waiting p = true) (i : ι) :
    L.receive p i = some (settle p.state (L.body p.state i).result, (L.body p.state i).trace) :=
  if_pos h

/-- A process receives exactly if it waits. -/
theorem isSome_receive (p : Process σ) (i : ι) : (L.receive p i).isSome = L.Waiting p := by
  rw [receive]
  split <;> simp_all

/-- A waiting process takes the input that is offered to it. -/
theorem offer_of_waiting {run : Process σ × List ε} (h : L.Waiting run.1 = true) (i : ι) :
    L.offer run i = (settle run.1.state (L.body run.1.state i).result,
      run.2 ++ (L.body run.1.state i).trace) := by
  rw [offer, L.receive_of_waiting h]

/-- A process that does not wait leaves the input unread. -/
theorem offer_of_not_waiting {run : Process σ × List ε} (h : ¬ L.Waiting run.1 = true) (i : ι) :
    L.offer run i = run := by
  rw [offer, receive, if_neg h]

/-- How many inputs of a list a process reads: those that come while it waits. -/
def handled (p : Process σ) (inputs : List ι) : ℕ :=
  (List.range inputs.length).countP fun j => L.Waiting (L.feed p (inputs.take j)).1

/-- One more input is read if the process waits for it. -/
theorem handled_concat (p : Process σ) (inputs : List ι) (i : ι) :
    L.handled p (inputs ++ [i]) =
      L.handled p inputs + if L.Waiting (L.feed p inputs).1 = true then 1 else 0 := by
  have hpre : (List.range inputs.length).countP
        (fun j => L.Waiting (L.feed p ((inputs ++ [i]).take j)).1) = L.handled p inputs := by
    apply List.countP_congr
    intro j hj
    rw [List.take_append_of_le_length (Nat.le_of_lt (List.mem_range.mp hj))]
  have hlast : (inputs ++ [i]).take inputs.length = inputs := List.take_left' rfl
  rw [handled, List.length_append, List.length_singleton, List.range_succ, List.countP_append,
    hpre, List.countP_singleton, hlast]

theorem handled_le_length (p : Process σ) (inputs : List ι) :
    L.handled p inputs ≤ inputs.length := by
  have hle : L.handled p inputs ≤ (List.range inputs.length).length := List.countP_le_length
  rwa [List.length_range] at hle

/-- A process that waits after some inputs has waited for the last of them. -/
theorem waiting_of_concat {p : Process σ} {inputs : List ι} {i : ι}
    (h : L.Waiting (L.feed p (inputs ++ [i])).1 = true) : L.Waiting (L.feed p inputs).1 = true := by
  by_contra hwait
  rw [feed_concat, L.offer_of_not_waiting hwait] at h
  exact hwait h

/-- A process that waits after some inputs has waited for every one of them. -/
theorem waiting_of_append {p : Process σ} {inputs rest : List ι}
    (h : L.Waiting (L.feed p (inputs ++ rest)).1 = true) :
    L.Waiting (L.feed p inputs).1 = true := by
  induction rest using List.reverseRecOn with
  | nil => rwa [List.append_nil] at h
  | append_singleton rest i ih =>
    rw [← List.append_assoc] at h
    exact ih (L.waiting_of_concat h)

/-- A process that still waits has read all inputs. -/
theorem handled_of_waiting {p : Process σ} {inputs : List ι}
    (h : L.Waiting (L.feed p inputs).1 = true) : L.handled p inputs = inputs.length := by
  induction inputs using List.reverseRecOn with
  | nil => rfl
  | append_singleton inputs i ih =>
    have hwait := L.waiting_of_concat h
    rw [handled_concat, ih hwait, if_pos hwait, List.length_append, List.length_singleton]

/-- The inputs that a process leaves unread do not matter. -/
theorem feed_take_handled (p : Process σ) (inputs : List ι) :
    L.feed p (inputs.take (L.handled p inputs)) = L.feed p inputs := by
  induction inputs using List.reverseRecOn with
  | nil => rfl
  | append_singleton inputs i ih =>
    by_cases hwait : L.Waiting (L.feed p inputs).1 = true
    · have hall : (inputs ++ [i]).take (inputs.length + 1) = inputs ++ [i] :=
        List.take_of_length_le (by simp)
      rw [handled_concat, if_pos hwait, L.handled_of_waiting hwait, hall]
    · rw [handled_concat, if_neg hwait, Nat.add_zero, feed_concat, L.offer_of_not_waiting hwait,
        List.take_append_of_le_length (L.handled_le_length p inputs), ih]

/-- What holds of no inputs and is kept by every iteration holds of the inputs that a process
reads. -/
theorem handled_induction {κ : Type} (f : κ → ι) {p : Process σ} {P : List κ → Prop}
    (hstart : P [])
    (hstep : ∀ read k, P read → L.Waiting (L.feed p (read.map f)).1 = true → P (read ++ [k]))
    (inputs : List κ) : P (inputs.take (L.handled p (inputs.map f))) := by
  induction inputs using List.reverseRecOn with
  | nil => exact hstart
  | append_singleton inputs k ih =>
    rw [List.map_append, List.map_singleton, handled_concat]
    by_cases hwait : L.Waiting (L.feed p (inputs.map f)).1 = true
    · have hall : (inputs ++ [k]).take (inputs.length + 1) = inputs ++ [k] :=
        List.take_of_length_le (by simp)
      rw [L.handled_of_waiting hwait, List.length_map, List.take_length] at ih
      rw [if_pos hwait, L.handled_of_waiting hwait, List.length_map, hall]
      exact hstep inputs k ih hwait
    · have hle : L.handled p (inputs.map f) ≤ inputs.length := by
        simpa using L.handled_le_length p (inputs.map f)
      rw [if_neg hwait, Nat.add_zero, List.take_append_of_le_length hle]
      exact ih

/-- Only a waiting process receives, and it then runs the body of its loop. -/
theorem receive_eq_some {p q : Process σ} {i : ι} {t : List ε} (h : L.receive p i = some (q, t)) :
    L.Waiting p = true ∧ q = settle p.state (L.body p.state i).result ∧
      t = (L.body p.state i).trace := by
  by_cases hwait : L.Waiting p = true
  · rw [L.receive_of_waiting hwait, Option.some.injEq, Prod.mk.injEq] at h
    exact ⟨hwait, h.1.symm, h.2.symm⟩
  · rw [receive, if_neg hwait] at h
    cases h

/-- Only a running process whose head test succeeds finishes. -/
theorem finish_eq_some {p q : Process σ} {t : List ε} (h : L.finish p = some (q, t)) :
    p.status = .running ∧ ∃ x, L.head p.state = some x ∧
      q = settle p.state (x.result.map .leave) ∧ t = x.trace := by
  unfold finish at h
  split at h
  · rename_i hrunning
    obtain ⟨x, hlast, heq⟩ := Option.map_eq_some_iff.mp h
    obtain ⟨rfl, rfl⟩ := Prod.mk.inj heq
    exact ⟨hrunning, x, hlast, rfl, rfl⟩
  · cases h

/-- A process that waits does not finish. -/
theorem finish_of_waiting {p : Process σ} (h : L.Waiting p = true) : L.finish p = none := by
  obtain ⟨-, hhead⟩ := Bool.and_eq_true_iff.mp h
  rw [finish, Option.isNone_iff_eq_none.mp hhead]
  split <;> rfl

/-- A process that has returned does not finish again. -/
theorem finish_of_returned {p : Process σ} (h : p.status = .returned) : L.finish p = none :=
  if_neg (by simp [h])

/-- A process that has returned does not wait. -/
theorem waiting_of_returned {p : Process σ} (h : p.status = .returned) : L.Waiting p = false := by
  simp [Waiting, h]

end EventLoop

end TeeReplication
