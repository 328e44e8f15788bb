import Mathlib.Algebra.BigOperators.Group.Finset.Basic
import Mathlib.Algebra.Order.BigOperators.Group.Finset
import Mathlib.Algebra.Ring.Nat
import Mathlib.Data.Fintype.Basic
import Mathlib.Logic.Function.Basic
import TeeReplication.Foundations.Simulation

/-!
# Processes that connect to each other

Before they exchange anything, processes set up their connections by a fixed script of
blocking socket calls each. A `connect` is refused as long as nobody listens at the
address, and a process that runs out of attempts exits, which closes what it listens
on. An `accept` takes the first connection that waits.
-/

namespace TeeReplication

/-- A blocking call of a script. -/
inductive SocketCall (α : Type)
  /-- `bind` and `listen`. -/
  | listen (a : α)
  /-- `connect`, with the number of times it is tried again. -/
  | connect (a : α) (retries : ℕ)
  /-- `accept`. -/
  | accept (a : α)
  deriving DecidableEq

namespace SocketCall

variable {α : Type} [DecidableEq α]

/-- The address of a call. -/
def address {α : Type} : SocketCall α → α
  | .listen a | .connect a _ | .accept a => a

/-- The call listens at the address. -/
def Listens (a : α) : SocketCall α → Bool
  | .listen b => b = a
  | _ => false

/-- The call connects to the address. -/
def Connects (a : α) : SocketCall α → Bool
  | .connect b _ => b = a
  | _ => false

/-- The call accepts a connection at the address. -/
def Accepts (a : α) : SocketCall α → Bool
  | .accept b => b = a
  | _ => false

/-- How often a call can be made. -/
def cost : SocketCall α → ℕ
  | .connect _ retries => retries + 1
  | .listen _ | .accept _ => 1

end SocketCall

/-- How far a process is in its script. -/
structure Party where
  /-- The number of calls that have succeeded. -/
  next : ℕ
  /-- How often the next call has been refused. -/
  refused : ℕ
  /-- The process has exited with an error. -/
  exited : Bool
  deriving DecidableEq

/-- What a process prints. -/
inductive Notice (π α : Type)
  /-- A connection has been refused. -/
  | refused (p : π) (a : α)
  /-- The process exits with an error. -/
  | exited (p : π)
  deriving DecidableEq

namespace Rendezvous

variable {π α : Type}

/-- The processes and the sockets between them. -/
@[ext] structure State (π α : Type) where
  /-- How far every process is. -/
  party : π → Party
  /-- Who listens at an address. -/
  listener : α → Option π
  /-- Who has connected to an address and has not been accepted yet. -/
  backlog : α → List π
  /-- Who has been accepted at an address. -/
  accepted : α → List π

/-- Before the first call. -/
def State.start : State π α where
  party _ := ⟨0, 0, false⟩
  listener _ := none
  backlog _ := []
  accepted _ := []

/-- Somebody listens at the address who has not exited. -/
def State.Open (s : State π α) (a : α) : Bool :=
  (s.listener a).any fun p => !(s.party p).exited

variable [DecidableEq π]

/-- A call of a process has succeeded. -/
def State.advance (s : State π α) (p : π) : State π α :=
  { s with party := Function.update s.party p ⟨(s.party p).next + 1, 0, false⟩ }

/-- A process is refused a connection and tries again. -/
def State.retry (s : State π α) (p : π) : State π α :=
  let x := s.party p
  { s with party := Function.update s.party p ⟨x.next, x.refused + 1, x.exited⟩ }

/-- A process exits. -/
def State.exit (s : State π α) (p : π) : State π α :=
  let x := s.party p
  { s with party := Function.update s.party p ⟨x.next, x.refused, true⟩ }

@[simp] theorem State.party_advance (s : State π α) (p q : π) : (s.advance p).party q =
    if q = p then ⟨(s.party p).next + 1, 0, false⟩ else s.party q := by
  simp [advance, Function.update_apply]

@[simp] theorem State.party_retry (s : State π α) (p q : π) : (s.retry p).party q =
    if q = p then ⟨(s.party p).next, (s.party p).refused + 1, (s.party p).exited⟩
    else s.party q := by
  simp [retry, Function.update_apply]

@[simp] theorem State.party_exit (s : State π α) (p q : π) : (s.exit p).party q =
    if q = p then ⟨(s.party p).next, (s.party p).refused, true⟩ else s.party q := by
  simp [exit, Function.update_apply]

variable [DecidableEq α]

/-- A call of a process. -/
def State.call (s : State π α) (p : π) : SocketCall α → Option (State π α × List (Notice π α))
  | .listen a =>
    if s.Open a then some (s.exit p, [.exited p])
    else some ({ s.advance p with listener := Function.update s.listener a (some p) }, [])
  | .connect a retries =>
    if s.Open a then
      some ({ s.advance p with backlog := Function.update s.backlog a (s.backlog a ++ [p]) }, [])
    else if (s.party p).refused < retries then some (s.retry p, [.refused p a])
    else some (s.exit p, [.refused p a, .exited p])
  | .accept a =>
    match s.backlog a with
    | [] => none
    | q :: rest => some ({ s.advance p with
        backlog := Function.update s.backlog a rest
        accepted := Function.update s.accepted a (s.accepted a ++ [q]) }, [])

/-- The next call of a process that has not exited. -/
def State.step (script : π → List (SocketCall α)) (s : State π α) (p : π) :
    Option (State π α × List (Notice π α)) :=
  if (s.party p).exited then none
  else (script p)[(s.party p).next]?.bind fun c => s.call p c

end Rendezvous

/-- The processes that run their scripts. -/
def rendezvous {π α : Type} [DecidableEq π] [DecidableEq α] (script : π → List (SocketCall α)) :
    Machine (Rendezvous.State π α) π (Notice π α) :=
  ⟨.start, Rendezvous.State.step script⟩

namespace Rendezvous

variable {π α : Type} [DecidableEq π] [DecidableEq α] {script : π → List (SocketCall α)}
  {s s' : State π α} {p q : π} {a : α} {events : List (Notice π α)}

/-- What one step does. -/
inductive Step (script : π → List (SocketCall α)) (s : State π α) (p : π) :
    State π α → List (Notice π α) → Prop
  /-- The process listens at an address that is free. -/
  | listen {a : α} : (script p)[(s.party p).next]? = some (.listen a) → s.Open a = false →
      Step script s p
        { s.advance p with listener := Function.update s.listener a (some p) } []
  /-- It exits, since somebody listens there. -/
  | bound {a : α} : (script p)[(s.party p).next]? = some (.listen a) → s.Open a = true →
      Step script s p (s.exit p) [.exited p]
  /-- It connects. -/
  | connect {a : α} {retries : ℕ} :
      (script p)[(s.party p).next]? = some (.connect a retries) → s.Open a = true →
      Step script s p
        { s.advance p with backlog := Function.update s.backlog a (s.backlog a ++ [p]) } []
  /-- It is refused and tries again. -/
  | retry {a : α} {retries : ℕ} :
      (script p)[(s.party p).next]? = some (.connect a retries) → s.Open a = false →
      (s.party p).refused < retries → Step script s p (s.retry p) [.refused p a]
  /-- It is refused for the last time. -/
  | giveUp {a : α} {retries : ℕ} :
      (script p)[(s.party p).next]? = some (.connect a retries) → s.Open a = false →
      retries ≤ (s.party p).refused → Step script s p (s.exit p) [.refused p a, .exited p]
  /-- It accepts a connection that waits. -/
  | accept {a : α} {q : π} {rest : List π} :
      (script p)[(s.party p).next]? = some (.accept a) → s.backlog a = q :: rest →
      Step script s p { s.advance p with
        backlog := Function.update s.backlog a rest
        accepted := Function.update s.accepted a (s.accepted a ++ [q]) } []

/-- Every step is one of these, of a process that has not exited. -/
theorem step_cases (hstep : s.step script p = some (s', events)) :
    (s.party p).exited = false ∧ Step script s p s' events := by
  rw [State.step] at hstep
  split at hstep
  · cases hstep
  · rename_i hexited
    refine ⟨Bool.eq_false_iff.mpr hexited, ?_⟩
    obtain ⟨c, hnext, hcall⟩ := Option.bind_eq_some_iff.mp hstep
    cases c with
    | listen a =>
      rw [State.call] at hcall
      split at hcall
      · rename_i hopen
        cases hcall
        exact .bound hnext hopen
      · rename_i hopen
        cases hcall
        exact .listen hnext (Bool.eq_false_iff.mpr hopen)
    | connect a retries =>
      rw [State.call] at hcall
      split at hcall
      · rename_i hopen
        cases hcall
        exact .connect hnext hopen
      · rename_i hopen
        have hclosed := Bool.eq_false_iff.mpr hopen
        split at hcall
        · rename_i hlt
          cases hcall
          exact .retry hnext hclosed hlt
        · rename_i hle
          cases hcall
          exact .giveUp hnext hclosed (Nat.le_of_not_lt hle)
    | accept a =>
      rw [State.call] at hcall
      split at hcall
      · cases hcall
      · rename_i q rest hbacklog
        cases hcall
        exact .accept hnext hbacklog

/-- A process that has not exited makes its next call. -/
theorem step_of_call {c : SocketCall α} (hexited : (s.party p).exited = false)
    (hnext : (script p)[(s.party p).next]? = some c) : s.step script p = s.call p c := by
  rw [State.step, hexited, if_neg Bool.false_ne_true, hnext, Option.bind_some]

/-- It can listen at an address that is free. -/
theorem step_of_listen (hexited : (s.party p).exited = false)
    (hnext : (script p)[(s.party p).next]? = some (.listen a)) (hopen : s.Open a = false) :
    s.step script p =
      some ({ s.advance p with listener := Function.update s.listener a (some p) }, []) := by
  rw [step_of_call hexited hnext, State.call, hopen, if_neg Bool.false_ne_true]

/-- It can accept a connection that waits. -/
theorem step_of_accept {rest : List π} (hexited : (s.party p).exited = false)
    (hnext : (script p)[(s.party p).next]? = some (.accept a))
    (hbacklog : s.backlog a = q :: rest) :
    s.step script p = some ({ s.advance p with
      backlog := Function.update s.backlog a rest
      accepted := Function.update s.accepted a (s.accepted a ++ [q]) }, []) := by
  rw [step_of_call hexited hnext, State.call, hbacklog]

/-- The calls of a process that satisfy `f` and have succeeded. -/
def State.count (script : π → List (SocketCall α)) (f : SocketCall α → Bool) (s : State π α)
    (p : π) : ℕ := ((script p).take (s.party p).next).countP f

omit [DecidableEq α] in
/-- One more call that has succeeded. -/
theorem countP_take_succ {calls : List (SocketCall α)} {n : ℕ} {c : SocketCall α}
    (hnext : calls[n]? = some c) (f : SocketCall α → Bool) :
    (calls.take (n + 1)).countP f = (calls.take n).countP f + if f c then 1 else 0 := by
  rw [List.take_add_one, hnext, Option.toList_some, List.countP_append, List.countP_singleton]

/-- Which process connects to an address, which one listens there, and an order in which the
connections can be accepted. -/
structure Plan (script : π → List (SocketCall α)) where
  /-- The addresses. -/
  addresses : List α
  /-- Who connects. -/
  dialer : α → π
  /-- Who listens. -/
  host : α → π
  /-- When the connection is accepted. -/
  time : α → ℕ
  /-- One process connects, once. -/
  connects : ∀ a ∈ addresses, ∀ p,
    (script p).countP (SocketCall.Connects a) = if p = dialer a then 1 else 0
  /-- One process listens, once. -/
  listens : ∀ a ∈ addresses, ∀ p,
    (script p).countP (SocketCall.Listens a) = if p = host a then 1 else 0
  /-- The same process accepts, once. -/
  accepts : ∀ a ∈ addresses, ∀ p,
    (script p).countP (SocketCall.Accepts a) = if p = host a then 1 else 0
  /-- There are no other addresses. -/
  mem_addresses : ∀ p, ∀ c ∈ script p, c.address ∈ addresses
  /-- Before it connects, a process accepts earlier connections only. -/
  waits : ∀ a ∈ addresses, ∀ b ∈ addresses, ∀ n < (script (dialer a)).length,
    (script (dialer a))[n]? = some (.accept b) →
      ((script (dialer a)).take n).countP (SocketCall.Connects a) = 0 → time b < time a

/-- What holds of an address in every reachable state. -/
structure Consistent (P : Plan script) (s : State π α) (a : α) : Prop where
  /-- Only the dialer connects, and it has connected if its `connect` has succeeded. -/
  queue : s.accepted a ++ s.backlog a =
    List.replicate (s.count script (SocketCall.Connects a) (P.dialer a)) (P.dialer a)
  /-- It has been accepted if the host's `accept` has succeeded. -/
  accepted : (s.accepted a).length = s.count script (SocketCall.Accepts a) (P.host a)
  /-- The host listens if its `listen` has succeeded. -/
  listener : s.listener a =
    if 0 < s.count script (SocketCall.Listens a) (P.host a) then some (P.host a) else none
  /-- It does if the dialer has connected. -/
  listening : 0 < s.count script (SocketCall.Connects a) (P.dialer a) →
    0 < s.count script (SocketCall.Listens a) (P.host a)

omit [DecidableEq α] in
/-- A process makes a call of a kind that only one process makes. -/
theorem eq_of_countP {f : SocketCall α → Bool} {n : ℕ} {c : SocketCall α}
    (hcount : ∀ p, (script p).countP f = if p = q then 1 else 0)
    (hnext : (script p)[n]? = some c) (hf : f c = true) : p = q := by
  by_contra hne
  have hzero := hcount p
  rw [if_neg hne, List.countP_eq_zero] at hzero
  exact hzero c (List.mem_of_getElem? hnext) hf

omit [DecidableEq π] [DecidableEq α] in
/-- The calls among the first `n` count once `n` calls have succeeded. -/
theorem le_count (script : π → List (SocketCall α)) {n : ℕ} (hle : n ≤ (s.party p).next)
    (f : SocketCall α → Bool) :
    ((script p).take n).countP f ≤ s.count script f p :=
  (List.take_prefix_take_left hle).sublist.countP_le

omit [DecidableEq π] [DecidableEq α] in
/-- A call that is not among the first `n` counts only after more than `n` calls. -/
theorem lt_next_of_count {n : ℕ} {f : SocketCall α → Bool}
    (hnone : ((script p).take n).countP f = 0) (hpos : 0 < s.count script f p) :
    n < (s.party p).next := by
  by_contra hle
  have hpre := List.take_prefix_take_left (l := script p) (Nat.le_of_not_lt hle)
  have hcount := hpre.sublist.countP_le (p := f)
  rw [hnone] at hcount
  exact absurd (hpos.trans_le hcount) (Nat.lt_irrefl 0)

omit [DecidableEq α] in
/-- A call that succeeds counts for the process that makes it. -/
theorem count_advance {c : SocketCall α} (hnext : (script p)[(s.party p).next]? = some c)
    (f : SocketCall α → Bool) (q : π) : (s.advance p).count script f q =
      s.count script f q + if q = p ∧ f c = true then 1 else 0 := by
  rw [State.count, State.party_advance]
  by_cases hq : q = p
  · subst hq
    rw [if_pos rfl, countP_take_succ hnext, State.count]
    simp
  · simp [hq, State.count]

omit [DecidableEq α] in
/-- A call of another kind does not count. -/
theorem count_advance_of_false {c : SocketCall α}
    (hnext : (script p)[(s.party p).next]? = some c) {f : SocketCall α → Bool} (hf : f c = false)
    (q : π) : (s.advance p).count script f q = s.count script f q := by
  rw [count_advance hnext, hf]
  simp

omit [DecidableEq α] in
/-- A call of the kind in question counts. -/
theorem count_advance_self {c : SocketCall α} (hnext : (script p)[(s.party p).next]? = some c)
    {f : SocketCall α → Bool} (hf : f c = true) :
    (s.advance p).count script f p = s.count script f p + 1 := by
  rw [count_advance hnext, if_pos ⟨rfl, hf⟩]

omit [DecidableEq α] in
/-- A call that is refused does not count. -/
theorem count_retry (f : SocketCall α → Bool) (q : π) :
    (s.retry p).count script f q = s.count script f q := by
  rw [State.count, State.party_retry, State.count]
  split <;> simp_all

omit [DecidableEq α] in
/-- Nor does one that makes the process exit. -/
theorem count_exit (f : SocketCall α → Bool) (q : π) :
    (s.exit p).count script f q = s.count script f q := by
  rw [State.count, State.party_exit, State.count]
  split <;> simp_all

namespace Consistent

variable {P : Plan script}

/-- Nothing has been done at the start. -/
theorem start (P : Plan script) (a : α) : Consistent P .start a where
  queue := by simp [State.start, State.count]
  accepted := by simp [State.start, State.count]
  listener := by simp [State.start, State.count]
  listening h := by simp [State.start, State.count] at h

/-- Where nothing changes at an address. -/
theorem congr (hs : Consistent P s a)
    (hcount : ∀ f ∈ [SocketCall.Connects a, SocketCall.Accepts a, SocketCall.Listens a], ∀ q,
      s'.count script f q = s.count script f q)
    (hlistener : s'.listener a = s.listener a) (hbacklog : s'.backlog a = s.backlog a)
    (haccepted : s'.accepted a = s.accepted a) : Consistent P s' a where
  queue := by
    rw [haccepted, hbacklog, hcount _ (by simp)]
    exact hs.queue
  accepted := by
    rw [haccepted, hcount _ (by simp)]
    exact hs.accepted
  listener := by
    rw [hlistener, hcount _ (by simp)]
    exact hs.listener
  listening := by
    rw [hcount _ (by simp), hcount _ (by simp)]
    exact hs.listening

/-- A call about another address changes nothing at an address. -/
theorem congr_advance (hs : Consistent P s a) {c : SocketCall α}
    (hnext : (script p)[(s.party p).next]? = some c)
    (hc : ∀ f ∈ [SocketCall.Connects a, SocketCall.Accepts a, SocketCall.Listens a], f c = false)
    (hparty : s'.party = (s.advance p).party) (hlistener : s'.listener a = s.listener a)
    (hbacklog : s'.backlog a = s.backlog a) (haccepted : s'.accepted a = s.accepted a) :
    Consistent P s' a := by
  refine hs.congr (fun f hf q => ?_) hlistener hbacklog haccepted
  rw [State.count, hparty]
  exact count_advance_of_false hnext (hc f hf) q

/-- Somebody has listened at an open address. -/
theorem listens_of_open (hs : Consistent P s a) (hopen : s.Open a = true) :
    0 < s.count script (SocketCall.Listens a) (P.host a) := by
  by_contra hzero
  rw [State.Open, hs.listener, if_neg hzero] at hopen
  cases hopen

/-- An address is open when its host has listened and has not exited. -/
theorem open_of_listens (hs : Consistent P s a)
    (hlistens : 0 < s.count script (SocketCall.Listens a) (P.host a))
    (hexited : (s.party (P.host a)).exited = false) : s.Open a = true := by
  rw [State.Open, hs.listener, if_pos hlistens]
  simp [hexited]

/-- Every step keeps the addresses of a plan consistent. -/
theorem step (hs : Consistent P s a) (ha : a ∈ P.addresses)
    (hstep : Step script s p s' events) : Consistent P s' a := by
  cases hstep with
  | @listen b hnext hopen =>
    by_cases hab : a = b
    · subst hab
      obtain rfl := eq_of_countP (P.listens a ha) hnext (by simp [SocketCall.Listens])
      have hlistens := count_advance_self (f := SocketCall.Listens a) hnext
        (by simp [SocketCall.Listens])
      have hpos : 0 < (s.advance (P.host a)).count script (SocketCall.Listens a) (P.host a) := by
        omega
      refine ⟨?_, ?_, (Function.update_self _ _ _).trans (if_pos hpos).symm, fun _ => hpos⟩
      · exact hs.queue.trans (congrArg (List.replicate · _)
          (count_advance_of_false hnext rfl _).symm)
      · exact hs.accepted.trans (count_advance_of_false hnext rfl _).symm
    · refine hs.congr_advance hnext ?_ rfl (Function.update_of_ne hab _ _) rfl rfl
      simp [SocketCall.Connects, SocketCall.Accepts, SocketCall.Listens, Ne.symm hab]
  | bound hnext hopen => exact hs.congr (fun f _ q => count_exit f q) rfl rfl rfl
  | @connect b retries hnext hopen =>
    by_cases hab : a = b
    · subst hab
      obtain rfl := eq_of_countP (P.connects a ha) hnext (by simp [SocketCall.Connects])
      have hconnects := count_advance_self (f := SocketCall.Connects a) hnext
        (by simp [SocketCall.Connects])
      have hlistens := count_advance_of_false (f := SocketCall.Listens a) hnext rfl (P.host a)
      refine ⟨?_, hs.accepted.trans (count_advance_of_false hnext rfl _).symm, ?_, fun _ => ?_⟩
      · change s.accepted a ++ Function.update s.backlog a (s.backlog a ++ [P.dialer a]) a =
          List.replicate ((s.advance (P.dialer a)).count script _ _) _
        rw [Function.update_self, hconnects, List.replicate_succ', ← hs.queue, List.append_assoc]
      · change s.listener a = if 0 < (s.advance (P.dialer a)).count script _ _ then _ else _
        rw [hlistens]
        exact hs.listener
      · exact (hs.listens_of_open hopen).trans_eq hlistens.symm
    · refine hs.congr_advance hnext ?_ rfl rfl (Function.update_of_ne hab _ _) rfl
      simp [SocketCall.Connects, SocketCall.Accepts, SocketCall.Listens, Ne.symm hab]
  | retry hnext hopen hlt => exact hs.congr (fun f _ q => count_retry f q) rfl rfl rfl
  | giveUp hnext hopen hle => exact hs.congr (fun f _ q => count_exit f q) rfl rfl rfl
  | @accept b q rest hnext hbacklog =>
    by_cases hab : a = b
    · subst hab
      obtain rfl := eq_of_countP (P.accepts a ha) hnext (by simp [SocketCall.Accepts])
      have haccepts := count_advance_self (f := SocketCall.Accepts a) hnext
        (by simp [SocketCall.Accepts])
      have hconnects := count_advance_of_false (f := SocketCall.Connects a) hnext rfl (P.dialer a)
      have hlistens := count_advance_of_false (f := SocketCall.Listens a) hnext rfl (P.host a)
      refine ⟨?_, ?_, ?_, ?_⟩
      · change Function.update s.accepted a (s.accepted a ++ [q]) a ++
          Function.update s.backlog a rest a =
            List.replicate ((s.advance (P.host a)).count script _ _) _
        rw [Function.update_self, Function.update_self, hconnects, ← hs.queue, hbacklog,
          List.append_assoc, List.singleton_append]
      · change (Function.update s.accepted a (s.accepted a ++ [q]) a).length =
          (s.advance (P.host a)).count script _ _
        rw [Function.update_self, haccepts, List.length_append, hs.accepted,
          List.length_singleton]
      · change s.listener a = if 0 < (s.advance (P.host a)).count script _ _ then _ else _
        rw [hlistens]
        exact hs.listener
      · change 0 < (s.advance (P.host a)).count script _ _ →
          0 < (s.advance (P.host a)).count script _ _
        rw [hconnects, hlistens]
        exact hs.listening
    · refine hs.congr_advance hnext ?_ rfl rfl (Function.update_of_ne hab _ _)
        (Function.update_of_ne hab _ _)
      simp [SocketCall.Connects, SocketCall.Accepts, SocketCall.Listens, Ne.symm hab]

/-- The addresses of a plan are consistent in every reachable state. -/
theorem of_reachable (h : (rendezvous script).Reachable s) (ha : a ∈ P.addresses) :
    Consistent P s a :=
  h.invariant (P := fun s => Consistent P s a) (start P a) fun _ _ _ _ hs hstep =>
    hs.step ha (step_cases hstep).2

end Consistent

omit [DecidableEq π] [DecidableEq α] in
/-- A call that has yet to be made, of a kind that is made once, has not been made. -/
theorem count_eq_zero {f : SocketCall α → Bool} {c : SocketCall α}
    (hcount : (script p).countP f = 1) (hnext : (script p)[(s.party p).next]? = some c)
    (hf : f c = true) : s.count script f p = 0 := by
  have hlater : 0 < ((script p).drop (s.party p).next).countP f := by
    rw [List.countP_pos_iff]
    refine ⟨c, List.mem_of_getElem? (i := 0) ?_, hf⟩
    rw [List.getElem?_drop]
    exact hnext
  rw [← List.take_append_drop (s.party p).next (script p), List.countP_append] at hcount
  rw [State.count]
  omega

/-- A process has made all its calls. -/
def State.Done (script : π → List (SocketCall α)) (s : State π α) (p : π) : Prop :=
  (script p).length ≤ (s.party p).next

omit [DecidableEq π] [DecidableEq α] in
/-- A process that is done has made every call of its script. -/
theorem State.Done.count_eq (h : s.Done script p) (f : SocketCall α → Bool) :
    s.count script f p = (script p).countP f := by
  rw [State.count, List.take_of_length_le h]

/-- A process that can do nothing, has not exited and is not done waits for a connection. -/
theorem waits_of_stuck (hstuck : s.step script p = none) (hexited : (s.party p).exited = false)
    (hdone : ¬ s.Done script p) :
    ∃ a, (script p)[(s.party p).next]? = some (.accept a) ∧ s.backlog a = [] := by
  have hlt : (s.party p).next < (script p).length := Nat.lt_of_not_le hdone
  have hnext := List.getElem?_eq_getElem hlt
  rw [step_of_call hexited hnext] at hstuck
  cases hcall : (script p)[(s.party p).next] with
  | listen a =>
    rw [hcall, State.call] at hstuck
    split at hstuck <;> cases hstuck
  | connect a retries =>
    rw [hcall, State.call] at hstuck
    split at hstuck
    · cases hstuck
    · split at hstuck <;> cases hstuck
  | accept a =>
    rw [hcall, State.call] at hstuck
    refine ⟨a, hcall ▸ hnext, ?_⟩
    split at hstuck
    · assumption
    · cases hstuck

namespace Plan

/-- Nobody waits for a connection forever. -/
theorem not_waiting (P : Plan script) (h : (rendezvous script).Reachable s)
    (hstuck : ∀ p, s.step script p = none) (hexited : ∀ p, (s.party p).exited = false)
    (ha : a ∈ P.addresses) :
    (script (P.host a))[(s.party (P.host a)).next]? ≠ some (.accept a) := by
  induction ht : P.time a using Nat.strong_induction_on generalizing a with
  | h t ih =>
    intro hnext
    have hs := Consistent.of_reachable (P := P) h ha
    have haccepts := (P.accepts a ha (P.host a)).trans (if_pos rfl)
    have hnone := count_eq_zero haccepts hnext (by simp [SocketCall.Accepts])
    have hlt := (List.getElem?_eq_some_iff.mp hnext).1
    obtain ⟨a', hnext', hbacklog⟩ := waits_of_stuck (hstuck _) (hexited _) (Nat.not_le_of_lt hlt)
    rw [hnext] at hnext'
    cases hnext'
    -- the dialer has not connected, so it waits for an earlier connection
    have hconnects : s.count script (SocketCall.Connects a) (P.dialer a) = 0 := by
      have hqueue := congrArg List.length hs.queue
      rw [List.length_append, hs.accepted, hnone, hbacklog, List.length_replicate] at hqueue
      exact hqueue.symm
    have hdone : ¬ s.Done script (P.dialer a) := by
      intro hdone
      have hone := (P.connects a ha (P.dialer a)).trans (if_pos rfl)
      rw [← hdone.count_eq, hconnects] at hone
      cases hone
    obtain ⟨b, hb, -⟩ := waits_of_stuck (hstuck _) (hexited _) hdone
    have hmem := P.mem_addresses _ _ (List.mem_of_getElem? hb)
    have hhost := eq_of_countP (P.accepts b hmem) hb (by simp [SocketCall.Accepts])
    have hearlier := P.waits a ha b hmem _ (Nat.lt_of_not_le hdone) hb hconnects
    exact ih (P.time b) (ht ▸ hearlier) hmem rfl (hhost ▸ hb)

/-- Where nobody can do anything and nobody has exited, everybody is done. -/
theorem done_of_stuck (P : Plan script) (h : (rendezvous script).Reachable s)
    (hstuck : ∀ p, s.step script p = none) (hexited : ∀ p, (s.party p).exited = false) (p : π) :
    s.Done script p := by
  by_contra hdone
  obtain ⟨a, hnext, -⟩ := waits_of_stuck (hstuck p) (hexited p) hdone
  have hmem := P.mem_addresses _ _ (List.mem_of_getElem? hnext)
  have hhost := eq_of_countP (P.accepts a hmem) hnext (by simp [SocketCall.Accepts])
  subst hhost
  exact P.not_waiting h hstuck hexited hmem hnext

/-- When everybody is done, every host has accepted the dialer meant, and nobody else. -/
theorem accepted_of_done (P : Plan script) (h : (rendezvous script).Reachable s)
    (hdone : ∀ p, s.Done script p) (ha : a ∈ P.addresses) :
    s.accepted a = [P.dialer a] ∧ s.backlog a = [] := by
  have hs := Consistent.of_reachable (P := P) h ha
  have hqueue := hs.queue
  have hlength := hs.accepted
  rw [(hdone _).count_eq, P.connects a ha, if_pos rfl] at hqueue
  rw [(hdone _).count_eq, P.accepts a ha, if_pos rfl] at hlength
  obtain ⟨q, hq⟩ := List.length_eq_one_iff.mp hlength
  rw [hq, List.singleton_append, List.replicate_one] at hqueue
  obtain ⟨rfl, hbacklog⟩ := List.cons.inj hqueue
  exact ⟨hq, hbacklog⟩

/-- Nobody listens at an address before its host does. -/
theorem free_of_listens (P : Plan script) (h : (rendezvous script).Reachable s)
    (hnext : (script p)[(s.party p).next]? = some (.listen a)) : s.Open a = false := by
  have ha : a ∈ P.addresses := P.mem_addresses _ _ (List.mem_of_getElem? hnext)
  obtain rfl := eq_of_countP (P.listens a ha) hnext (by simp [SocketCall.Listens])
  have hlistens := (P.listens a ha (P.host a)).trans (if_pos rfl)
  have hnone := count_eq_zero hlistens hnext (by simp [SocketCall.Listens])
  rw [State.Open, (Consistent.of_reachable (P := P) h ha).listener, hnone]
  rfl

/-- A process that exits has been refused a connection as often as it tries. -/
theorem exited_iff (P : Plan script) (h : (rendezvous script).Reachable s)
    (hstep : s.step script p = some (s', events)) :
    (s'.party p).exited = true ↔ ∃ a retries,
      (script p)[(s.party p).next]? = some (.connect a retries) ∧ s.Open a = false ∧
        retries ≤ (s.party p).refused := by
  obtain ⟨hexited, hmove⟩ := step_cases hstep
  cases hmove with
  | listen hnext hopen => simp [hnext]
  | bound hnext hopen =>
    rw [P.free_of_listens h hnext] at hopen
    cases hopen
  | connect hnext hopen =>
    simp only [State.party_advance, if_pos, Bool.false_eq_true, false_iff]
    rintro ⟨b, retries', hnext', hclosed, -⟩
    rw [hnext] at hnext'
    cases hnext'
    rw [hclosed] at hopen
    cases hopen
  | retry hnext hopen hlt =>
    simp only [State.party_retry, if_pos, hexited, Bool.false_eq_true, false_iff]
    rintro ⟨b, retries', hnext', -, hle⟩
    rw [hnext] at hnext'
    cases hnext'
    omega
  | giveUp hnext hopen hle =>
    simp only [State.party_exit, if_pos, true_iff]
    exact ⟨_, _, hnext, hopen, hle⟩
  | accept hnext hbacklog => simp [hnext]

end Plan

/-- The step is not an attempt to connect that is refused for the last time. -/
def InTime (script : π → List (SocketCall α)) (s : State π α) (p : π) : Prop :=
  ∀ a retries, (script p)[(s.party p).next]? = some (.connect a retries) →
    retries ≤ (s.party p).refused → s.Open a = true

instance (script : π → List (SocketCall α)) (s : State π α) (p : π) :
    Decidable (InTime script s p) :=
  match h : (script p)[(s.party p).next]? with
  | some (.connect a retries) =>
    decidable_of_iff (retries ≤ (s.party p).refused → s.Open a = true) (by simp [InTime, h])
  | some (.listen _) | some (.accept _) | none => isTrue fun _ _ heq => nomatch h.symm.trans heq

/-- A step of one process changes no other one. -/
theorem party_of_step_of_ne (hstep : s.step script p = some (s', events)) (hq : q ≠ p) :
    s'.party q = s.party q := by
  obtain ⟨-, hmove⟩ := step_cases hstep
  cases hmove <;> simp [hq]

/-- If everybody listens in time, nobody exits. -/
theorem Plan.exited_of_inTime (P : Plan script)
    (h : (rendezvous script).ReachableBy (InTime script) s) (q : π) :
    (s.party q).exited = false := by
  have hboth : (rendezvous script).Reachable s ∧ ∀ q, (s.party q).exited = false := by
    refine h.invariant (P := fun s => (rendezvous script).Reachable s ∧
      ∀ q, (s.party q).exited = false) ⟨.start, fun _ => rfl⟩ ?_
    rintro s p s' events ⟨hs, hexited⟩ hok hstep
    refine ⟨hs.next hstep, fun q => ?_⟩
    by_cases hq : q = p
    · subst hq
      rw [Bool.eq_false_iff, Ne, P.exited_iff hs hstep]
      rintro ⟨a, retries, hnext, hclosed, hle⟩
      rw [hok a retries hnext hle] at hclosed
      cases hclosed
    · rw [party_of_step_of_ne hstep hq]
      exact hexited q
  exact hboth.2 q

/-- How often the next call can still be refused. -/
def slack (calls : List (SocketCall α)) (x : Party) : ℕ :=
  match calls[x.next]? with
  | some c => c.cost - x.refused
  | none => 0

/-- How many steps a process can still take, at most. -/
def remaining (calls : List (SocketCall α)) (x : Party) : ℕ :=
  if x.exited then 0
  else 1 + ((calls.map SocketCall.cost).sum + 1) * (calls.length - x.next) + slack calls x

omit [DecidableEq α] in
/-- One call takes no more attempts than all of them. -/
theorem slack_le (calls : List (SocketCall α)) (x : Party) :
    slack calls x ≤ (calls.map SocketCall.cost).sum := by
  rw [slack]
  split
  · rename_i c hnext
    have hle := List.single_le_sum (fun _ _ => Nat.zero_le _) _
      (List.mem_map_of_mem (f := SocketCall.cost) (List.mem_of_getElem? hnext))
    omega
  · exact Nat.zero_le _

omit [DecidableEq α] in
/-- A call that succeeds leaves fewer steps, however often the next one can be refused. -/
theorem remaining_advance_lt {calls : List (SocketCall α)} {x : Party}
    (hexited : x.exited = false) (hlt : x.next < calls.length) :
    remaining calls ⟨x.next + 1, 0, false⟩ < remaining calls x := by
  have hslack := slack_le calls ⟨x.next + 1, 0, false⟩
  obtain ⟨m, hm⟩ : ∃ m, calls.length - x.next = m + 1 := ⟨calls.length - x.next - 1, by omega⟩
  have hm' : calls.length - (x.next + 1) = m := by omega
  rw [remaining, remaining, hexited, if_neg Bool.false_ne_true, if_neg Bool.false_ne_true, hm,
    hm', Nat.mul_add, Nat.mul_one]
  omega

/-- Every step of a process leaves it fewer. -/
theorem remaining_lt (hstep : s.step script p = some (s', events)) :
    remaining (script p) (s'.party p) < remaining (script p) (s.party p) := by
  obtain ⟨hexited, hmove⟩ := step_cases hstep
  have hexit : remaining (script p) ⟨(s.party p).next, (s.party p).refused, true⟩ <
      remaining (script p) (s.party p) := by
    rw [remaining, remaining, hexited, if_neg Bool.false_ne_true, if_pos rfl]
    omega
  cases hmove with
  | listen hnext | connect hnext | accept hnext =>
    have hlt := remaining_advance_lt hexited (List.getElem?_eq_some_iff.mp hnext).1
    simpa using hlt
  | bound hnext hopen | giveUp hnext hopen hle => simpa using hexit
  | retry hnext hopen hlt =>
    simp only [State.party_retry, if_pos, remaining, slack, hexited, hnext, SocketCall.cost,
      Bool.false_eq_true, if_false]
    omega

/-- Processes that run scripts stop. -/
theorem halts [Fintype π] (script : π → List (SocketCall α)) :
    (rendezvous script).Halts fun _ _ => True := by
  apply Machine.halts_of_lt fun s => ∑ p, remaining (script p) (s.party p)
  intro s p s' events _ _ hstep
  refine Finset.sum_lt_sum (fun q _ => ?_) ⟨p, Finset.mem_univ _, remaining_lt hstep⟩
  by_cases hq : q = p
  · subst hq
    exact (remaining_lt hstep).le
  · rw [party_of_step_of_ne hstep hq]

/-- A host accepts nobody but the dialer meant, and only once. -/
theorem Plan.accepted_eq (P : Plan script) (h : (rendezvous script).Reachable s)
    (ha : a ∈ P.addresses) : s.accepted a = [] ∨ s.accepted a = [P.dialer a] := by
  have hs := Consistent.of_reachable (P := P) h ha
  have hle : s.count script (SocketCall.Connects a) (P.dialer a) ≤ 1 := by
    have hsub := ((script (P.dialer a)).take_sublist (s.party (P.dialer a)).next).countP_le
      (p := SocketCall.Connects a)
    rwa [P.connects a ha, if_pos rfl] at hsub
  have hpre : s.accepted a <+: List.replicate 1 (P.dialer a) := by
    refine List.IsPrefix.trans ⟨_, hs.queue⟩ ?_
    exact ⟨List.replicate (1 - s.count script (SocketCall.Connects a) (P.dialer a)) (P.dialer a),
      by rw [← List.replicate_add, Nat.add_sub_cancel' hle]⟩
  rw [List.replicate_one, List.prefix_cons_iff] at hpre
  rcases hpre with hnil | ⟨rest, hcons, hrest⟩
  · exact Or.inl hnil
  · rw [List.prefix_nil.mp hrest] at hcons
    exact Or.inr hcons

/-- When everybody is done, every host listens. -/
theorem Plan.listener_of_done (P : Plan script) (h : (rendezvous script).Reachable s)
    (hdone : ∀ p, s.Done script p) (ha : a ∈ P.addresses) : s.listener a = some (P.host a) := by
  rw [(Consistent.of_reachable (P := P) h ha).listener, (hdone _).count_eq, P.listens a ha,
    if_pos rfl]
  rfl

/-- Links that use connections of a plan, each written at one end and read at the other. -/
structure Plan.Links (P : Plan script) (κ : Type) where
  /-- Where the connection of a link is accepted. -/
  address : κ → α
  /-- Who writes a link. -/
  writer : κ → π
  /-- Who reads it. -/
  reader : κ → π
  /-- The address is one of the plan. -/
  mem : ∀ k, address k ∈ P.addresses
  /-- The writer connects. -/
  dialer_eq : ∀ k, P.dialer (address k) = writer k
  /-- The reader accepts. -/
  host_eq : ∀ k, P.host (address k) = reader k

namespace Plan.Links

variable {κ : Type} {P : Plan script}

/-- Everybody has made all calls, and every link joins its writer to its reader. -/
structure Wired (L : P.Links κ) (s : State π α) : Prop where
  /-- Everybody is done. -/
  done : ∀ p, s.Done script p
  /-- The reader of a link listens at its address. -/
  listener : ∀ k, s.listener (L.address k) = some (L.reader k)
  /-- It has accepted the writer and nobody else. -/
  accepted : ∀ k, s.accepted (L.address k) = [L.writer k]
  /-- Nobody waits to be accepted. -/
  backlog : ∀ k, s.backlog (L.address k) = []

/-- Where nobody can do anything and nobody has exited, the links are wired. -/
theorem wired_of_stuck (L : P.Links κ) (h : (rendezvous script).Reachable s)
    (hstuck : ∀ p, s.step script p = none) (hexited : ∀ p, (s.party p).exited = false) :
    L.Wired s := by
  have hdone := P.done_of_stuck h hstuck hexited
  refine ⟨hdone, fun k => ?_, fun k => ?_, fun k => (P.accepted_of_done h hdone (L.mem k)).2⟩
  · rw [P.listener_of_done h hdone (L.mem k), L.host_eq]
  · rw [(P.accepted_of_done h hdone (L.mem k)).1, L.dialer_eq]

/-- What setting up connections comes to, from a reachable state on. -/
structure Outcome (L : P.Links κ) (s : State π α) : Prop where
  /-- The reader of a link accepts nobody but its writer, and only once. -/
  accepted : ∀ k, s.accepted (L.address k) = [] ∨ s.accepted (L.address k) = [L.writer k]
  /-- A process exits exactly if it is refused a connection for the last time. -/
  exited : ∀ p s' events, s.step script p = some (s', events) →
    ((s'.party p).exited = true ↔ ∃ a retries,
      (script p)[(s.party p).next]? = some (.connect a retries) ∧ s.Open a = false ∧
        retries ≤ (s.party p).refused)
  /-- Where nothing can be done any more, somebody has exited or the links are wired. -/
  ended : (∀ p, s.step script p = none) → (∃ p, (s.party p).exited = true) ∨ L.Wired s

/-- Every reachable state has this outcome. -/
theorem outcome (L : P.Links κ) (h : (rendezvous script).Reachable s) : L.Outcome s where
  accepted k := by
    rw [← L.dialer_eq]
    exact P.accepted_eq h (L.mem k)
  exited p s' events hstep := P.exited_iff h hstep
  ended hstuck := by
    by_cases hexited : ∀ p, (s.party p).exited = false
    · exact Or.inr (L.wired_of_stuck h hstuck hexited)
    · left
      simpa using hexited

/-- If everybody listens in time, the links are wired in the end. -/
theorem wired_of_inTime (L : P.Links κ) (h : (rendezvous script).ReachableBy (InTime script) s)
    (hstuck : ∀ p, s.step script p = none) : L.Wired s :=
  L.wired_of_stuck h.reachable hstuck (P.exited_of_inTime h)

end Plan.Links

end Rendezvous

end TeeReplication
