import TeeReplication.Foundations.Confluence
import TeeReplication.Raft.Streams

/-!
# The outcome of an experiment

None of the five loops can choose what to do next, and no two of them read the same
link. The interleaving of the loops, and how `send` and `recv` cut their frames,
therefore have no influence on what everybody has in the end.
-/

namespace TeeReplication.Raft

variable {S : Setup}

/-- A thread of the raft programs does nothing but wait, take one turn or return. -/
theorem sequential (S : Setup) : (threads S).Sequential where
  reader_injective k k' h := by
    cases k with
    | request f =>
      cases k' with
      | request g => exact congrArg Link.request (Thread.follower.inj h)
      | ack g => cases h
    | ack f =>
      cases k' with
      | request g => cases h
      | ack g => exact congrArg Link.ack (Thread.receiver.inj h)
  act_eq_none t l h := by
    cases t with
    | sender => cases h
    | follower f => exact congrArg (Option.map _) (EventLoop.finish_of_waiting _ h)
    | receiver f => exact congrArg (Option.map _) (EventLoop.finish_of_waiting _ h)
  returned t l h := by
    cases t with
    | sender => exact ⟨congrArg (Option.map _) (Option.isNone_iff_eq_none.mp h), rfl⟩
    | follower f =>
      have hreturned : Process.status l = .returned := beq_iff_eq.mp h
      exact ⟨congrArg (Option.map _) (EventLoop.finish_of_returned _ hreturned),
        EventLoop.waiting_of_returned _ hreturned⟩
    | receiver f =>
      have hreturned : Process.status l = .returned := beq_iff_eq.mp h
      exact ⟨congrArg (Option.map _) (EventLoop.finish_of_returned _ hreturned),
        EventLoop.waiting_of_returned _ hreturned⟩

/-- There is one end that every run of the experiment comes to, and everything is finished there.
Every interleaving of the loops can be completed to a permutation of the same steps, and every run
over TCP that cannot go on has this end, whatever the buffers and the portions in which the bytes
were sent and received. -/
theorem one_outcome (S : Setup) : ∃ moves s, (threads S).OneOutcome Net.framing moves s ∧
    ∀ f, (toCluster s).Finished f := by
  obtain ⟨moves, s, houtcome⟩ :=
    (sequential S).oneOutcome (flows S) (allFramed S) (linked_halts S)
  refine ⟨moves, s, houtcome, ?_⟩
  obtain ⟨hsender, hlane⟩ :=
    Cluster.ordered_of_reachable (reachable_toCluster (Machine.reachable_of_exec houtcome.exec))
  intro f
  exact (hlane f).finished hsender (stuck_toCluster fun m => houtcome.stuck m trivial)

end TeeReplication.Raft
