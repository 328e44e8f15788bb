import TeeReplication.Raft.AckHistory

/-!
# Committed entries that are not reclaimed

The cleanup pointer of the leader's receiver only moves forward, but an acknowledgement
of an index behind it is appended to the log all the same. The log is free of committed
entries exactly as long as every acknowledgement that comes is of an index from the
least unacknowledged one on.
-/

namespace TeeReplication.Raft.Leader

/-- Acknowledgements that all carry one node id. -/
def fromNode (nodeId : Int32) (ackIds : List Int32) : List (Int32 × Int32) := ackIds.map (·, nodeId)

/-- The local variables after acknowledgements of one node. -/
def stateAfter (h : Hmac) (nodeId : Int32) (ackIds : List Int32) : Receiver :=
  (ackRun h (fromNode nodeId ackIds)).1.state

/-- The indices in a list of acknowledgements. -/
def indices (ackIds : List Int32) : List ℤ := ackIds.map Int32.toInt

/-- The log holds no committed index, and if all of the acknowledged indices are committed it is
empty and a receiver that returns reports no entries. -/
structure Reclaimed (h : Hmac) (nodeId : Int32) (ackIds : List Int32) : Prop where
  /-- No key is at most the commit index. -/
  above : ∀ k, (stateAfter h nodeId ackIds).raftLog.hasKey k = true →
    (stateAfter h nodeId ackIds).s.cmtIdx < k
  /-- What is left in the end. -/
  empty : (∀ k ∈ indices ackIds, k ≤ (stateAfter h nodeId ackIds).s.cmtIdx) →
    (stateAfter h nodeId ackIds).raftLog = .empty ∧
      ∀ x, receiverHead (stateAfter h nodeId ackIds) = some x →
        ∃ last, x.result = .ok last ∧ last.raftLog.size = 0 ∧
          x.trace = [.print (.summary (stateAfter h nodeId ackIds).s.cmtIdx 0)]

section Runs

variable {h : Hmac} {nodeId : Int32} {ackIds : List Int32}

@[simp] theorem fromNode_concat (ackId : Int32) :
    fromNode nodeId (ackIds ++ [ackId]) = fromNode nodeId ackIds ++ [(ackId, nodeId)] := by
  simp [fromNode]

/-- The indices in the acknowledgements of one node. -/
theorem map_fst_pairs_fromNode (nodeId : Int32) (ackIds : List Int32) :
    (pairs (fromNode nodeId ackIds)).map Prod.fst = indices ackIds := by
  simp [pairs, fromNode, indices]

/-- A receiver receives some first ones of the acknowledgements of one node. -/
theorem exists_receivedAcks_eq (h : Hmac) (nodeId : Int32) (ackIds : List Int32) :
    ∃ received, received <+: ackIds ∧
      receivedAcks h (fromNode nodeId ackIds) = fromNode nodeId received :=
  ⟨_, List.take_prefix _ _, by rw [receivedAcks, fromNode, fromNode, List.map_take]⟩

/-- From sound local variables the commit index is the frontier of the acknowledged indices. -/
theorem Sound.cmtIdx_eq_frontier {st : Receiver} (hst : Sound (pairs (fromNode nodeId ackIds)) st) :
    st.s.cmtIdx = frontier (indices ackIds) := by
  have hfrontier := hst.isFrontier fun a ha => snd_of_mem_pairs ha
  rw [map_fst_pairs_fromNode] at hfrontier
  exact hfrontier.unique (isFrontier_frontier _)

/-- When every index has been acknowledged the frontier is the largest of them. -/
theorem frontier_eq_intMax (hall : AllAcked (pairs (fromNode nodeId ackIds))) :
    frontier (indices ackIds) = intMax := by
  have hfrontier := isFrontier_frontier (indices ackIds)
  have hlo := hfrontier.neg_one_le
  apply le_antisymm
  · refine hfrontier.le_of_forall_le (by decide) fun i hi => ?_
    obtain ⟨id, -, rfl⟩ := List.mem_map.mp hi
    exact toInt_le_intMax id
  · by_contra hlt
    obtain ⟨node, hmem⟩ := hall (frontier (indices ackIds) + 1) (by omega) (by omega)
    have hnext := List.mem_map_of_mem (f := Prod.fst) hmem
    rw [map_fst_pairs_fromNode] at hnext
    exact hfrontier.next_notMem hnext

/-- The commit index of a receiver that waits is the frontier of the acknowledged indices. -/
theorem cmtIdx_eq_frontier
    (hwait : (receiver h).Waiting (ackRun h (fromNode nodeId ackIds)).1 = true) :
    (stateAfter h nodeId ackIds).s.cmtIdx = frontier (indices ackIds) :=
  (sound_of_waiting hwait).cmtIdx_eq_frontier

/-- The receiver waits as long as the frontier of the acknowledged indices has never been the last
request, and never the largest `int`. -/
theorem waiting_iff_frontier : (receiver h).Waiting (ackRun h (fromNode nodeId ackIds)).1 = true ↔
    ∀ before, before <+: ackIds →
      frontier (indices before) + 1 ≠ nbRequests ∧ frontier (indices before) ≠ intMax := by
  constructor
  · rintro hwait before ⟨rest, rfl⟩
    have hbefore : (receiver h).Waiting (ackRun h (fromNode nodeId before)).1 = true := by
      rw [ackRun, fromNode, List.map_append, List.map_append] at hwait
      exact EventLoop.waiting_of_append _ hwait
    rw [← cmtIdx_eq_frontier hbefore]
    exact ⟨(waiting_iff.mp hbefore).2, (sound_of_waiting hbefore).cmtIdx_lt.ne⟩
  · intro hlive
    obtain ⟨received, hpre, hreceived⟩ := exists_receivedAcks_eq h nodeId ackIds
    have hstands := stands_receivedAcks h (fromNode nodeId ackIds)
    rw [hreceived] at hstands
    cases hstands with
    | running status sound =>
      refine waiting_iff.mpr ⟨status, ?_⟩
      rw [sound.cmtIdx_eq_frontier]
      exact (hlive received hpre).1
    | overflowed _ _ _ _ all => exact absurd (frontier_eq_intMax all) (hlive received hpre).2

/-- A receiver that waits takes one more acknowledgement, or overflows and goes no further. -/
theorem exists_ackStep_or_of_waiting
    (hwait : (receiver h).Waiting (ackRun h (fromNode nodeId ackIds)).1 = true) (ackId : Int32) :
    AckStep (stateAfter h nodeId ackIds) ackId.toInt nodeId.toInt
        (stateAfter h nodeId (ackIds ++ [ackId])) ∨
      stateAfter h nodeId (ackIds ++ [ackId]) = stateAfter h nodeId ackIds ∧
        AllAcked (pairs (fromNode nodeId (ackIds ++ [ackId]))) := by
  rcases (sound_of_waiting hwait).exists_ackStep_or (toInt_le_intMax ackId) nodeId.toInt with
    ⟨st', hstep⟩ | ⟨hcommit, hall⟩
  · left
    have hafter : stateAfter h nodeId (ackIds ++ [ackId]) = st' := by
      rw [stateAfter, fromNode_concat, ackRun_concat (a := (ackId, nodeId)) hwait hstep]
      rfl
    rw [hafter]
    exact hstep
  · right
    refine ⟨?_, by simpa [pairs] using hall⟩
    rw [stateAfter, fromNode_concat, ackRun_concat_of_error (a := (ackId, nodeId)) hwait
      (onAck_result_of_error hcommit)]
    rfl

/-- A receiver that waits takes an acknowledgement of a committed index. -/
theorem ackStep_of_late
    (hwait : (receiver h).Waiting (ackRun h (fromNode nodeId ackIds)).1 = true) {ackId : Int32}
    (hlate : ackId.toInt ≤ (stateAfter h nodeId ackIds).s.cmtIdx) :
    AckStep (stateAfter h nodeId ackIds) ackId.toInt nodeId.toInt
      (stateAfter h nodeId (ackIds ++ [ackId])) := by
  refine (exists_ackStep_or_of_waiting hwait ackId).resolve_right fun ⟨_, hall⟩ => ?_
  -- the index after the commit index is acknowledged neither before nor by a late acknowledgement
  have hsound := sound_of_waiting hwait
  have hlo : 0 ≤ (stateAfter h nodeId ackIds).s.cmtIdx + 1 :=
    Int.le_add_of_sub_right_le (a := 0) hsound.neg_one_le
  obtain ⟨node, hmem⟩ := hall _ hlo (Int.add_one_le_of_lt hsound.cmtIdx_lt)
  rw [fromNode_concat, pairs, List.map_append, List.mem_append] at hmem
  rcases hmem with hmem | hmem
  · refine (hsound.isFrontier fun a ha => snd_of_mem_pairs ha).next_notMem ?_
    exact List.mem_map.mpr ⟨_, hmem, rfl⟩
  · have heq := congrArg Prod.fst (List.mem_singleton.mp hmem)
    change (stateAfter h nodeId ackIds).s.cmtIdx + 1 = ackId.toInt at heq
    omega

/-- A receiver that has returned ignores one more acknowledgement. -/
theorem stateAfter_concat_of_not_waiting
    (hwait : ¬ (receiver h).Waiting (ackRun h (fromNode nodeId ackIds)).1 = true)
    (ackId : Int32) : stateAfter h nodeId (ackIds ++ [ackId]) = stateAfter h nodeId ackIds := by
  rw [stateAfter, fromNode_concat, ackRun_concat_of_not_waiting hwait, stateAfter]

/-- While the log holds no committed index, it is empty once everything is committed. -/
theorem Reclaimed.of_above (habove : ∀ k, (stateAfter h nodeId ackIds).raftLog.hasKey k = true →
      (stateAfter h nodeId ackIds).s.cmtIdx < k) : Reclaimed h nodeId ackIds := by
  refine ⟨habove, fun hall => ?_⟩
  obtain ⟨received, hreceived, heq⟩ := exists_receivedAcks_eq h nodeId ackIds
  obtain ⟨before, hbefore, hsound⟩ := (stands_receivedAcks h (fromNode nodeId ackIds)).exists_sound
  have hempty : (stateAfter h nodeId ackIds).raftLog = .empty := by
    apply InMemLog.ext_entry
    intro k
    rw [InMemLog.entry_empty]
    by_contra hentry
    have hkey := InMemLog.hasKey_eq_true.mpr (Option.ne_none_iff_exists'.mp hentry)
    have hk := habove k hkey
    obtain ⟨node, hmem⟩ := hsound.exists_mem_of_hasKey hk hkey
    obtain ⟨a, ha, hpair⟩ := List.mem_map.mp hmem
    obtain ⟨ackId, hack, rfl⟩ := List.mem_map.mp (heq ▸ hbefore.subset ha)
    have hle := hall k (List.mem_map.mpr
      ⟨ackId, hreceived.subset hack, congrArg Prod.fst hpair⟩)
    omega
  refine ⟨hempty, fun x hhead => ?_⟩
  rw [receiverHead, hempty, cleanupLog_of_not_hasKey (InMemLog.hasKey_empty _)] at hhead
  split at hhead
  · obtain rfl := Option.some.inj hhead
    exact ⟨_, rfl, rfl, rfl⟩
  · cases hhead

end Runs

/-- After every acknowledgement of one follower the log holds no committed index, exactly when each
acknowledgement that comes before the receiver returns or overflows is of an index from the least
unacknowledged one on. -/
theorem reclaimed_iff (h : Hmac) (nodeId : Int32) (ackIds : List Int32) :
    (∀ before, before <+: ackIds → Reclaimed h nodeId before) ↔
      ∀ before ackId, before ++ [ackId] <+: ackIds →
        (∀ earlier, earlier <+: before → frontier (indices earlier) + 1 ≠ nbRequests ∧
          frontier (indices earlier) ≠ intMax) →
        frontier (indices before) < ackId.toInt := by
  constructor
  · intro hreclaimed before ackId hpre hlive
    have hwait : (receiver h).Waiting (ackRun h (fromNode nodeId before)).1 = true :=
      waiting_iff_frontier.mpr hlive
    rw [← cmtIdx_eq_frontier hwait]
    by_contra hlate
    have hstep := ackStep_of_late hwait (not_lt.mp hlate)
    -- the late acknowledgement stays in the log, behind the cleanup pointer
    have hkey : (stateAfter h nodeId (before ++ [ackId])).raftLog.hasKey ackId.toInt = true := by
      rw [InMemLog.hasKey, hstep.entry_eq, if_neg (by omega), InMemLog.entry_append_self]
      rfl
    have hlt := (hreclaimed _ hpre).above _ hkey
    have hle := hstep.walk.le
    omega
  · intro hcond before
    induction before using List.reverseRecOn with
    | nil =>
      intro _
      apply Reclaimed.of_above
      intro k hk
      exact absurd hk (by rw [show (stateAfter h nodeId []).raftLog = .empty from rfl]; simp)
    | append_singleton before ackId ih =>
      intro hpre
      have habove := (ih ((List.prefix_append _ _).trans hpre)).above
      apply Reclaimed.of_above
      intro k hk
      by_cases hwait : (receiver h).Waiting (ackRun h (fromNode nodeId before)).1 = true
      · rcases exists_ackStep_or_of_waiting hwait ackId with hstep | ⟨hsame, -⟩
        · have hlate := hcond before ackId hpre (waiting_iff_frontier.mp hwait)
          rw [← cmtIdx_eq_frontier hwait] at hlate
          have hle := hstep.walk.le
          rw [InMemLog.hasKey, hstep.entry_eq] at hk
          by_contra hcommitted
          split at hk
          · cases hk
          · rcases (InMemLog.hasKey_append _ _ _ _).mp hk with rfl | hold
            · omega
            · have hold := habove k hold
              omega
        · rw [hsame] at hk ⊢
          exact habove k hk
      · rw [stateAfter_concat_of_not_waiting hwait] at hk ⊢
        exact habove k hk

/-- After two acknowledgements of index zero the log keeps the committed index. -/
theorem not_reclaimed_of_repeated_ack :
    (stateAfter zeroHmac 1 [0, 0]).s.cmtIdx = 0 ∧
      (stateAfter zeroHmac 1 [0, 0]).raftLog.hasKey 0 = true ∧
      (stateAfter zeroHmac 1 [0, 0]).raftLog.size = 1 := by
  decide +kernel

end TeeReplication.Raft.Leader
