import TeeReplication.Foundations.Frontier
import TeeReplication.Raft.Leader

/-!
# What the leader's receiver computes

The commit loop walks through consecutive present keys and leaves the log alone;
the cleanup loop removes consecutive keys. When all acknowledgements carry one
node id, as those of one follower do, the commit index is the frontier of the
set of indices acknowledged and `last_cleanup` is the index after it.
-/

namespace TeeReplication.Raft.Leader

/-- The commit loop stops at a missing index. -/
theorem commitFrom_of_not_hasKey {raftLog : InMemLog} {n : ℤ} (hkey : raftLog.hasKey n = false)
    (prevNode : ℤ) : commitFrom raftLog n prevNode = .ok (raftLog, ⟨n - 1, prevNode⟩) := by
  rw [commitFrom, dif_neg (by simp [hkey])]
  rfl

/-- The commit loop passes an index with `kNodesSize` acknowledgements. -/
theorem commitFrom_of_full {raftLog : InMemLog} {n : ℤ} {vector : List ℤ}
    (hentry : raftLog.entry n = some vector) (hfull : vector.length = kNodesSize)
    (prevNode : ℤ) :
    commitFrom raftLog n prevNode = iterateLogAndCommit raftLog ⟨n, prevNode⟩ := by
  rw [commitFrom, dif_pos (InMemLog.hasKey_eq_true.mpr ⟨_, hentry⟩),
    InMemLog.sizeAtKey_of_entry hentry, if_pos hfull]
  rfl

/-- The commit loop passes an index with another number of acknowledgements if the first of
them is the remembered node, or if there is none yet. -/
theorem commitFrom_of_cons {raftLog : InMemLog} {n node : ℤ} {rest : List ℤ}
    (hentry : raftLog.entry n = some (node :: rest))
    (hsize : (node :: rest).length ≠ kNodesSize) (prevNode : ℤ) :
    commitFrom raftLog n prevNode =
      if prevNode = -1 ∨ prevNode = node then iterateLogAndCommit raftLog ⟨n, node⟩
      else .ok (raftLog, ⟨n - 1, prevNode⟩) := by
  rw [commitFrom, dif_pos (InMemLog.hasKey_eq_true.mpr ⟨_, hentry⟩),
    InMemLog.sizeAtKey_of_entry hentry, if_neg hsize, InMemLog.getNodeAt_of_cons hentry]
  rfl

/-- The commit loop faults at an index with an empty vector. -/
theorem commitFrom_of_nil {raftLog : InMemLog} {n : ℤ} (hentry : raftLog.entry n = some [])
    (prevNode : ℤ) : commitFrom raftLog n prevNode = .error (.emptyVector n) := by
  rw [commitFrom, dif_pos (InMemLog.hasKey_eq_true.mpr ⟨_, hentry⟩),
    InMemLog.sizeAtKey_of_entry hentry, if_neg (by simp [kNodesSize])]
  simp [InMemLog.getNodeAt, InMemLog.subscript_of_entry hentry, Bind.bind, Except.bind]

/-- The commit loop begins with the next index, unless there is none. -/
theorem iterateLogAndCommit_of_lt {raftLog : InMemLog} {s : State} (hlt : s.cmtIdx < intMax) :
    iterateLogAndCommit raftLog s = commitFrom raftLog (s.cmtIdx + 1) s.lastCmtNode := if_pos hlt

theorem iterateLogAndCommit_of_not_lt {raftLog : InMemLog} {s : State}
    (hlt : ¬ s.cmtIdx < intMax) : iterateLogAndCommit raftLog s = .error .overflow := if_neg hlt

/-- A commit loop that returns has not touched the log and has passed present keys only. -/
theorem iterateLogAndCommit_spec {raftLog raftLog' : InMemLog} {s : State} {c prevNode : ℤ}
    (hok : iterateLogAndCommit raftLog ⟨c, prevNode⟩ = .ok (raftLog', s)) :
    raftLog' = raftLog ∧ c ≤ s.cmtIdx ∧
      ∀ i, c < i → i ≤ s.cmtIdx → raftLog.hasKey i = true := by
  induction hm : raftLog.sizeFrom (c + 1) using Nat.strong_induction_on
    generalizing c prevNode with
  | h m ih =>
    have hstop {t : State} (ht : t.cmtIdx = c)
        (heq : (.ok (raftLog, t) : Except Fault (InMemLog × State)) = .ok (raftLog', s)) :
        raftLog' = raftLog ∧ c ≤ s.cmtIdx ∧
          ∀ i, c < i → i ≤ s.cmtIdx → raftLog.hasKey i = true := by
      obtain ⟨rfl, rfl⟩ := Prod.mk.inj (Except.ok.inj heq)
      exact ⟨rfl, by omega, fun i _ _ => by omega⟩
    have hpass {p : ℤ} (hkey : raftLog.hasKey (c + 1) = true)
        (hrest : iterateLogAndCommit raftLog ⟨c + 1, p⟩ = .ok (raftLog', s)) :
        raftLog' = raftLog ∧ c ≤ s.cmtIdx ∧
          ∀ i, c < i → i ≤ s.cmtIdx → raftLog.hasKey i = true := by
      obtain ⟨hlog, hle, hmem⟩ := ih _ (hm ▸ InMemLog.sizeFrom_succ_lt hkey) hrest rfl
      refine ⟨hlog, by omega, fun i hci his => ?_⟩
      by_cases hi : i = c + 1
      · rwa [hi]
      · exact hmem i (by omega) his
    by_cases hlt : c < intMax
    · rw [iterateLogAndCommit_of_lt hlt] at hok
      change commitFrom raftLog (c + 1) prevNode = _ at hok
      cases hentry : raftLog.entry (c + 1) with
      | none =>
        rw [commitFrom_of_not_hasKey (InMemLog.hasKey_eq_false.mpr hentry)] at hok
        exact hstop (by simp) hok
      | some vector =>
        have hkey := InMemLog.hasKey_eq_true.mpr ⟨_, hentry⟩
        by_cases hfull : vector.length = kNodesSize
        · rw [commitFrom_of_full hentry hfull] at hok
          exact hpass hkey hok
        · cases vector with
          | nil =>
            rw [commitFrom_of_nil hentry] at hok
            cases hok
          | cons node rest =>
            rw [commitFrom_of_cons hentry hfull] at hok
            split at hok
            · exact hpass hkey hok
            · exact hstop (by simp) hok
    · rw [iterateLogAndCommit_of_not_lt hlt] at hok
      cases hok

/-- The commit loop has walked from the index after `c` to the state `s`. -/
structure CommitWalk (raftLog : InMemLog) (c prevNode : ℤ) (s : State) : Prop where
  /-- The walk does not go down. -/
  le : c ≤ s.cmtIdx
  /-- Every entry passed has `kNodesSize` acknowledgements or was first acknowledged by the node
  that is remembered in the end, or by `-1`. -/
  passed : ∀ i, c < i → i ≤ s.cmtIdx → ∃ node rest, raftLog.entry i = some (node :: rest) ∧
    ((node :: rest).length ≠ kNodesSize → node = s.lastCmtNode ∨ node = -1)
  /-- An entry that it stopped at has another number of acknowledgements, and another node than
  the remembered one has acknowledged it first. -/
  stop : ∀ node rest, raftLog.entry (s.cmtIdx + 1) = some (node :: rest) →
    (node :: rest).length ≠ kNodesSize ∧ s.lastCmtNode ≠ -1 ∧ s.lastCmtNode ≠ node
  /-- Where the remembered node comes from. -/
  last : s.lastCmtNode = prevNode ∨ prevNode = -1 ∧ ∃ i rest, c < i ∧ i ≤ s.cmtIdx ∧
    raftLog.entry i = some (s.lastCmtNode :: rest) ∧
    (s.lastCmtNode :: rest).length ≠ kNodesSize

namespace CommitWalk

variable {raftLog : InMemLog} {c prevNode : ℤ} {s : State}

/-- A walk that stops at once. -/
theorem stay (hstop : ∀ node rest, raftLog.entry (c + 1) = some (node :: rest) →
      (node :: rest).length ≠ kNodesSize ∧ prevNode ≠ -1 ∧ prevNode ≠ node) :
    CommitWalk raftLog c prevNode ⟨c, prevNode⟩ :=
  ⟨le_rfl, fun i hi hle => absurd hi (by simpa using hle), hstop, Or.inl rfl⟩

/-- A walk that passes an entry with `kNodesSize` acknowledgements first. -/
theorem full {node : ℤ} {rest : List ℤ} (hentry : raftLog.entry (c + 1) = some (node :: rest))
    (hfull : (node :: rest).length = kNodesSize) (h : CommitWalk raftLog (c + 1) prevNode s) :
    CommitWalk raftLog c prevNode s := by
  have hle := h.le
  refine ⟨by omega, fun i hci his => ?_, h.stop, ?_⟩
  · by_cases hi : i = c + 1
    · subst hi
      exact ⟨node, rest, hentry, fun hsize => absurd hfull hsize⟩
    · exact h.passed i (by omega) his
  · rcases h.last with hlast | ⟨hprev, i, rest, hci, hrest⟩
    · exact Or.inl hlast
    · exact Or.inr ⟨hprev, i, rest, by omega, hrest⟩

/-- A walk that passes an entry of the remembered node first. -/
theorem cons {node : ℤ} {rest : List ℤ} (hentry : raftLog.entry (c + 1) = some (node :: rest))
    (hsize : (node :: rest).length ≠ kNodesSize) (hprev : prevNode = -1 ∨ prevNode = node)
    (h : CommitWalk raftLog (c + 1) node s) : CommitWalk raftLog c prevNode s := by
  have hle := h.le
  refine ⟨by omega, fun i hci his => ?_, h.stop, ?_⟩
  · by_cases hi : i = c + 1
    · subst hi
      refine ⟨node, rest, hentry, fun _ => ?_⟩
      rcases h.last with hlast | ⟨hnode, -⟩
      · exact Or.inl hlast.symm
      · exact Or.inr hnode
    · exact h.passed i (by omega) his
  · rcases h.last with hlast | ⟨hnode, i, rest', hci, hi⟩
    · rcases hprev with hprev | hprev
      · exact Or.inr ⟨hprev, c + 1, rest, by omega, hle, hlast ▸ hentry, hlast ▸ hsize⟩
      · exact Or.inl (hlast.trans hprev.symm)
    · refine Or.inr ⟨?_, i, rest', by omega, hi⟩
      rcases hprev with hprev | hprev
      · exact hprev
      · exact hprev.trans hnode

end CommitWalk

/-- On a log without empty vectors above `c` and without keys above `INT_MAX`, the commit loop walks
to some state and returns it, unless the walk has passed `INT_MAX`. -/
theorem iterateLogAndCommit_walk {raftLog : InMemLog} {c : ℤ}
    (hne : ∀ k, c < k → raftLog.entry k ≠ some [])
    (hmax : ∀ k, intMax < k → raftLog.entry k = none) (hc : c ≤ intMax) (prevNode : ℤ) :
    ∃ s, CommitWalk raftLog c prevNode s ∧ s.cmtIdx ≤ intMax ∧
      iterateLogAndCommit raftLog ⟨c, prevNode⟩ =
        if s.cmtIdx < intMax then .ok (raftLog, s) else .error .overflow := by
  induction hm : raftLog.sizeFrom (c + 1) using Nat.strong_induction_on
    generalizing c prevNode with
  | h m ih =>
    have hback : c + 1 - 1 = c := by omega
    by_cases hlt : c < intMax
    · rw [iterateLogAndCommit_of_lt hlt]
      change ∃ s, _ ∧ _ ∧ commitFrom raftLog (c + 1) prevNode = _
      cases hentry : raftLog.entry (c + 1) with
      | none =>
        refine ⟨⟨c, prevNode⟩, .stay fun node rest h => ?_, hc, ?_⟩
        · rw [hentry] at h
          cases h
        · rw [commitFrom_of_not_hasKey (InMemLog.hasKey_eq_false.mpr hentry), hback, if_pos hlt]
      | some vector =>
        have hrest (p : ℤ) := ih _ (hm ▸ InMemLog.sizeFrom_succ_lt
          (InMemLog.hasKey_eq_true.mpr ⟨_, hentry⟩)) (fun k hk => hne k (by omega)) hlt p rfl
        cases vector with
        | nil => exact absurd hentry (hne _ (by omega))
        | cons node rest =>
          by_cases hfull : (node :: rest).length = kNodesSize
          · obtain ⟨s, hwalk, hs, hrun⟩ := hrest prevNode
            exact ⟨s, hwalk.full hentry hfull, hs, by rw [commitFrom_of_full hentry hfull, hrun]⟩
          · rw [commitFrom_of_cons hentry hfull]
            by_cases hprev : prevNode = -1 ∨ prevNode = node
            · obtain ⟨s, hwalk, hs, hrun⟩ := hrest node
              exact ⟨s, hwalk.cons hentry hfull hprev, hs, by rw [if_pos hprev, hrun]⟩
            · refine ⟨⟨c, prevNode⟩, .stay fun node' rest' h => ?_, hc,
                by rw [if_neg hprev, hback, if_pos hlt]⟩
              rw [hentry, Option.some.injEq, List.cons.injEq] at h
              obtain ⟨rfl, rfl⟩ := h
              rw [not_or] at hprev
              exact ⟨hfull, hprev⟩
    · -- the walk has come to `INT_MAX`, and its addition overflows
      refine ⟨⟨c, prevNode⟩, .stay fun node rest h => ?_, hc, ?_⟩
      · rw [hmax (c + 1) (by omega)] at h
        cases h
      · rw [iterateLogAndCommit_of_not_lt hlt, if_neg hlt]

/-- The cleanup loop stops at a missing index. -/
theorem cleanupLog_of_not_hasKey {raftLog : InMemLog} {n : ℤ} (hkey : raftLog.hasKey n = false)
    (s : State) : cleanupLog raftLog n s = .ok ((raftLog, n), []) := by
  rw [cleanupLog, dif_neg (by simp [hkey])]

/-- The cleanup loop removes an index with `kNodesSize` acknowledgements or one that is
committed, and stops with a message at any other one. -/
theorem cleanupLog_of_entry {raftLog : InMemLog} {n : ℤ} {vector : List ℤ}
    (hentry : raftLog.entry n = some vector) (s : State) :
    cleanupLog raftLog n s =
      if vector.length = kNodesSize ∨ n ≤ s.cmtIdx then
        if n < intMax then cleanupLog (raftLog.remove n) (n + 1) s else .error .overflow
      else .ok ((raftLog, n), [.uncommitted n raftLog.size]) := by
  rw [cleanupLog, dif_pos (InMemLog.hasKey_eq_true.mpr ⟨_, hentry⟩),
    InMemLog.sizeAtKey_of_entry hentry]
  by_cases hfull : vector.length = kNodesSize <;> by_cases hle : n ≤ s.cmtIdx <;>
    simp [hfull, hle]

/-- A cleanup loop that returns moves `last_cleanup` up and removes exactly the keys it passes. -/
theorem cleanupLog_spec {raftLog : InMemLog} {n : ℤ} {s : State}
    {r : (InMemLog × ℤ) × List Line} (hok : cleanupLog raftLog n s = .ok r) :
    n ≤ r.1.2 ∧
      ∀ k, r.1.1.entry k = if n ≤ k ∧ k < r.1.2 then none else raftLog.entry k := by
  induction hm : raftLog.size using Nat.strong_induction_on generalizing raftLog n with
  | h m ih =>
    have hstay (k : ℤ) : raftLog.entry k = if n ≤ k ∧ k < n then none else raftLog.entry k := by
      rw [if_neg (by omega)]
    cases hentry : raftLog.entry n with
    | none =>
      rw [cleanupLog_of_not_hasKey (InMemLog.hasKey_eq_false.mpr hentry)] at hok
      obtain rfl := Except.ok.inj hok
      exact ⟨le_rfl, hstay⟩
    | some vector =>
      rw [cleanupLog_of_entry hentry] at hok
      split at hok
      · split at hok
        · have hkey := InMemLog.hasKey_eq_true.mpr ⟨_, hentry⟩
          obtain ⟨hle, hrest⟩ := ih _ (hm ▸ InMemLog.size_remove_lt hkey) hok rfl
          refine ⟨by omega, fun k => ?_⟩
          rw [hrest k]
          by_cases hk : k = n
          · subst hk
            rw [if_neg (by omega), InMemLog.entry_remove_self, if_pos ⟨le_rfl, by omega⟩]
          · rw [InMemLog.entry_remove_of_ne _ hk]
            by_cases hnk : n + 1 ≤ k
            · simp only [hnk, show n ≤ k by omega, true_and]
            · rw [if_neg (by omega), if_neg (by omega)]
        · cases hok
      · obtain rfl := Except.ok.inj hok
        exact ⟨le_rfl, hstay⟩

/-- A cleanup that does not move `last_cleanup` removes nothing. -/
theorem cleanupLog_eq_of_lastCleanup_eq {raftLog : InMemLog} {n : ℤ} {s : State}
    {r : (InMemLog × ℤ) × List Line} (hok : cleanupLog raftLog n s = .ok r) (h : r.1.2 = n) :
    r.1.1 = raftLog := by
  apply InMemLog.ext_entry
  intro k
  rw [(cleanupLog_spec hok).2 k, h, if_neg (by omega)]

/-- The cleanup loop returns, stops right behind the commit index and removes exactly the keys from
`c + 1` up to it. -/
def CleansUp (raftLog : InMemLog) (c : ℤ) (s : State) : Prop :=
  ∃ raftLog' lines, cleanupLog raftLog (c + 1) s = .ok ((raftLog', s.cmtIdx + 1), lines) ∧
    ∀ k, raftLog'.entry k = if c < k ∧ k ≤ s.cmtIdx then none else raftLog.entry k

/-- After consecutive committed keys up to the commit index, with less or more than `kNodesSize`
acknowledgements at the next one, the cleanup loop stops right behind the commit index. -/
theorem lastCleanup_cleanupLog {raftLog : InMemLog} {c : ℤ} {s : State} (hle : c ≤ s.cmtIdx)
    (hlt : s.cmtIdx < intMax) (hkeys : ∀ i, c < i → i ≤ s.cmtIdx → raftLog.hasKey i = true)
    (hstop : ∀ vector, raftLog.entry (s.cmtIdx + 1) = some vector → vector.length ≠ kNodesSize) :
    ∃ r, cleanupLog raftLog (c + 1) s = .ok r ∧ r.1.2 = s.cmtIdx + 1 := by
  obtain ⟨d, hd⟩ : ∃ d : ℕ, s.cmtIdx = c + d := ⟨(s.cmtIdx - c).toNat, by omega⟩
  induction d generalizing raftLog c with
  | zero =>
    have hc : c = s.cmtIdx := by omega
    rw [hc]
    cases hentry : raftLog.entry (s.cmtIdx + 1) with
    | none =>
      exact ⟨_, cleanupLog_of_not_hasKey (InMemLog.hasKey_eq_false.mpr hentry) s, rfl⟩
    | some vector =>
      have hsize := hstop vector hentry
      rw [cleanupLog_of_entry hentry, if_neg (by omega)]
      exact ⟨_, rfl, rfl⟩
  | succ d ih =>
    obtain ⟨vector, hentry⟩ := InMemLog.hasKey_eq_true.mp (hkeys (c + 1) (by omega) (by omega))
    rw [cleanupLog_of_entry hentry, if_pos (Or.inr (by omega)), if_pos (by omega)]
    refine ih (by omega) (fun i hci his => ?_) (fun vector hvector => ?_) (by omega)
    · exact (raftLog.hasKey_remove _ _).mpr ⟨by omega, hkeys i (by omega) his⟩
    · rw [InMemLog.entry_remove_of_ne _ (by omega)] at hvector
      exact hstop vector hvector

/-- A cleanup that stops right behind the commit index removes exactly the newly committed keys. -/
theorem cleansUp {raftLog : InMemLog} {c : ℤ} {s : State} (hle : c ≤ s.cmtIdx)
    (hlt : s.cmtIdx < intMax) (hkeys : ∀ i, c < i → i ≤ s.cmtIdx → raftLog.hasKey i = true)
    (hstop : ∀ vector, raftLog.entry (s.cmtIdx + 1) = some vector → vector.length ≠ kNodesSize) :
    CleansUp raftLog c s := by
  obtain ⟨⟨⟨raftLog', last⟩, lines⟩, hok, hlast⟩ := lastCleanup_cleanupLog hle hlt hkeys hstop
  obtain rfl : last = s.cmtIdx + 1 := hlast
  refine ⟨raftLog', lines, hok, fun k => ?_⟩
  have hrange : c + 1 ≤ k ∧ k < s.cmtIdx + 1 ↔ c < k ∧ k ≤ s.cmtIdx := by omega
  rw [(cleanupLog_spec hok).2 k, if_congr hrange rfl rfl]

/-- Cleanup stops right behind the index to which the commit loop has walked. -/
theorem CommitWalk.cleansUp {raftLog : InMemLog} {c prevNode : ℤ} {s : State}
    (hwalk : CommitWalk raftLog c prevNode s) (hlt : s.cmtIdx < intMax)
    (hne : ∀ k, raftLog.entry k ≠ some []) : CleansUp raftLog c s := by
  refine Leader.cleansUp hwalk.le hlt (fun i hci his => ?_) (fun vector hvector => ?_)
  · obtain ⟨node, rest, hentry, -⟩ := hwalk.passed i hci his
    exact InMemLog.hasKey_eq_true.mpr ⟨_, hentry⟩
  · cases vector with
    | nil => exact absurd hvector (hne _)
    | cons node rest => exact (hwalk.stop node rest hvector).1

/-- Logging an acknowledgement appends it, whichever branch is taken. -/
theorem logAck_result (st : Receiver) (ackId nodeId : ℤ) :
    (logAck st ackId nodeId).result = .ok (st.raftLog.append ackId nodeId) := by
  unfold logAck
  split <;> simp [InMemLog.insert_eq_append]

/-- Logging an acknowledgement emits one event with its index and node id. -/
theorem logAck_trace (st : Receiver) (ackId nodeId : ℤ) :
    (logAck st ackId nodeId).trace = [.logInsert ackId nodeId] ∨
      (logAck st ackId nodeId).trace = [.logAppend ackId nodeId] := by
  unfold logAck
  split
  · exact Or.inl rfl
  · exact Or.inr rfl

/-- An iteration on an acknowledgement logs that acknowledgement and then only prints. -/
theorem onAck_trace (st : Receiver) (ackId nodeId : ℤ) :
    ∃ lines, (onAck st ackId nodeId).trace =
      (logAck st ackId nodeId).trace ++ List.map Event.print lines := by
  rw [onAck, Traced.bind_of_ok (logAck_result st ackId nodeId)]
  cases hcommit : iterateLogAndCommit (st.raftLog.append ackId nodeId) st.s with
  | error e => exact ⟨[], rfl⟩
  | ok r =>
    change ∃ lines, _ ++ Traced.trace (Traced.lift (cleanupLog r.1 st.lastCleanup r.2) >>= _) = _
    cases cleanupLog r.1 st.lastCleanup r.2 with
    | error e => exact ⟨[], rfl⟩
    | ok cleaned => exact ⟨cleaned.2, by simp⟩

/-- An iteration on an acknowledgement logs exactly that acknowledgement. -/
theorem loggedEntries_onAck (st : Receiver) (ackId nodeId : ℤ) :
    loggedEntries (onAck st ackId nodeId).trace = [(ackId, nodeId)] := by
  obtain ⟨lines, htrace⟩ := onAck_trace st ackId nodeId
  rw [htrace, loggedEntries_append, loggedEntries_map_print]
  rcases logAck_trace st ackId nodeId with h | h <;> rw [h] <;> rfl

/-- An iteration on an acknowledgement returns when its two loops do. -/
theorem onAck_result_of_commit {st : Receiver} {ackId nodeId : ℤ} {raftLog raftLog' : InMemLog}
    {s : State} {lastCleanup : ℤ} {lines : List Line}
    (hcommit : iterateLogAndCommit (st.raftLog.append ackId nodeId) st.s = .ok (raftLog, s))
    (hcleanup : cleanupLog raftLog st.lastCleanup s = .ok ((raftLog', lastCleanup), lines)) :
    (onAck st ackId nodeId).result = .ok ⟨s, raftLog', lastCleanup⟩ := by
  rw [onAck, Traced.bind_of_ok (logAck_result st ackId nodeId), hcommit]
  change Traced.result (Traced.lift (cleanupLog raftLog st.lastCleanup s) >>= _) = _
  rw [hcleanup]
  rfl

/-- It faults when its commit loop does. -/
theorem onAck_result_of_error {st : Receiver} {ackId nodeId : ℤ} {e : Fault}
    (hcommit : iterateLogAndCommit (st.raftLog.append ackId nodeId) st.s = .error e) :
    (onAck st ackId nodeId).result = .error e := by
  rw [onAck, Traced.bind_of_ok (logAck_result st ackId nodeId), hcommit]
  rfl

/-- If it returns, both loops have returned. -/
theorem exists_of_onAck_result {st st' : Receiver} {ackId nodeId : ℤ}
    (hok : (onAck st ackId nodeId).result = .ok st') : ∃ raftLog lines,
      iterateLogAndCommit (st.raftLog.append ackId nodeId) st.s = .ok (raftLog, st'.s) ∧
      cleanupLog raftLog st.lastCleanup st'.s =
        .ok ((st'.raftLog, st'.lastCleanup), lines) := by
  cases hcommit : iterateLogAndCommit (st.raftLog.append ackId nodeId) st.s with
  | error e =>
    rw [onAck_result_of_error hcommit] at hok
    cases hok
  | ok committed =>
    obtain ⟨raftLog, s⟩ := committed
    cases hcleanup : cleanupLog raftLog st.lastCleanup s with
    | error e =>
      rw [onAck, Traced.bind_of_ok (logAck_result st ackId nodeId), hcommit] at hok
      change Traced.result (Traced.lift (cleanupLog raftLog st.lastCleanup s) >>= _) = _ at hok
      rw [hcleanup] at hok
      cases hok
    | ok cleaned =>
      obtain ⟨⟨raftLog', lastCleanup⟩, lines⟩ := cleaned
      rw [onAck_result_of_commit hcommit hcleanup] at hok
      obtain rfl := Except.ok.inj hok
      exact ⟨raftLog, lines, rfl, hcleanup⟩

/-- On a body long enough to hold a tag and two `int`s, an iteration of `receiver` handles the
acknowledgement in it, whether or not the tag is right. -/
theorem receiverBody_of_le {h : Hmac} {st : Receiver} {body : List UInt8}
    {hlt : body.length < 2 ^ 32} (hlen : 40 ≤ body.length) (hsmall : body.length < 2 ^ 31) :
    receiverBody h st (.body body hlt) =
      (⟨readTrace h body, .ok ()⟩ : Exec Unit) >>= fun _ =>
        onAck st (bodyId body) (bodyNodeId body) >>= fun st => pure (.next st) := by
  have hcast : ¬ castInt body.length ≤ 0 := by
    rw [castInt_le_zero_iff hlt]
    omega
  simp [receiverBody, RecvResult.buffer, RecvResult.bytecount,
    verifyAttestedMsg_of_le (show 32 ≤ body.length by omega) hlt, hcast, extract_of_le hlen,
    readTrace]

/-- Every vector above an index starts with the node id `q`. -/
def FromNode (q c : ℤ) (raftLog : InMemLog) : Prop :=
  ∀ k vector, c < k → raftLog.entry k = some vector → ∃ rest, vector = q :: rest

/-- While all acknowledgements come from one node and none is of `INT_MAX`, the commit loop walks to
the first missing index and remembers no other node. -/
theorem iterateLogAndCommit_fromNode {raftLog : InMemLog} {c q prevNode : ℤ}
    (hfrom : FromNode q c raftLog) (hprev : prevNode = -1 ∨ prevNode = q)
    (hmax : ∀ k, intMax ≤ k → raftLog.entry k = none) (hc : c < intMax) :
    ∃ s, iterateLogAndCommit raftLog ⟨c, prevNode⟩ = .ok (raftLog, s) ∧ s.cmtIdx < intMax ∧
      Advances {k | raftLog.hasKey k = true} c s.cmtIdx ∧
      (s.lastCmtNode = -1 ∨ s.lastCmtNode = q) := by
  have hne (k : ℤ) (hk : c < k) : raftLog.entry k ≠ some [] := by
    intro hnil
    obtain ⟨rest, hrest⟩ := hfrom k [] hk hnil
    cases hrest
  obtain ⟨s, hwalk, hs, hrun⟩ :=
    iterateLogAndCommit_walk hne (fun k hk => hmax k hk.le) hc.le prevNode
  have hlt : s.cmtIdx < intMax := by
    by_contra hge
    obtain ⟨node, rest, hentry, -⟩ := hwalk.passed intMax hc (by omega)
    rw [hmax intMax le_rfl] at hentry
    cases hentry
  rw [if_pos hlt] at hrun
  have hlast : s.lastCmtNode = -1 ∨ s.lastCmtNode = q := by
    rcases hwalk.last with hlast | ⟨-, i, rest, hci, -, hentry, -⟩
    · rwa [hlast]
    · obtain ⟨rest', hrest⟩ := hfrom i _ hci hentry
      exact Or.inr (List.cons.inj hrest).1
  refine ⟨s, hrun, hlt, ⟨hwalk.le, fun i hci his => ?_, fun hnext => ?_⟩, hlast⟩
  · obtain ⟨node, rest, hentry, -⟩ := hwalk.passed i hci his
    exact InMemLog.hasKey_eq_true.mpr ⟨_, hentry⟩
  · obtain ⟨vector, hentry⟩ := InMemLog.hasKey_eq_true.mp hnext
    have hle := hwalk.le
    obtain ⟨rest, rfl⟩ := hfrom _ vector (by omega) hentry
    obtain ⟨-, hneg, hne⟩ := hwalk.stop q rest hentry
    exact hlast.elim hneg hne

/-- The local variables are those after acknowledgements of exactly the indices in `A`, all
from the node `q`. -/
structure Represents (q : ℤ) (A : Set ℤ) (st : Receiver) : Prop where
  /-- No addition has come to `INT_MAX`. -/
  lt : ∀ k ∈ A, k < intMax
  /-- The commit index is the frontier. -/
  frontier : IsFrontier A st.s.cmtIdx
  /-- Above the commit index the keys of the log are the indices acknowledged. -/
  hasKey_iff : ∀ k, st.s.cmtIdx < k → (st.raftLog.hasKey k = true ↔ k ∈ A)
  /-- Every vector starts with the node. -/
  fromNode : ∀ c, FromNode q c st.raftLog
  /-- No other node is remembered. -/
  lastCmtNode : st.s.lastCmtNode = -1 ∨ st.s.lastCmtNode = q
  /-- Cleanup has reached the index after the commit index. -/
  lastCleanup_eq : st.lastCleanup = st.s.cmtIdx + 1

/-- Nothing has been acknowledged before the loop. -/
theorem Represents.init (q : ℤ) : Represents q ∅ Receiver.init :=
  ⟨fun _ hk => absurd hk (Set.notMem_empty _), IsFrontier.empty, fun k _ => by simp [Receiver.init],
    fun c k vector _ h => by simp [Receiver.init] at h, Or.inl rfl, rfl⟩

/-- Appending an acknowledgement of the node keeps every vector starting with it. -/
theorem FromNode.append {q c : ℤ} {raftLog : InMemLog} (h : FromNode q c raftLog) (ackId : ℤ) :
    FromNode q c (raftLog.append ackId q) := by
  intro k vector hk hentry
  by_cases hka : k = ackId
  · subst hka
    rw [InMemLog.entry_append_self, Option.some.injEq] at hentry
    cases hold : raftLog.entry k with
    | none => exact ⟨[], by simpa [hold] using hentry.symm⟩
    | some old =>
      obtain ⟨rest, rfl⟩ := h k old hk hold
      exact ⟨rest ++ [q], by simpa [hold] using hentry.symm⟩
  · rw [InMemLog.entry_append_of_ne _ hka] at hentry
    exact h k vector hk hentry

/-- The commit index is less than `INT_MAX`. -/
theorem Represents.cmtIdx_lt {q : ℤ} {A : Set ℤ} {st : Receiver} (hst : Represents q A st) :
    st.s.cmtIdx < intMax := by
  have hle := hst.frontier.le_of_forall_le (b := intMax - 1) (by decide) fun k hk =>
    Int.le_sub_one_of_lt (hst.lt k hk)
  omega

/-- Above the commit index the log has no key that has not been acknowledged. -/
theorem Represents.entry_append_eq_none {q : ℤ} {A : Set ℤ} {st : Receiver}
    (hst : Represents q A st) {ackId k : ℤ} (hack : ackId < intMax) (hk : intMax ≤ k) :
    (st.raftLog.append ackId q).entry k = none := by
  have hcmt := hst.cmtIdx_lt
  rw [InMemLog.entry_append_of_ne _ (by omega), ← InMemLog.hasKey_eq_false, Bool.eq_false_iff, Ne,
    hst.hasKey_iff k (by omega)]
  intro hmem
  have hlt := hst.lt k hmem
  omega

/-- One iteration adds the acknowledgement to the set: it does not fault, the commit index does
not go down, and exactly the newly committed keys are removed from the log. -/
theorem Represents.onAck {q : ℤ} {A : Set ℤ} {st : Receiver} (hst : Represents q A st)
    {ackId : ℤ} (hack : ackId < intMax) :
    ∃ st', (onAck st ackId q).result = .ok st' ∧ Represents q (insert ackId A) st' ∧
      st.s.cmtIdx ≤ st'.s.cmtIdx ∧
      ∀ k, st'.raftLog.entry k =
        if st.s.cmtIdx < k ∧ k ≤ st'.s.cmtIdx then none
        else (st.raftLog.append ackId q).entry k := by
  obtain ⟨s, hcommit, hlt, hwalk, hnode⟩ :=
    iterateLogAndCommit_fromNode ((hst.fromNode st.s.cmtIdx).append ackId) hst.lastCmtNode
      (fun k hk => hst.entry_append_eq_none hack hk) hst.cmtIdx_lt
  obtain ⟨raftLog, lines, hcleanup, hentry⟩ := cleansUp hwalk.le hlt hwalk.mem fun vector hnext =>
    absurd (InMemLog.hasKey_eq_true.mpr ⟨vector, hnext⟩) hwalk.next_notMem
  have hkeys (k : ℤ) (hk : st.s.cmtIdx < k) :
      (st.raftLog.append ackId q).hasKey k = true ↔ k ∈ insert ackId A := by
    rw [InMemLog.hasKey_append, hst.hasKey_iff k hk, Set.mem_insert_iff]
  have hle := hwalk.le
  rw [← hst.lastCleanup_eq] at hcleanup
  refine ⟨_, onAck_result_of_commit hcommit hcleanup, ⟨?_, ?_, ?_, ?_, hnode, rfl⟩, hle, hentry⟩
  · rintro k (rfl | hk)
    · exact hack
    · exact hst.lt k hk
  · apply hst.frontier.advance (Set.subset_insert _ _)
    constructor
    · exact hle
    · intro i hci hid
      exact (hkeys i hci).mp (hwalk.mem i hci hid)
    · exact fun hnext => hwalk.next_notMem ((hkeys _ (by omega)).mpr hnext)
  · intro k hk
    change s.cmtIdx < k at hk
    rw [InMemLog.hasKey, hentry k, if_neg (by omega)]
    exact hkeys k (by omega)
  · intro c k vector hck hvector
    rw [hentry k] at hvector
    split at hvector
    · cases hvector
    · exact (hst.fromNode c).append ackId k vector hck hvector

end TeeReplication.Raft.Leader
