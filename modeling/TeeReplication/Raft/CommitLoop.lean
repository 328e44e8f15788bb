import Mathlib.Order.Bounds.Basic
import TeeReplication.Raft.LeaderSemantics

/-!
# The meaning of the commit loop

The leader's commit loop moves the commit index as far as the entries of the log are
consecutive and those without exactly `kNodesSize` acknowledgements share one first
acknowledger, the remembered node if there is one. It finds this index in one walk, and
a second call finds nothing more.
-/

namespace TeeReplication.Raft.Leader

/-- The indices after the commit index up to `c` are all in the log, and one node, the remembered
one if there is one, is the first acknowledger of those without `kNodesSize` acknowledgements. -/
structure Committable (raftLog : InMemLog) (s : State) (c : ℤ) : Prop where
  /-- The commit index does not go down. -/
  le : s.cmtIdx ≤ c
  /-- The node. -/
  chain : ∃ q, (s.lastCmtNode ≠ -1 → q = s.lastCmtNode) ∧
    ∀ i, s.cmtIdx < i → i ≤ c → ∃ node rest, raftLog.entry i = some (node :: rest) ∧
      ((node :: rest).length ≠ kNodesSize → node = q)

variable {raftLog : InMemLog} {s s' : State}

/-- On a log without the node `-1`, a commit loop that has walked to `s'` has passed only entries
of the node it remembers then. -/
theorem CommitWalk.eq_last (hwalk : CommitWalk raftLog s.cmtIdx s.lastCmtNode s')
    (hacker : ∀ k vector, raftLog.entry k = some vector → (-1) ∉ vector) {i node : ℤ}
    {rest : List ℤ} (hci : s.cmtIdx < i) (his : i ≤ s'.cmtIdx)
    (hentry : raftLog.entry i = some (node :: rest))
    (hsize : (node :: rest).length ≠ kNodesSize) : node = s'.lastCmtNode := by
  obtain ⟨node', rest', hentry', hnode⟩ := hwalk.passed i hci his
  rw [hentry, Option.some.injEq, List.cons.injEq] at hentry'
  obtain ⟨rfl, rfl⟩ := hentry'
  rcases hnode hsize with hnode | hnode
  · exact hnode
  · have hmem : (-1) ∈ node :: rest := hnode ▸ List.mem_cons_self
    exact absurd hmem (hacker i _ hentry)

/-- Where the commit loop stops, nothing more can be committed. -/
theorem CommitWalk.le_of_committable (hwalk : CommitWalk raftLog s.cmtIdx s.lastCmtNode s')
    {c : ℤ} (hc : Committable raftLog s c) : c ≤ s'.cmtIdx := by
  by_contra hlt
  have hle := hwalk.le
  obtain ⟨q, hq, hchain⟩ := hc.chain
  obtain ⟨node, rest, hentry, hnode⟩ := hchain (s'.cmtIdx + 1) (by omega) (by omega)
  obtain ⟨hsize, hneg, hne⟩ := hwalk.stop node rest hentry
  apply hne
  rw [hnode hsize]
  rcases hwalk.last with hlast | ⟨hprev, i, rest', hci, his, hentry', hsize'⟩
  · rw [hlast] at hneg ⊢
    exact (hq hneg).symm
  · -- the remembered node was taken over from an entry on the way, which has the same first one
    obtain ⟨node', rest'', hentry'', hnode'⟩ := hchain i hci (by omega)
    rw [hentry', Option.some.injEq, List.cons.injEq] at hentry''
    obtain ⟨rfl, rfl⟩ := hentry''
    exact hnode' hsize'

/-- Where the commit loop stops, it stops again at once. -/
theorem CommitWalk.commitFrom_eq {c prevNode : ℤ} (hwalk : CommitWalk raftLog c prevNode s')
    (hlt : s'.cmtIdx < intMax) (hne : raftLog.entry (s'.cmtIdx + 1) ≠ some []) :
    iterateLogAndCommit raftLog s' = .ok (raftLog, s') := by
  have hback : s'.cmtIdx + 1 - 1 = s'.cmtIdx := by omega
  rw [iterateLogAndCommit_of_lt hlt]
  cases hentry : raftLog.entry (s'.cmtIdx + 1) with
  | none => rw [commitFrom_of_not_hasKey (InMemLog.hasKey_eq_false.mpr hentry), hback]
  | some vector =>
    cases vector with
    | nil => exact absurd hentry hne
    | cons node rest =>
      obtain ⟨hsize, hneg, hnode⟩ := hwalk.stop node rest hentry
      rw [commitFrom_of_cons hentry hsize, if_neg (by rw [not_or]; exact ⟨hneg, hnode⟩), hback]

/-- With keys below `INT_MAX` only, the walk does not come to `INT_MAX`. -/
theorem CommitWalk.lt_intMax {c prevNode : ℤ} (hwalk : CommitWalk raftLog c prevNode s')
    (hkeys : ∀ k, raftLog.hasKey k = true → k < intMax) (hc : c < intMax) :
    s'.cmtIdx < intMax := by
  by_cases hmoved : c < s'.cmtIdx
  · obtain ⟨node, rest, hentry, -⟩ := hwalk.passed s'.cmtIdx hmoved le_rfl
    exact hkeys _ (InMemLog.hasKey_eq_true.mpr ⟨_, hentry⟩)
  · omega

/-- On a log with indices below `INT_MAX` whose vectors are not empty and do not contain `-1`, the
commit loop returns, leaves the log alone and moves the commit index to the largest one that can be
committed. It remembers the first acknowledger of the entries passed without
`kNodesSize` acknowledgements if it remembered none, and what it remembered otherwise, and a second
call changes nothing. -/
theorem iterateLogAndCommit_isGreatest (hne : ∀ k, raftLog.entry k ≠ some [])
    (hacker : ∀ k vector, raftLog.entry k = some vector → (-1) ∉ vector)
    (hkeys : ∀ k, raftLog.hasKey k = true → k < intMax) (s : State) (hs : s.cmtIdx < intMax) :
    ∃ s', iterateLogAndCommit raftLog s = .ok (raftLog, s') ∧
      IsGreatest {c | Committable raftLog s c} s'.cmtIdx ∧
      (s.lastCmtNode = -1 → ∀ i node rest, s.cmtIdx < i → i ≤ s'.cmtIdx →
        raftLog.entry i = some (node :: rest) → (node :: rest).length ≠ kNodesSize →
        s'.lastCmtNode = node) ∧
      ((s.lastCmtNode ≠ -1 ∨ ∀ i vector, s.cmtIdx < i → i ≤ s'.cmtIdx →
        raftLog.entry i = some vector → vector.length = kNodesSize) →
        s'.lastCmtNode = s.lastCmtNode) ∧
      iterateLogAndCommit raftLog s' = .ok (raftLog, s') := by
  have hmax (k : ℤ) (hk : intMax < k) : raftLog.entry k = none := by
    rw [← InMemLog.hasKey_eq_false, Bool.eq_false_iff]
    exact fun hkey => absurd (hkeys k hkey) (by omega)
  obtain ⟨s', hwalk, -, hrun⟩ :=
    iterateLogAndCommit_walk (c := s.cmtIdx) (fun k _ => hne k) hmax hs.le s.lastCmtNode
  have hlt := hwalk.lt_intMax hkeys hs
  have hok : iterateLogAndCommit raftLog s = .ok (raftLog, s') := hrun.trans (if_pos hlt)
  refine ⟨s', hok, ⟨⟨hwalk.le, s'.lastCmtNode, ?_, ?_⟩, fun c => hwalk.le_of_committable⟩, ?_, ?_,
    hwalk.commitFrom_eq hlt (hne _)⟩
  · intro hneg
    rcases hwalk.last with hlast | ⟨hprev, -⟩
    · exact hlast
    · exact absurd hprev hneg
  · intro i hci his
    obtain ⟨node, rest, hentry, -⟩ := hwalk.passed i hci his
    exact ⟨node, rest, hentry, hwalk.eq_last hacker hci his hentry⟩
  · intro _ i node rest hci his hentry hsize
    exact (hwalk.eq_last hacker hci his hentry hsize).symm
  · intro hkeep
    rcases hwalk.last with hlast | ⟨hprev, i, rest, hci, his, hentry, hsize⟩
    · exact hlast
    · rcases hkeep with hneg | hfull
      · exact absurd hprev hneg
      · exact absurd (hfull i _ hci his hentry) hsize

/-- The commit loop on a log in which node `1` has acknowledged index `0` and node `2` index `1`
moves the commit index to `0`, which is the largest one that can be committed. -/
theorem iterateLogAndCommit_isGreatest_two_nodes :
    iterateLogAndCommit ((InMemLog.empty.append 0 1).append 1 2) .init =
        .ok ((InMemLog.empty.append 0 1).append 1 2, ⟨0, 1⟩) ∧
      IsGreatest {c | Committable ((InMemLog.empty.append 0 1).append 1 2) .init c} 0 := by
  have hrun : iterateLogAndCommit ((InMemLog.empty.append 0 1).append 1 2) .init =
      .ok ((InMemLog.empty.append 0 1).append 1 2, ⟨0, 1⟩) := by decide +kernel
  have hentry (k : ℤ) (vector : List ℤ)
      (h : ((InMemLog.empty.append 0 1).append 1 2).entry k = some vector) :
      k = 0 ∧ vector = [1] ∨ k = 1 ∧ vector = [2] := by
    by_cases h1 : k = 1
    · subst h1
      exact Or.inr ⟨rfl, Option.some.inj (h.symm.trans (by decide +kernel))⟩
    · by_cases h0 : k = 0
      · subst h0
        exact Or.inl ⟨rfl, Option.some.inj (h.symm.trans (by decide +kernel))⟩
      · rw [InMemLog.entry_append_of_ne _ h1, InMemLog.entry_append_of_ne _ h0,
          InMemLog.entry_empty] at h
        cases h
  have hne (k : ℤ) : ((InMemLog.empty.append 0 1).append 1 2).entry k ≠ some [] := by
    intro h
    rcases hentry k [] h with ⟨-, h⟩ | ⟨-, h⟩ <;> cases h
  have hkeys (k : ℤ) (hkey : ((InMemLog.empty.append 0 1).append 1 2).hasKey k = true) :
      k < intMax := by
    obtain ⟨vector, h⟩ := InMemLog.hasKey_eq_true.mp hkey
    rcases hentry k vector h with ⟨rfl, -⟩ | ⟨rfl, -⟩ <;> decide
  obtain ⟨s', hok, hgreatest, -⟩ := iterateLogAndCommit_isGreatest hne
    (fun k vector h => by rcases hentry k vector h with ⟨-, rfl⟩ | ⟨-, rfl⟩ <;> decide) hkeys
    .init (by decide)
  rw [hrun] at hok
  obtain ⟨-, rfl⟩ := Prod.mk.inj (Except.ok.inj hok)
  exact ⟨hrun, hgreatest⟩

end TeeReplication.Raft.Leader
