import TeeReplication.Raft.AckHistory
import TeeReplication.Raft.Cluster

/-!
# Votes of two followers

The leader's receive step takes the length of a vector for the number of followers that
have acknowledged an index, so an acknowledgement that comes twice counts as one of each
follower. Its commit decision is therefore a function of the set of acknowledgements only
where one follower alone can decide it.
-/

namespace TeeReplication.Raft.Leader

/-- The receive step of the leader on acknowledgements, one after another. -/
def receiveSteps (st : Receiver) : List (ℤ × ℤ) → Exec Receiver
  | [] => pure st
  | (ackId, nodeId) :: rest => do
    let st ← onAck st ackId nodeId
    receiveSteps st rest

/-- Acknowledgements of the two followers with the node ids in them. -/
def keyed (acks : List (ℤ × FollowerId)) : List (ℤ × ℤ) := acks.map fun a => (a.1, a.2.key)

/-- `s.cmt_idx` after acknowledgements of the two followers. -/
def finalCmtIdx (acks : List (ℤ × FollowerId)) : Except Fault ℤ :=
  (receiveSteps .init (keyed acks)).result.map fun st => st.s.cmtIdx

/-- Every index from zero to `k` has been acknowledged. -/
def GapFree (acks : List (ℤ × FollowerId)) (k : ℤ) : Prop :=
  0 ≤ k ∧ ∀ i, 0 ≤ i → i ≤ k → ∃ f, (i, f) ∈ acks

/-- The followers have different node ids, and neither of them is `-1`. -/
theorem key_injective {f g : FollowerId} (h : f.key = g.key) : f = g := by
  cases f <;> cases g <;> first | rfl | exact absurd h (by decide)

theorem key_ne_neg_one (f : FollowerId) : f.key ≠ -1 := by
  cases f <;> decide

@[simp] theorem mem_keyed {acks : List (ℤ × FollowerId)} {k : ℤ} {f : FollowerId} :
    (k, f.key) ∈ keyed acks ↔ (k, f) ∈ acks := by
  constructor
  · intro h
    obtain ⟨⟨i, g⟩, hmem, heq⟩ := List.mem_map.mp h
    obtain ⟨rfl, hkey⟩ := Prod.mk.inj heq
    rwa [← key_injective hkey]
  · exact fun h => List.mem_map.mpr ⟨_, h, rfl⟩

/-- Every node id in the acknowledgements is that of a follower. -/
theorem exists_of_mem_keyed {acks : List (ℤ × FollowerId)} {k nodeId : ℤ}
    (h : (k, nodeId) ∈ keyed acks) : ∃ f : FollowerId, nodeId = f.key ∧ (k, f) ∈ acks := by
  obtain ⟨⟨i, f⟩, hmem, heq⟩ := List.mem_map.mp h
  obtain ⟨rfl, rfl⟩ := Prod.mk.inj heq
  exact ⟨f, rfl, hmem⟩

theorem keyed_append (acks acks' : List (ℤ × FollowerId)) :
    keyed (acks ++ acks') = keyed acks ++ keyed acks' := List.map_append

/-- More acknowledgements are of no fewer indices. -/
theorem AllAcked.append {acks : List (ℤ × ℤ)} (hall : AllAcked acks) (rest : List (ℤ × ℤ)) :
    AllAcked (acks ++ rest) := by
  intro i hi hle
  obtain ⟨nodeId, hmem⟩ := hall i hi hle
  exact ⟨nodeId, List.mem_append_left _ hmem⟩

/-- What holds at the start and is kept by every receive step holds after all of them, unless one
of them overflows, after acknowledgements for which `E` holds. -/
theorem receiveSteps_induction {P : List (ℤ × ℤ) → Receiver → Prop} {E : List (ℤ × ℤ) → Prop}
    (happend : ∀ acks rest, E acks → E (acks ++ rest))
    (hstep : ∀ acks st ackId nodeId, ackId ≤ intMax → Sound acks st → P acks st →
      (∃ st', AckStep st ackId nodeId st' ∧ P (acks ++ [(ackId, nodeId)]) st') ∨
        iterateLogAndCommit (st.raftLog.append ackId nodeId) st.s = .error .overflow ∧
          E (acks ++ [(ackId, nodeId)]))
    {acks : List (ℤ × ℤ)} {st : Receiver} (hst : Sound acks st) (hP : P acks st)
    (rest : List (ℤ × ℤ)) (hrest : ∀ a ∈ rest, a.1 ≤ intMax) :
    (∃ st', (receiveSteps st rest).result = .ok st' ∧ Sound (acks ++ rest) st' ∧
      P (acks ++ rest) st') ∨
      (receiveSteps st rest).result = .error .overflow ∧ E (acks ++ rest) := by
  induction rest generalizing acks st with
  | nil => exact Or.inl ⟨st, rfl, by rwa [List.append_nil], by rwa [List.append_nil]⟩
  | cons a rest ih =>
    obtain ⟨ackId, nodeId⟩ := a
    have hid := hrest _ List.mem_cons_self
    rw [List.append_cons, receiveSteps]
    rcases hstep acks st ackId nodeId hid hst hP with ⟨st₁, hack, hP₁⟩ | ⟨hcommit, hE⟩
    · rw [Traced.bind_of_ok hack.result]
      exact ih (hst.step hid hack) hP₁ fun a ha => hrest a (List.mem_cons_of_mem _ ha)
    · rw [Traced.bind_of_error (onAck_result_of_error hcommit)]
      exact Or.inr ⟨rfl, happend _ rest hE⟩

/-- More receive steps go on from where the first ones ended. -/
theorem receiveSteps_append {acks : List (ℤ × ℤ)} {st st' : Receiver}
    (hok : (receiveSteps st acks).result = .ok st') (rest : List (ℤ × ℤ)) :
    (receiveSteps st (acks ++ rest)).result = (receiveSteps st' rest).result := by
  induction acks generalizing st with
  | nil =>
    cases hok
    rfl
  | cons a acks ih =>
    obtain ⟨ackId, nodeId⟩ := a
    obtain ⟨st₁, hack, hrest⟩ := Traced.bind_result_eq_ok.mp hok
    rw [List.cons_append, receiveSteps, Traced.bind_of_ok hack]
    exact ih hrest

/-- A fault of the first receive steps is one of all. -/
theorem receiveSteps_append_of_error {acks : List (ℤ × ℤ)} {st : Receiver} {e : Fault}
    (herror : (receiveSteps st acks).result = .error e) (rest : List (ℤ × ℤ)) :
    (receiveSteps st (acks ++ rest)).result = .error e := by
  induction acks generalizing st with
  | nil => cases herror
  | cons a acks ih =>
    obtain ⟨ackId, nodeId⟩ := a
    rw [List.cons_append, receiveSteps]
    rw [receiveSteps] at herror
    cases hack : (onAck st ackId nodeId).result with
    | ok st₁ =>
      rw [Traced.bind_of_ok hack] at herror ⊢
      exact ih herror
    | error e' =>
      rw [Traced.bind_of_error hack] at herror ⊢
      exact herror

/-- The receive steps on the acknowledgements of a list. -/
theorem exists_receiveSteps {acks : List (ℤ × ℤ)} (hacks : ∀ a ∈ acks, a.1 ≤ intMax) :
    (∃ st, (receiveSteps .init acks).result = .ok st ∧ Sound acks st) ∨
      (receiveSteps .init acks).result = .error .overflow ∧ AllAcked acks := by
  rcases receiveSteps_induction (P := fun _ _ => True) (fun _ rest hall => hall.append rest)
    (fun _ _ _ nodeId hid hst _ => (hst.exists_ackStep_or hid nodeId).imp_left
      fun ⟨st', hstep⟩ => ⟨st', hstep, trivial⟩) .init trivial acks hacks with
    ⟨st, hok, hst, -⟩ | hfail
  · exact Or.inl ⟨st, hok, hst⟩
  · exact Or.inr hfail

/-- Acknowledgements of `int`s carry `int`s when keyed. -/
theorem le_intMax_of_mem_keyed {acks : List (ℤ × FollowerId)} (hids : ∀ a ∈ acks, IsInt a.1)
    {a : ℤ × ℤ} (ha : a ∈ keyed acks) : a.1 ≤ intMax := by
  obtain ⟨b, hb, rfl⟩ := List.mem_map.mp ha
  exact Int.le_sub_one_of_lt (hids b hb).2

theorem finalCmtIdx_eq {acks : List (ℤ × FollowerId)} {st : Receiver}
    (hok : (receiveSteps .init (keyed acks)).result = .ok st) :
    finalCmtIdx acks = .ok st.s.cmtIdx := by
  rw [finalCmtIdx, hok]
  rfl

theorem finalCmtIdx_eq_error {acks : List (ℤ × FollowerId)} {e : Fault}
    (herror : (receiveSteps .init (keyed acks)).result = .error e) :
    finalCmtIdx acks = .error e := by
  rw [finalCmtIdx, herror]
  rfl

section Agreement

variable {acks acks' : List (ℤ × FollowerId)} {st st' : Receiver} {k : ℤ}

/-- A shorter initial run of indices. -/
theorem GapFree.mono (hgap : GapFree acks k) {i : ℤ} (hi : 0 ≤ i) (hik : i ≤ k) :
    GapFree acks i :=
  ⟨hi, fun j hj hji => hgap.2 j hj (hji.trans hik)⟩

/-- A run commits only what is reached without a gap. -/
theorem gapFree_of_le_cmtIdx (hsame : ∀ a, a ∈ acks' ↔ a ∈ acks) (hst : Sound (keyed acks') st)
    (hk : 0 ≤ k) (hle : k ≤ st.s.cmtIdx) : GapFree acks k := by
  refine ⟨hk, fun i hi hik => ?_⟩
  obtain ⟨nodeId, hmem⟩ := hst.acked i hi (by omega)
  obtain ⟨f, -, hf⟩ := exists_of_mem_keyed hmem
  exact ⟨f, (hsame _).mp hf⟩

/-- When every index has been acknowledged, each is reached without a gap. -/
theorem gapFree_of_allAcked (hsame : ∀ a, a ∈ acks' ↔ a ∈ acks) (hall : AllAcked (keyed acks'))
    (hk : 0 ≤ k) (hle : k ≤ intMax) : GapFree acks k := by
  refine ⟨hk, fun i hi hik => ?_⟩
  obtain ⟨nodeId, hmem⟩ := hall i hi (by omega)
  obtain ⟨f, -, hf⟩ := exists_of_mem_keyed hmem
  exact ⟨f, (hsame _).mp hf⟩

/-- Where one follower decides, a run commits all that is reached without a gap. -/
theorem not_gapFree_next
    (hone : ¬ GapFree acks 1 ∨ ∃ f, ∀ k g, (k, g) ∈ acks → GapFree acks k → g = f)
    (hsame : ∀ a, a ∈ acks' ↔ a ∈ acks) (hst : Sound (keyed acks') st) :
    ¬ GapFree acks (st.s.cmtIdx + 1) := by
  intro hgap
  -- it would stop at an entry whose first acknowledger is not the remembered node
  obtain ⟨f, hf⟩ := hgap.2 _ hgap.1 le_rfl
  obtain ⟨node, rest, hvotes, -, hne, i, hi, hic, hlast⟩ :=
    hst.exists_blocking (mem_keyed.mpr ((hsame _).mpr hf))
  obtain ⟨g, rfl, hg⟩ := exists_of_mem_keyed (mem_of_votes_eq_cons hvotes)
  obtain ⟨g', hlast', hg'⟩ := exists_of_mem_keyed hlast
  rcases hone with hshort | ⟨f, hone⟩
  · exact hshort (hgap.mono (by decide) (by omega))
  · rw [hlast', hone _ g' ((hsame _).mp hg') (hgap.mono hi (by omega)),
      hone _ g ((hsame _).mp hg) hgap] at hne
    exact hne rfl

/-- Where one follower decides, two runs on the same acknowledgements commit the same. -/
theorem cmtIdx_eq_of_same
    (hone : ¬ GapFree acks 1 ∨ ∃ f, ∀ k g, (k, g) ∈ acks → GapFree acks k → g = f)
    (hsame : ∀ a, a ∈ acks' ↔ a ∈ acks) (hst : Sound (keyed acks) st)
    (hst' : Sound (keyed acks') st') : st.s.cmtIdx = st'.s.cmtIdx := by
  have hlo := hst.neg_one_le
  have hlo' := hst'.neg_one_le
  rcases lt_trichotomy st.s.cmtIdx st'.s.cmtIdx with hlt | heq | hgt
  · exact absurd (gapFree_of_le_cmtIdx hsame hst' (by omega) (by omega))
      (not_gapFree_next hone (fun _ => Iff.rfl) hst)
  · exact heq
  · exact absurd (gapFree_of_le_cmtIdx (fun _ => Iff.rfl) hst (by omega) (by omega))
      (not_gapFree_next hone hsame hst')

end Agreement

section Blocking

variable {acks : List (ℤ × ℤ)} {st st' : Receiver} {ackId nodeId : ℤ}

/-- A commit loop that commits an index without `kNodesSize` votes remembers the first of them. -/
theorem Sound.eq_last (hst : Sound acks st) {s : State}
    (hwalk : CommitWalk (st.raftLog.append ackId nodeId) st.s.cmtIdx st.s.lastCmtNode s)
    {k node : ℤ} {rest : List ℤ} (hk : st.s.cmtIdx < k) (hle : k ≤ s.cmtIdx)
    (hvotes : votes (acks ++ [(ackId, nodeId)]) k = node :: rest)
    (hsize : (node :: rest).length ≠ kNodesSize) (hnode : node ≠ -1) : node = s.lastCmtNode := by
  obtain ⟨node', rest', hentry, hlast⟩ := hwalk.passed k hk hle
  have habove := hst.above_append ackId nodeId hk
  rw [hentry, hvotes, Option.getD_some, List.cons.injEq] at habove
  obtain ⟨rfl, rfl⟩ := habove
  exact (hlast hsize).resolve_right hnode

/-- An index whose first three votes are of one follower stays uncommitted while the other one is
remembered. -/
theorem Sound.lt_of_votes {i : ℤ} {x y : FollowerId} (hst : Sound acks st) {s : State}
    (hwalk : CommitWalk (st.raftLog.append ackId nodeId) st.s.cmtIdx st.s.lastCmtNode s)
    (hlt : st.s.cmtIdx < i) (hxy : x ≠ y) (hlast : s.lastCmtNode = x.key) {rest : List ℤ}
    (hvotes : votes (acks ++ [(ackId, nodeId)]) i = y.key :: y.key :: y.key :: rest) :
    s.cmtIdx < i := by
  by_contra hle
  have hnode := hst.eq_last hwalk hlt (by omega) hvotes (by simp [kNodesSize]) (key_ne_neg_one y)
  exact hxy (key_injective (hnode.trans hlast)).symm

/-- A vector with three acknowledgements of one follower blocks its index as long as the other
one is remembered. -/
structure Blocked (i : ℤ) (x y : FollowerId) (acks : List (ℤ × ℤ)) (st : Receiver) : Prop where
  /-- The index is not committed. -/
  lt : st.s.cmtIdx < i
  /-- The other follower is remembered. -/
  last : st.s.lastCmtNode = x.key
  /-- The vector. -/
  votes : ∃ rest, votes acks i = y.key :: y.key :: y.key :: rest

variable {i : ℤ} {x y : FollowerId}

/-- A blocked index stays blocked, and the iteration does not overflow. -/
theorem Blocked.exists_step (hi : i ≤ intMax) (hxy : x ≠ y) (hid : ackId ≤ intMax) (nodeId : ℤ)
    (hst : Sound acks st) (hblocked : Blocked i x y acks st) :
    ∃ st', AckStep st ackId nodeId st' ∧ Blocked i x y (acks ++ [(ackId, nodeId)]) st' := by
  obtain ⟨hlt, hlast, rest, hvotes⟩ := hblocked
  have hvotes' : Leader.votes (acks ++ [(ackId, nodeId)]) i =
      y.key :: y.key :: y.key :: (rest ++ if ackId = i then [nodeId] else []) := by
    rw [votes_concat, hvotes]
    rfl
  obtain ⟨s, hwalk, -, hrun⟩ := hst.exists_walk hid nodeId
  have hlast' : s.lastCmtNode = x.key := by
    rcases hwalk.last with h | ⟨h, -⟩
    · rw [h, hlast]
    · exact absurd (hlast.symm.trans h) (key_ne_neg_one x)
  have hlt' := hst.lt_of_votes hwalk hlt hxy hlast' hvotes'
  have hbelow : s.cmtIdx < intMax := by omega
  obtain ⟨st', hstep, rfl⟩ := hst.exists_ackStep_of_walk hwalk hbelow (hrun.trans (if_pos hbelow))
  exact ⟨st', hstep, hlt', hlast', _, hvotes'⟩

/-- Three acknowledgements of an index by one follower, followed by the first one of index zero,
by the other follower, block the index. -/
theorem exists_blocked (hi : 1 ≤ i) (hmax : i ≤ intMax) (hxy : x ≠ y) :
    ∃ st, (receiveSteps .init [(i, y.key), (i, y.key), (i, y.key), (0, x.key)]).result = .ok st ∧
      Sound [(i, y.key), (i, y.key), (i, y.key), (0, x.key)] st ∧
      Blocked i x y [(i, y.key), (i, y.key), (i, y.key), (0, x.key)] st := by
  have hids : ∀ a ∈ [(i, y.key), (i, y.key), (i, y.key), (0, x.key)], a.1 ≤ intMax := by
    simp only [List.mem_cons, List.not_mem_nil, or_false]
    rintro a (rfl | rfl | rfl | rfl)
    · exact hmax
    · exact hmax
    · exact hmax
    · exact hmax.trans' (zero_le_one.trans hi)
  -- an index other than zero and `i` has not been acknowledged, so nothing overflows
  have hmissing : ¬ AllAcked [(i, y.key), (i, y.key), (i, y.key), (0, x.key)] := by
    intro hall
    obtain ⟨node, hone⟩ := hall 1 (by decide) (by decide)
    obtain ⟨node', htwo⟩ := hall 2 (by decide) (by decide)
    simp only [List.mem_cons, Prod.mk.injEq, List.not_mem_nil, or_false] at hone htwo
    omega
  obtain ⟨st', hok', hst'⟩ := (exists_receiveSteps hids).resolve_right fun h => hmissing h.2
  have hthird : ∀ a ∈ [(i, y.key), (i, y.key), (i, y.key)], a.1 ≤ intMax := fun a ha =>
    hids a (List.mem_append_left [(0, x.key)] ha)
  obtain ⟨st, hok, hst⟩ := (exists_receiveSteps hthird).resolve_right fun h =>
    hmissing (h.2.append [(0, x.key)])
  have hack : (onAck st 0 x.key).result = .ok st' := by
    have hlast := (receiveSteps_append hok [(0, x.key)]).symm.trans hok'
    obtain ⟨st₁, hack, hnil⟩ := Traced.bind_result_eq_ok.mp hlast
    rwa [← Except.ok.inj hnil]
  obtain ⟨st₁, hstep⟩ := (hst.exists_ackStep_or (by decide) x.key).resolve_right fun h =>
    hmissing h.2
  obtain rfl : st₁ = st' := Except.ok.inj (hstep.result.symm.trans hack)
  have hlo := hst.neg_one_le
  have hcmt : st.s.cmtIdx = -1 := by
    by_contra hne
    obtain ⟨nodeId, hmem⟩ := hst.acked 0 le_rfl (by omega)
    simp only [List.mem_cons, Prod.mk.injEq, List.not_mem_nil, or_false, or_self] at hmem
    omega
  have hzero : votes [(i, y.key), (i, y.key), (i, y.key), (0, x.key)] 0 = [x.key] := by
    simp [votes, show i ≠ 0 by omega]
  have hthree : votes [(i, y.key), (i, y.key), (i, y.key), (0, x.key)] i =
      [y.key, y.key, y.key] := by
    simp [votes, show (0 : ℤ) ≠ i by omega]
  have hpos := hst'.nonneg_of_mem (List.mem_append_right [(i, y.key), (i, y.key), (i, y.key)]
    (List.mem_singleton.mpr rfl))
  have hlast := hst.eq_last hstep.walk (by omega) hpos hzero (by simp [kNodesSize])
    (key_ne_neg_one x)
  exact ⟨st₁, hok', hst', hst.lt_of_votes hstep.walk (by omega) hxy hlast.symm hthree, hlast.symm,
    [], hthree⟩

end Blocking

/-- Two acknowledgements of each index up to `i` commit it. -/
theorem le_cmtIdx_of_doubled {acks : List (ℤ × ℤ)} {st : Receiver} (hst : Sound acks st) {i : ℤ}
    (htwo : ∀ k, 0 ≤ k → k ≤ i → (votes acks k).length = kNodesSize) : i ≤ st.s.cmtIdx := by
  by_contra hlt
  have hlo := hst.neg_one_le
  have hsize := htwo (st.s.cmtIdx + 1) (by omega) (by omega)
  cases hvotes : votes acks (st.s.cmtIdx + 1) with
  | nil =>
    rw [hvotes] at hsize
    cases hsize
  | cons node rest =>
    obtain ⟨node', rest', hvotes', hne, -⟩ := hst.exists_blocking (mem_of_votes_eq_cons hvotes)
    exact hne (hvotes' ▸ hsize)

/-- Among acknowledgements without gaps up to `i` there are some in which each index up to `i` is
acknowledged exactly twice. -/
theorem exists_doubled {acks : List (ℤ × FollowerId)} {i : ℤ} (hgap : GapFree acks i) :
    ∃ twice, (∀ a ∈ twice, a ∈ acks) ∧
      ∀ k, 0 ≤ k → k ≤ i → (votes (keyed twice) k).length = kNodesSize := by
  have : Nonempty FollowerId := ⟨.one⟩
  obtain ⟨hi, hall⟩ := hgap
  choose! z hz using hall
  refine ⟨(upTo i).map (fun k => (k, z k)) ++ (upTo i).map (fun k => (k, z k)), ?_, ?_⟩
  · intro a ha
    rw [List.mem_append, or_self] at ha
    obtain ⟨k, hk, rfl⟩ := List.mem_map.mp ha
    obtain ⟨hlo, hhi⟩ := Int.mem_range_iff.mp hk
    exact hz k hlo (by omega)
  · intro k hk hki
    have hmem : k ∈ upTo i := Int.mem_range_iff.mpr ⟨hk, by omega⟩
    have hone : (votes (keyed ((upTo i).map fun k => (k, z k))) k).length = 1 := by
      rw [votes, keyed, List.map_map, List.filter_map, List.length_map, List.length_map,
        ← List.countP_eq_length_filter]
      exact List.count_eq_one_of_mem (nodup_upTo i) hmem
    rw [keyed_append, votes_append, List.length_append, hone]
    rfl

/-- Where both followers can decide there is an index above zero that one of them and index zero
that the other one has acknowledged. -/
theorem exists_conflict {acks : List (ℤ × FollowerId)} (hgap : GapFree acks 1)
    (hmixed : ∀ f, ∃ k g, (k, g) ∈ acks ∧ GapFree acks k ∧ g ≠ f) :
    ∃ i x y, 1 ≤ i ∧ GapFree acks i ∧ (i, y) ∈ acks ∧ (0, x) ∈ acks ∧ x ≠ y := by
  obtain ⟨x, hx⟩ := hgap.2 0 le_rfl (by decide)
  obtain ⟨k, y, hy, hk, hne⟩ := hmixed x
  by_cases hpos : 1 ≤ k
  · exact ⟨k, x, y, hpos, hk, hy, hx, hne.symm⟩
  · -- both have acknowledged index zero, and one of them index one
    have hzero : k = 0 := by
      have := hk.1
      omega
    subst hzero
    obtain ⟨z, hz⟩ := hgap.2 1 (by decide) le_rfl
    by_cases hzx : z = x
    · exact ⟨1, y, z, le_rfl, hgap, hz, hy, hzx ▸ hne⟩
    · exact ⟨1, x, z, le_rfl, hgap, hz, hx, Ne.symm hzx⟩

/-- Some sequence of the same acknowledgements commits every index that is reached without a gap,
if it does not overflow: one that begins with two of each. -/
theorem exists_le_finalCmtIdx {acks : List (ℤ × FollowerId)} (hids : ∀ a ∈ acks, IsInt a.1) {i : ℤ}
    (hgap : GapFree acks i) :
    ∃ acks', (∀ a, a ∈ acks' ↔ a ∈ acks) ∧ ∀ c, finalCmtIdx acks' = .ok c → i ≤ c := by
  obtain ⟨twice, hsub, htwo⟩ := exists_doubled hgap
  have htwice : ∀ a ∈ twice, IsInt a.1 := fun a ha => hids a (hsub a ha)
  refine ⟨twice ++ acks, fun a => ?_, fun c hcmt => ?_⟩
  · rw [List.mem_append]
    exact ⟨fun ha => ha.elim (hsub a) id, Or.inr⟩
  · rcases exists_receiveSteps fun a => le_intMax_of_mem_keyed htwice with
      ⟨st, hok, hst⟩ | ⟨hfail, -⟩
    · rcases receiveSteps_induction (P := fun _ st => i ≤ st.s.cmtIdx) (E := fun _ => True)
        (fun _ _ h => h)
        (fun _ _ _ nodeId hid hst hle => (hst.exists_ackStep_or hid nodeId).imp
          (fun ⟨st', hstep⟩ => ⟨st', hstep, hle.trans hstep.walk.le⟩) fun h => ⟨h.1, trivial⟩)
        hst (le_cmtIdx_of_doubled hst htwo) (keyed acks)
        (fun a => le_intMax_of_mem_keyed hids) with ⟨st', hok', -, hle⟩ | ⟨hfail, -⟩
      · rw [← receiveSteps_append hok, ← keyed_append] at hok'
        rwa [← Except.ok.inj ((finalCmtIdx_eq hok').symm.trans hcmt)]
      · rw [← receiveSteps_append hok, ← keyed_append] at hfail
        cases (finalCmtIdx_eq_error hfail).symm.trans hcmt
    · have hfail := receiveSteps_append_of_error hfail (keyed acks)
      rw [← keyed_append] at hfail
      cases (finalCmtIdx_eq_error hfail).symm.trans hcmt

/-- Some sequence of the same acknowledgements does not commit an index that one follower has
acknowledged, while the other one has acknowledged index zero. -/
theorem exists_finalCmtIdx_lt {acks : List (ℤ × FollowerId)} (hids : ∀ a ∈ acks, IsInt a.1) {i : ℤ}
    {x y : FollowerId} (hi : 1 ≤ i) (hy : (i, y) ∈ acks) (hx : (0, x) ∈ acks) (hxy : x ≠ y) :
    ∃ acks' c, (∀ a, a ∈ acks' ↔ a ∈ acks) ∧ finalCmtIdx acks' = .ok c ∧ c < i := by
  have hmax : i ≤ intMax := Int.le_sub_one_of_lt (hids _ hy).2
  obtain ⟨st, hok, hst, hblocked⟩ := exists_blocked hi hmax hxy
  obtain ⟨st', hok', -, hlow⟩ :=
    (receiveSteps_induction (E := fun _ => False) (fun _ _ h => h)
      (fun _ _ _ nodeId hid hst hblocked =>
        Or.inl (hblocked.exists_step hmax hxy hid nodeId hst)) hst hblocked (keyed acks)
      (fun a => le_intMax_of_mem_keyed hids)).resolve_right fun h => h.2
  rw [← receiveSteps_append hok] at hok'
  refine ⟨[(i, y), (i, y), (i, y), (0, x)] ++ acks, _, fun a => ?_, finalCmtIdx_eq hok', hlow.lt⟩
  rw [List.mem_append]
  refine ⟨fun ha => ha.elim (fun ha => ?_) id, Or.inr⟩
  simp only [List.mem_cons, List.not_mem_nil, or_false] at ha
  rcases ha with rfl | rfl | rfl | rfl
  · exact hy
  · exact hy
  · exact hy
  · exact hx

/-- The final commit index is a function of the set of acknowledgements exactly when index zero or
index one has not been acknowledged, or all acknowledgements of indices that are reached without a
gap come from one follower. -/
theorem finalCmtIdx_congr_iff (acks : List (ℤ × FollowerId)) (hids : ∀ a ∈ acks, IsInt a.1) :
    (∀ acks', (∀ a, a ∈ acks' ↔ a ∈ acks) → finalCmtIdx acks' = finalCmtIdx acks) ↔
      (¬ GapFree acks 1 ∨ ∃ f, ∀ k g, (k, g) ∈ acks → GapFree acks k → g = f) := by
  constructor
  · intro hsame
    by_contra hmixed
    simp only [not_or, not_not, not_exists, not_forall] at hmixed
    obtain ⟨hgap, hmixed⟩ := hmixed
    obtain ⟨i, x, y, hi, hgap, hy, hx, hxy⟩ := exists_conflict hgap fun f => by
      obtain ⟨k, g, hmem, hk, hne⟩ := hmixed f
      exact ⟨k, g, hmem, hk, hne⟩
    obtain ⟨high, hhigh, hle⟩ := exists_le_finalCmtIdx hids hgap
    obtain ⟨low, d, hlow, hcmt, hlt⟩ := exists_finalCmtIdx_lt hids hi hy hx hxy
    have hle := hle d ((hsame high hhigh).trans ((hsame low hlow).symm.trans hcmt))
    omega
  · intro hone acks' hsame
    have hids' : ∀ a ∈ acks', IsInt a.1 := fun a ha => hids a ((hsame a).mp ha)
    rcases exists_receiveSteps fun a => le_intMax_of_mem_keyed hids with
      ⟨st, hok, hst⟩ | ⟨hfail, hall⟩ <;>
    rcases exists_receiveSteps fun a => le_intMax_of_mem_keyed hids' with
      ⟨st', hok', hst'⟩ | ⟨hfail', hall'⟩
    · rw [finalCmtIdx_eq hok, finalCmtIdx_eq hok', cmtIdx_eq_of_same hone hsame hst hst']
    · -- a run that does not overflow stops at a gap, one that does has found none
      exact absurd (gapFree_of_allAcked hsame hall' (Int.le_add_of_sub_right_le hst.neg_one_le)
        (Int.add_one_le_of_lt hst.cmtIdx_lt)) (not_gapFree_next hone (fun _ => Iff.rfl) hst)
    · exact absurd (gapFree_of_allAcked (fun _ => Iff.rfl) hall
        (Int.le_add_of_sub_right_le hst'.neg_one_le)
        (Int.add_one_le_of_lt hst'.cmtIdx_lt)) (not_gapFree_next hone hsame hst')
    · rw [finalCmtIdx_eq_error hfail, finalCmtIdx_eq_error hfail']

/-- All acknowledgements that are reached without a gap come from the first follower, so their
order and a repetition do not matter. -/
theorem finalCmtIdx_congr_iff_one_follower :
    finalCmtIdx [(3, .two), (1, .one), (0, .one), (1, .one)] =
      finalCmtIdx [(0, .one), (1, .one), (3, .two)] := by
  have hsame (a : ℤ × FollowerId) : a ∈ [(3, .two), (1, .one), (0, .one), (1, .one)] ↔
      a ∈ [((0 : ℤ), FollowerId.one), (1, .one), (3, .two)] := by
    simp only [List.mem_cons, List.not_mem_nil, or_false]
    tauto
  refine (finalCmtIdx_congr_iff [(0, .one), (1, .one), (3, .two)] (by decide)).mpr
    (Or.inr ⟨.one, fun k g hmem hgap => ?_⟩) _ hsame
  simp only [List.mem_cons, Prod.mk.injEq, List.not_mem_nil, or_false] at hmem
  rcases hmem with ⟨-, rfl⟩ | ⟨-, rfl⟩ | ⟨rfl, rfl⟩
  · rfl
  · rfl
  · -- nobody has acknowledged index two
    obtain ⟨f, hf⟩ := hgap.2 2 (by decide) (by decide)
    revert hf
    cases f <;> decide

/-- When the second follower acknowledges index one twice, it counts as both followers. -/
theorem finalCmtIdx_of_repeated_ack :
    finalCmtIdx [(0, .one), (1, .two)] = .ok 0 ∧
      finalCmtIdx [(0, .one), (1, .two), (1, .two)] = .ok 1 ∧
      ∀ a, a ∈ [((0 : ℤ), FollowerId.one), (1, .two), (1, .two)] ↔
        a ∈ [((0 : ℤ), FollowerId.one), (1, .two)] := by
  refine ⟨by decide +kernel, by decide +kernel, fun a => ?_⟩
  simp

end TeeReplication.Raft.Leader
