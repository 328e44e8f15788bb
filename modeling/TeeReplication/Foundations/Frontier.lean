import Mathlib.Data.Fintype.EquivFin
import Mathlib.Data.List.Sort
import Mathlib.Order.Bounds.Basic
import TeeReplication.Foundations.Ranges

/-!
# Frontiers

The frontier of a set of indices is the last of the consecutive indices
`0, 1, 2, ..` that it contains, and `-1` if it does not contain zero. It says how far
a replica may commit that has received the indices in the set.
-/

namespace TeeReplication

/-- `c` is the last of the consecutive indices from zero in `S`, or `-1` if zero is missing. -/
structure IsFrontier (S : Set ℤ) (c : ℤ) : Prop where
  /-- A frontier is at least `-1`. -/
  neg_one_le : -1 ≤ c
  /-- Every index up to the frontier is in the set. -/
  mem : ∀ i, 0 ≤ i → i ≤ c → i ∈ S
  /-- The index after the frontier is missing. -/
  next_notMem : c + 1 ∉ S

/-- Going upwards from `c` through consecutive members of `T` ends at `d`. -/
structure Advances (T : Set ℤ) (c d : ℤ) : Prop where
  /-- The walk does not go down. -/
  le : c ≤ d
  /-- Every index passed is in the set. -/
  mem : ∀ i, c < i → i ≤ d → i ∈ T
  /-- The walk stops at the first missing index. -/
  next_notMem : d + 1 ∉ T

namespace IsFrontier

variable {S T : Set ℤ} {c d : ℤ}

/-- The frontier of the empty set. -/
theorem empty : IsFrontier ∅ (-1) :=
  ⟨le_rfl, fun _ h h' => absurd h (by omega), fun h => h⟩

/-- A larger set has a frontier at least as large. -/
theorem mono (hS : IsFrontier S c) (hT : IsFrontier T d) (hsub : S ⊆ T) : c ≤ d := by
  by_contra hlt
  have hlo := hT.neg_one_le
  exact hT.next_notMem (hsub (hS.mem (d + 1) (by omega) (by omega)))

/-- A set has one frontier. -/
theorem unique (hc : IsFrontier S c) (hd : IsFrontier S d) : c = d :=
  le_antisymm (hc.mono hd (Set.Subset.refl _)) (hd.mono hc (Set.Subset.refl _))

/-- The index after the frontier is the least one that is missing. -/
theorem isLeast (hS : IsFrontier S c) : IsLeast {i | 0 ≤ i ∧ i ∉ S} (c + 1) := by
  have hlo := hS.neg_one_le
  refine ⟨⟨by omega, hS.next_notMem⟩, ?_⟩
  rintro i ⟨hi, hmissing⟩
  by_contra hlt
  exact hmissing (hS.mem i hi (by omega))

/-- The frontier is bounded by any bound of the set that is at least `-1`. -/
theorem le_of_forall_le (hS : IsFrontier S c) {b : ℤ} (hb : -1 ≤ b) (h : ∀ i ∈ S, i ≤ b) :
    c ≤ b := by
  by_cases hc : 0 ≤ c
  · exact h c (hS.mem c hc le_rfl)
  · omega

/-- From the frontier of a set, walking on through a larger set reaches its frontier. -/
theorem advance (hS : IsFrontier S c) (hsub : S ⊆ T) (hwalk : Advances T c d) :
    IsFrontier T d := by
  have hlo := hS.neg_one_le
  have hle := hwalk.le
  refine ⟨by omega, ?_, hwalk.next_notMem⟩
  intro i hi hid
  by_cases hic : i ≤ c
  · exact hsub (hS.mem i hi hic)
  · exact hwalk.mem i (by omega) hid

end IsFrontier

/-- The frontier of the indices up to `k`. -/
theorem isFrontier_upTo {k : ℤ} (hk : -1 ≤ k) : IsFrontier (members (upTo k)) k := by
  refine ⟨hk, ?_, ?_⟩
  · intro i hi hik
    exact Int.mem_range_iff.mpr ⟨hi, by omega⟩
  · intro hnext
    have hlt := (Int.mem_range_iff.mp hnext).2
    omega

/-- A sequence is at least as long as the indices up to its frontier. -/
theorem IsFrontier.lt_length {l : List ℤ} {c : ℤ} (h : IsFrontier (members l) c) :
    c + 1 ≤ l.length := by
  have hlo := h.neg_one_le
  have hsub : upTo c ⊆ l := by
    intro i hi
    obtain ⟨hi0, hic⟩ := Int.mem_range_iff.mp hi
    exact h.mem i hi0 (by omega)
  have hle := (List.subperm_of_subset (nodup_upTo c) hsub).length_le
  rw [upTo, length_range] at hle
  omega

/-- Every finite sequence misses some index. -/
theorem exists_natCast_notMem (l : List ℤ) : ∃ n : ℕ, (n : ℤ) ∉ l := by
  obtain ⟨n, hn⟩ := Infinite.exists_notMem_finset (l.map Int.toNat).toFinset
  refine ⟨n, ?_⟩
  intro hmem
  exact hn (List.mem_toFinset.mpr (List.mem_map.mpr ⟨n, hmem, Int.toNat_natCast n⟩))

/-- The frontier of a sequence. -/
def frontier (l : List ℤ) : ℤ := Nat.find (exists_natCast_notMem l) - 1

theorem isFrontier_frontier (l : List ℤ) : IsFrontier (members l) (frontier l) := by
  refine ⟨by unfold frontier; omega, ?_, ?_⟩
  · intro i hi hle
    obtain ⟨i, rfl⟩ := Int.eq_ofNat_of_zero_le hi
    by_contra hmissing
    have hmin := Nat.find_min' (exists_natCast_notMem l) hmissing
    unfold frontier at hle
    omega
  · rw [frontier, Int.sub_add_cancel]
    exact Nat.find_spec (exists_natCast_notMem l)

/-- The frontiers after each element of a sequence. -/
def progress (l : List ℤ) : List ℤ := history frontier l

/-- One more element adds the frontier of the whole sequence. -/
theorem progress_concat (l : List ℤ) (x : ℤ) :
    progress (l ++ [x]) = progress l ++ [frontier (l ++ [x])] := history_concat frontier l x

@[simp] theorem length_progress (l : List ℤ) : (progress l).length = l.length :=
  length_history frontier l

/-- The frontiers on the way are at most the last one. -/
theorem le_frontier_of_mem_progress {l : List ℤ} {c : ℤ} (hc : c ∈ progress l) :
    c ≤ frontier l := by
  obtain ⟨j, -, rfl⟩ := List.mem_map.mp hc
  exact (isFrontier_frontier _).mono (isFrontier_frontier _) fun i hi => List.mem_of_mem_take hi

theorem neg_one_le_of_mem_progress {l : List ℤ} {c : ℤ} (hc : c ∈ progress l) : -1 ≤ c := by
  obtain ⟨j, -, rfl⟩ := List.mem_map.mp hc
  exact (isFrontier_frontier _).neg_one_le

/-- Frontiers do not go down. -/
theorem pairwise_progress (l : List ℤ) : (progress l).Pairwise (· ≤ ·) := by
  induction l using List.reverseRecOn with
  | nil => exact List.Pairwise.nil
  | append_singleton l x ih =>
    rw [progress_concat, List.pairwise_append]
    refine ⟨ih, List.pairwise_singleton _ _, fun c hc d hd => ?_⟩
    obtain rfl := List.mem_singleton.mp hd
    exact (le_frontier_of_mem_progress hc).trans
      ((isFrontier_frontier _).mono (isFrontier_frontier _) fun i hi => List.mem_append_left _ hi)

/-- The frontiers of the indices in order are these indices. -/
theorem progress_upTo {k : ℤ} (hk : -1 ≤ k) : progress (upTo k) = upTo k := by
  obtain ⟨d, hd⟩ : ∃ d : ℕ, k = d - 1 := ⟨(k + 1).toNat, by omega⟩
  induction d generalizing k with
  | zero =>
    subst hd
    rfl
  | succ d ih =>
    obtain ⟨j, rfl⟩ : ∃ j, k = j + 1 := ⟨k - 1, by omega⟩
    have hlast := (isFrontier_frontier (upTo (j + 1))).unique (isFrontier_upTo (by omega))
    rw [upTo_succ (by omega)] at hlast ⊢
    rw [progress_concat, ih (by omega) (by omega), hlast]

/-- A sequence whose frontiers are the indices in order is the indices in order. -/
theorem eq_upTo_of_progress_eq {l : List ℤ} (h : progress l = upTo (l.length - 1)) :
    l = upTo (l.length - 1) := by
  induction l using List.reverseRecOn with
  | nil => rfl
  | append_singleton l x ih =>
    have hlength : (((l ++ [x]).length : ℕ) : ℤ) - 1 = (l.length - 1) + 1 := by simp
    rw [hlength, upTo_succ (by omega), progress_concat] at h
    rw [hlength, upTo_succ (by omega)]
    obtain ⟨hpre, hlast⟩ := List.append_inj' h rfl
    have hl := ih hpre
    have hmem : (l.length : ℤ) ∈ l ++ [x] := by
      apply (isFrontier_frontier (l ++ [x])).mem _ (Int.natCast_nonneg _)
      have hfrontier := List.singleton_inj.mp hlast
      omega
    rw [List.mem_append, List.mem_singleton] at hmem
    rcases hmem with hmem | rfl
    · rw [hl] at hmem
      have hlt := (Int.mem_range_iff.mp hmem).2
      rw [← hl] at hlt
      omega
    · rw [← hl]
      congr 2
      omega

/-- The frontiers on the way contain all indices that the sequence has room for exactly when the
sequence is the indices in order. -/
theorem frontier_progress_eq_iff (l : List ℤ) :
    frontier (progress l) = l.length - 1 ↔ l = upTo (l.length - 1) := by
  constructor
  · intro h
    apply eq_upTo_of_progress_eq
    have hsub : upTo (l.length - 1) ⊆ progress l := fun i hi => by
      obtain ⟨hlo, hhi⟩ := Int.mem_range_iff.mp hi
      exact (isFrontier_frontier (progress l)).mem i hlo (by omega)
    have hlength : (progress l).length ≤ (upTo (l.length - 1)).length := by
      simp [upTo]
    have hperm := (List.subperm_of_subset (nodup_upTo _) hsub).perm_of_length_le hlength
    exact (hperm.eq_of_pairwise (fun a b _ _ hab hba => le_antisymm hab hba)
      (pairwise_upTo _) (pairwise_progress l)).symm
  · intro h
    have hprogress : progress l = upTo (l.length - 1) := by
      conv_lhs => rw [h]
      exact progress_upTo (by omega)
    rw [hprogress]
    exact (isFrontier_frontier _).unique (isFrontier_upTo (by omega))

end TeeReplication
