import Mathlib.Data.List.Induction
import Mathlib.Order.Bounds.Basic
import TeeReplication.Foundations.Ranges

/-!
# Accepted indices

The accepted index of a sequence is the largest `k` for which `0, 1, .., k` is a
subsequence of it, and `-1` if zero does not occur. It says how far a replica
commits that takes the next index whenever it comes and refuses all others.
-/

namespace TeeReplication

/-- `c` is the largest `k` for which `0, 1, .., k` is a subsequence of `l`, or `-1`. -/
def IsAccepted (l : List ℤ) (c : ℤ) : Prop :=
  IsGreatest {k | -1 ≤ k ∧ List.Sublist (upTo k) l} c

namespace IsAccepted

variable {l l' : List ℤ} {c d x : ℤ}

/-- Nothing is accepted from the empty sequence. -/
theorem nil : IsAccepted [] (-1) := by
  refine ⟨⟨le_rfl, by simp [upTo]⟩, ?_⟩
  rintro k ⟨hk, hsub⟩
  have hlength := hsub.length_le
  rw [upTo, length_range, List.length_nil] at hlength
  omega

/-- A longer sequence accepts at least as much. -/
theorem mono (hc : IsAccepted l c) (hd : IsAccepted l' d) (h : List.Sublist l l') : c ≤ d :=
  hd.2 ⟨hc.1.1, hc.1.2.trans h⟩

/-- The accepted index of a sequence followed by `x`: it moves on exactly when `x` is the
next index. -/
theorem concat (h : IsAccepted l c) : IsAccepted (l ++ [x]) (if x = c + 1 then c + 1 else c) := by
  obtain ⟨⟨hlo, hsub⟩, hmax⟩ := h
  have hsplit : ∀ k, -1 ≤ k → List.Sublist (upTo k) (l ++ [x]) → k ≤ c ∨ k = c + 1 ∧ x = c + 1 := by
    intro k hk hkl
    by_cases hkc : k ≤ c
    · exact Or.inl hkc
    · right
      have hnext : List.Sublist (upTo (c + 1)) (l ++ [x]) :=
        (upTo_sublist_upTo (by omega)).trans hkl
      obtain ⟨m, hm⟩ : ∃ m, k = m + 1 := ⟨k - 1, by omega⟩
      subst hm
      rw [upTo_succ (by omega)] at hkl
      rcases List.sublist_append_iff.mp hkl with ⟨front, back, heq, hfront, hback⟩
      have hcases : back = [] ∨ back = [x] := by
        rcases List.sublist_cons_iff.mp hback with hnil | ⟨rest, rfl, hrest⟩
        · exact Or.inl (List.sublist_nil.mp hnil)
        · exact Or.inr (by rw [List.sublist_nil.mp hrest])
      rcases hcases with rfl | rfl
      · rw [List.append_nil] at heq
        have := hmax ⟨hk, by rw [upTo_succ (by omega), heq]; exact hfront⟩
        omega
      · obtain ⟨hm, hx⟩ := List.append_inj' heq rfl
        have hle := hmax ⟨by omega, hm ▸ hfront⟩
        have hx : m + 1 = x := by simpa using hx
        omega
  split
  · rename_i hx
    subst hx
    refine ⟨⟨by omega, ?_⟩, ?_⟩
    · rw [upTo_succ hlo]
      exact hsub.append (List.Sublist.refl _)
    · rintro k ⟨hk, hkl⟩
      rcases hsplit k hk hkl with h | h <;> omega
  · rename_i hx
    refine ⟨⟨hlo, hsub.trans (List.sublist_append_left _ _)⟩, ?_⟩
    rintro k ⟨hk, hkl⟩
    rcases hsplit k hk hkl with h | h
    · exact h
    · exact absurd h.2 hx

end IsAccepted

/-- How one more index changes the accepted one. -/
def acceptStep (c x : ℤ) : ℤ := if x = c + 1 then c + 1 else c

/-- The accepted index of a sequence. -/
def accepted (l : List ℤ) : ℤ := l.foldl acceptStep (-1)

@[simp] theorem accepted_concat (l : List ℤ) (x : ℤ) :
    accepted (l ++ [x]) = acceptStep (accepted l) x := by
  simp [accepted, List.foldl_append]

/-- Accepting the next index whenever it comes computes the accepted index. -/
theorem isAccepted_accepted (l : List ℤ) : IsAccepted l (accepted l) := by
  induction l using List.reverseRecOn with
  | nil => exact .nil
  | append_singleton l x ih =>
    rw [accepted_concat]
    exact ih.concat

/-- A longer sequence accepts at least as much. -/
theorem accepted_mono {l l' : List ℤ} (h : l <+: l') : accepted l ≤ accepted l' :=
  (isAccepted_accepted l).mono (isAccepted_accepted l') h.sublist

/-- The indices in order are all accepted. -/
theorem accepted_upTo {k : ℤ} (hk : -1 ≤ k) : accepted (upTo k) = k := by
  refine (isAccepted_accepted _).unique ⟨⟨hk, List.Sublist.refl _⟩, ?_⟩
  rintro j ⟨hj, hsub⟩
  have hlength := hsub.length_le
  rw [upTo, upTo, length_range, length_range] at hlength
  omega

/-- What a range from zero begins with is accepted completely. -/
theorem accepted_of_isPrefix {l : List ℤ} {n : ℤ} (h : l <+: Int.range 0 n) :
    accepted l = l.length - 1 := by
  have hl : l = upTo (l.length - 1) := by
    rw [upTo, Int.sub_add_cancel]
    exact eq_range_of_isPrefix h
  rw [hl, accepted_upTo (by omega), ← hl]

/-- In a range from zero every element is the next one to accept. -/
theorem eq_accepted_add_one {l : List ℤ} {x n : ℤ} (h : l ++ [x] <+: Int.range 0 n) :
    x = accepted l + 1 := by
  have hl := eq_range_of_isPrefix h
  rw [List.length_append, List.length_singleton, range_natCast_succ] at hl
  have hx := (List.append_inj' hl rfl).2
  rw [accepted_of_isPrefix ((List.prefix_append l [x]).trans h)]
  have hx := List.singleton_inj.mp hx
  omega

end TeeReplication
