import Mathlib.Data.Int.Order.Basic
import Mathlib.Data.Int.Range
import Mathlib.Data.Set.Insert

/-!
# Ranges of indices and histories of sequences

Lists of consecutive integers, their images, and the list of the values that a
function takes on the prefixes of a sequence.
-/

namespace TeeReplication

/-- The last index of a range. -/
theorem range_succ {m n : ℤ} (h : m ≤ n) : Int.range m (n + 1) = Int.range m n ++ [n] := by
  have hlength : (n + 1 - m).toNat = (n - m).toNat + 1 := by omega
  have hlast : m + (n - m).toNat = n := by omega
  rw [Int.range, hlength, List.range_succ, List.map_append, List.map_singleton, hlast]
  rfl

@[simp] theorem range_self (m : ℤ) : Int.range m m = [] := by simp [Int.range]

@[simp] theorem length_range (m n : ℤ) : (Int.range m n).length = (n - m).toNat := by
  simp [Int.range]

/-- A range in two parts. -/
theorem range_append {m k n : ℤ} (hmk : m ≤ k) (hkn : k ≤ n) :
    Int.range m k ++ Int.range k n = Int.range m n := by
  obtain ⟨d, rfl⟩ : ∃ d : ℕ, n = k + d := ⟨(n - k).toNat, by omega⟩
  induction d with
  | zero => simp
  | succ d ih =>
    have hsum : k + ((d + 1 : ℕ) : ℤ) = k + d + 1 := by omega
    rw [hsum, range_succ (by omega), range_succ (by omega), ← List.append_assoc, ih (by omega)]

/-- One more index from zero. -/
theorem range_natCast_succ (m : ℕ) :
    Int.range 0 (m + 1 : ℕ) = Int.range 0 m ++ [(m : ℤ)] :=
  range_succ (Int.natCast_nonneg m)

/-- One more image. -/
theorem map_range_succ {β : Type} (g : ℤ → β) (m : ℕ) :
    (Int.range 0 (m + 1 : ℕ)).map g = (Int.range 0 m).map g ++ [g m] := by
  rw [range_natCast_succ, List.map_append, List.map_singleton]

/-- A range of images without its first ones. -/
theorem drop_map_range {β : Type} (g : ℤ → β) {m : ℕ} {n : ℤ} (h : (m : ℤ) ≤ n) :
    ((Int.range 0 n).map g).drop m = (Int.range m n).map g := by
  rw [← range_append (Int.natCast_nonneg m) h, List.map_append]
  exact List.drop_left' (by simp)

/-- A list that a range from zero begins with is a range from zero. -/
theorem eq_range_of_isPrefix {l : List ℤ} {n : ℤ} (h : l <+: Int.range 0 n) :
    l = Int.range 0 l.length := by
  have hle := h.length_le
  rw [length_range] at hle
  by_cases hn : 0 ≤ n
  · have hpre : Int.range 0 l.length <+: Int.range 0 n :=
      ⟨_, range_append (Int.natCast_nonneg l.length) (by omega)⟩
    exact (List.prefix_of_prefix_length_le h hpre (by simp)).eq_of_length (by simp)
  · have hnil : l = [] := List.length_eq_zero_iff.mp (by omega)
    simp [hnil]

/-- The image at a position of a range. -/
theorem getElem?_map_range {β : Type} (g : ℤ → β) {m : ℕ} {n : ℤ} {b : β} :
    ((Int.range 0 n).map g)[m]? = some b ↔ (m : ℤ) < n ∧ g m = b := by
  by_cases hmn : (m : ℤ) < n <;> simp [Int.range, hmn]

/-- The indices `0, 1, .., k`, none of them for `k = -1`. -/
def upTo (k : ℤ) : List ℤ := Int.range 0 (k + 1)

/-- The indices up to `k + 1` are those up to `k` and then `k + 1`. -/
theorem upTo_succ {k : ℤ} (hk : -1 ≤ k) : upTo (k + 1) = upTo k ++ [k + 1] :=
  range_succ (by omega)

/-- Fewer indices are a subsequence of more. -/
theorem upTo_sublist_upTo {j k : ℤ} (hjk : j ≤ k) : List.Sublist (upTo j) (upTo k) :=
  (List.range_sublist.mpr (by omega)).map _

theorem nodup_upTo (k : ℤ) : (upTo k).Nodup := by
  rw [upTo, Int.range, List.Nodup, List.pairwise_map]
  exact List.nodup_range.imp fun h heq => h (by omega)

/-- The indices up to `k` are in increasing order. -/
theorem pairwise_upTo (k : ℤ) : (upTo k).Pairwise (· ≤ ·) := by
  rw [upTo, Int.range, List.pairwise_map]
  exact List.pairwise_lt_range.imp fun h => by omega

/-- The set of the indices in a list. -/
def members (l : List ℤ) : Set ℤ := {k | k ∈ l}

@[simp] theorem mem_members {l : List ℤ} {k : ℤ} : k ∈ members l ↔ k ∈ l := Iff.rfl

@[simp] theorem members_nil : members [] = ∅ := by
  ext k
  simp

/-- One more index at the end of a list. -/
@[simp] theorem members_concat (l : List ℤ) (x : ℤ) :
    members (l ++ [x]) = insert x (members l) := by
  ext k
  simp [or_comm]

/-- The values of a function after each element of a sequence. -/
def history {α β : Type} (g : List α → β) (l : List α) : List β :=
  (List.range l.length).map fun j => g (l.take (j + 1))

section History

variable {α β : Type} (g : List α → β)

@[simp] theorem length_history (l : List α) : (history g l).length = l.length := by
  simp [history]

/-- One more element adds the value of the whole sequence. -/
theorem history_concat (l : List α) (x : α) :
    history g (l ++ [x]) = history g l ++ [g (l ++ [x])] := by
  have hpre : (List.range l.length).map (fun j => g ((l ++ [x]).take (j + 1))) =
      history g l := by
    apply List.map_congr_left
    intro j hj
    rw [List.take_append_of_le_length (List.mem_range.mp hj)]
  have hwhole : (l ++ [x]).take (l.length + 1) = l ++ [x] := List.take_of_length_le (by simp)
  rw [history, List.length_append, List.length_singleton, List.range_succ, List.map_append, hpre,
    List.map_singleton, hwhole]

/-- The value at a position. -/
theorem getElem?_history {l : List α} {j : ℕ} {y : β} :
    (history g l)[j]? = some y ↔ j < l.length ∧ g (l.take (j + 1)) = y := by
  by_cases hj : j < l.length <;> simp [history, hj]

end History

end TeeReplication
