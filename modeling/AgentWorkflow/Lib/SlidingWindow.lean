import Mathlib

/-!
# Sliding windows over ordered times

The times of a list that lie in the window `(t - w, t]`, and the rule of a limiter
that admits a time when fewer than `l` admitted times lie in the window before it.
-/

namespace AgentWorkflow.Lib.SlidingWindow

universe u
variable {K : Type u} [LinearOrder K]

/-- The list without the times up to `cutoff` at its front. -/
def recent (cutoff : K) (l : List K) : List K := l.dropWhile fun x => decide (x ≤ cutoff)

theorem recent_suffix (cutoff : K) (l : List K) : recent cutoff l <:+ l := List.dropWhile_suffix _

/-- What `recent` removes lies up to the cutoff. -/
theorem recent_split (cutoff : K) (l : List K) : ∃ old, l = old ++ recent cutoff l ∧ ∀ x ∈ old, x ≤ cutoff := by
  refine ⟨l.takeWhile fun x => decide (x ≤ cutoff), List.takeWhile_append_dropWhile.symm, fun x hx => ?_⟩
  simpa using List.mem_takeWhile_imp hx

/-- In an ordered list everything that is left lies after the cutoff. -/
theorem recent_after {cutoff : K} {l : List K} (hl : l.Pairwise (· ≤ ·)) : ∀ x ∈ recent cutoff l, cutoff < x := by
  induction l with
  | nil => simp [recent]
  | cons y l ih =>
    rw [List.pairwise_cons] at hl
    unfold recent at ih ⊢
    by_cases hy : y ≤ cutoff
    · rw [List.dropWhile_cons_of_pos (by simpa using hy)]
      exact ih hl.2
    · rw [List.dropWhile_cons_of_neg (by simpa using hy)]
      intro x hx
      have hlt : cutoff < y := not_le.mp hy
      rcases List.mem_cons.mp hx with rfl | hx
      · exact hlt
      · exact hlt.trans_le (hl.1 x hx)

variable [AddCommGroup K]

def inWindow (w t : K) (l : List K) : List K := l.filter fun x => decide (t - w < x ∧ x ≤ t)

/-- No window holds more than `n` times. -/
def Within (n : ℕ) (w : K) (l : List K) : Prop := ∀ t, (inWindow w t l).length ≤ n

/-- Where everything before `kept` has left the window, the window is read off
`kept`. -/
theorem inWindow_of_split {w t : K} {old kept : List K} (hold : ∀ x ∈ old, x ≤ t - w)
    (hkept : ∀ x ∈ kept, t - w < x ∧ x ≤ t) : inWindow w t (old ++ kept) = kept := by
  unfold inWindow
  have hleft : old.filter (fun x => decide (t - w < x ∧ x ≤ t)) = [] := by
    rw [List.filter_eq_nil_iff]
    intro x hx hmem
    rw [decide_eq_true_eq] at hmem
    exact absurd (hold x hx) (not_le.mpr hmem.1)
  rw [List.filter_append, hleft, List.nil_append, List.filter_eq_self]
  intro x hx
  exact decide_eq_true (hkept x hx)

theorem within_nil (n : ℕ) (w : K) : Within n w [] := fun _ => Nat.zero_le n

variable [IsOrderedAddMonoid K]

/-- A time is admitted when the window before it has room. -/
theorem Within.snoc {n : ℕ} {w now : K} {l : List K} (h : Within n w l) (hl : ∀ x ∈ l, x ≤ now)
    (hroom : (inWindow w now l).length < n) : Within n w (l ++ [now]) := by
  intro t
  rw [inWindow, List.filter_append, List.length_append]
  by_cases ht : now ≤ t
  · have hle : (inWindow w t l).length ≤ (inWindow w now l).length := by
      unfold inWindow
      rw [← List.countP_eq_length_filter, ← List.countP_eq_length_filter]
      refine List.countP_mono_left fun x hx hin => ?_
      rw [decide_eq_true_eq] at hin ⊢
      exact ⟨(sub_le_sub_right ht w).trans_lt hin.1, hl x hx⟩
    have hone : ([now].filter fun x => decide (t - w < x ∧ x ≤ t)).length ≤ 1 := List.length_filter_le ..
    have hall : (l.filter fun x => decide (t - w < x ∧ x ≤ t)).length ≤ (inWindow w now l).length := hle
    omega
  · have hnone : [now].filter (fun x => decide (t - w < x ∧ x ≤ t)) = [] := by
      simp [ht]
    rw [hnone]
    exact h t

end AgentWorkflow.Lib.SlidingWindow
