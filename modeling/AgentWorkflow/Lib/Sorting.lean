import Mathlib

/-!
# One list under two orders

When do two sorts of a list begin alike? The first `n` elements under `R` are those
under `S` exactly when `R` follows `S` at each of them.
-/

namespace AgentWorkflow.Lib.Sorting

universe u
variable {α : Type u} {R S : α → α → Prop} [DecidableRel R] [DecidableRel S] {l : List α}

def AntisymmOn (R : α → α → Prop) (l : List α) : Prop := ∀ a ∈ l, ∀ b ∈ l, R a b → R b a → a = b

theorem mem_of_mem_take {n : ℕ} {a : α} (h : a ∈ (l.insertionSort R).take n) : a ∈ l :=
  (List.mem_insertionSort R).mp (List.mem_of_mem_take h)

theorem take_or_drop (n : ℕ) {a : α} (ha : a ∈ l) :
    a ∈ (l.insertionSort R).take n ∨ a ∈ (l.insertionSort R).drop n := by
  have h := (List.mem_insertionSort R).mpr ha
  rw [← List.take_append_drop n (l.insertionSort R)] at h
  exact List.mem_append.mp h

variable [Std.Total R] [IsTrans α R]

theorem insertionSort_eq {t : List α} (hanti : AntisymmOn R l) (hsort : t.Pairwise R) (hperm : t.Perm l) :
    l.insertionSort R = t := by
  have hsorted : (l.insertionSort R).Pairwise R := List.pairwise_insertionSort R l
  refine List.Perm.eq_of_pairwise ?_ hsorted hsort ((List.perm_insertionSort R l).trans hperm.symm)
  intro a b ha hb
  exact hanti a ((List.mem_insertionSort R).mp ha) b (hperm.mem_iff.mp hb)

/-- What is taken sorts before what is left. -/
theorem take_before_drop (n : ℕ) {a b : α} (ha : a ∈ (l.insertionSort R).take n)
    (hb : b ∈ (l.insertionSort R).drop n) : R a b := by
  have hsort := List.pairwise_insertionSort R l
  rw [← List.take_append_drop n (l.insertionSort R), List.pairwise_append] at hsort
  exact hsort.2.2 a ha b hb

/-- Whatever is taken comes after all that sorts strictly before it. -/
theorem before_in_take {n : ℕ} {a b : α} (ha : a ∈ l) (hb : b ∈ (l.insertionSort R).take n)
    (hba : ¬ R b a) : [a, b].Sublist ((l.insertionSort R).take n) := by
  have hmem : a ∈ (l.insertionSort R).take n := by
    cases take_or_drop (R := R) n ha with
    | inl h => exact h
    | inr h => exact absurd (take_before_drop n hb h) hba
  obtain ⟨i, hi, rfl⟩ := List.mem_iff_getElem.mp hmem
  obtain ⟨j, hj, rfl⟩ := List.mem_iff_getElem.mp hb
  have hsort : ((l.insertionSort R).take n).Pairwise R := (List.pairwise_insertionSort R l).take
  have hij : i < j := by
    rcases Nat.lt_trichotomy i j with h | rfl | h
    · exact h
    · exact absurd (refl_of R _) hba
    · exact absurd (List.pairwise_iff_getElem.mp hsort j i hj hi h) hba
  have hpre : [((l.insertionSort R).take n)[i]].Sublist (((l.insertionSort R).take n).take j) :=
    List.singleton_sublist.mpr (List.mem_take_iff_getElem.mpr ⟨i, by omega, rfl⟩)
  have hpost : [((l.insertionSort R).take n)[j]].Sublist (((l.insertionSort R).take n).drop j) :=
    List.singleton_sublist.mpr (List.mem_drop_iff_getElem.mpr ⟨0, by omega, rfl⟩)
  have hboth := hpre.append hpost
  rwa [List.take_append_drop] at hboth

variable [Std.Total S] [IsTrans α S]

theorem follows_of_take_eq (hanti : AntisymmOn S l) {n : ℕ}
    (heq : (l.insertionSort R).take n = (l.insertionSort S).take n) :
    ∀ a ∈ (l.insertionSort S).take n, ∀ b ∈ l, S a b → R a b := by
  intro a ha b hb hab
  have haR : a ∈ (l.insertionSort R).take n := by
    rw [heq]
    exact ha
  cases take_or_drop (R := R) n hb with
  | inr hdrop => exact take_before_drop n haR hdrop
  | inl htake =>
    have hR : ((l.insertionSort R).take n).Pairwise R := (List.pairwise_insertionSort R l).take
    have hS : ((l.insertionSort R).take n).Pairwise S := by
      rw [heq]
      exact (List.pairwise_insertionSort S l).take
    obtain ⟨i, hi, rfl⟩ := List.mem_iff_getElem.mp haR
    obtain ⟨j, hj, rfl⟩ := List.mem_iff_getElem.mp htake
    rcases Nat.lt_trichotomy i j with h | rfl | h
    · exact List.pairwise_iff_getElem.mp hR i j hi hj h
    · exact refl_of R _
    · have hback := List.pairwise_iff_getElem.mp hS j i hj hi h
      rw [hanti _ (mem_of_mem_take haR) _ hb hab hback]
      exact refl_of R _

theorem take_eq_of_follows (hanti : AntisymmOn R l) {n : ℕ}
    (h : ∀ a ∈ (l.insertionSort S).take n, ∀ b ∈ l, S a b → R a b) :
    (l.insertionSort R).take n = (l.insertionSort S).take n := by
  by_cases hlen : (l.insertionSort S).length ≤ n
  · have hsort : (l.insertionSort S).Pairwise R := by
      rw [List.take_of_length_le hlen] at h
      refine (List.pairwise_insertionSort S l).imp_of_mem ?_
      intro a b ha hb hab
      exact h a ha b ((List.mem_insertionSort S).mp hb) hab
    rw [insertionSort_eq hanti hsort (List.perm_insertionSort S l)]
  · let top := (l.insertionSort S).take n
    let rest := (l.insertionSort S).drop n
    have hperm : (top ++ rest.insertionSort R).Perm l := by
      refine List.Perm.trans ((List.perm_insertionSort R rest).append_left top) ?_
      rw [show top ++ rest = l.insertionSort S from List.take_append_drop _ _]
      exact List.perm_insertionSort S l
    have hsort : (top ++ rest.insertionSort R).Pairwise R := by
      refine List.pairwise_append.mpr ⟨?_, List.pairwise_insertionSort R rest, ?_⟩
      · refine ((List.pairwise_insertionSort S l).take (i := n)).imp_of_mem ?_
        intro a b ha hb hab
        exact h a ha b (mem_of_mem_take hb) hab
      · intro a ha b hb
        have hdrop : b ∈ rest := (List.mem_insertionSort R).mp hb
        exact h a ha b ((List.mem_insertionSort S).mp (List.mem_of_mem_drop hdrop)) (take_before_drop n ha hdrop)
    have htop : top.length = n := by
      simp only [top, List.length_take]
      omega
    rw [insertionSort_eq hanti hsort hperm, List.take_left' htop]

theorem take_eq_iff (hR : AntisymmOn R l) (hS : AntisymmOn S l) (n : ℕ) :
    (l.insertionSort R).take n = (l.insertionSort S).take n ↔
      ∀ a ∈ (l.insertionSort S).take n, ∀ b ∈ l, S a b → R a b :=
  ⟨follows_of_take_eq hS, take_eq_of_follows hR⟩

end AgentWorkflow.Lib.Sorting
