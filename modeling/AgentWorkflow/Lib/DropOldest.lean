import Mathlib

/-!
# Bounded queues that drop their oldest entry

`push` makes room for the new entry when the queue is full. Without removals the
queue is the tail of everything that was pushed.
-/

namespace AgentWorkflow.Lib.DropOldest

universe u
variable {α : Type u} {n : ℕ}

def push (capacity : ℕ) (q : List α) (x : α) : List α :=
  (if capacity ≤ q.length then q.tail else q) ++ [x]

/-- The last `n` entries. -/
def latest (n : ℕ) (l : List α) : List α := l.drop (l.length - n)

theorem latest_length_le (n : ℕ) (l : List α) : (latest n l).length ≤ n := by
  rw [latest, List.length_drop]
  omega

theorem latest_of_length_le {l : List α} (h : l.length ≤ n) : latest n l = l := by
  rw [latest, Nat.sub_eq_zero_of_le h, List.drop_zero]

theorem latest_append_of_le {l : List α} (h : n ≤ l.length) (l' : List α) : latest n (l' ++ l) = latest n l := by
  have hlen : (l' ++ l).length - n = l'.length + (l.length - n) := by
    rw [List.length_append]
    omega
  rw [latest, hlen, List.drop_append, List.drop_eq_nil_of_le (by omega), List.nil_append]
  rw [Nat.add_sub_cancel_left]
  rfl

theorem push_latest (hn : 0 < n) (l : List α) (x : α) : push n (latest n l) x = latest n (l ++ [x]) := by
  unfold push latest
  rw [List.length_append, List.length_singleton]
  by_cases hfull : n ≤ l.length
  · have hlen : n ≤ (l.drop (l.length - n)).length := by
      rw [List.length_drop]
      omega
    rw [if_pos hlen, List.tail_drop, List.drop_append_of_le_length (by omega)]
    congr 2
    omega
  · have hlen : ¬ n ≤ (l.drop (l.length - n)).length := by
      rw [List.length_drop]
      omega
    rw [if_neg hlen, List.drop_append_of_le_length (by omega)]
    congr 2
    omega

theorem push_length_le (hn : 0 < n) {q : List α} (h : q.length ≤ n) (x : α) : (push n q x).length ≤ n := by
  rw [← latest_of_length_le h, push_latest hn]
  exact latest_length_le n _

/-- What is pushed last is read last. -/
theorem push_getLast? (n : ℕ) (q : List α) (x : α) : (push n q x).getLast? = some x := by
  rw [push, List.getLast?_append, List.getLast?_singleton, Option.some_or]

/-- The queue stays a tail of what was pushed. -/
theorem push_suffix {q l : List α} (h : q <:+ l) (x : α) : push n q x <:+ l ++ [x] := by
  obtain ⟨pre, rfl⟩ := h
  unfold push
  split
  · cases q with
    | nil => exact ⟨pre, by simp⟩
    | cons y q => exact ⟨pre ++ [y], by simp⟩
  · exact ⟨pre, by simp⟩

end AgentWorkflow.Lib.DropOldest
