import Mathlib

/-!
# Dictionaries in insertion order

An entry that is popped and stored again goes to the end, one that is assigned keeps its
place; `evict` removes entries from the front until few enough are left.
-/

namespace AgentWorkflow.Lib.OrderedDict

universe u v
variable {κ : Type u} {ν : Type v} [DecidableEq κ]

def keys (d : List (κ × ν)) : List κ := d.map Prod.fst

def get (k : κ) (d : List (κ × ν)) : Option ν := (d.find? fun e => decide (e.1 = k)).map Prod.snd

def pop (k : κ) (d : List (κ × ν)) : List (κ × ν) := d.filter fun e => decide (e.1 ≠ k)

/-- Stores under a key that was popped. -/
def put (k : κ) (v : ν) (d : List (κ × ν)) : List (κ × ν) := pop k d ++ [(k, v)]

def evict (n : ℕ) (d : List (κ × ν)) : List (κ × ν) := d.drop (d.length - n)

theorem get_none {k : κ} {d : List (κ × ν)} : get k d = none ↔ k ∉ keys d := by
  simp only [get, keys, Option.map_eq_none_iff, List.find?_eq_none, decide_eq_true_eq, List.mem_map, not_exists,
    not_and]

theorem get_append (k : κ) (d e : List (κ × ν)) : get k (d ++ e) = (get k d).or (get k e) := by
  unfold get
  rw [List.find?_append]
  cases d.find? fun e => decide (e.1 = k) <;> rfl

theorem mem_keys_pop {j k : κ} {d : List (κ × ν)} : j ∈ keys (pop k d) ↔ j ∈ keys d ∧ j ≠ k := by
  simp only [keys, pop, List.mem_map, List.mem_filter, decide_eq_true_eq]
  constructor
  · rintro ⟨e, ⟨he, hne⟩, rfl⟩
    exact ⟨⟨e, he, rfl⟩, hne⟩
  · rintro ⟨⟨e, he, rfl⟩, hne⟩
    exact ⟨e, ⟨he, hne⟩, rfl⟩

theorem get_pop_ne {j k : κ} (h : j ≠ k) (d : List (κ × ν)) : get j (pop k d) = get j d := by
  induction d with
  | nil => rfl
  | cons e d ih =>
    unfold get pop at ih ⊢
    by_cases hk : e.1 = k
    · have hj : ¬ e.1 = j := fun he => h (he.symm.trans hk)
      rw [List.filter_cons_of_neg (by simp [hk]), List.find?_cons_of_neg (by simp [hj])]
      exact ih
    · rw [List.filter_cons_of_pos (by simp [hk])]
      by_cases hj : e.1 = j
      · rw [List.find?_cons_of_pos (by simp [hj]), List.find?_cons_of_pos (by simp [hj])]
      · rw [List.find?_cons_of_neg (by simp [hj]), List.find?_cons_of_neg (by simp [hj])]
        exact ih

@[simp] theorem get_put_self (k : κ) (v : ν) (d : List (κ × ν)) : get k (put k v d) = some v := by
  have hnone : get k (pop k d) = none := by
    rw [get_none, mem_keys_pop]
    exact fun h => h.2 rfl
  rw [put, get_append, hnone, Option.none_or]
  simp [get]

theorem get_put_ne {j k : κ} (h : j ≠ k) (v : ν) (d : List (κ × ν)) : get j (put k v d) = get j d := by
  have hlast : get j [(k, v)] = none := by
    rw [get_none]
    simp [keys, h]
  rw [put, get_append, hlast, Option.or_none, get_pop_ne h]

theorem mem_keys_put {j k : κ} {v : ν} {d : List (κ × ν)} : j ∈ keys (put k v d) ↔ j = k ∨ j ∈ keys d := by
  have happ : keys (put k v d) = keys (pop k d) ++ [k] := by simp [keys, put]
  rw [happ, List.mem_append, List.mem_singleton, mem_keys_pop]
  tauto

theorem nodup_put {d : List (κ × ν)} (h : (keys d).Nodup) (k : κ) (v : ν) : (keys (put k v d)).Nodup := by
  have happ : keys (put k v d) = keys (pop k d) ++ [k] := by simp [keys, put]
  rw [happ, List.nodup_append]
  refine ⟨h.sublist (List.filter_sublist.map _), by simp, ?_⟩
  rintro a ha b hb rfl
  rw [List.mem_singleton] at hb
  exact (mem_keys_pop.mp ha).2 hb

/-- Storing under a key that was there keeps the size. -/
theorem length_put_of_mem {k : κ} {d : List (κ × ν)} (h : k ∈ keys d) (v : ν) : (put k v d).length ≤ d.length := by
  obtain ⟨e, he, hk⟩ := List.mem_map.mp h
  have hlt : (pop k d).length < d.length := by
    rw [pop, List.length_filter_lt_length_iff_exists]
    exact ⟨e, he, by simp [hk]⟩
  rw [put, List.length_append, List.length_singleton]
  omega

omit [DecidableEq κ] in
theorem evict_of_length_le {n : ℕ} {d : List (κ × ν)} (h : d.length ≤ n) : evict n d = d := by
  rw [evict, Nat.sub_eq_zero_of_le h, List.drop_zero]

omit [DecidableEq κ] in
theorem length_evict_le (n : ℕ) (d : List (κ × ν)) : (evict n d).length ≤ n := by
  rw [evict, List.length_drop]
  omega

omit [DecidableEq κ] in
theorem evict_sublist (n : ℕ) (d : List (κ × ν)) : List.Sublist (evict n d) d := List.drop_sublist ..

/-- What is left of an entry after an eviction: all of it or nothing. -/
theorem get_evict {d : List (κ × ν)} (h : (keys d).Nodup) (n : ℕ) (k : κ) :
    get k (evict n d) = get k d ∨ get k (evict n d) = none := by
  by_cases hk : k ∈ keys (evict n d)
  · left
    have hsplit : d.take (d.length - n) ++ evict n d = d := List.take_append_drop ..
    have hfront : get k (d.take (d.length - n)) = none := by
      rw [get_none]
      intro hmem
      rw [← hsplit, keys, List.map_append, List.nodup_append] at h
      exact h.2.2 k hmem k hk rfl
    conv_rhs => rw [← hsplit]
    rw [get_append, hfront, Option.none_or]
  · exact Or.inr (get_none.mpr hk)

/-! ### Assignment -/

def assign (k : κ) (v : ν) : List (κ × ν) → List (κ × ν)
  | [] => [(k, v)]
  | e :: d => if e.1 = k then (k, v) :: d else e :: assign k v d

theorem assign_new {k : κ} {d : List (κ × ν)} (h : k ∉ keys d) (v : ν) : assign k v d = d ++ [(k, v)] := by
  induction d with
  | nil => rfl
  | cons e d ih =>
    simp only [keys, List.map_cons, List.mem_cons, not_or] at h
    unfold assign
    rw [if_neg (Ne.symm h.1), ih h.2]
    rfl

theorem keys_assign (k : κ) (v : ν) (d : List (κ × ν)) : keys (assign k v d) = if k ∈ keys d then keys d else keys d ++ [k] := by
  induction d with
  | nil => rfl
  | cons e d ih =>
    unfold assign
    by_cases he : e.1 = k
    · simp [keys, he]
    · have hk : k ∈ keys (e :: d) ↔ k ∈ keys d := by simp [keys, Ne.symm he]
      have hcons : ∀ d' : List (κ × ν), keys (e :: d') = e.1 :: keys d' := fun _ => rfl
      rw [if_neg he, hcons, ih]
      by_cases hmem : k ∈ keys d
      · rw [if_pos hmem, if_pos (hk.mpr hmem), hcons]
      · rw [if_neg hmem, if_neg fun h => hmem (hk.mp h), hcons, List.cons_append]

theorem nodup_assign {d : List (κ × ν)} (h : (keys d).Nodup) (k : κ) (v : ν) : (keys (assign k v d)).Nodup := by
  rw [keys_assign]
  split
  · exact h
  · next hk => exact h.append (List.nodup_singleton k) (by simpa using hk)

theorem length_assign_le (k : κ) (v : ν) (d : List (κ × ν)) : (assign k v d).length ≤ d.length + 1 := by
  have hkeys : ∀ d : List (κ × ν), d.length = (keys d).length := fun d => (List.length_map ..).symm
  rw [hkeys (assign k v d), hkeys d, keys_assign]
  split
  · omega
  · simp

theorem get_assign_self (k : κ) (v : ν) (d : List (κ × ν)) : get k (assign k v d) = some v := by
  induction d with
  | nil => simp [assign, get]
  | cons e d ih =>
    unfold assign
    by_cases he : e.1 = k
    · simp [he, get]
    · rw [if_neg he]
      unfold get at ih ⊢
      rw [List.find?_cons_of_neg (by simp [he])]
      exact ih

theorem get_assign_ne {j k : κ} (h : j ≠ k) (v : ν) (d : List (κ × ν)) : get j (assign k v d) = get j d := by
  induction d with
  | nil => simp [assign, get, Ne.symm h]
  | cons e d ih =>
    unfold assign
    by_cases he : e.1 = k
    · rw [if_pos he]
      unfold get
      rw [List.find?_cons_of_neg (by simp [Ne.symm h]), List.find?_cons_of_neg (by simp [he, Ne.symm h])]
    · rw [if_neg he]
      unfold get at ih ⊢
      by_cases hj : e.1 = j
      · rw [List.find?_cons_of_pos (by simp [hj]), List.find?_cons_of_pos (by simp [hj])]
      · rw [List.find?_cons_of_neg (by simp [hj]), List.find?_cons_of_neg (by simp [hj])]
        exact ih

theorem get_pop_self (k : κ) (d : List (κ × ν)) : get k (pop k d) = none := by
  rw [get_none, mem_keys_pop]
  exact fun h => h.2 rfl

theorem nodup_pop {d : List (κ × ν)} (h : (keys d).Nodup) (k : κ) : (keys (pop k d)).Nodup :=
  h.sublist (List.filter_sublist.map _)

theorem length_pop_le (k : κ) (d : List (κ × ν)) : (pop k d).length ≤ d.length := List.length_filter_le ..

end AgentWorkflow.Lib.OrderedDict
