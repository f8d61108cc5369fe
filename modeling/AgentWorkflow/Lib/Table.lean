import Mathlib

/-!
# Tables with a primary key

A table is the list of its rows. `update` is `UPDATE .. SET .. WHERE ..`,
`rowcount` the number of rows the statement matched, `select` is
`SELECT .. WHERE .. ORDER BY ..`. Loops that run one `UPDATE` for each selected
row are reduced to one function on rows.
-/

namespace AgentWorkflow.Lib.Table

universe u v w
variable {α : Type u} {κ : Type v} {β : Type w}

def update (p : α → Bool) (f : α → α) (t : List α) : List α :=
  t.map fun r => if p r then f r else r

def rowcount (p : α → Bool) (t : List α) : ℕ := t.countP p

def select (p : α → Bool) (le : α → α → Prop) [DecidableRel le] (t : List α) : List α :=
  (t.filter p).insertionSort le

section Find
variable [DecidableEq κ] (key : α → κ)

def find (k : κ) (t : List α) : Option α := t.find? fun r => decide (key r = k)

def Unique (t : List α) : Prop := (t.map key).Nodup

variable {key}

theorem find_some {k : κ} {t : List α} {r : α} (h : find key k t = some r) :
    r ∈ t ∧ key r = k := by
  have hk := List.find?_some h
  exact ⟨List.mem_of_find?_eq_some h, of_decide_eq_true hk⟩

theorem find_none {k : κ} {t : List α} : find key k t = none ↔ ∀ r ∈ t, key r ≠ k := by
  simp [find, List.find?_eq_none]

theorem find_of_mem {t : List α} (hu : Unique key t) {r : α} (hr : r ∈ t) :
    find key (key r) t = some r := by
  induction t with
  | nil => simp at hr
  | cons a t ih =>
    rw [Unique, List.map_cons, List.nodup_cons] at hu
    rcases List.mem_cons.mp hr with rfl | hr
    · simp [find]
    · have hne : ¬ key a = key r := by
        intro he
        rw [he] at hu
        exact hu.1 (List.mem_map_of_mem hr)
      have ih' := ih hu.2 hr
      simp only [find, List.find?_cons, hne, decide_false] at ih' ⊢
      exact ih'

theorem find_iff_mem {t : List α} (hu : Unique key t) {k : κ} {r : α} :
    find key k t = some r ↔ r ∈ t ∧ key r = k := by
  constructor
  · exact find_some
  · rintro ⟨hr, rfl⟩
    exact find_of_mem hu hr

theorem find_map {f : α → α} (hf : ∀ r, key (f r) = key r) (k : κ) (t : List α) :
    find key k (t.map f) = (find key k t).map f := by
  simp only [find, List.find?_map, Function.comp_def, hf]

theorem find_filter {p : α → Bool} {t : List α} (hu : Unique key t) (k : κ) :
    find key k (t.filter p) = (find key k t).filter p := by
  have hf : Unique key (t.filter p) := hu.sublist (List.filter_sublist.map key)
  ext r
  rw [find_iff_mem hf, Option.filter_eq_some_iff, find_iff_mem hu, List.mem_filter]
  tauto

theorem find_append (k : κ) (t t' : List α) :
    find key k (t ++ t') = (find key k t).or (find key k t') := by
  simp only [find, List.find?_append]

omit [DecidableEq κ] in
theorem unique_map {f : α → α} (hf : ∀ r, key (f r) = key r) {t : List α} (hu : Unique key t) :
    Unique key (t.map f) := by
  rw [Unique, List.map_map]
  have he : key ∘ f = key := funext hf
  rw [he]
  exact hu

theorem unique_snoc {t : List α} (hu : Unique key t) {r : α} (hr : find key (key r) t = none) :
    Unique key (t ++ [r]) := by
  rw [Unique, List.map_append, List.map_singleton, List.nodup_append]
  refine ⟨hu, List.nodup_singleton _, ?_⟩
  intro k hk k' hk' he
  obtain ⟨a, ha, rfl⟩ := List.mem_map.mp hk
  rw [List.mem_singleton.mp hk'] at he
  exact find_none.mp hr a ha he

end Find

/-! ### Updates -/

theorem update_key {key : α → κ} {p : α → Bool} {f : α → α} (hf : ∀ r, key (f r) = key r) (r : α) :
    key (if p r then f r else r) = key r := by
  split_ifs
  · exact hf r
  · rfl

/-- A loop of updates acts on every row separately. -/
theorem foldl_update (p : β → α → Bool) (f : β → α → α) (xs : List β) (t : List α) :
    xs.foldl (fun t x => update (p x) (f x) t) t =
      t.map fun r => xs.foldl (fun r x => if p x r then f x r else r) r := by
  induction xs generalizing t with
  | nil => simp
  | cons x xs ih =>
    simp only [List.foldl_cons]
    rw [ih, update, List.map_map]
    rfl

theorem foldl_guard_key {key : α → κ} (p : β → α → Bool) (f : β → α → α)
    (hf : ∀ x r, key (f x r) = key r) (xs : List β) (r : α) :
    key (xs.foldl (fun r x => if p x r then f x r else r) r) = key r := by
  induction xs generalizing r with
  | nil => rfl
  | cons x xs ih =>
    rw [List.foldl_cons, ih]
    exact update_key (hf x) r

/-- When no statement of the loop matches a row, the row stays as it is. -/
theorem foldl_guard_skip (p : β → α → Bool) (f : β → α → α) (xs : List β) (r : α)
    (h : ∀ x ∈ xs, p x r = false) :
    xs.foldl (fun r x => if p x r then f x r else r) r = r := by
  induction xs with
  | nil => rfl
  | cons x xs ih =>
    rw [List.foldl_cons, if_neg (by simp [h x (List.mem_cons_self ..)])]
    exact ih fun y hy => h y (List.mem_cons_of_mem _ hy)

/-- When one statement of the loop is for the row and the others are for rows
with other keys, exactly that one acts. -/
theorem foldl_guard_once (key : α → κ) (kb : β → κ) (p : β → α → Bool) (f : β → α → α)
    (hp : ∀ x r, kb x ≠ key r → p x r = false) (hf : ∀ x r, key (f x r) = key r)
    {xs : List β} (hx : (xs.map kb).Nodup) {x : β} (hmem : x ∈ xs) {r : α} (hk : kb x = key r) :
    xs.foldl (fun r x => if p x r then f x r else r) r = if p x r then f x r else r := by
  induction xs generalizing r with
  | nil => simp at hmem
  | cons y ys ih =>
    rw [List.map_cons, List.nodup_cons] at hx
    rw [List.foldl_cons]
    rcases List.mem_cons.mp hmem with rfl | hmem
    · apply foldl_guard_skip
      intro y hy
      apply hp
      rw [update_key (hf x), ← hk]
      intro he
      exact hx.1 (he ▸ List.mem_map_of_mem hy)
    · have hne : kb y ≠ key r := by
        intro he
        rw [← hk] at he
        exact hx.1 (he ▸ List.mem_map_of_mem hmem)
      rw [if_neg (by simp [hp y r hne])]
      exact ih hx.2 hmem hk

theorem filter_key_singleton [DecidableEq κ] {kb : β → κ} {xs : List β} (hx : (xs.map kb).Nodup)
    {x : β} (hmem : x ∈ xs) : xs.filter (fun y => decide (kb y = kb x)) = [x] := by
  induction xs with
  | nil => simp at hmem
  | cons y ys ih =>
    rw [List.map_cons, List.nodup_cons] at hx
    rcases List.mem_cons.mp hmem with rfl | hmem
    · have hnil : ys.filter (fun y => decide (kb y = kb x)) = [] := by
        rw [List.filter_eq_nil_iff]
        intro z hz he
        exact hx.1 (of_decide_eq_true he ▸ List.mem_map_of_mem hz)
      simp [hnil]
    · have hne : ¬ kb y = kb x := by
        intro he
        exact hx.1 (he ▸ List.mem_map_of_mem hmem)
      rw [List.filter_cons_of_neg (by simpa using hne)]
      exact ih hx.2 hmem

theorem filter_key_nil [DecidableEq κ] {kb : β → κ} {xs : List β} {k : κ}
    (h : ∀ x ∈ xs, kb x ≠ k) : xs.filter (fun y => decide (kb y = k)) = [] := by
  rw [List.filter_eq_nil_iff]
  intro x hx he
  exact h x hx (of_decide_eq_true he)

/-! ### Selections -/

section Select
variable {p : α → Bool} {le : α → α → Prop} [DecidableRel le] {t : List α}

theorem mem_select {r : α} : r ∈ select p le t ↔ r ∈ t ∧ p r = true := by
  simp [select, List.mem_insertionSort, List.mem_filter]

theorem select_perm : (select p le t).Perm (t.filter p) := List.perm_insertionSort le _

theorem select_unique {key : α → κ} (hu : Unique key t) : Unique key (select p le t) := by
  have hf : Unique key (t.filter p) := hu.sublist (List.filter_sublist.map key)
  have hperm : (select p le t).Perm (t.filter p) := select_perm
  exact (hperm.map key).nodup_iff.mpr hf

theorem select_sorted [Std.Total le] [IsTrans α le] : (select p le t).Pairwise le :=
  List.pairwise_insertionSort le _

/-- With a `LIMIT`, the rows that are left out come after the selected ones. -/
theorem select_take_before [Std.Total le] [IsTrans α le] {n : ℕ} {r s : α} (hr : r ∈ (select p le t).take n)
    (hs : s ∈ t) (hp : p s = true) (hnot : s ∉ (select p le t).take n) : le r s := by
  have hsel : s ∈ select p le t := mem_select.mpr ⟨hs, hp⟩
  have hsort : (select p le t).Pairwise le := select_sorted
  rw [← List.take_append_drop n (select p le t)] at hsel hsort
  rw [List.pairwise_append] at hsort
  rcases List.mem_append.mp hsel with h | h
  · exact absurd h hnot
  · exact hsort.2.2 r hr s h

theorem select_take_length (n : ℕ) : ((select p le t).take n).length = min n (t.countP p) := by
  rw [List.length_take, select_perm.length_eq, List.countP_eq_length_filter]

end Select

end AgentWorkflow.Lib.Table
