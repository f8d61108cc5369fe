import Mathlib

/-!
# Registries

A registry files members under keys. A key leaves with its last member, so in a
registry that starts empty every key has a member.
-/

namespace AgentWorkflow.Lib

universe u v

abbrev Registry (κ : Type u) (η : Type v) := Finmap fun _ : κ => Finset η

namespace Registry

variable {κ : Type u} {η : Type v} [DecidableEq κ]

def members (r : Registry κ η) (k : κ) : Finset η := (r.lookup k).getD ∅

def Populated (r : Registry κ η) : Prop := ∀ k ∈ r, r.members k ≠ ∅

@[simp] theorem members_empty (k : κ) : members (∅ : Registry κ η) k = ∅ := rfl

theorem mem_of_mem_members {r : Registry κ η} {k : κ} {x : η} (h : x ∈ r.members k) : k ∈ r := by
  by_contra hk
  rw [members, Finmap.lookup_eq_none.mpr hk] at h
  simp at h

theorem populated_empty : Populated (∅ : Registry κ η) :=
  fun _ hk => absurd hk Finmap.notMem_empty

theorem Populated.mem_iff {r : Registry κ η} (hr : r.Populated) {k : κ} :
    k ∈ r ↔ ∃ x, x ∈ r.members k := by
  constructor
  · intro hk
    exact Finset.nonempty_iff_ne_empty.mpr (hr k hk)
  · rintro ⟨x, hx⟩
    exact mem_of_mem_members hx

variable [DecidableEq η]

def add (r : Registry κ η) (k : κ) (x : η) : Registry κ η := r.insert k (insert x (r.members k))

def remove (r : Registry κ η) (k : κ) (x : η) : Registry κ η :=
  let rest := (r.members k).erase x
  if rest = ∅ then r.erase k else r.insert k rest

/-! ### `add` -/

@[simp] theorem mem_add {r : Registry κ η} {k k' : κ} {x : η} :
    k' ∈ r.add k x ↔ k' = k ∨ k' ∈ r := Finmap.mem_insert

theorem members_add_self (r : Registry κ η) (k : κ) (x : η) :
    (r.add k x).members k = insert x (r.members k) := by
  rw [members, add, Finmap.lookup_insert]
  rfl

theorem members_add_of_ne (r : Registry κ η) {k k' : κ} (x : η) (h : k' ≠ k) :
    (r.add k x).members k' = r.members k' := by
  rw [members, add, Finmap.lookup_insert_of_ne _ h]
  rfl

theorem mem_members_add {r : Registry κ η} {k k' : κ} {x y : η} :
    y ∈ (r.add k x).members k' ↔ (k' = k ∧ y = x) ∨ y ∈ r.members k' := by
  by_cases hk : k' = k
  · subst hk
    simp [members_add_self]
  · simp [members_add_of_ne r x hk, hk]

/-! ### `remove` -/

theorem members_remove_self (r : Registry κ η) (k : κ) (x : η) :
    (r.remove k x).members k = (r.members k).erase x := by
  simp only [remove]
  split_ifs with h
  · rw [h, members, Finmap.lookup_erase]
    rfl
  · rw [members, Finmap.lookup_insert]
    rfl

theorem members_remove_of_ne (r : Registry κ η) {k k' : κ} (x : η) (h : k' ≠ k) :
    (r.remove k x).members k' = r.members k' := by
  simp only [remove]
  split_ifs
  · rw [members, Finmap.lookup_erase_ne h]
    rfl
  · rw [members, Finmap.lookup_insert_of_ne _ h]
    rfl

theorem mem_members_remove {r : Registry κ η} {k k' : κ} {x y : η} :
    y ∈ (r.remove k x).members k' ↔ y ∈ r.members k' ∧ ¬ (k' = k ∧ y = x) := by
  by_cases hk : k' = k
  · subst hk
    simp [members_remove_self, and_comm]
  · simp [members_remove_of_ne r x hk, hk]

theorem mem_remove_of_ne {r : Registry κ η} {k k' : κ} {x : η} (h : k' ≠ k) :
    k' ∈ r.remove k x ↔ k' ∈ r := by
  simp only [remove]
  split_ifs
  · simp [h]
  · simp [h]

/-- The key itself stays exactly while another member is left. -/
theorem mem_remove_self {r : Registry κ η} {k : κ} {x : η} :
    k ∈ r.remove k x ↔ (r.members k).erase x ≠ ∅ := by
  simp only [remove]
  split_ifs with h
  · simp [h]
  · simp [h]

/-! ### Registries without idle keys -/

theorem Populated.add {r : Registry κ η} (hr : r.Populated) (k : κ) (x : η) : (r.add k x).Populated := by
  intro k' hk'
  by_cases hk : k' = k
  · subst hk
    simp [members_add_self]
  · rw [members_add_of_ne r x hk]
    apply hr
    simpa [hk] using hk'

theorem Populated.remove {r : Registry κ η} (hr : r.Populated) (k : κ) (x : η) :
    (r.remove k x).Populated := by
  intro k' hk'
  by_cases hk : k' = k
  · subst hk
    rw [members_remove_self]
    exact mem_remove_self.mp hk'
  · rw [members_remove_of_ne r x hk]
    exact hr k' ((mem_remove_of_ne hk).mp hk')

/-- `any(r.values())` -/
def anyMember (r : Registry κ η) : Bool := decide (∃ k ∈ r.keys, r.members k ≠ ∅)

theorem Populated.anyMember {r : Registry κ η} (hr : r.Populated) : r.anyMember = true ↔ ∃ k, k ∈ r := by
  simp only [Registry.anyMember, decide_eq_true_eq, Finmap.mem_keys]
  constructor
  · intro h
    obtain ⟨k, hk, -⟩ := h
    exact ⟨k, hk⟩
  · intro h
    obtain ⟨k, hk⟩ := h
    exact ⟨k, hk, hr k hk⟩

end Registry

end AgentWorkflow.Lib
