import Mathlib

/-!
# Maps that index a list

A finite map sends keys to positions of a list. `Points`: what it holds under a key
is the position of an entry with that key for which `p` holds. `Covers`: every such
entry of key `k` is the one the map holds. The second needs such entries to be
`Unique`, the first does not.
-/

namespace AgentWorkflow.Lib

universe u v
variable {α : Type u} {κ : Type v} {key : α → κ} {p : α → Bool} {l l' : List α} {i : ℕ} {x y : α} {k : κ}

theorem map_set_same {β : Type*} {f : α → β} (hx : l[i]? = some x) (hf : f y = f x) : (l.set i y).map f = l.map f := by
  obtain ⟨hi, rfl⟩ := List.getElem?_eq_some_iff.mp hx
  rw [List.map_set, hf, ← List.getElem_map f, List.set_getElem_self]
  rw [List.length_map]
  exact hi

theorem getElem?_snoc {z : α} (hz : (l ++ [x])[i]? = some z) : l[i]? = some z ∨ (i = l.length ∧ z = x) := by
  by_cases hi : i < l.length
  · exact Or.inl ((List.getElem?_append_left hi).symm.trans hz)
  · have hlen := (List.getElem?_eq_some_iff.mp hz).1
    rw [List.length_append, List.length_singleton] at hlen
    rw [List.getElem?_append_right (Nat.le_of_not_lt hi)] at hz
    exact Or.inr ⟨by omega, List.mem_singleton.mp (List.mem_of_getElem? hz)⟩

theorem getElem?_set_cases {j : ℕ} {z : α} (hz : (l.set i y)[j]? = some z) :
    (j = i ∧ z = y) ∨ (j ≠ i ∧ l[j]? = some z) := by
  by_cases hj : j = i
  · subst hj
    have hlt := (List.getElem?_eq_some_iff.mp hz).1
    rw [List.length_set] at hlt
    rw [List.getElem?_set_self hlt] at hz
    exact Or.inl ⟨rfl, (Option.some.inj hz).symm⟩
  · rw [List.getElem?_set_ne (Ne.symm hj)] at hz
    exact Or.inr ⟨hj, hz⟩

/-! ### At most one entry of a key -/

/-- `p` holds for no entry of key `k` but the one at position `i`, if that. -/
def Only (key : α → κ) (p : α → Bool) (l : List α) (k : κ) (i : ℕ) : Prop :=
  ∀ (j : ℕ) (z : α), l[j]? = some z → key z = k → p z = true → j = i

def Unique (key : α → κ) (p : α → Bool) (l : List α) (k : κ) : Prop :=
  ∀ (i : ℕ) (x : α), l[i]? = some x → key x = k → p x = true → Only key p l k i

theorem Only.weaken {q : α → Bool} (h : Only key q l k i) (hpq : ∀ x, p x = true → q x = true) : Only key p l k i :=
  fun j z hz hk hp => h j z hz hk (hpq z hp)

theorem unique_nil : Unique key p [] k := by
  intro i x hx
  simp at hx

theorem Unique.congr (h : Unique key p l k) (hl : l'.map (fun x => (key x, p x)) = l.map fun x => (key x, p x)) :
    Unique key p l' k := by
  have hback : ∀ (i : ℕ) (x' : α), l'[i]? = some x' → ∃ x, l[i]? = some x ∧ key x = key x' ∧ p x = p x' := by
    intro i x' hx'
    have hget := congrArg (fun l => l[i]?) hl.symm
    simpa only [List.getElem?_map, hx', Option.map_some, Option.map_eq_some_iff, Prod.mk.injEq] using hget
  intro i x' hx' hk hp j z' hz' hzk hzp
  obtain ⟨x, hx, hkx, hpx⟩ := hback i x' hx'
  obtain ⟨z, hz, hkz, hpz⟩ := hback j z' hz'
  exact h i x hx (hkx.trans hk) (hpx.trans hp) j z hz (hkz.trans hzk) (hpz.trans hzp)

theorem Unique.append (h : Unique key p l k)
    (hnew : key x = k → ∀ (i : ℕ) (z : α), l[i]? = some z → key z = k → p z = false) : Unique key p (l ++ [x]) k := by
  intro i z hz hk hp j w hw hkw hpw
  obtain hzl | ⟨hi, hzx⟩ := getElem?_snoc hz
  · obtain hwl | ⟨hj, hwx⟩ := getElem?_snoc hw
    · exact h i z hzl hk hp j w hwl hkw hpw
    · rw [hnew (hwx ▸ hkw) i z hzl hk] at hp
      cases hp
  · obtain hwl | ⟨hj, hwx⟩ := getElem?_snoc hw
    · rw [hnew (hzx ▸ hk) j w hwl hkw] at hpw
      cases hpw
    · exact hj.trans hi.symm

theorem Unique.set (h : Unique key p l k) (hx : l[i]? = some x) (hkey : key y = key x)
    (hp : p y = true → p x = true) : Unique key p (l.set i y) k := by
  have hback : ∀ (j : ℕ) (z : α), (l.set i y)[j]? = some z → key z = k → p z = true →
      ∃ w, l[j]? = some w ∧ key w = k ∧ p w = true := by
    intro j z hz hk hpz
    by_cases hij : i = j
    · subst hij
      rw [List.getElem?_set_self (List.getElem?_eq_some_iff.mp hx).1] at hz
      cases hz
      exact ⟨x, hx, hkey.symm.trans hk, hp hpz⟩
    · rw [List.getElem?_set_ne hij] at hz
      exact ⟨z, hz, hk, hpz⟩
  intro j z hz hk hpz j' z' hz' hk' hpz'
  obtain ⟨w, hw, hkw, hpw⟩ := hback j z hz hk hpz
  obtain ⟨w', hw', hkw', hpw'⟩ := hback j' z' hz' hk' hpz'
  exact h j w hw hkw hpw j' w' hw' hkw' hpw'

/-! ### The map -/

section Maps
variable [DecidableEq κ] {m : Finmap fun _ : κ => ℕ}

def Points (key : α → κ) (p : α → Bool) (m : Finmap fun _ : κ => ℕ) (l : List α) : Prop :=
  ∀ (k : κ) (i : ℕ), m.lookup k = some i → ∃ x, l[i]? = some x ∧ key x = k ∧ p x = true

def Covers (key : α → κ) (p : α → Bool) (m : Finmap fun _ : κ => ℕ) (l : List α) (k : κ) : Prop :=
  ∀ (i : ℕ) (x : α), l[i]? = some x → key x = k → p x = true → m.lookup k = some i

theorem points_empty : Points key p (∅ : Finmap fun _ : κ => ℕ) l := by
  intro k i hk
  simp at hk

theorem covers_nil : Covers key p m [] k := by
  intro i x hx
  simp at hx

theorem Points.mem_keys (h : Points key p m l) (hk : k ∈ m.keys) :
    ∃ (i : ℕ) (x : α), l[i]? = some x ∧ key x = k ∧ p x = true := by
  rw [Finmap.mem_keys, Finmap.mem_iff] at hk
  obtain ⟨i, hi⟩ := hk
  exact ⟨i, h k i hi⟩

theorem Covers.mem_keys (h : Covers key p m l k) (hx : l[i]? = some x) (hk : key x = k) (hp : p x = true) :
    k ∈ m.keys := by
  rw [Finmap.mem_keys, Finmap.mem_iff]
  exact ⟨i, h i x hx hk hp⟩

theorem Points.congr (h : Points key p m l) (hl : l'.map (fun x => (key x, p x)) = l.map fun x => (key x, p x)) :
    Points key p m l' := by
  intro k i hi
  obtain ⟨x, hx, hk, hp⟩ := h k i hi
  have hget := congrArg (fun l => l[i]?) hl
  simp only [List.getElem?_map, hx, Option.map_some, Option.map_eq_some_iff, Prod.mk.injEq] at hget
  obtain ⟨x', hx', hkey, hpx⟩ := hget
  exact ⟨x', hx', hkey.trans hk, hpx.trans hp⟩

theorem Covers.congr (h : Covers key p m l k) (hl : l'.map (fun x => (key x, p x)) = l.map fun x => (key x, p x)) :
    Covers key p m l' k := by
  intro i x' hx' hk hp
  have hget := congrArg (fun l => l[i]?) hl.symm
  simp only [List.getElem?_map, hx', Option.map_some, Option.map_eq_some_iff, Prod.mk.injEq] at hget
  obtain ⟨x, hx, hkey, hpx⟩ := hget
  exact h i x hx (hkey.trans hk) (hpx.trans hp)

theorem Points.append (h : Points key p m l) : Points key p m (l ++ [x]) := by
  intro k i hi
  obtain ⟨z, hz, hzk⟩ := h k i hi
  exact ⟨z, (List.getElem?_append_left (List.getElem?_eq_some_iff.mp hz).1).trans hz, hzk⟩

theorem Covers.append (h : Covers key p m l k) (hp : p x = false) : Covers key p m (l ++ [x]) k := by
  intro i z hz hk hzp
  obtain hzl | ⟨-, hzx⟩ := getElem?_snoc hz
  · exact h i z hzl hk hzp
  · rw [hzx, hp] at hzp
    cases hzp

/-- What `m` holds under another key than that of `x` is kept when `x` is replaced. -/
theorem Points.set_other (h : Points key p m l) (hx : l[i]? = some x) (hk : k ≠ key x) {j : ℕ}
    (hj : m.lookup k = some j) : ∃ z, (l.set i y)[j]? = some z ∧ key z = k ∧ p z = true := by
  obtain ⟨z, hz, hzk, hzp⟩ := h k j hj
  have hij : i ≠ j := by
    rintro rfl
    rw [hx] at hz
    cases hz
    exact hk hzk.symm
  exact ⟨z, (List.getElem?_set_ne hij).trans hz, hzk, hzp⟩

theorem Points.set_insert (h : Points key p m l) (hx : l[i]? = some x) (hkey : key y = key x) (hp : p y = true) :
    Points key p (m.insert (key x) i) (l.set i y) := by
  intro k j hj
  by_cases hk : k = key x
  · subst hk
    rw [Finmap.lookup_insert] at hj
    cases hj
    exact ⟨y, List.getElem?_set_self (List.getElem?_eq_some_iff.mp hx).1, hkey, hp⟩
  · rw [Finmap.lookup_insert_of_ne _ hk] at hj
    exact h.set_other hx hk hj

theorem Points.set_erase (h : Points key p m l) (hx : l[i]? = some x) : Points key p (m.erase (key x)) (l.set i y) := by
  intro k j hj
  by_cases hk : k = key x
  · subst hk
    rw [Finmap.lookup_erase] at hj
    cases hj
  · rw [Finmap.lookup_erase_ne hk] at hj
    exact h.set_other hx hk hj

theorem Covers.set_insert (h : Covers key p m l k) (hx : l[i]? = some x) (hkey : key y = key x)
    (honly : key x = k → Only key p l k i) : Covers key p (m.insert (key x) i) (l.set i y) k := by
  intro j z hz hzk hzp
  by_cases hij : i = j
  · subst hij
    rw [List.getElem?_set_self (List.getElem?_eq_some_iff.mp hx).1] at hz
    cases hz
    rw [← hzk, hkey, Finmap.lookup_insert]
  · rw [List.getElem?_set_ne hij] at hz
    by_cases hk : key x = k
    · exact absurd (honly hk j z hz hzk hzp).symm hij
    · rw [Finmap.lookup_insert_of_ne _ (Ne.symm hk)]
      exact h j z hz hzk hzp

theorem Covers.set_erase (h : Covers key p m l k) (hx : l[i]? = some x) (hp : p y = false)
    (honly : key x = k → Only key p l k i) : Covers key p (m.erase (key x)) (l.set i y) k := by
  intro j z hz hzk hzp
  by_cases hij : i = j
  · subst hij
    rw [List.getElem?_set_self (List.getElem?_eq_some_iff.mp hx).1] at hz
    cases hz
    rw [hp] at hzp
    cases hzp
  · rw [List.getElem?_set_ne hij] at hz
    by_cases hk : key x = k
    · exact absurd (honly hk j z hz hzk hzp).symm hij
    · rw [Finmap.lookup_erase_ne (Ne.symm hk)]
      exact h j z hz hzk hzp

end Maps

end AgentWorkflow.Lib
