import AgentWorkflow.Lib.JsonText

/-!
# JSON documents as values

When two documents stand for the same value: `number` is the number of a numeral and
`text` what the text of a string stands for. Objects are compared member by member, a
repeated key included: every member of one has its like in the other.
-/

namespace AgentWorkflow.Lib.JsonText

universe u v
variable {α : Type u}

/-! ### Induction -/

section Induct
variable {P : Doc α → Prop} (null : P .null) (bool : ∀ b, P (.bool b)) (num : ∀ n, P (.num n))
  (str : ∀ s, P (.str s)) (arr : ∀ l, (∀ v ∈ l, P v) → P (.arr l)) (obj : ∀ l, (∀ p ∈ l, P p.2) → P (.obj l))
include null bool num str arr obj

set_option linter.unusedSectionVars false in
mutual
theorem Doc.induct (d : Doc α) : P d := by
  match d with
  | .null => exact null
  | .bool b => exact bool b
  | .num n => exact num n
  | .str s => exact str s
  | .arr l => exact arr l (Doc.inductItems l)
  | .obj l => exact obj l (Doc.inductMembers l)

theorem Doc.inductItems (l : List (Doc α)) : ∀ v ∈ l, P v := by
  match l with
  | [] => simp
  | v :: l => exact List.forall_mem_cons.mpr ⟨Doc.induct v, Doc.inductItems l⟩

theorem Doc.inductMembers (l : List (List α × Doc α)) : ∀ p ∈ l, P p.2 := by
  match l with
  | [] => simp
  | (_, v) :: l => exact List.forall_mem_cons.mpr ⟨Doc.induct v, Doc.inductMembers l⟩
end

end Induct

/-! ### The same value -/

section Same
variable {κ : Type v} (text : List α → κ) (number : Numeral α → ℚ)

mutual
def Doc.Same : Doc α → Doc α → Prop
  | .null, .null => True
  | .bool a, .bool b => a = b
  | .num m, .num n => number m = number n
  | .str s, .str t => text s = text t
  | .arr l, .arr m => SameItems l m
  | .obj l, .obj m => Within l m ∧ ∀ q ∈ m, Covers l q
  | _, _ => False
termination_by structural d => d

def Doc.SameItems : List (Doc α) → List (Doc α) → Prop
  | [], [] => True
  | v :: l, w :: m => v.Same w ∧ SameItems l m
  | _, _ => False
termination_by structural l => l

/-- Every member has its like in `m`. -/
def Doc.Within : List (List α × Doc α) → List (List α × Doc α) → Prop
  | [], _ => True
  | (k, v) :: l, m => (∃ q ∈ m, text k = text q.1 ∧ v.Same q.2) ∧ Within l m
termination_by structural l => l

/-- Some member is like `q`. -/
def Doc.Covers : List (List α × Doc α) → List α × Doc α → Prop
  | [], _ => False
  | (k, v) :: l, q => (text k = text q.1 ∧ v.Same q.2) ∨ Covers l q
termination_by structural l => l
end

/-- The same members, but for those with a key that is skipped. -/
structure Doc.SameMembers (skip : κ → Prop) (l m : List (List α × Doc α)) : Prop where
  kept : ∀ p ∈ l, ¬ skip (text p.1) → ∃ q ∈ m, text p.1 = text q.1 ∧ p.2.Same text number q.2
  only : ∀ q ∈ m, ¬ skip (text q.1) → ∃ p ∈ l, text p.1 = text q.1 ∧ p.2.Same text number q.2

/-- Members that share a key share the value. -/
def Doc.Agree (skip : κ → Prop) (l : List (List α × Doc α)) : Prop :=
  ∀ p ∈ l, ∀ q ∈ l, ¬ skip (text p.1) → text p.1 = text q.1 → p.2.Same text number q.2

mutual
/-- Every numeral is good, and no object has two values for a key. -/
def Doc.Plain (good : Numeral α → Prop) : Doc α → Prop
  | .num n => good n
  | .arr l => PlainItems good l
  | .obj l => PlainMembers good l ∧ Doc.Agree text number (fun _ => False) l
  | _ => True

def Doc.PlainItems (good : Numeral α → Prop) : List (Doc α) → Prop
  | [] => True
  | v :: l => v.Plain good ∧ PlainItems good l

def Doc.PlainMembers (good : Numeral α → Prop) : List (List α × Doc α) → Prop
  | [] => True
  | (_, v) :: l => v.Plain good ∧ PlainMembers good l
end

end Same

section
-- the equations are made here once, not in every proof at the same time
attribute [local simp] Doc.Same Doc.SameItems Doc.Within Doc.Covers Doc.Plain Doc.PlainItems Doc.PlainMembers
end

namespace Doc
variable {κ : Type v} {text : List α → κ} {number : Numeral α → ℚ}

theorem within_iff {l m : List (List α × Doc α)} :
    Within text number l m ↔ ∀ p ∈ l, ∃ q ∈ m, text p.1 = text q.1 ∧ p.2.Same text number q.2 := by
  induction l with
  | nil => simp [Within]
  | cons p l ih => rw [Within, ih, List.forall_mem_cons]

theorem covers_iff {l : List (List α × Doc α)} {q : List α × Doc α} :
    Covers text number l q ↔ ∃ p ∈ l, text p.1 = text q.1 ∧ p.2.Same text number q.2 := by
  induction l with
  | nil => simp [Covers]
  | cons p l ih => rw [Covers, ih, List.exists_mem_cons_iff]

theorem same_obj {l m : List (List α × Doc α)} :
    (Doc.obj l).Same text number (.obj m) ↔ SameMembers text number (fun _ => False) l m := by
  rw [Same, within_iff]
  simp only [covers_iff]
  exact ⟨fun h => ⟨fun p hp _ => h.1 p hp, fun q hq _ => h.2 q hq⟩,
    fun h => ⟨fun p hp => h.kept p hp not_false, fun q hq => h.only q hq not_false⟩⟩

theorem sameItems_iff {l m : List (Doc α)} :
    SameItems text number l m ↔ List.Forall₂ (fun v w => v.Same text number w) l m := by
  induction l generalizing m with
  | nil => cases m <;> simp [SameItems]
  | cons v l ih =>
    cases m with
    | nil => simp [SameItems]
    | cons w m => rw [SameItems, ih, List.forall₂_cons]

theorem plainItems_iff {good : Numeral α → Prop} {l : List (Doc α)} :
    PlainItems text number good l ↔ ∀ v ∈ l, v.Plain text number good := by
  induction l with
  | nil => simp [PlainItems]
  | cons v l ih => rw [PlainItems, ih, List.forall_mem_cons]

theorem plainMembers_iff {good : Numeral α → Prop} {l : List (List α × Doc α)} :
    PlainMembers text number good l ↔ ∀ p ∈ l, p.2.Plain text number good := by
  induction l with
  | nil => simp [PlainMembers]
  | cons p l ih => rw [PlainMembers, ih, List.forall_mem_cons]

theorem same_refl (d : Doc α) : d.Same text number d := by
  induction d using Doc.induct with
  | null => trivial
  | bool b => exact rfl
  | num n => exact rfl
  | str s => exact rfl
  | arr l ih =>
    rw [Same, sameItems_iff]
    exact List.forall₂_same.mpr ih
  | obj l ih =>
    rw [same_obj]
    exact ⟨fun p hp _ => ⟨p, hp, rfl, ih p hp⟩, fun p hp _ => ⟨p, hp, rfl, ih p hp⟩⟩

theorem same_symm {d e : Doc α} (h : d.Same text number e) : e.Same text number d := by
  induction d using Doc.induct generalizing e with
  | null => cases e <;> exact h
  | bool b => cases e <;> first | exact Eq.symm h | cases h
  | num n => cases e <;> first | exact Eq.symm h | cases h
  | str s => cases e <;> first | exact Eq.symm h | cases h
  | arr l ih =>
    cases e with
    | arr m =>
      rw [Same, sameItems_iff] at h ⊢
      induction h with
      | nil => exact .nil
      | cons hv _ hl =>
        exact .cons (ih _ (List.mem_cons_self ..) hv) (hl fun v hv => ih v (List.mem_cons_of_mem _ hv))
    | _ => cases h
  | obj l ih =>
    cases e with
    | obj m =>
      rw [same_obj] at h ⊢
      constructor
      · intro q hq hskip
        obtain ⟨p, hp, hkey, hsame⟩ := h.only q hq hskip
        exact ⟨p, hp, hkey.symm, ih p hp hsame⟩
      · intro p hp hskip
        obtain ⟨q, hq, hkey, hsame⟩ := h.kept p hp hskip
        exact ⟨q, hq, hkey.symm, ih p hp hsame⟩
    | _ => cases h

theorem same_trans {d e f : Doc α} (h : d.Same text number e) (h' : e.Same text number f) :
    d.Same text number f := by
  induction d using Doc.induct generalizing e f with
  | null =>
    cases e with
    | null => exact h'
    | _ => cases h
  | bool b =>
    cases e with
    | bool c =>
      have hb : b = c := h
      rwa [hb]
    | _ => cases h
  | num n =>
    cases e with
    | num m =>
      cases f with
      | num k => exact Eq.trans h h'
      | _ => cases h'
    | _ => cases h
  | str s =>
    cases e with
    | str t =>
      cases f with
      | str r => exact Eq.trans h h'
      | _ => cases h'
    | _ => cases h
  | arr l ih =>
    cases e with
    | arr m =>
      cases f with
      | arr n =>
        rw [Same, sameItems_iff] at h h' ⊢
        induction h generalizing n with
        | nil => exact h'
        | cons hv _ hl =>
          cases h' with
          | cons hw hm =>
            exact .cons (ih _ (List.mem_cons_self ..) hv hw)
              (hl (fun v hv => ih v (List.mem_cons_of_mem _ hv)) _ hm)
      | _ => cases h'
    | _ => cases h
  | obj l ih =>
    cases e with
    | obj m =>
      cases f with
      | obj n =>
        rw [same_obj] at h h' ⊢
        constructor
        · intro p hp hskip
          obtain ⟨q, hq, hkey, hsame⟩ := h.kept p hp hskip
          obtain ⟨r, hr, hkey', hsame'⟩ := h'.kept q hq not_false
          exact ⟨r, hr, hkey.trans hkey', ih p hp hsame hsame'⟩
        · intro r hr hskip
          obtain ⟨q, hq, hkey', hsame'⟩ := h'.only r hr hskip
          obtain ⟨p, hp, hkey, hsame⟩ := h.only q hq not_false
          exact ⟨p, hp, hkey.trans hkey', ih p hp hsame hsame'⟩
      | _ => cases h'
    | _ => cases h

/-- What is the same as a plain document is plain, when goodness depends on the number. -/
theorem plain_of_same {good : Numeral α → Prop} (hgood : ∀ m n, number m = number n → good n → good m)
    {d e : Doc α} (h : d.Same text number e) (he : e.Plain text number good) : d.Plain text number good := by
  induction d using Doc.induct generalizing e with
  | null => trivial
  | bool b => trivial
  | str s => trivial
  | num n =>
    cases e with
    | num m => exact hgood n m h he
    | _ => cases h
  | arr l ih =>
    cases e with
    | arr m =>
      rw [Same, sameItems_iff] at h
      rw [Plain, plainItems_iff] at he ⊢
      induction h with
      | nil => simp
      | cons hv _ hl =>
        rw [List.forall_mem_cons] at he ⊢
        exact ⟨ih _ (List.mem_cons_self ..) hv he.1, hl (fun v hv => ih v (List.mem_cons_of_mem _ hv)) he.2⟩
    | _ => cases h
  | obj l ih =>
    cases e with
    | obj m =>
      rw [same_obj] at h
      rw [Plain, plainMembers_iff] at he ⊢
      obtain ⟨hplain, hagree⟩ := he
      constructor
      · intro p hp
        obtain ⟨q, hq, -, hsame⟩ := h.kept p hp not_false
        exact ih p hp hsame (hplain q hq)
      · intro p hp p' hp' hskip hkey
        obtain ⟨q, hq, hpq, hsame⟩ := h.kept p hp hskip
        obtain ⟨q', hq', hpq', hsame'⟩ := h.kept p' hp' not_false
        have hmid := hagree q hq q' hq' not_false (hpq.symm.trans (hkey.trans hpq'))
        exact same_trans hsame (same_trans hmid (same_symm hsame'))
    | _ => cases h

end Doc

end AgentWorkflow.Lib.JsonText
