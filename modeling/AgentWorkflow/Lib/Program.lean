import Mathlib

/-!
# Programs with state

Transactions, and rules of pre- and postconditions for programs in `StateM`.
A loop over a list is proved with an invariant that depends on the part of the
list that is still to come.
-/

namespace AgentWorkflow.Lib

universe u v w

/-- A block of statements: commit when it returns, roll back when it raises. -/
def transaction {σ : Type u} {ε : Type v} {ρ : Type w} (block : σ → Except ε (ρ × σ)) (s : σ) :
    Except ε ρ × σ :=
  match block s with
  | .ok (r, s') => (.ok r, s')
  | .error e => (.error e, s)

/-- Started in a state with `P`, the program ends in a state that `Q` relates to
its result. -/
def Triple {σ α : Type u} (P : σ → Prop) (x : StateM σ α) (Q : α → σ → Prop) : Prop :=
  ∀ s, P s → Q (x.run s).1 (x.run s).2

namespace Triple

variable {σ α β : Type u} {P P' : σ → Prop} {Q Q' : α → σ → Prop} {R : β → σ → Prop}

theorem pure {a : α} (h : ∀ s, P s → Q a s) : Triple P (Pure.pure a : StateM σ α) Q := h

theorem bind {x : StateM σ α} {f : α → StateM σ β} (hx : Triple P x Q) (hf : ∀ a, Triple (Q a) (f a) R) :
    Triple P (x >>= f) R := by
  intro s hs
  exact hf _ _ (hx s hs)

/-- After reading the state the program continues from a known state. -/
theorem get_bind {f : σ → StateM σ β} (h : ∀ s, P s → Triple (· = s) (f s) R) :
    Triple P (MonadState.get >>= f) R := by
  intro s hs
  exact h s hs s rfl

theorem conseq {x : StateM σ α} (hx : Triple P x Q) (hP : ∀ s, P' s → P s) (hQ : ∀ a s, Q a s → Q' a s) :
    Triple P' x Q' := by
  intro s hs
  exact hQ _ _ (hx s (hP s hs))

theorem pre {x : StateM σ α} (hx : Triple P x Q) (hP : ∀ s, P' s → P s) : Triple P' x Q :=
  hx.conseq hP fun _ _ h => h

theorem weaken {x : StateM σ α} (hx : Triple P x Q) (hQ : ∀ a s, Q a s → Q' a s) : Triple P x Q' :=
  hx.conseq (fun _ h => h) hQ

/-- Two assertions about one program hold together. -/
theorem both {x : StateM σ α} (hx : Triple P x Q) (hx' : Triple P' x Q') :
    Triple (fun s => P s ∧ P' s) x fun a s => Q a s ∧ Q' a s := by
  intro s hs
  exact ⟨hx s hs.1, hx' s hs.2⟩

/-- A pure fact of the precondition may be used outside it. -/
theorem assume {φ : Prop} {x : StateM σ α} (hφ : ∀ s, P s → φ) (h : φ → Triple P x Q) : Triple P x Q := by
  intro s hs
  exact h (hφ s hs) s hs

theorem ite {c : Prop} [Decidable c] {x y : StateM σ α} (hx : c → Triple P x Q) (hy : ¬ c → Triple P y Q) :
    Triple P (if c then x else y) Q := by
  by_cases h : c
  · rw [if_pos h]
    exact hx h
  · rw [if_neg h]
    exact hy h

end Triple

/-- The same for a program that may stop early: `E` relates what stopped it to
the state it left. -/
def ETriple {σ ε α : Type u} (P : σ → Prop) (x : ExceptT ε (StateM σ) α) (Q : α → σ → Prop) (E : ε → σ → Prop) :
    Prop :=
  ∀ s, P s →
    match x.run.run s with
    | (.ok a, s') => Q a s'
    | (.error e, s') => E e s'

namespace ETriple

variable {σ ε α β : Type u} {P P' : σ → Prop} {Q Q' : α → σ → Prop} {R : β → σ → Prop} {E : ε → σ → Prop}

theorem pure {a : α} (h : ∀ s, P s → Q a s) : ETriple P (Pure.pure a : ExceptT ε (StateM σ) α) Q E := h

theorem throw {e : ε} (h : ∀ s, P s → E e s) : ETriple P (throwThe ε e : ExceptT ε (StateM σ) α) Q E := h

theorem bind {x : ExceptT ε (StateM σ) α} {f : α → ExceptT ε (StateM σ) β} (hx : ETriple P x Q E)
    (hf : ∀ a, ETriple (Q a) (f a) R E) : ETriple P (x >>= f) R E := by
  intro s hs
  have hmid := hx s hs
  rcases h : x.run.run s with ⟨e | a, s'⟩
  · rw [h] at hmid
    have hrun : (x >>= f).run.run s = (.error e, s') := by
      rw [ExceptT.run_bind, StateT.run_bind, h]
      rfl
    rw [hrun]
    exact hmid
  · rw [h] at hmid
    have hrun : (x >>= f).run.run s = (f a).run.run s' := by
      rw [ExceptT.run_bind, StateT.run_bind, h]
      rfl
    rw [hrun]
    exact hf a s' hmid

/-- After reading the state the program continues from a known state. -/
theorem get_bind {f : σ → ExceptT ε (StateM σ) β} (h : ∀ s, P s → ETriple (· = s) (f s) R E) :
    ETriple P (MonadState.get >>= f) R E := by
  intro s hs
  exact h s hs s rfl

theorem modify {f : σ → σ} {Q : PUnit → σ → Prop} (h : ∀ s, P s → Q ⟨⟩ (f s)) :
    ETriple P (MonadState.modifyGet fun s => (⟨⟩, f s) : ExceptT ε (StateM σ) PUnit) Q E := h

theorem conseq {x : ExceptT ε (StateM σ) α} (hx : ETriple P x Q E) (hP : ∀ s, P' s → P s)
    (hQ : ∀ a s, Q a s → Q' a s) : ETriple P' x Q' E := by
  intro s hs
  have hend := hx s (hP s hs)
  rcases h : x.run.run s with ⟨_ | a, s'⟩
  · rw [h] at hend
    exact hend
  · rw [h] at hend
    exact hQ a s' hend

theorem pre {x : ExceptT ε (StateM σ) α} (hx : ETriple P x Q E) (hP : ∀ s, P' s → P s) : ETriple P' x Q E :=
  hx.conseq hP fun _ _ h => h

theorem weaken {x : ExceptT ε (StateM σ) α} (hx : ETriple P x Q E) (hQ : ∀ a s, Q a s → Q' a s) :
    ETriple P x Q' E :=
  hx.conseq (fun _ h => h) hQ

theorem ite {c : Prop} [Decidable c] {x y : ExceptT ε (StateM σ) α} (hx : c → ETriple P x Q E)
    (hy : ¬ c → ETriple P y Q E) : ETriple P (if c then x else y) Q E := by
  by_cases h : c
  · rw [if_pos h]
    exact hx h
  · rw [if_neg h]
    exact hy h

/-- What holds however the program ends holds of the state it leaves. -/
theorem final {x : ExceptT ε (StateM σ) α} {R : σ → Prop} (h : ETriple P x (fun _ => R) fun _ => R) {s : σ}
    (hs : P s) : R (x.run.run s).2 := by
  have hend := h s hs
  rcases hrun : x.run.run s with ⟨e | a, s'⟩
  · rw [hrun] at hend
    exact hend
  · rw [hrun] at hend
    exact hend

end ETriple

end AgentWorkflow.Lib
