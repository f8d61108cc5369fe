import AgentWorkflow.Lib.Program

/-!
# Programs that can be cut off

A program reads a disk and changes it by effects. It may be allowed a number of effects
only; then it stops before the next one, and the disk is what it was there.
-/

namespace AgentWorkflow.Lib

/-- Why a program stopped early: an error that it raised, or a crash before an effect. -/
inductive Stop (ε χ : Type)
  | error (x : χ)
  | crash (before : ε)

/-- A disk, and how many effects are left before the crash, if there is one. -/
structure Process (σ : Type) where
  disk : σ
  steps : Option ℕ

abbrev Crashing (σ ε χ : Type) := ExceptT (Stop ε χ) (StateM (Process σ))

namespace Crashing

variable {σ ε χ α β : Type}

def raise (x : χ) : Crashing σ ε χ α := throwThe (Stop ε χ) (.error x)

/-- What a look at the disk finds, which may be an error. -/
def ask (f : σ → Except χ α) : Crashing σ ε χ α :=
  MonadState.get >>= fun s =>
    match f s.disk with
    | .ok a => pure a
    | .error x => raise x

def act (apply : ε → σ → σ) (e : ε) : Crashing σ ε χ PUnit :=
  MonadState.get >>= fun s =>
    match s.steps with
    | some 0 => throwThe (Stop ε χ) (.crash e)
    | some (n + 1) => MonadState.modifyGet fun _ => (⟨⟩, ⟨apply e s.disk, some n⟩)
    | none => MonadState.modifyGet fun _ => (⟨⟩, ⟨apply e s.disk, none⟩)

/-- The result and the disk, cut off after `n` effects or not at all. -/
def exec (n : Option ℕ) (d : σ) (x : Crashing σ ε χ α) : Except (Stop ε χ) α × σ :=
  let r := x.run.run ⟨d, n⟩
  (r.1, r.2.disk)

/-- The disk is `d`; a program that lasts will not be cut off. -/
def At (lasting : Prop) (d : σ) (s : Process σ) : Prop := s.disk = d ∧ (lasting → s.steps = none)

/-- A program on the disk `d`: how it can end, and on which disk. -/
def Ends (lasting : Prop) (d : σ) (x : Crashing σ ε χ α) (Q : α → σ → Prop) (E : Stop ε χ → σ → Prop) : Prop :=
  ETriple (At lasting d) x (fun a s => ∃ d', At lasting d' s ∧ Q a d') fun x s => E x s.disk

section Rules
variable {lasting : Prop} {d : σ} {Q : α → σ → Prop} {R : β → σ → Prop} {E E' : Stop ε χ → σ → Prop}

theorem Ends.pure {a : α} (h : Q a d) : Ends lasting d (Pure.pure a : Crashing σ ε χ α) Q E :=
  ETriple.pure fun _ hs => ⟨d, hs, h⟩

theorem Ends.raise {x : χ} (h : E (.error x) d) : Ends lasting d (raise x : Crashing σ ε χ α) Q E := by
  refine ETriple.throw ?_
  rintro s ⟨rfl, -⟩
  exact h

theorem Ends.bind {x : Crashing σ ε χ α} {f : α → Crashing σ ε χ β} (hx : Ends lasting d x Q E)
    (hf : ∀ a d', Q a d' → Ends lasting d' (f a) R E) : Ends lasting d (x >>= f) R E := by
  refine ETriple.bind hx ?_
  rintro a s ⟨d', hs, hQ⟩
  exact hf a d' hQ s hs

theorem Ends.ask {f : σ → Except χ α} (hok : ∀ a, f d = .ok a → Q a d) (herror : ∀ x, f d = .error x → E (.error x) d) :
    Ends lasting d (ask f : Crashing σ ε χ α) Q E := by
  refine ETriple.get_bind ?_
  rintro s ⟨rfl, hs⟩
  cases h : f s.disk with
  | ok a => exact ETriple.pure fun t ht => ⟨s.disk, by rw [ht]; exact ⟨rfl, hs⟩, hok a h⟩
  | error x => exact ETriple.throw fun t ht => by rw [ht]; exact herror x h

theorem Ends.act {apply : ε → σ → σ} {e : ε} {Q : PUnit → σ → Prop} (hdone : Q ⟨⟩ (apply e d)) (hcrash : ¬ lasting → E (.crash e) d) :
    Ends lasting d (act apply e : Crashing σ ε χ PUnit) Q E := by
  refine ETriple.get_bind ?_
  rintro s ⟨rfl, hs⟩
  split
  · next hsteps =>
    refine ETriple.throw ?_
    rintro t rfl
    refine hcrash fun hlasting => ?_
    rw [hs hlasting] at hsteps
    cases hsteps
  · next n hsteps =>
    refine ETriple.modify fun t _ => ⟨_, ⟨rfl, fun hlasting => ?_⟩, hdone⟩
    rw [hs hlasting] at hsteps
    cases hsteps
  · exact ETriple.modify fun t _ => ⟨_, ⟨rfl, fun _ => rfl⟩, hdone⟩

/-- A look at the disk, and what follows. -/
theorem Ends.look {f : σ → Except χ α} {k : α → Crashing σ ε χ β} (hok : ∀ a, f d = .ok a → Ends lasting d (k a) R E)
    (herror : ∀ x, f d = .error x → E (.error x) d) : Ends lasting d (Crashing.ask f >>= k) R E := by
  refine .bind (Q := fun a d' => d = d' ∧ f d = .ok a) (.ask (fun a ha => ⟨rfl, ha⟩) herror) ?_
  rintro a _ ⟨rfl, ha⟩
  exact hok a ha

/-- An effect, and what follows. -/
theorem Ends.step {apply : ε → σ → σ} {e : ε} {k : PUnit → Crashing σ ε χ β} (hcrash : ¬ lasting → E (.crash e) d)
    (h : Ends lasting (apply e d) (k ⟨⟩) R E) : Ends lasting d (Crashing.act apply e >>= k) R E := by
  refine .bind (Q := fun _ d' => apply e d = d') (.act rfl hcrash) ?_
  rintro ⟨⟩ _ rfl
  exact h

theorem Ends.weaken {x : Crashing σ ε χ α} {Q' : α → σ → Prop} (hx : Ends lasting d x Q E) (hQ : ∀ a d', Q a d' → Q' a d')
    (hE : ∀ x d', E x d' → E' x d') : Ends lasting d x Q' E' := by
  intro s hs
  have hend := hx s hs
  rcases h : x.run.run s with ⟨e | a, s'⟩
  · rw [h] at hend
    exact hE e _ hend
  · rw [h] at hend
    obtain ⟨d', hs', hd'⟩ := hend
    exact ⟨d', hs', hQ a d' hd'⟩

theorem Ends.ite {c : Prop} [Decidable c] {x y : Crashing σ ε χ α} (hx : c → Ends lasting d x Q E) (hy : ¬ c → Ends lasting d y Q E) :
    Ends lasting d (if c then x else y) Q E := ETriple.ite hx hy

/-- What the rules say of a run. -/
theorem Ends.outcome {x : Crashing σ ε χ α} (hx : Ends lasting d x Q E) {n : Option ℕ} (hn : lasting → n = none) :
    match exec n d x with
    | (.ok a, d') => Q a d'
    | (.error stop, d') => E stop d' := by
  have hend := hx ⟨d, n⟩ ⟨rfl, fun hlasting => hn hlasting⟩
  unfold exec
  rcases h : x.run.run ⟨d, n⟩ with ⟨e | a, s'⟩
  · rw [h] at hend
    exact hend
  · rw [h] at hend
    obtain ⟨d', ⟨rfl, -⟩, hd'⟩ := hend
    exact hd'

end Rules

end Crashing

end AgentWorkflow.Lib
