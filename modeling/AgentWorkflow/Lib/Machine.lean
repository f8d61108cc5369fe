import Mathlib

/-!
# Machines with an observable history

A machine maps a state and an operation to the next state and one event. A run
executes a list of operations; its trace is the list of events, oldest first.
The rules below turn a fact about one step into a fact about every run, also
when the fact relates the state to the whole trace.
-/

namespace AgentWorkflow.Lib

universe u v w

/-- One deterministic step: everything the environment chooses (clock readings,
random values, faults) is part of the operation. -/
structure Machine (σ : Type u) (ι : Type v) (ε : Type w) where
  step : σ → ι → σ × ε

namespace Machine

variable {σ : Type u} {ι : Type v} {ε : Type w} (m : Machine σ ι ε)

def run (s : σ) : List ι → σ
  | [] => s
  | i :: is => run (m.step s i).1 is

def trace (s : σ) : List ι → List ε
  | [] => []
  | i :: is => (m.step s i).2 :: trace (m.step s i).1 is

@[simp] theorem run_nil (s : σ) : m.run s [] = s := rfl

@[simp] theorem run_cons (s : σ) (i : ι) (is : List ι) :
    m.run s (i :: is) = m.run (m.step s i).1 is := rfl

@[simp] theorem trace_nil (s : σ) : m.trace s [] = [] := rfl

@[simp] theorem trace_cons (s : σ) (i : ι) (is : List ι) :
    m.trace s (i :: is) = (m.step s i).2 :: m.trace (m.step s i).1 is := rfl

theorem run_append (s : σ) (is js : List ι) : m.run s (is ++ js) = m.run (m.run s is) js := by
  induction is generalizing s with
  | nil => rfl
  | cons i is ih => exact ih (m.step s i).1

theorem trace_append (s : σ) (is js : List ι) :
    m.trace s (is ++ js) = m.trace s is ++ m.trace (m.run s is) js := by
  induction is generalizing s with
  | nil => rfl
  | cons i is ih =>
    simp only [List.cons_append, trace_cons, run_cons]
    rw [ih]

theorem run_snoc (s : σ) (is : List ι) (i : ι) :
    m.run s (is ++ [i]) = (m.step (m.run s is) i).1 := by
  rw [run_append]
  rfl

theorem trace_snoc (s : σ) (is : List ι) (i : ι) :
    m.trace s (is ++ [i]) = m.trace s is ++ [(m.step (m.run s is) i).2] := by
  rw [trace_append]
  rfl

/-- A property that every step keeps holds after every run. -/
theorem run_invariant {P : σ → Prop} (hstep : ∀ s i, P s → P (m.step s i).1)
    (s : σ) (is : List ι) (h0 : P s) : P (m.run s is) := by
  induction is generalizing s with
  | nil => exact h0
  | cons i is ih => exact ih _ (hstep s i h0)

/-- The same rule for a property of the state together with the trace, in runs
whose operations all satisfy `G`. -/
theorem history_invariant_of {P : List ε → σ → Prop} {G : ι → Prop} {s : σ} (h0 : P [] s)
    (hstep : ∀ h t i, G i → P h t → P (h ++ [(m.step t i).2]) (m.step t i).1)
    (is : List ι) (hG : ∀ i ∈ is, G i) : P (m.trace s is) (m.run s is) := by
  induction is using List.reverseRecOn with
  | nil => exact h0
  | append_singleton is i ih =>
    rw [trace_snoc, run_snoc]
    apply hstep
    · exact hG i (by simp)
    · apply ih
      intro j hj
      exact hG j (List.mem_append_left _ hj)

theorem history_invariant {P : List ε → σ → Prop} {s : σ} (h0 : P [] s)
    (hstep : ∀ h t i, P h t → P (h ++ [(m.step t i).2]) (m.step t i).1) (is : List ι) :
    P (m.trace s is) (m.run s is) :=
  m.history_invariant_of (G := fun _ => True) h0 (fun h t i _ => hstep h t i) is (fun _ _ => trivial)

/-- Every event of a trace was produced by one step of the run, from the state
the operations before it had reached. -/
theorem trace_split {s : σ} {is : List ι} {pre post : List ε} {e : ε}
    (h : m.trace s is = pre ++ e :: post) :
    ∃ is₁ i is₂, is = is₁ ++ i :: is₂ ∧ pre = m.trace s is₁ ∧
      e = (m.step (m.run s is₁) i).2 ∧ post = m.trace (m.step (m.run s is₁) i).1 is₂ := by
  induction is generalizing s pre with
  | nil => simp at h
  | cons i is ih =>
    cases pre with
    | nil =>
      simp only [trace_cons, List.nil_append, List.cons.injEq] at h
      exact ⟨[], i, is, rfl, rfl, h.1.symm, h.2.symm⟩
    | cons p pre =>
      simp only [trace_cons, List.cons_append, List.cons.injEq] at h
      obtain ⟨is₁, j, is₂, rfl, hpre, he, hpost⟩ := ih h.2
      refine ⟨i :: is₁, j, is₂, rfl, ?_, he, hpost⟩
      rw [trace_cons, h.1, ← hpre]

/-- Where `I` holds, a step reaches `G` exactly when `K` holds of it, and then
keeps `I`. So a run is good throughout exactly when all its steps satisfy `K`. -/
theorem run_exact {I : σ → Prop} {G : σ → Prop} {K : σ → ι → Prop} {s : σ} (h0 : I s)
    (hgood : ∀ s, I s → G s) (hstep : ∀ s i, I s → K s i → I (m.step s i).1)
    (hexact : ∀ s i, I s → G (m.step s i).1 → K s i) (is : List ι) :
    (∀ is₁ is₂, is = is₁ ++ is₂ → G (m.run s is₁)) ↔
      ∀ is₁ i is₂, is = is₁ ++ i :: is₂ → K (m.run s is₁) i := by
  constructor
  · intro h
    have hinv : ∀ is₁ is₂, is = is₁ ++ is₂ → I (m.run s is₁) := by
      intro is₁
      induction is₁ using List.reverseRecOn with
      | nil =>
        intro is₂ _
        exact h0
      | append_singleton is₁ i ih =>
        intro is₂ heq
        have hprev := ih (i :: is₂) (by rw [heq]; simp)
        have hnext := h (is₁ ++ [i]) is₂ heq
        rw [run_snoc] at hnext ⊢
        exact hstep _ _ hprev (hexact _ _ hprev hnext)
    intro is₁ i is₂ heq
    have hnext := h (is₁ ++ [i]) is₂ (by rw [heq]; simp)
    rw [run_snoc] at hnext
    exact hexact _ _ (hinv is₁ _ heq) hnext
  · intro h is₁
    suffices hinv : ∀ is₂, is = is₁ ++ is₂ → I (m.run s is₁) from
      fun is₂ heq => hgood _ (hinv is₂ heq)
    induction is₁ using List.reverseRecOn with
    | nil =>
      intro is₂ _
      exact h0
    | append_singleton is₁ i ih =>
      intro is₂ heq
      have heq' : is = is₁ ++ i :: is₂ := by rw [heq]; simp
      rw [run_snoc]
      exact hstep _ _ (ih _ heq') (h is₁ i is₂ heq')

/-- The same for a property `G` of single steps. -/
theorem run_exact_steps {I : σ → Prop} {G K : σ → ι → Prop} {s : σ} (h0 : I s)
    (hstep : ∀ s i, I s → K s i → I (m.step s i).1) (hexact : ∀ s i, I s → (G s i ↔ K s i)) (is : List ι) :
    (∀ is₁ i is₂, is = is₁ ++ i :: is₂ → G (m.run s is₁) i) ↔
      ∀ is₁ i is₂, is = is₁ ++ i :: is₂ → K (m.run s is₁) i := by
  have hinv (H : σ → ι → Prop) (hH : ∀ s i, I s → H s i → I (m.step s i).1)
      (h : ∀ is₁ i is₂, is = is₁ ++ i :: is₂ → H (m.run s is₁) i) :
      ∀ is₁ is₂, is = is₁ ++ is₂ → I (m.run s is₁) := by
    intro is₁
    induction is₁ using List.reverseRecOn with
    | nil =>
      intro is₂ _
      exact h0
    | append_singleton is₁ i ih =>
      intro is₂ heq
      have heq' : is = is₁ ++ i :: is₂ := by rw [heq]; simp
      rw [run_snoc]
      exact hH _ _ (ih _ heq') (h is₁ i is₂ heq')
  constructor
  · intro h is₁ i is₂ heq
    have hI := hinv G (fun s i hI hG => hstep s i hI ((hexact s i hI).mp hG)) h is₁ _ heq
    exact (hexact _ _ hI).mp (h is₁ i is₂ heq)
  · intro h is₁ i is₂ heq
    have hI := hinv K hstep h is₁ _ heq
    exact (hexact _ _ hI).mpr (h is₁ i is₂ heq)

/-- Every step of the run satisfies `K` in the state it starts from. -/
def Along (K : σ → ι → Prop) (s : σ) : List ι → Prop
  | [] => True
  | i :: is => K s i ∧ Along K (m.step s i).1 is

theorem Along.mono {K L : σ → ι → Prop} (h : ∀ s i, K s i → L s i) {s : σ} {is : List ι} (ha : m.Along K s is) :
    m.Along L s is := by
  induction is generalizing s with
  | nil => trivial
  | cons i is ih => exact ⟨h s i ha.1, ih ha.2⟩

theorem Along.append {K : σ → ι → Prop} {s : σ} {is js : List ι} (h : m.Along K s (is ++ js)) :
    m.Along K s is ∧ m.Along K (m.run s is) js := by
  induction is generalizing s with
  | nil => exact ⟨trivial, h⟩
  | cons i is ih => exact ⟨⟨h.1, (ih h.2).1⟩, (ih h.2).2⟩

instance Along.decidable {K : σ → ι → Prop} [∀ s i, Decidable (K s i)] : (s : σ) → (is : List ι) → Decidable (m.Along K s is)
  | _, [] => inferInstanceAs (Decidable True)
  | s, i :: is => @instDecidableAnd _ _ _ (Along.decidable (m.step s i).1 is)

/-- An invariant that the steps satisfying `K` keep. -/
theorem run_invariant_along {I : σ → Prop} {K : σ → ι → Prop} (hstep : ∀ s i, I s → K s i → I (m.step s i).1)
    {s : σ} {is : List ι} (h0 : I s) (h : m.Along K s is) : I (m.run s is) := by
  induction is generalizing s with
  | nil => exact h0
  | cons i is ih => exact ih (hstep s i h0 h.1) h.2

/-- Where every step that satisfies `K` keeps `I` and is good, all steps of a run whose steps
satisfy `K` are good. -/
theorem Along.of_invariant {I : σ → Prop} {K G : σ → ι → Prop} (hstep : ∀ s i, I s → K s i → I (m.step s i).1)
    (hgood : ∀ s i, I s → K s i → G s i) {s : σ} {is : List ι} (h0 : I s) (h : m.Along K s is) : m.Along G s is := by
  induction is generalizing s with
  | nil => trivial
  | cons i is ih => exact ⟨hgood s i h0 h.1, ih (hstep s i h0 h.1) h.2⟩

/-- Where some operation always makes a measure smaller until `P` holds, `P` can be reached. -/
theorem exists_run_of_measure {P : σ → Prop} (μ : σ → ℕ) (h : ∀ s, P s ∨ ∃ i, μ (m.step s i).1 < μ s) (s : σ) :
    ∃ is, P (m.run s is) := by
  induction hn : μ s using Nat.strong_induction_on generalizing s with
  | _ n ih =>
    rcases h s with hP | ⟨i, hi⟩
    · exact ⟨[], hP⟩
    · obtain ⟨is, his⟩ := ih _ (hn ▸ hi) (m.step s i).1 rfl
      exact ⟨i :: is, his⟩

end Machine

/-! ### Looking back over a history -/

/-- Every event stands in the relation `P` to the events before it. -/
def Everywhere {ε : Type w} (P : List ε → ε → Prop) (h : List ε) : Prop :=
  ∀ pre e post, h = pre ++ e :: post → P pre e

theorem everywhere_nil {ε : Type w} {P : List ε → ε → Prop} : Everywhere P [] := by
  intro pre e post h
  simp at h

theorem Everywhere.snoc {ε : Type w} {P : List ε → ε → Prop} {h : List ε} {e : ε} (hl : Everywhere P h)
    (he : P h e) : Everywhere P (h ++ [e]) := by
  intro pre d post heq
  cases post using List.reverseRecOn with
  | nil =>
    obtain ⟨rfl, hlast⟩ := List.append_inj' heq rfl
    rw [← List.singleton_inj.mp hlast]
    exact he
  | append_singleton post x =>
    rw [← List.cons_append, ← List.append_assoc] at heq
    exact hl pre d post (List.append_inj' heq rfl).1

/-- Some event satisfies `p` and no later event satisfies `q`. -/
def Since {ε : Type w} (p q : ε → Prop) (h : List ε) : Prop :=
  ∃ pre e post, h = pre ++ e :: post ∧ p e ∧ ∀ x ∈ post, ¬ q x

theorem since_snoc_self {ε : Type w} {p q : ε → Prop} (h : List ε) {e : ε} (he : p e) :
    Since p q (h ++ [e]) :=
  ⟨h, e, [], rfl, he, by simp⟩

theorem since_snoc {ε : Type w} {p q : ε → Prop} {h : List ε} {e : ε}
    (hs : Since p q h) (he : ¬ q e) : Since p q (h ++ [e]) := by
  obtain ⟨pre, d, post, rfl, hd, hpost⟩ := hs
  refine ⟨pre, d, post ++ [e], by simp, hd, ?_⟩
  intro x hx
  rcases List.mem_append.mp hx with hx | hx
  · exact hpost x hx
  · rw [List.mem_singleton.mp hx]
    exact he

theorem since_of_snoc {ε : Type w} {p q : ε → Prop} {h : List ε} {e : ε}
    (hs : Since p q (h ++ [e])) : p e ∨ (Since p q h ∧ ¬ q e) := by
  obtain ⟨pre, d, post, heq, hd, hpost⟩ := hs
  cases post using List.reverseRecOn with
  | nil =>
    have hlast := (List.append_inj' heq rfl).2
    rw [List.singleton_inj.mp hlast]
    exact Or.inl hd
  | append_singleton post x =>
    rw [← List.cons_append, ← List.append_assoc] at heq
    obtain ⟨rfl, hlast⟩ := List.append_inj' heq rfl
    rw [List.singleton_inj.mp hlast]
    refine Or.inr ⟨⟨pre, d, post, rfl, hd, fun y hy => ?_⟩, hpost x (by simp)⟩
    exact hpost y (List.mem_append_left _ hy)

theorem not_since_nil {ε : Type w} {p q : ε → Prop} : ¬ Since p q [] := by
  rintro ⟨pre, d, post, heq, -⟩
  simp at heq

end AgentWorkflow.Lib
