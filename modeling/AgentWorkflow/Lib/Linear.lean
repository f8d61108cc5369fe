import AgentWorkflow.Lib.Machine

/-!
# Linearizable objects

A history of calls on an object: a call is invoked, takes effect and is answered, perhaps
in one event. The object is sequential where the effects, one after another, follow its
specification.
-/

namespace AgentWorkflow.Lib.Linear

universe u v w
variable {κ : Type u} {α : Type v} {σ : Type w}

structure Effect (κ : Type u) (α : Type v) where
  id : ℕ
  call : κ
  answer : α

structure Event (κ : Type u) (α : Type v) where
  invoked : Option (ℕ × κ) := none
  effect : Option (Effect κ α) := none
  answered : Option (ℕ × α) := none

def effects (h : List (Event κ α)) : List (Effect κ α) := h.filterMap Event.effect

theorem effects_snoc (h : List (Event κ α)) (e : Event κ α) : effects (h ++ [e]) = effects h ++ e.effect.toList := by
  unfold effects
  rw [List.filterMap_append]
  cases he : e.effect <;> simp [he]

/-- The effects lead from `m` to `m'`. -/
def Legal (spec : σ → κ → α → σ → Prop) : σ → List (Effect κ α) → σ → Prop
  | m, [], m' => m' = m
  | m, e :: es, m' => ∃ m₁, spec m e.call e.answer m₁ ∧ Legal spec m₁ es m'

theorem legal_append {spec : σ → κ → α → σ → Prop} {m m' : σ} {es fs : List (Effect κ α)} :
    Legal spec m (es ++ fs) m' ↔ ∃ m₁, Legal spec m es m₁ ∧ Legal spec m₁ fs m' := by
  induction es generalizing m with
  | nil =>
    constructor
    · intro h
      exact ⟨m, rfl, h⟩
    · rintro ⟨m₁, rfl, h⟩
      exact h
  | cons e es ih =>
    constructor
    · rintro ⟨m₁, he, h⟩
      obtain ⟨m₂, h₁, h₂⟩ := ih.mp h
      exact ⟨m₂, ⟨m₁, he, h₁⟩, h₂⟩
    · rintro ⟨m₂, ⟨m₁, he, h₁⟩, h₂⟩
      exact ⟨m₁, he, ih.mpr ⟨m₂, h₁, h₂⟩⟩

theorem Legal.snoc {spec : σ → κ → α → σ → Prop} {m m₁ m' : σ} {es : List (Effect κ α)} {e : Effect κ α} (h : Legal spec m es m₁)
    (he : spec m₁ e.call e.answer m') : Legal spec m (es ++ [e]) m' := legal_append.mpr ⟨m₁, h, m', he, rfl⟩

/-- A call is invoked once, takes effect once and not before it is invoked, and is answered
with the answer of its effect. -/
structure InOrder (h : List (Event κ α)) (e : Event κ α) : Prop where
  invoked : ∀ i ∈ e.invoked, ∀ x ∈ h, ∀ j ∈ x.invoked, j.1 ≠ i.1
  effect : ∀ f ∈ e.effect, (∃ x ∈ h ++ [e], x.invoked = some (f.id, f.call)) ∧ ∀ g ∈ effects h, g.id ≠ f.id
  answered : ∀ a ∈ e.answered, ∃ f ∈ effects h, f.id = a.1 ∧ f.answer = a.2

/-- Each call takes effect at one point between its invocation and its answer, and at these
points the object is sequential. -/
structure Linearizable (spec : σ → κ → α → σ → Prop) (m : σ) (h : List (Event κ α)) (m' : σ) : Prop where
  ordered : Everywhere InOrder h
  legal : Legal spec m (effects h) m'

/-! ### An object with calls that wait -/

/-- What holds of the calls that wait and of the answers that are settled. -/
structure Waiting (h : List (Event κ α)) (queue : List (ℕ × κ)) (settled : List (ℕ × α)) (nextId : ℕ) : Prop where
  ordered : Everywhere InOrder h
  fresh : ∀ x ∈ h, ∀ i ∈ x.invoked, i.1 < nextId
  invoked : ∀ f ∈ effects h, f.id < nextId
  queued : ∀ q ∈ queue, (∃ x ∈ h, x.invoked = some q) ∧ ∀ f ∈ effects h, f.id ≠ q.1
  nodup : (queue.map Prod.fst).Nodup
  settled : ∀ a ∈ settled, ∃ f ∈ effects h, f.id = a.1 ∧ f.answer = a.2
  pending : ∀ x ∈ h, ∀ i ∈ x.invoked, (∃ f ∈ effects h, f.id = i.1 ∧ f.call = i.2) ∨ i ∈ queue

variable {h : List (Event κ α)} {queue : List (ℕ × κ)} {settled : List (ℕ × α)} {nextId : ℕ}

theorem Waiting.nil : Waiting (κ := κ) (α := α) [] [] [] 0 where
  ordered := everywhere_nil
  fresh _ hx := nomatch hx
  invoked _ hf := nomatch hf
  queued _ hq := nomatch hq
  nodup := List.nodup_nil
  settled _ ha := nomatch ha
  pending _ hx := nomatch hx

/-- An event in which nothing happens. -/
theorem Waiting.quiet (hw : Waiting h queue settled nextId) : Waiting (h ++ [{ invoked := none }]) queue settled nextId := by
  have heffects : effects (h ++ [({ invoked := none } : Event κ α)]) = effects h := by rw [effects_snoc]; exact List.append_nil _
  refine ⟨hw.ordered.snoc ⟨(fun _ hi => nomatch hi), (fun _ hf => nomatch hf), (fun _ ha => nomatch ha)⟩, ?_, ?_, ?_, hw.nodup, ?_, ?_⟩
  · intro x hx i hi
    rcases List.mem_append.mp hx with hx | hx
    · exact hw.fresh x hx i hi
    · rw [List.mem_singleton.mp hx] at hi
      cases hi
  · rw [heffects]
    exact hw.invoked
  · intro q hq
    obtain ⟨⟨x, hx, hxq⟩, hnone⟩ := hw.queued q hq
    rw [heffects]
    exact ⟨⟨x, List.mem_append_left _ hx, hxq⟩, hnone⟩
  · rw [heffects]
    exact hw.settled
  · rw [heffects]
    intro x hx i hi
    rcases List.mem_append.mp hx with hx | hx
    · exact hw.pending x hx i hi
    · rw [List.mem_singleton.mp hx] at hi
      cases hi

/-- A call that takes effect where it is invoked. -/
theorem Waiting.settle (hw : Waiting h queue settled nextId) (call : κ) (answer : α) :
    Waiting (h ++ [{ invoked := some (nextId, call), effect := some ⟨nextId, call, answer⟩ }]) queue (settled ++ [(nextId, answer)])
      (nextId + 1) := by
  set e : Event κ α := { invoked := some (nextId, call), effect := some ⟨nextId, call, answer⟩ } with he
  have heffects : effects (h ++ [e]) = effects h ++ [⟨nextId, call, answer⟩] := by rw [effects_snoc]; rfl
  have hold : ∀ f ∈ effects h, f.id ≠ nextId := fun f hf => (hw.invoked f hf).ne
  refine ⟨hw.ordered.snoc ⟨?_, ?_, (fun _ ha => nomatch ha)⟩, ?_, ?_, ?_, hw.nodup, ?_, ?_⟩
  · rintro i ⟨⟩ x hx j hj
    exact (hw.fresh x hx j hj).ne
  · rintro f ⟨⟩
    exact ⟨⟨e, by simp, rfl⟩, hold⟩
  · intro x hx i hi
    rcases List.mem_append.mp hx with hx | hx
    · exact (hw.fresh x hx i hi).trans (Nat.lt_succ_self _)
    · rw [List.mem_singleton.mp hx] at hi
      cases hi
      exact Nat.lt_succ_self _
  · rw [heffects]
    intro f hf
    rcases List.mem_append.mp hf with hf | hf
    · exact (hw.invoked f hf).trans (Nat.lt_succ_self _)
    · rw [List.mem_singleton.mp hf]
      exact Nat.lt_succ_self _
  · intro q hq
    obtain ⟨⟨x, hx, hxq⟩, hnone⟩ := hw.queued q hq
    refine ⟨⟨x, List.mem_append_left _ hx, hxq⟩, ?_⟩
    rw [heffects]
    intro f hf
    rcases List.mem_append.mp hf with hf | hf
    · exact hnone f hf
    · rw [List.mem_singleton.mp hf]
      exact (hw.fresh x hx q hxq).ne'
  · rw [heffects]
    intro a ha
    rcases List.mem_append.mp ha with ha | ha
    · obtain ⟨f, hf, hfa⟩ := hw.settled a ha
      exact ⟨f, List.mem_append_left _ hf, hfa⟩
    · rw [List.mem_singleton.mp ha]
      exact ⟨_, List.mem_append_right _ (List.mem_singleton.mpr rfl), rfl, rfl⟩
  · rw [heffects]
    intro x hx i hi
    rcases List.mem_append.mp hx with hx | hx
    · exact (hw.pending x hx i hi).imp (fun ⟨f, hf, hfi⟩ => ⟨f, List.mem_append_left _ hf, hfi⟩) id
    · rw [List.mem_singleton.mp hx] at hi
      cases hi
      exact Or.inl ⟨_, List.mem_append_right _ (List.mem_singleton.mpr rfl), rfl, rfl⟩

/-- A call that waits. -/
theorem Waiting.enqueue (hw : Waiting h queue settled nextId) (call : κ) :
    Waiting (h ++ [{ invoked := some (nextId, call) }]) (queue ++ [(nextId, call)]) settled (nextId + 1) := by
  set e : Event κ α := { invoked := some (nextId, call) } with he
  have heffects : effects (h ++ [e]) = effects h := by rw [effects_snoc]; exact List.append_nil _
  have hbefore : ∀ q ∈ queue, q.1 < nextId := by
    intro q hq
    obtain ⟨⟨x, hx, hxq⟩, -⟩ := hw.queued q hq
    exact hw.fresh x hx q hxq
  refine ⟨hw.ordered.snoc ⟨?_, (fun _ hf => nomatch hf), (fun _ ha => nomatch ha)⟩, ?_, ?_, ?_, ?_, ?_, ?_⟩
  · rintro i ⟨⟩ x hx j hj
    exact (hw.fresh x hx j hj).ne
  · intro x hx i hi
    rcases List.mem_append.mp hx with hx | hx
    · exact (hw.fresh x hx i hi).trans (Nat.lt_succ_self _)
    · rw [List.mem_singleton.mp hx] at hi
      cases hi
      exact Nat.lt_succ_self _
  · rw [heffects]
    exact fun f hf => (hw.invoked f hf).trans (Nat.lt_succ_self _)
  · rw [heffects]
    intro q hq
    rcases List.mem_append.mp hq with hq | hq
    · obtain ⟨⟨x, hx, hxq⟩, hnone⟩ := hw.queued q hq
      exact ⟨⟨x, List.mem_append_left _ hx, hxq⟩, hnone⟩
    · rw [List.mem_singleton.mp hq]
      exact ⟨⟨e, by simp, rfl⟩, fun f hf => (hw.invoked f hf).ne⟩
  · rw [List.map_append]
    refine hw.nodup.append (List.nodup_singleton _) ?_
    rw [List.map_singleton, List.disjoint_singleton]
    intro hmem
    obtain ⟨q, hq, hqid⟩ := List.mem_map.mp hmem
    exact (hbefore q hq).ne hqid
  · rw [heffects]
    exact hw.settled
  · rw [heffects]
    intro x hx i hi
    rcases List.mem_append.mp hx with hx | hx
    · exact (hw.pending x hx i hi).imp id (List.mem_append_left _)
    · rw [List.mem_singleton.mp hx] at hi
      cases hi
      exact Or.inr (List.mem_append_right _ (List.mem_singleton.mpr rfl))

/-- The first of the waiting calls takes effect. -/
theorem Waiting.turn {id : ℕ} {call : κ} (hw : Waiting h ((id, call) :: queue) settled nextId) (answer : α) :
    Waiting (h ++ [{ effect := some ⟨id, call, answer⟩ }]) queue (settled ++ [(id, answer)]) nextId := by
  set e : Event κ α := { effect := some ⟨id, call, answer⟩ } with he
  have heffects : effects (h ++ [e]) = effects h ++ [⟨id, call, answer⟩] := by rw [effects_snoc]; rfl
  obtain ⟨⟨x, hx, hxid⟩, hnone⟩ := hw.queued (id, call) (List.mem_cons_self ..)
  have hnodup := hw.nodup
  rw [List.map_cons, List.nodup_cons] at hnodup
  refine ⟨hw.ordered.snoc ⟨(fun _ hi => nomatch hi), ?_, (fun _ ha => nomatch ha)⟩, ?_, ?_, ?_, hnodup.2, ?_, ?_⟩
  · rintro f ⟨⟩
    exact ⟨⟨x, List.mem_append_left _ hx, hxid⟩, hnone⟩
  · intro y hy i hi
    rcases List.mem_append.mp hy with hy | hy
    · exact hw.fresh y hy i hi
    · rw [List.mem_singleton.mp hy] at hi
      cases hi
  · rw [heffects]
    intro f hf
    rcases List.mem_append.mp hf with hf | hf
    · exact hw.invoked f hf
    · rw [List.mem_singleton.mp hf]
      exact hw.fresh x hx _ hxid
  · rw [heffects]
    intro q hq
    obtain ⟨⟨y, hy, hyq⟩, hnone'⟩ := hw.queued q (List.mem_cons_of_mem _ hq)
    refine ⟨⟨y, List.mem_append_left _ hy, hyq⟩, ?_⟩
    intro f hf
    rcases List.mem_append.mp hf with hf | hf
    · exact hnone' f hf
    · rw [List.mem_singleton.mp hf]
      intro hid
      exact hnodup.1 (List.mem_map.mpr ⟨q, hq, hid.symm⟩)
  · rw [heffects]
    intro a ha
    rcases List.mem_append.mp ha with ha | ha
    · obtain ⟨f, hf, hfa⟩ := hw.settled a ha
      exact ⟨f, List.mem_append_left _ hf, hfa⟩
    · rw [List.mem_singleton.mp ha]
      exact ⟨_, List.mem_append_right _ (List.mem_singleton.mpr rfl), rfl, rfl⟩
  · rw [heffects]
    intro y hy i hi
    rcases List.mem_append.mp hy with hy | hy
    · rcases hw.pending y hy i hi with ⟨f, hf, hfi⟩ | hi
      · exact Or.inl ⟨f, List.mem_append_left _ hf, hfi⟩
      · rcases List.mem_cons.mp hi with rfl | hi
        · exact Or.inl ⟨_, List.mem_append_right _ (List.mem_singleton.mpr rfl), rfl, rfl⟩
        · exact Or.inr hi
    · rw [List.mem_singleton.mp hy] at hi
      cases hi

/-- A settled answer comes back. -/
theorem Waiting.answer {settled' : List (ℕ × α)} (hw : Waiting h queue settled nextId) {a : ℕ × α} (ha : a ∈ settled)
    (hsub : ∀ b ∈ settled', b ∈ settled) : Waiting (h ++ [{ answered := some a }]) queue settled' nextId := by
  set e : Event κ α := { answered := some a } with he
  have heffects : effects (h ++ [e]) = effects h := by rw [effects_snoc]; exact List.append_nil _
  refine ⟨hw.ordered.snoc ⟨(fun _ hi => nomatch hi), (fun _ hf => nomatch hf), ?_⟩, ?_, ?_, ?_, hw.nodup, ?_, ?_⟩
  · rintro b ⟨⟩
    exact hw.settled a ha
  · intro x hx i hi
    rcases List.mem_append.mp hx with hx | hx
    · exact hw.fresh x hx i hi
    · rw [List.mem_singleton.mp hx] at hi
      cases hi
  · rw [heffects]
    exact hw.invoked
  · rw [heffects]
    intro q hq
    obtain ⟨⟨x, hx, hxq⟩, hnone⟩ := hw.queued q hq
    exact ⟨⟨x, List.mem_append_left _ hx, hxq⟩, hnone⟩
  · rw [heffects]
    exact fun b hb => hw.settled b (hsub b hb)
  · rw [heffects]
    intro x hx i hi
    rcases List.mem_append.mp hx with hx | hx
    · exact hw.pending x hx i hi
    · rw [List.mem_singleton.mp hx] at hi
      cases hi

end AgentWorkflow.Lib.Linear
