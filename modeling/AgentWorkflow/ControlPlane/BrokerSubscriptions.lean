import AgentWorkflow.ControlPlane.BrokerDelivery

/-!
# The subscriptions of a Redis broker

Whenever the lock is free the handlers, the connection's subscriptions and the
reader's gate should agree. A cancelled await leaves the critical section without
the rollback of `except Exception`, and two channels can share one wire name;
`Kept` is the exact condition under which a step does no harm.
-/

namespace AgentWorkflow.ControlPlane.RedisBroker
open AgentWorkflow.Lib

variable {η : Type} [DecidableEq η] {pre : PyStr}

structure Consistent (pre : PyStr) (s : State η) : Prop where
  populated : s.handlers.Populated
  wired : ∀ k ∈ s.handlers, wire pre k ∈ s.wires
  gate : s.hasSubscription = true ↔ ∃ k, k ∈ s.handlers

def Good (pre : PyStr) (s : State η) : Prop := s.lock = none → Consistent pre s

/-- What the call that holds the lock left behind at its await. -/
def Suspended (pre : PyStr) (s : State η) : Call η → Prop
  | .subscribe c x =>
    s.handlers.members c = {x} ∧ s.handlers.Populated ∧ (∀ k ∈ s.handlers, k ≠ c → wire pre k ∈ s.wires) ∧
      (s.hasSubscription = true ↔ ∃ k ∈ s.handlers, k ≠ c)
  | .unsubscribe c _ =>
    c ∉ s.handlers ∧ s.handlers.Populated ∧ (∀ k ∈ s.handlers, wire pre k ∈ s.wires) ∧
      s.hasSubscription = true

def Inv (pre : PyStr) (s : State η) : Prop :=
  match s.lock with
  | none => Consistent pre s
  | some call => Suspended pre s call

/-- A cancelled first subscription does no harm only where the connection still
has its wire channel and the gate is open for another one. Unsubscribing a wire
channel does none where no other channel uses it, a cancelled unsubscribe none
where the gate stays open. -/
def Kept (pre : PyStr) (s : State η) : Event η → Prop
  | .enter _ => True
  | .settle o removed =>
    match s.lock with
    | none => True
    | some (.subscribe c _) => o = .cancelled → wire pre c ∈ s.wires ∧ ∃ k ∈ s.handlers, k ≠ c
    | some (.unsubscribe c _) =>
      (o = .returned ∨ removed = true → ∀ k ∈ s.handlers, wire pre k ≠ wire pre c) ∧
        (o = .cancelled → ∃ k, k ∈ s.handlers)

omit [DecidableEq η] in
theorem consistent_initialized : Consistent pre (State.initialized : State η) := by
  constructor
  · exact Registry.populated_empty
  · intro k hk
    exact absurd hk Finmap.notMem_empty
  · simp [State.initialized, Finmap.notMem_empty]

omit [DecidableEq η] in
theorem good_of_inv {s : State η} (h : Inv pre s) : Good pre s := by
  intro hfree
  rw [Inv, hfree] at h
  exact h

theorem clearIdle_gate {s : State η} (h : s.handlers.Populated) :
    s.clearIdle.hasSubscription = true ↔ s.hasSubscription = true ∧ ∃ k, k ∈ s.handlers := by
  rw [← h.anyMember, State.clearIdle]
  cases s.handlers.anyMember <;> simp

/-! ### Entering the critical section -/

theorem enterSubscribe_inv {s : State η} (hfree : s.lock = none) (h : Consistent pre s) (c : Channel) (x : η) :
    Inv pre (enterSubscribe c x s).1 := by
  simp only [enterSubscribe]
  split_ifs with hx hc
  · simp only [Inv, hfree]
    exact h
  · have hout : c ∉ s.handlers := fun hin => h.populated c hin hc
    have hother : ∀ k, k ∈ s.handlers.add c x ∧ k ≠ c ↔ k ∈ s.handlers := by
      intro k
      rw [Registry.mem_add]
      constructor
      · intro hk
        exact hk.1.resolve_left hk.2
      · intro hk
        exact ⟨Or.inr hk, fun heq => hout (heq ▸ hk)⟩
    refine ⟨?_, h.populated.add c x, ?_, ?_⟩
    · rw [Registry.members_add_self, hc]
      rfl
    · intro k hk hne
      exact h.wired k ((hother k).mp ⟨hk, hne⟩)
    · simp only [hother]
      exact h.gate
  · obtain ⟨y, hy⟩ := Finset.nonempty_iff_ne_empty.mpr hc
    have hin : c ∈ s.handlers := Registry.mem_of_mem_members hy
    simp only [Inv, hfree]
    refine ⟨h.populated.add c x, ?_, ?_⟩
    · intro k hk
      cases Registry.mem_add.mp hk with
      | inl heq =>
        rw [heq]
        exact h.wired c hin
      | inr hold => exact h.wired k hold
    · simp only [true_iff]
      exact ⟨c, Registry.mem_add.mpr (Or.inl rfl)⟩

theorem enterUnsubscribe_inv {s : State η} (hfree : s.lock = none) (h : Consistent pre s) (c : Channel) (x : η) :
    Inv pre (enterUnsubscribe c x s).1 := by
  have hsub : ∀ k, k ∈ s.handlers.remove c x → k ∈ s.handlers := by
    intro k hk
    obtain ⟨y, hy⟩ := (h.populated.remove c x).mem_iff.mp hk
    exact Registry.mem_of_mem_members (Registry.mem_members_remove.mp hy).1
  have hwired : ∀ k ∈ s.handlers.remove c x, wire pre k ∈ s.wires := fun k hk => h.wired k (hsub k hk)
  simp only [enterUnsubscribe]
  split_ifs with hx hlast
  · have hin : c ∈ s.handlers := Registry.mem_of_mem_members hx
    refine ⟨?_, h.populated.remove c x, hwired, h.gate.mpr ⟨c, hin⟩⟩
    rw [Registry.mem_remove_self, not_not]
    exact hlast
  · have hin : c ∈ s.handlers := Registry.mem_of_mem_members hx
    have hpop := h.populated.remove c x
    simp only [Inv, State.clearIdle, hfree]
    refine ⟨hpop, hwired, ?_⟩
    have hgate := clearIdle_gate (s := { s with handlers := s.handlers.remove c x }) hpop
    rw [State.clearIdle] at hgate
    rw [hgate, and_iff_right]
    exact h.gate.mpr ⟨c, hin⟩
  · simp only [Inv, hfree]
    exact h

/-! ### Leaving it -/

theorem settleSubscribe_consistent_iff {s : State η} {c : Channel} {x : η}
    (h : Suspended pre s (.subscribe c x)) (o : Ending) :
    Consistent pre (settleSubscribe pre c x s o) ↔
      (o = .cancelled → wire pre c ∈ s.wires ∧ ∃ k ∈ s.handlers, k ≠ c) := by
  obtain ⟨hmem, hpop, hwired, hgate⟩ := h
  have hin : c ∈ s.handlers := Registry.mem_of_mem_members (x := x) (by simp [hmem])
  cases o with
  | returned =>
    simp only [reduceCtorEq, false_implies, iff_true]
    refine ⟨hpop, ?_, ?_⟩
    · intro k hk
      by_cases heq : k = c
      · rw [heq]
        exact Finset.mem_insert_self _ _
      · exact Finset.mem_insert_of_mem (hwired k hk heq)
    · simp only [settleSubscribe, true_iff]
      exact ⟨c, hin⟩
  | raised =>
    simp only [reduceCtorEq, false_implies, iff_true]
    -- the rollback takes `c` out again
    have hkeys : ∀ k, k ∈ s.handlers.remove c x ↔ k ∈ s.handlers ∧ k ≠ c := by
      intro k
      by_cases heq : k = c
      · subst heq
        simp [Registry.mem_remove_self, hmem]
      · simp [Registry.mem_remove_of_ne heq, heq]
    have hpop' := hpop.remove c x
    refine ⟨hpop', ?_, ?_⟩
    · intro k hk
      have hk' := (hkeys k).mp hk
      exact hwired k hk'.1 hk'.2
    · rw [settleSubscribe, clearIdle_gate hpop', hgate]
      simp only [State.clearIdle, hkeys, and_self]
  | cancelled =>
    simp only [true_implies]
    constructor
    · intro hcons
      exact ⟨hcons.wired c hin, hgate.mp (hcons.gate.mpr ⟨c, hin⟩)⟩
    · intro hkept
      refine ⟨hpop, ?_, ?_⟩
      · intro k hk
        by_cases heq : k = c
        · rw [heq]
          exact hkept.1
        · exact hwired k hk heq
      · exact iff_of_true (hgate.mpr hkept.2) ⟨c, hin⟩

theorem settleUnsubscribe_consistent_iff {s : State η} {c : Channel} {x : η}
    (h : Suspended pre s (.unsubscribe c x)) (o : Ending) (removed : Bool) :
    Consistent pre (settleUnsubscribe pre c removed s o) ↔
      (o = .returned ∨ removed = true → ∀ k ∈ s.handlers, wire pre k ≠ wire pre c) ∧
        (o = .cancelled → ∃ k, k ∈ s.handlers) := by
  obtain ⟨-, hpop, hwired, hopen⟩ := h
  have hhandlers : (settleUnsubscribe pre c removed s o).handlers = s.handlers := by
    cases o <;> rfl
  have hgate : (settleUnsubscribe pre c removed s o).hasSubscription = true ↔
      (o = .cancelled ∨ ∃ k, k ∈ s.handlers) := by
    cases o with
    | cancelled => simp [settleUnsubscribe, hopen]
    | _ =>
      rw [settleUnsubscribe, if_neg (by simp), clearIdle_gate]
      · simp [hopen]
      · exact hpop
  have hwires : (∀ k ∈ s.handlers, wire pre k ∈ (settleUnsubscribe pre c removed s o).wires) ↔
      (o = .returned ∨ removed = true → ∀ k ∈ s.handlers, wire pre k ≠ wire pre c) := by
    have hset : (settleUnsubscribe pre c removed s o).wires =
        if o = .returned ∨ removed = true then s.wires.erase (wire pre c) else s.wires := by
      cases o <;> cases removed <;> rfl
    rw [hset]
    split_ifs with hgone
    · simp only [Finset.mem_erase, hgone, true_implies]
      constructor
      · intro hk k hin
        exact (hk k hin).1
      · intro hk k hin
        exact ⟨hk k hin, hwired k hin⟩
    · simp only [hgone, false_implies, iff_true]
      exact hwired
  rw [← hwires]
  constructor
  · intro hcons
    have hw := hcons.wired
    have hg := hcons.gate
    rw [hhandlers] at hw hg
    rw [hgate] at hg
    exact ⟨hw, fun ho => hg.mp (Or.inl ho)⟩
  · intro hkept
    refine ⟨?_, ?_, ?_⟩
    · rw [hhandlers]
      exact hpop
    · rw [hhandlers]
      exact hkept.1
    · rw [hhandlers, hgate]
      constructor
      · intro hk
        cases hk with
        | inl ho => exact hkept.2 ho
        | inr hex => exact hex
      · exact Or.inr

theorem settleSubscribe_lock (c : Channel) (x : η) (s : State η) (o : Ending) :
    (settleSubscribe pre c x s o).lock = none := by
  cases o <;> rfl

theorem settleUnsubscribe_lock (c : Channel) (removed : Bool) (s : State η) (o : Ending) :
    (settleUnsubscribe pre c removed s o).lock = none := by
  cases o <;> rfl

/-- Where the invariant holds, the harmless steps keep it and only they reach a
good state. -/
theorem step_exact {s : State η} (h : Inv pre s) (e : Event η) :
    (Kept pre s e → Inv pre (step pre s e).1) ∧ (Good pre (step pre s e).1 → Kept pre s e) := by
  cases hl : s.lock with
  | none =>
    have hcons : Consistent pre s := good_of_inv h hl
    cases e with
    | enter call =>
      refine ⟨fun _ => ?_, fun _ => trivial⟩
      cases call with
      | subscribe c x =>
        simp only [step, hl]
        exact enterSubscribe_inv hl hcons c x
      | unsubscribe c x =>
        simp only [step, hl]
        exact enterUnsubscribe_inv hl hcons c x
    | settle o removed =>
      simp only [step, hl, Kept]
      exact ⟨fun _ => h, fun _ => trivial⟩
  | some call =>
    cases e with
    | enter other =>
      refine ⟨fun _ => ?_, fun _ => trivial⟩
      simp only [step, hl]
      exact h
    | settle o removed =>
      rw [Inv, hl] at h
      cases call with
      | subscribe c x =>
        simp only [step, hl, Kept, ← settleSubscribe_consistent_iff h o, Good, Inv, settleSubscribe_lock]
        exact ⟨id, fun hgood => hgood trivial⟩
      | unsubscribe c x =>
        simp only [step, hl, Kept, ← settleUnsubscribe_consistent_iff h o removed, Good, Inv,
          settleUnsubscribe_lock]
        exact ⟨id, fun hgood => hgood trivial⟩

/-! ### Handlers whose subscription returned -/

def Subscribed (c : Channel) (x : η) (f : Finished η) : Prop := f = some (.subscribe c x, .returned)

instance (c : Channel) (x : η) (f : Finished η) : Decidable (Subscribed c x f) :=
  inferInstanceAs (Decidable (f = some (.subscribe c x, .returned)))

def Unsubscribed (c : Channel) (x : η) (f : Finished η) : Prop := ∃ o, f = some (.unsubscribe c x, o)

/-- Such a handler stays registered until its own unsubscription, and is not the
one a failing first subscription takes out again. -/
def Tracked (h : List (Finished η)) (s : State η) : Prop :=
  ∀ c x, Since (Subscribed c x) (Unsubscribed c x) h →
    (x ∈ s.handlers.members c ∧ s.lock ≠ some (.subscribe c x)) ∨ s.lock = some (.unsubscribe c x)

theorem enterSubscribe_tracked {h : List (Finished η)} {s : State η} (hfree : s.lock = none) (ht : Tracked h s)
    (c : Channel) (x : η) : Tracked (h ++ [(enterSubscribe c x s).2]) (enterSubscribe c x s).1 := by
  have hold : ∀ k y, Since (Subscribed k y) (Unsubscribed k y) h → y ∈ s.handlers.members k := by
    intro k y hs
    cases ht k y hs with
    | inl hreg => exact hreg.1
    | inr hlock => simp [hfree] at hlock
  intro k y hs
  rcases since_of_snoc hs with hnow | ⟨hbefore, -⟩
  · simp only [enterSubscribe, Subscribed] at hnow ⊢
    split_ifs at hnow ⊢ with hx hc
    all_goals simp at hnow
    · obtain ⟨rfl, rfl⟩ := hnow
      exact Or.inl ⟨hx, by simp [hfree]⟩
    · obtain ⟨rfl, rfl⟩ := hnow
      exact Or.inl ⟨by simp [Registry.mem_members_add], by simp [hfree]⟩
  · have hy := hold k y hbefore
    have hadd : y ∈ (s.handlers.add c x).members k := Registry.mem_members_add.mpr (Or.inr hy)
    simp only [enterSubscribe]
    split_ifs with hx hc
    · exact Or.inl ⟨hy, by simp [hfree]⟩
    · refine Or.inl ⟨hadd, ?_⟩
      intro heq
      cases heq
      exact hx hy
    · exact Or.inl ⟨hadd, by simp [hfree]⟩

theorem enterUnsubscribe_tracked {h : List (Finished η)} {s : State η} (hfree : s.lock = none)
    (ht : Tracked h s) (c : Channel) (x : η) :
    Tracked (h ++ [(enterUnsubscribe c x s).2]) (enterUnsubscribe c x s).1 := by
  intro k y hs
  have hbefore : Since (Subscribed k y) (Unsubscribed k y) h ∧ ¬ Unsubscribed k y (enterUnsubscribe c x s).2 := by
    refine (since_of_snoc hs).resolve_left ?_
    intro hnow
    simp only [enterUnsubscribe, Subscribed] at hnow
    split_ifs at hnow <;> simp at hnow
  have hy : y ∈ s.handlers.members k := by
    cases ht k y hbefore.1 with
    | inl hreg => exact hreg.1
    | inr hlock => simp [hfree] at hlock
  have hquiet := hbefore.2
  simp only [enterUnsubscribe, Unsubscribed] at hquiet ⊢
  split_ifs at hquiet ⊢ with hx hlast
  · by_cases heq : k = c ∧ y = x
    · obtain ⟨rfl, rfl⟩ := heq
      exact Or.inr rfl
    · exact Or.inl ⟨Registry.mem_members_remove.mpr ⟨hy, heq⟩, by simp⟩
  · have hne : ¬ (k = c ∧ y = x) := by
      intro heq
      obtain ⟨rfl, rfl⟩ := heq
      exact hquiet ⟨_, rfl⟩
    refine Or.inl ⟨Registry.mem_members_remove.mpr ⟨hy, hne⟩, ?_⟩
    simp [State.clearIdle, hfree]
  · exact Or.inl ⟨hy, by simp [hfree]⟩

theorem settleSubscribe_tracked {h : List (Finished η)} {s : State η} {c : Channel} {x : η}
    (hlock : s.lock = some (.subscribe c x)) (hx : x ∈ s.handlers.members c) (ht : Tracked h s) (o : Ending) :
    Tracked (h ++ [some (.subscribe c x, o)]) (settleSubscribe pre c x s o) := by
  intro k y hs
  refine Or.inl ⟨?_, by simp [settleSubscribe_lock]⟩
  rcases since_of_snoc hs with hnow | ⟨hbefore, -⟩
  · simp only [Subscribed, Option.some.injEq, Prod.mk.injEq, Call.subscribe.injEq] at hnow
    obtain ⟨⟨rfl, rfl⟩, rfl⟩ := hnow
    exact hx
  · have hreg : y ∈ s.handlers.members k ∧ s.lock ≠ some (.subscribe k y) := by
      refine (ht k y hbefore).resolve_right ?_
      simp [hlock]
    have hne : ¬ (k = c ∧ y = x) := by
      intro heq
      obtain ⟨rfl, rfl⟩ := heq
      exact hreg.2 hlock
    cases o with
    | raised => exact Registry.mem_members_remove.mpr ⟨hreg.1, hne⟩
    | _ => exact hreg.1

theorem settleUnsubscribe_tracked {h : List (Finished η)} {s : State η} {c : Channel} {x : η}
    (hlock : s.lock = some (.unsubscribe c x)) (ht : Tracked h s) (o : Ending) (removed : Bool) :
    Tracked (h ++ [some (.unsubscribe c x, o)]) (settleUnsubscribe pre c removed s o) := by
  intro k y hs
  have hhandlers : (settleUnsubscribe pre c removed s o).handlers = s.handlers := by
    cases o <;> rfl
  refine Or.inl ⟨?_, by simp [settleUnsubscribe_lock]⟩
  rw [hhandlers]
  have hbefore : Since (Subscribed k y) (Unsubscribed k y) h ∧ ¬ Unsubscribed k y (some (.unsubscribe c x, o)) := by
    refine (since_of_snoc hs).resolve_left ?_
    simp [Subscribed]
  cases ht k y hbefore.1 with
  | inl hreg => exact hreg.1
  | inr hpending =>
    rw [hlock] at hpending
    cases hpending
    exact absurd ⟨o, rfl⟩ hbefore.2

/-- While a first subscription waits, its handler is registered. -/
def Waiting (s : State η) : Prop := ∀ c x, s.lock = some (.subscribe c x) → x ∈ s.handlers.members c

theorem step_waiting {s : State η} (h : Waiting s) (e : Event η) : Waiting (step pre s e).1 := by
  cases hl : s.lock with
  | none =>
    cases e with
    | enter call =>
      cases call with
      | subscribe c x =>
        intro k y hk
        simp only [step, hl, enterSubscribe] at hk ⊢
        split_ifs at hk ⊢
        · exact h k y hk
        · cases hk
          simp [Registry.mem_members_add]
      | unsubscribe c x =>
        intro k y hk
        simp only [step, hl, enterUnsubscribe] at hk ⊢
        split_ifs at hk ⊢
        · cases hk
        · simp [State.clearIdle] at hk
        · exact h k y hk
    | settle o removed =>
      simp only [step, hl]
      exact h
  | some call =>
    cases e with
    | enter other =>
      simp only [step, hl]
      exact h
    | settle o removed =>
      intro k y hk
      cases call with
      | subscribe c x => simp [step, hl, settleSubscribe_lock] at hk
      | unsubscribe c x => simp [step, hl, settleUnsubscribe_lock] at hk

theorem step_tracked {h : List (Finished η)} {s : State η} (ht : Tracked h s ∧ Waiting s) (e : Event η) :
    Tracked (h ++ [(step pre s e).2]) (step pre s e).1 ∧ Waiting (step pre s e).1 := by
  refine ⟨?_, step_waiting ht.2 e⟩
  have hidle : Tracked (h ++ [none]) s := by
    intro k y hs
    refine ht.1 k y ((since_of_snoc hs).resolve_left ?_).1
    simp [Subscribed]
  cases hl : s.lock with
  | none =>
    cases e with
    | enter call =>
      cases call with
      | subscribe c x =>
        simp only [step, hl]
        exact enterSubscribe_tracked hl ht.1 c x
      | unsubscribe c x =>
        simp only [step, hl]
        exact enterUnsubscribe_tracked hl ht.1 c x
    | settle o removed =>
      simp only [step, hl]
      exact hidle
  | some call =>
    cases e with
    | enter other =>
      simp only [step, hl]
      exact hidle
    | settle o removed =>
      cases call with
      | subscribe c x =>
        simp only [step, hl]
        exact settleSubscribe_tracked hl (ht.2 c x hl) ht.1 o
      | unsubscribe c x =>
        simp only [step, hl]
        exact settleUnsubscribe_tracked hl ht.1 o removed

theorem run_tracked (pre : PyStr) (events : List (Event η)) :
    Tracked ((machine pre).trace State.initialized events) ((machine pre).run State.initialized events) := by
  have h0 : Tracked [] (State.initialized : State η) ∧ Waiting (State.initialized : State η) := by
    constructor
    · intro c x hs
      exact absurd hs not_since_nil
    · intro c x hk
      cases hk
  have h := (machine pre).history_invariant (P := fun h s => Tracked h s ∧ Waiting s) h0
    (fun h s e ht => step_tracked ht e) events
  exact h.1

/-! ### Whole runs -/

omit [DecidableEq η] in
theorem Consistent.delivers {ε : Type} (codec : Codec ε) {s : State η} (h : Consistent pre s) {c : Channel} {x : η}
    (hx : x ∈ s.handlers.members c) (hc : pre = [] ∨ ¬ pre <+: c) (envelope : ε) :
    Delivery.Calls (readerLoop codec pre s (publish codec pre c envelope)) x envelope := by
  have hin : c ∈ s.handlers := Registry.mem_of_mem_members hx
  refine ⟨s.handlers.members c, ?_, hx⟩
  have hgate : s.hasSubscription = true := h.gate.mpr ⟨c, hin⟩
  simp [readerLoop, getMessage, publish, hgate, h.wired c hin, codec.loads_dumps, (unwire_wire_iff pre c).mpr hc]

theorem redis_subscriptions_consistent_iff {ε : Type} (codec : Codec ε) (pre : PyStr) (events : List (Event η)) :
    ((∀ es₁ es₂, events = es₁ ++ es₂ → Good pre ((machine pre).run State.initialized es₁)) ↔
      ∀ es₁ e es₂, events = es₁ ++ e :: es₂ → Kept pre ((machine pre).run State.initialized es₁) e) ∧
    ((∀ es₁ e es₂, events = es₁ ++ e :: es₂ → Kept pre ((machine pre).run State.initialized es₁) e) →
      ∀ c x, Since (Subscribed c x) (Unsubscribed c x) ((machine pre).trace State.initialized events) →
        ((machine pre).run State.initialized events).lock = none → (pre = [] ∨ ¬ pre <+: c) →
        ∀ envelope, Delivery.Calls (readerLoop codec pre ((machine pre).run State.initialized events)
          (publish codec pre c envelope)) x envelope) := by
  have hexact := (machine pre).run_exact (I := Inv pre) (G := Good pre) (K := Kept pre)
    (s := (State.initialized : State η)) consistent_initialized (fun s h => good_of_inv h)
    (fun s e h => (step_exact h e).1) (fun s e h => (step_exact h e).2) events
  refine ⟨hexact, ?_⟩
  intro hkept c x hs hfree hc envelope
  have hgood := hexact.mpr hkept events [] (by simp)
  have hreg := run_tracked pre events c x hs
  simp only [hfree, reduceCtorEq, or_false] at hreg
  exact (hgood hfree).delivers codec hreg.1 hc envelope

def taskChannel : Channel := PyStr.ofString "ws:task:1"

/-- A client that disconnects while the first subscription is awaited, then another. -/
def disconnect : List (Event ℕ) :=
  [.enter (.subscribe taskChannel 0), .settle .cancelled false, .enter (.subscribe taskChannel 1)]

theorem cancelled_first_subscriber_deafens_channel :
    Subscribed taskChannel 1 (((machine defaultPrefix).trace State.initialized disconnect).getLastD none) ∧
    ¬ Good defaultPrefix ((machine defaultPrefix).run State.initialized disconnect) ∧
    ¬ Delivery.Calls (readerLoop pingCodec defaultPrefix ((machine defaultPrefix).run State.initialized disconnect)
      (publish pingCodec defaultPrefix taskChannel ())) 1 () := by
  refine ⟨by decide +kernel, ?_, ?_⟩
  · intro hgood
    have hwired := (hgood (by decide +kernel)).wired taskChannel (by decide +kernel)
    revert hwired
    decide +kernel
  · intro hcall
    obtain ⟨handlers, heq, -⟩ := hcall
    have hnone : readerLoop pingCodec defaultPrefix ((machine defaultPrefix).run State.initialized disconnect)
        (publish pingCodec defaultPrefix taskChannel ()) = none := by
      decide +kernel
    rw [hnone] at heq
    cases heq

end AgentWorkflow.ControlPlane.RedisBroker
