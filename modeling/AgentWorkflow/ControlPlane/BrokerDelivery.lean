import AgentWorkflow.ControlPlane.Broker

/-!
# What a Redis publish reaches

`wire` leaves a channel alone that already starts with the prefix, `unwire` always
strips it: the two are inverse exactly on the channels without the prefix. A
publish on any other channel is dispatched under the stripped name.
-/

namespace AgentWorkflow.ControlPlane
open AgentWorkflow.Lib

namespace RedisBroker

/-! ### Wire names -/

theorem wire_prefixed {pre : PyStr} {c : Channel} (h : pre <+: c) : wire pre c = c := by
  simp [wire, h]

theorem wire_unprefixed {pre : PyStr} {c : Channel} (h : ¬ pre <+: c) : wire pre c = pre ++ c := by
  simp [wire, h]

theorem unwire_append (pre : PyStr) (d : Channel) : unwire pre (pre ++ d) = d := by
  simp [unwire]

theorem prefix_wire (pre : PyStr) (c : Channel) : pre <+: wire pre c := by
  by_cases h : pre <+: c
  · rw [wire_prefixed h]
    exact h
  · rw [wire_unprefixed h]
    exact List.prefix_append pre c

theorem unwire_wire_iff (pre : PyStr) (c : Channel) :
    unwire pre (wire pre c) = c ↔ pre = [] ∨ ¬ pre <+: c := by
  by_cases h : pre <+: c
  · obtain ⟨d, rfl⟩ := h
    rw [wire_prefixed (List.prefix_append pre d), unwire_append]
    simp
  · rw [wire_unprefixed h, unwire_append]
    simp [h]

/-- Two channels share a wire name when one is the other with the prefix put on. -/
theorem wire_eq_wire_iff {pre : PyStr} {c k : Channel} :
    wire pre k = wire pre c ↔
      k = c ∨ (¬ pre <+: k ∧ c = pre ++ k) ∨ (¬ pre <+: c ∧ k = pre ++ c) := by
  by_cases hk : pre <+: k
  · by_cases hc : pre <+: c
    · simp [wire_prefixed hk, wire_prefixed hc, hk, hc]
    · have hne : k ≠ c := fun h => hc (h ▸ hk)
      simp [wire_prefixed hk, wire_unprefixed hc, hk, hc, hne]
  · by_cases hc : pre <+: c
    · have hne : k ≠ c := fun h => hk (h ▸ hc)
      simp [wire_unprefixed hk, wire_prefixed hc, hk, hc, hne, eq_comm]
    · have hkc : c ≠ pre ++ k := fun h => hc (h ▸ List.prefix_append pre k)
      have hck : k ≠ pre ++ c := fun h => hk (h ▸ List.prefix_append pre c)
      simp [wire_unprefixed hk, wire_unprefixed hc, hkc, hck]

theorem wire_injective_iff (pre : PyStr) : Function.Injective (wire pre) ↔ pre = [] := by
  constructor
  · intro h
    by_contra hne
    -- the empty channel and the prefix itself
    have hnil : ¬ pre <+: [] := by
      rw [List.prefix_nil]
      exact hne
    have heq : wire pre [] = wire pre pre := by
      rw [wire_unprefixed hnil, wire_prefixed (List.prefix_refl pre), List.append_nil]
    exact hne (h heq).symm
  · intro h c k heq
    subst h
    simpa [wire] using heq

end RedisBroker

/-! ### Brokers after a list of subscriptions -/

section Subscribed
variable {η : Type} [DecidableEq η]

def InMemoryBroker.subscribed (subs : List (Channel × η)) : Registry Channel η :=
  subs.foldl (fun handlers sub => InMemoryBroker.subscribe handlers sub.1 sub.2) ∅

theorem InMemoryBroker.mem_subscribed {subs : List (Channel × η)} {c : Channel} {x : η} :
    x ∈ (InMemoryBroker.subscribed subs).members c ↔ (c, x) ∈ subs := by
  induction subs using List.reverseRecOn with
  | nil => simp [InMemoryBroker.subscribed]
  | append_singleton subs sub ih =>
    obtain ⟨k, y⟩ := sub
    have hlast : InMemoryBroker.subscribed (subs ++ [(k, y)]) =
        InMemoryBroker.subscribe (InMemoryBroker.subscribed subs) k y := by
      simp [InMemoryBroker.subscribed]
    rw [hlast, InMemoryBroker.subscribe, Registry.mem_members_add, ih]
    simp [or_comm]

namespace RedisBroker

/-- Each call runs to its normal end; a `settle` that finds no await does nothing. -/
def subscribeCalls (subs : List (Channel × η)) : List (Event η) :=
  subs.flatMap fun sub => [.enter (.subscribe sub.1 sub.2), .settle .returned false]

def subscribed (pre : PyStr) (subs : List (Channel × η)) : State η :=
  (machine pre).run State.initialized (subscribeCalls subs)

structure Serves (pre : PyStr) (subs : List (Channel × η)) (s : State η) : Prop where
  free : s.lock = none
  members : ∀ c x, x ∈ s.handlers.members c ↔ (c, x) ∈ subs
  wires : ∀ w, w ∈ s.wires ↔ ∃ sub ∈ subs, wire pre sub.1 = w
  gate : s.hasSubscription = true ↔ subs ≠ []

theorem subscribe_run (pre : PyStr) {s : State η} (hfree : s.lock = none) (c : Channel) (x : η) :
    (machine pre).run s (subscribeCalls [(c, x)]) =
      if x ∈ s.handlers.members c then s
      else if s.handlers.members c = ∅ then
        { handlers := s.handlers.add c x, hasSubscription := true,
          wires := insert (wire pre c) s.wires, lock := none }
      else { s with handlers := s.handlers.add c x, hasSubscription := true } := by
  simp only [subscribeCalls, List.flatMap_cons, List.flatMap_nil, List.append_nil, Machine.run_cons,
    Machine.run_nil, machine, step, hfree, enterSubscribe]
  by_cases hx : x ∈ s.handlers.members c
  · simp [hx, hfree]
  · by_cases hc : s.handlers.members c = ∅
    · simp [hc, settleSubscribe]
    · simp [hx, hc]

theorem Serves.subscribe {pre : PyStr} {subs : List (Channel × η)} {s : State η} (h : Serves pre subs s)
    (c : Channel) (x : η) :
    Serves pre (subs ++ [(c, x)]) ((machine pre).run s (subscribeCalls [(c, x)])) := by
  rw [subscribe_run pre h.free]
  -- a channel that has a handler has its wire subscribed already
  have hwired : ∀ y, (c, y) ∈ subs → wire pre c ∈ s.wires := by
    intro y hy
    exact (h.wires _).mpr ⟨(c, y), hy, rfl⟩
  have hwires : wire pre c ∈ s.wires → ∀ w, w ∈ s.wires ↔ ∃ sub ∈ subs ++ [(c, x)], wire pre sub.1 = w := by
    intro hw w
    rw [h.wires w]
    constructor
    · intro hsub
      obtain ⟨sub, hmem, heq⟩ := hsub
      exact ⟨sub, List.mem_append_left _ hmem, heq⟩
    · intro hsub
      obtain ⟨sub, hmem, heq⟩ := hsub
      cases List.mem_append.mp hmem with
      | inl hold => exact ⟨sub, hold, heq⟩
      | inr hnew =>
        rw [List.mem_singleton.mp hnew] at heq
        rw [← h.wires, ← heq]
        exact hw
  have hmembers : ∀ k y, y ∈ (s.handlers.add c x).members k ↔ (k, y) ∈ subs ++ [(c, x)] := by
    intro k y
    rw [Registry.mem_members_add, h.members]
    simp [or_comm]
  split_ifs with hx hc
  · have hold := (h.members c x).mp hx
    refine ⟨h.free, ?_, hwires (hwired x hold), ?_⟩
    · intro k y
      rw [h.members]
      simp only [List.mem_append, List.mem_singleton, Prod.mk.injEq]
      constructor
      · exact Or.inl
      · intro hky
        cases hky with
        | inl hmem => exact hmem
        | inr heq =>
          rw [heq.1, heq.2]
          exact hold
    · rw [h.gate]
      simp [List.ne_nil_of_mem hold]
  · refine ⟨rfl, hmembers, ?_, by simp⟩
    intro w
    simp only [Finset.mem_insert, h.wires, List.mem_append, List.mem_singleton]
    constructor
    · intro hw
      cases hw with
      | inl heq => exact ⟨(c, x), Or.inr rfl, heq.symm⟩
      | inr hold =>
        obtain ⟨sub, hmem, heq⟩ := hold
        exact ⟨sub, Or.inl hmem, heq⟩
    · intro hw
      obtain ⟨sub, hmem, heq⟩ := hw
      cases hmem with
      | inl hold => exact Or.inr ⟨sub, hold, heq⟩
      | inr hnew =>
        rw [hnew] at heq
        exact Or.inl heq.symm
  · obtain ⟨y, hy⟩ := Finset.nonempty_iff_ne_empty.mpr hc
    exact ⟨h.free, hmembers, hwires (hwired y ((h.members c y).mp hy)), by simp⟩

theorem serves_subscribed (pre : PyStr) (subs : List (Channel × η)) :
    Serves pre subs (subscribed pre subs) := by
  induction subs using List.reverseRecOn with
  | nil =>
    constructor
    all_goals simp [subscribed, subscribeCalls, State.initialized]
  | append_singleton subs sub ih =>
    have hrun : subscribed pre (subs ++ [sub]) =
        (machine pre).run (subscribed pre subs) (subscribeCalls [(sub.1, sub.2)]) := by
      rw [subscribed, subscribeCalls, List.flatMap_append, Machine.run_append]
      rfl
    rw [hrun]
    exact ih.subscribe sub.1 sub.2

/-! ### Delivery -/

omit [DecidableEq η] in
/-- The published envelope reaches the handlers filed under the stripped name,
provided some subscription uses the wire name. -/
theorem Serves.calls_iff {ε : Type} (codec : Codec ε) {pre : PyStr} {subs : List (Channel × η)}
    {s : State η} (h : Serves pre subs s) (c : Channel) (envelope : ε) (x : η) (e : ε) :
    Delivery.Calls (readerLoop codec pre s (publish codec pre c envelope)) x e ↔
      e = envelope ∧ (∃ sub ∈ subs, wire pre sub.1 = wire pre c) ∧ (unwire pre (wire pre c), x) ∈ subs := by
  by_cases hsub : ∃ sub ∈ subs, wire pre sub.1 = wire pre c
  · have hgate : s.hasSubscription = true := by
      obtain ⟨sub, hmem, -⟩ := hsub
      exact h.gate.mpr (List.ne_nil_of_mem hmem)
    have hmsg : readerLoop codec pre s (publish codec pre c envelope) =
        some (envelope, s.handlers.members (unwire pre (wire pre c))) := by
      simp [readerLoop, getMessage, publish, hgate, (h.wires _).mpr hsub, codec.loads_dumps]
    rw [hmsg]
    constructor
    · intro hcall
      obtain ⟨handlers, heq, hx⟩ := hcall
      cases heq
      exact ⟨rfl, hsub, (h.members _ _).mp hx⟩
    · intro hcall
      rw [hcall.1]
      exact ⟨_, rfl, (h.members _ _).mpr hcall.2.2⟩
  · have hnone : readerLoop codec pre s (publish codec pre c envelope) = none := by
      have hw : wire pre c ∉ s.wires := fun hw => hsub ((h.wires _).mp hw)
      simp [readerLoop, getMessage, publish, hw]
    rw [hnone]
    simp [Delivery.Calls, hsub]

end RedisBroker

theorem InMemoryBroker.calls_iff {ε : Type} (subs : List (Channel × η)) (c : Channel) (envelope : ε) (x : η)
    (e : ε) :
    Delivery.Calls (InMemoryBroker.publish (InMemoryBroker.subscribed subs) c envelope) x e ↔
      e = envelope ∧ (c, x) ∈ subs := by
  rw [← InMemoryBroker.mem_subscribed]
  constructor
  · intro h
    obtain ⟨handlers, heq, hx⟩ := h
    cases heq
    exact ⟨rfl, hx⟩
  · intro h
    rw [h.1]
    exact ⟨_, rfl, h.2⟩

namespace RedisBroker

/-- Under a channel `pre ++ d` the message is dispatched to the handlers of `d`. So
both have the same handlers, or nothing is subscribed under that wire name. -/
def SameAudience (pre : PyStr) (subs : List (Channel × η)) (c : Channel) : Prop :=
  pre = [] ∨ ∀ d, c = pre ++ d →
    (∀ x, (c, x) ∈ subs ↔ (d, x) ∈ subs) ∨ (pre <+: d ∧ ∀ x, (c, x) ∉ subs)

omit [DecidableEq η] in
theorem delivers_of_unwire {pre : PyStr} {subs : List (Channel × η)} {c : Channel} {x : η}
    (h : unwire pre (wire pre c) = c) :
    ((∃ sub ∈ subs, wire pre sub.1 = wire pre c) ∧ (unwire pre (wire pre c), x) ∈ subs) ↔ (c, x) ∈ subs := by
  rw [h]
  constructor
  · exact And.right
  · intro hx
    exact ⟨⟨(c, x), hx, rfl⟩, hx⟩

omit [DecidableEq η] in
theorem delivers_iff {pre : PyStr} {subs : List (Channel × η)} {c : Channel} :
    (∀ x, ((∃ sub ∈ subs, wire pre sub.1 = wire pre c) ∧ (unwire pre (wire pre c), x) ∈ subs) ↔
      (c, x) ∈ subs) ↔ SameAudience pre subs c := by
  by_cases hinv : unwire pre (wire pre c) = c
  · have haudience : SameAudience pre subs c := by
      cases (unwire_wire_iff pre c).mp hinv with
      | inl hnil => exact Or.inl hnil
      | inr hc => exact Or.inr fun d hd => absurd (hd ▸ List.prefix_append pre d) hc
    exact iff_of_true (fun x => delivers_of_unwire hinv) haudience
  · have hboth := mt (unwire_wire_iff pre c).mpr hinv
    rw [not_or, not_not] at hboth
    obtain ⟨hne, d, rfl⟩ := hboth
    have hc : pre <+: pre ++ d := List.prefix_append pre d
    rw [wire_prefixed hc, unwire_append]
    constructor
    · intro h
      refine Or.inr fun d' hd' => ?_
      rw [← List.append_cancel_left hd']
      by_cases hsub : ∃ sub ∈ subs, wire pre sub.1 = pre ++ d
      · exact Or.inl fun x => by simp [← h x, hsub]
      · have hnone : ∀ x, (pre ++ d, x) ∉ subs := fun x hx => hsub ⟨_, hx, wire_prefixed hc⟩
        by_cases hd : pre <+: d
        · exact Or.inr ⟨hd, hnone⟩
        · -- `d` has the same wire name, so it has no handler either
          have hidle : ∀ x, (d, x) ∉ subs := fun x hx => hsub ⟨_, hx, wire_unprefixed hd⟩
          exact Or.inl fun x => iff_of_false (hnone x) (hidle x)
    · intro h x
      cases (h.resolve_left hne) d rfl with
      | inl hsame =>
        rw [hsame x]
        constructor
        · exact And.right
        · intro hx
          exact ⟨⟨_, (hsame x).mpr hx, wire_prefixed hc⟩, hx⟩
      | inr hidle =>
        refine iff_of_false ?_ (hidle.2 x)
        intro hcall
        obtain ⟨⟨sub, hmem, hw⟩, -⟩ := hcall
        have hcases : wire pre sub.1 = wire pre (pre ++ d) := by rw [hw, wire_prefixed hc]
        rcases wire_eq_wire_iff.mp hcases with heq | ⟨hpre, heq⟩ | ⟨hpre, -⟩
        · exact hidle.2 sub.2 (heq ▸ hmem)
        · exact hpre (List.append_cancel_left heq ▸ hidle.1)
        · exact hpre hc

end RedisBroker
end Subscribed

namespace RedisBroker

/-- `_WIRE_PREFIX` when the environment does not override it. -/
def defaultPrefix : PyStr := PyStr.ofString "awp:ws:"

/-- The JSON text of one envelope. -/
def pingText : PyStr :=
  PyStr.ofString "\x7b\"type\": \"ping\", \"payload\": \x7b\x7d, \"timestamp\": 0.0\x7d"

def pingCodec : Codec Unit where
  dumps _ := pingText
  loads t := if t = pingText then some () else none
  loads_dumps _ := by simp

def prefixedChannel : Channel := PyStr.ofString "awp:ws:ops"

end RedisBroker

end AgentWorkflow.ControlPlane
