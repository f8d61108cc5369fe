import AgentWorkflow.Lib.Machine

/-!
# The session guardian

`watch` counts the unhealthy checks in a row and logs a stalled session at the third,
but not while the last alert is younger than the cooldown. Readings of the monotonic
clock are seconds since an origin the platform chooses; `last_alert` starts at `0.0`
on that clock.
-/

namespace AgentWorkflow.Workflows.Guardian
open AgentWorkflow.Lib

/-- What `check_once` returned or raised. -/
inductive Outcome where
  | healthy
  | unhealthy
  | raised (errorType : String)
  deriving DecidableEq, Repr

/-- One turn of the loop: its check, and `time.monotonic()` right after it. -/
structure Check where
  outcome : Outcome
  reading : ℚ
  deriving DecidableEq, Repr

structure State where
  failures : ℕ
  lastAlert : ℚ
  deriving DecidableEq, Repr

def start : State := ⟨0, 0⟩

inductive Entry where
  | stalledSession (consecutiveFailures : ℕ)
  | guardianError (errorType : String)
  deriving DecidableEq, Repr

/-- A check and what `watch` itself logged about it. -/
structure Seen where
  check : Check
  entry : Option Entry
  deriving DecidableEq, Repr

/-- After a check that did not raise. -/
def observe (alertCooldown : ℤ) (s : State) (c : Check) (healthy : Bool) : State × Seen :=
  let failures := if healthy then 0 else s.failures + 1
  if 3 ≤ failures ∧ (alertCooldown : ℚ) ≤ c.reading - s.lastAlert then
    (⟨failures, c.reading⟩, ⟨c, some (.stalledSession failures)⟩)
  else
    (⟨failures, s.lastAlert⟩, ⟨c, none⟩)

def watch (alertCooldown : ℤ) : Machine State Check Seen where
  step s c := match c.outcome with
    | .healthy => observe alertCooldown s c true
    | .unhealthy => observe alertCooldown s c false
    | .raised errorType => (s, ⟨c, some (.guardianError errorType)⟩)

variable (alertCooldown : ℤ)

@[simp] theorem observe_check (s : State) (c : Check) (healthy : Bool) :
    (observe alertCooldown s c healthy).2.check = c := by
  simp only [observe, apply_ite Prod.snd, apply_ite Seen.check, ite_self]

@[simp] theorem observe_failures (s : State) (c : Check) (healthy : Bool) :
    (observe alertCooldown s c healthy).1.failures = if healthy then 0 else s.failures + 1 := by
  simp only [observe, apply_ite Prod.fst, apply_ite State.failures, ite_self]

theorem step_failures (s : State) (c : Check) :
    ((watch alertCooldown).step s c).1.failures =
      match c.outcome with
      | .healthy => 0
      | .unhealthy => s.failures + 1
      | .raised _ => s.failures := by
  cases hc : c.outcome <;> simp [watch, hc]

@[simp] theorem step_check (s : State) (c : Check) : ((watch alertCooldown).step s c).2.check = c := by
  cases hc : c.outcome <;> simp [watch, hc]

theorem trace_checks (s : State) (checks : List Check) :
    ((watch alertCooldown).trace s checks).map Seen.check = checks := by
  induction checks generalizing s with
  | nil => rfl
  | cons c checks ih =>
    rw [Machine.trace_cons, List.map_cons, step_check, ih]

/-! ### The counter -/

def completed (c : Check) : Bool :=
  match c.outcome with
  | .raised _ => false
  | _ => true

def failed (c : Check) : Bool := decide (c.outcome = .unhealthy)

/-- Unhealthy checks in a row, newest first; a check that raised counts neither way. -/
def streak (checks : List Check) : ℕ := ((checks.filter completed).reverse.takeWhile failed).length

theorem streak_snoc (checks : List Check) (c : Check) :
    streak (checks ++ [c]) =
      match c.outcome with
      | .healthy => 0
      | .unhealthy => streak checks + 1
      | .raised _ => streak checks := by
  cases hc : c.outcome <;> simp [streak, completed, failed, hc]

theorem run_failures (checks : List Check) :
    ((watch alertCooldown).run start checks).failures = streak checks := by
  induction checks using List.reverseRecOn with
  | nil => rfl
  | append_singleton checks c ih =>
    rw [Machine.run_snoc, streak_snoc, step_failures, ih]

/-- The last three checks were unhealthy. -/
def FailsThree (checks : List Check) : Prop :=
  ∃ pre a b c, checks = pre ++ [a, b, c] ∧ a.outcome = .unhealthy ∧ b.outcome = .unhealthy ∧ c.outcome = .unhealthy

theorem failsThree_iff {checks : List Check} (h : ∀ c ∈ checks, completed c = true) :
    FailsThree checks ↔ 3 ≤ streak checks := by
  rw [streak, List.filter_eq_self.mpr h]
  constructor
  · rintro ⟨pre, a, b, c, rfl, ha, hb, hc⟩
    simp [failed, ha, hb, hc]
  · intro h3
    -- the newest three, read off the reversed list
    rcases hrev : checks.reverse with _ | ⟨c, _ | ⟨b, _ | ⟨a, pre⟩⟩⟩
    · simp [hrev] at h3
    · have := (List.takeWhile_sublist failed (l := checks.reverse)).length_le
      rw [hrev, List.length_singleton] at this
      rw [hrev] at h3
      omega
    · have := (List.takeWhile_sublist failed (l := checks.reverse)).length_le
      rw [hrev, List.length_cons, List.length_singleton] at this
      rw [hrev] at h3
      omega
    · have hchecks : checks = pre.reverse ++ [a, b, c] := by
        rw [← List.reverse_reverse checks, hrev]
        simp
      rw [hrev] at h3
      by_cases hc : failed c = true
      · by_cases hb : failed b = true
        · by_cases ha : failed a = true
          · simp only [failed, decide_eq_true_eq] at ha hb hc
            exact ⟨_, a, b, c, hchecks, ha, hb, hc⟩
          · simp [hc, hb, ha] at h3
        · simp [hc, hb] at h3
      · simp [hc] at h3

/-! ### The alerts -/

def Seen.alert (e : Seen) : Bool :=
  match e.entry with
  | some (.stalledSession _) => true
  | _ => false

def alertTimes (history : List Seen) : List ℚ := (history.filter Seen.alert).map fun e => e.check.reading

/-- The check `c` after the checks `pre` logs a stalled session. -/
def AlertsAt (pre : List Check) (c : Check) : Prop :=
  ((watch alertCooldown).step ((watch alertCooldown).run start pre) c).2.alert = true

theorem alertTimes_snoc (history : List Seen) (e : Seen) :
    alertTimes (history ++ [e]) = if e.alert then alertTimes history ++ [e.check.reading] else alertTimes history := by
  cases h : e.alert <;> simp [alertTimes, h]

variable {alertCooldown}

/-- What one step does with `last_alert`, and when it alerts. -/
theorem step_alert (s : State) (c : Check) :
    (((watch alertCooldown).step s c).2.alert = true ↔
        c.outcome = .unhealthy ∧ 3 ≤ s.failures + 1 ∧ (alertCooldown : ℚ) ≤ c.reading - s.lastAlert) ∧
      ((watch alertCooldown).step s c).1.lastAlert =
        if ((watch alertCooldown).step s c).2.alert then c.reading else s.lastAlert := by
  cases hc : c.outcome with
  | healthy => simp [watch, hc, observe, Seen.alert]
  | unhealthy =>
    simp only [watch, hc, observe, Bool.false_eq_true, if_false, true_and]
    by_cases h : 3 ≤ s.failures + 1 ∧ (alertCooldown : ℚ) ≤ c.reading - s.lastAlert
    · rw [if_pos h]
      simp [Seen.alert, h]
    · rw [if_neg h]
      refine ⟨⟨fun halert => ?_, fun hdue => absurd hdue h⟩, by simp [Seen.alert]⟩
      simp [Seen.alert] at halert
  | raised errorType => simp [watch, hc, Seen.alert]

theorem run_lastAlert (checks : List Check) :
    ((watch alertCooldown).run start checks).lastAlert =
      (alertTimes ((watch alertCooldown).trace start checks)).getLastD 0 := by
  induction checks using List.reverseRecOn with
  | nil => rfl
  | append_singleton checks c ih =>
    rw [Machine.run_snoc, Machine.trace_snoc, alertTimes_snoc, (step_alert _ c).2, step_check]
    split
    · simp
    · exact ih

theorem alertsAt_iff (pre : List Check) {c : Check} (h : ∀ d ∈ pre ++ [c], completed d = true) :
    AlertsAt alertCooldown pre c ↔ FailsThree (pre ++ [c]) ∧
      (alertCooldown : ℚ) ≤ c.reading - (alertTimes ((watch alertCooldown).trace start pre)).getLastD 0 := by
  rw [AlertsAt, (step_alert _ c).1, failsThree_iff h, run_failures, run_lastAlert, streak_snoc]
  cases hc : c.outcome with
  | healthy => simp
  | unhealthy => simp
  | raised errorType =>
    have := h c (by simp)
    simp [completed, hc] at this

theorem mem_alertTimes {checks : List Check} {t : ℚ}
    (ht : t ∈ alertTimes ((watch alertCooldown).trace start checks)) :
    ∃ pre c post, checks = pre ++ c :: post ∧ c.reading = t ∧ AlertsAt alertCooldown pre c := by
  obtain ⟨e, he, rfl⟩ := List.mem_map.mp ht
  obtain ⟨hmem, halert⟩ := List.mem_filter.mp he
  obtain ⟨before, after, hsplit⟩ := List.append_of_mem hmem
  obtain ⟨pre, c, post, rfl, -, rfl, -⟩ := Machine.trace_split _ hsplit
  refine ⟨pre, c, post, rfl, ?_, halert⟩
  rw [step_check]

/-- On a clock that does not go back the alerts are in the order of their times. -/
theorem alertTimes_sorted {checks : List Check} (hmono : checks.Pairwise fun a b => a.reading ≤ b.reading) :
    (alertTimes ((watch alertCooldown).trace start checks)).Pairwise (· ≤ ·) := by
  rw [alertTimes, List.pairwise_map]
  refine List.Pairwise.sublist List.filter_sublist ?_
  rw [← trace_checks alertCooldown start checks, List.pairwise_map] at hmono
  exact hmono

/-! ### The law of the alerts -/

theorem mem_of_mem_snoc {pre post : List Check} {c d : Check} (h : d ∈ pre ++ [c]) : d ∈ pre ++ c :: post := by
  rw [List.append_cons]
  exact List.mem_append_left _ h

/-- Log a stalled session exactly after three failures, unless one was logged less than
the cooldown earlier. -/
def Lawful (alertCooldown : ℤ) (pre : List Check) (c : Check) : Prop :=
  AlertsAt alertCooldown pre c ↔
    FailsThree (pre ++ [c]) ∧
      ∀ t ∈ alertTimes ((watch alertCooldown).trace start pre), ¬ c.reading - t < alertCooldown

/-- The first check that ends three failures reads at least the cooldown, counted from
the origin of the clock. -/
def FirstStallLate (alertCooldown : ℤ) (checks : List Check) : Prop :=
  ∀ pre c post, checks = pre ++ c :: post → FailsThree (pre ++ [c]) →
    (∀ pre' c' post', pre = pre' ++ c' :: post' → ¬ FailsThree (pre' ++ [c'])) → (alertCooldown : ℚ) ≤ c.reading

theorem FirstStallLate.of_append {pre post : List Check} (h : FirstStallLate alertCooldown (pre ++ post)) :
    FirstStallLate alertCooldown pre := by
  intro q c r hsplit
  exact h q c (r ++ post) (by rw [hsplit]; simp)

/-- Then nothing has stalled as long as nothing was logged. -/
theorem no_stall_before {checks : List Check} (hdone : ∀ c ∈ checks, completed c = true)
    (hfirst : FirstStallLate alertCooldown checks)
    (hquiet : alertTimes ((watch alertCooldown).trace start checks) = []) :
    ∀ pre c post, checks = pre ++ c :: post → ¬ FailsThree (pre ++ [c]) := by
  induction checks using List.reverseRecOn with
  | nil =>
    intro pre c post h
    simp at h
  | append_singleton checks d ih =>
    rw [Machine.trace_snoc, alertTimes_snoc] at hquiet
    have hnot : ¬ AlertsAt alertCooldown checks d := by
      intro halert
      rw [AlertsAt] at halert
      simp [halert] at hquiet
    rw [AlertsAt] at hnot
    rw [if_neg hnot] at hquiet
    have hbefore := ih (fun c hc => hdone c (List.mem_append_left _ hc)) hfirst.of_append hquiet
    intro pre c post hsplit hfail
    cases post using List.reverseRecOn with
    | nil =>
      obtain ⟨rfl, hlast⟩ := List.append_inj' hsplit rfl
      obtain rfl := List.singleton_inj.mp hlast
      refine hnot ((alertsAt_iff checks hdone).mpr ⟨hfail, ?_⟩)
      rw [hquiet, List.getLastD_nil, sub_zero]
      exact hfirst checks d [] rfl hfail hbefore
    | append_singleton post x =>
      rw [← List.cons_append, ← List.append_assoc] at hsplit
      exact hbefore pre c post (List.append_inj' hsplit rfl).1 hfail

/-- The alerts follow the law at every check exactly when the first stall is not read
too near the origin of the clock: `last_alert = 0.0` there stands for an alert nobody
logged. -/
theorem watch_lawful_iff (alertCooldown : ℤ) (checks : List Check)
    (hdone : ∀ c ∈ checks, completed c = true) (hmono : checks.Pairwise fun a b => a.reading ≤ b.reading) :
    (∀ pre c post, checks = pre ++ c :: post → Lawful alertCooldown pre c) ↔
      FirstStallLate alertCooldown checks := by
  constructor
  · intro hlaw pre c post hsplit hfail hbefore
    have hdone' : ∀ d ∈ pre ++ [c], completed d = true := by
      intro d hd
      rw [hsplit] at hdone
      exact hdone d (mem_of_mem_snoc hd)
    have hquiet : alertTimes ((watch alertCooldown).trace start pre) = [] := by
      refine List.eq_nil_iff_forall_not_mem.mpr fun t ht => ?_
      obtain ⟨pre', c', post', rfl, -, halert⟩ := mem_alertTimes ht
      have hdone'' : ∀ d ∈ pre' ++ [c'], completed d = true := by
        intro d hd
        exact hdone' d (List.mem_append_left _ (mem_of_mem_snoc hd))
      exact hbefore pre' c' post' rfl ((alertsAt_iff pre' hdone'').mp halert).1
    have halert : AlertsAt alertCooldown pre c := by
      refine (hlaw pre c post hsplit).mpr ⟨hfail, ?_⟩
      rw [hquiet]
      simp
    have hreading := ((alertsAt_iff pre hdone').mp halert).2
    rwa [hquiet, List.getLastD_nil, sub_zero] at hreading
  · rintro hfirst pre c post rfl
    rw [Lawful, alertsAt_iff pre fun d hd => hdone d (mem_of_mem_snoc hd)]
    refine and_congr_right fun hfail => ?_
    rcases List.eq_nil_or_concat' (alertTimes ((watch alertCooldown).trace start pre)) with hquiet | ⟨ts, t, hts⟩
    · have hbefore := no_stall_before (fun d hd => hdone d (List.mem_append_left _ hd)) hfirst.of_append hquiet
      have hreading := hfirst pre c post rfl hfail hbefore
      simp [hquiet, hreading]
    · -- the last alert is the latest one
      have hsorted : (alertTimes ((watch alertCooldown).trace start pre)).Pairwise (· ≤ ·) :=
        alertTimes_sorted (List.pairwise_append.mp hmono).1
      rw [hts, List.pairwise_append] at hsorted
      have hlast : ∀ a ∈ ts, a ≤ t := fun a ha => hsorted.2.2 a ha t (by simp)
      simp only [hts, List.getLastD_concat, List.mem_append, List.mem_singleton, not_lt]
      constructor
      · rintro h a (ha | rfl)
        · linarith [hlast a ha]
        · exact h
      · intro h
        exact h t (Or.inr rfl)

theorem watch_lawful_iff_sample :
    (∀ pre c post, [⟨Outcome.unhealthy, (1800 : ℚ)⟩, ⟨.unhealthy, 2100⟩, ⟨.unhealthy, 2400⟩] = pre ++ c :: post →
        Lawful 1800 pre c) ↔
      FirstStallLate 1800 [⟨.unhealthy, 1800⟩, ⟨.unhealthy, 2100⟩, ⟨.unhealthy, 2400⟩] :=
  watch_lawful_iff 1800 _ (by decide) (by decide +kernel)

/-- Three failures in the first quarter of an hour after the clock's origin: the law asks
for an alert at the third, and none is logged. -/
theorem early_stall_unreported :
    ∃ checks : List Check, checks.Pairwise (fun a b => a.reading ≤ b.reading) ∧
      (∀ c ∈ checks, completed c = true) ∧
      ¬ ∀ pre c post, checks = pre ++ c :: post → Lawful 1800 pre c := by
  refine ⟨[⟨.unhealthy, 300⟩, ⟨.unhealthy, 600⟩, ⟨.unhealthy, 900⟩], by decide +kernel, by decide, fun h => ?_⟩
  have hlaw := h [⟨.unhealthy, 300⟩, ⟨.unhealthy, 600⟩] ⟨.unhealthy, 900⟩ [] rfl
  have hsilent : ¬ AlertsAt 1800 [⟨.unhealthy, 300⟩, ⟨.unhealthy, 600⟩] ⟨.unhealthy, 900⟩ := by
    rw [AlertsAt]
    decide +kernel
  refine hsilent (hlaw.mpr ⟨⟨[], _, _, _, rfl, rfl, rfl, rfl⟩, ?_⟩)
  have hquiet : alertTimes ((watch 1800).trace start [⟨.unhealthy, 300⟩, ⟨.unhealthy, 600⟩]) = [] := by
    decide +kernel
  rw [hquiet]
  simp

end AgentWorkflow.Workflows.Guardian
