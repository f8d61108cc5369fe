import AgentWorkflow.ControlPlane.RolloutPublish

/-!
# The way to stable

Runs without pins in which every pass reads its `now` from the clock. A version is
released only by three passes, one for each canary stage. Within one pass two
versions may reach stable, and the first of them is then superseded at once.
-/

namespace AgentWorkflow.ControlPlane.Rollout
open AgentWorkflow.Lib AgentWorkflow.Lib.Calendar

variable {ρ : Type} [Div ρ] [LT ρ] [DecidableLT ρ] [OfScientific ρ] {env : Env ρ}

/-- A publication, or a pass on the clock. -/
def Staged : Op ρ → Prop
  | .publish _ => True
  | .evaluate now _ _ _ => now = none
  | .pin _ _ => False

/-- Operation `i` is a pass that found the version green, with enough samples and
long enough in its stage, and promoted it. -/
def PromotedAt (env : Env ρ) (ops : List (Op ρ)) (i : ℕ) (w : Text) (src dst : Stage) : Prop :=
  ∃ dwellSeconds baseline metrics row actions,
    ops[i]? = some (.evaluate none dwellSeconds baseline metrics) ∧
    getVersion ((machine env).run State.empty (ops.take i)) w = some row ∧ row.stage = src ∧
    (isGreen env { metrics w with baselineErrorRate := baseline }).1 = true ∧
    minSamplesForPromote ≤ (metrics w).samples ∧
    dwellSeconds * 1000000 ≤
      dwellMicros (env.clock ((machine env).run State.empty (ops.take i)).ticks) row.enteredStageAt ∧
    (step env ((machine env).run State.empty (ops.take i)) (.evaluate none dwellSeconds baseline metrics)).2 =
      .evaluated actions ∧
    Action.promote w src dst { metrics w with baselineErrorRate := baseline } ∈ actions

theorem PromotedAt.lt_length {ops : List (Op ρ)} {i : ℕ} {w : Text} {src dst : Stage}
    (h : PromotedAt env ops i w src dst) : i < ops.length := by
  obtain ⟨dwellSeconds, baseline, metrics, row, actions, hop, -⟩ := h
  exact (List.getElem?_eq_some_iff.mp hop).1

theorem PromotedAt.snoc {ops : List (Op ρ)} {i : ℕ} {w : Text} {src dst : Stage}
    (h : PromotedAt env ops i w src dst) (op : Op ρ) : PromotedAt env (ops ++ [op]) i w src dst := by
  have hlt := h.lt_length
  have htake : (ops ++ [op]).take i = ops.take i := by
    rw [List.take_append_of_le_length (le_of_lt hlt)]
  obtain ⟨dwellSeconds, baseline, metrics, row, actions, hop, hrest⟩ := h
  refine ⟨dwellSeconds, baseline, metrics, row, actions, ?_, ?_⟩
  · rw [List.getElem?_append_left hlt]
    exact hop
  · rw [htake]
    exact hrest

/-- The passes a version has behind it in each stage. -/
def Climbed (env : Env ρ) (ops : List (Op ρ)) (w : Text) : Stage → Prop
  | .canary10 => ∃ i, PromotedAt env ops i w .canary1 .canary10
  | .canary50 => ∃ i j, i < j ∧ PromotedAt env ops i w .canary1 .canary10 ∧
      PromotedAt env ops j w .canary10 .canary50
  | .stable | .superseded => ∃ i j k, i < j ∧ j < k ∧ PromotedAt env ops i w .canary1 .canary10 ∧
      PromotedAt env ops j w .canary10 .canary50 ∧ PromotedAt env ops k w .canary50 .stable
  | _ => True

theorem Climbed.snoc {ops : List (Op ρ)} {w : Text} {st : Stage} (h : Climbed env ops w st) (op : Op ρ) :
    Climbed env (ops ++ [op]) w st := by
  cases st with
  | canary10 =>
    obtain ⟨i, hi⟩ := h
    exact ⟨i, hi.snoc op⟩
  | canary50 =>
    obtain ⟨i, j, hij, hi, hj⟩ := h
    exact ⟨i, j, hij, hi.snoc op, hj.snoc op⟩
  | stable | superseded =>
    obtain ⟨i, j, k, hij, hjk, hi, hj, hk⟩ := h
    exact ⟨i, j, k, hij, hjk, hi.snoc op, hj.snoc op, hk.snoc op⟩
  | _ => exact trivial

theorem Climbed.released {ops : List (Op ρ)} {w : Text} {st st' : Stage} (h : Climbed env ops w st)
    (hst : st.released = true) (hst' : st'.released = true) : Climbed env ops w st' := by
  rcases released_iff.mp hst with rfl | rfl
  · rcases released_iff.mp hst' with rfl | rfl
    · exact h
    · exact h
  · rcases released_iff.mp hst' with rfl | rfl
    · exact h
    · exact h

theorem Climbed.promote {ops : List (Op ρ)} {op : Op ρ} {w : Text} {src dst : Stage} (h : Climbed env ops w src)
    (hnext : src.next = some dst) (hprom : PromotedAt env (ops ++ [op]) ops.length w src dst) :
    Climbed env (ops ++ [op]) w dst := by
  cases src with
  | canary1 =>
    cases hnext
    exact ⟨ops.length, hprom⟩
  | canary10 =>
    cases hnext
    obtain ⟨i, hi⟩ := h
    exact ⟨i, ops.length, hi.lt_length, hi.snoc op, hprom⟩
  | canary50 =>
    cases hnext
    obtain ⟨i, j, hij, hi, hj⟩ := h
    exact ⟨i, j, ops.length, hij, hj.lt_length, hi.snoc op, hj.snoc op, hprom⟩
  | _ => cases hnext

/-! ### One pass -/

theorem isGreen_samples {m : VersionMetrics ρ} (h : (isGreen env m).1 = true) :
    minSamplesForPromote ≤ m.samples := by
  by_contra hfew
  rw [isGreen, if_pos (not_le.mp hfew)] at h
  cases h

theorem due_green {p : Pass ρ} {v : VersionRow} (h : p.due env v = true) :
    (isGreen env (p.measured v.version)).1 = true ∧
      p.dwellSeconds * 1000000 ≤ dwellMicros p.now v.enteredStageAt := by
  simpa [Pass.due] using h

theorem reported_promote {p : Pass ρ} {v : VersionRow} {nxt : Stage} (hc : v.stage.isCanary = true)
    (hred : p.red env v = false) (hdue : p.due env v = true) (hnxt : v.stage.next = some nxt) :
    reported env p v = [.promote v.version v.stage nxt (p.measured v.version)] := by
  simp [reported, hc, hred, hdue, hnxt]

theorem step_evaluate (s : State) (dwellSeconds : ℤ) (baseline : ρ) (metrics : Text → VersionMetrics ρ) :
    step env s (.evaluate none dwellSeconds baseline metrics) =
      ((evaluateRollout env ⟨env.clock s.ticks, dwellSeconds, baseline, metrics⟩ { s with ticks := s.ticks + 1 }).2,
        .evaluated (evaluateRollout env ⟨env.clock s.ticks, dwellSeconds, baseline, metrics⟩
          { s with ticks := s.ticks + 1 }).1) := rfl

/-- A pass at the end of a run that promotes a version is evidence of it. -/
theorem promotedAt_length {ops : List (Op ρ)} {w : Text} {v : VersionRow} {nxt : Stage} {dwellSeconds : ℤ}
    {baseline : ρ} {metrics : Text → VersionMetrics ρ}
    (hget : getVersion ((machine env).run State.empty ops) w = some v) (hc : v.stage.isCanary = true)
    (hred : Pass.red env ⟨env.clock ((machine env).run State.empty ops).ticks, dwellSeconds, baseline, metrics⟩ v = false)
    (hdue : Pass.due env ⟨env.clock ((machine env).run State.empty ops).ticks, dwellSeconds, baseline, metrics⟩ v = true)
    (hnxt : v.stage.next = some nxt) :
    PromotedAt env (ops ++ [.evaluate none dwellSeconds baseline metrics]) ops.length w v.stage nxt := by
  have hmem := getVersion_mem hget
  have hgreen := due_green hdue
  have hw : v.version = w := hmem.2
  simp only [Pass.measured, hw] at hgreen
  have hsamples : minSamplesForPromote ≤ (metrics w).samples :=
    isGreen_samples (m := { metrics w with baselineErrorRate := baseline }) hgreen.1
  refine ⟨dwellSeconds, baseline, metrics, v,
    (evaluateRollout env ⟨env.clock ((machine env).run State.empty ops).ticks, dwellSeconds, baseline, metrics⟩
      { (machine env).run State.empty ops with ticks := ((machine env).run State.empty ops).ticks + 1 }).1,
    by simp, ?_, rfl, hgreen.1, hsamples, ?_, ?_, ?_⟩
  · rw [List.take_left]
    exact hget
  · rw [List.take_left]
    exact hgreen.2
  · rw [List.take_left, step_evaluate]
  · rw [pass_actions, List.mem_flatMap]
    refine ⟨v, mem_listVersions.mpr hmem.1, ?_⟩
    rw [reported_promote hc hred hdue hnxt, Pass.measured, hw]
    exact List.mem_cons_self

/-- What one pass may do to the stage of a version: nothing, one promotion or one
rollback; and a version that is or becomes released may end up superseded or stable. -/
def PassMove (a b : Stage) : Prop :=
  b = a ∨ a.next = some b ∨ (a.isCanary = true ∧ b = .rolledBack) ∨
    ((a = .canary50 ∨ a.released = true) ∧ b.released = true)

theorem Aside.unreleased {r : VersionRow} {o : Option VersionRow} (h : Aside (some r) o)
    (hr : r.stage.released = false) : o = some r := by
  rcases h with ⟨h1, -⟩ | ⟨t, t', h1, h2, -, hswap⟩
  · cases h1
  · cases h1
    cases hswap with
    | inl heq => rw [h2, heq]
    | inr hrel =>
      rw [hr] at hrel
      cases hrel.1

theorem Aside.stage {r r' : VersionRow} (h : Aside (some r) (some r')) :
    r' = r ∨ (r.stage.released = true ∧ r'.stage.released = true) := by
  rcases h with ⟨h1, -⟩ | ⟨t, t', h1, h2, -, hswap⟩
  · cases h1
  · cases h1
    cases h2
    exact hswap

/-- The row of a version after a pass: as before, promoted with evidence, rolled
back, or swapped between the released stages. -/
theorem pass_cases {ops : List (Op ρ)} (hs : ((machine env).run State.empty ops).Keyed) {w : Text} {v r : VersionRow}
    {dwellSeconds : ℤ} {baseline : ρ} {metrics : Text → VersionMetrics ρ}
    (hget : getVersion ((machine env).run State.empty ops) w = some v)
    (hnew : getVersion ((machine env).run State.empty
      (ops ++ [.evaluate none dwellSeconds baseline metrics])) w = some r) :
    r = v ∨ (v.stage.isCanary = true ∧ r.stage = .rolledBack) ∨
      (v.stage.released = true ∧ r.stage.released = true) ∨
      ∃ nxt, v.stage.next = some nxt ∧
        PromotedAt env (ops ++ [.evaluate none dwellSeconds baseline metrics]) ops.length w v.stage nxt ∧
        (r.stage = nxt ∨ (nxt = .stable ∧ r.stage.released = true)) := by
  rw [Machine.run_snoc] at hnew
  have hrow := pass_row env
    ⟨env.clock ((machine env).run State.empty ops).ticks, dwellSeconds, baseline, metrics⟩
    (s := { (machine env).run State.empty ops with ticks := ((machine env).run State.empty ops).ticks + 1 }) hs w
  cases hc : v.stage.isCanary with
  | false =>
    have haside := hrow.1 fun x hx => by
      have heq := hget.symm.trans hx
      cases heq
      exact hc
    have haside' : Aside (some v) (some r) := by
      rw [← hget, ← hnew]
      exact haside
    cases haside'.stage with
    | inl heq => exact Or.inl heq
    | inr hrel => exact Or.inr (Or.inr (Or.inl hrel))
  | true =>
    obtain ⟨t, hverdict, haside⟩ := hrow.2 v hget hc
    have haside' : Aside (some t) (some r) := by
      rw [← hnew]
      exact haside
    cases hverdict with
    | kept =>
      have heq := haside'.unreleased (canary_not_released hc)
      exact Or.inl (Option.some.inj heq)
    | rolledBack _ _ hstage =>
      have heq := haside'.unreleased (by rw [hstage]; rfl)
      rw [Option.some.inj heq]
      exact Or.inr (Or.inl ⟨rfl, hstage⟩)
    | @promoted _ nxt hred hdue hnxt _ hstage =>
      refine Or.inr (Or.inr (Or.inr ⟨nxt, hnxt, promotedAt_length hget hc hred hdue hnxt, ?_⟩))
      by_cases hst : nxt = .stable
      · cases haside'.stage with
        | inl heq =>
          rw [heq]
          exact Or.inl hstage
        | inr hrel => exact Or.inr ⟨hst, hrel.2⟩
      · have heq := haside'.unreleased (by rw [hstage]; exact next_released hnxt hst)
        rw [Option.some.inj heq]
        exact Or.inl hstage

/-! ### Runs -/

omit [Div ρ] [LT ρ] [DecidableLT ρ] [OfScientific ρ] in
/-- A row after a publication is an old one, or new and in its initial stage. -/
theorem publish_cases {s : State} {a : PublishArgs} {w : Text} {r : VersionRow}
    (hnew : getVersion (publishVersion env a s).2 w = some r) :
    getVersion s w = some r ∨ (getVersion s w = none ∧ (r.stage = .draft ∨ r.stage = .canary1)) := by
  cases hget : getVersion s w with
  | some v =>
    rw [publish_row a hget] at hnew
    exact Or.inl hnew
  | none =>
    refine Or.inr ⟨rfl, ?_⟩
    rcases publishVersion_cases env a s with ⟨hv, -⟩ | ⟨hcheck, -, -, hv, -⟩
    · rw [getVersion_congr hv, hget] at hnew
      cases hnew
    · rw [getVersion, hv, Table.find_append] at hnew
      rw [getVersion] at hget
      rw [hget, Option.none_or] at hnew
      rw [List.mem_singleton.mp (Table.find_some hnew).1]
      exact checkArgs_stage hcheck

theorem pass_old {ops : List (Op ρ)} {w : Text} {r : VersionRow} {dwellSeconds : ℤ} {baseline : ρ}
    {metrics : Text → VersionMetrics ρ}
    (hnew : getVersion ((machine env).run State.empty
      (ops ++ [.evaluate none dwellSeconds baseline metrics])) w = some r) :
    ∃ v, getVersion ((machine env).run State.empty ops) w = some v := by
  cases hget : getVersion ((machine env).run State.empty ops) w with
  | some v => exact ⟨v, rfl⟩
  | none =>
    rw [Machine.run_snoc] at hnew
    obtain ⟨a, hop, -⟩ := step_none (run_keyed ops) hget hnew
    cases hop

theorem run_climbed (ops : List (Op ρ)) (hops : ∀ op ∈ ops, Staged op) {w : Text} {r : VersionRow}
    (hget : getVersion ((machine env).run State.empty ops) w = some r) : Climbed env ops w r.stage := by
  induction ops using List.reverseRecOn generalizing r with
  | nil => simp [getVersion, State.empty, Table.find] at hget
  | append_singleton ops op ih =>
    have ih' := fun {v : VersionRow} => ih (r := v) fun o ho => hops o (List.mem_append_left _ ho)
    have hop : Staged op := hops op (by simp)
    cases op with
    | publish a =>
      have hnew := hget
      rw [Machine.run_snoc] at hnew
      rcases publish_cases hnew with hold | ⟨-, hdraft | hcanary⟩
      · exact (ih' hold).snoc _
      · rw [hdraft]
        exact trivial
      · rw [hcanary]
        exact trivial
    | pin version reason => exact absurd hop id
    | evaluate now dwellSeconds baseline metrics =>
      obtain rfl : now = none := hop
      obtain ⟨v, hv⟩ := pass_old hget
      have hclimbed := ih' hv
      rcases pass_cases (run_keyed ops) hv hget with heq | ⟨-, hback⟩ | ⟨hrel, hrel'⟩ | ⟨nxt, hnxt, hprom, hstage⟩
      · rw [heq]
        exact hclimbed.snoc _
      · rw [hback]
        exact trivial
      · exact (hclimbed.snoc _).released hrel hrel'
      · have hnew := hclimbed.promote hnxt hprom
        rcases hstage with heq | ⟨hstable, hrel⟩
        · rw [heq]
          exact hnew
        · rw [hstable] at hnew
          exact hnew.released rfl hrel

theorem run_rolledBack (ops₁ ops₂ : List (Op ρ)) (hops : ∀ op ∈ ops₂, Staged op) {w : Text} {r : VersionRow}
    (hget : getVersion ((machine env).run State.empty ops₁) w = some r) (hr : r.stage = .rolledBack) :
    getVersion ((machine env).run State.empty (ops₁ ++ ops₂)) w = some r := by
  induction ops₂ using List.reverseRecOn with
  | nil => simpa using hget
  | append_singleton ops₂ op ih =>
    have hold := ih fun o ho => hops o (List.mem_append_left _ ho)
    have hop : Staged op := hops op (by simp)
    rw [← List.append_assoc, Machine.run_snoc]
    cases op with
    | publish a => exact publish_row a hold
    | pin version reason => exact absurd hop id
    | evaluate now dwellSeconds baseline metrics =>
      obtain rfl : now = none := hop
      have hrow := (pass_row env
        ⟨env.clock ((machine env).run State.empty (ops₁ ++ ops₂)).ticks, dwellSeconds, baseline, metrics⟩
        (s := { (machine env).run State.empty (ops₁ ++ ops₂) with
          ticks := ((machine env).run State.empty (ops₁ ++ ops₂)).ticks + 1 }) (run_keyed _) w).1
      have haside := hrow fun x hx => by
        have heq := hold.symm.trans hx
        cases heq
        rw [hr]
        rfl
      have haside' : Aside (some r) (getVersion (step env ((machine env).run State.empty (ops₁ ++ ops₂))
          (.evaluate none dwellSeconds baseline metrics)).1 w) := by
        rw [← hold]
        exact haside
      exact haside'.unreleased (by rw [hr]; rfl)

/-! ### At most one promotion in a pass -/

def Action.promotes (w : Text) : Action ρ → Bool
  | .rollback _ _ _ => false
  | .promote version _ _ _ => decide (version = w)

theorem reported_cases (env : Env ρ) (p : Pass ρ) (v : VersionRow) :
    reported env p v = [] ∨ (∃ reason m, reported env p v = [.rollback v.version reason m]) ∨
      ∃ nxt m, reported env p v = [.promote v.version v.stage nxt m] := by
  unfold reported
  split_ifs with hc hred hdue
  · exact Or.inl rfl
  · exact Or.inr (Or.inl ⟨_, _, rfl⟩)
  · cases v.stage.next with
    | none => exact Or.inl rfl
    | some nxt => exact Or.inr (Or.inr ⟨nxt, _, rfl⟩)
  · exact Or.inl rfl

theorem reported_promotes (env : Env ρ) (p : Pass ρ) (v : VersionRow) (w : Text) :
    ((reported env p v).filter (Action.promotes w)).length ≤ 1 ∧
      (v.version ≠ w → (reported env p v).filter (Action.promotes w) = []) := by
  rcases reported_cases env p v with h | ⟨reason, m, h⟩ | ⟨nxt, m, h⟩
  · simp [h]
  · simp [h, Action.promotes]
  · rw [h]
    refine ⟨List.length_filter_le _ _, ?_⟩
    intro hne
    simp [Action.promotes, hne]

theorem flatMap_promotes (p : Pass ρ) (w : Text) (vs : List VersionRow)
    (hnodup : (vs.map VersionRow.version).Nodup) :
    ((vs.flatMap (reported env p)).filter (Action.promotes w)).length ≤ 1 := by
  induction vs with
  | nil => simp
  | cons v vs ih =>
    rw [List.map_cons, List.nodup_cons] at hnodup
    have hv := reported_promotes env p v w
    rw [List.flatMap_cons, List.filter_append, List.length_append]
    by_cases hw : v.version = w
    · have hrest : (vs.flatMap (reported env p)).filter (Action.promotes w) = [] := by
        rw [List.filter_flatMap, List.flatMap_eq_nil_iff]
        intro x hx
        apply (reported_promotes env p x w).2
        intro hxw
        exact hnodup.1 (by rw [hw, ← hxw]; exact List.mem_map_of_mem hx)
      rw [hrest]
      simpa using hv.1
    · rw [hv.2 hw]
      simpa using ih hnodup.2

/-- The promotions of a version that a call reports. -/
def Reply.promotions (w : Text) : Reply ρ → List (Action ρ)
  | .evaluated actions => actions.filter (Action.promotes w)
  | _ => []

theorem step_promotions {s : State} (hs : s.Keyed) {op : Op ρ} (hop : Staged op) (w : Text) :
    ((step env s op).2.promotions w).length ≤ 1 := by
  cases op with
  | publish a => simp [step, Reply.promotions]
  | pin version reason => exact absurd hop id
  | evaluate now dwellSeconds baseline metrics =>
    obtain rfl : now = none := hop
    rw [step_evaluate]
    simp only [Reply.promotions, pass_actions]
    apply flatMap_promotes
    exact State.Keyed.listVersions (s := { s with ticks := s.ticks + 1 }) hs

theorem step_passMove {ops : List (Op ρ)} {op : Op ρ} (hop : Staged op) {w : Text} {v r : VersionRow}
    (hget : getVersion ((machine env).run State.empty ops) w = some v)
    (hnew : getVersion ((machine env).run State.empty (ops ++ [op])) w = some r) : PassMove v.stage r.stage := by
  cases op with
  | publish a =>
    rw [Machine.run_snoc] at hnew
    have hsame : getVersion (publishVersion env a ((machine env).run State.empty ops)).2 w = some v :=
      publish_row a hget
    have heq := hnew.symm.trans hsame
    cases heq
    exact Or.inl rfl
  | pin version reason => exact absurd hop id
  | evaluate now dwellSeconds baseline metrics =>
    obtain rfl : now = none := hop
    rcases pass_cases (run_keyed ops) hget hnew with heq | ⟨hc, hback⟩ | ⟨hrel, hrel'⟩ | ⟨nxt, hnxt, -, hstage⟩
    · rw [heq]
      exact Or.inl rfl
    · exact Or.inr (Or.inr (Or.inl ⟨hc, hback⟩))
    · exact Or.inr (Or.inr (Or.inr ⟨Or.inr hrel, hrel'⟩))
    · rcases hstage with heq | ⟨hstable, hrel⟩
      · rw [heq]
        exact Or.inr (Or.inl hnxt)
      · refine Or.inr (Or.inr (Or.inr ⟨Or.inl ?_, hrel⟩))
        rw [hstable] at hnxt
        cases hst : v.stage <;> simp [hst, Stage.next] at hnxt ⊢

theorem staged_promotion (env : Env ρ) (ops : List (Op ρ)) (hops : ∀ op ∈ ops, Staged op) :
    (∀ w r, getVersion ((machine env).run State.empty ops) w = some r → r.stage = .stable ∨ r.stage = .superseded →
      ∃ i j k, i < j ∧ j < k ∧ PromotedAt env ops i w .canary1 .canary10 ∧
        PromotedAt env ops j w .canary10 .canary50 ∧ PromotedAt env ops k w .canary50 .stable) ∧
    (∀ ops₁ op ops₂ w, ops = ops₁ ++ op :: ops₂ →
      ((step env ((machine env).run State.empty ops₁) op).2.promotions w).length ≤ 1 ∧
      ∀ v r, getVersion ((machine env).run State.empty ops₁) w = some v →
        getVersion ((machine env).run State.empty (ops₁ ++ [op])) w = some r → PassMove v.stage r.stage) ∧
    (∀ ops₁ ops₂ w r, ops = ops₁ ++ ops₂ → getVersion ((machine env).run State.empty ops₁) w = some r →
      r.stage = .rolledBack → getVersion ((machine env).run State.empty ops) w = some r) := by
  refine ⟨?_, ?_, ?_⟩
  · intro w r hget hst
    have hclimbed := run_climbed ops hops hget
    rcases hst with hst | hst
    · rw [hst] at hclimbed
      exact hclimbed
    · rw [hst] at hclimbed
      exact hclimbed
  · intro ops₁ op ops₂ w heq
    have hop : Staged op := hops op (by rw [heq]; simp)
    exact ⟨step_promotions (run_keyed ops₁) hop w, fun v r hv hr => step_passMove hop hv hr⟩
  · intro ops₁ ops₂ w r heq hget hr
    rw [heq]
    apply run_rolledBack ops₁ ops₂ _ hget hr
    intro op hop
    exact hops op (by rw [heq]; exact List.mem_append_right _ hop)

theorem sampleRollout_staged : ∀ op ∈ sampleRollout, Staged op := by
  intro op hop
  simp only [sampleRollout, samplePass, List.mem_cons, List.not_mem_nil, or_false] at hop
  rcases hop with rfl | rfl | rfl | rfl | rfl <;> simp [Staged]

theorem staged_promotion_sample :
    ∃ i j k, i < j ∧ j < k ∧ PromotedAt sampleEnv sampleRollout i "1.0.0".toList .canary1 .canary10 ∧
      PromotedAt sampleEnv sampleRollout j "1.0.0".toList .canary10 .canary50 ∧
      PromotedAt sampleEnv sampleRollout k "1.0.0".toList .canary50 .stable := by
  have hstage : (getVersion ((machine sampleEnv).run State.empty sampleRollout) "1.0.0".toList).map VersionRow.stage =
      some .stable := by
    decide +kernel
  obtain ⟨r, hr, hst⟩ := Option.map_eq_some_iff.mp hstage
  exact (staged_promotion sampleEnv sampleRollout sampleRollout_staged).1 _ r hr (Or.inl hst)

/-- The single changes of stage: a promotion, a rollback of a canary, and the two
between stable and superseded. -/
def SingleMove (a b : Stage) : Prop :=
  a.next = some b ∨ (a.isCanary = true ∧ b = .rolledBack) ∨ (a = .stable ∧ b = .superseded) ∨
    (a = .superseded ∧ b = .stable)

/-- The third pass takes one version from canary-50 through stable to superseded. -/
theorem pass_moves_two_stages :
    ¬ (∀ ops₁ op ops₂ w, sampleRollout = ops₁ ++ op :: ops₂ →
      ∀ v r, getVersion ((machine sampleEnv).run State.empty ops₁) w = some v →
        getVersion ((machine sampleEnv).run State.empty (ops₁ ++ [op])) w = some r →
        r.stage = v.stage ∨ SingleMove v.stage r.stage) := by
  intro h
  have hbefore : (getVersion ((machine sampleEnv).run State.empty (sampleRollout.take 4)) "1.1.0".toList).map
      VersionRow.stage = some .canary50 := by
    decide +kernel
  have hafter : (getVersion ((machine sampleEnv).run State.empty (sampleRollout.take 4 ++ [samplePass]))
      "1.1.0".toList).map VersionRow.stage = some .superseded := by
    decide +kernel
  obtain ⟨v, hv, hvst⟩ := Option.map_eq_some_iff.mp hbefore
  obtain ⟨r, hr, hrst⟩ := Option.map_eq_some_iff.mp hafter
  have hmove := h (sampleRollout.take 4) samplePass [] _ rfl v r hv hr
  rw [hvst, hrst] at hmove
  simp [SingleMove, Stage.next, Stage.isCanary] at hmove

end AgentWorkflow.ControlPlane.Rollout
