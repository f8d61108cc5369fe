import AgentWorkflow.ControlPlane.RolloutRows

/-!
# The stable version

With a strictly increasing clock there is never more than one stable version, and
it entered its stage after every superseded one. So the newest released version
that `_restore_prev_stable` looks for is the stable one, and nothing is restored.
-/

namespace AgentWorkflow.ControlPlane.Rollout
open AgentWorkflow.Lib AgentWorkflow.Lib.Calendar

variable {ρ : Type} {env : Env ρ} {s : State} {v w : Text}

/-- The first `n` clock readings increase. -/
def Ticking (env : Env ρ) (n : ℕ) : Prop := ∀ i j, i < j → j < n → env.clock i < env.clock j

theorem Ticking.mono {m n : ℕ} (h : Ticking env n) (hmn : m ≤ n) : Ticking env m :=
  fun i j hij hj => h i j hij (lt_of_lt_of_le hj hmn)

structure Ordered (env : Env ρ) (s : State) : Prop where
  keyed : s.Keyed
  past : ∀ r ∈ s.versions, ∃ i < s.ticks, r.enteredStageAt = env.clock i
  single : ∀ a ∈ s.versions, ∀ b ∈ s.versions, a.stage = .stable → b.stage = .stable → a = b
  behind : ∀ a ∈ s.versions, a.stage = .superseded →
    ∃ b ∈ s.versions, b.stage = .stable ∧ a.enteredStageAt < b.enteredStageAt

def HasStable (s : State) : Prop := ∃ r ∈ s.versions, r.stage = .stable

theorem ordered_empty : Ordered env State.empty := by
  constructor
  · exact List.nodup_nil
  all_goals simp [State.empty]

theorem Ordered.before (h : Ordered env s) (hclock : Ticking env (s.ticks + 1)) {r : VersionRow}
    (hr : r ∈ s.versions) : r.enteredStageAt < env.clock s.ticks := by
  obtain ⟨i, hi, heq⟩ := h.past r hr
  rw [heq]
  exact hclock i s.ticks hi (Nat.lt_succ_self _)

/-- Only the versions count. -/
theorem Ordered.of_versions {s' : State} (h : Ordered env s) (hv : s'.versions = s.versions)
    (ht : s.ticks ≤ s'.ticks) : Ordered env s' := by
  refine ⟨?_, ?_, ?_, ?_⟩
  · rw [State.Keyed, hv]
    exact h.keyed
  · rw [hv]
    intro r hr
    obtain ⟨i, hi, heq⟩ := h.past r hr
    exact ⟨i, lt_of_lt_of_le hi ht, heq⟩
  · rw [hv]
    exact h.single
  · rw [hv]
    exact h.behind

theorem mem_setStage {st : Stage} {reason : Text} {r : VersionRow} :
    r ∈ (setStage env v st reason s).versions ↔
      ∃ r₀ ∈ s.versions, (r₀.version = v ∧ r = enterStage (env.clock s.ticks) st reason r₀) ∨
        (r₀.version ≠ v ∧ r = r₀) := by
  simp only [setStage, Table.update, List.mem_map, decide_eq_true_eq]
  constructor
  · intro h
    obtain ⟨r₀, hr₀, heq⟩ := h
    by_cases hv : r₀.version = v
    · rw [if_pos hv] at heq
      exact ⟨r₀, hr₀, Or.inl ⟨hv, heq.symm⟩⟩
    · rw [if_neg hv] at heq
      exact ⟨r₀, hr₀, Or.inr ⟨hv, heq.symm⟩⟩
  · intro h
    obtain ⟨r₀, hr₀, ⟨hv, heq⟩ | ⟨hv, heq⟩⟩ := h
    · exact ⟨r₀, hr₀, by rw [if_pos hv, heq]⟩
    · exact ⟨r₀, hr₀, by rw [if_neg hv, heq]⟩

theorem past_setStage (h : Ordered env s) (st : Stage) (reason : Text) :
    ∀ r ∈ (setStage env v st reason s).versions, ∃ i < s.ticks + 1, r.enteredStageAt = env.clock i := by
  intro r hr
  obtain ⟨r₀, hr₀, ⟨-, heq⟩ | ⟨-, heq⟩⟩ := mem_setStage.mp hr
  · rw [heq]
    exact ⟨s.ticks, Nat.lt_succ_self _, rfl⟩
  · obtain ⟨i, hi, hentered⟩ := h.past r₀ hr₀
    rw [heq]
    exact ⟨i, Nat.lt_succ_of_lt hi, hentered⟩

/-! ### Stage changes that leave the released versions alone -/

theorem mem_setStage_released {st : Stage} (hst : st.released = false) (reason : Text)
    (hv : ∀ r ∈ s.versions, r.version = v → r.stage.released = false) {r : VersionRow}
    (hrel : r.stage.released = true) : r ∈ (setStage env v st reason s).versions ↔ r ∈ s.versions := by
  rw [mem_setStage]
  constructor
  · intro h
    obtain ⟨r₀, hr₀, ⟨-, heq⟩ | ⟨-, heq⟩⟩ := h
    · rw [heq] at hrel
      simp only [enterStage] at hrel
      rw [hst] at hrel
      cases hrel
    · rw [heq]
      exact hr₀
  · intro h
    refine ⟨r, h, Or.inr ⟨?_, rfl⟩⟩
    intro heq
    rw [hv r h heq] at hrel
    cases hrel

theorem ordered_setStage (h : Ordered env s) (st : Stage) (hst : st.released = false) (reason : Text)
    (hv : ∀ r ∈ s.versions, r.version = v → r.stage.released = false) :
    Ordered env (setStage env v st reason s) ∧ (HasStable s → HasStable (setStage env v st reason s)) := by
  have hmem : ∀ {r : VersionRow}, r.stage.released = true →
      (r ∈ (setStage env v st reason s).versions ↔ r ∈ s.versions) := mem_setStage_released hst reason hv
  constructor
  · refine ⟨keyed_setStage h.keyed st reason, past_setStage h st reason, ?_, ?_⟩
    · intro a ha b hb hsa hsb
      have ha' := (hmem (by rw [hsa]; rfl)).mp ha
      have hb' := (hmem (by rw [hsb]; rfl)).mp hb
      exact h.single a ha' b hb' hsa hsb
    · intro a ha hsa
      have ha' := (hmem (by rw [hsa]; rfl)).mp ha
      obtain ⟨b, hb, hsb, hlt⟩ := h.behind a ha' hsa
      exact ⟨b, (hmem (by rw [hsb]; rfl)).mpr hb, hsb, hlt⟩
  · intro hstable
    obtain ⟨r, hr, hsr⟩ := hstable
    exact ⟨r, (hmem (by rw [hsr]; rfl)).mpr hr, hsr⟩

/-! ### A new stable version -/

theorem ordered_install (h : Ordered env s) (hclock : Ticking env (s.ticks + 1)) (reason : Text)
    {r : VersionRow} (hr : r ∈ s.versions) (hrv : r.version = v) :
    Ordered env (supersedePreviousStable v (setStage env v .stable reason s)) ∧
      HasStable (supersedePreviousStable v (setStage env v .stable reason s)) := by
  -- after the two statements exactly the row of `v` is stable, entered at the last reading
  have hrow : ∀ x ∈ (supersedePreviousStable v (setStage env v .stable reason s)).versions,
      (x.version = v ∧ x.stage = .stable ∧ x.enteredStageAt = env.clock s.ticks) ∨
        (x.version ≠ v ∧ x.stage ≠ .stable ∧ ∃ y ∈ s.versions, x.enteredStageAt = y.enteredStageAt) := by
    intro x hx
    obtain ⟨y, hy, rfl⟩ := List.mem_map.mp hx
    obtain ⟨y₀, hy₀, ⟨hv, rfl⟩ | ⟨hv, rfl⟩⟩ := mem_setStage.mp hy
    · refine Or.inl ?_
      simp [supersedeRow, enterStage, hv]
    · refine Or.inr ?_
      unfold supersedeRow
      by_cases hst : y.stage = .stable
      · rw [if_pos ⟨hst, hv⟩]
        exact ⟨hv, by simp, y, hy₀, rfl⟩
      · rw [if_neg fun hboth => hst hboth.1]
        exact ⟨hv, hst, y, hy₀, rfl⟩
  have hnew : supersedeRow v (enterStage (env.clock s.ticks) .stable reason r) ∈
      (supersedePreviousStable v (setStage env v .stable reason s)).versions :=
    List.mem_map_of_mem (mem_setStage.mpr ⟨r, hr, Or.inl ⟨hrv, rfl⟩⟩)
  have hnewrow : supersedeRow v (enterStage (env.clock s.ticks) .stable reason r) =
      enterStage (env.clock s.ticks) .stable reason r := by
    simp [supersedeRow, hrv]
  rw [hnewrow] at hnew
  have hkeyed : (supersedePreviousStable v (setStage env v .stable reason s)).Keyed :=
    keyed_supersede (keyed_setStage h.keyed .stable reason)
  refine ⟨⟨hkeyed, ?_, ?_, ?_⟩, ⟨_, hnew, rfl⟩⟩
  · intro x hx
    rcases hrow x hx with ⟨-, -, hent⟩ | ⟨-, -, y, hy, hent⟩
    · exact ⟨s.ticks, Nat.lt_succ_self _, hent⟩
    · obtain ⟨i, hi, heq⟩ := h.past y hy
      exact ⟨i, Nat.lt_succ_of_lt hi, hent.trans heq⟩
  · intro a ha b hb hsa hsb
    rcases hrow a ha with ⟨hva, -⟩ | ⟨-, hno, -⟩
    · rcases hrow b hb with ⟨hvb, -⟩ | ⟨-, hno, -⟩
      · have hga := hkeyed.getVersion ha
        have hgb := hkeyed.getVersion hb
        rw [hva] at hga
        rw [hvb, hga] at hgb
        exact Option.some.inj hgb
      · exact absurd hsb hno
    · exact absurd hsa hno
  · intro a ha hsa
    rcases hrow a ha with ⟨-, hst, -⟩ | ⟨-, -, y, hy, hent⟩
    · rw [hsa] at hst
      cases hst
    · refine ⟨_, hnew, rfl, ?_⟩
      rw [hent]
      exact h.before hclock hy

/-! ### The restore is idle -/

theorem restore_idle (h : Ordered env s) {failed : Text}
    (hfailed : ∀ r ∈ s.versions, r.version = failed → r.stage.released = false) :
    restorePrevStable env failed s = s := by
  rcases restorePrevStable_cases env failed s with hidle | ⟨r, hr, reason, -, hsup, -, hnewest, -⟩
  · exact hidle
  · obtain ⟨b, hb, hstable, hlt⟩ := h.behind r hr hsup
    have hrel : b.stage.released = true := by rw [hstable]; rfl
    have hle := hnewest b hb hrel fun heq => by
      rw [hfailed b hb heq] at hrel
      cases hrel
    exact absurd hlt (not_lt.mpr hle)

theorem unreleased_of_get (hs : s.Keyed) {r : VersionRow} (hget : getVersion s v = some r)
    (hr : r.stage.released = false) : ∀ x ∈ s.versions, x.version = v → x.stage.released = false := by
  intro x hx hxv
  have hx' := hs.getVersion hx
  rw [hxv, hget] at hx'
  rw [← Option.some.inj hx']
  exact hr

theorem next_released {st nxt : Stage} (h : st.next = some nxt) (hne : nxt ≠ .stable) : nxt.released = false := by
  cases st <;> simp [Stage.next] at h <;> subst h <;> simp [Stage.released] at hne ⊢

/-! ### Pins -/

theorem pinCanary_ticks (reason : Text) (v : VersionRow) : s.ticks ≤ (pinCanary env reason s v).ticks := by
  unfold pinCanary
  split_ifs
  · exact Nat.le_succ _
  · exact le_rfl

theorem pinCanary_row (reason : Text) {v : VersionRow} (hw : v.stage.isCanary = true → w ≠ v.version) :
    getVersion (pinCanary env reason s v) w = getVersion s w := by
  unfold pinCanary
  split_ifs with hc
  · rw [getVersion_setStage, if_neg (hw hc)]
  · rfl

theorem pinCanary_ordered (reason : Text) {v : VersionRow} (h : Ordered env s)
    (hv : v.stage.isCanary = true → getVersion s v.version = some v) :
    Ordered env (pinCanary env reason s v) ∧ (HasStable s → HasStable (pinCanary env reason s v)) := by
  unfold pinCanary
  split_ifs with hc
  · exact ordered_setStage h .rolledBack rfl _
      (unreleased_of_get h.keyed (hv hc) (canary_not_released hc))
  · exact ⟨h, id⟩

/-- The canaries of the snapshot leave; every other row stays as it is. -/
theorem pinLoop_ordered (reason : Text) (vs : List VersionRow) (s : State) (h : Ordered env s)
    (hnodup : (vs.map VersionRow.version).Nodup) (hcur : Current s vs) :
    Ordered env (vs.foldl (pinCanary env reason) s) ∧
      (HasStable s → HasStable (vs.foldl (pinCanary env reason) s)) := by
  induction vs generalizing s with
  | nil => exact ⟨h, id⟩
  | cons v vs ih =>
    have hone := pinCanary_ordered reason h (hcur v List.mem_cons_self)
    rw [List.map_cons, List.nodup_cons] at hnodup
    have hcur' : Current (pinCanary env reason s v) vs := by
      intro x hx hc
      rw [pinCanary_row reason fun _ heq => hnodup.1 (heq ▸ List.mem_map_of_mem hx)]
      exact hcur x (List.mem_cons_of_mem _ hx) hc
    obtain ⟨hord, hst⟩ := ih (pinCanary env reason s v) hone.1 hnodup.2 hcur'
    exact ⟨hord, fun hs => hst (hone.2 hs)⟩

theorem pinLoop_ticks (reason : Text) (vs : List VersionRow) (s : State) :
    s.ticks ≤ (vs.foldl (pinCanary env reason) s).ticks := by
  induction vs generalizing s with
  | nil => exact le_rfl
  | cons v vs ih => exact (pinCanary_ticks reason v).trans (ih _)

theorem pinLoop_get (reason : Text) (vs : List VersionRow) (s : State) {r : VersionRow}
    (hget : getVersion s w = some r) : ∃ r', getVersion (vs.foldl (pinCanary env reason) s) w = some r' := by
  induction vs generalizing s r with
  | nil => exact ⟨r, hget⟩
  | cons v vs ih =>
    by_cases hc : v.stage.isCanary = true
    · have hset : ∃ r', getVersion (pinCanary env reason s v) w = some r' := by
        rw [pinCanary, if_pos hc, getVersion_setStage, hget]
        split_ifs
        · exact ⟨_, rfl⟩
        · exact ⟨_, rfl⟩
      obtain ⟨r', hr'⟩ := hset
      exact ih _ hr'
    · exact ih _ ((pinCanary_row reason fun h => absurd h hc).trans hget)

theorem pinLoop_row (reason : Text) (vs : List VersionRow) (s : State)
    (hw : ∀ v ∈ vs, v.stage.isCanary = true → w ≠ v.version) :
    getVersion (vs.foldl (pinCanary env reason) s) w = getVersion s w := by
  induction vs generalizing s with
  | nil => rfl
  | cons v vs ih =>
    rw [List.foldl_cons, ih _ fun x hx => hw x (List.mem_cons_of_mem _ hx)]
    exact pinCanary_row reason (hw v List.mem_cons_self)

/-! ### `operator_pin` and `publish_version` -/

theorem operatorPin_state (env : Env ρ) (reason : Text) {version : Text} {existing : VersionRow}
    (hget : getVersion s version = some existing) :
    (operatorPin env version reason s).2.versions =
      (supersedePreviousStable version
        (if existing.stage ≠ .stable then
          setStage env version .stable ("Operator pin: ".toList ++ reason)
            ((listVersions env s).foldl (pinCanary env reason) s)
        else (listVersions env s).foldl (pinCanary env reason) s)).versions ∧
    (operatorPin env version reason s).2.ticks =
      ((listVersions env s).foldl (pinCanary env reason) s).ticks + if existing.stage ≠ .stable then 1 else 0 := by
  simp only [operatorPin, hget]
  split
  · split_ifs <;> exact ⟨rfl, rfl⟩
  · split_ifs <;> exact ⟨rfl, rfl⟩

theorem operatorPin_unknown {version reason : Text} (hget : getVersion s version = none) :
    (operatorPin env version reason s).2 = s := by
  simp only [operatorPin, hget]

theorem HasStable.of_versions {s' : State} (h : HasStable s) (hv : s'.versions = s.versions) : HasStable s' := by
  rw [HasStable, hv]
  exact h

theorem supersede_idle (h : ∀ r ∈ s.versions, r.stage = .stable → r.version = v) :
    (supersedePreviousStable v s).versions = s.versions := by
  have hid : s.versions.map (supersedeRow v) = s.versions.map id := by
    apply List.map_congr_left
    intro r hr
    exact if_neg fun hboth => hboth.2 (h r hr hboth.1)
  rw [supersedePreviousStable, hid, List.map_id]

theorem pin_ticks (version reason : Text) : s.ticks ≤ (operatorPin env version reason s).2.ticks := by
  cases hget : getVersion s version with
  | none => rw [operatorPin_unknown hget]
  | some existing =>
    rw [(operatorPin_state env reason hget).2]
    exact (pinLoop_ticks reason (listVersions env s) s).trans (Nat.le_add_right _ _)

theorem pin_ordered (version reason : Text) (h : Ordered env s)
    (hclock : Ticking env (operatorPin env version reason s).2.ticks) :
    Ordered env (operatorPin env version reason s).2 ∧
      (HasStable s → HasStable (operatorPin env version reason s).2) := by
  cases hget : getVersion s version with
  | none =>
    rw [operatorPin_unknown hget]
    exact ⟨h, id⟩
  | some existing =>
    have hloop : Ordered env ((listVersions env s).foldl (pinCanary env reason) s) ∧ _ :=
      pinLoop_ordered reason (listVersions env s) s h h.keyed.listVersions (current_listVersions h.keyed)
    obtain ⟨hord, hstable⟩ := hloop
    obtain ⟨hversions, htotal⟩ := operatorPin_state env reason hget
    by_cases hst : existing.stage = .stable
    · -- the version is stable already: it is not a canary, and nothing else is stable
      simp only [hst, ne_eq, not_true_eq_false, if_false, Nat.add_zero] at hversions htotal
      have hkept : getVersion ((listVersions env s).foldl (pinCanary env reason) s) version = some existing := by
        rw [pinLoop_row, hget]
        intro v hv hc heq
        have hgv := h.keyed.getVersion (mem_listVersions.mp hv)
        rw [← heq, hget] at hgv
        rw [← Option.some.inj hgv, hst] at hc
        cases hc
      have hmem := getVersion_mem hkept
      rw [supersede_idle] at hversions
      · exact ⟨hord.of_versions hversions (le_of_eq htotal.symm), fun hs => (hstable hs).of_versions hversions⟩
      · intro r hr hsr
        rw [hord.single r hr existing hmem.1 hsr hst]
        exact hmem.2
    · simp only [ne_eq, hst, not_false_eq_true, if_true] at hversions htotal
      obtain ⟨r, hr⟩ : ∃ r, getVersion ((listVersions env s).foldl (pinCanary env reason) s) version = some r :=
        pinLoop_get reason (listVersions env s) s hget
      have hmem := getVersion_mem hr
      rw [htotal] at hclock
      obtain ⟨hinstalled, hnew⟩ := ordered_install hord hclock ("Operator pin: ".toList ++ reason) hmem.1 hmem.2
      exact ⟨hinstalled.of_versions hversions (le_of_eq htotal.symm), fun _ => hnew.of_versions hversions⟩

theorem publish_ticks (a : PublishArgs) : s.ticks ≤ (publishVersion env a s).2.ticks := by
  rcases publishVersion_cases env a s with ⟨-, hticks, -⟩ | ⟨-, -, -, -, hticks⟩
  · exact hticks
  · omega

theorem publish_ordered (a : PublishArgs) (h : Ordered env s) :
    Ordered env (publishVersion env a s).2 ∧
      (HasStable s → HasStable (publishVersion env a s).2) := by
  rcases publishVersion_cases env a s with ⟨hv, hticks, -⟩ | ⟨hcheck, hnone, -, hv, hticks⟩
  · exact ⟨h.of_versions hv hticks, fun hs => hs.of_versions hv⟩
  · have hstage : ∀ st : Stage, st.released = true →
        (publishedRow a (s.lastId + 1) (env.clock s.ticks)).stage ≠ st := by
      intro st hst heq
      rw [← heq] at hst
      cases checkArgs_stage hcheck with
      | inl hdraft => simp [publishedRow, hdraft, Stage.released] at hst
      | inr hcanary => simp [publishedRow, hcanary, Stage.released] at hst
    have hold : ∀ r ∈ (publishVersion env a s).2.versions, r.stage.released = true → r ∈ s.versions := by
      intro r hr hrel
      rw [hv] at hr
      cases List.mem_append.mp hr with
      | inl hin => exact hin
      | inr hnew =>
        rw [List.mem_singleton.mp hnew] at hrel
        exact absurd rfl (hstage _ hrel)
    have hkeep : ∀ r ∈ s.versions, r ∈ (publishVersion env a s).2.versions := by
      intro r hr
      rw [hv]
      exact List.mem_append_left _ hr
    refine ⟨⟨keyed_publish h.keyed a, ?_, ?_, ?_⟩, ?_⟩
    · intro r hr
      rw [hticks]
      rw [hv] at hr
      cases List.mem_append.mp hr with
      | inl hin =>
        obtain ⟨i, hi, heq⟩ := h.past r hin
        exact ⟨i, Nat.lt_succ_of_lt hi, heq⟩
      | inr hnew =>
        rw [List.mem_singleton.mp hnew]
        exact ⟨s.ticks, Nat.lt_succ_self _, rfl⟩
    · intro x hx y hy hsx hsy
      exact h.single x (hold x hx (by rw [hsx]; rfl)) y (hold y hy (by rw [hsy]; rfl)) hsx hsy
    · intro x hx hsx
      obtain ⟨y, hy, hsy, hlt⟩ := h.behind x (hold x hx (by rw [hsx]; rfl)) hsx
      exact ⟨y, hkeep y hy, hsy, hlt⟩
    · intro hs
      obtain ⟨r, hr, hsr⟩ := hs
      exact ⟨r, hkeep r hr, hsr⟩

def stableRows (s : State) : List VersionRow := s.versions.filter fun r => decide (r.stage = .stable)

theorem Ordered.stableRows_length (h : Ordered env s) : (stableRows s).length ≤ 1 := by
  have hnodup : (stableRows s).Nodup := (List.Nodup.of_map _ h.keyed).filter _
  have hmem : ∀ r ∈ stableRows s, r ∈ s.versions ∧ r.stage = .stable := by
    intro r hr
    simpa [stableRows] using hr
  match hrows : stableRows s with
  | [] => simp
  | [_] => simp
  | a :: b :: rest =>
    rw [hrows] at hnodup hmem
    have ha := hmem a (by simp)
    have hb := hmem b (by simp)
    have hab := h.single a ha.1 b hb.1 ha.2 hb.2
    simp [hab] at hnodup

/-! ### Passes -/

section Evaluate
variable [Div ρ] [LT ρ] [DecidableLT ρ] [OfScientific ρ]

omit [Div ρ] [LT ρ] [DecidableLT ρ] [OfScientific ρ] in
theorem restore_ticks (failed : Text) : s.ticks ≤ (restorePrevStable env failed s).ticks := by
  rcases restorePrevStable_cases env failed s with h | ⟨r, -, reason, -, -, -, -, h⟩
  · rw [h]
  · rw [h]
    exact Nat.le_succ _

omit [Div ρ] [LT ρ] [DecidableLT ρ] [OfScientific ρ] in
theorem promote_ticks (p : Pass ρ) (v : VersionRow) (nxt : Stage) :
    (promote env p v nxt s).ticks = s.ticks + 1 := by
  simp only [promote]
  split_ifs
  · rfl
  · rfl

theorem rollBack_ticks (p : Pass ρ) (v : VersionRow) : s.ticks ≤ (rollBack env p v s).ticks := by
  have h : s.ticks ≤ (setStage env v.version .rolledBack
      ("auto rollback: ".toList ++ (isGreen env (p.measured v.version)).2) s).ticks := Nat.le_succ _
  exact h.trans (restore_ticks v.version)

theorem evaluateOne_ticks (p : Pass ρ) (acts : List (Action ρ)) (v : VersionRow) :
    s.ticks ≤ (evaluateOne env p (s, acts) v).1.ticks := by
  rcases (evaluateOne_cases env p s acts v).2 with ⟨-, h⟩ | ⟨-, -, h⟩ | ⟨-, -, -, nxt, -, h⟩ | ⟨-, -, -, h⟩
  · rw [h]
  · rw [h]
    exact rollBack_ticks p v
  · rw [h, promote_ticks]
    exact Nat.le_succ _
  · rw [h]

theorem foldl_ticks (p : Pass ρ) (vs : List VersionRow) (s : State) (acts : List (Action ρ)) :
    s.ticks ≤ (vs.foldl (evaluateOne env p) (s, acts)).1.ticks := by
  induction vs generalizing s acts with
  | nil => exact le_rfl
  | cons v vs ih => exact (evaluateOne_ticks p acts v).trans (ih _ _)

theorem evaluateOne_ordered (p : Pass ρ) (acts : List (Action ρ)) {v : VersionRow} (h : Ordered env s)
    (hv : v.stage.isCanary = true → getVersion s v.version = some v)
    (hclock : Ticking env (evaluateOne env p (s, acts) v).1.ticks) :
    Ordered env (evaluateOne env p (s, acts) v).1 ∧
      (HasStable s → HasStable (evaluateOne env p (s, acts) v).1) := by
  rcases (evaluateOne_cases env p s acts v).2 with ⟨-, hs⟩ | ⟨hc, -, hs⟩ | ⟨hc, -, -, nxt, hnxt, hs⟩ | ⟨-, -, -, hs⟩
  · rw [hs]
    exact ⟨h, id⟩
  · rw [hs, rollBack]
    have hrolled := ordered_setStage h .rolledBack rfl
      ("auto rollback: ".toList ++ (isGreen env (p.measured v.version)).2)
      (unreleased_of_get h.keyed (hv hc) (canary_not_released hc))
    rw [restore_idle hrolled.1]
    · exact hrolled
    · -- the failed version itself is rolled back by now
      intro r hr hrv
      obtain ⟨r₀, -, ⟨-, heq⟩ | ⟨hne, heq⟩⟩ := mem_setStage.mp hr
      · rw [heq]
        rfl
      · rw [heq] at hrv
        exact absurd hrv hne
  · rw [hs, promote_ticks] at hclock
    rw [hs]
    simp only [promote]
    split_ifs with hst
    · rw [hst]
      have hmem := getVersion_mem (hv hc)
      have hinstall := ordered_install h hclock ("auto promote from ".toList ++ v.stage.text.toList ++
        " (dwell ".toList ++ fixed0 (dwellMicros p.now v.enteredStageAt) ++ "s)".toList) hmem.1 rfl
      exact ⟨hinstall.1, fun _ => hinstall.2⟩
    · exact ordered_setStage h nxt (next_released hnxt hst) _
        (unreleased_of_get h.keyed (hv hc) (canary_not_released hc))
  · rw [hs]
    exact ⟨h, id⟩

theorem foldl_ordered (p : Pass ρ) (vs : List VersionRow) (s : State) (acts : List (Action ρ))
    (h : Ordered env s) (hnodup : (vs.map VersionRow.version).Nodup) (hcur : Current s vs)
    (hclock : Ticking env (vs.foldl (evaluateOne env p) (s, acts)).1.ticks) :
    Ordered env (vs.foldl (evaluateOne env p) (s, acts)).1 ∧
      (HasStable s → HasStable (vs.foldl (evaluateOne env p) (s, acts)).1) := by
  induction vs generalizing s acts with
  | nil => exact ⟨h, id⟩
  | cons v vs ih =>
    rw [List.foldl_cons] at hclock ⊢
    have hone := evaluateOne_ordered p acts h (hcur v List.mem_cons_self)
      (hclock.mono (foldl_ticks p vs (evaluateOne env p (s, acts) v).1 _))
    have hcur' := current_evaluateOne env p h.keyed acts hnodup hcur
    rw [List.map_cons, List.nodup_cons] at hnodup
    have hrest := ih (evaluateOne env p (s, acts) v).1 (evaluateOne env p (s, acts) v).2 hone.1 hnodup.2 hcur' hclock
    exact ⟨hrest.1, fun hs => hrest.2 (hone.2 hs)⟩

theorem pass_ordered (p : Pass ρ) (h : Ordered env s) (hclock : Ticking env (evaluateRollout env p s).2.ticks) :
    Ordered env (evaluateRollout env p s).2 ∧ (HasStable s → HasStable (evaluateRollout env p s).2) :=
  foldl_ordered p _ s [] h h.keyed.listVersions (current_listVersions h.keyed) hclock

/-! ### Runs -/

theorem step_ticks (op : Op ρ) : s.ticks ≤ (step env s op).1.ticks := by
  cases op with
  | publish a => exact publish_ticks a
  | pin version reason => exact pin_ticks version reason
  | evaluate now dwellSeconds baseline metrics =>
    cases now with
    | some t => exact foldl_ticks _ _ s []
    | none =>
      have hread : s.ticks ≤ { s with ticks := s.ticks + 1 }.ticks := Nat.le_succ _
      exact hread.trans (foldl_ticks _ _ _ [])

theorem step_ordered (h : Ordered env s) (op : Op ρ) (hclock : Ticking env (step env s op).1.ticks) :
    Ordered env (step env s op).1 ∧ (HasStable s → HasStable (step env s op).1) := by
  cases op with
  | publish a => exact publish_ordered a h
  | pin version reason => exact pin_ordered version reason h hclock
  | evaluate now dwellSeconds baseline metrics =>
    cases now with
    | some t => exact pass_ordered ⟨t, dwellSeconds, baseline, metrics⟩ h hclock
    | none =>
      have hread : Ordered env { s with ticks := s.ticks + 1 } := h.of_versions rfl (Nat.le_succ _)
      exact pass_ordered ⟨env.clock s.ticks, dwellSeconds, baseline, metrics⟩ hread hclock

theorem run_ticks (ops : List (Op ρ)) (s : State) : s.ticks ≤ ((machine env).run s ops).ticks := by
  induction ops generalizing s with
  | nil => exact le_rfl
  | cons op ops ih => exact (step_ticks op).trans (ih _)

theorem run_ordered (ops : List (Op ρ)) (s : State) (h : Ordered env s)
    (hclock : Ticking env ((machine env).run s ops).ticks) :
    Ordered env ((machine env).run s ops) ∧ (HasStable s → HasStable ((machine env).run s ops)) := by
  induction ops generalizing s with
  | nil => exact ⟨h, id⟩
  | cons op ops ih =>
    -- the readings of the first step are among those of the whole run
    have hone := step_ordered h op (hclock.mono (run_ticks ops (step env s op).1))
    have hrest := ih (step env s op).1 hone.1 hclock
    exact ⟨hrest.1, fun hs => hrest.2 (hone.2 hs)⟩

theorem single_stable_version (env : Env ρ) (ops : List (Op ρ))
    (hclock : ∀ i j, i < j → j < ((machine env).run State.empty ops).ticks → env.clock i < env.clock j) :
    (stableRows ((machine env).run State.empty ops)).length ≤ 1 ∧
    (∀ ops₁ ops₂, ops = ops₁ ++ ops₂ → stableRows ((machine env).run State.empty ops₁) ≠ [] →
      (stableRows ((machine env).run State.empty ops)).length = 1) ∧
    (∀ a ∈ ((machine env).run State.empty ops).versions, a.stage = .superseded →
      stableRows ((machine env).run State.empty ops) ≠ [] ∧
      ∀ b ∈ stableRows ((machine env).run State.empty ops),
        a.enteredStageAt.isoformat < b.enteredStageAt.isoformat) := by
  have hord := (run_ordered ops State.empty ordered_empty hclock).1
  have hone := hord.stableRows_length
  refine ⟨hone, ?_, ?_⟩
  · intro ops₁ ops₂ heq hstable
    obtain ⟨r, hr⟩ := List.exists_mem_of_ne_nil _ hstable
    have hr' : r ∈ ((machine env).run State.empty ops₁).versions ∧ r.stage = .stable := by
      simpa [stableRows] using hr
    rw [heq, Machine.run_append] at hclock hone ⊢
    have hprefix := (run_ordered ops₁ State.empty ordered_empty (Ticking.mono hclock (run_ticks ops₂ _))).1
    have hlater := (run_ordered ops₂ _ hprefix hclock).2 ⟨r, hr'.1, hr'.2⟩
    obtain ⟨b, hb, hsb⟩ := hlater
    have hin : b ∈ stableRows ((machine env).run ((machine env).run State.empty ops₁) ops₂) := by
      simp [stableRows, hb, hsb]
    have hpos := List.length_pos_of_mem hin
    omega
  · intro a ha hsup
    obtain ⟨b, hb, hsb, hlt⟩ := hord.behind a ha hsup
    have hin : b ∈ stableRows ((machine env).run State.empty ops) := by
      simp [stableRows, hb, hsb]
    refine ⟨List.ne_nil_of_mem hin, ?_⟩
    intro c hc
    have hc' : c ∈ ((machine env).run State.empty ops).versions ∧ c.stage = .stable := by
      simpa [stableRows] using hc
    rw [hord.single c hc'.1 b hb hc'.2 hsb]
    exact UtcTime.isoformat_strictMono hlt

end Evaluate

/-! ### Two releases that reach stable in one pass -/

def secondsClock (n : ℕ) : UtcTime :=
  if h : 1000000 * n < maxMicros then ⟨1000000 * n, h⟩ else ⟨0, by decide⟩

theorem secondsClock_lt {i j : ℕ} (hij : i < j) (hj : j < 1000) : secondsClock i < secondsClock j := by
  have hmax : maxMicros = 315537897600000000 := rfl
  have hi' : 1000000 * i < maxMicros := by omega
  have hj' : 1000000 * j < maxMicros := by omega
  rw [secondsClock, secondsClock, dif_pos hi', dif_pos hj', UtcTime.lt_iff]
  change 1000000 * i < 1000000 * j
  omega

def sampleEnv : Env ℚ where
  clock := secondsClock
  tie _ id := id
  fixed3 _ := "0.000".toList
  validateReleaseUrl _ := .ok ()

def sampleArgs (version : String) : PublishArgs :=
  { version := version.toList, downloadUrl := "https://releases.example.invalid/releases/agent".toList,
    sigUrl := "https://releases.example.invalid/releases/agent.sig".toList,
    sha256 := List.replicate 64 'a', minProtocol := 1, initialStage := .canary1, notes := [] }

def healthy (version : Text) : VersionMetrics ℚ :=
  { version := version, samples := 20, errorRate := 0, connectSuccess := 1, taskSuccess := 1,
    upgradeFailRate := 0, baselineErrorRate := 0 }

def samplePass : Op ℚ := .evaluate none 0 0 healthy

def sampleRollout : List (Op ℚ) :=
  [.publish (sampleArgs "1.0.0"), .publish (sampleArgs "1.1.0"), samplePass, samplePass, samplePass]

theorem single_stable_version_sample :
    (stableRows ((machine sampleEnv).run State.empty sampleRollout)).length = 1 := by
  have hticks : ((machine sampleEnv).run State.empty sampleRollout).ticks = 11 := by decide +kernel
  refine (single_stable_version sampleEnv sampleRollout ?_).2.1 sampleRollout [] (by simp) (by decide +kernel)
  intro i j hij hj
  rw [hticks] at hj
  exact secondsClock_lt hij (by omega)

end AgentWorkflow.ControlPlane.Rollout
