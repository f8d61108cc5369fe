import AgentWorkflow.ControlPlane.RolloutStable

/-!
# Publishing twice

`publish_version` returns the row of a version that is published again with the
same arguments, and refuses other arguments. The comparison includes the notes,
and `set_stage` writes its reason into them: `Quiet` says which calls change no
stage, and only in runs of such calls is publishing idempotent.
-/

namespace AgentWorkflow.ControlPlane.Rollout
open AgentWorkflow.Lib AgentWorkflow.Lib.Calendar

variable {ρ : Type} {env : Env ρ} {s : State} {v w : Text} {r : VersionRow}

theorem SameRelease.notes_le {r r' : VersionRow} (h : SameRelease r r') : r.notes.length ≤ r'.notes.length :=
  h.2.2.2.2.2.2.length_le

/-! ### Pins -/

/-- A pin writes into the notes of every canary and of the version it makes stable. -/
def Noted (o o' : Option VersionRow) (written : Prop) : Prop :=
  (o = none ∧ o' = none) ∨
    ∃ r r', o = some r ∧ o' = some r' ∧ SameRelease r r' ∧ (written → r.notes.length < r'.notes.length)

theorem Noted.trans {o₁ o₂ o₃ : Option VersionRow} {p q : Prop} (h : Noted o₁ o₂ p) (h' : Noted o₂ o₃ q) :
    Noted o₁ o₃ (p ∨ q) := by
  rcases h with ⟨h1, h2⟩ | ⟨r, r', h1, h2, hsame, hlong⟩
  · rcases h' with ⟨-, h4⟩ | ⟨t, t', h3, -⟩
    · exact Or.inl ⟨h1, h4⟩
    · rw [h2] at h3
      cases h3
  · rcases h' with ⟨h3, -⟩ | ⟨t, t', h3, h4, hsame', hlong'⟩
    · rw [h2] at h3
      cases h3
    · rw [h2] at h3
      cases h3
      refine Or.inr ⟨r, t', h1, h4, hsame.trans hsame', ?_⟩
      intro hpq
      have hle := hsame.notes_le
      have hle' := hsame'.notes_le
      cases hpq with
      | inl hp => exact lt_of_lt_of_le (hlong hp) hle'
      | inr hq => exact lt_of_le_of_lt hle (hlong' hq)

theorem Noted.weaken {o o' : Option VersionRow} {p q : Prop} (h : Noted o o' p) (hqp : q → p) : Noted o o' q := by
  rcases h with hnone | ⟨r, r', h1, h2, hsame, hlong⟩
  · exact Or.inl hnone
  · exact Or.inr ⟨r, r', h1, h2, hsame, fun hq => hlong (hqp hq)⟩

theorem noted_refl (o : Option VersionRow) : Noted o o False := by
  cases o with
  | none => exact Or.inl ⟨rfl, rfl⟩
  | some r => exact Or.inr ⟨r, r, rfl, rfl, SameRelease.refl r, False.elim⟩

theorem noted_setStage (st : Stage) {reason : Text} (hr : reason ≠ []) :
    Noted (getVersion s w) (getVersion (setStage env v st reason s) w) (w = v) := by
  rw [getVersion_setStage]
  by_cases hw : w = v
  · rw [if_pos hw]
    cases getVersion s w with
    | none => exact Or.inl ⟨rfl, rfl⟩
    | some r =>
      exact Or.inr ⟨r, _, rfl, rfl, sameRelease_enterStage _ _ _ r, fun _ => enterStage_notes hr _ _ r⟩
  · rw [if_neg hw]
    exact (noted_refl _).weaken hw

theorem noted_supersede : Noted (getVersion s w) (getVersion (supersedePreviousStable v s) w) False := by
  rw [getVersion_supersede]
  cases getVersion s w with
  | none => exact Or.inl ⟨rfl, rfl⟩
  | some r => exact Or.inr ⟨r, _, rfl, rfl, sameRelease_supersedeRow v r, False.elim⟩

theorem noted_pinLoop (env : Env ρ) (reason : Text) (vs : List VersionRow) (s : State) :
    Noted (getVersion s w) (getVersion (vs.foldl (pinCanary env reason) s) w)
      (∃ v ∈ vs, v.stage.isCanary = true ∧ w = v.version) := by
  induction vs generalizing s with
  | nil => exact (noted_refl _).weaken (by simp)
  | cons v vs ih =>
    have hone : Noted (getVersion s w) (getVersion (pinCanary env reason s v) w)
        (v.stage.isCanary = true ∧ w = v.version) := by
      unfold pinCanary
      by_cases hc : v.stage.isCanary = true
      · rw [if_pos hc]
        exact (noted_setStage _ (by simp)).weaken And.right
      · rw [if_neg hc]
        exact (noted_refl _).weaken fun h => hc h.1
    refine (hone.trans (ih _)).weaken ?_
    intro hex
    obtain ⟨x, hx, hc, hxw⟩ := hex
    cases List.mem_cons.mp hx with
    | inl heq =>
      rw [heq] at hc hxw
      exact Or.inl ⟨hc, hxw⟩
    | inr hin => exact Or.inr ⟨x, hin, hc, hxw⟩

theorem getVersion_congr {s s' : State} (h : s'.versions = s.versions) (w : Text) :
    getVersion s' w = getVersion s w := by
  rw [getVersion, getVersion, h]

theorem noted_pin (env : Env ρ) (reason : Text) {version : Text} {existing : VersionRow} (hget : getVersion s version = some existing) :
    Noted (getVersion s w) (getVersion (operatorPin env version reason s).2 w)
      ((∃ v ∈ s.versions, v.stage.isCanary = true ∧ w = v.version) ∨
        (w = version ∧ existing.stage ≠ .stable)) := by
  rw [getVersion_congr (operatorPin_state env reason hget).1]
  have hloop := noted_pinLoop (w := w) env reason (listVersions env s) s
  simp only [mem_listVersions] at hloop
  by_cases hst : existing.stage = .stable
  · rw [if_neg (not_not.mpr hst)]
    refine (hloop.trans noted_supersede).weaken ?_
    intro h
    exact Or.inl (h.resolve_right fun hno => hno.2 hst)
  · rw [if_pos hst]
    refine ((hloop.trans (noted_setStage _ (by simp))).trans noted_supersede).weaken ?_
    intro h
    exact Or.inl (h.imp_right And.left)

theorem pin_none {version reason : Text} (h : getVersion s w = none) :
    getVersion (operatorPin env version reason s).2 w = none := by
  cases hget : getVersion s version with
  | none =>
    rw [operatorPin_unknown hget]
    exact h
  | some existing =>
    rcases noted_pin (w := w) env reason hget with ⟨-, hnone⟩ | ⟨r, -, hr, -⟩
    · exact hnone
    · rw [h] at hr
      cases hr

section Evaluate
variable [Div ρ] [LT ρ] [DecidableLT ρ] [OfScientific ρ]

/-! ### Quiet calls -/

/-- The call changes no stage through `set_stage`. -/
def Quiet (env : Env ρ) (s : State) : Op ρ → Prop
  | .publish _ => True
  | .evaluate now dwellSeconds baseline metrics =>
    ∀ r ∈ s.versions, r.stage.isCanary = true →
      (startPass env now dwellSeconds baseline metrics s).1.red env r = false ∧
      (startPass env now dwellSeconds baseline metrics s).1.due env r = false
  | .pin version _ =>
    ∀ existing, getVersion s version = some existing →
      existing.stage = .stable ∧ ∀ r ∈ s.versions, r.stage.isCanary = false

omit [Div ρ] [LT ρ] [DecidableLT ρ] [OfScientific ρ] in
theorem startPass_versions (env : Env ρ) (s : State) (now : Option UtcTime) (dwellSeconds : ℤ) (baseline : ρ)
    (metrics : Text → VersionMetrics ρ) :
    (startPass env now dwellSeconds baseline metrics s).2.versions = s.versions := by
  cases now <;> rfl

theorem foldl_quiet (p : Pass ρ) (vs : List VersionRow) (acc : State × List (Action ρ))
    (h : ∀ v ∈ vs, v.stage.isCanary = true → p.red env v = false ∧ p.due env v = false) :
    (vs.foldl (evaluateOne env p) acc).1 = acc.1 := by
  induction vs generalizing acc with
  | nil => rfl
  | cons v vs ih =>
    have hv := h v List.mem_cons_self
    have hone : (evaluateOne env p acc v).1 = acc.1 := by
      rcases (evaluateOne_cases env p acc.1 acc.2 v).2 with ⟨-, hs⟩ | ⟨hc, hred, -⟩ | ⟨hc, -, hdue, -⟩ | ⟨-, -, -, hs⟩
      · exact hs
      · rw [(hv hc).1] at hred
        cases hred
      · rw [(hv hc).2] at hdue
        cases hdue
      · exact hs
    rw [List.foldl_cons, ih _ fun x hx => h x (List.mem_cons_of_mem _ hx), hone]

omit [Div ρ] [LT ρ] [DecidableLT ρ] [OfScientific ρ] in
theorem pinLoop_quiet (reason : Text) (vs : List VersionRow) (s : State)
    (h : ∀ v ∈ vs, v.stage.isCanary = false) : vs.foldl (pinCanary env reason) s = s := by
  induction vs with
  | nil => rfl
  | cons v vs ih =>
    have hone : pinCanary env reason s v = s := by
      simp [pinCanary, h v List.mem_cons_self]
    rw [List.foldl_cons, hone]
    exact ih fun x hx => h x (List.mem_cons_of_mem _ hx)

omit [Div ρ] [LT ρ] [DecidableLT ρ] [OfScientific ρ] in
theorem supersedeRow_metadata (v : Text) (r : VersionRow) : (supersedeRow v r).metadata = r.metadata := by
  unfold supersedeRow
  split_ifs
  · rfl
  · rfl

omit [Div ρ] [LT ρ] [DecidableLT ρ] [OfScientific ρ] in
theorem publish_row (a : PublishArgs) (hget : getVersion s w = some r) :
    getVersion (publishVersion env a s).2 w = some r := by
  rcases publishVersion_cases env a s with ⟨hv, -⟩ | ⟨-, -, -, hv, -⟩
  · rw [getVersion_congr hv]
    exact hget
  · rw [getVersion, hv, Table.find_append]
    rw [getVersion] at hget
    rw [hget]
    rfl

theorem quiet_row (op : Op ρ) (hq : Quiet env s op) (hget : getVersion s w = some r) :
    ∃ r', getVersion (step env s op).1 w = some r' ∧ r'.metadata = r.metadata := by
  cases op with
  | publish a => exact ⟨r, publish_row a hget, rfl⟩
  | evaluate now dwellSeconds baseline metrics =>
    refine ⟨r, ?_, rfl⟩
    have hversions := startPass_versions env s now dwellSeconds baseline metrics
    have hsame : (step env s (.evaluate now dwellSeconds baseline metrics)).1 =
        (startPass env now dwellSeconds baseline metrics s).2 := by
      apply foldl_quiet
      intro v hv
      rw [mem_listVersions, hversions] at hv
      exact hq v hv
    rw [hsame, getVersion_congr hversions]
    exact hget
  | pin version reason =>
    cases hpin : getVersion s version with
    | none =>
      refine ⟨r, ?_, rfl⟩
      change getVersion (operatorPin env version reason s).2 w = some r
      rw [operatorPin_unknown hpin]
      exact hget
    | some existing =>
      obtain ⟨hst, hno⟩ := hq existing hpin
      refine ⟨supersedeRow version r, ?_, supersedeRow_metadata version r⟩
      change getVersion (operatorPin env version reason s).2 w = _
      rw [getVersion_congr (operatorPin_state env reason hpin).1, if_neg (not_not.mpr hst),
        pinLoop_quiet reason _ s fun v hv => hno v (mem_listVersions.mp hv), getVersion_supersede, hget]
      rfl

theorem Verdict.notes {p : Pass ρ} {v r : VersionRow} (h : Verdict env p v r)
    (hsel : ¬ (p.red env v = false ∧ p.due env v = false)) : v.notes.length < r.notes.length := by
  cases h with
  | kept hred hdue => exact absurd ⟨hred, hdue⟩ hsel
  | rolledBack _ _ _ hlong => exact hlong
  | promoted _ _ _ _ _ hlong => exact hlong

omit [Div ρ] [LT ρ] [DecidableLT ρ] [OfScientific ρ] in
theorem Aside.release {o : Option VersionRow} (h : Aside (some r) o) : ∃ r', o = some r' ∧ SameRelease r r' := by
  rcases h with ⟨h1, -⟩ | ⟨t, t', h1, h2, hsame, -⟩
  · cases h1
  · cases h1
    exact ⟨t', h2, hsame⟩

omit [Div ρ] [LT ρ] [DecidableLT ρ] [OfScientific ρ] in
theorem Noted.longer {o o' : Option VersionRow} {p : Prop} (h : Noted o o' p) (hp : p) (ho : o = some r) :
    ∃ r', o' = some r' ∧ r.notes.length < r'.notes.length := by
  rcases h with ⟨hnone, -⟩ | ⟨t, t', h1, h2, -, hlong⟩
  · rw [hnone] at ho
    cases ho
  · rw [h1] at ho
    cases ho
    exact ⟨t', h2, hlong hp⟩

/-- A call that is not quiet adds to the notes of some version. -/
theorem loud_row (hs : s.Keyed) (op : Op ρ) (hq : ¬ Quiet env s op) :
    ∃ r r', getVersion s r.version = some r ∧ getVersion (step env s op).1 r.version = some r' ∧
      r.notes.length < r'.notes.length := by
  cases op with
  | publish a => exact absurd trivial hq
  | evaluate now dwellSeconds baseline metrics =>
    simp only [Quiet, not_forall] at hq
    obtain ⟨v, hv, hc, hsel⟩ := hq
    have hversions := startPass_versions env s now dwellSeconds baseline metrics
    have hget := hs.getVersion hv
    have hkeyed : (startPass env now dwellSeconds baseline metrics s).2.Keyed := by
      rw [State.Keyed, hversions]
      exact hs
    rw [← getVersion_congr hversions] at hget
    obtain ⟨r, hverdict, haside⟩ :=
      (pass_row env (startPass env now dwellSeconds baseline metrics s).1 hkeyed v.version).2 v hget hc
    obtain ⟨r', hr', hsame⟩ := haside.release
    refine ⟨v, r', hs.getVersion hv, hr', ?_⟩
    exact lt_of_lt_of_le (hverdict.notes hsel) hsame.notes_le
  | pin version reason =>
    simp only [Quiet, not_forall] at hq
    obtain ⟨existing, hget, hsel⟩ := hq
    have hmem := getVersion_mem hget
    by_cases hst : existing.stage = .stable
    · have hcanary : ∃ v ∈ s.versions, v.stage.isCanary = true := by
        by_contra hno
        apply hsel
        refine ⟨hst, fun v hv => ?_⟩
        by_contra hc
        exact hno ⟨v, hv, by simpa using hc⟩
      obtain ⟨v, hv, hc⟩ := hcanary
      have hnoted := noted_pin (w := v.version) env reason hget
      obtain ⟨r', hr', hlong⟩ := hnoted.longer (Or.inl ⟨v, hv, hc, rfl⟩) (hs.getVersion hv)
      exact ⟨v, r', hs.getVersion hv, hr', hlong⟩
    · have hnoted := noted_pin (w := version) env reason hget
      obtain ⟨r', hr', hlong⟩ := hnoted.longer (Or.inr ⟨rfl, hst⟩) hget
      refine ⟨existing, r', ?_, ?_, hlong⟩
      · rw [hmem.2]
        exact hget
      · rw [hmem.2]
        exact hr'

/-! ### Every row was published -/

omit [Div ρ] [LT ρ] [DecidableLT ρ] [OfScientific ρ] in
theorem pinLoop_keyed (reason : Text) (vs : List VersionRow) (s : State) (hs : s.Keyed) :
    (vs.foldl (pinCanary env reason) s).Keyed := by
  induction vs generalizing s with
  | nil => exact hs
  | cons v vs ih =>
    apply ih
    unfold pinCanary
    split_ifs
    · exact keyed_setStage hs _ _
    · exact hs

theorem step_keyed (hs : s.Keyed) (op : Op ρ) : (step env s op).1.Keyed := by
  cases op with
  | publish a => exact keyed_publish hs a
  | evaluate now dwellSeconds baseline metrics =>
    apply pass_keyed
    rw [State.Keyed, startPass_versions]
    exact hs
  | pin version reason =>
    change (operatorPin env version reason s).2.Keyed
    cases hget : getVersion s version with
    | none =>
      rw [operatorPin_unknown hget]
      exact hs
    | some existing =>
      rw [State.Keyed, (operatorPin_state env reason hget).1]
      apply keyed_supersede
      split_ifs
      · exact keyed_setStage (pinLoop_keyed reason _ s hs) _ _
      · exact pinLoop_keyed reason _ s hs

theorem run_keyed (ops : List (Op ρ)) : ((machine env).run State.empty ops).Keyed :=
  (machine env).run_invariant (P := State.Keyed) (fun _ op hs => step_keyed hs op) State.empty ops List.nodup_nil

theorem pass_none (p : Pass ρ) (hs : s.Keyed) (hget : getVersion s w = none) :
    getVersion (evaluateRollout env p s).2 w = none := by
  have haside := (pass_row env p hs w).1 (by simp [hget])
  rw [hget] at haside
  rcases haside with ⟨-, hnone⟩ | ⟨r, -, hr, -⟩
  · exact hnone
  · cases hr

/-- The call of `publish_version` that creates the row of a version. -/
def Creates (env : Env ρ) (s : State) (a : PublishArgs) : Prop :=
  getVersion s a.version = none ∧ ∃ row, (publishVersion env a s).1 = .ok row

theorem step_none (hs : s.Keyed) {op : Op ρ} (hget : getVersion s w = none)
    (hnew : getVersion (step env s op).1 w = some r) : ∃ a, op = .publish a ∧ a.version = w ∧ Creates env s a := by
  cases op with
  | publish a =>
    refine ⟨a, rfl, ?_⟩
    rcases publishVersion_cases env a s with ⟨hv, -⟩ | ⟨-, hnone, hok, hv, -⟩
    · change getVersion (publishVersion env a s).2 w = some r at hnew
      rw [getVersion_congr hv, hget] at hnew
      cases hnew
    · change Table.find VersionRow.version w (publishVersion env a s).2.versions = some r at hnew
      rw [hv, Table.find_append] at hnew
      rw [getVersion] at hget
      rw [hget, Option.none_or] at hnew
      have hfound := Table.find_some hnew
      rw [List.mem_singleton.mp hfound.1] at hfound
      exact ⟨hfound.2, hnone, _, hok⟩
  | evaluate now dwellSeconds baseline metrics =>
    have hversions := startPass_versions env s now dwellSeconds baseline metrics
    have hnone : getVersion (step env s (.evaluate now dwellSeconds baseline metrics)).1 w = none := by
      apply pass_none
      · rw [State.Keyed, hversions]
        exact hs
      · rw [getVersion_congr hversions]
        exact hget
    rw [hnone] at hnew
    cases hnew
  | pin version reason =>
    have hnone : getVersion (step env s (.pin version reason)).1 w = none := pin_none hget
    rw [hnone] at hnew
    cases hnew

theorem row_published (ops : List (Op ρ)) (hget : getVersion ((machine env).run State.empty ops) w = some r) :
    ∃ ops₁ a ops₂, ops = ops₁ ++ .publish a :: ops₂ ∧ a.version = w ∧
      Creates env ((machine env).run State.empty ops₁) a := by
  induction ops using List.reverseRecOn generalizing r with
  | nil => simp [getVersion, State.empty, Table.find] at hget
  | append_singleton ops op ih =>
    cases hprev : getVersion ((machine env).run State.empty ops) w with
    | some r₀ =>
      obtain ⟨ops₁, a, ops₂, heq, hw, hcreates⟩ := ih hprev
      exact ⟨ops₁, a, ops₂ ++ [op], by rw [heq]; simp, hw, hcreates⟩
    | none =>
      rw [Machine.run_snoc] at hget
      obtain ⟨a, hop, hw, hcreates⟩ := step_none (run_keyed ops) hprev hget
      exact ⟨ops, a, [], by rw [hop], hw, hcreates⟩

/-! ### Publishing again -/

/-- Each publication of the run can be repeated in the state it has reached: the
call returns the current row, which has the recorded metadata, and writes nothing. -/
def Idempotent (env : Env ρ) (ops : List (Op ρ)) : Prop :=
  ∀ ops₁ a ops₂, ops = ops₁ ++ .publish a :: ops₂ → Creates env ((machine env).run State.empty ops₁) a →
    ∃ row, getVersion ((machine env).run State.empty ops) a.version = some row ∧ row.metadata = a.metadata ∧
      (publishVersion env a ((machine env).run State.empty ops)).1 = .ok row ∧
      (publishVersion env a ((machine env).run State.empty ops)).2.versions =
        ((machine env).run State.empty ops).versions ∧
      (publishVersion env a ((machine env).run State.empty ops)).2.events =
        ((machine env).run State.empty ops).events

omit [Div ρ] [LT ρ] [DecidableLT ρ] [OfScientific ρ] in
theorem creates_checked {a : PublishArgs} (h : Creates env s a) : checkArgs env a = .ok () := by
  obtain ⟨-, row, hok⟩ := h
  unfold publishVersion at hok
  cases hcheck : checkArgs env a with
  | error e =>
    rw [hcheck] at hok
    cases hok
  | ok u => rfl

omit [Div ρ] [LT ρ] [DecidableLT ρ] [OfScientific ρ] in
theorem creates_row {a : PublishArgs} (h : Creates env s a) :
    ∃ row, getVersion (publishVersion env a s).2 a.version = some row ∧ row.metadata = a.metadata := by
  obtain ⟨hnone, row, hok⟩ := h
  rcases publishVersion_cases env a s with ⟨-, -, hfail⟩ | ⟨-, -, -, hv, -⟩
  · -- a call that adds no row for an unknown version has failed
    obtain ⟨e, herr⟩ := hfail hnone
    rw [herr] at hok
    cases hok
  · refine ⟨publishedRow a (s.lastId + 1) (env.clock s.ticks), ?_, rfl⟩
    rw [getVersion, hv, Table.find_append]
    rw [getVersion] at hnone
    rw [hnone, Option.none_or]
    simp [Table.find, publishedRow]

omit [Div ρ] [LT ρ] [DecidableLT ρ] [OfScientific ρ] in
theorem republish {a : PublishArgs} (hcheck : checkArgs env a = .ok ()) (hget : getVersion s a.version = some r)
    (hmeta : r.metadata = a.metadata) :
    (publishVersion env a s).1 = .ok r ∧ (publishVersion env a s).2.versions = s.versions ∧
      (publishVersion env a s).2.events = s.events := by
  simp [publishVersion, hcheck, hget, hmeta]

theorem quiet_run_row (ops : List (Op ρ)) (s : State) (hget : getVersion s w = some r)
    (hq : ∀ ops₁ op ops₂, ops = ops₁ ++ op :: ops₂ → Quiet env ((machine env).run s ops₁) op) :
    ∃ r', getVersion ((machine env).run s ops) w = some r' ∧ r'.metadata = r.metadata := by
  induction ops generalizing s r with
  | nil => exact ⟨r, hget, rfl⟩
  | cons op ops ih =>
    obtain ⟨r₁, hr₁, hmeta⟩ := quiet_row op (hq [] op ops rfl) hget
    obtain ⟨r₂, hr₂, hmeta'⟩ := ih (step env s op).1 hr₁ fun ops₁ op' ops₂ heq =>
      hq (op :: ops₁) op' ops₂ (by rw [heq]; rfl)
    exact ⟨r₂, hr₂, hmeta'.trans hmeta⟩

theorem republish_idempotent_iff (env : Env ρ) (ops : List (Op ρ)) :
    (∀ ops₁ ops₂, ops = ops₁ ++ ops₂ → Idempotent env ops₁) ↔
      ∀ ops₁ op ops₂, ops = ops₁ ++ op :: ops₂ → Quiet env ((machine env).run State.empty ops₁) op := by
  constructor
  · intro h ops₁ op ops₂ heq
    by_contra hq
    obtain ⟨r, r', hget, hget', hlong⟩ := loud_row (run_keyed ops₁) op hq
    obtain ⟨pre, a, post, hsplit, hw, hcreates⟩ := row_published ops₁ hget
    -- the notes before and after the call are both those of the publication
    obtain ⟨row, hrow, hmeta, -⟩ := h ops₁ (op :: ops₂) heq pre a post hsplit hcreates
    obtain ⟨row', hrow', hmeta', -⟩ := h (ops₁ ++ [op]) ops₂ (by rw [heq]; simp) pre a (post ++ [op])
      (by rw [hsplit]; simp) hcreates
    rw [hw, hget] at hrow
    rw [hw, Machine.run_snoc] at hrow'
    have heq' := hget'.symm.trans hrow'
    cases hrow
    cases heq'
    rw [← hmeta'] at hmeta
    simp only [VersionRow.metadata, Prod.mk.injEq] at hmeta
    rw [hmeta.2.2.2.2] at hlong
    exact lt_irrefl _ hlong
  · intro h ops₁ ops₂ heq pre a post hsplit hcreates
    obtain ⟨row, hrow, hmeta⟩ := creates_row hcreates
    have hrun : (machine env).run State.empty ops₁ =
        (machine env).run (publishVersion env a ((machine env).run State.empty pre)).2 post := by
      rw [hsplit, Machine.run_append]
      rfl
    obtain ⟨row', hrow', hmeta'⟩ := quiet_run_row post _ hrow fun qs₁ op qs₂ hqs => by
      have hq := h (pre ++ .publish a :: qs₁) op (qs₂ ++ ops₂) (by rw [heq, hsplit, hqs]; simp)
      rw [Machine.run_append] at hq
      exact hq
    rw [← hrun] at hrow'
    refine ⟨row', hrow', hmeta'.trans hmeta, ?_⟩
    exact republish (creates_checked hcreates) hrow' (hmeta'.trans hmeta)

end Evaluate

/-- A promotion, then the same publication again. -/
theorem republish_refused_after_promotion :
    ¬ Idempotent sampleEnv [.publish (sampleArgs "1.0.0"), samplePass] := by
  intro h
  have hcreates : Creates sampleEnv ((machine sampleEnv).run State.empty []) (sampleArgs "1.0.0") :=
    ⟨by decide +kernel, _, by rfl⟩
  obtain ⟨row, -, -, hok, -⟩ := h [] _ [samplePass] rfl hcreates
  have herr : (publishVersion sampleEnv (sampleArgs "1.0.0")
      ((machine sampleEnv).run State.empty [.publish (sampleArgs "1.0.0"), samplePass])).1.isOk = false := by
    decide +kernel
  rw [hok] at herr
  cases herr

end AgentWorkflow.ControlPlane.Rollout
