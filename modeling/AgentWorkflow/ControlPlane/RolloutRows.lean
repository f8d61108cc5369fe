import AgentWorkflow.ControlPlane.Rollout

/-!
# What the rollout does to each version

Every operation is read here once, as its effect on the row of one version:
`evaluateOne` for a step of a pass, `pass_row` for a whole pass. The other modules
use these and do not open the loops again.
-/

namespace AgentWorkflow.ControlPlane.Rollout
open AgentWorkflow.Lib AgentWorkflow.Lib.Calendar

variable {ρ : Type} {env : Env ρ} {s : State} {v w : Text} {r : VersionRow}

/-! ### Reading the table -/

def State.Keyed (s : State) : Prop := Table.Unique VersionRow.version s.versions

theorem getVersion_mem (h : getVersion s w = some r) : r ∈ s.versions ∧ r.version = w := Table.find_some h

theorem State.Keyed.getVersion (hs : s.Keyed) (hr : r ∈ s.versions) :
    getVersion s r.version = some r := Table.find_of_mem hs hr

theorem mem_listVersions : r ∈ listVersions env s ↔ r ∈ s.versions := by
  simp [listVersions, Table.mem_select]

theorem State.Keyed.listVersions (hs : s.Keyed) :
    ((Rollout.listVersions env s).map VersionRow.version).Nodup := Table.select_unique hs

@[simp] theorem enterStage_version (now : UtcTime) (st : Stage) (reason : Text) (r : VersionRow) :
    (enterStage now st reason r).version = r.version := rfl

@[simp] theorem supersedeRow_version (v : Text) (r : VersionRow) : (supersedeRow v r).version = r.version := by
  unfold supersedeRow
  split_ifs
  · rfl
  · rfl

theorem getVersion_setStage (st : Stage) (reason : Text) :
    getVersion (setStage env v st reason s) w =
      if w = v then (getVersion s w).map (enterStage (env.clock s.ticks) st reason) else getVersion s w := by
  have hkey : ∀ r : VersionRow,
      (if decide (r.version = v) = true then enterStage (env.clock s.ticks) st reason r else r).version = r.version :=
    Table.update_key fun _ => rfl
  have hmap := Table.find_map hkey w s.versions
  rw [getVersion, setStage, Table.update, hmap]
  cases hr : Table.find VersionRow.version w s.versions with
  | none => simp [getVersion, hr]
  | some r =>
    have hw := (Table.find_some hr).2
    simp only [getVersion, hr, Option.map_some, hw, decide_eq_true_eq]
    split_ifs
    · rfl
    · rfl

theorem getVersion_supersede : getVersion (supersedePreviousStable v s) w = (getVersion s w).map (supersedeRow v) :=
  Table.find_map (supersedeRow_version v) w s.versions

theorem keyed_setStage (hs : s.Keyed) (st : Stage) (reason : Text) : (setStage env v st reason s).Keyed := by
  unfold State.Keyed setStage Table.update
  exact Table.unique_map (Table.update_key fun r => enterStage_version _ _ _ r) hs

theorem keyed_supersede (hs : s.Keyed) : (supersedePreviousStable v s).Keyed :=
  Table.unique_map (supersedeRow_version v) hs

/-! ### `publish_version` -/

theorem checkArgs_stage {a : PublishArgs} (h : checkArgs env a = .ok ()) :
    a.initialStage = .draft ∨ a.initialStage = .canary1 := by
  by_contra hno
  unfold checkArgs at h
  by_cases hversion : canonicalVersion a.version = true
  · by_cases hsha : a.sha256.length = 64 ∧ a.sha256.all isHexDigit = true
    · simp only [hversion, hsha, hno, if_true, if_false, and_self] at h
      cases h
    · simp only [hversion, hsha, if_true, if_false] at h
      cases h
  · simp only [hversion] at h
    cases h

/-- A call either leaves the versions alone or adds the row of a new one. -/
theorem publishVersion_cases (env : Env ρ) (a : PublishArgs) (s : State) :
    ((publishVersion env a s).2.versions = s.versions ∧ s.ticks ≤ (publishVersion env a s).2.ticks ∧
      (getVersion s a.version = none → ∃ e, (publishVersion env a s).1 = .error e)) ∨
    (checkArgs env a = .ok () ∧ getVersion s a.version = none ∧
      (publishVersion env a s).1 = .ok (publishedRow a (s.lastId + 1) (env.clock s.ticks)) ∧
      (publishVersion env a s).2.versions = s.versions ++ [publishedRow a (s.lastId + 1) (env.clock s.ticks)] ∧
      (publishVersion env a s).2.ticks = s.ticks + 1) := by
  unfold publishVersion
  cases hcheck : checkArgs env a with
  | error e => exact Or.inl ⟨rfl, le_rfl, fun _ => ⟨e, rfl⟩⟩
  | ok u =>
    dsimp only
    cases hget : getVersion s a.version with
    | some existing =>
      dsimp only
      split_ifs
      · exact Or.inl ⟨rfl, Nat.le_succ _, by simp⟩
      · exact Or.inl ⟨rfl, Nat.le_succ _, by simp⟩
    | none =>
      dsimp only
      split_ifs
      · exact Or.inl ⟨rfl, Nat.le_succ _, fun _ => ⟨_, rfl⟩⟩
      · exact Or.inr ⟨rfl, rfl, rfl, rfl, rfl⟩

theorem keyed_publish (hs : s.Keyed) (a : PublishArgs) : (publishVersion env a s).2.Keyed := by
  rcases publishVersion_cases env a s with ⟨hv, -⟩ | ⟨-, hnone, -, hv, -⟩
  · rw [State.Keyed, hv]
    exact hs
  · rw [State.Keyed, hv]
    exact Table.unique_snoc hs hnone

/-! ### Rows of one release -/

/-- The columns no operation writes are equal and the notes only grow. -/
def SameRelease (r r' : VersionRow) : Prop :=
  r'.id = r.id ∧ r'.version = r.version ∧ r'.downloadUrl = r.downloadUrl ∧ r'.sigUrl = r.sigUrl ∧
    r'.sha256 = r.sha256 ∧ r'.minProtocol = r.minProtocol ∧ r.notes <+: r'.notes

theorem SameRelease.refl (r : VersionRow) : SameRelease r r :=
  ⟨rfl, rfl, rfl, rfl, rfl, rfl, List.prefix_refl _⟩

theorem SameRelease.trans {r₁ r₂ r₃ : VersionRow} (h : SameRelease r₁ r₂) (h' : SameRelease r₂ r₃) :
    SameRelease r₁ r₃ := by
  obtain ⟨h1, h2, h3, h4, h5, h6, h7⟩ := h
  obtain ⟨k1, k2, k3, k4, k5, k6, k7⟩ := h'
  exact ⟨k1.trans h1, k2.trans h2, k3.trans h3, k4.trans h4, k5.trans h5, k6.trans h6, h7.trans k7⟩

theorem sameRelease_enterStage (now : UtcTime) (st : Stage) (reason : Text) (r : VersionRow) :
    SameRelease r (enterStage now st reason r) := by
  refine ⟨rfl, rfl, rfl, rfl, rfl, rfl, ?_⟩
  simp only [enterStage]
  split_ifs
  · exact List.prefix_refl _
  · exact List.prefix_append _ _

theorem sameRelease_supersedeRow (v : Text) (r : VersionRow) : SameRelease r (supersedeRow v r) := by
  unfold supersedeRow
  split_ifs
  · exact SameRelease.refl r
  · exact SameRelease.refl r

/-- A reason is always written down. -/
theorem enterStage_notes {reason : Text} (hr : reason ≠ []) (now : UtcTime) (st : Stage) (r : VersionRow) :
    r.notes.length < (enterStage now st reason r).notes.length := by
  simp [enterStage, hr]

/-- `stable` and `superseded`: the stages a restore and a promotion of another
version may swap. -/
def Stage.released : Stage → Bool
  | .stable | .superseded => true
  | _ => false

theorem released_iff {st : Stage} : st.released = true ↔ st = .stable ∨ st = .superseded := by
  cases st <;> simp [Stage.released]

def Swapped (r r' : VersionRow) : Prop :=
  r' = r ∨ (r.stage.released = true ∧ r'.stage.released = true)

theorem Swapped.trans {r₁ r₂ r₃ : VersionRow} (h : Swapped r₁ r₂) (h' : Swapped r₂ r₃) : Swapped r₁ r₃ := by
  cases h with
  | inl heq =>
    rw [heq] at h'
    exact h'
  | inr hswap =>
    cases h' with
    | inl heq =>
      rw [heq]
      exact Or.inr hswap
    | inr hswap' => exact Or.inr ⟨hswap.1, hswap'.2⟩

theorem swapped_supersedeRow (v : Text) (r : VersionRow) : Swapped r (supersedeRow v r) := by
  unfold supersedeRow
  split_ifs with h
  · exact Or.inr ⟨by simp [h.1, Stage.released], rfl⟩
  · exact Or.inl rfl

/-! ### `_restore_prev_stable` -/

instance (tie : ℕ → ℕ) : Std.Total (newer tie) where
  total a b := by
    unfold newer
    rcases lt_trichotomy a.enteredStageAt.isoformat b.enteredStageAt.isoformat with h | h | h
    · exact Or.inr (Or.inl h)
    · rw [h]
      cases le_total (tie a.id) (tie b.id) with
      | inl hle => exact Or.inl (Or.inr ⟨rfl, hle⟩)
      | inr hle => exact Or.inr (Or.inr ⟨rfl, hle⟩)
    · exact Or.inl (Or.inl h)

instance (tie : ℕ → ℕ) : IsTrans VersionRow (newer tie) where
  trans a b c hab hbc := by
    unfold newer at *
    rcases hab with hab | ⟨hab, htie⟩
    · rcases hbc with hbc | ⟨hbc, -⟩
      · exact Or.inl (lt_trans hbc hab)
      · rw [hbc] at hab
        exact Or.inl hab
    · rw [hab]
      rcases hbc with hbc | ⟨hbc, htie'⟩
      · exact Or.inl hbc
      · exact Or.inr ⟨hbc, le_trans htie htie'⟩

theorem newer_le {tie : ℕ → ℕ} {a b : VersionRow} (h : newer tie a b) : b.enteredStageAt ≤ a.enteredStageAt := by
  rw [← UtcTime.isoformat_le_isoformat]
  cases h with
  | inl hlt => exact le_of_lt hlt
  | inr heq => exact le_of_eq heq.1.symm

/-- The restore does nothing, or it makes the newest released version stable again. -/
theorem restorePrevStable_cases (env : Env ρ) (failed : Text) (s : State) :
    restorePrevStable env failed s = s ∨
    ∃ r ∈ s.versions, ∃ reason ≠ [], r.stage = .superseded ∧ r.version ≠ failed ∧
      (∀ r' ∈ s.versions, r'.stage.released = true → r'.version ≠ failed →
        r'.enteredStageAt ≤ r.enteredStageAt) ∧
      restorePrevStable env failed s = setStage env r.version .stable reason s := by
  unfold restorePrevStable
  dsimp only
  generalize hp : (fun r : VersionRow =>
    (decide (r.stage = .stable) || decide (r.stage = .superseded)) && decide (r.version ≠ failed)) = p
  have hmem : ∀ r : VersionRow, p r = true ↔ r.stage.released = true ∧ r.version ≠ failed := by
    intro r
    rw [← hp, released_iff]
    simp
  cases hrows : Table.select p (newer (env.tie s.ticks)) s.versions with
  | nil => exact Or.inl rfl
  | cons r rest =>
    have hfirst : r ∈ Table.select p (newer (env.tie s.ticks)) s.versions := by
      rw [hrows]
      exact List.mem_cons_self
    have hr := Table.mem_select.mp hfirst
    have hnewest : ∀ r' ∈ s.versions, p r' = true → r'.enteredStageAt ≤ r.enteredStageAt := by
      intro r' hr' hpr'
      have hin : r' ∈ r :: rest := by
        rw [← hrows]
        exact Table.mem_select.mpr ⟨hr', hpr'⟩
      have hsorted : (r :: rest).Pairwise (newer (env.tie s.ticks)) := by
        rw [← hrows]
        exact Table.select_sorted
      cases List.mem_cons.mp hin with
      | inl heq => rw [heq]
      | inr hrest => exact newer_le ((List.pairwise_cons.mp hsorted).1 r' hrest)
    simp only [List.head?_cons]
    have hreleased := (hmem r).mp hr.2
    by_cases hst : r.stage = .stable
    · exact Or.inl (if_neg (not_not.mpr hst))
    · have hsup : r.stage = .superseded := (released_iff.mp hreleased.1).resolve_left hst
      refine Or.inr ⟨r, hr.1, _, ?_, hsup, hreleased.2, ?_, if_pos hst⟩
      · exact fun h => by simp at h
      · intro r' hr' hrel hne
        exact hnewest r' hr' ((hmem r').mpr ⟨hrel, hne⟩)

theorem keyed_restore (hs : s.Keyed) (failed : Text) : (restorePrevStable env failed s).Keyed := by
  rcases restorePrevStable_cases env failed s with h | ⟨r, -, reason, -, -, -, -, h⟩
  · rw [h]
    exact hs
  · rw [h]
    exact keyed_setStage hs _ _

/-! ### One version of a pass -/

/-- What happens to the other rows while `v` is evaluated, and to all rows in an
operation that does not choose them. -/
def Aside (o o' : Option VersionRow) : Prop :=
  (o = none ∧ o' = none) ∨ ∃ r r', o = some r ∧ o' = some r' ∧ SameRelease r r' ∧ Swapped r r'

theorem Aside.refl (o : Option VersionRow) : Aside o o := by
  cases o with
  | none => exact Or.inl ⟨rfl, rfl⟩
  | some r => exact Or.inr ⟨r, r, rfl, rfl, SameRelease.refl r, Or.inl rfl⟩

theorem Aside.trans {o₁ o₂ o₃ : Option VersionRow} (h : Aside o₁ o₂) (h' : Aside o₂ o₃) : Aside o₁ o₃ := by
  rcases h with ⟨h1, h2⟩ | ⟨r, r', h1, h2, hsame, hswap⟩
  · rw [h1]
    rw [h2] at h'
    exact h'
  · rcases h' with ⟨h3, -⟩ | ⟨t, t', h3, h4, hsame', hswap'⟩
    · rw [h2] at h3
      cases h3
    · rw [h2] at h3
      cases h3
      exact Or.inr ⟨r, t', h1, h4, hsame.trans hsame', hswap.trans hswap'⟩

theorem aside_restore (hs : s.Keyed) (failed : Text) :
    Aside (getVersion s w) (getVersion (restorePrevStable env failed s) w) := by
  rcases restorePrevStable_cases env failed s with h | ⟨r, hr, reason, -, hstage, -, -, h⟩
  · rw [h]
    exact Aside.refl _
  · rw [h, getVersion_setStage]
    split_ifs with hw
    · have hget : getVersion s w = some r := by
        rw [hw]
        exact hs.getVersion hr
      rw [hget]
      refine Or.inr ⟨r, _, rfl, rfl, sameRelease_enterStage _ _ _ r, Or.inr ⟨?_, rfl⟩⟩
      rw [hstage]
      rfl
    · exact Aside.refl _

theorem restore_failed (failed : Text) :
    getVersion (restorePrevStable env failed s) failed = getVersion s failed := by
  rcases restorePrevStable_cases env failed s with h | ⟨r, -, reason, -, -, hne, -, h⟩
  · rw [h]
  · rw [h, getVersion_setStage, if_neg hne.symm]

theorem aside_supersede : Aside (getVersion s w) (getVersion (supersedePreviousStable v s) w) := by
  rw [getVersion_supersede]
  cases getVersion s w with
  | none => exact Or.inl ⟨rfl, rfl⟩
  | some r => exact Or.inr ⟨r, _, rfl, rfl, sameRelease_supersedeRow v r, swapped_supersedeRow v r⟩

section Evaluate
variable [Div ρ] [LT ρ] [DecidableLT ρ] [OfScientific ρ]

/-- How the pass leaves a canary it looks at. -/
inductive Verdict (env : Env ρ) (p : Pass ρ) (v : VersionRow) : VersionRow → Prop
  | kept : p.red env v = false → p.due env v = false → Verdict env p v v
  | rolledBack {r : VersionRow} : p.red env v = true → SameRelease v r → r.stage = .rolledBack →
      v.notes.length < r.notes.length → Verdict env p v r
  | promoted {r : VersionRow} {nxt : Stage} : p.red env v = false → p.due env v = true →
      v.stage.next = some nxt → SameRelease v r → r.stage = nxt → v.notes.length < r.notes.length →
      Verdict env p v r

theorem rollBack_row (p : Pass ρ) (hs : s.Keyed) (v : VersionRow) (w : Text) :
    (w ≠ v.version → Aside (getVersion s w) (getVersion (rollBack env p v s) w)) ∧
      (getVersion s v.version = some v → p.red env v = true →
        ∃ r, getVersion (rollBack env p v s) v.version = some r ∧ Verdict env p v r) := by
  constructor
  · intro hw
    have hset : getVersion (setStage env v.version .rolledBack
        ("auto rollback: ".toList ++ (isGreen env (p.measured v.version)).2) s) w = getVersion s w := by
      rw [getVersion_setStage, if_neg hw]
    rw [← hset]
    exact aside_restore (keyed_setStage hs _ _) v.version
  · intro hv hred
    have hget : getVersion (rollBack env p v s) v.version =
        some (enterStage (env.clock s.ticks) .rolledBack
          ("auto rollback: ".toList ++ (isGreen env (p.measured v.version)).2) v) := by
      rw [rollBack, restore_failed, getVersion_setStage, if_pos rfl, hv]
      rfl
    exact ⟨_, hget, .rolledBack hred (sameRelease_enterStage _ _ _ v) rfl (enterStage_notes (by simp) _ _ v)⟩

theorem promote_row (p : Pass ρ) (v : VersionRow) (nxt : Stage) (w : Text) :
    (w ≠ v.version → Aside (getVersion s w) (getVersion (promote env p v nxt s) w)) ∧
      (getVersion s v.version = some v → p.red env v = false → p.due env v = true → v.stage.next = some nxt →
        ∃ r, getVersion (promote env p v nxt s) v.version = some r ∧ Verdict env p v r) := by
  simp only [promote]
  generalize hreason : "auto promote from ".toList ++ v.stage.text.toList ++ " (dwell ".toList ++
    fixed0 (dwellMicros p.now v.enteredStageAt) ++ "s)".toList = reason
  have hne : reason ≠ [] := by
    rw [← hreason]
    simp
  constructor
  · intro hw
    have hset : getVersion (setStage env v.version nxt reason s) w = getVersion s w := by
      rw [getVersion_setStage, if_neg hw]
    rw [← hset]
    split_ifs
    · exact aside_supersede
    · exact Aside.refl _
  · intro hv hred hdue hnxt
    have hset : getVersion (setStage env v.version nxt reason s) v.version =
        some (enterStage (env.clock s.ticks) nxt reason v) := by
      rw [getVersion_setStage, if_pos rfl, hv]
      rfl
    have hverdict : Verdict env p v (enterStage (env.clock s.ticks) nxt reason v) :=
      .promoted hred hdue hnxt (sameRelease_enterStage _ _ _ v) rfl (enterStage_notes hne _ _ v)
    refine ⟨_, ?_, hverdict⟩
    split_ifs
    · -- the new stable version is the one that is not superseded
      rw [getVersion_supersede, hset]
      simp [supersedeRow]
    · exact hset

theorem keyed_rollBack (p : Pass ρ) (hs : s.Keyed) (v : VersionRow) : (rollBack env p v s).Keyed :=
  keyed_restore (keyed_setStage hs _ _) _

omit [Div ρ] [LT ρ] [DecidableLT ρ] [OfScientific ρ] in
theorem keyed_promote (p : Pass ρ) (hs : s.Keyed) (v : VersionRow) (nxt : Stage) :
    (promote env p v nxt s).Keyed := by
  simp only [promote]
  split_ifs
  · exact keyed_supersede (keyed_setStage hs _ _)
  · exact keyed_setStage hs _ _

/-- The action a verdict is reported with. -/
def reported (env : Env ρ) (p : Pass ρ) (v : VersionRow) : List (Action ρ) :=
  if !v.stage.isCanary then []
  else if p.red env v then
    [.rollback v.version (isGreen env (p.measured v.version)).2 (p.measured v.version)]
  else if p.due env v then
    match v.stage.next with
    | none => []
    | some nxt => [.promote v.version v.stage nxt (p.measured v.version)]
  else []

theorem next_of_canary {st : Stage} (h : st.isCanary = true) : ∃ nxt, st.next = some nxt := by
  cases st <;> simp [Stage.isCanary, Stage.next] at h ⊢

theorem evaluateOne_cases (env : Env ρ) (p : Pass ρ) (s : State) (acts : List (Action ρ)) (v : VersionRow) :
    (evaluateOne env p (s, acts) v).2 = acts ++ reported env p v ∧
    ((v.stage.isCanary = false ∧ (evaluateOne env p (s, acts) v).1 = s) ∨
      (v.stage.isCanary = true ∧ p.red env v = true ∧ (evaluateOne env p (s, acts) v).1 = rollBack env p v s) ∨
      (v.stage.isCanary = true ∧ p.red env v = false ∧ p.due env v = true ∧
        ∃ nxt, v.stage.next = some nxt ∧ (evaluateOne env p (s, acts) v).1 = promote env p v nxt s) ∨
      (v.stage.isCanary = true ∧ p.red env v = false ∧ p.due env v = false ∧
        (evaluateOne env p (s, acts) v).1 = s)) := by
  cases hc : v.stage.isCanary with
  | false => simp [evaluateOne, reported, hc]
  | true =>
    cases hred : p.red env v with
    | true => simp [evaluateOne, reported, hc, hred]
    | false =>
      cases hdue : p.due env v with
      | true =>
        obtain ⟨nxt, hnxt⟩ := next_of_canary hc
        simp [evaluateOne, reported, hc, hred, hdue, hnxt]
      | false => simp [evaluateOne, reported, hc, hred, hdue]

theorem keyed_evaluateOne (env : Env ρ) (p : Pass ρ) (hs : s.Keyed) (acts : List (Action ρ)) (v : VersionRow) :
    (evaluateOne env p (s, acts) v).1.Keyed := by
  rcases (evaluateOne_cases env p s acts v).2 with ⟨-, h⟩ | ⟨-, -, h⟩ | ⟨-, -, -, nxt, -, h⟩ | ⟨-, -, -, h⟩
  · rw [h]
    exact hs
  · rw [h]
    exact keyed_rollBack p hs v
  · rw [h]
    exact keyed_promote p hs v nxt
  · rw [h]
    exact hs

theorem evaluateOne_aside (env : Env ρ) (p : Pass ρ) (hs : s.Keyed) (acts : List (Action ρ)) {v : VersionRow}
    (hw : v.stage.isCanary = true → w ≠ v.version) :
    Aside (getVersion s w) (getVersion (evaluateOne env p (s, acts) v).1 w) := by
  rcases (evaluateOne_cases env p s acts v).2 with ⟨-, h⟩ | ⟨hc, -, h⟩ | ⟨hc, -, -, nxt, -, h⟩ | ⟨-, -, -, h⟩
  · rw [h]
    exact Aside.refl _
  · rw [h]
    exact (rollBack_row p hs v w).1 (hw hc)
  · rw [h]
    exact (promote_row p v nxt w).1 (hw hc)
  · rw [h]
    exact Aside.refl _

theorem evaluateOne_verdict (env : Env ρ) (p : Pass ρ) (hs : s.Keyed) (acts : List (Action ρ)) {v : VersionRow}
    (hc : v.stage.isCanary = true) (hv : getVersion s v.version = some v) :
    ∃ r, getVersion (evaluateOne env p (s, acts) v).1 v.version = some r ∧ Verdict env p v r := by
  rcases (evaluateOne_cases env p s acts v).2 with ⟨hno, -⟩ | ⟨-, hred, h⟩ | ⟨-, hred, hdue, nxt, hnxt, h⟩ | ⟨-, hred, hdue, h⟩
  · rw [hno] at hc
    cases hc
  · rw [h]
    exact (rollBack_row p hs v v.version).2 hv hred
  · rw [h]
    exact (promote_row p v nxt v.version).2 hv hred hdue hnxt
  · rw [h]
    exact ⟨v, hv, .kept hred hdue⟩

/-! ### A whole pass -/

/-- The rows of a snapshot that are still as the snapshot has them. -/
def Current (s : State) (vs : List VersionRow) : Prop :=
  ∀ v ∈ vs, v.stage.isCanary = true → getVersion s v.version = some v

theorem canary_not_released {st : Stage} (h : st.isCanary = true) : st.released = false := by
  cases st <;> simp [Stage.isCanary, Stage.released] at h ⊢

/-- A canary that is set aside does not change at all. -/
theorem Aside.canary {r : VersionRow} {o : Option VersionRow} (h : Aside (some r) o)
    (hc : r.stage.isCanary = true) : o = some r := by
  rcases h with ⟨h1, -⟩ | ⟨t, t', h1, h2, -, hswap⟩
  · cases h1
  · cases h1
    cases hswap with
    | inl heq => rw [h2, heq]
    | inr hrel =>
      rw [canary_not_released hc] at hrel
      cases hrel.1

theorem current_evaluateOne (env : Env ρ) (p : Pass ρ) (hs : s.Keyed) (acts : List (Action ρ)) {v : VersionRow}
    {vs : List VersionRow} (hnodup : ((v :: vs).map VersionRow.version).Nodup) (h : Current s (v :: vs)) :
    Current (evaluateOne env p (s, acts) v).1 vs := by
  intro x hx hc
  rw [List.map_cons, List.nodup_cons] at hnodup
  have hne : x.version ≠ v.version := fun heq => hnodup.1 (heq ▸ List.mem_map_of_mem hx)
  have haside := evaluateOne_aside (w := x.version) env p hs acts (v := v) fun _ => hne
  rw [h x (List.mem_cons_of_mem _ hx) hc] at haside
  exact haside.canary hc

/-- A pass over a snapshot: the canaries of the snapshot get their verdict and are
set aside from then on, all other rows are set aside throughout. -/
theorem foldl_row (env : Env ρ) (p : Pass ρ) (vs : List VersionRow) (s : State) (acts : List (Action ρ)) (hs : s.Keyed)
    (hnodup : (vs.map VersionRow.version).Nodup) (h : Current s vs) (w : Text) :
    ((∀ v ∈ vs, v.stage.isCanary = true → v.version ≠ w) →
      Aside (getVersion s w) (getVersion (vs.foldl (evaluateOne env p) (s, acts)).1 w)) ∧
    (∀ v ∈ vs, v.stage.isCanary = true → v.version = w →
      ∃ r, Verdict env p v r ∧ Aside (some r) (getVersion (vs.foldl (evaluateOne env p) (s, acts)).1 w)) := by
  induction vs generalizing s acts with
  | nil => exact ⟨fun _ => Aside.refl _, fun v hv => by simp at hv⟩
  | cons v vs ih =>
    have hstep := current_evaluateOne env p hs acts hnodup h
    have hkeyed := keyed_evaluateOne env p hs acts v
    rw [List.map_cons, List.nodup_cons] at hnodup
    have hrest := ih (evaluateOne env p (s, acts) v).1 (evaluateOne env p (s, acts) v).2 hkeyed hnodup.2 hstep
    rw [List.foldl_cons]
    constructor
    · intro hother
      have hfirst := evaluateOne_aside (w := w) env p hs acts (v := v)
        fun hc => (hother v List.mem_cons_self hc).symm
      exact hfirst.trans (hrest.1 fun x hx => hother x (List.mem_cons_of_mem _ hx))
    · intro x hx hc hxw
      cases List.mem_cons.mp hx with
      | inl heq =>
        subst heq
        obtain ⟨r, hr, hverdict⟩ := evaluateOne_verdict env p hs acts hc (h x List.mem_cons_self hc)
        refine ⟨r, hverdict, ?_⟩
        have hlater := hrest.1 fun y hy _ heq => hnodup.1 (by
          rw [hxw, ← heq]
          exact List.mem_map_of_mem hy)
        rw [← hxw, hr] at hlater
        rw [← hxw]
        exact hlater
      | inr hin => exact hrest.2 x hin hc hxw

theorem foldl_keyed (env : Env ρ) (p : Pass ρ) (vs : List VersionRow) (s : State) (acts : List (Action ρ)) (hs : s.Keyed) :
    (vs.foldl (evaluateOne env p) (s, acts)).1.Keyed := by
  induction vs generalizing s acts with
  | nil => exact hs
  | cons v vs ih => exact ih _ _ (keyed_evaluateOne env p hs acts v)

theorem foldl_actions (env : Env ρ) (p : Pass ρ) (vs : List VersionRow) (s : State) (acts : List (Action ρ)) :
    (vs.foldl (evaluateOne env p) (s, acts)).2 = acts ++ vs.flatMap (reported env p) := by
  induction vs generalizing s acts with
  | nil => simp
  | cons v vs ih =>
    rw [List.foldl_cons, ih (evaluateOne env p (s, acts) v).1 (evaluateOne env p (s, acts) v).2,
      (evaluateOne_cases env p s acts v).1]
    simp

omit [Div ρ] [LT ρ] [DecidableLT ρ] [OfScientific ρ] in
theorem current_listVersions (hs : s.Keyed) : Current s (listVersions env s) :=
  fun _ hv _ => hs.getVersion (mem_listVersions.mp hv)

/-- The effect of `evaluate_rollout` on the row of one version. -/
theorem pass_row (env : Env ρ) (p : Pass ρ) (hs : s.Keyed) (w : Text) :
    ((∀ r, getVersion s w = some r → r.stage.isCanary = false) →
      Aside (getVersion s w) (getVersion (evaluateRollout env p s).2 w)) ∧
    (∀ v, getVersion s w = some v → v.stage.isCanary = true →
      ∃ r, Verdict env p v r ∧ Aside (some r) (getVersion (evaluateRollout env p s).2 w)) := by
  have hfold := foldl_row env p (listVersions env s) s [] hs hs.listVersions (current_listVersions hs) w
  constructor
  · intro hno
    apply hfold.1
    intro v hv hc hvw
    have hget := hs.getVersion (mem_listVersions.mp hv)
    rw [hvw] at hget
    rw [hno v hget] at hc
    cases hc
  · intro v hv hc
    have hmem := getVersion_mem hv
    exact hfold.2 v (mem_listVersions.mpr hmem.1) hc hmem.2

theorem pass_actions (p : Pass ρ) (s : State) :
    (evaluateRollout env p s).1 = (listVersions env s).flatMap (reported env p) := by
  simp [evaluateRollout, foldl_actions env]

theorem pass_keyed (p : Pass ρ) (hs : s.Keyed) : (evaluateRollout env p s).2.Keyed := foldl_keyed env p _ _ _ hs

end Evaluate

end AgentWorkflow.ControlPlane.Rollout
