import AgentWorkflow.Desktop.Auth

/-!
# The session that outlives the application (`src/stores/auth.ts`)

The token is kept in the secure store, the customer id and e-mail in localStorage.
`saveCredentials` and `clearAuth` write them one after the other, whatever became of
the credential operation, and the process may stop in between. `issued` holds what
the logins since the last completed logout were answered; the code has no such field.
-/

namespace AgentWorkflow.Desktop.AuthPersistence
open AgentWorkflow.Lib AgentWorkflow.Lib.Calendar
open AgentWorkflow.Desktop.Auth (User Session Validation orElse)

structure State where
  -- `auth_token` in the secure store
  credential : Option Text
  -- localStorage: `awp_customer_id` and `awp_email`, empty when absent
  stored : User
  -- what `bridge.get_auth` reads from `auth.json`
  metadata : User
  -- `token.value` and `user.value`, gone with the process
  token : Text
  user : Option User
  issued : List (Text × Text)
deriving DecidableEq

def State.init (metadata : User) : State :=
  { credential := none, stored := ⟨[], []⟩, metadata, token := [], user := none, issued := [] }

def quit (s : State) : State := { s with token := [], user := none }

/-- Runs the steps; the process stops after the first `n` when `stop` is `some n`. -/
def runUntil (stop : Option ℕ) (steps : List (State → State)) (s : State) : State :=
  match stop with
  | none => steps.foldl (fun s f => f s) s
  | some n => quit ((steps.take n).foldl (fun s f => f s) s)

def setCustomerId (id : Text) (s : State) : State := { s with stored := { s.stored with customerId := id } }

def setEmail (email : Text) (s : State) : State := { s with stored := { s.stored with email } }

/-- `setCredential`, whose failure is only returned. -/
def setCredential (token : Text) (saved : Bool) (s : State) : State :=
  if saved then { s with credential := some token } else s

def saveCredentials (session : Session) (saved : Bool) : List (State → State) :=
  [setCredential session.token saved, setCustomerId session.user.customerId, setEmail session.user.email]

/-- `login` and `register` once the server has answered; `none` is an error. -/
def signIn (email : Text) (answer : Option (Text × Text)) (saved : Bool) (stop : Option ℕ) (s : State) : State :=
  match answer with
  | none => s
  | some (apiKey, customerId) =>
    runUntil stop (saveCredentials ⟨apiKey, ⟨email, customerId⟩⟩ saved)
      { s with token := apiKey, user := some ⟨email, customerId⟩, issued := (apiKey, customerId) :: s.issued }

/-- `clearAuth`. `deleted`: the credential store carried out `deleteCredential`, which
nothing waits for, before the process stopped or the next operation began. -/
def clearAuth (deleted : Bool) (stop : Option ℕ) (s : State) : State :=
  let s := { quit s with credential := if deleted then none else s.credential }
  let s := runUntil stop [setCustomerId [], setEmail []] s
  if stop = none then { s with issued := [] } else s

/-- What `checkSession` meets on its way. -/
structure CheckEnv where
  credentialRead : Bool
  metadataRead : Bool
  -- 403 and network errors count as unreachable
  validation : Validation
  deleted : Bool
  stop : Option ℕ
deriving DecidableEq

def candidateToken (env : CheckEnv) (s : State) : Text :=
  if env.credentialRead then s.credential.getD [] else []

def candidateUser (env : CheckEnv) (s : State) : User :=
  if (s.stored.customerId = [] ∨ s.stored.email = []) ∧ env.metadataRead then s.stored.orElse s.metadata
  else s.stored

def loadCredentials (env : CheckEnv) (s : State) : Option (Text × User) :=
  if candidateToken env s = [] ∨ (candidateUser env s).customerId = [] then none
  else some (candidateToken env s, candidateUser env s)

/-- The session `checkSession` restores, or whether it clears the credentials. -/
inductive Outcome where
  | none
  | restored (token : Text) (user : User)
  | cleared
deriving DecidableEq

section Hosted
variable (hosted : Bool)

def checkOutcome (env : CheckEnv) (s : State) : Outcome :=
  if !hosted || decide (s.token ≠ []) then .none
  else match loadCredentials env s with
    | none => .none
    | some (token, candidate) => match env.validation with
      | .valid user => .restored token (user.orElse candidate)
      | .unreachable => .restored token candidate
      | .invalid | .unauthorized => .cleared

def checkSession (env : CheckEnv) (s : State) : State :=
  match checkOutcome hosted env s with
  | .none => s
  | .restored token user => { s with token, user := some user, stored := user }
  | .cleared => clearAuth env.deleted env.stop s

inductive Op where
  | login (email : Text) (answer : Option (Text × Text)) (saved : Bool) (stop : Option ℕ)
  | register (email : Text) (answer : Option (Text × Text)) (saved : Bool) (stop : Option ℕ)
  | logout (deleted : Bool) (stop : Option ℕ)
  | clearAuth (deleted : Bool) (stop : Option ℕ)
  | restart
  | checkSession (env : CheckEnv)
deriving DecidableEq

def step (s : State) : Op → State
  | .login email answer saved stop => if hosted then signIn email answer saved stop s else s
  | .register email answer saved stop => if hosted then signIn email answer saved stop s else s
  | .logout deleted stop | .clearAuth deleted stop => clearAuth deleted stop s
  | .restart => quit s
  | .checkSession env => checkSession hosted env s

def machine : Machine State Op Unit := ⟨fun s op => (step hosted s op, ())⟩

end Hosted

/-! ### Which sessions are restored -/

/-- The customer id `loadCredentials` finds when every read succeeds. -/
def found (s : State) : Text := orElse s.stored.customerId s.metadata.customerId

/-- Token and customer id do not make a session, or one login since the last
completed logout was answered both. -/
def Paired (s : State) (token customerId : Text) : Prop :=
  token = [] ∨ customerId = [] ∨ (token, customerId) ∈ s.issued

/-- A valid answer names no customer or the one the token was issued to. -/
def Honest (s : State) (env : CheckEnv) : Prop :=
  ∀ user, env.validation = .valid user → ∀ token ∈ s.credential, Paired s token user.customerId

/-- Whatever a restarted application meets, the session it restores is one login's. -/
def OneLogin (hosted : Bool) (s : State) : Prop :=
  ∀ env token user, Honest s env → checkOutcome hosted env (quit s) = .restored token user →
    (token, user.customerId) ∈ s.issued

/-- A login does not leave a token beside a customer id of another login: it stops
after the credential write only where no other customer id is found, and its
credential write fails only where no other token is left. -/
def SavesTogether (apiKey customerId : Text) (saved : Bool) (stop : Option ℕ) (s : State) : Prop :=
  let s' := { s with issued := (apiKey, customerId) :: s.issued }
  if stop = some 0 then True
  else if stop = some 1 then saved = true → Paired s' apiKey (found s)
  else if saved = false then ∀ old ∈ s.credential, Paired s' old (orElse customerId s.metadata.customerId)
  else customerId = [] → Paired s' apiKey s.metadata.customerId

/-- A token that outlives the customer id finds none in `auth.json` to go with it. -/
def ClearsTogether (deleted : Bool) (stop : Option ℕ) (s : State) : Prop :=
  deleted = false → ∀ old ∈ s.credential, match stop with
    | none => old = [] ∨ s.metadata.customerId = []
    | some 0 => True
    | some _ => Paired s old s.metadata.customerId

def Together (hosted : Bool) (s : State) : Op → Prop
  | .login _ (some (apiKey, customerId)) saved stop => hosted = true → SavesTogether apiKey customerId saved stop s
  | .register _ (some (apiKey, customerId)) saved stop => hosted = true → SavesTogether apiKey customerId saved stop s
  | .logout deleted stop | .clearAuth deleted stop => hosted = true → ClearsTogether deleted stop s
  | .checkSession env => match checkOutcome hosted env s with
    | .none => True
    | .restored _ _ => Honest s env
    | .cleared => ClearsTogether env.deleted env.stop s
  | _ => True

/-- The token in the store goes with the customer id that is found. -/
def Sound (s : State) : Prop := ∀ token ∈ s.credential, Paired s token (found s)

theorem Paired.mem {s : State} {token customerId : Text} (h : Paired s token customerId) (ht : token ≠ [])
    (hc : customerId ≠ []) : (token, customerId) ∈ s.issued := by
  rcases h with h | h | h
  · exact absurd h ht
  · exact absurd h hc
  · exact h

theorem Paired.mono {s s' : State} {token customerId : Text} (h : Paired s token customerId)
    (hs : ∀ p ∈ s.issued, p ∈ s'.issued) : Paired s' token customerId := by
  rcases h with h | h | h
  · exact Or.inl h
  · exact Or.inr (Or.inl h)
  · exact Or.inr (Or.inr (hs _ h))

theorem orElse_of_ne {a b : Text} (h : a ≠ []) : orElse a b = a := if_neg h

theorem orElse_nil (b : Text) : orElse [] b = b := if_pos rfl

/-! ### What `loadCredentials` and `checkSession` find -/

theorem mem_of_candidateToken {env : CheckEnv} {s : State} (h : candidateToken env s ≠ []) :
    candidateToken env s ∈ s.credential := by
  unfold candidateToken at h ⊢
  cases hc : s.credential with
  | none => simp [hc] at h
  | some t => cases hr : env.credentialRead with
    | false => simp [hr] at h
    | true => simp

theorem candidateUser_found {env : CheckEnv} {s : State} (h : (candidateUser env s).customerId ≠ []) :
    (candidateUser env s).customerId = found s := by
  by_cases hmeta : (s.stored.customerId = [] ∨ s.stored.email = []) ∧ env.metadataRead = true
  · rw [candidateUser, if_pos hmeta]
    rfl
  · rw [candidateUser, if_neg hmeta] at h ⊢
    rw [found, orElse_of_ne h]

theorem candidateUser_metadata {env : CheckEnv} (henv : env.metadataRead = true) (s : State) :
    (candidateUser env s).customerId = found s := by
  by_cases h : s.stored.customerId = []
  · rw [candidateUser, if_pos ⟨Or.inl h, henv⟩]
    rfl
  · have hne : (candidateUser env s).customerId ≠ [] := by
      unfold candidateUser
      split
      · rwa [User.orElse, orElse_of_ne h]
      · exact h
    exact candidateUser_found hne

theorem loadCredentials_some {env : CheckEnv} {s : State} {token : Text} {user : User}
    (h : loadCredentials env s = some (token, user)) :
    token ∈ s.credential ∧ token ≠ [] ∧ user.customerId ≠ [] ∧ user.customerId = found s := by
  unfold loadCredentials at h
  split at h
  · simp at h
  · rename_i hne
    rw [not_or] at hne
    obtain ⟨rfl, rfl⟩ := Prod.mk.inj (Option.some.inj h)
    exact ⟨mem_of_candidateToken hne.1, hne.1, hne.2, candidateUser_found hne.2⟩

theorem checkOutcome_restored {hosted : Bool} {env : CheckEnv} {s : State} {token : Text} {user : User}
    (h : checkOutcome hosted env s = .restored token user) : ∃ candidate,
      loadCredentials env s = some (token, candidate) ∧
        ((env.validation = .unreachable ∧ user = candidate) ∨
          ∃ answer, env.validation = .valid answer ∧ user = answer.orElse candidate) := by
  unfold checkOutcome at h
  split at h
  · simp at h
  · cases hl : loadCredentials env s with
    | none => simp [hl] at h
    | some p =>
      obtain ⟨t, candidate⟩ := p
      simp only [hl] at h
      cases hv : env.validation with
      | valid answer =>
        simp only [hv, Outcome.restored.injEq] at h
        obtain ⟨rfl, rfl⟩ := h
        exact ⟨candidate, rfl, Or.inr ⟨answer, rfl, rfl⟩⟩
      | unreachable =>
        simp only [hv, Outcome.restored.injEq] at h
        obtain ⟨rfl, rfl⟩ := h
        exact ⟨candidate, rfl, Or.inl ⟨rfl, rfl⟩⟩
      | invalid => simp [hv] at h
      | unauthorized => simp [hv] at h

/-- What an honest `checkSession` restores was issued together. -/
theorem Sound.restored {hosted : Bool} {env : CheckEnv} {s : State} {token : Text} {user : User}
    (h : Sound s) (hhonest : Honest s env) (hr : checkOutcome hosted env s = .restored token user) :
    token ∈ s.credential ∧ token ≠ [] ∧ user.customerId ≠ [] ∧ (token, user.customerId) ∈ s.issued := by
  obtain ⟨candidate, hload, hv⟩ := checkOutcome_restored hr
  obtain ⟨hmem, htoken, hcust, hfound⟩ := loadCredentials_some hload
  have hpair : (token, candidate.customerId) ∈ s.issued := by
    apply Paired.mem _ htoken hcust
    rw [hfound]
    exact h token hmem
  rcases hv with ⟨-, rfl⟩ | ⟨answer, hv, rfl⟩
  · exact ⟨hmem, htoken, hcust, hpair⟩
  · refine ⟨hmem, htoken, ?_⟩
    by_cases hanswer : answer.customerId = []
    · have hid : (answer.orElse candidate).customerId = candidate.customerId := by
        rw [User.orElse, hanswer, orElse_nil]
      rw [hid]
      exact ⟨hcust, hpair⟩
    · have hid : (answer.orElse candidate).customerId = answer.customerId := by
        rw [User.orElse, orElse_of_ne hanswer]
      rw [hid]
      exact ⟨hanswer, (hhonest answer hv token hmem).mem htoken hanswer⟩

theorem oneLogin_of_sound (hosted : Bool) {s : State} (h : Sound s) : OneLogin hosted s := by
  intro env token user hhonest hr
  have hq : Sound (quit s) := h
  have hhonest' : Honest (quit s) env := hhonest
  exact (hq.restored hhonest' hr).2.2.2

/-- With no answer from the server the stored pair is what is restored. -/
theorem sound_of_oneLogin {s : State} (h : OneLogin true s) : Sound s := by
  intro token htoken
  by_cases ht : token = []
  · exact Or.inl ht
  · by_cases hf : found s = []
    · exact Or.inr (Or.inl hf)
    · refine Or.inr (Or.inr ?_)
      let env : CheckEnv := ⟨true, true, .unreachable, false, none⟩
      have huser : (candidateUser env (quit s)).customerId = found s := candidateUser_metadata rfl (quit s)
      have hcand : candidateToken env (quit s) = token := by
        rw [candidateToken, if_pos rfl, quit, Option.mem_def.mp htoken]
        rfl
      have hload : loadCredentials env (quit s) = some (token, candidateUser env (quit s)) := by
        rw [loadCredentials, hcand, huser, if_neg]
        rw [not_or]
        exact ⟨ht, hf⟩
      have hrestored : checkOutcome true env (quit s) = .restored token (candidateUser env (quit s)) := by
        have hmemory : (quit s).token = [] := rfl
        unfold checkOutcome
        rw [hload, hmemory]
        rfl
      rw [← huser]
      apply h env token _ _ hrestored
      intro user hv
      simp [env] at hv

/-! ### The operations -/

theorem sound_congr {s s' : State} (hc : s'.credential = s.credential) (hf : found s' = found s)
    (hi : ∀ p ∈ s.issued, p ∈ s'.issued) (h : Sound s) : Sound s' := by
  intro token ht
  rw [hc] at ht
  rw [hf]
  exact (h token ht).mono hi

theorem found_setEmail (email : Text) (s : State) : found (setEmail email s) = found s := rfl

theorem found_setCustomerId (id : Text) (s : State) :
    found (setCustomerId id s) = orElse id s.metadata.customerId := rfl

/-- The state after `saveCredentials`, by the place where the process stopped. -/
structure Signed (apiKey customerId : Text) (saved : Bool) (stop : Option ℕ) (s s' : State) : Prop where
  issued : s'.issued = (apiKey, customerId) :: s.issued
  credential : s'.credential = if saved = true ∧ stop ≠ some 0 then some apiKey else s.credential
  found : found s' = if stop = some 0 ∨ stop = some 1 then found s else orElse customerId s.metadata.customerId

theorem signed_signIn (email apiKey customerId : Text) (saved : Bool) (stop : Option ℕ) (s : State) :
    Signed apiKey customerId saved stop s (signIn email (some (apiKey, customerId)) saved stop s) := by
  rcases stop with _ | _ | _ | _ | n
  · cases saved <;> exact ⟨rfl, rfl, rfl⟩
  · cases saved <;> exact ⟨rfl, rfl, rfl⟩
  · cases saved <;> exact ⟨rfl, rfl, rfl⟩
  · cases saved <;> exact ⟨rfl, rfl, rfl⟩
  · have htake : (saveCredentials ⟨apiKey, ⟨email, customerId⟩⟩ saved).take (n + 3) =
        saveCredentials ⟨apiKey, ⟨email, customerId⟩⟩ saved := by
      rw [List.take_of_length_le]
      simp [saveCredentials]
    simp only [signIn, runUntil, htake]
    cases saved <;> exact ⟨rfl, rfl, rfl⟩

theorem Sound.signIn {s : State} (h : Sound s) (email apiKey customerId : Text) (saved : Bool) (stop : Option ℕ) :
    Sound (signIn email (some (apiKey, customerId)) saved stop s) ↔ SavesTogether apiKey customerId saved stop s := by
  obtain ⟨hi, hc, hf⟩ := signed_signIn email apiKey customerId saved stop s
  have hold : ∀ p ∈ s.issued, p ∈ (AuthPersistence.signIn email (some (apiKey, customerId)) saved stop s).issued := by
    intro p hp
    rw [hi]
    exact List.mem_cons_of_mem _ hp
  have hpaired : ∀ t c, Paired (AuthPersistence.signIn email (some (apiKey, customerId)) saved stop s) t c ↔
      Paired { s with issued := (apiKey, customerId) :: s.issued } t c := by
    intro t c
    rw [Paired, Paired, hi]
  unfold SavesTogether
  dsimp only
  split_ifs with h0 h1 hs
  · subst h0
    exact iff_of_true (sound_congr (by simpa using hc) (by simpa using hf) hold h) trivial
  · subst h1
    cases saved with
    | false => exact iff_of_true (sound_congr (by simpa using hc) (by simpa using hf) hold h) (by simp)
    | true =>
      simp only [ne_eq, Option.some.injEq, one_ne_zero, not_false_eq_true, and_self, ite_true, or_true] at hc hf
      simp [Sound, hc, hf, hpaired]
  · subst hs
    rw [if_neg (by simp)] at hc
    rw [if_neg (not_or.mpr ⟨h0, h1⟩)] at hf
    simp [Sound, hc, hf, hpaired]
  · have hs' : saved = true := by simpa using hs
    rw [if_pos ⟨hs', h0⟩] at hc
    rw [if_neg (not_or.mpr ⟨h0, h1⟩)] at hf
    have hsound : Sound (AuthPersistence.signIn email (some (apiKey, customerId)) saved stop s) ↔
        Paired { s with issued := (apiKey, customerId) :: s.issued } apiKey
          (orElse customerId s.metadata.customerId) := by
      simp [Sound, hc, hf, hpaired]
    rw [hsound]
    by_cases hcust : customerId = []
    · rw [hcust, orElse_nil]
      simp
    · rw [orElse_of_ne hcust]
      exact iff_of_true (Or.inr (Or.inr (List.mem_cons_self ..))) (fun h => absurd h hcust)

/-- The state after `clearAuth`, by the place where the process stopped. -/
structure Cleared (deleted : Bool) (stop : Option ℕ) (s s' : State) : Prop where
  issued : s'.issued = if stop = none then [] else s.issued
  credential : s'.credential = if deleted then none else s.credential
  found : found s' = if stop = some 0 then found s else s.metadata.customerId

theorem cleared_clearAuth (deleted : Bool) (stop : Option ℕ) (s : State) :
    Cleared deleted stop s (clearAuth deleted stop s) := by
  rcases stop with _ | _ | _ | n
  · cases deleted <;> exact ⟨rfl, rfl, rfl⟩
  · cases deleted <;> exact ⟨rfl, rfl, rfl⟩
  · cases deleted <;> exact ⟨rfl, rfl, rfl⟩
  · have htake : [setCustomerId [], setEmail []].take (n + 2) = [setCustomerId [], setEmail []] :=
      List.take_of_length_le (by simp)
    simp only [clearAuth, runUntil, htake]
    cases deleted <;> exact ⟨rfl, rfl, rfl⟩

theorem Sound.clearAuth {s : State} (h : Sound s) (deleted : Bool) (stop : Option ℕ) :
    Sound (clearAuth deleted stop s) ↔ ClearsTogether deleted stop s := by
  obtain ⟨hi, hc, hf⟩ := cleared_clearAuth deleted stop s
  cases deleted with
  | true => simp [Sound, hc, ClearsTogether]
  | false =>
    rw [if_neg (by simp)] at hc
    rcases stop with _ | _ | n
    · simp only [reduceCtorEq, ite_false, ite_true] at hi hf
      simp [Sound, hc, hf, ClearsTogether, Paired, hi]
    · simp only [reduceCtorEq, ite_false, ite_true] at hi hf
      apply iff_of_true
      · exact sound_congr hc hf (fun p hp => by rwa [hi]) h
      · intro _ old _
        trivial
    · simp only [reduceCtorEq, ite_false, Option.some.injEq, Nat.add_eq_zero_iff, one_ne_zero, and_false] at hi hf
      simp [Sound, hc, hf, ClearsTogether, Paired, hi]

theorem Sound.checkSession {s : State} (h : Sound s) (hosted : Bool) (env : CheckEnv) :
    Sound (checkSession hosted env s) ↔ Together hosted s (.checkSession env) := by
  unfold AuthPersistence.checkSession
  simp only [Together]
  cases hout : checkOutcome hosted env s with
  | none => exact iff_of_true h trivial
  | cleared => exact h.clearAuth env.deleted env.stop
  | restored token user =>
    obtain ⟨candidate, hload, hv⟩ := checkOutcome_restored hout
    obtain ⟨hmem, htoken, hcust, -⟩ := loadCredentials_some hload
    constructor
    · intro hs answer hanswer old hold
      rw [Option.mem_def.mp hmem] at hold
      obtain rfl := Option.some.inj hold
      rcases hv with ⟨hv, -⟩ | ⟨a, hv, rfl⟩
      · rw [hanswer] at hv
        simp at hv
      · rw [hanswer] at hv
        obtain rfl := Validation.valid.inj hv
        by_cases hid : answer.customerId = []
        · exact Or.inr (Or.inl hid)
        · have hpair := hs token hmem
          simp only [found, User.orElse, orElse_of_ne hid] at hpair
          exact hpair
    · intro hhonest old hold
      obtain ⟨-, -, huser, hin⟩ := h.restored hhonest hout
      have hold' : old ∈ s.credential := hold
      rw [Option.mem_def.mp hmem] at hold'
      obtain rfl := Option.some.inj hold'
      refine Or.inr (Or.inr ?_)
      rw [found, orElse_of_ne huser]
      exact hin

/-! ### Runs -/

theorem sound_init (metadata : User) : Sound (State.init metadata) := by
  intro token ht
  simp [State.init] at ht

theorem Sound.step {s : State} (h : Sound s) (op : Op) : Sound (step true s op) ↔ Together true s op := by
  cases op with
  | login email answer saved stop =>
    rcases answer with _ | ⟨apiKey, customerId⟩
    · exact iff_of_true h trivial
    · simpa [AuthPersistence.step, Together] using h.signIn email apiKey customerId saved stop
  | register email answer saved stop =>
    rcases answer with _ | ⟨apiKey, customerId⟩
    · exact iff_of_true h trivial
    · simpa [AuthPersistence.step, Together] using h.signIn email apiKey customerId saved stop
  | logout deleted stop => simpa [AuthPersistence.step, Together] using h.clearAuth deleted stop
  | clearAuth deleted stop => simpa [AuthPersistence.step, Together] using h.clearAuth deleted stop
  | restart => exact iff_of_true h trivial
  | checkSession env => exact h.checkSession true env

theorem together_of_not_hosted (s : State) (op : Op) : Together false s op := by
  cases op with
  | login email answer saved stop =>
    rcases answer with _ | p
    · trivial
    · simp [Together]
  | register email answer saved stop =>
    rcases answer with _ | p
    · trivial
    · simp [Together]
  | logout deleted stop => simp [Together]
  | clearAuth deleted stop => simp [Together]
  | restart => trivial
  | checkSession env => simp [Together, checkOutcome]

theorem oneLogin_of_not_hosted (s : State) : OneLogin false s := by
  intro env token user _ hr
  simp [checkOutcome] at hr

theorem persisted_session_exact (hosted : Bool) (metadata : User) (ops : List Op) :
    (∀ before after, ops = before ++ after →
        OneLogin hosted ((machine hosted).run (State.init metadata) before)) ↔
      ∀ before op after, ops = before ++ op :: after →
        Together hosted ((machine hosted).run (State.init metadata) before) op := by
  cases hosted with
  | false =>
    apply iff_of_true
    · intro before after _
      exact oneLogin_of_not_hosted _
    · intro before op after _
      exact together_of_not_hosted _ op
  | true =>
    refine (machine true).run_exact (sound_init metadata) (fun _ => oneLogin_of_sound true) ?_ ?_ ops
    · intro s op hs hk
      exact (hs.step op).mpr hk
    · intro s op hs hg
      exact (hs.step op).mp (sound_of_oneLogin hg)

/-- The second login's credential write fails: the first one's token stays, beside
the second one's customer id. -/
theorem failed_write_mixes_logins :
    ¬ OneLogin true ((machine true).run (State.init ⟨[], []⟩)
      [.login "a@x".toList (some ("token-a".toList, "a".toList)) true none,
       .login "b@x".toList (some ("token-b".toList, "b".toList)) false none]) := by
  intro h
  have hmem := h ⟨true, true, .unreachable, false, none⟩ "token-a".toList ⟨"b@x".toList, "b".toList⟩
    (fun user hv => by simp at hv) (by decide +kernel)
  exact absurd hmem (by decide +kernel)

end AgentWorkflow.Desktop.AuthPersistence
