import AgentWorkflow.Desktop.Auth

/-!
# Whether a login lasts

None of the coroutines of the auth store compares the token it was started with to the
current one. So a login is undone by exactly those late answers that write something
else: of an older login, of a logout, of `checkSession`, or a 401 to a request that was
sent with another token.
-/

namespace AgentWorkflow.Desktop.Auth
open AgentWorkflow.Lib AgentWorkflow.Lib.Calendar

/-- The store and the client hold this session. -/
def Holds (session : Session) (s : State) : Prop :=
  s.token = session.token ∧ s.user = some session.user ∧ s.api.client.token = session.token

def Lasts (s : State) : Prop := ∀ session, s.current = some session → Holds session s

/-- What `checkSession` would put into the client once the credentials are complete. -/
def Loads (token : Text) (user : User) (session : Session) : Prop :=
  token ≠ [] → user.customerId ≠ [] → token = session.token

/-- The step writes nothing over the login that counts; a login that completes finds
what its answer wrote. -/
def Harmless (hosted : Bool) (s : State) : Action → Prop
  | .loginFinish k => ∀ session, s.logins[k]? = some (.saved session) → Holds session s
  | .loginAnswer k a => ∀ session email apiKey customerId, s.current = some session →
      s.logins[k]? = some (.requested email) → a = some (apiKey, customerId) →
      session = ⟨apiKey, ⟨email, customerId⟩⟩
  | .logoutAnswer k => s.logouts[k]? = some true → s.current = none
  | .credentialRead k token => ∀ session, s.current = some session → s.checks[k]? = some .reading →
      s.stored.customerId ≠ [] → s.stored.email ≠ [] → Loads token s.stored session
  | .bridgeRead k user => ∀ session token candidate, s.current = some session →
      s.checks[k]? = some (.bridging token candidate) → Loads token (candidate.orElse user) session
  | .validation k v => ∀ session token candidate, s.current = some session →
      s.checks[k]? = some (.validating token candidate) →
      match v with
      | .valid user => session = ⟨token, user.orElse candidate⟩
      | .unreachable => session = ⟨token, candidate⟩
      | .invalid | .unauthorized => False
  | .answer i a => ∀ session, hosted = true → s.current = some session →
      (∃ silent, (Requests.answer i a s.api).2 = .unauthorized silent) → sentToken i s = some session.token
  | _ => True

section Steps
variable {hosted : Bool} {s : State}

theorem lasts_of_current_none (h : s.current = none) : Lasts s := by
  intro session hs
  rw [h] at hs
  cases hs

theorem holds_cleared {session : Session} : ¬ Holds session (clear s) := by
  intro h
  cases h.2.1

theorem answer_client (i : ℕ) (a : Requests.Answer) (s : Requests.State) :
    (Requests.answer i a s).1.client = s.client := by
  obtain h | ⟨r, pc, -, h⟩ := Requests.answer_cases i a s
  · rw [h]
  · rw [h]

theorem start_client (path : Text) (retries silent offline : Bool) (s : Requests.State) :
    (Requests.start path retries silent offline s).client = s.client := by
  unfold Requests.start
  split <;> rfl

theorem wake_client (i : ℕ) (s : Requests.State) : (Requests.wake i s).client = s.client := by
  unfold Requests.wake
  split
  · rfl
  · split <;> rfl

/-- A step that leaves the login that counts, the tokens and the user alone. -/
theorem lasts_congr {s' : State} (hcur : s'.current = s.current) (htoken : s'.token = s.token)
    (huser : s'.user = s.user) (hclient : s'.api.client = s.api.client) : Lasts s' ↔ Lasts s := by
  simp only [Lasts, Holds, hcur, htoken, huser, hclient]

theorem Lasts.with_api (h : Lasts s) {api : Requests.State} (hclient : api.client = s.api.client) :
    Lasts { s with api := api } := by
  intro session hcur
  obtain ⟨h1, h2, h3⟩ := h session hcur
  exact ⟨h1, h2, hclient ▸ h3⟩

theorem loaded_lasts (h : Lasts s) (k : ℕ) (token : Text) (user : User) :
    Lasts (loaded k token user s) ↔ ∀ session, s.current = some session → Loads token user session := by
  unfold loaded
  split
  next hempty =>
    refine iff_of_true ((lasts_congr rfl rfl rfl rfl).mpr h) ?_
    intro session _ htoken huser
    obtain he | he := hempty
    · exact absurd he htoken
    · exact absurd he huser
  next hfull =>
    obtain ⟨htoken, huser⟩ := not_or.mp hfull
    constructor
    · intro hlast session hcur _ _
      exact (hlast session hcur).2.2
    · intro hloads session hcur
      obtain ⟨h1, h2, -⟩ := h session hcur
      exact ⟨h1, h2, hloads session hcur htoken huser⟩

theorem loginAnswer_lasts (h : Lasts s) (k : ℕ) (a : Option (Text × Text)) :
    Lasts (loginAnswer k a s) ↔ Harmless hosted s (.loginAnswer k a) := by
  unfold loginAnswer Harmless
  split
  next email hk =>
    cases a with
    | none => exact iff_of_true ((lasts_congr rfl rfl rfl rfl).mpr h) (by simp)
    | some answer =>
      obtain ⟨apiKey, customerId⟩ := answer
      constructor
      · intro hlast session email' key cid hcur hk' heq
        rw [hk] at hk'
        cases hk'
        cases heq
        obtain ⟨h1, h2, -⟩ := hlast session hcur
        obtain ⟨token, user⟩ := session
        exact Session.mk.injEq .. ▸ ⟨h1.symm, (Option.some.inj h2).symm⟩
      · intro hall session hcur
        rw [hall session email apiKey customerId hcur hk rfl]
        exact ⟨rfl, rfl, rfl⟩
  next hother =>
    refine iff_of_true h ?_
    intro session email apiKey customerId _ hk
    exact absurd hk (hother email)

theorem loginFinish_lasts (h : Lasts s) (k : ℕ) :
    Lasts (loginFinish k s).1 ↔ Harmless hosted s (.loginFinish k) := by
  unfold loginFinish Harmless
  split
  next session hk =>
    constructor
    · intro hlast x hx
      rw [hk] at hx
      cases hx
      exact hlast session rfl
    · intro hall x hx
      cases hx
      exact hall session hk
  next hother => exact iff_of_true h fun session hk => absurd hk (hother session)

theorem logoutAnswer_lasts (h : Lasts s) (k : ℕ) :
    Lasts (logoutAnswer k s).1 ↔ Harmless hosted s (.logoutAnswer k) := by
  unfold logoutAnswer Harmless
  split
  next hk =>
    constructor
    · intro hlast _
      cases hcur : s.current with
      | none => rfl
      | some session => exact absurd (hlast session hcur) holds_cleared
    · intro hnone
      exact lasts_of_current_none (hnone hk)
  next hother => exact iff_of_true h fun hk => absurd hk hother

theorem credentialRead_lasts (h : Lasts s) (k : ℕ) (token : Text) :
    Lasts (credentialRead k token s) ↔ Harmless hosted s (.credentialRead k token) := by
  unfold credentialRead Harmless
  split
  next hk =>
    split
    next hmissing =>
      refine iff_of_true ((lasts_congr rfl rfl rfl rfl).mpr h) ?_
      intro session _ _ hcid hemail
      obtain he | he := hmissing
      · exact absurd he hcid
      · exact absurd he hemail
    next hfull =>
      obtain ⟨hcid, hemail⟩ := not_or.mp hfull
      rw [loaded_lasts h]
      simp [hk, hcid, hemail]
  next hother => exact iff_of_true h fun session _ hk => absurd hk hother

theorem bridgeRead_lasts (h : Lasts s) (k : ℕ) (user : User) :
    Lasts (bridgeRead k user s) ↔ Harmless hosted s (.bridgeRead k user) := by
  unfold bridgeRead Harmless
  split
  next token candidate hk =>
    rw [loaded_lasts h]
    simp only [hk, Option.some.injEq, Check.bridging.injEq]
    constructor
    · rintro hall session _ _ hcur ⟨rfl, rfl⟩
      exact hall session hcur
    · intro hall session hcur
      exact hall session token candidate hcur ⟨rfl, rfl⟩
  next hother => exact iff_of_true h fun session token candidate _ hk => absurd hk (hother token candidate)

theorem restore_lasts (h : Lasts s) (k : ℕ) (token : Text) (user : User) :
    Lasts (restore k token user s) ↔ ∀ session, s.current = some session → session = ⟨token, user⟩ := by
  constructor
  · intro hlast session hcur
    obtain ⟨h1, h2, -⟩ := hlast session hcur
    obtain ⟨t, u⟩ := session
    exact Session.mk.injEq .. ▸ ⟨h1.symm, (Option.some.inj h2).symm⟩
  · intro hall session hcur
    have hsame := hall session hcur
    exact ⟨by rw [hsame]; rfl, by rw [hsame]; rfl, (h session hcur).2.2⟩

theorem validation_lasts (h : Lasts s) (k : ℕ) (v : Validation) :
    Lasts (validation k v s).1 ↔ Harmless hosted s (.validation k v) := by
  unfold validation Harmless
  split
  next token candidate hk =>
    have hrejected : Lasts { clear s with checks := s.checks.set k .finished } ↔
        ∀ session, s.current = some session → False := by
      constructor
      · intro hlast session hcur
        exact holds_cleared (hlast session hcur)
      · intro hall session hcur
        exact absurd hcur (hall session)
    have hone : ∀ P : Session → Text → User → Prop,
        (∀ session, s.current = some session → P session token candidate) ↔
          ∀ session t c, s.current = some session → s.checks[k]? = some (.validating t c) → P session t c := by
      intro P
      constructor
      · intro hall session t c hcur hk'
        rw [hk] at hk'
        cases hk'
        exact hall session hcur
      · intro hall session hcur
        exact hall session token candidate hcur hk
    cases v with
    | valid user =>
      dsimp only
      rw [restore_lasts h, hone fun session t c => session = ⟨t, user.orElse c⟩]
    | unreachable =>
      dsimp only
      rw [restore_lasts h, hone fun session t c => session = ⟨t, c⟩]
    | invalid =>
      dsimp only
      rw [hrejected, hone fun _ _ _ => False]
    | unauthorized =>
      dsimp only
      rw [hrejected, hone fun _ _ _ => False]
  next hother => exact iff_of_true h fun session token candidate _ hk => absurd hk (hother token candidate)

theorem unauthorized_lasts (h : Lasts s) (silent : Bool) :
    Lasts (unauthorized hosted silent s).1 ↔ (hosted = true → s.current = none) := by
  unfold unauthorized
  split
  next hoff =>
    apply iff_of_true h
    intro hon
    rw [hoff] at hon
    cases hon
  next hon =>
    have hcleared : ∀ c : Bool, Lasts { clear s with staleClaimed := c } ↔ (hosted = true → s.current = none) := by
      intro c
      constructor
      · intro hlast _
        cases hcur : s.current with
        | none => rfl
        | some session => exact absurd (hlast session hcur) holds_cleared
      · intro hnone
        exact lasts_of_current_none (hnone (by simpa using hon))
    split
    · exact hcleared s.staleClaimed
    · exact hcleared true

theorem answer_lasts (h : Lasts s) (i : ℕ) (a : Requests.Answer) :
    Lasts (answer hosted i a s).1 ↔ Harmless hosted s (.answer i a) := by
  unfold answer Harmless
  dsimp only
  have hclient := answer_client i a s.api
  have hquiet : Lasts { s with api := (Requests.answer i a s.api).1 } := h.with_api hclient
  cases hev : (Requests.answer i a s.api).2 with
  | quiet | settled =>
    refine iff_of_true hquiet ?_
    rintro session _ _ ⟨silent, hs⟩
    cases hs
  | unauthorized silent =>
    dsimp only
    have hkept : Lasts { s with
        api := (Requests.answer i a s.api).1
        current := if s.current.map Session.token = sentToken i s then none else s.current } := by
      intro session hcur
      dsimp only at hcur
      split at hcur
      · cases hcur
      · obtain ⟨h1, h2, h3⟩ := h session hcur
        exact ⟨h1, h2, hclient ▸ h3⟩
    rw [unauthorized_lasts hkept]
    dsimp only
    constructor
    · intro hnone session hon hcur _
      have hended := hnone hon
      split at hended
      next heq =>
        rw [hcur, Option.map_some] at heq
        exact heq.symm
      · rw [hcur] at hended
        cases hended
    · intro hall hon
      split
      · rfl
      next hne =>
        cases hcur : s.current with
        | none => rfl
        | some session =>
          rw [hcur, Option.map_some] at hne
          exact absurd (hall session hon hcur ⟨silent, rfl⟩).symm hne

theorem step_lasts (h : Lasts s) (a : Action) : Lasts (step hosted s a).1 ↔ Harmless hosted s a := by
  cases a with
  | login email =>
    apply iff_of_true _ trivial
    simp only [step]
    split
    · exact lasts_of_current_none rfl
    · exact h
  | loginAnswer k a => exact loginAnswer_lasts h k a
  | credentialSaved k =>
    apply iff_of_true _ trivial
    simp only [step, credentialSaved]
    split
    · exact (lasts_congr rfl rfl rfl rfl).mpr h
    · exact h
  | loginFinish k => exact loginFinish_lasts h k
  | logout =>
    apply iff_of_true _ trivial
    simp only [step]
    split
    · exact lasts_of_current_none rfl
    · exact lasts_of_current_none rfl
  | logoutAnswer k => exact logoutAnswer_lasts h k
  | clearAuth => exact iff_of_true (lasts_of_current_none rfl) trivial
  | checkSession =>
    apply iff_of_true _ trivial
    simp only [step]
    split
    · exact (lasts_congr rfl rfl rfl rfl).mpr h
    · exact h
  | credentialRead k token => exact credentialRead_lasts h k token
  | bridgeRead k user => exact bridgeRead_lasts h k user
  | validation k v => exact validation_lasts h k v
  | request path retries silent offline =>
    exact iff_of_true (h.with_api (start_client path retries silent offline s.api)) trivial
  | answer i a => exact answer_lasts h i a
  | wake i => exact iff_of_true (h.with_api (wake_client i s.api)) trivial
  | staleExpires => exact iff_of_true ((lasts_congr rfl rfl rfl rfl).mpr h) trivial

end Steps

def sampleBase : Text := "https://x.example".toList

/-- The session of an earlier token is over, a new login completes, and the answer to a
request of the earlier one arrives. -/
def sampleLate : List Action :=
  [.login "a".toList, .loginAnswer 0 (some ("old".toList, "1".toList)), .credentialSaved 0, .loginFinish 0,
    .request "/v1/tasks".toList true true false, .logout, .logoutAnswer 0,
    .login "a".toList, .loginAnswer 1 (some ("new".toList, "1".toList)), .credentialSaved 1, .loginFinish 1]

/-- A session check that was started before a login reads the credential an earlier
session left, and puts it into the client after the login has completed. -/
def sampleCheck : List Action :=
  [.checkSession, .login "b".toList, .loginAnswer 0 (some ("new".toList, "2".toList)), .credentialSaved 0,
    .loginFinish 0, .credentialRead 0 "old".toList]

end AgentWorkflow.Desktop.Auth
