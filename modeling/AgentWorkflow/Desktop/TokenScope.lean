import AgentWorkflow.Desktop.ApiClient

/-!
# Where bearer tokens go

A change of the base URL clears the two secrets, so a secret the client holds was set
under the current base URL, or before any was configured. The URL of a request is
older than that when the request sleeps between two attempts.
-/

namespace AgentWorkflow.Desktop.Requests
open AgentWorkflow.Lib AgentWorkflow.Lib.Calendar

/-- What the attempt carries goes to the base URL under which it was set. -/
def Sent.AtHome (a : Sent) : Prop :=
  (a.headers.authorization ≠ none → a.base = a.tokenBase) ∧ (a.headers.csrf ≠ none → a.base = a.csrfBase)

def AllAtHome (s : State) : Prop := ∀ a ∈ s.sent, a.AtHome

/-- A secret that is held was set with a base URL configured, and the one configured
now is still `base`. -/
def Current (s : State) (base : Text) : Prop :=
  (s.client.token ≠ [] → s.tokenBase ≠ [] ∧ s.client.baseUrl = base) ∧
    (s.client.csrfToken ≠ [] → s.csrfBase ≠ [] ∧ s.client.baseUrl = base)

/-- The attempt a step makes, if it makes one, finds the secrets current. -/
def Careful (s : State) : Action → Prop
  | .request _ _ _ offline => offline = false → s.client.baseUrl ≠ [] → Current s s.client.baseUrl
  | .wake i => ∀ r, s.requests[i]? = some r → r.pc = .sleeping → Current s r.base
  | _ => True

structure Sound (s : State) : Prop where
  token : s.client.token ≠ [] → s.tokenBase = s.client.baseUrl ∨ s.tokenBase = []
  csrf : s.client.csrfToken ≠ [] → s.csrfBase = s.client.baseUrl ∨ s.csrfBase = []
  bases : ∀ r ∈ s.requests, r.base ≠ []

theorem sound_init : Sound State.init := by
  constructor
  · intro h
    exact absurd rfl h
  · intro h
    exact absurd rfl h
  · intro r hr
    cases hr

theorem carries_token (c : ApiClient) : c.buildHeaders.authorization ≠ none ↔ c.token ≠ [] := by
  unfold ApiClient.buildHeaders
  split <;> simp_all

theorem carries_csrf (c : ApiClient) : c.buildHeaders.csrf ≠ none ↔ c.csrfToken ≠ [] := by
  unfold ApiClient.buildHeaders
  dsimp only
  split <;> simp_all

/-- One attempt goes home exactly when the secrets are current. -/
theorem attempt_atHome {s : State} (h : Sound s) {r : Request} (hbase : r.base ≠ []) :
    (attempt s r).AtHome ↔ Current s r.base := by
  have hsecret : ∀ own : Text, own = s.client.baseUrl ∨ own = [] →
      (r.base = own ↔ own ≠ [] ∧ s.client.baseUrl = r.base) := by
    intro own hown
    obtain rfl | rfl := hown
    · constructor
      · intro heq
        exact ⟨heq ▸ hbase, heq.symm⟩
      · intro heq
        exact heq.2.symm
    · simp [hbase]
  simp only [Sent.AtHome, attempt, Current, carries_token, carries_csrf]
  apply and_congr
  · exact forall_congr' fun ht => hsecret s.tokenBase (h.token ht)
  · exact forall_congr' fun ht => hsecret s.csrfBase (h.csrf ht)

/-! ### One step -/

theorem Sound.set_request {s : State} (h : Sound s) {i : ℕ} {r : Request} (hr : r.base ≠ []) {sent : List Sent} :
    Sound { s with requests := s.requests.set i r, sent := sent } := by
  refine ⟨h.token, h.csrf, ?_⟩
  intro x hx
  cases List.mem_or_eq_of_mem_set hx with
  | inl hmem => exact h.bases x hmem
  | inr heq => exact heq ▸ hr

theorem setBaseUrl_cases (normalize : Text → Option Text) (url : Text) (c : ApiClient) :
    ((c.setBaseUrl normalize url).token = [] ∧ (c.setBaseUrl normalize url).csrfToken = []) ∨
      ((c.setBaseUrl normalize url).token = c.token ∧ (c.setBaseUrl normalize url).csrfToken = c.csrfToken ∧
        (c.baseUrl = [] ∨ (c.setBaseUrl normalize url).baseUrl = c.baseUrl)) := by
  unfold ApiClient.setBaseUrl
  split
  · exact Or.inl ⟨rfl, rfl⟩
  next normalized _ =>
    split
    · exact Or.inl ⟨rfl, rfl⟩
    · split
      · exact Or.inl ⟨rfl, rfl⟩
      next hsame =>
        right
        refine ⟨rfl, rfl, ?_⟩
        by_cases hb : c.baseUrl = []
        · exact Or.inl hb
        · exact Or.inr (not_not.mp fun hne => hsame ⟨hb, Ne.symm hne⟩)

section Steps
variable (normalizeServiceBaseUrl : Text → Option Text) {s : State}

theorem setBaseUrl_sound (h : Sound s) (url : Text) :
    Sound (step normalizeServiceBaseUrl s (.setBaseUrl url)).1 := by
  have hcases := setBaseUrl_cases normalizeServiceBaseUrl url s.client
  -- a secret that survives the change was set under this base URL, or under none
  have hkept : ∀ own : Text, own = s.client.baseUrl ∨ own = [] →
      s.client.baseUrl = [] ∨ (s.client.setBaseUrl normalizeServiceBaseUrl url).baseUrl = s.client.baseUrl →
      own = (s.client.setBaseUrl normalizeServiceBaseUrl url).baseUrl ∨ own = [] := by
    intro own hown hbase
    obtain hb | hb := hbase
    · rw [hb, or_self] at hown
      exact Or.inr hown
    · rw [hb]
      exact hown
  refine ⟨?_, ?_, h.bases⟩
  · intro ht
    obtain ⟨hnone, -⟩ | ⟨hsame, -, hbase⟩ := hcases
    · exact absurd hnone ht
    · exact hkept s.tokenBase (h.token fun h0 => ht (hsame.trans h0)) hbase
  · intro ht
    obtain ⟨-, hnone⟩ | ⟨-, hsame, hbase⟩ := hcases
    · exact absurd hnone ht
    · exact hkept s.csrfBase (h.csrf fun h0 => ht (hsame.trans h0)) hbase

theorem answer_sound (h : Sound s) (i : ℕ) (a : Answer) : Sound (answer i a s).1 ∧ (answer i a s).1.sent = s.sent := by
  obtain heq | ⟨r, pc, hr, heq⟩ := answer_cases i a s
  · rw [heq]
    exact ⟨h, rfl⟩
  · rw [heq]
    exact ⟨h.set_request (r := { r with pc := pc }) (h.bases r (List.mem_of_getElem? hr)), rfl⟩

theorem step_sound (h : Sound s) (a : Action) : Sound (step normalizeServiceBaseUrl s a).1 := by
  cases a with
  | setBaseUrl url => exact setBaseUrl_sound normalizeServiceBaseUrl h url
  | setToken token => exact ⟨fun _ => Or.inl rfl, h.csrf, h.bases⟩
  | setCsrfToken csrf => exact ⟨h.token, fun _ => Or.inl rfl, h.bases⟩
  | answer i a => exact (answer_sound h i a).1
  | request path retries silent offline =>
    simp only [step, start]
    split
    · exact h
    next hsome =>
      refine ⟨h.token, h.csrf, ?_⟩
      intro x hx
      cases List.mem_append.mp hx with
      | inl hold => exact h.bases x hold
      | inr hnew =>
        rw [List.mem_singleton.mp hnew]
        exact (not_or.mp hsome).2
  | wake i =>
    simp only [step, wake]
    cases hr : s.requests[i]? with
    | none => exact h
    | some r =>
      dsimp only
      split
      · exact h
      · exact h.set_request (r := { r with pc := .fetching, attempt := r.attempt + 1, token := s.client.token })
          (h.bases r (List.mem_of_getElem? hr))

theorem allAtHome_snoc {sent : List Sent} {a : Sent} :
    (∀ x ∈ sent ++ [a], x.AtHome) ↔ (∀ x ∈ sent, x.AtHome) ∧ a.AtHome := by
  rw [List.forall_mem_append, List.forall_mem_singleton]

/-- Every attempt of a step goes home exactly when the step is careful. -/
theorem step_allAtHome (h : Sound s) (a : Action) :
    AllAtHome (step normalizeServiceBaseUrl s a).1 ↔ AllAtHome s ∧ Careful s a := by
  cases a with
  | setBaseUrl | setToken | setCsrfToken => exact (and_iff_left trivial).symm
  | answer i a =>
    rw [AllAtHome, step, (answer_sound h i a).2]
    exact (and_iff_left trivial).symm
  | request path retries silent offline =>
    simp only [step, start, Careful]
    split
    next hnone =>
      symm
      apply and_iff_left
      intro honline hbase
      cases hnone with
      | inl ho => rw [ho] at honline; cases honline
      | inr hb => exact absurd hb hbase
    next hsome =>
      obtain ⟨honline, hbase⟩ := not_or.mp hsome
      rw [AllAtHome, allAtHome_snoc, attempt_atHome h hbase]
      simp [AllAtHome, honline, hbase]
  | wake i =>
    simp only [step, wake, Careful]
    cases hr : s.requests[i]? with
    | none =>
      symm
      apply and_iff_left
      intro r hr
      cases hr
    | some r =>
      dsimp only
      split
      next hpc =>
        symm
        apply and_iff_left
        intro x hx hsleep
        cases hx
        exact absurd hsleep hpc
      next hpc =>
        rw [AllAtHome, allAtHome_snoc, attempt_atHome h (h.bases r (List.mem_of_getElem? hr))]
        simp [AllAtHome, not_not.mp hpc]

end Steps

/-! ### Runs -/

/-- Through a whole run every attempt goes to the service its secrets were set for,
exactly when every attempt finds the secrets current. -/
theorem attempts_at_home_iff (normalizeServiceBaseUrl : Text → Option Text) (as : List Action) :
    (∀ before after, as = before ++ after →
        AllAtHome ((machine normalizeServiceBaseUrl).run State.init before)) ↔
      ∀ before a after, as = before ++ a :: after →
        Careful ((machine normalizeServiceBaseUrl).run State.init before) a := by
  apply (machine normalizeServiceBaseUrl).run_exact (I := fun s => Sound s ∧ AllAtHome s)
  · exact ⟨sound_init, fun a ha => by cases ha⟩
  · exact fun s h => h.2
  · intro s a h hcareful
    exact ⟨step_sound normalizeServiceBaseUrl h.1 a,
      (step_allAtHome normalizeServiceBaseUrl h.1 a).mpr ⟨h.2, hcareful⟩⟩
  · intro s a h hhome
    exact ((step_allAtHome normalizeServiceBaseUrl h.1 a).mp hhome).2

def sampleX : Text := "https://x.example".toList
def sampleY : Text := "https://y.example".toList

/-- A request to one service is answered 503; before its back-off ends the user
connects to another one and logs in there. -/
def sampleSwitch : List Action :=
  [.setBaseUrl sampleX, .request "/v1/tasks".toList true false false, .answer 0 (.status 503),
    .setBaseUrl sampleY, .setToken "y-token".toList, .wake 0]

theorem token_of_other_service_sent :
    ∃ a ∈ ((machine some).run State.init sampleSwitch).sent,
      a.base = sampleX ∧ a.headers.authorization = some "Bearer y-token".toList ∧ a.tokenBase = sampleY ∧
        ¬ a.AtHome := by
  refine ⟨⟨sampleX, "/v1/tasks".toList, ⟨some "Bearer y-token".toList, none⟩, sampleY, []⟩, ?_, rfl, rfl, rfl, ?_⟩
  · decide +kernel
  · intro h
    exact absurd (h.1 (by simp)) (by decide)

end AgentWorkflow.Desktop.Requests
