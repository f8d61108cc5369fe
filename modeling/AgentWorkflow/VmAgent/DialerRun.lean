import AgentWorkflow.Lib.Machine
import AgentWorkflow.Lib.Numbered

/-!
# The reconnect loop (`internal/dialer/dialer.go`)

`Run` opens one session after the other until the context ends, the agent is too
old, or authentication has failed `MaxAuthFailures` times in a row. A round of the
loop is given what its session meets on the network. The connection state that
`setState` publishes and the length of the backoff are left out: nothing here reads them.
-/

namespace AgentWorkflow.VmAgent.DialerRun
open AgentWorkflow.Lib AgentWorkflow.Lib.Calendar

def exitCodeUpgradeRequired : ℕ := 77
def maxAuthFailures : ℕ := 3

/-! ### Versions -/

/-- `strconv.Atoi`; a sign is cut off before. -/
def atoi (p : Text) : Option ℕ :=
  if p ≠ [] ∧ p.all Numbered.isDigit ∧ Numbered.value p < 2 ^ 63 then some (Numbered.value p) else none

def parseSemver (s : Text) : Option (List ℕ) :=
  let parts := (s.takeWhile fun c => c != '+' && c != '-').splitOn '.'
  if 3 < parts.length then none
  else (parts.mapM atoi).map fun ns => ns ++ List.replicate (3 - ns.length) 0

def compareSemver (a b : Text) : Option Ordering :=
  match parseSemver a, parseSemver b with
  | some pa, some pb => some (if pa < pb then .lt else if pb < pa then .gt else .eq)
  | _, _ => none

/-! ### One session -/

/-- What `errors.Is` tells apart in `Run`. -/
inductive Err where
  | canceled
  | upgradeRequired
  | other
deriving DecidableEq, Repr

inductive NetError where
  | canceled
  | failed
deriving DecidableEq, Repr

def NetError.toErr : NetError → Err
  | .canceled => .canceled
  | .failed => .other

/-- `decodes`: the payload decodes into the struct of the type. -/
structure Envelope where
  type : Text
  decodes : Bool
deriving DecidableEq

def Envelope.isError (e : Envelope) : Bool := "err.".toList.isPrefixOf e.type

def typeWelcome : Text := "welcome".toList
def typeAuthSession : Text := "auth.session".toList
def typeControlUpgradeRequired : Text := "control.upgrade_required".toList

/-- What a session meets, as far as it gets. `requiredAgentVersion` is the welcome's. -/
structure Session where
  urlOk : Bool
  dial : Option NetError
  sendHello : Option NetError
  welcome : Except NetError Envelope
  requiredAgentVersion : Text
  sendLogin : Option NetError
  authResponse : Except NetError Envelope
  pump : Option Err

def doHelloWelcome (x : Session) : Except Err Text :=
  match x.sendHello, x.welcome with
  | some e, _ => .error e.toErr
  | none, .error e => .error e.toErr
  | none, .ok env =>
    if env.type = typeControlUpgradeRequired then .error .upgradeRequired
    else if env.type ≠ typeWelcome then .error .other
    else if env.decodes then .ok x.requiredAgentVersion
    else .error .other

/-- `rejected` is an `err.*` frame, `unexpected` any other frame than a session. -/
inductive AuthError where
  | lost (e : NetError)
  | rejected
  | unexpected
deriving DecidableEq, Repr

def AuthError.toErr : AuthError → Err
  | .lost e => e.toErr
  | _ => .other

def doAuth (x : Session) : Option AuthError :=
  match x.sendLogin, x.authResponse with
  | some e, _ => some (.lost e)
  | none, .error e => some (.lost e)
  | none, .ok env =>
    if env.isError then some .rejected
    else if env.type ≠ typeAuthSession then some .unexpected
    else if env.decodes then none
    else some .unexpected

/-- `auth` is what `doAuth` returned, where it was called. -/
structure SessionEnd where
  authFails : ℕ
  err : Option Err
  auth : Option (Option AuthError)

def sessionOnce (agentVersion : Text) (x : Session) (authFails : ℕ) : SessionEnd :=
  if ¬ x.urlOk then ⟨authFails, some .other, none⟩
  else
    match x.dial, doHelloWelcome x with
    | some e, _ => ⟨authFails, some e.toErr, none⟩
    | none, .error e => ⟨authFails, some e, none⟩
    | none, .ok required =>
      if compareSemver agentVersion required = some .lt then ⟨authFails, some .upgradeRequired, none⟩
      else
        match doAuth x with
        | some e => ⟨authFails + 1, some e.toErr, some (some e)⟩
        | none => ⟨0, x.pump, some none⟩

theorem sessionOnce_cases (agentVersion : Text) (x : Session) (n : ℕ) :
    ((sessionOnce agentVersion x n).auth = none ∧ (sessionOnce agentVersion x n).authFails = n) ∨
      (∃ e, sessionOnce agentVersion x n = ⟨n + 1, some e.toErr, some (some e)⟩) ∨
      sessionOnce agentVersion x n = ⟨0, x.pump, some none⟩ := by
  unfold sessionOnce
  split
  · exact Or.inl ⟨rfl, rfl⟩
  · split
    · exact Or.inl ⟨rfl, rfl⟩
    · exact Or.inl ⟨rfl, rfl⟩
    · split
      · exact Or.inl ⟨rfl, rfl⟩
      · cases doAuth x with
        | some e => exact Or.inr (Or.inl ⟨e, rfl⟩)
        | none => exact Or.inr (Or.inr rfl)

/-! ### The loop -/

inductive Exit where
  | stopped
  | upgradeRequired
  | authFailure
deriving DecidableEq, Repr

def Exit.code : Exit → ℕ
  | .stopped => 0
  | .upgradeRequired => exitCodeUpgradeRequired
  | .authFailure => exitCodeUpgradeRequired

structure State where
  authFails : ℕ
  exit : Option Exit
deriving DecidableEq, Repr

def State.new : State := ⟨0, none⟩

/-- `waitDone`: the context ends during the backoff. -/
structure Round where
  ctxDone : Bool
  closed : Bool
  session : Session
  waitDone : Bool

def afterSession (waitDone : Bool) (e : SessionEnd) : State :=
  match e.err with
  | none => ⟨e.authFails, some .stopped⟩
  | some .canceled => ⟨e.authFails, some .stopped⟩
  | some .upgradeRequired => ⟨e.authFails, some .upgradeRequired⟩
  | some .other =>
    if maxAuthFailures ≤ e.authFails then ⟨e.authFails, some .authFailure⟩
    else ⟨e.authFails, if waitDone then some .stopped else none⟩

def round (agentVersion : Text) (s : State) (r : Round) : State × Option (Option AuthError) :=
  if s.exit ≠ none then (s, none)
  else if r.ctxDone ∨ r.closed then ({ s with exit := some .stopped }, none)
  else
    let e := sessionOnce agentVersion r.session s.authFails
    (afterSession r.waitDone e, e.auth)

def machine (agentVersion : Text) : Machine State Round (Option (Option AuthError)) := ⟨round agentVersion⟩

/-! ### The last attempts -/

/-- The sessions that reached `doAuth`, the latest first. -/
def attempts (h : List (Option (Option AuthError))) : List (Option AuthError) := h.reduceOption.reverse

def streak (h : List (Option (Option AuthError))) : ℕ := ((attempts h).takeWhile Option.isSome).length

theorem attempts_snoc_none (h : List (Option (Option AuthError))) : attempts (h ++ [none]) = attempts h := by
  simp [attempts, List.reduceOption_append]

theorem attempts_snoc_some (h : List (Option (Option AuthError))) (a : Option AuthError) :
    attempts (h ++ [some a]) = a :: attempts h := by
  simp [attempts, List.reduceOption_append]

def wasCanceled (h : List (Option (Option AuthError))) : Prop := (attempts h).head? = some (some (.lost .canceled))

/-- The counter is the length of the streak of failures, whatever they were. -/
def Counted (h : List (Option (Option AuthError))) (s : State) : Prop :=
  match s.exit with
  | none => s.authFails = streak h ∧ streak h < maxAuthFailures
  | some .authFailure => maxAuthFailures ≤ streak h ∧ ¬ wasCanceled h
  | some _ => streak h < maxAuthFailures ∨ wasCanceled h

theorem Counted.congr {h h' : List (Option (Option AuthError))} {s : State} (hc : Counted h s)
    (heq : attempts h' = attempts h) : Counted h' s := by
  unfold Counted streak wasCanceled at *
  rw [heq]
  exact hc

theorem counted_quiet {h : List (Option (Option AuthError))} {n : ℕ} (hn : n = streak h)
    (hlt : streak h < maxAuthFailures) (w : Bool) (err : Option Err) (a : Option (Option AuthError)) :
    Counted h (afterSession w ⟨n, err, a⟩) := by
  unfold afterSession
  match err with
  | none => exact Or.inl hlt
  | some .canceled => exact Or.inl hlt
  | some .upgradeRequired => exact Or.inl hlt
  | some .other =>
    simp only
    rw [if_neg (by omega)]
    cases w with
    | true => exact Or.inl hlt
    | false => exact ⟨hn, hlt⟩

theorem counted_failed {h : List (Option (Option AuthError))} {n : ℕ} (hn : n = streak h) (w : Bool)
    (e : AuthError) :
    Counted (h ++ [some (some e)]) (afterSession w ⟨n + 1, some e.toErr, some (some e)⟩) := by
  have hstreak : streak (h ++ [some (some e)]) = streak h + 1 := by
    simp [streak, attempts_snoc_some]
  have hhead : wasCanceled (h ++ [some (some e)]) ↔ e = .lost .canceled := by
    simp [wasCanceled, attempts_snoc_some]
  unfold afterSession
  cases herr : e.toErr with
  | canceled =>
    refine Or.inr (hhead.mpr ?_)
    match e, herr with
    | .lost .canceled, _ => rfl
  | upgradeRequired =>
    match e, herr with
    | .lost .canceled, herr => cases herr
    | .lost .failed, herr => cases herr
    | .rejected, herr => cases herr
    | .unexpected, herr => cases herr
  | other =>
    have hne : e ≠ .lost .canceled := by
      rintro rfl
      cases herr
    simp only
    split
    next hmax => exact ⟨by omega, fun hc => hne (hhead.mp hc)⟩
    next hmax =>
      cases w with
      | true => exact Or.inl (by omega)
      | false =>
        have hfails : n + 1 = streak (h ++ [some (some e)]) := by omega
        exact ⟨hfails, by omega⟩

theorem round_counted (agentVersion : Text) (h : List (Option (Option AuthError))) (s : State) (r : Round)
    (hc : Counted h s) : Counted (h ++ [(round agentVersion s r).2]) (round agentVersion s r).1 := by
  unfold round
  split
  · exact hc.congr (attempts_snoc_none h)
  next hrun =>
    have hexit : s.exit = none := not_not.mp hrun
    rw [Counted, hexit] at hc
    split
    · refine Counted.congr (h := h) ?_ (attempts_snoc_none h)
      exact Or.inl hc.2
    · simp only
      obtain ⟨hauth, hfails⟩ | ⟨e, hend⟩ | hend := sessionOnce_cases agentVersion r.session s.authFails
      · rw [hauth]
        refine Counted.congr (h := h) ?_ (attempts_snoc_none h)
        exact counted_quiet (hfails.trans hc.1) hc.2 _ _ _
      · rw [hend]
        exact counted_failed hc.1 _ e
      · rw [hend]
        have hzero : streak (h ++ [some none]) = 0 := by
          simp [streak, attempts_snoc_some]
        exact counted_quiet hzero.symm (by rw [hzero]; decide) _ _ _

theorem run_counted (agentVersion : Text) (rs : List Round) :
    Counted ((machine agentVersion).trace .new rs) ((machine agentVersion).run .new rs) := by
  have hnew : Counted [] .new := ⟨rfl, by decide⟩
  exact (machine agentVersion).history_invariant hnew (round_counted agentVersion) rs

/-! ### Giving up -/

def rejections : List (Option AuthError) := List.replicate maxAuthFailures (some .rejected)

/-- The persistent-auth-failure exit is taken after rejections by the broker only. -/
def GivesUpOnRejections (h : List (Option (Option AuthError))) (s : State) : Prop :=
  s.exit = some .authFailure → (attempts h).take maxAuthFailures = rejections

/-- As many attempts as the limit have failed in a row, the last not by cancellation,
and not all of them by rejection. -/
def LostStreak (h : List (Option (Option AuthError))) : Prop :=
  (∀ k < maxAuthFailures, ∃ e, (attempts h)[k]? = some (some e)) ∧ ¬ wasCanceled h ∧
    (attempts h).take maxAuthFailures ≠ rejections

theorem le_streak_iff (h : List (Option (Option AuthError))) (n : ℕ) :
    n ≤ streak h ↔ ∀ k < n, ∃ e, (attempts h)[k]? = some (some e) := by
  unfold streak
  generalize attempts h = as
  induction as generalizing n with
  | nil => cases n with
    | zero => simp
    | succ n => simpa using ⟨0, by omega⟩
  | cons a as ih =>
    cases n with
    | zero => simp
    | succ n =>
      cases a with
      | none => simpa using ⟨0, by omega, by simp⟩
      | some e =>
        simp only [List.takeWhile_cons, Option.isSome_some, if_true, List.length_cons, Nat.add_le_add_iff_right, ih]
        constructor
        · intro hall k hk
          cases k with
          | zero => exact ⟨e, rfl⟩
          | succ k => exact hall k (by omega)
        · intro hall k hk
          exact hall (k + 1) (by omega)

theorem gave_up_iff (agentVersion : Text) (rs : List Round) :
    ((machine agentVersion).run .new rs).exit = some .authFailure ↔
      maxAuthFailures ≤ streak ((machine agentVersion).trace .new rs) ∧
        ¬ wasCanceled ((machine agentVersion).trace .new rs) := by
  have hc := run_counted agentVersion rs
  revert hc
  unfold Counted
  match ((machine agentVersion).run .new rs).exit with
  | none =>
    intro hc
    simp only [reduceCtorEq, false_iff, not_and]
    omega
  | some .authFailure =>
    intro hc
    simpa using hc
  | some .stopped =>
    intro hc
    simp only [Option.some.injEq, reduceCtorEq, false_iff, not_and, not_not]
    intro hle
    exact hc.resolve_left (by omega)
  | some .upgradeRequired =>
    intro hc
    simp only [Option.some.injEq, reduceCtorEq, false_iff, not_and, not_not]
    intro hle
    exact hc.resolve_left (by omega)

theorem gives_up_on_rejections_iff (agentVersion : Text) (rs : List Round) :
    GivesUpOnRejections ((machine agentVersion).trace .new rs) ((machine agentVersion).run .new rs) ↔
      ¬ LostStreak ((machine agentVersion).trace .new rs) := by
  unfold GivesUpOnRejections LostStreak
  rw [gave_up_iff, ← le_streak_iff]
  tauto

/-- The broker accepts the connection and never answers `auth.login`. -/
def silentRound : Round :=
  { ctxDone := false, closed := false, waitDone := false,
    session :=
      { urlOk := true, dial := none, sendHello := none, welcome := .ok ⟨typeWelcome, true⟩,
        requiredAgentVersion := [], sendLogin := none, authResponse := .error .failed, pump := none } }

theorem gives_up_after_timeouts : ¬ ∀ agentVersion rs,
    GivesUpOnRejections ((machine agentVersion).trace .new rs) ((machine agentVersion).run .new rs) := by
  intro h
  have hlast := h [] [silentRound, silentRound, silentRound] (by decide)
  exact absurd hlast (by decide)

end AgentWorkflow.VmAgent.DialerRun
