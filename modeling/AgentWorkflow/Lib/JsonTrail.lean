import AgentWorkflow.Lib.JsonText

/-!
# Blanks after a JSON text

Reading a text does not depend on blanks that follow it. A scanner `Keeps` a unit it
can never take: put behind its input, the unit is behind what the scanner leaves. The
fuel of `scanValue` then only has to exceed the length of the text.
-/

namespace AgentWorkflow.Lib.JsonText

universe u v
variable {α : Type u} {β : Type v} {code : α → ℕ}

/-! ### What a scanner leaves is no longer than its input -/

def Shortens (f : List α → Option (β × List α)) : Prop := ∀ t p, f t = some p → p.2.length ≤ t.length

theorem length_dropWhile (q : α → Bool) (t : List α) : (t.dropWhile q).length ≤ t.length :=
  (List.dropWhile_sublist q).length_le

theorem length_skipWs (t : List α) : (skipWs code t).length ≤ t.length := length_dropWhile ..

theorem length_scanOptional (codes : List ℕ) (t : List α) : (scanOptional code codes t).2.length ≤ t.length := by
  cases t with
  | nil => exact le_refl _
  | cons c t =>
    by_cases hc : code c ∈ codes
    · simp only [scanOptional, if_pos hc]
      exact Nat.le_succ _
    · simp only [scanOptional, if_neg hc]
      exact le_refl _

theorem shortens_scanDigits (lead : List α) : Shortens (scanDigits code lead) := by
  intro t p h
  unfold scanDigits at h
  split at h
  · cases h
  · cases h
    exact length_dropWhile ..

theorem shortens_scanInt : Shortens (scanInt code) := by
  intro t p h
  cases t with
  | nil => cases h
  | cons c t =>
    have hdrop : (t.dropWhile (isDigit code)).length ≤ t.length := length_dropWhile ..
    simp only [scanInt] at h
    split_ifs at h
    · cases h
      exact Nat.le_succ _
    · cases h
      exact hdrop.trans (Nat.le_succ _)

theorem shortens_scanFrac : Shortens (scanFrac code) := by
  intro t p h
  have hopt : (scanOptional code [0x2E] t).2.length ≤ t.length := length_scanOptional ..
  unfold scanFrac at h
  split at h
  · next heq =>
    rw [heq] at hopt
    cases h
    exact hopt
  · next heq =>
    rw [heq] at hopt
    exact (shortens_scanDigits _ _ _ h).trans hopt

theorem shortens_scanExp : Shortens (scanExp code) := by
  intro t p h
  have hopt : (scanOptional code [0x65, 0x45] t).2.length ≤ t.length := length_scanOptional ..
  unfold scanExp at h
  split at h
  · next heq =>
    rw [heq] at hopt
    cases h
    exact hopt
  · next heq =>
    rw [heq] at hopt
    have hsign := @length_scanOptional _ code [0x2B, 0x2D] (scanOptional code [0x65, 0x45] t).2
    rw [heq] at hsign
    exact (shortens_scanDigits _ _ _ h).trans (hsign.trans hopt)

theorem shortens_scanNumeral : Shortens (scanNumeral code) := by
  intro t p h
  unfold scanNumeral at h
  split at h
  · cases h
  next hint =>
    split at h
    · cases h
    next hfrac =>
      split at h
      · cases h
      next hexp =>
        cases h
        have hsign := @length_scanOptional _ code [0x2D] t
        have h₁ := shortens_scanInt _ _ hint
        have h₂ := shortens_scanFrac _ _ hfrac
        have h₃ := shortens_scanExp _ _ hexp
        dsimp only at h₁ h₂ h₃ ⊢
        omega

theorem shortens_scanBody : Shortens (scanBody code) := by
  intro t p h
  fun_induction scanBody code t generalizing p with
  | case1 => cases h
  | case2 => cases h; exact Nat.le_succ _
  | case3 => cases h
  | case4 c _ _ hc e t he ih =>
    obtain ⟨q, hq, rfl⟩ := Option.map_eq_some_iff.mp h
    have := ih q hq
    simp only [List.length_cons]
    omega
  | case5 c _ _ hc e _ h₁ h₂ h₃ h₄ t hu ih =>
    obtain ⟨q, hq, rfl⟩ := Option.map_eq_some_iff.mp h
    have := ih q hq
    simp only [List.length_cons]
    omega
  | case6 => cases h
  | case7 => cases h
  | case8 => cases h
  | case9 c t h₁ h₂ h₃ ih =>
    obtain ⟨q, hq, rfl⟩ := Option.map_eq_some_iff.mp h
    have := ih q hq
    simp only [List.length_cons]
    omega

theorem shortens_scanWord (codes : List ℕ) (v : Doc α) : Shortens (scanWord code codes v) := by
  intro t p h
  unfold scanWord at h
  split at h
  · cases h
    simp
  · cases h

theorem length_closes {close : ℕ} {t r : List α} (h : closes code close t = some r) : r.length < t.length := by
  have hskip := @length_skipWs _ code t
  unfold closes at h
  split at h
  next heq =>
    rw [heq] at hskip
    split at h
    · cases h
      exact hskip
    · cases h
  · cases h

section
variable {value : List α → Option (Doc α × List α)} (hvalue : Shortens value)
include hvalue

theorem shortens_scanItems (k : ℕ) : Shortens (scanItems code value k) := by
  induction k with
  | zero => intro t p h; cases h
  | succ k ih =>
    intro t p h
    have hskip := @length_skipWs _ code t
    unfold scanItems at h
    split at h
    · cases h
    next v t₁ hv =>
      have h₁ := hvalue _ _ hv
      have hskip₁ := @length_skipWs _ code t₁
      split at h
      · cases h
      next c t₂ heq =>
        rw [heq] at hskip₁
        split_ifs at h
        · obtain ⟨q, hq, rfl⟩ := Option.map_eq_some_iff.mp h
          have := ih _ _ hq
          simp only [List.length_cons] at hskip₁
          dsimp only at h₁ ⊢
          omega
        · cases h
          simp only [List.length_cons] at hskip₁
          dsimp only at h₁ ⊢
          omega

theorem shortens_scanMember : Shortens (scanMember code value) := by
  intro t p h
  have hskip := @length_skipWs _ code t
  unfold scanMember at h
  split at h
  · cases h
  next c t₁ heq =>
    rw [heq, List.length_cons] at hskip
    split at h
    next hc =>
      split at h
      · cases h
      next key t₂ hbody =>
        have h₂ := shortens_scanBody _ _ hbody
        have hskip₂ := @length_skipWs _ code t₂
        split at h
        · cases h
        next d t₃ heq₃ =>
          rw [heq₃, List.length_cons] at hskip₂
          split at h
          · obtain ⟨q, hq, rfl⟩ := Option.map_eq_some_iff.mp h
            have h₃ := hvalue _ _ hq
            have hskip₃ := @length_skipWs _ code t₃
            dsimp only at h₂ ⊢
            omega
          · cases h
    · cases h

theorem shortens_scanMembers (k : ℕ) : Shortens (scanMembers code value k) := by
  induction k with
  | zero => intro t p h; cases h
  | succ k ih =>
    intro t p h
    unfold scanMembers at h
    split at h
    · cases h
    next m t₁ hm =>
      have h₁ := shortens_scanMember hvalue _ _ hm
      have hskip₁ := @length_skipWs _ code t₁
      split at h
      · cases h
      next c t₂ heq =>
        rw [heq, List.length_cons] at hskip₁
        split_ifs at h
        · obtain ⟨q, hq, rfl⟩ := Option.map_eq_some_iff.mp h
          have := ih _ _ hq
          dsimp only at h₁ ⊢
          omega
        · cases h
          dsimp only at h₁ ⊢
          omega

end

theorem shortens_scanValue (n : ℕ) : Shortens (scanValue code n) := by
  induction n with
  | zero => intro t p h; cases h
  | succ n ih =>
    intro t p h
    cases t with
    | nil => cases h
    | cons c t =>
      unfold scanValue at h
      split_ifs at h
      · split at h
        next r hclose =>
          cases h
          exact (length_closes hclose).le.trans (Nat.le_succ _)
        · obtain ⟨q, hq, rfl⟩ := Option.map_eq_some_iff.mp h
          exact (shortens_scanMembers ih n _ _ hq).trans (Nat.le_succ _)
      · split at h
        next r hclose =>
          cases h
          exact (length_closes hclose).le.trans (Nat.le_succ _)
        · obtain ⟨q, hq, rfl⟩ := Option.map_eq_some_iff.mp h
          exact (shortens_scanItems ih n _ _ hq).trans (Nat.le_succ _)
      · obtain ⟨q, hq, rfl⟩ := Option.map_eq_some_iff.mp h
        exact (shortens_scanBody _ _ hq).trans (Nat.le_succ _)
      · exact shortens_scanWord _ _ _ _ h
      · exact shortens_scanWord _ _ _ _ h
      · exact shortens_scanWord _ _ _ _ h
      · obtain ⟨q, hq, rfl⟩ := Option.map_eq_some_iff.mp h
        exact shortens_scanNumeral _ _ hq

/-! ### Fuel -/

section
variable {f g : List α → Option (Doc α × List α)} {m : ℕ} (hfg : ∀ t, t.length < m → g t = f t) (hf : Shortens f)
include hfg hf

theorem scanItems_fuel (k : ℕ) (t : List α) (hm : t.length < m) (hk : t.length < k) :
    scanItems code g (k + 1) t = scanItems code f k t := by
  induction k generalizing t with
  | zero => omega
  | succ k ih =>
    have hskip := @length_skipWs _ code t
    rw [scanItems, scanItems, hfg _ (by omega)]
    cases hv : f (skipWs code t) with
    | none => rfl
    | some p =>
      have hp := hf _ _ hv
      have hskip₁ := @length_skipWs _ code p.2
      cases hrest : skipWs code p.2 with
      | nil => simp only [hrest]
      | cons c r =>
        rw [hrest, List.length_cons] at hskip₁
        simp only [hrest, ih r (by omega) (by omega)]

omit hf in
theorem scanMember_fuel (t : List α) (hm : t.length < m) : scanMember code g t = scanMember code f t := by
  have hskip := @length_skipWs _ code t
  unfold scanMember
  cases hquote : skipWs code t with
  | nil => rfl
  | cons c t₁ =>
    rw [hquote, List.length_cons] at hskip
    cases hbody : scanBody code t₁ with
    | none => simp only [hbody]
    | some p =>
      have hp := shortens_scanBody _ _ hbody
      have hskip₁ := @length_skipWs _ code p.2
      cases hcolon : skipWs code p.2 with
      | nil => simp only [hbody, hcolon]
      | cons d r =>
        rw [hcolon, List.length_cons] at hskip₁
        have hskip₂ := @length_skipWs _ code r
        simp only [hbody, hcolon, hfg _ (show (skipWs code r).length < m by omega)]

theorem scanMembers_fuel (k : ℕ) (t : List α) (hm : t.length < m) (hk : t.length < k) :
    scanMembers code g (k + 1) t = scanMembers code f k t := by
  induction k generalizing t with
  | zero => omega
  | succ k ih =>
    rw [scanMembers, scanMembers, scanMember_fuel hfg t hm]
    cases hv : scanMember code f t with
    | none => rfl
    | some p =>
      have hp := shortens_scanMember hf _ _ hv
      have hskip := @length_skipWs _ code p.2
      cases hrest : skipWs code p.2 with
      | nil => simp only [hrest]
      | cons c r =>
        rw [hrest, List.length_cons] at hskip
        simp only [hrest, ih r (by omega) (by omega)]

end

theorem scanValue_fuel (n : ℕ) (t : List α) (h : t.length < n) : scanValue code (n + 1) t = scanValue code n t := by
  induction n generalizing t with
  | zero => omega
  | succ n ih =>
    cases t with
    | nil => rfl
    | cons c t =>
      rw [List.length_cons] at h
      have hitems := @scanItems_fuel _ code _ _ _ ih (shortens_scanValue n) n t (by omega) (by omega)
      have hmembers := @scanMembers_fuel _ code _ _ _ ih (shortens_scanValue n) n t (by omega) (by omega)
      rw [scanValue, scanValue, hitems, hmembers]

/-! ### A unit no scanner takes -/

variable {w : α}

/-- Behind the input of `f`, `w` stays behind what `f` leaves. -/
def Keeps (w : α) (f : List α → Option (β × List α)) : Prop :=
  ∀ t, f (t ++ [w]) = (f t).map fun p => (p.1, p.2 ++ [w])

theorem isWs_cases (hw : isWs code w) : code w = 0x20 ∨ code w = 9 ∨ code w = 10 ∨ code w = 13 := by
  simpa [isWs, or_assoc] using hw

theorem skipWs_snoc (hw : isWs code w) (t : List α) :
    skipWs code (t ++ [w]) = if skipWs code t = [] then [] else skipWs code t ++ [w] := by
  induction t with
  | nil => simp [skipWs, hw]
  | cons c t ih =>
    cases hc : isWs code c with
    | true => simpa [skipWs, hc] using ih
    | false => simp [skipWs, hc]

theorem isDigit_blank (hw : isWs code w) : isDigit code w = false := by
  have hcases := isWs_cases hw
  simp only [isDigit, decide_eq_false_iff_not]
  omega

section
variable (hw : isWs code w)
include hw

theorem digits_snoc (t : List α) :
    (t ++ [w]).takeWhile (isDigit code) = t.takeWhile (isDigit code) ∧
      (t ++ [w]).dropWhile (isDigit code) = t.dropWhile (isDigit code) ++ [w] := by
  have hdigit := isDigit_blank hw
  induction t with
  | nil => simp [hdigit]
  | cons c t ih =>
    cases hc : isDigit code c with
    | true => simpa [hc] using ih
    | false => simp [hc]

omit hw in
theorem scanOptional_snoc {codes : List ℕ} (hcodes : code w ∉ codes) (t : List α) :
    scanOptional code codes (t ++ [w]) = ((scanOptional code codes t).1, (scanOptional code codes t).2 ++ [w]) := by
  cases t with
  | nil => simp [scanOptional, hcodes]
  | cons c t =>
    by_cases hc : code c ∈ codes
    · simp [scanOptional, hc]
    · simp [scanOptional, hc]

theorem keeps_scanDigits (lead : List α) : Keeps w (scanDigits code lead) := by
  intro t
  obtain ⟨htake, hdrop⟩ := digits_snoc hw t
  unfold scanDigits
  rw [htake, hdrop]
  split <;> rfl

theorem keeps_scanInt : Keeps w (scanInt code) := by
  intro t
  cases t with
  | nil =>
    have hcases := isWs_cases hw
    simp [scanInt, isDigit_blank hw, show code w ≠ 0x30 by omega]
  | cons c t =>
    obtain ⟨htake, hdrop⟩ := digits_snoc hw t
    simp only [List.cons_append, scanInt, htake, hdrop]
    split_ifs <;> rfl

/-- A blank is none of these units. -/
theorem blank_not_mem {codes : List ℕ} (h : ∀ n ∈ [0x20, 9, 10, 13], n ∉ codes) : code w ∉ codes := by
  have hcases := isWs_cases hw
  rcases hcases with hc | hc | hc | hc
  all_goals
    rw [hc]
    exact h _ (by decide)

theorem keeps_scanFrac : Keeps w (scanFrac code) := by
  intro t
  unfold scanFrac
  rw [scanOptional_snoc (blank_not_mem hw (by decide))]
  obtain ⟨d, r⟩ := scanOptional code [0x2E] t
  cases d with
  | nil => rfl
  | cons d ds => exact keeps_scanDigits hw _ r

theorem keeps_scanExp : Keeps w (scanExp code) := by
  intro t
  unfold scanExp
  rw [scanOptional_snoc (blank_not_mem hw (by decide))]
  obtain ⟨e, r⟩ := scanOptional code [0x65, 0x45] t
  cases e with
  | nil => rfl
  | cons e es =>
    dsimp only
    rw [scanOptional_snoc (blank_not_mem hw (by decide))]
    exact keeps_scanDigits hw _ _

theorem keeps_scanNumeral : Keeps w (scanNumeral code) := by
  intro t
  unfold scanNumeral
  rw [scanOptional_snoc (blank_not_mem hw (by decide)), keeps_scanInt hw]
  cases hint : scanInt code (scanOptional code [0x2D] t).2 with
  | none => rfl
  | some p =>
    simp only [Option.map_some, keeps_scanFrac hw p.2]
    cases hfrac : scanFrac code p.2 with
    | none => rfl
    | some q =>
      simp only [Option.map_some, keeps_scanExp hw q.2]
      cases hexp : scanExp code q.2 with
      | none => rfl
      | some r => rfl

theorem isHex_blank : isHex code w = false := by
  have hcases := isWs_cases hw
  simp only [isHex, decide_eq_false_iff_not]
  omega

theorem isEscape_blank : isEscape code w = false := by
  have hnot : code w ∉ [0x22, 0x5C, 0x2F, 0x62, 0x66, 0x6E, 0x72, 0x74] := blank_not_mem hw (by decide)
  simpa [isEscape] using hnot

theorem scanBody_blank : scanBody code [w] = none := by
  have hcases := isWs_cases hw
  unfold scanBody
  rw [if_neg (by omega), if_neg (show ¬code w = 0x5C by omega)]
  split <;> rfl

/-- Fewer than four units and a blank are no hexadecimal digits. -/
theorem keeps_scanBody : Keeps w (scanBody code) := by
  intro t
  fun_induction scanBody code t with
  | case1 => exact scanBody_blank hw
  | case2 c t hc =>
    rw [List.cons_append]
    unfold scanBody
    rw [if_pos hc]
    rfl
  | case3 c t h₁ h₂ =>
    rw [List.cons_append]
    unfold scanBody
    rw [if_neg h₁, if_pos h₂]
    rfl
  | case4 c h₁ h₂ hc e t he ih =>
    rw [List.cons_append, List.cons_append]
    conv_lhs => unfold scanBody
    rw [if_neg h₁, if_neg h₂, if_pos hc]
    dsimp only
    rw [if_pos he, ih, Option.map_map, Option.map_map]
    rfl
  | case5 c h₁ h₂ hc e he a₁ a₂ a₃ a₄ t hu ih =>
    simp only [List.cons_append]
    conv_lhs => unfold scanBody
    rw [if_neg h₁, if_neg h₂, if_pos hc]
    dsimp only
    rw [if_neg he, if_pos hu, ih, Option.map_map, Option.map_map]
    rfl
  | case6 c h₁ h₂ hc e he a₁ a₂ a₃ a₄ t hu =>
    simp only [List.cons_append]
    conv_lhs => unfold scanBody
    rw [if_neg h₁, if_neg h₂, if_pos hc]
    dsimp only
    rw [if_neg he, if_neg hu]
    rfl
  | case7 c h₁ h₂ hc e t he hshort =>
    rw [List.cons_append, List.cons_append]
    conv_lhs => unfold scanBody
    rw [if_neg h₁, if_neg h₂, if_pos hc]
    dsimp only
    rw [if_neg he]
    rcases t with _ | ⟨a, _ | ⟨b, _ | ⟨d, _ | ⟨f, t⟩⟩⟩⟩
    · rfl
    · rfl
    · rfl
    · simp [isHex_blank hw]
    · exact (hshort a b d f t rfl).elim
  | case8 c h₁ h₂ hc =>
    rw [List.cons_append, List.nil_append]
    unfold scanBody
    rw [if_neg h₁, if_neg h₂, if_pos hc]
    dsimp only
    rw [if_neg (by simp [isEscape_blank hw])]
    rfl
  | case9 c t h₁ h₂ h₃ ih =>
    rw [List.cons_append]
    conv_lhs => unfold scanBody
    rw [if_neg h₁, if_neg h₂, if_neg h₃, ih, Option.map_map, Option.map_map]
    rfl

omit hw in
theorem keeps_scanWord {codes : List ℕ} (hcodes : code w ∉ codes) (v : Doc α) : Keeps w (scanWord code codes v) := by
  intro t
  unfold scanWord
  by_cases hlen : codes.length ≤ t.length
  · rw [List.take_append_of_le_length hlen, List.drop_append_of_le_length hlen]
    split <;> rfl
  · have hshort : (t.take codes.length).map code ≠ codes := by
      intro h
      have := congrArg List.length h
      simp only [List.length_map, List.length_take] at this
      omega
    have hfull : ((t ++ [w]).take codes.length).map code ≠ codes := by
      intro h
      rw [List.take_of_length_le (by simp; omega), List.map_append] at h
      exact hcodes (h ▸ by simp)
    rw [if_neg hshort, if_neg hfull]
    rfl

theorem closes_snoc (close : ℕ) (t : List α) : closes code close (t ++ [w]) = (closes code close t).map (· ++ [w]) := by
  unfold closes
  rw [skipWs_snoc hw]
  cases hskip : skipWs code t with
  | nil => rfl
  | cons c r =>
    rw [if_neg (List.cons_ne_nil _ _), List.cons_append]
    dsimp only
    split <;> rfl

section
variable {value : List α → Option (Doc α × List α)} (hvalue : Keeps w value) (hnone : value [] = none)
include hvalue hnone

/-- A value is read after blanks. -/
theorem value_skipWs_snoc (t : List α) :
    value (skipWs code (t ++ [w])) = (value (skipWs code t)).map fun p => (p.1, p.2 ++ [w]) := by
  rw [skipWs_snoc hw]
  split
  next h =>
    rw [h, hnone]
    rfl
  · exact hvalue _

theorem keeps_scanItems (k : ℕ) : Keeps w (scanItems code value k) := by
  induction k with
  | zero =>
    intro t
    rfl
  | succ k ih =>
    intro t
    rw [scanItems, scanItems, value_skipWs_snoc hw hvalue hnone]
    cases hv : value (skipWs code t) with
    | none => rfl
    | some p =>
      simp only [Option.map_some, skipWs_snoc hw p.2]
      cases hrest : skipWs code p.2 with
      | nil => rfl
      | cons c r =>
        rw [if_neg (List.cons_ne_nil _ _), List.cons_append]
        dsimp only
        rw [ih r]
        split_ifs
        · rw [Option.map_map, Option.map_map]
          rfl
        · rfl
        · rfl

theorem keeps_scanMember : Keeps w (scanMember code value) := by
  intro t
  unfold scanMember
  rw [skipWs_snoc hw]
  cases hquote : skipWs code t with
  | nil => rfl
  | cons c t₁ =>
    rw [if_neg (List.cons_ne_nil _ _), List.cons_append]
    dsimp only
    rw [keeps_scanBody hw t₁]
    split
    · cases hbody : scanBody code t₁ with
      | none => rfl
      | some p =>
        simp only [Option.map_some, skipWs_snoc hw p.2]
        cases hcolon : skipWs code p.2 with
        | nil => rfl
        | cons d r =>
          rw [if_neg (List.cons_ne_nil _ _), List.cons_append]
          dsimp only
          rw [value_skipWs_snoc hw hvalue hnone]
          split
          · rw [Option.map_map, Option.map_map]
            rfl
          · rfl
    · rfl

theorem keeps_scanMembers (k : ℕ) : Keeps w (scanMembers code value k) := by
  induction k with
  | zero =>
    intro t
    rfl
  | succ k ih =>
    intro t
    rw [scanMembers, scanMembers, keeps_scanMember hw hvalue hnone]
    cases hv : scanMember code value t with
    | none => rfl
    | some p =>
      simp only [Option.map_some, skipWs_snoc hw p.2]
      cases hrest : skipWs code p.2 with
      | nil => rfl
      | cons c r =>
        rw [if_neg (List.cons_ne_nil _ _), List.cons_append]
        dsimp only
        rw [ih r]
        split_ifs
        · rw [Option.map_map, Option.map_map]
          rfl
        · rfl
        · rfl

end

omit hw in
theorem scanValue_nil (n : ℕ) : scanValue code n ([] : List α) = none := by
  cases n with
  | zero => rfl
  | succ n => rfl

theorem scanValue_blank (n : ℕ) : scanValue code (n + 1) [w] = none := by
  have hcases := isWs_cases hw
  have hnum : scanNumeral code [w] = none := keeps_scanNumeral hw []
  unfold scanValue
  rw [if_neg (by omega), if_neg (by omega), if_neg (by omega), if_neg (by omega), if_neg (by omega),
    if_neg (by omega), hnum]
  rfl

theorem keeps_scanValue (n : ℕ) : Keeps w (scanValue code n) := by
  induction n with
  | zero =>
    intro t
    rfl
  | succ n ih =>
    intro t
    cases t with
    | nil => exact scanValue_blank hw n
    | cons c t =>
      have hword := fun codes v (h : ∀ n ∈ [0x20, 9, 10, 13], n ∉ codes) =>
        keeps_scanWord (blank_not_mem hw h) v (c :: t)
      have hnum := keeps_scanNumeral hw (c :: t)
      simp only [List.cons_append] at hword hnum ⊢
      rw [scanValue, scanValue, closes_snoc hw, closes_snoc hw, keeps_scanMembers hw ih (scanValue_nil n),
        keeps_scanItems hw ih (scanValue_nil n), keeps_scanBody hw, hnum, hword _ _ (by decide),
        hword _ _ (by decide), hword _ _ (by decide)]
      split_ifs
      · cases closes code 0x7D t with
        | none =>
          dsimp only [Option.map_none]
          rw [Option.map_map, Option.map_map]
          rfl
        | some r => rfl
      · cases closes code 0x5D t with
        | none =>
          dsimp only [Option.map_none]
          rw [Option.map_map, Option.map_map]
          rfl
        | some r => rfl
      · rw [Option.map_map, Option.map_map]
        rfl
      · rfl
      · rfl
      · rfl
      · rw [Option.map_map, Option.map_map]
        rfl

/-- A blank at the end of a text changes nothing. -/
theorem parse_snoc (t : List α) : parse code (t ++ [w]) = parse code t := by
  have hskip := @length_skipWs _ code t
  unfold parse
  rw [List.length_append, List.length_singleton, value_skipWs_snoc hw (keeps_scanValue hw _) (scanValue_nil _),
    scanValue_fuel _ _ (show (skipWs code t).length < t.length + 1 by omega)]
  cases scanValue code (t.length + 1) (skipWs code t) with
  | none => rfl
  | some p =>
    simp only [Option.map_some, skipWs_snoc hw p.2]
    by_cases hrest : skipWs code p.2 = []
    · rw [if_pos hrest, if_pos hrest, if_pos rfl]
    · rw [if_neg hrest, if_neg hrest, if_neg (by simp)]

end

end AgentWorkflow.Lib.JsonText
