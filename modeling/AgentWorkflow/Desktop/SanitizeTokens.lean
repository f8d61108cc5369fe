import AgentWorkflow.Desktop.SanitizePasses

/-!
# Tokens in sanitised errors

The line of the token is the one part of the message that can carry it. Before the
patterns see that line it is cut at 280 units, and a cut token may be none.
-/

namespace AgentWorkflow.Desktop.Sanitize
open AgentWorkflow.Lib AgentWorkflow.Lib.Js AgentWorkflow.Lib.JsRegex

section Tokens
variable {t p s : Str}

/-! ### The six passes -/

/-- A text that is clean, or clean but for one token. -/
def Covered (kind : Str → Prop) (p t s : Str) (x : Str) : Prop :=
  (∃ u τ v, Carries Blank Break kind (Word t) (Given p s) x u τ v) ∨ Clean (Word t) (Given p s) x

theorem stripPaths_covered (ht : ∀ c ∈ t, TokenUnit c) {x : Str} (h : Covered Shape p t s x) : Covered Shape p t s (stripPaths x) := by
  have hpass : ∀ {r : Pattern}, (∀ prev s, ∀ m ∈ r.results prev s, PathStart s) →
      (∀ prev s x rest, r.first prev s = some (x, rest) → PathEnd x rest) → ∀ {x : Str}, Covered Shape p t s x →
      Covered Shape p t s (replaceAll r replacePath x) := by
    intro r hstart hend x hx
    have pass := path_pass (t := t) (p := p) (s := s) ht (fun _ h => Shape.units h) hstart hend
    rcases hx with ⟨u, τ, v, hcarries⟩ | hclean
    · exact pass.carries hcarries trivial trivial
    · exact Or.inr (pass.clean trivial hclean)
  exact hpass (fun _ _ _ => posix_start) (fun _ _ _ _ => posix_end) (hpass (fun _ _ _ => win_start) (fun _ _ _ _ => win_end) h)

theorem redactSecrets_clean (ht : ∀ c ∈ t, TokenUnit c) (hspelled : Spelled p t s) {x : Str} (h : Covered Shape p t s x) :
    Clean (Piece t) (Given p s) (redactSecrets x) := by
  have hpiece : ∀ {y : Str}, Clean (Word t) (Given p s) y → Clean (Piece t) (Given p s) y := fun hy w hw => hy w (Or.inl hw)
  have hrespell : ∀ {y : Str}, Clean (Word t) (Given p s) y → Clean (Respellable t) (Given p s) y := fun hy w hw => hy w (Or.inr hw)
  have hclean : ∀ {y : Str}, Clean (Piece t) (Given p s) y →
      Clean (Piece t) (Given p s) (replaceAll HEX_TOKEN_RE (fun _ => str "<token>")
        (replaceAll KV_SECRET_RE (fun m => secretKey m ++ str "=<redacted>") y)) := fun hy =>
    (hex_pass ht).clean trivial ((kv_pass ht).clean trivial hy)
  unfold redactSecrets
  have hbearer : (∃ u τ v, Carries Blank Break Shape (Piece t) (Given p s) (replaceAll BEARER_RE (fun _ => str "Bearer <redacted>") x) u τ v) ∨
      Clean (Piece t) (Given p s) (replaceAll BEARER_RE (fun _ => str "Bearer <redacted>") x) := by
    rcases h with ⟨u, τ, v, hcarries⟩ | hx
    · have hcarries' : Carries Blank Break Shape (Piece t) (Given p s) x u τ v :=
        { hcarries with before := hpiece hcarries.before, after := hpiece hcarries.after }
      exact (bearer_pass ht hspelled).carries hcarries' (hrespell hcarries.before) (hrespell hcarries.after)
    · exact Or.inr ((bearer_pass ht hspelled).clean (hrespell hx) (hpiece hx))
  rcases hbearer with ⟨u, τ, v, hcarries⟩ | hx
  · rcases hcarries.kind with hhex | hjwt
    · -- Digits go through the patterns before their own.
      have hhex : Carries Blank Break HexToken (Piece t) (Given p s) _ u τ v := { hcarries with kind := hhex }
      rcases (jwt_pass_hex ht).carries hhex trivial trivial with ⟨u₁, τ₁, v₁, h₁⟩ | h₁
      · rcases (kv_pass ht).carries h₁ trivial trivial with ⟨u₂, τ₂, v₂, h₂⟩ | h₂
        · rcases (hex_pass ht).carries h₂ trivial trivial with ⟨u₃, τ₃, v₃, h₃⟩ | h₃
          · exact carries_marked ht h₃
          · exact h₃
        · exact (hex_pass ht).clean trivial h₂
      · exact hclean h₁
    · have hjwt : Carries Blank Break JwtToken (Piece t) (Given p s) _ u τ v := { hcarries with kind := hjwt }
      rcases (jwt_pass ht).carries hjwt trivial trivial with ⟨u₁, τ₁, v₁, h₁⟩ | h₁
      · exact hclean (carries_marked ht h₁)
      · exact hclean h₁
  · exact hclean ((jwt_pass ht).clean trivial hx)

/-! ### The line -/

/-- The line of the token before it and after it. -/
def beforeToken (p : Str) : Str := (JsText.remainder 0x0A p).dropWhile isBlank
def afterToken (s : Str) : Str := (s.takeWhile fun c => decide (c ≠ 0x0A)).rdropWhile isBlank

theorem trim_within (l : Str) : trim l <:+: l := (List.rdropWhile_prefix _ _).isInfix.trans (List.dropWhile_suffix _).isInfix

theorem dropReturn_start (l : Str) : dropReturn l <+: l := by
  unfold dropReturn
  split
  · exact List.dropLast_prefix l
  · exact List.prefix_refl l

/-- Trimming leaves a token and what stands around it up to white space. -/
theorem trim_token {u v : Str} (hne : t ≠ []) (hfirst : ∀ c ∈ t.head?, ¬ Blank c) (hlast : ∀ c ∈ t.getLast?, ¬ Blank c) :
    trim (u ++ (t ++ v)) = u.dropWhile isBlank ++ (t ++ v.rdropWhile isBlank) := by
  have hstart : ∀ l : Str, (u ++ (t ++ l)).dropWhile isBlank = u.dropWhile isBlank ++ (t ++ l) := by
    intro l
    obtain ⟨c, t', rfl⟩ := List.exists_cons_of_ne_nil hne
    have hc : ¬ isBlank c = true := hfirst c rfl
    induction u with
    | nil => rw [List.nil_append, List.cons_append, List.dropWhile_cons_of_neg hc]; rfl
    | cons d u ih =>
      rw [List.cons_append]
      by_cases hd : isBlank d = true
      · rw [List.dropWhile_cons_of_pos hd, List.dropWhile_cons_of_pos hd, ih]
      · rw [List.dropWhile_cons_of_neg hd, List.dropWhile_cons_of_neg hd]
        rfl
  have hend : ∀ l : Str, (l ++ (t ++ v)).rdropWhile isBlank = l ++ (t ++ v.rdropWhile isBlank) := by
    intro l
    obtain ⟨t', c, rfl⟩ := (List.eq_nil_or_concat' t).resolve_left hne
    have hc : ¬ isBlank c = true := hlast c List.getLast?_concat
    induction v using List.reverseRecOn with
    | nil =>
      rw [List.append_nil, ← List.append_assoc, List.rdropWhile_concat_neg _ _ _ hc]
      simp
    | append_singleton v d ih =>
      have hassoc : l ++ (t' ++ [c] ++ (v ++ [d])) = l ++ (t' ++ [c] ++ v) ++ [d] := by simp
      rw [hassoc]
      by_cases hd : isBlank d = true
      · rw [List.rdropWhile_concat_pos _ _ _ hd, List.rdropWhile_concat_pos _ _ _ hd, ih]
      · rw [List.rdropWhile_concat_neg _ _ _ hd, List.rdropWhile_concat_neg _ _ _ hd]
        simp
  unfold trim JsText.trim
  exact (congrArg (List.rdropWhile isBlank) (hstart v)).trans (hend _)

theorem dropReturn_token {a l : Str} (hne : a ≠ []) (hlast : ∀ c ∈ a.getLast?, c ≠ 0x0D) : dropReturn (a ++ l) = a ++ dropReturn l := by
  cases hl : l with
  | nil =>
    obtain ⟨c, hc⟩ := Option.ne_none_iff_exists'.mp (mt List.getLast?_eq_none_iff.mp hne)
    have hcr := hlast c hc
    have hnot : a.getLast? ≠ some 0x0D := by
      rw [hc]
      simpa using hcr
    simp [dropReturn, hnot]
  | cons d l' =>
    unfold dropReturn
    rw [List.getLast?_append_of_ne_nil _ (by simp), List.dropLast_append_of_ne_nil (by simp)]
    split
    · rfl
    · rfl

theorem rdropWhile_dropReturn (l : Str) : (dropReturn l).rdropWhile isBlank = l.rdropWhile isBlank := by
  unfold dropReturn
  split
  · next h =>
    obtain ⟨l', rfl⟩ : ∃ l', l = l' ++ [0x0D] := List.getLast?_eq_some_iff.mp h
    rw [List.dropLast_concat, List.rdropWhile_concat_pos _ _ _ (by decide)]
  · rfl

/-- Nothing of a token ends a line or is trimmed. -/
structure Solid (t : Str) : Prop where
  units : ∀ c ∈ t, TokenUnit c
  nonempty : t ≠ []

theorem Solid.not_newline (ht : Solid t) : (0x0A : UInt16) ∉ t := fun h => absurd (ht.units _ h) (by decide)

theorem Solid.not_blank (ht : Solid t) {c : UInt16} (h : c ∈ t) : ¬ Blank c := fun hb => (ht.units c h).not_break (Or.inl hb)

theorem takeWhile_line {l rest : Str} (hl : (0x0A : UInt16) ∉ l) : (l ++ 0x0A :: rest).takeWhile (fun c => decide (c ≠ 0x0A)) = l :=
  takeWhile_stop (fun c hc => decide_eq_true fun h => hl (h ▸ hc)) fun c hc => by
    rw [List.head?_cons, Option.mem_def, Option.some.injEq] at hc
    rw [← hc]
    decide

/-- The lines of the message: that of the token, and lines of what stands around it. -/
theorem lines_token (ht : Solid t) :
    beforeToken p ++ (t ++ afterToken s) ∈ (splitLines (p ++ (t ++ s))).map trim ∧
      ∀ l ∈ (splitLines (p ++ (t ++ s))).map trim, l = beforeToken p ++ (t ++ afterToken s) ∨ Given p s l := by
  have hfirst : ∀ c ∈ t.head?, ¬ Blank c := fun c hc => ht.not_blank (List.mem_of_head? hc)
  have hlast : ∀ c ∈ t.getLast?, ¬ Blank c := fun c hc => ht.not_blank (List.mem_of_getLast? hc)
  obtain ⟨hlines, hrest⟩ := @JsText.lines_append UInt16 _ 0x0A p (t ++ s)
  set a := JsText.remainder 0x0A p ++ t with ha
  have hassoc : JsText.remainder 0x0A p ++ (t ++ s) = a ++ s := by rw [ha, List.append_assoc]
  have hane : a ≠ [] := by simp [ha, ht.nonempty]
  have hnl : (0x0A : UInt16) ∉ a := by
    rw [ha, List.mem_append, not_or]
    exact ⟨JsText.newline_not_mem_remainder p, ht.not_newline⟩
  have hcr : ∀ c ∈ a.getLast?, c ≠ 0x0D := by
    intro c hc hcr
    rw [ha, List.getLast?_append_of_ne_nil _ ht.nonempty] at hc
    exact hlast c hc (by rw [hcr]; decide)
  have hline : ∀ l₁ : Str, trim (a ++ l₁) = beforeToken p ++ (t ++ l₁.rdropWhile isBlank) := by
    intro l₁
    rw [ha, List.append_assoc, trim_token ht.nonempty hfirst hlast]
    rfl
  have hbefore : ∀ l₁ ∈ JsText.lines 0x0A p, Given p s (trim (dropReturn l₁)) := fun l₁ h₁ =>
    Or.inl ((trim_within _).trans ((dropReturn_start l₁).isInfix.trans (JsText.line_within (Or.inl h₁))))
  rw [splitLines, hlines, hrest, hassoc]
  by_cases hs : (0x0A : UInt16) ∈ s
  · obtain ⟨l₁, rest, rfl, hl₁⟩ := List.eq_append_cons_of_mem hs
    have hnl' : (0x0A : UInt16) ∉ a ++ l₁ := by
      rw [List.mem_append, not_or]
      exact ⟨hnl, hl₁⟩
    have hafter : rest <:+: l₁ ++ 0x0A :: rest := ⟨l₁ ++ [0x0A], [], by simp⟩
    have htoken : trim (dropReturn (a ++ l₁)) = beforeToken p ++ (t ++ afterToken (l₁ ++ 0x0A :: rest)) := by
      rw [dropReturn_token hane hcr, hline, rdropWhile_dropReturn, afterToken, takeWhile_line hl₁]
    rw [← List.append_assoc, JsText.lines_line hnl', JsText.remainder_line hnl']
    refine ⟨?_, ?_⟩
    · rw [← htoken]
      exact List.mem_map_of_mem (List.mem_append_left _ (List.mem_map_of_mem (List.mem_append_right _ (List.mem_cons_self ..))))
    intro l hl
    obtain ⟨l', hl', rfl⟩ := List.mem_map.mp hl
    simp only [List.map_append, List.map_cons, List.mem_append, List.mem_cons, List.mem_map, List.not_mem_nil, or_false] at hl'
    rcases hl' with (⟨l₂, h₂, rfl⟩ | rfl | ⟨l₂, h₂, rfl⟩) | rfl
    · exact Or.inr (hbefore l₂ h₂)
    · exact Or.inl htoken
    · exact Or.inr (Or.inr ((trim_within _).trans ((dropReturn_start l₂).isInfix.trans ((JsText.line_within (Or.inl h₂)).trans hafter))))
    · exact Or.inr (Or.inr ((trim_within _).trans ((JsText.line_within (Or.inr rfl)).trans hafter)))
  · have hnl' : (0x0A : UInt16) ∉ a ++ s := by
      rw [List.mem_append, not_or]
      exact ⟨hnl, hs⟩
    have htoken : trim (a ++ s) = beforeToken p ++ (t ++ afterToken s) := by
      have hall : s.takeWhile (fun c => decide (c ≠ 0x0A)) = s :=
        List.takeWhile_eq_self_iff.mpr fun c hc => decide_eq_true fun h => hs (h ▸ hc)
      rw [hline, afterToken, hall]
    rw [JsText.lines_last hnl', JsText.remainder_last hnl', List.append_nil]
    refine ⟨?_, ?_⟩
    · rw [← htoken]
      exact List.mem_map_of_mem (List.mem_append_right _ (List.mem_cons_self ..))
    intro l hl
    obtain ⟨l', hl', rfl⟩ := List.mem_map.mp hl
    simp only [List.mem_append, List.mem_cons, List.mem_map, List.not_mem_nil, or_false] at hl'
    rcases hl' with ⟨l₂, h₂, rfl⟩ | rfl
    · exact Or.inr (hbefore l₂ h₂)
    · exact Or.inl htoken

/-- The line that stays is one of the lines, and has text. -/
theorem keptLine_mem {input l : Str} (hl : l ∈ (splitLines input).map trim) (hne : l ≠ []) :
    keptLine input ∈ (splitLines input).map trim ∧ keptLine input ≠ [] := by
  have hmem : keptLine input ∈ ((splitLines input).map trim).filter fun l => decide (0 < l.length) := by
    unfold keptLine
    cases hkept : ((splitLines input).map trim).filter fun l => decide (0 < l.length) with
    | nil =>
      have hin : l ∈ ((splitLines input).map trim).filter fun l => decide (0 < l.length) :=
        List.mem_filter.mpr ⟨hl, decide_eq_true (List.length_pos_iff.mpr hne)⟩
      rw [hkept] at hin
      cases hin
    | cons first later =>
      simp only
      split
      · cases hfind : (first :: later).reverse.find? fun ln => !fileLine ln && !tracebackLine ln && (errorLine ln || namedLine ln) with
        | none => exact List.getLast_mem _
        | some ln => exact List.mem_reverse.mp (List.mem_of_find?_eq_some hfind)
      · cases hfind : (first :: later).find? fun ln => !atLine ln && !fileLine ln with
        | none => exact List.mem_cons_self ..
        | some ln => exact List.mem_of_find?_eq_some hfind
  obtain ⟨hmem, hlen⟩ := List.mem_filter.mp hmem
  exact ⟨hmem, List.length_pos_iff.mp (of_decide_eq_true hlen)⟩

/-! ### The cut -/

/-- Where the line of the token is kept and cut inside the token, what stays of it is short or still a token. -/
def Uncut (p t s : Str) : Prop :=
  keptLine (p ++ (t ++ s)) = beforeToken p ++ (t ++ afterToken s) → 280 < (beforeToken p ++ (t ++ afterToken s)).length →
    (beforeToken p).length < 279 → 279 < (beforeToken p).length + t.length →
    279 - (beforeToken p).length < 16 ∨ Shape (t.take (279 - (beforeToken p).length))

theorem clean_given {x : Str} (h : Given p s x) {G : Str → Prop} : Clean G (Given p s) x := fun _ _ hin => h.within hin

theorem clean_cut (ht : ∀ c ∈ t, TokenUnit c) {x : Str} (h : Clean (Word t) (Given p s) x) :
    Clean (Word t) (Given p s) (x ++ [0x2026]) := by
  intro w hw hin
  rcases infix_break (hw.solid ht) (by decide) hin with hin | hin
  · exact h w hw hin
  · exact (clean_given (Or.inl List.nil_infix)) w hw hin

/-- A word before a text without its last unit. -/
theorem infix_of_last {w u z : Str} {e : UInt16} (he : w.getLast? = some e) (hz : e ∉ z) (h : w <:+: u ++ z) : w <:+: u := by
  rcases List.infix_append_iff.mp h with h | h | ⟨l₁, l₂, rfl, hsuffix, hstart⟩
  · exact h
  · exact absurd (h.subset (List.mem_of_getLast? he)) hz
  · by_cases hnil : l₂ = []
    · rw [hnil, List.append_nil]
      exact hsuffix.isInfix
    · rw [List.getLast?_append_of_ne_nil _ hnil] at he
      exact absurd (hstart.subset (List.mem_of_getLast? he)) hz

/-- The short beginning of a token at a cut. -/
theorem clean_short (ht : ∀ c ∈ t, TokenUnit c) {u : Str} (hu : u = [] ∨ Ended Blank u) (hclean : Clean (Word t) (Given p s) u) {n : ℕ} (hn : n < 16) :
    Clean (Word t) (Given p s) (u ++ (t.take n ++ [0x2026])) := by
  have hunits : ∀ c ∈ t.take n, TokenUnit c := fun c hc => ht c (List.mem_of_mem_take hc)
  intro w hw hin
  rcases hw with hw | hw
  · have hcut : ¬ w <:+: t.take n ++ [0x2026] := by
      intro hin
      rcases infix_break (hw.solid ht) (by decide) hin with hin | hin
      · have hlong := hw.1.trans hin.length_le
        rw [List.length_take] at hlong
        omega
      · have hlong := hw.1.trans hin.length_le
        exact absurd hlong (by decide)
    rcases hu with rfl | ⟨e, he, hblank⟩
    · exact absurd hin hcut
    · obtain ⟨u', rfl⟩ := List.getLast?_eq_some_iff.mp he
      rw [List.append_assoc] at hin
      rcases infix_break (hw.solid ht) (fun h => h.not_break (Or.inl hblank)) hin with hin | hin
      · exact hclean w (Or.inl hw) (hin.trans ⟨[], [e], by simp⟩)
      · exact absurd hin hcut
  · obtain ⟨made, a, c, b, e, j, rfl, -, -, he, -⟩ := id hw
    have hnot : e ∉ t.take n ++ [0x2026] := by
      intro hmem
      rcases List.mem_append.mp hmem with hmem | hmem
      · exact (hunits e hmem).not_break (Or.inl he)
      · rw [List.mem_singleton] at hmem
        rw [hmem] at he
        exact absurd he (by decide)
    have hlast : (a ++ c :: (b ++ [e])).getLast? = some e := by
      rw [← List.cons_append, ← List.append_assoc, List.getLast?_concat]
    exact hclean _ (Or.inr hw) (infix_of_last hlast hnot hin)

theorem collapseStack_covered (ht : Shape t) (hp : p = [] ∨ Ended Blank p) (hs : ∀ c ∈ s.head?, Blank c) (huncut : Uncut p t s) :
    Covered Shape p t s (collapseStack (p ++ (t ++ s))) := by
  have hunits := ht.units.2
  have hsolid : Solid t := ⟨hunits, ht.units.1⟩
  unfold Uncut at huncut
  have hsuffix : beforeToken p <:+ p := (List.dropWhile_suffix _).trans (JsText.remainder_suffix p)
  have hstart : afterToken s <+: s := (List.rdropWhile_prefix _ _).trans (List.takeWhile_prefix _)
  have hbefore : Clean (Word t) (Given p s) (beforeToken p) := clean_given (Or.inl hsuffix.isInfix)
  have hafter : ∀ {v : Str}, v <+: afterToken s → Clean (Word t) (Given p s) v := fun hv => clean_given (Or.inr (hv.trans hstart).isInfix)
  have hended : beforeToken p = [] ∨ Ended Blank (beforeToken p) := by
    by_cases hnil : beforeToken p = []
    · exact Or.inl hnil
    · right
      obtain ⟨front, hfront⟩ := hsuffix
      rcases hp with rfl | hp
      · exact absurd (List.append_eq_nil_iff.mp hfront).2 hnil
      · rw [← hfront] at hp
        exact hp.of_append hnil
  have hstop : ∀ {v : Str}, v <+: afterToken s → ∀ c ∈ v.head?, Break c := by
    intro v hv c hc
    obtain ⟨back, hback⟩ := hv.trans hstart
    refine Or.inl (hs c ?_)
    rw [← hback, List.head?_append, hc]
    rfl
  set u := beforeToken p with hu
  set v := afterToken s with hv
  obtain ⟨hline, hlines⟩ := lines_token (p := p) (s := s) hsolid
  obtain ⟨hmem, -⟩ := keptLine_mem hline (by simp [ht.units.1])
  unfold collapseStack clamp
  rcases hlines _ hmem with hkept | hgiven
  · by_cases hlen : (u ++ (t ++ v)).length ≤ 280
    · rw [hkept, if_pos hlen]
      exact Or.inl ⟨u, t, v, rfl, hended, ht, hstop List.prefix_rfl, hbefore, hafter List.prefix_rfl⟩
    · rw [hkept, if_neg hlen]
      by_cases hlong : 279 ≤ u.length
      · -- The token is cut away.
        right
        rw [List.take_append_of_le_length hlong]
        exact clean_cut hunits (hbefore.within (List.take_prefix _ _).isInfix)
      · have hu : (u ++ (t ++ v)).take 279 = u ++ (t ++ v).take (279 - u.length) := by
          rw [List.take_append, List.take_of_length_le (by omega)]
        by_cases hinside : 279 < u.length + t.length
        · -- The token is cut.
          have ht' : (t ++ v).take (279 - u.length) = t.take (279 - u.length) := List.take_append_of_le_length (by omega)
          rw [hu, ht', List.append_assoc]
          have hover : 280 < (u ++ (t ++ v)).length := Nat.lt_of_not_le hlen
          rcases huncut hkept hover (Nat.lt_of_not_le hlong) hinside with hshort | hshape
          · exact Or.inr (clean_short hunits hended hbefore hshort)
          · refine Or.inl ⟨u, t.take (279 - u.length), [0x2026], rfl, hended, hshape, ?_, hbefore,
              clean_cut (x := []) hunits (clean_given (Or.inl List.nil_infix))⟩
            intro c hc
            rw [List.head?_cons, Option.mem_def, Option.some.injEq] at hc
            exact Or.inr hc.symm
        · -- The cut is after the token.
          have ht' : (t ++ v).take (279 - u.length) = t ++ v.take (279 - u.length - t.length) := by
            rw [List.take_append, List.take_of_length_le (by omega)]
          rw [hu, ht', List.append_assoc, List.append_assoc]
          refine Or.inl ⟨u, t, v.take (279 - u.length - t.length) ++ [0x2026], rfl, hended, ht, ?_, hbefore,
            clean_cut hunits (hafter (List.take_prefix _ _))⟩
          intro c hc
          cases hcut : v.take (279 - u.length - t.length) with
          | nil =>
            rw [hcut, List.nil_append, List.head?_cons, Option.mem_def, Option.some.injEq] at hc
            exact Or.inr hc.symm
          | cons d v' =>
            rw [hcut] at hc
            exact hstop (List.take_prefix (279 - u.length - t.length) v) c (by rw [hcut]; exact hc)
  · right
    split
    · exact clean_given hgiven
    · exact clean_cut hunits (clean_given (hgiven.within (List.take_prefix _ _).isInfix))

/-! ### The message -/

/-- A token: digits, or three segments of base64url between a letter or digit and another. -/
def Token (t : Str) : Prop :=
  (24 ≤ t.length ∧ ∀ c ∈ t, isHex c = true) ∨
    ∃ a b c, t = a ++ 0x2E :: (b ++ 0x2E :: c) ∧ (∀ l ∈ [a, b, c], 24 ≤ l.length ∧ ∀ e ∈ l, segmentUnit e = true) ∧
      (∀ e ∈ t.head?, isLetter e || isDigit e) ∧ ∀ e ∈ t.getLast?, isLetter e || isDigit e

theorem Token.shape (h : Token t) : Shape t := by
  have hword : ∀ e, (isLetter e || isDigit e) = true → isWord e = true := by
    intro e he
    rcases Bool.or_eq_true _ _ ▸ he with he | he
    · exact isLetter_isWord he
    · exact isHex_isWord (by simp [isHex, he])
  rcases h with h | ⟨a, b, c, rfl, hsegs, hfirst, hlast⟩
  · exact Or.inl h
  · right
    have hseg : ∀ l ∈ [a, b, c], Segment l := fun l hl => ⟨(hsegs l hl).1.trans' (by decide), (hsegs l hl).2⟩
    have hne : ∀ l ∈ [a, b, c], l ≠ [] := by
      rintro l hl rfl
      exact absurd (hsegs [] hl).1 (by decide)
    refine ⟨a, b, c, [], by simp, hseg a (by simp), hseg b (by simp), hseg c (by simp), ?_, ?_, (fun _ h => by cases h), by decide⟩
    · obtain ⟨e, a', rfl⟩ := List.exists_cons_of_ne_nil (hne a (by simp))
      exact hword e (hfirst e rfl)
    · have hcne := hne c (by simp)
      obtain ⟨e, he⟩ := Option.ne_none_iff_exists'.mp (mt List.getLast?_eq_none_iff.mp hcne)
      rw [he]
      refine hword e (hlast e ?_)
      rw [List.getLast?_append_of_ne_nil _ (by simp), List.getLast?_cons_of_ne_nil (by simp),
        List.getLast?_append_of_ne_nil _ (by simp), List.getLast?_cons_of_ne_nil hcne, he]
      rfl

/-- What the cleaners write is visible, so the message is not empty. -/
theorem cleaned_ne_nil (ht : Solid t) : cleaned (p ++ (t ++ s)) ≠ [] := by
  have hline : ∃ c ∈ collapseStack (p ++ (t ++ s)), ¬ Blank c := by
    obtain ⟨hline, -⟩ := lines_token (p := p) (s := s) ht
    obtain ⟨hmem, hne⟩ := keptLine_mem hline (by simp [ht.nonempty])
    unfold collapseStack clamp
    split
    · obtain ⟨l, -, hl⟩ := List.mem_map.mp hmem
      have htrim : (l.dropWhile isBlank).rdropWhile isBlank = keptLine (p ++ (t ++ s)) := hl
      have hne' : (l.dropWhile isBlank).rdropWhile isBlank ≠ [] := fun h => hne (htrim.symm.trans h)
      have hin := List.getLast_mem hne'
      have hvisible := List.rdropWhile_last_not isBlank _ hne'
      generalize ((l.dropWhile isBlank).rdropWhile isBlank).getLast hne' = e at hin hvisible
      rw [htrim] at hin
      exact ⟨e, hin, hvisible⟩
    · exact ⟨0x2026, by simp, by decide⟩
  have hpath : ∀ {r : Pattern} {x : Str}, (∃ c ∈ x, ¬ Blank c) → ∃ c ∈ replaceAll r replacePath x, ¬ Blank c := by
    intro r x hx
    refine replaceFrom_visible (fun c => ¬ Blank c) ?_ hx
    intro prev s x rest _
    unfold replacePath
    split
    · exact ⟨0x3C, List.mem_append_left _ (by decide), by decide⟩
    · exact ⟨0x3C, by decide, by decide⟩
  have hfixed : ∀ {r : Pattern} {x : Str} {f : Str → Str}, (∀ m, (0x3E : UInt16) ∈ f m) → (∃ c ∈ x, ¬ Blank c) →
      ∃ c ∈ replaceAll r f x, ¬ Blank c := by
    intro r x f hf hx
    refine replaceFrom_visible (fun c => ¬ Blank c) ?_ hx
    intro prev s x rest _
    exact ⟨0x3E, hf x, by decide⟩
  obtain ⟨c, hc, hvisible⟩ : ∃ c ∈ redactSecrets (stripPaths (collapseStack (p ++ (t ++ s)))), ¬ Blank c := by
    refine hfixed (fun _ => by decide) (hfixed (fun _ => List.mem_append_right _ (by decide)) (hfixed (fun _ => by decide)
      (hfixed (fun _ => by decide) (hpath (hpath hline)))))
  intro hnil
  have hall : ∀ d ∈ (redactSecrets (stripPaths (collapseStack (p ++ (t ++ s))))).dropWhile isBlank, isBlank d = true :=
    List.rdropWhile_eq_nil_iff.mp hnil
  have hdrop : (redactSecrets (stripPaths (collapseStack (p ++ (t ++ s))))).dropWhile isBlank = [] := by
    by_contra hne
    have hhead := List.head_dropWhile_not isBlank hne
    rw [hall _ (List.head_mem hne)] at hhead
    cases hhead
  exact hvisible (List.dropWhile_eq_nil_iff.mp hdrop c hc)

/-- Under the two conditions no piece of the token comes out that was not given besides it. -/
theorem tokens_redacted (i18n : Str → Str) (fallbackTitle : Option Str) {err : Err} (herr : (extractRaw i18n err).message = some (p ++ (t ++ s)))
    (ht : Token t) (hp : p = [] ∨ Ended Blank p) (hs : ∀ c ∈ s.head?, Blank c) (huncut : Uncut p t s) (hspelled : Spelled p t s) :
    ∀ w, 16 ≤ w.length → w <:+: t → w <:+: (sanitizeError i18n err fallbackTitle).message → w <:+: p ∨ w <:+: s := by
  intro w hlong hwt hin
  have hshape := ht.shape
  have hunits := hshape.units.2
  have hsolid : Solid t := ⟨hunits, hshape.units.1⟩
  have hpiece : Piece t w := ⟨hlong, hwt⟩
  have hclean : Clean (Piece t) (Given p s) (cleaned (p ++ (t ++ s))) :=
    (redactSecrets_clean hunits hspelled (stripPaths_covered hunits (collapseStack_covered hshape hp hs huncut))).within (trim_within _)
  have hmessage : (sanitizeError i18n err fallbackTitle).message =
      if 280 < (cleaned (p ++ (t ++ s))).length then (cleaned (p ++ (t ++ s))).take 277 ++ [0x2026] else cleaned (p ++ (t ++ s)) := by
    unfold sanitizeError
    simp only [herr, Option.getD_some]
    rw [if_neg (cleaned_ne_nil hsolid)]
  rw [hmessage] at hin
  split at hin
  · rcases infix_break (hpiece.solid hunits) (by decide) hin with hin | hin
    · exact hclean w hpiece (hin.trans (List.take_prefix _ _).isInfix)
    · exact absurd (hlong.trans hin.length_le) (by decide)
  · exact hclean w hpiece hin

end Tokens

/-- A session token of 24 digits. -/
def sampleToken : Str := str "0123456789abcdef01234567"

theorem sampleToken_token : Token sampleToken := Or.inl ⟨by decide, List.all_iff_forall_prop.mp (by decide)⟩

theorem tokens_redacted_short : ¬ sampleToken <:+: (sanitizeError id (.string (str "refused " ++ (sampleToken ++ str " (401)"))) none).message := by
  have hended : Ended Blank (str "refused ") := ⟨0x20, by decide, by decide⟩
  have hstop : ∀ c ∈ (str " (401)").head?, Blank c := by
    intro c hc
    have hspace : c = 0x20 := (Option.some.inj hc).symm
    rw [hspace]
    decide
  have huncut : Uncut (str "refused ") sampleToken (str " (401)") := fun _ hlong => absurd hlong (by decide +kernel)
  have hspelled : Spelled (str "refused ") sampleToken (str " (401)") := by
    rintro w made ⟨a, c, b, e, j, -, hc, -, -, rfl, hpiece⟩
    have hmem : c ∈ sampleToken := hpiece.2.subset (by simp)
    rcases hc with rfl | rfl
    · exact absurd hmem (by decide)
    · exact absurd hmem (by decide)
  intro hin
  rcases tokens_redacted id none rfl sampleToken_token (Or.inr hended) hstop huncut hspelled sampleToken (by decide) (List.infix_refl _) hin
    with h | h
  · exact absurd h.length_le (by decide)
  · exact absurd h.length_le (by decide)

/-- 262 units before a token: the cut leaves 17 digits of it, which are no token. -/
def sampleBefore : Str := (List.replicate 131 (str "x ")).flatten

theorem sampleBefore_cleaned : cleaned (sampleBefore ++ (sampleToken ++ [])) = sampleBefore ++ str "0123456789abcdef0" ++ [0x2026] := by
  decide +kernel

theorem tokens_redacted_fails : ∃ p t s w, Token t ∧ (p = [] ∨ Ended Blank p) ∧ (∀ c ∈ s.head?, Blank c) ∧ 16 ≤ w.length ∧ w <:+: t ∧
    w <:+: (sanitizeError id (.string (p ++ (t ++ s))) none).message ∧ ¬ (w <:+: p ∨ w <:+: s) := by
  have hmessage : (sanitizeError id (.string (sampleBefore ++ (sampleToken ++ []))) none).message =
      sampleBefore ++ str "0123456789abcdef0" ++ [0x2026] := by
    have hne : sampleBefore ++ str "0123456789abcdef0" ++ [0x2026] ≠ [] := by simp
    have hlen : ¬ 280 < (sampleBefore ++ str "0123456789abcdef0" ++ [0x2026]).length := by decide +kernel
    unfold sanitizeError extractRaw
    simp only [Option.getD_some]
    rw [sampleBefore_cleaned, if_neg hne, if_neg hlen]
  refine ⟨sampleBefore, sampleToken, [], str "0123456789abcdef0", sampleToken_token, Or.inr ⟨0x20, by decide +kernel, by decide⟩,
    (fun _ h => nomatch h), by decide, ⟨[], str "1234567", by decide⟩, ?_, ?_⟩
  · rw [hmessage]
    exact ⟨sampleBefore, [0x2026], rfl⟩
  · rintro (h | h)
    · have hmem : (0x30 : UInt16) ∈ sampleBefore := h.subset (by decide)
      exact absurd hmem (by decide +kernel)
    · exact absurd h.length_le (by decide)

end AgentWorkflow.Desktop.Sanitize
