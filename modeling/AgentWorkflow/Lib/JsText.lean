import AgentWorkflow.Lib.Texts

/-!
# Text of JavaScript programs

White space, trimming, lengths and lines, for lists of code points and for lists of
UTF-16 code units alike: every white space character is one unit.
-/

namespace AgentWorkflow.Lib.JsText

universe u

/-- The characters `trim` removes: white space and line terminators. -/
def isSpace (n : ℕ) : Bool :=
  decide (9 ≤ n ∧ n ≤ 13) || decide (0x2000 ≤ n ∧ n ≤ 0x200A) ||
    decide (n ∈ [0x20, 0xA0, 0x1680, 0x2028, 0x2029, 0x202F, 0x205F, 0x3000, 0xFEFF])

def trim {α : Type u} (code : α → ℕ) (t : List α) : List α :=
  (t.dropWhile fun c => isSpace (code c)).rdropWhile fun c => isSpace (code c)

/-- The UTF-16 code units of a code point. -/
def utf16 (n : ℕ) : List UInt16 :=
  if n < 0x10000 then [UInt16.ofNat n]
  else [UInt16.ofNat (0xD800 + (n - 0x10000) / 0x400), UInt16.ofNat (0xDC00 + (n - 0x10000) % 0x400)]

/-- `length` of the string of these characters. -/
def length (t : List Char) : ℕ := (t.flatMap fun c => utf16 c.toNat).length

/-! ### Lines -/

section Lines
variable {α : Type u} [DecidableEq α] (newline : α)

/-- The pieces of `t.split(newline)` without the last one, -/
def lines (t : List α) : List (List α) := (t.splitOn newline).dropLast

/-- and the last one, which `pop` takes. -/
def remainder (t : List α) : List α := (t.splitOn newline).getLast?.getD []

variable {newline}

theorem lines_line {l : List α} (hl : newline ∉ l) (t : List α) :
    lines newline (l ++ newline :: t) = l :: lines newline t := by
  have hne := List.splitOn_ne_nil newline t
  simp only [lines, List.splitOn_append_cons_self_of_not_mem hl]
  exact List.dropLast_cons_of_ne_nil hne

theorem remainder_line {l : List α} (hl : newline ∉ l) (t : List α) :
    remainder newline (l ++ newline :: t) = remainder newline t := by
  have hne := List.splitOn_ne_nil newline t
  simp only [remainder, List.splitOn_append_cons_self_of_not_mem hl]
  cases hsplit : t.splitOn newline with
  | nil => exact absurd hsplit hne
  | cons q qs => rw [List.getLast?_cons_cons]

theorem lines_last {t : List α} (ht : newline ∉ t) : lines newline t = [] := by
  simp [lines, List.splitOn_eq_singleton ht]

theorem remainder_last {t : List α} (ht : newline ∉ t) : remainder newline t = t := by
  simp [remainder, List.splitOn_eq_singleton ht]

theorem newline_not_mem_remainder (t : List α) : newline ∉ remainder newline t := by
  induction hlen : t.length using Nat.strong_induction_on generalizing t with
  | _ n ih =>
    by_cases ht : newline ∈ t
    · obtain ⟨l, rest, rfl, hl⟩ := List.eq_append_cons_of_mem ht
      have hlt : rest.length < n := by
        rw [← hlen, List.length_append, List.length_cons]
        omega
      rw [remainder_line hl]
      exact ih _ hlt rest rfl
    · rw [remainder_last ht]
      exact ht

/-- A text that goes on: the lines so far, then those of what was left with the rest. -/
theorem lines_append (t u : List α) :
    lines newline (t ++ u) = lines newline t ++ lines newline (remainder newline t ++ u) ∧
      remainder newline (t ++ u) = remainder newline (remainder newline t ++ u) := by
  induction hlen : t.length using Nat.strong_induction_on generalizing t with
  | _ n ih =>
    by_cases ht : newline ∈ t
    · obtain ⟨l, rest, rfl, hl⟩ := List.eq_append_cons_of_mem ht
      have hlt : rest.length < n := by
        rw [← hlen, List.length_append, List.length_cons]
        omega
      obtain ⟨hlines, hrest⟩ := ih _ hlt rest rfl
      rw [List.append_assoc, List.cons_append, lines_line hl, lines_line hl, remainder_line hl, remainder_line hl,
        hlines, hrest]
      exact ⟨rfl, rfl⟩
    · rw [lines_last ht, remainder_last ht]
      exact ⟨rfl, rfl⟩

theorem line_within {t l : List α} (h : l ∈ lines newline t ∨ l = remainder newline t) : l <:+: t := by
  induction hlen : t.length using Nat.strong_induction_on generalizing t with
  | _ n ih =>
    by_cases ht : newline ∈ t
    · obtain ⟨first, rest, rfl, hfirst⟩ := List.eq_append_cons_of_mem ht
      have hlt : rest.length < n := by
        rw [← hlen, List.length_append, List.length_cons]
        omega
      rw [lines_line hfirst, remainder_line hfirst, List.mem_cons] at h
      rcases h with (rfl | h) | h
      · exact ⟨[], newline :: rest, by simp⟩
      · exact (ih _ hlt (Or.inl h) rfl).trans ⟨first ++ [newline], [], by simp⟩
      · exact (ih _ hlt (Or.inr h) rfl).trans ⟨first ++ [newline], [], by simp⟩
    · rw [lines_last ht, remainder_last ht] at h
      rcases h with h | rfl
      · cases h
      · exact List.infix_refl l

theorem remainder_suffix (t : List α) : remainder newline t <:+ t := by
  induction hlen : t.length using Nat.strong_induction_on generalizing t with
  | _ n ih =>
    by_cases ht : newline ∈ t
    · obtain ⟨first, rest, rfl, hfirst⟩ := List.eq_append_cons_of_mem ht
      have hlt : rest.length < n := by
        rw [← hlen, List.length_append, List.length_cons]
        omega
      rw [remainder_line hfirst]
      exact (ih _ hlt rest rfl).trans ⟨first ++ [newline], by simp⟩
    · rw [remainder_last ht]

end Lines

end AgentWorkflow.Lib.JsText
