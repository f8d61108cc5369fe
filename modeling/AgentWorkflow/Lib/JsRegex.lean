import AgentWorkflow.Lib.JsText

/-!
# Patterns and `replace`

Regular expressions over UTF-16 code units as a backtracking matcher tries them: all the
ways a pattern can go on from a place, the preferred one first. `replaceAll` is `replace`
with the flag `g`, for patterns that always take something.
-/

namespace AgentWorkflow.Lib.JsRegex

inductive Pattern
  | one (p : UInt16 → Bool)
  /-- a class, `least` times or more -/
  | chars (p : UInt16 → Bool) (least : ℕ)
  | boundary
  /-- `$` -/
  | stop
  | seq (a b : Pattern)
  | alt (a b : Pattern)
  | opt (a : Pattern)
  | star (a : Pattern)

/-- `\w` -/
def isWord (c : UInt16) : Bool :=
  decide (0x30 ≤ c ∧ c ≤ 0x39) || decide (0x41 ≤ c ∧ c ≤ 0x5A) || decide (0x61 ≤ c ∧ c ≤ 0x7A) || decide (c = 0x5F)

/-- `\s` -/
def isBlank (c : UInt16) : Bool := JsText.isSpace c.toNat

def wordAt (c : Option UInt16) : Bool := c.any isWord

/-- As often as possible first; a turn has to take something. -/
def turns (more : Option UInt16 → List UInt16 → List (List UInt16 × List UInt16)) :
    ℕ → Option UInt16 → List UInt16 → List (List UInt16 × List UInt16)
  | 0, _, s => [([], s)]
  | n + 1, prev, s =>
    (((more prev s).filter fun m => decide (m.1 ≠ [])).flatMap fun m =>
      (turns more n (m.1.getLast?.or prev) m.2).map fun k => (m.1 ++ k.1, k.2)) ++ [([], s)]

/-- What the pattern can take after the unit `prev`, and what is left. -/
def Pattern.results : Pattern → Option UInt16 → List UInt16 → List (List UInt16 × List UInt16)
  | .one p, _, s =>
    match s with
    | [] => []
    | c :: rest => if p c then [([c], rest)] else []
  | .chars p least, _, s =>
    (List.range ((s.takeWhile p).length + 1 - least)).map fun k =>
      (s.take ((s.takeWhile p).length - k), s.drop ((s.takeWhile p).length - k))
  | .boundary, prev, s => if wordAt prev = wordAt s.head? then [] else [([], s)]
  | .stop, _, s => if s = [] then [([], [])] else []
  | .seq a b, prev, s =>
    (a.results prev s).flatMap fun m => (b.results (m.1.getLast?.or prev) m.2).map fun k => (m.1 ++ k.1, k.2)
  | .alt a b, prev, s => a.results prev s ++ b.results prev s
  | .opt a, prev, s => a.results prev s ++ [([], s)]
  | .star a, prev, s => turns a.results s.length prev s

def Pattern.first (r : Pattern) (prev : Option UInt16) (s : List UInt16) : Option (List UInt16 × List UInt16) := (r.results prev s).head?

def replaceFrom (r : Pattern) (f : List UInt16 → List UInt16) : ℕ → Option UInt16 → List UInt16 → List UInt16
  | 0, _, s => s
  | _ + 1, _, [] => []
  | n + 1, prev, c :: rest =>
    match r.first prev (c :: rest) with
    | some ([], _) | none => c :: replaceFrom r f n (some c) rest
    | some (x :: xs, rest') => f (x :: xs) ++ replaceFrom r f n (x :: xs).getLast? rest'

def replaceAll (r : Pattern) (f : List UInt16 → List UInt16) (s : List UInt16) : List UInt16 := replaceFrom r f s.length none s

/-- `test` of a pattern that begins with `^`. -/
def testStart (r : Pattern) (s : List UInt16) : Bool := !(r.results none s).isEmpty

/-- The letters of a literal, in upper or lower case. -/
def letter (lower : UInt16) : Pattern := .one fun c => decide (c = lower ∨ c + 0x20 = lower)

def literal (one : UInt16 → Pattern) : List UInt16 → Pattern
  | [] => .chars (fun _ => false) 0
  | [c] => one c
  | c :: l => .seq (one c) (literal one l)

section
-- the equations are made here once, not in every proof at the same time
attribute [local simp] Pattern.results turns replaceFrom
end

/-! ### What is taken -/

theorem turns_append {more : Option UInt16 → List UInt16 → List (List UInt16 × List UInt16)}
    (hmore : ∀ prev s, ∀ m ∈ more prev s, m.1 ++ m.2 = s) {n : ℕ} {prev : Option UInt16} {s : List UInt16}
    {m : List UInt16 × List UInt16} (h : m ∈ turns more n prev s) : m.1 ++ m.2 = s := by
  induction n generalizing prev s m with
  | zero =>
    rw [turns, List.mem_singleton] at h
    rw [h]
    rfl
  | succ n ih =>
    simp only [turns, List.mem_append, List.mem_flatMap, List.mem_filter, List.mem_map, List.mem_singleton] at h
    rcases h with ⟨k, ⟨hk, -⟩, j, hj, rfl⟩ | rfl
    · have hfirst := hmore _ _ k hk
      have hlater := ih hj
      rw [List.append_assoc, hlater, hfirst]
    · rfl

/-- What is taken and what is left are the text. -/
theorem results_append (r : Pattern) {prev : Option UInt16} {s : List UInt16} {m : List UInt16 × List UInt16}
    (h : m ∈ r.results prev s) : m.1 ++ m.2 = s := by
  induction r generalizing prev s m with
  | one p =>
    cases s with
    | nil => cases h
    | cons c rest =>
      simp only [Pattern.results] at h
      split at h
      · rw [List.mem_singleton] at h
        rw [h]
        rfl
      · cases h
  | chars p least =>
    simp only [Pattern.results, List.mem_map] at h
    obtain ⟨k, -, rfl⟩ := h
    exact List.take_append_drop _ _
  | boundary =>
    simp only [Pattern.results] at h
    split at h
    · cases h
    · rw [List.mem_singleton] at h
      rw [h]
      rfl
  | stop =>
    simp only [Pattern.results] at h
    split at h
    · next hs =>
      rw [List.mem_singleton] at h
      rw [h, hs]
      rfl
    · cases h
  | seq a b iha ihb =>
    simp only [Pattern.results, List.mem_flatMap, List.mem_map] at h
    obtain ⟨n, hn, k, hk, rfl⟩ := h
    have hab := iha hn
    have hb := ihb hk
    rw [List.append_assoc, hb, hab]
  | alt a b iha ihb =>
    simp only [Pattern.results, List.mem_append] at h
    rcases h with h | h
    · exact iha h
    · exact ihb h
  | opt a ih =>
    simp only [Pattern.results, List.mem_append, List.mem_singleton] at h
    rcases h with h | h
    · exact ih h
    · rw [h]
      rfl
  | star a ih =>
    exact turns_append (fun _ _ _ hk => ih hk) h

/-- All units that the pattern takes satisfy `q`. -/
def Pattern.Only (q : UInt16 → Prop) : Pattern → Prop
  | .one p | .chars p _ => ∀ c, p c = true → q c
  | .boundary | .stop => True
  | .seq a b | .alt a b => a.Only q ∧ b.Only q
  | .opt a | .star a => a.Only q

theorem mem_takeWhile_of_take {p : UInt16 → Bool} {s : List UInt16} {k : ℕ} (hk : k ≤ (s.takeWhile p).length) {c : UInt16}
    (hc : c ∈ s.take k) : p c = true := by
  have htaken : s.take k = (s.takeWhile p).take k := by
    obtain ⟨rest, hrest⟩ := List.takeWhile_prefix (l := s) p
    have happend : (s.takeWhile p ++ rest).take k = (s.takeWhile p).take k := List.take_append_of_le_length hk
    rw [hrest] at happend
    exact happend
  rw [htaken] at hc
  exact List.mem_takeWhile_imp (List.mem_of_mem_take hc)

theorem Pattern.Only.of_results {q : UInt16 → Prop} {r : Pattern} (hq : r.Only q) {prev : Option UInt16} {s : List UInt16}
    {m : List UInt16 × List UInt16} (h : m ∈ r.results prev s) : ∀ c ∈ m.1, q c := by
  induction r generalizing prev s m with
  | one p =>
    cases s with
    | nil => cases h
    | cons d rest =>
      simp only [Pattern.results] at h
      split at h
      · next hp =>
        rw [List.mem_singleton] at h
        intro c hc
        rw [h, List.mem_singleton] at hc
        rw [hc]
        exact hq d hp
      · cases h
  | chars p least =>
    simp only [Pattern.results, List.mem_map] at h
    obtain ⟨k, -, rfl⟩ := h
    exact fun c hc => hq c (mem_takeWhile_of_take (Nat.sub_le ..) hc)
  | boundary =>
    simp only [Pattern.results] at h
    split at h
    · cases h
    · rw [List.mem_singleton] at h
      rw [h]
      exact fun c hc => nomatch hc
  | stop =>
    simp only [Pattern.results] at h
    split at h
    · rw [List.mem_singleton] at h
      rw [h]
      exact fun c hc => nomatch hc
    · cases h
  | seq a b iha ihb =>
    simp only [Pattern.results, List.mem_flatMap, List.mem_map] at h
    obtain ⟨n, hn, k, hk, rfl⟩ := h
    intro c hc
    rcases List.mem_append.mp hc with hc | hc
    · exact iha hq.1 hn c hc
    · exact ihb hq.2 hk c hc
  | alt a b iha ihb =>
    simp only [Pattern.results, List.mem_append] at h
    rcases h with h | h
    · exact iha hq.1 h
    · exact ihb hq.2 h
  | opt a ih =>
    simp only [Pattern.results, List.mem_append, List.mem_singleton] at h
    rcases h with h | h
    · exact ih hq h
    · rw [h]
      exact fun c hc => nomatch hc
  | star a ih =>
    have hturns : ∀ (n : ℕ) {prev : Option UInt16} {s : List UInt16} {m : List UInt16 × List UInt16},
        m ∈ turns a.results n prev s → ∀ c ∈ m.1, q c := by
      intro n
      induction n with
      | zero =>
        intro prev s m h
        rw [turns, List.mem_singleton] at h
        rw [h]
        exact fun c hc => nomatch hc
      | succ n ihn =>
        intro prev s m h
        simp only [turns, List.mem_append, List.mem_flatMap, List.mem_filter, List.mem_map, List.mem_singleton] at h
        rcases h with ⟨k, ⟨hk, -⟩, j, hj, rfl⟩ | rfl
        · intro c hc
          rcases List.mem_append.mp hc with hc | hc
          · exact ih hq hk c hc
          · exact ihn hj c hc
        · exact fun c hc => nomatch hc
    exact hturns _ h

section Parts
variable {prev : Option UInt16} {s : List UInt16} {m : List UInt16 × List UInt16}

theorem results_one {p : UInt16 → Bool} (h : m ∈ (Pattern.one p).results prev s) : ∃ c rest, s = c :: rest ∧ p c = true ∧ m = ([c], rest) := by
  cases s with
  | nil => cases h
  | cons c rest =>
    simp only [Pattern.results] at h
    split at h
    · next hp => exact ⟨c, rest, rfl, hp, List.mem_singleton.mp h⟩
    · cases h

theorem results_boundary (h : m ∈ Pattern.boundary.results prev s) : wordAt prev ≠ wordAt s.head? ∧ m = ([], s) := by
  simp only [Pattern.results] at h
  split at h
  · cases h
  · next hne => exact ⟨hne, List.mem_singleton.mp h⟩

theorem results_stop (h : m ∈ Pattern.stop.results prev s) : s = [] ∧ m = ([], []) := by
  simp only [Pattern.results] at h
  split at h
  · next hs => exact ⟨hs, List.mem_singleton.mp h⟩
  · cases h

theorem results_chars {p : UInt16 → Bool} {least : ℕ} (h : m ∈ (Pattern.chars p least).results prev s) :
    s = m.1 ++ m.2 ∧ (∀ c ∈ m.1, p c = true) ∧ least ≤ m.1.length := by
  have happend := results_append _ h
  have honly := Pattern.Only.of_results (q := fun c => p c = true) (r := .chars p least) (fun _ hc => hc) h
  refine ⟨happend.symm, honly, ?_⟩
  simp only [Pattern.results, List.mem_map, List.mem_range] at h
  obtain ⟨k, hk, rfl⟩ := h
  have hlong : (s.takeWhile p).length ≤ s.length := (List.takeWhile_prefix p).length_le
  rw [List.length_take]
  omega

theorem results_seq {a b : Pattern} (h : m ∈ (Pattern.seq a b).results prev s) :
    ∃ k ∈ a.results prev s, ∃ j ∈ b.results (k.1.getLast?.or prev) k.2, m = (k.1 ++ j.1, j.2) := by
  simp only [Pattern.results, List.mem_flatMap, List.mem_map] at h
  obtain ⟨k, hk, j, hj, rfl⟩ := h
  exact ⟨k, hk, j, hj, rfl⟩

theorem results_alt {a b : Pattern} (h : m ∈ (Pattern.alt a b).results prev s) : m ∈ a.results prev s ∨ m ∈ b.results prev s := by
  simp only [Pattern.results] at h
  exact List.mem_append.mp h

theorem results_literal {one : UInt16 → Pattern} {same : UInt16 → UInt16 → Prop}
    (hone : ∀ d prev s, ∀ m ∈ (one d).results prev s, ∃ c rest, s = c :: rest ∧ same d c ∧ m = ([c], rest)) {l : List UInt16}
    (h : m ∈ (literal one l).results prev s) : List.Forall₂ same l m.1 := by
  induction l generalizing prev s m with
  | nil =>
    obtain ⟨-, hall, -⟩ := results_chars h
    cases hm : m.1 with
    | nil => exact List.Forall₂.nil
    | cons c rest => exact absurd (hall c (by rw [hm]; exact List.mem_cons_self ..)) (by simp)
  | cons d l ih =>
    cases l with
    | nil =>
      obtain ⟨c, rest, -, hsame, rfl⟩ := hone d _ _ _ h
      exact List.Forall₂.cons hsame List.Forall₂.nil
    | cons d' l =>
      obtain ⟨k, hk, j, hj, rfl⟩ := results_seq h
      obtain ⟨c, rest, -, hsame, rfl⟩ := hone d _ _ _ hk
      exact List.Forall₂.cons hsame (ih hj)

end Parts

/-- `lower` in upper or lower case. -/
def Caseless (lower c : UInt16) : Prop := c = lower ∨ c + 0x20 = lower

theorem results_letter {prev : Option UInt16} {s : List UInt16} {m : List UInt16 × List UInt16} {l : List UInt16}
    (h : m ∈ (literal letter l).results prev s) : List.Forall₂ Caseless l m.1 := by
  refine results_literal ?_ h
  intro d prev s m hm
  obtain ⟨c, rest, hs, hc, rfl⟩ := results_one hm
  have hsame : decide (c = d ∨ c + 0x20 = d) = true := hc
  have hcase : c = d ∨ c + 0x20 = d := of_decide_eq_true hsame
  exact ⟨c, rest, hs, hcase, rfl⟩

/-! ### What is taken first -/

theorem first_results {r : Pattern} {prev : Option UInt16} {s : List UInt16} {m : List UInt16 × List UInt16}
    (h : r.first prev s = some m) : m ∈ r.results prev s := List.mem_of_head? h

theorem first_append {r : Pattern} {prev : Option UInt16} {s x rest : List UInt16} (h : r.first prev s = some (x, rest)) : x ++ rest = s :=
  results_append r (first_results h)

theorem head?_flatMap {α β : Type} {f : α → List β} {l : List α} {b : β} (h : (l.flatMap f).head? = some b) :
    ∃ a ∈ l, (f a).head? = some b := by
  induction l with
  | nil => cases h
  | cons a l ih =>
    rw [List.flatMap_cons] at h
    cases hfa : f a with
    | nil =>
      rw [hfa, List.nil_append] at h
      obtain ⟨a', ha', hb⟩ := ih h
      exact ⟨a', List.mem_cons_of_mem _ ha', hb⟩
    | cons d l' =>
      refine ⟨a, List.mem_cons_self .., ?_⟩
      rw [hfa] at h ⊢
      exact h

/-- The last pattern of a sequence takes what it prefers. -/
theorem first_seq_last {a b : Pattern} {prev : Option UInt16} {s : List UInt16} {m : List UInt16 × List UInt16}
    (h : (Pattern.seq a b).first prev s = some m) :
    ∃ k ∈ a.results prev s, ∃ j, b.first (k.1.getLast?.or prev) k.2 = some j ∧ m = (k.1 ++ j.1, j.2) := by
  obtain ⟨k, hk, hhead⟩ := head?_flatMap h
  rw [List.head?_map, Option.map_eq_some_iff] at hhead
  obtain ⟨j, hj, rfl⟩ := hhead
  exact ⟨k, hk, j, hj, rfl⟩

/-- Where both parts take what they prefer, so does the sequence. -/
theorem first_seq {a b : Pattern} {prev : Option UInt16} {s x rest y rest' : List UInt16} (ha : a.first prev s = some (x, rest))
    (hb : b.first (x.getLast?.or prev) rest = some (y, rest')) : (Pattern.seq a b).first prev s = some (x ++ y, rest') := by
  unfold Pattern.first at ha hb ⊢
  obtain ⟨as, has⟩ : ∃ as, a.results prev s = (x, rest) :: as := by
    cases hres : a.results prev s with
    | nil =>
      rw [hres] at ha
      cases ha
    | cons m as =>
      rw [hres, List.head?_cons, Option.some.injEq] at ha
      exact ⟨as, by rw [ha]⟩
  simp only [Pattern.results]
  rw [has, List.flatMap_cons, List.head?_append, List.head?_map, hb]
  rfl

theorem first_chars (p : UInt16 → Bool) (least : ℕ) (prev : Option UInt16) (s : List UInt16) :
    (Pattern.chars p least).first prev s = if least ≤ (s.takeWhile p).length then some (s.takeWhile p, s.dropWhile p) else none := by
  unfold Pattern.first
  simp only [Pattern.results]
  have hsplit : s = s.takeWhile p ++ s.dropWhile p := List.takeWhile_append_dropWhile.symm
  have htake : s.take (s.takeWhile p).length = s.takeWhile p := (List.prefix_iff_eq_take.mp (List.takeWhile_prefix p)).symm
  have hdrop : s.drop (s.takeWhile p).length = s.dropWhile p := by
    have hall := List.take_append_drop (s.takeWhile p).length s
    rw [htake] at hall
    exact List.append_cancel_left (hall.trans hsplit)
  split
  · next hle =>
    obtain ⟨k, hk⟩ : ∃ k, (s.takeWhile p).length + 1 - least = k + 1 := ⟨(s.takeWhile p).length - least, by omega⟩
    rw [hk, List.range_succ_eq_map, List.map_cons, List.head?_cons, Nat.sub_zero, htake, hdrop]
  · next hlt =>
    have hzero : (s.takeWhile p).length + 1 - least = 0 := by omega
    rw [hzero]
    rfl

theorem first_boundary {prev : Option UInt16} {s : List UInt16} (h : wordAt prev ≠ wordAt s.head?) :
    Pattern.boundary.first prev s = some ([], s) := by
  unfold Pattern.first
  simp only [Pattern.results]
  rw [if_neg h]
  rfl

theorem takeWhile_stop {p : UInt16 → Bool} {x rest : List UInt16} (hx : ∀ c ∈ x, p c = true) (hrest : ∀ c ∈ rest.head?, p c = false) :
    (x ++ rest).takeWhile p = x := by
  rw [List.takeWhile_append_of_pos hx]
  cases rest with
  | nil => exact List.append_nil x
  | cons c rest =>
    have hc := hrest c rfl
    rw [List.takeWhile_cons_of_neg (by rw [hc]; decide), List.append_nil]

theorem first_chars_stop {p : UInt16 → Bool} {least : ℕ} {x rest : List UInt16} (hlen : least ≤ x.length) (hx : ∀ c ∈ x, p c = true)
    (hrest : ∀ c ∈ rest.head?, p c = false) (prev : Option UInt16) : (Pattern.chars p least).first prev (x ++ rest) = some (x, rest) := by
  have htake := takeWhile_stop hx hrest
  have hdrop : (x ++ rest).dropWhile p = rest := by
    have hall := List.takeWhile_append_dropWhile (p := p) (l := x ++ rest)
    rw [htake] at hall
    exact List.append_cancel_left hall
  rw [first_chars, htake, hdrop, if_pos hlen]

/-- A class gives units back until the rest of the pattern goes on. -/
theorem first_chars_seq {p : UInt16 → Bool} {least : ℕ} {b : Pattern} {prev : Option UInt16} {x rest y rest' : List UInt16}
    (hlen : least ≤ x.length) (hx : ∀ c ∈ x, p c = true) (hb : b.first (x.getLast?.or prev) rest = some (y, rest'))
    (hlonger : ∀ z z', z ≠ [] → rest = z ++ z' → (∀ c ∈ z, p c = true) → b.results ((x ++ z).getLast?.or prev) z' = []) :
    (Pattern.seq (.chars p least) b).first prev (x ++ rest) = some (x ++ y, rest') := by
  unfold Pattern.first at hb ⊢
  simp only [Pattern.results]
  have htake : ((x ++ rest).takeWhile p).length = (rest.takeWhile p).length + x.length := by
    rw [List.takeWhile_append_of_pos hx, List.length_append, Nat.add_comm]
  have hcount : (rest.takeWhile p).length + x.length + 1 - least = (rest.takeWhile p).length + (x.length - least + 1) := by omega
  rw [htake, hcount, List.range_add, List.map_append, List.flatMap_append]
  have hnil : ((List.range (rest.takeWhile p).length).map fun k =>
      ((x ++ rest).take ((rest.takeWhile p).length + x.length - k), (x ++ rest).drop ((rest.takeWhile p).length + x.length - k))).flatMap
      (fun m => (b.results (m.1.getLast?.or prev) m.2).map fun k => (m.1 ++ k.1, k.2)) = [] := by
    rw [List.flatMap_eq_nil_iff]
    intro m hm
    obtain ⟨k, hk, rfl⟩ := List.mem_map.mp hm
    rw [List.mem_range] at hk
    obtain ⟨j, hj⟩ : ∃ j, (rest.takeWhile p).length + x.length - k = x.length + (j + 1) := ⟨(rest.takeWhile p).length - k - 1, by omega⟩
    have hle : j + 1 ≤ (rest.takeWhile p).length := by omega
    have hlong : (rest.takeWhile p).length ≤ rest.length := (List.takeWhile_prefix p).length_le
    rw [hj, List.take_length_add_append, List.drop_length_add_append]
    have hne : rest.take (j + 1) ≠ [] := by
      intro h
      have hzero := congrArg List.length h
      rw [List.length_take, List.length_nil] at hzero
      omega
    rw [hlonger (rest.take (j + 1)) (rest.drop (j + 1)) hne (List.take_append_drop _ _).symm fun c hc => mem_takeWhile_of_take hle hc]
    rfl
  rw [hnil, List.nil_append, List.range_succ_eq_map, List.map_cons, List.map_cons, List.flatMap_cons, Nat.add_zero,
    Nat.add_sub_cancel_left, List.take_left, List.drop_left, List.head?_append, List.head?_map, hb]
  rfl

/-- What a class leaves does not begin with a unit of it. -/
theorem chars_rest {p : UInt16 → Bool} {least : ℕ} {prev : Option UInt16} {s x rest : List UInt16}
    (h : (Pattern.chars p least).first prev s = some (x, rest)) : ∀ c ∈ rest.head?, p c = false := by
  rw [first_chars] at h
  split at h
  · cases h
    intro c hc
    have hhead := List.head?_dropWhile_not p s
    rw [Option.mem_def] at hc
    rw [hc] at hhead
    simpa using hhead
  · cases h

theorem first_alt {a b : Pattern} {prev : Option UInt16} {s : List UInt16} {m : List UInt16 × List UInt16}
    (h : (Pattern.alt a b).first prev s = some m) : a.first prev s = some m ∨ b.first prev s = some m := by
  unfold Pattern.first at h ⊢
  simp only [Pattern.results] at h
  rw [List.head?_append, Option.or_eq_some_iff] at h
  exact h.imp id And.right

theorem first_none {r : Pattern} {prev : Option UInt16} {s : List UInt16} (h : ∀ m, m ∉ r.results prev s) : r.first prev s = none := by
  unfold Pattern.first
  rw [List.eq_nil_iff_forall_not_mem.mpr h]
  rfl

/-- A part that cannot fail leaves the one before it what it prefers. -/
theorem first_seq_total {a b : Pattern} (hb : ∀ prev s, b.results prev s ≠ []) {prev : Option UInt16} {s : List UInt16}
    {m : List UInt16 × List UInt16} (h : (Pattern.seq a b).first prev s = some m) :
    ∃ k j, a.first prev s = some k ∧ b.first (k.1.getLast?.or prev) k.2 = some j ∧ m = (k.1 ++ j.1, j.2) := by
  unfold Pattern.first at h ⊢
  simp only [Pattern.results] at h
  cases hres : a.results prev s with
  | nil =>
    rw [hres] at h
    cases h
  | cons k as =>
    rw [hres, List.flatMap_cons] at h
    cases hk : b.results (k.1.getLast?.or prev) k.2 with
    | nil => exact absurd hk (hb _ _)
    | cons j js =>
      rw [hk, List.map_cons, List.cons_append, List.head?_cons, Option.some.injEq] at h
      exact ⟨k, j, rfl, by rw [hk]; rfl, h.symm⟩

/-- What is left after some turns is what is left after one. -/
theorem first_star {a : Pattern} {left : List UInt16 → Prop} (hleft : ∀ prev s x rest, a.first prev s = some (x, rest) → left rest)
    (hsome : ∀ prev s, ∀ m ∈ a.results prev s, m.1 ≠ []) {prev : Option UInt16} {s x rest : List UInt16}
    (h : (Pattern.star a).first prev s = some (x, rest)) : x = [] ∨ left rest := by
  have hturns : ∀ (n : ℕ) {prev : Option UInt16} {s : List UInt16} {m : List UInt16 × List UInt16},
      (turns a.results n prev s).head? = some m → m.1 = [] ∨ left m.2 := by
    intro n
    induction n with
    | zero =>
      intro prev s m h
      rw [turns, List.head?_cons, Option.some.injEq] at h
      exact Or.inl (by rw [← h])
    | succ n ih =>
      intro prev s m h
      have hall : (a.results prev s).filter (fun m => decide (m.1 ≠ [])) = a.results prev s :=
        List.filter_eq_self.mpr fun m hm => decide_eq_true (hsome prev s m hm)
      rw [turns, hall] at h
      cases hres : a.results prev s with
      | nil =>
        rw [hres] at h
        rw [List.flatMap_nil, List.nil_append, List.head?_cons, Option.some.injEq] at h
        exact Or.inl (by rw [← h])
      | cons k as =>
        rw [hres, List.flatMap_cons, List.append_assoc, List.head?_append, List.head?_map] at h
        have hk : left k.2 := hleft prev s k.1 k.2 (by unfold Pattern.first; rw [hres]; rfl)
        cases hj : (turns a.results n (k.1.getLast?.or prev) k.2).head? with
        | none =>
          cases n with
          | zero => cases hj
          | succ n =>
            rw [turns, List.head?_append] at hj
            simp at hj
        | some j =>
          rw [hj, Option.map_some, Option.some_or, Option.some.injEq] at h
          right
          rw [← h]
          rcases ih hj with hnil | hj'
          · have happend : j.1 ++ j.2 = k.2 := turns_append (fun _ _ _ hm => results_append a hm) (List.mem_of_head? hj)
            rw [hnil, List.nil_append] at happend
            rw [happend]
            exact hk
          · exact hj'
  exact hturns _ h

/-! ### Words and breaks -/

section Words
variable {tok : UInt16 → Prop}

/-- A word lies on one side of a unit that it cannot have. -/
theorem infix_break {w a b : List UInt16} {c : UInt16} (hw : ∀ d ∈ w, tok d) (hc : ¬ tok c) (h : w <:+: a ++ c :: b) :
    w <:+: a ∨ w <:+: b := by
  obtain ⟨x, y, hxy⟩ := h
  rcases List.append_eq_append_iff.mp hxy with ⟨a', ha, -⟩ | ⟨c', hxw, hcb⟩
  · left
    exact ⟨x, a', ha.symm⟩
  · cases c' with
    | nil =>
      left
      exact ⟨x, [], by rw [List.append_nil, hxw, List.append_nil]⟩
    | cons d c' =>
      rw [List.cons_append, List.cons.injEq] at hcb
      obtain ⟨rfl, hb⟩ := hcb
      rcases List.append_eq_append_iff.mp hxw with ⟨a', -, hw'⟩ | ⟨c'', -, hcw⟩
      · exact absurd (hw c (by rw [hw']; simp)) hc
      · cases c'' with
        | nil =>
          rw [List.nil_append] at hcw
          exact absurd (hw c (by rw [← hcw]; simp)) hc
        | cons e c'' =>
          rw [List.cons_append, List.cons.injEq] at hcw
          right
          exact ⟨c'', y, by rw [hb, hcw.2]⟩

/-- A text that no word goes into from outside. -/
def Gap (tok : UInt16 → Prop) (gap : List UInt16) : Prop := ∃ c g d, gap = c :: (g ++ [d]) ∧ ¬ tok c ∧ ¬ tok d

theorem infix_gap {w a b gap : List UInt16} (hw : ∀ d ∈ w, tok d) (hgap : Gap tok gap) (hnot : ¬ w <:+: gap) (h : w <:+: a ++ gap ++ b) :
    w <:+: a ∨ w <:+: b := by
  obtain ⟨c, g, d, rfl, hc, hd⟩ := hgap
  have hsplit : a ++ c :: (g ++ [d]) ++ b = a ++ c :: (g ++ d :: b) := by simp
  rw [hsplit] at h
  rcases infix_break hw hc h with ha | hb
  · exact Or.inl ha
  · rcases infix_break hw hd hb with hg | hb
    · exact absurd (hg.trans ⟨[c], [d], by simp⟩) hnot
    · exact Or.inr hb

variable {r : Pattern} {f : List UInt16 → List UInt16}

/-- The text `k` before the place is as it was, and `prev` its last unit. -/
def Follows (k : List UInt16) (prev : Option UInt16) : Prop := k = [] ∨ k.getLast? = prev

theorem Follows.tail {x tail : List UInt16} (h : tail <:+ x) : Follows tail x.getLast? := by
  obtain ⟨front, rfl⟩ := h
  by_cases hnil : tail = []
  · exact Or.inl hnil
  · right
    rw [List.getLast?_append_of_ne_nil _ hnil]

/-- A replacement keeps a beginning and an end of what was taken, around a gap. -/
structure Splits (tok : UInt16 → Prop) (G : List UInt16 → Prop) (y lead tail : List UInt16) : Prop where
  gap : ∃ gap, y = lead ++ gap ++ tail ∧ Gap tok gap ∧ ∀ w, G w → ¬ w <:+: gap

variable {G A Q : List UInt16 → Prop}

theorem Splits.word {y lead tail : List UInt16} (h : Splits tok G y lead tail) {w : List UInt16} (hG : G w) (hw : ∀ d ∈ w, tok d)
    {k rest : List UInt16} (hin : w <:+: k ++ (y ++ rest)) : w <:+: k ++ lead ∨ w <:+: tail ++ rest := by
  obtain ⟨gap, rfl, hgap, hnot⟩ := h.gap
  have hsplit : k ++ (lead ++ gap ++ tail ++ rest) = (k ++ lead) ++ gap ++ (tail ++ rest) := by simp
  rw [hsplit] at hin
  exact infix_gap hw hgap (hnot w hG) hin

/-- A gap that is not longer than the words. -/
theorem Splits.of_short {n : ℕ} (hsolid : ∀ w, G w → ∀ d ∈ w, tok d) (hlong : ∀ w, G w → n ≤ w.length) {y lead g tail : List UInt16}
    {c d : UInt16} (hy : y = lead ++ c :: (g ++ [d]) ++ tail) (hc : ¬ tok c) (hd : ¬ tok d) (hlen : (c :: (g ++ [d])).length ≤ n) :
    Splits tok G y lead tail := by
  refine ⟨c :: (g ++ [d]), hy, ⟨c, g, d, rfl, hc, hd⟩, ?_⟩
  intro w hw hin
  have heq : w = c :: (g ++ [d]) := hin.eq_of_length_le (hlen.trans (hlong w hw))
  exact hc (hsolid w hw c (by rw [heq]; exact List.mem_cons_self ..))

/-- The words of the text after `replace` are words of the text before it, or of `A`. -/
theorem replaceFrom_word (hsolid : ∀ w, G w → ∀ d ∈ w, tok d) (hQ : ∀ a b, b <:+: a → Q a → Q b)
    (hf : ∀ k prev s x rest, Follows k prev → Q (k ++ s) → r.first prev s = some (x, rest) → x ≠ [] →
      ∃ lead tail, Splits tok G (f x) lead tail ∧ (∀ w, G w → w <:+: k ++ lead → w <:+: k ++ x ∨ A w) ∧ tail <:+ x)
    {n : ℕ} {k : List UInt16} {prev : Option UInt16} {s : List UInt16} (hk : Follows k prev) (hs : Q (k ++ s)) {w : List UInt16}
    (hw : G w) (h : w <:+: k ++ replaceFrom r f n prev s) : w <:+: k ++ s ∨ A w := by
  induction n generalizing k prev s with
  | zero => exact Or.inl h
  | succ n ih =>
    cases s with
    | nil =>
      rw [replaceFrom] at h
      exact Or.inl h
    | cons c rest =>
      have hkeep (h : w <:+: k ++ c :: replaceFrom r f n (some c) rest) : w <:+: k ++ c :: rest ∨ A w := by
        have hsplit : ∀ l : List UInt16, k ++ c :: l = (k ++ [c]) ++ l := by simp
        rw [hsplit] at h hs ⊢
        exact ih (Or.inr List.getLast?_concat) hs h
      rw [replaceFrom] at h
      split at h
      · exact hkeep h
      · exact hkeep h
      · next x xs rest' hfirst =>
        obtain ⟨lead, tail, hsplits, hlead, htail⟩ := hf k prev _ _ _ hk hs hfirst (by simp)
        have happend := first_append hfirst
        have hrest : tail ++ rest' <:+: k ++ c :: rest := by
          obtain ⟨front, hfront⟩ := htail
          exact ⟨k ++ front, [], by rw [← happend, ← hfront]; simp⟩
        rcases hsplits.word hw (hsolid w hw) h with h | h
        · rcases hlead w hw h with h | h
          · exact Or.inl (h.trans ⟨[], rest', by rw [← happend]; simp⟩)
          · exact Or.inr h
        · rcases ih (Follows.tail htail) (hQ _ _ hrest hs) h with h | h
          · exact Or.inl (h.trans hrest)
          · exact Or.inr h

/-- Text with a visible unit stays visible. -/
theorem replaceFrom_visible (visible : UInt16 → Prop) (hf : ∀ prev s x rest, r.first prev s = some (x, rest) → ∃ c ∈ f x, visible c)
    {n : ℕ} {prev : Option UInt16} {s : List UInt16} (h : ∃ c ∈ s, visible c) : ∃ c ∈ replaceFrom r f n prev s, visible c := by
  induction n generalizing prev s with
  | zero => exact h
  | succ n ih =>
    cases s with
    | nil =>
      obtain ⟨c, hc, -⟩ := h
      cases hc
    | cons c rest =>
      have hkeep : ∃ d ∈ c :: replaceFrom r f n (some c) rest, visible d := by
        obtain ⟨d, hd, hvisible⟩ := h
        rcases List.mem_cons.mp hd with rfl | hd
        · exact ⟨d, List.mem_cons_self .., hvisible⟩
        · have hlater : ∃ e ∈ replaceFrom r f n (some c) rest, visible e := ih ⟨d, hd, hvisible⟩
          obtain ⟨e, he, hvisible⟩ := hlater
          exact ⟨e, List.mem_cons_of_mem _ he, hvisible⟩
      rw [replaceFrom]
      split
      · exact hkeep
      · exact hkeep
      · next x xs rest' hfirst =>
        obtain ⟨d, hd, hvisible⟩ := hf _ _ _ _ hfirst
        exact ⟨d, List.mem_append_left _ hd, hvisible⟩

/-! ### A text with a marked part -/

variable {brk : UInt16 → Prop}

/-- A text that ends with a break. -/
def Ended (brk : UInt16 → Prop) (u : List UInt16) : Prop := ∃ c, u.getLast? = some c ∧ brk c

theorem Ended.ne_nil {u : List UInt16} (h : Ended brk u) : u ≠ [] := by
  obtain ⟨c, hc, -⟩ := h
  rintro rfl
  cases hc

theorem Ended.append {u : List UInt16} (h : Ended brk u) (a : List UInt16) : Ended brk (a ++ u) := by
  obtain ⟨c, hc, hbrk⟩ := h
  exact ⟨c, by rw [List.getLast?_append, hc]; rfl, hbrk⟩

theorem Ended.of_append {a u : List UInt16} (h : Ended brk (a ++ u)) (hu : u ≠ []) : Ended brk u := by
  obtain ⟨c, hc, hbrk⟩ := h
  rw [List.getLast?_append_of_ne_nil _ hu] at hc
  exact ⟨c, hc, hbrk⟩

/-- What `replace` writes before the marked part: it comes to that part with `o` written, -/
structure Reaches (r : Pattern) (f : List UInt16 → List UInt16) (brk : UInt16 → Prop) (G A : List UInt16 → Prop)
    (marked k u out o : List UInt16) : Prop where
  rest : ∃ n, out = o ++ replaceFrom r f n u.getLast? marked ∧ marked.length ≤ n
  ended : Ended brk o
  words : ∀ w, G w → w <:+: k ++ o → w <:+: k ++ u ∨ A w

/-- or one of its matches covers that part. -/
def Covers (G A : List UInt16 → Prop) (v k u out : List UInt16) : Prop := ∀ w, G w → w <:+: k ++ out → w <:+: k ++ u ∨ w <:+: v ∨ A w

/-- What one match does: it is over before the end of `u`, or it covers the marked part too. -/
def Meets (tok : UInt16 → Prop) (G A : List UInt16 → Prop) (marked v k u x y rest : List UInt16) : Prop :=
  ∃ lead tail, Splits tok G y lead tail ∧
    ((∃ u', u = x ++ u' ∧ u' ≠ [] ∧ tail <:+ x ∧ ∀ w, G w → w <:+: k ++ lead → w <:+: k ++ x ∨ A w) ∨
      ∃ v₁, x = u ++ (marked ++ v₁) ∧ v = v₁ ++ rest ∧ tail <:+ v₁ ∧ ∀ w, G w → w <:+: k ++ lead → w <:+: k ++ u ∨ A w)

theorem replaceFrom_before {marked v : List UInt16} (hsolid : ∀ w, G w → ∀ d ∈ w, tok d) (hQ : ∀ a b, b <:+: a → Q a → Q b)
    (hmatch : ∀ k prev u x rest, Follows k prev → Q (k ++ u) → Ended brk u → r.first prev (u ++ (marked ++ v)) = some (x, rest) →
      x ≠ [] → Meets tok G A marked v k u x (f x) rest)
    (hv : ∀ n tail prev rest, Follows tail prev → tail ++ rest <:+ v → ∀ w, G w → w <:+: tail ++ replaceFrom r f n prev rest →
      w <:+: v ∨ A w)
    {n : ℕ} {k : List UInt16} {prev : Option UInt16} {u : List UInt16} (hn : (u ++ (marked ++ v)).length ≤ n) (hk : Follows k prev)
    (hu : Q (k ++ u)) (hended : Ended brk u) :
    (∃ o, Reaches r f brk G A (marked ++ v) k u (replaceFrom r f n prev (u ++ (marked ++ v))) o) ∨
      Covers G A v k u (replaceFrom r f n prev (u ++ (marked ++ v))) := by
  induction n generalizing k prev u with
  | zero => exact absurd (List.append_eq_nil_iff.mp (List.eq_nil_of_length_eq_zero (Nat.le_zero.mp hn))).1 hended.ne_nil
  | succ n ih =>
    cases u with
    | nil => exact absurd rfl hended.ne_nil
    | cons c u =>
      have hlen : (u ++ (marked ++ v)).length ≤ n := by
        rw [List.cons_append, List.length_cons] at hn
        omega
      have hsplit : ∀ l : List UInt16, k ++ c :: l = (k ++ [c]) ++ l := by simp
      have hkeep : (∃ o, Reaches r f brk G A (marked ++ v) k (c :: u) (c :: replaceFrom r f n (some c) (u ++ (marked ++ v))) o) ∨
          Covers G A v k (c :: u) (c :: replaceFrom r f n (some c) (u ++ (marked ++ v))) := by
        by_cases hnil : u = []
        · rw [hnil] at hended hlen ⊢
          left
          exact ⟨[c], ⟨n, rfl, hlen⟩, hended, fun w _ h => Or.inl h⟩
        · have hended' : Ended brk u := Ended.of_append (a := [c]) hended hnil
          rw [hsplit] at hu
          rcases ih (k := k ++ [c]) hlen (Or.inr List.getLast?_concat) hu hended' with ⟨o, ⟨m, hout, hm⟩, ho, hwords⟩ | hcovers
          · left
            refine ⟨c :: o, ⟨m, ?_, hm⟩, ho.append [c], ?_⟩
            · rw [hout, List.getLast?_cons_of_ne_nil hnil, List.cons_append]
            · intro w hw h
              rw [hsplit] at h ⊢
              exact hwords w hw h
          · right
            intro w hw h
            rw [hsplit] at h ⊢
            exact hcovers w hw h
      rw [List.cons_append, replaceFrom]
      split
      · exact hkeep
      · exact hkeep
      · next x xs rest' hfirst =>
        rw [← List.cons_append] at hfirst
        obtain ⟨lead, tail, hsplits, hcase⟩ := hmatch k prev _ _ _ hk hu hended hfirst (by simp)
        have happend := first_append hfirst
        rcases hcase with ⟨u', hu', hne, htail, hlead⟩ | ⟨v₁, hx, hvrest, htail, hlead⟩
        · -- The match is over: the rest of `u` comes before the marked part.
          have hrest : rest' = u' ++ (marked ++ v) := by
            rw [hu', List.append_assoc] at happend
            exact List.append_cancel_left happend
          have htailu : tail ++ u' <:+: k ++ c :: u := by
            obtain ⟨front, hfront⟩ := htail
            exact ⟨k ++ front, [], by rw [hu', ← hfront]; simp⟩
          have hended' : Ended brk u' := by
            rw [hu'] at hended
            exact hended.of_append hne
          have hlen' : (u' ++ (marked ++ v)).length ≤ n := by
            have hshorter : (u' ++ (marked ++ v)).length < ((c :: u) ++ (marked ++ v)).length := by
              rw [hu']
              simp only [List.length_append, List.length_cons]
              omega
            omega
          have hxu : ∀ w, w <:+: k ++ x :: xs → w <:+: k ++ c :: u := fun w h =>
            h.trans ⟨[], u', by rw [hu']; simp⟩
          rw [hrest]
          rcases ih hlen' (Follows.tail htail) (hQ _ _ htailu hu) hended' with ⟨o, ⟨m, hout, hm⟩, ho, hwords⟩ | hcovers
          · left
            refine ⟨f (x :: xs) ++ o, ⟨m, ?_, hm⟩, ho.append _, ?_⟩
            · rw [hout, hu', List.getLast?_append_of_ne_nil _ hne, List.append_assoc]
            · intro w hw h
              rcases hsplits.word hw (hsolid w hw) h with h | h
              · rcases hlead w hw h with h | h
                · exact Or.inl (hxu w h)
                · exact Or.inr h
              · rcases hwords w hw h with h | h
                · exact Or.inl (h.trans htailu)
                · exact Or.inr h
          · right
            intro w hw h
            rcases hsplits.word hw (hsolid w hw) h with h | h
            · rcases hlead w hw h with h | h
              · exact Or.inl (hxu w h)
              · exact Or.inr (Or.inr h)
            · rcases hcovers w hw h with h | h
              · exact Or.inl (h.trans htailu)
              · exact Or.inr h
        · -- The match covers the marked part: only `v` can go on.
          right
          intro w hw h
          have htailv : tail ++ rest' <:+ v := by
            obtain ⟨front, hfront⟩ := htail
            exact ⟨front, by rw [hvrest, ← hfront]; simp⟩
          have hfollows : Follows tail (x :: xs).getLast? := by
            refine Follows.tail (htail.trans ⟨(c :: u) ++ marked, ?_⟩)
            rw [hx]
            simp
          rcases hsplits.word hw (hsolid w hw) h with h | h
          · rcases hlead w hw h with h | h
            · exact Or.inl h
            · exact Or.inr (Or.inr h)
          · exact Or.inr (hv n tail _ _ hfollows htailv w hw h)

/-- Where nothing of the marked part starts a match, it is copied. -/
theorem replaceFrom_copy {marked v : List UInt16} {prev : Option UInt16}
    (hmatch : ∀ a b, marked = a ++ b → b ≠ [] → r.first (a.getLast?.or prev) (b ++ v) = none) {n : ℕ}
    (hn : (marked ++ v).length ≤ n) :
    ∃ m, replaceFrom r f n prev (marked ++ v) = marked ++ replaceFrom r f m (marked.getLast?.or prev) v ∧ v.length ≤ m := by
  induction marked generalizing n prev with
  | nil => exact ⟨n, rfl, hn⟩
  | cons c marked ih =>
    cases n with
    | zero => exact absurd hn (by simp)
    | succ n =>
      have hnone := hmatch [] (c :: marked) rfl (by simp)
      have hlen : (marked ++ v).length ≤ n := by
        rw [List.cons_append, List.length_cons] at hn
        omega
      have hlast : ∀ l : List UInt16, (c :: l).getLast?.or prev = l.getLast?.or (some c) := by
        intro l
        rw [List.getLast?_cons, Option.or_some]
        rfl
      have hlater : ∀ a b, marked = a ++ b → b ≠ [] → r.first (a.getLast?.or (some c)) (b ++ v) = none := by
        intro a b hab hb
        rw [← hlast]
        exact hmatch (c :: a) b (by rw [hab]; rfl) hb
      obtain ⟨m, hm, hle⟩ := ih hlater hlen
      refine ⟨m, ?_, hle⟩
      rw [List.cons_append] at hnone ⊢
      rw [replaceFrom, hlast, List.cons_append, ← hm]
      rw [show ([] : List UInt16).getLast?.or prev = prev from rfl] at hnone
      rw [hnone]

theorem replaceFrom_match {n : ℕ} {prev : Option UInt16} {s x rest : List UInt16} (hfirst : r.first prev s = some (x, rest)) (hx : x ≠ [])
    (hn : s.length ≤ n) : ∃ m, replaceFrom r f n prev s = f x ++ replaceFrom r f m x.getLast? rest ∧ rest.length ≤ m := by
  obtain ⟨c, x, rfl⟩ := List.exists_cons_of_ne_nil hx
  have happend := first_append hfirst
  rw [List.cons_append] at happend
  subst happend
  cases n with
  | zero => exact absurd hn (by simp)
  | succ n =>
    refine ⟨n, by rw [replaceFrom, hfirst], ?_⟩
    simp only [List.length_cons, List.length_append] at hn
    omega

/-- A text that begins with a break begins with it after `replace`. -/
theorem replaceFrom_break {c : UInt16} {v : List UInt16} (hnone : ∀ prev, r.first prev (c :: v) = none) (n : ℕ) (prev : Option UInt16) :
    ∃ v', replaceFrom r f n prev (c :: v) = c :: v' := by
  cases n with
  | zero => exact ⟨v, rfl⟩
  | succ n =>
    rw [replaceFrom, hnone prev]
    exact ⟨_, rfl⟩

/-! ### One `replace` after another -/

/-- No words of `G` but those of `A`. -/
def Clean (G A : List UInt16 → Prop) (x : List UInt16) : Prop := ∀ w, G w → w <:+: x → A w

theorem Clean.within {x y : List UInt16} (h : Clean G A y) (hxy : x <:+: y) : Clean G A x := fun w hw hin => h w hw (hin.trans hxy)

/-- A text with a marked part between `left` and `right`, clean but for that part. -/
structure Carries (left right : UInt16 → Prop) (kind G A : List UInt16 → Prop) (x u marked v : List UInt16) : Prop where
  text : x = u ++ (marked ++ v)
  start : u = [] ∨ Ended left u
  kind : kind marked
  stop : ∀ c ∈ v.head?, right c
  before : Clean G A u
  after : Clean G A v

/-- What is to be known of one `replace` on any text: what it keeps of a match, -/
structure Rewrite (tok : UInt16 → Prop) (G A Q : List UInt16 → Prop) (r : Pattern) (f lead tail : List UInt16 → List UInt16) : Prop where
  solid : ∀ w, G w → ∀ d ∈ w, tok d
  closed : ∀ a b, b <:+: a → Q a → Q b
  splits : ∀ prev s x rest, r.first prev s = some (x, rest) → Splits tok G (f x) (lead x) (tail x)
  suffix : ∀ x, tail x <:+ x
  word : ∀ k prev s x rest, Follows k prev → Q (k ++ x) → r.first prev s = some (x, rest) →
    ∀ w, G w → w <:+: k ++ lead x → w <:+: k ++ x ∨ A w

/-- and on one with a marked part: where its matches end and what becomes of that part. -/
structure Pass (tok left right : UInt16 → Prop) (G A Q : List UInt16 → Prop) (r : Pattern) (f lead tail : List UInt16 → List UInt16)
    (kind kind' : List UInt16 → Prop) : Prop extends Rewrite tok G A Q r f lead tail where
  place : ∀ prev u marked v x rest, Ended left u → kind marked → (∀ c ∈ v.head?, right c) →
    r.first prev (u ++ (marked ++ v)) = some (x, rest) →
    (∃ u', u = x ++ u' ∧ u' ≠ []) ∨ ∃ v₁, x = u ++ (marked ++ v₁) ∧ v = v₁ ++ rest
  covers : ∀ k prev u marked v v₁ rest, Follows k prev → Q (k ++ u) → Ended left u → kind marked → (∀ c ∈ v.head?, right c) →
    r.first prev (u ++ (marked ++ v)) = some (u ++ (marked ++ v₁), rest) → v = v₁ ++ rest →
    tail (u ++ (marked ++ v₁)) <:+ v₁ ∧ ∀ w, G w → w <:+: k ++ lead (u ++ (marked ++ v₁)) → w <:+: k ++ u ∨ A w
  arrive : ∀ n prev marked v, kind marked → (∀ c ∈ v.head?, right c) → Clean G A v → Q v → (∀ c ∈ prev, left c) →
    (marked ++ v).length ≤ n →
    ∃ marked' v', replaceFrom r f n prev (marked ++ v) = marked' ++ v' ∧ kind' marked' ∧ (∀ c ∈ v'.head?, right c) ∧ Clean G A v'

section Pass
variable {left right : UInt16 → Prop} {lead tail : List UInt16 → List UInt16} {kind kind' : List UInt16 → Prop}

theorem Rewrite.from_word (rewr : Rewrite tok G A Q r f lead tail) {n : ℕ} {k : List UInt16} {prev : Option UInt16}
    {s : List UInt16} (hk : Follows k prev) (hs : Q (k ++ s)) {w : List UInt16} (hw : G w) (h : w <:+: k ++ replaceFrom r f n prev s) :
    w <:+: k ++ s ∨ A w := by
  refine replaceFrom_word rewr.solid rewr.closed ?_ hk hs hw h
  intro k prev s x rest hk hs hfirst _
  have hx : Q (k ++ x) := rewr.closed _ _ ⟨[], rest, by rw [← first_append hfirst]; simp⟩ hs
  exact ⟨lead x, tail x, rewr.splits _ _ _ _ hfirst, rewr.word _ _ _ _ _ hk hx hfirst, rewr.suffix x⟩

theorem Rewrite.from_clean (rewr : Rewrite tok G A Q r f lead tail) {n : ℕ} {prev : Option UInt16} {s : List UInt16}
    (hs : Q s) (hclean : Clean G A s) : Clean G A (replaceFrom r f n prev s) := by
  intro w hw h
  rcases rewr.from_word (k := []) (Or.inl rfl) hs hw h with h | h
  · exact hclean w hw h
  · exact h

/-- The text after the marked part goes on with a break. -/
theorem replaceFrom_stop (hbreak : ∀ c rest prev, right c → r.first prev (c :: rest) = none) {v : List UInt16}
    (hv : ∀ c ∈ v.head?, right c) (n : ℕ) (prev : Option UInt16) : ∀ c ∈ (replaceFrom r f n prev v).head?, right c := by
  cases v with
  | nil => cases n <;> exact hv
  | cons d v =>
    have hd := hv d rfl
    obtain ⟨v', hv'⟩ := replaceFrom_break (f := f) (fun prev => hbreak d v prev hd) n prev
    rw [hv']
    exact hv

/-- A marked part where no match starts stays. -/
theorem Rewrite.arrive_copy (rewr : Rewrite tok G A Q r f lead tail) (hbreak : ∀ c rest prev, right c → r.first prev (c :: rest) = none)
    {marked v : List UInt16} {n : ℕ} {prev : Option UInt16}
    (hmatch : ∀ a b, marked = a ++ b → b ≠ [] → r.first (a.getLast?.or prev) (b ++ v) = none) (hstop : ∀ c ∈ v.head?, right c)
    (hafter : Clean G A v) (hv : Q v) (hn : (marked ++ v).length ≤ n) :
    ∃ v', replaceFrom r f n prev (marked ++ v) = marked ++ v' ∧ (∀ c ∈ v'.head?, right c) ∧ Clean G A v' := by
  obtain ⟨m, hm, -⟩ := replaceFrom_copy (f := f) hmatch hn
  exact ⟨_, hm, replaceFrom_stop hbreak hstop _ _, rewr.from_clean hv hafter⟩

/-- Where a match ends that has no unit of `left`, or that nothing of the class of the marked part follows or ends. -/
theorem place_of_rest {C : UInt16 → Prop} {x rest u marked v : List UInt16} (happend : x ++ rest = u ++ (marked ++ v))
    (hended : Ended left u) (hne : marked ≠ []) (hC : ∀ c ∈ marked, C c)
    (h : (∀ c ∈ x, ¬ left c) ∨ (∀ c ∈ x.getLast?, ¬ left c ∧ ¬ C c) ∨ ∀ c ∈ rest.head?, ¬ C c) :
    (∃ u', u = x ++ u' ∧ u' ≠ []) ∨ ∃ v₁, x = u ++ (marked ++ v₁) ∧ v = v₁ ++ rest := by
  obtain ⟨e, he, hleft⟩ := hended
  obtain ⟨d, marked', rfl⟩ := List.exists_cons_of_ne_nil hne
  rcases List.append_eq_append_iff.mp happend with ⟨u', hu', hrest⟩ | ⟨x', hx', hmarked⟩
  · by_cases hnil : u' = []
    · rw [hnil, List.append_nil] at hu'
      rw [hnil, List.nil_append] at hrest
      rw [hu'] at he
      rcases h with h | h | h
      · exact absurd hleft (h e (List.mem_of_getLast? he))
      · exact absurd hleft (h e he).1
      · exact absurd (hC d (List.mem_cons_self ..)) (h d (by rw [hrest]; rfl))
    · exact Or.inl ⟨u', hu', hnil⟩
  · rcases List.append_eq_append_iff.mp hmarked with ⟨v₁, hv₁, hv⟩ | ⟨left', hsplit, hrest⟩
    · exact Or.inr ⟨v₁, by rw [hx', hv₁], hv⟩
    · cases left' with
      | nil =>
        rw [List.append_nil] at hsplit
        exact Or.inr ⟨[], by rw [hx', hsplit, List.append_nil], hrest.symm⟩
      | cons d' left' =>
        -- The end of the match would be inside the marked part.
        rcases h with h | h | h
        · exact absurd hleft (h e (by rw [hx']; exact List.mem_append_left _ (List.mem_of_getLast? he)))
        · by_cases hnil : x' = []
          · rw [hnil, List.append_nil] at hx'
            rw [hx'] at h
            exact absurd hleft (h e he).1
          · obtain ⟨e', he'⟩ := Option.ne_none_iff_exists'.mp (mt List.getLast?_eq_none_iff.mp hnil)
            have hlast : x.getLast? = some e' := by rw [hx', List.getLast?_append_of_ne_nil _ hnil, he']
            have hmem : e' ∈ d :: marked' := by
              rw [hsplit]
              exact List.mem_append_left _ (List.mem_of_getLast? he')
            exact absurd (hC e' hmem) (h e' hlast).2
        · have hmem : d' ∈ d :: marked' := by
            rw [hsplit]
            exact List.mem_append_right _ (List.mem_cons_self ..)
          exact absurd (hC d' hmem) (h d' (by rw [hrest]; rfl))

theorem Pass.clean (pass : Pass tok left right G A Q r f lead tail kind kind') {x : List UInt16} (hx : Q x) (hclean : Clean G A x) :
    Clean G A (replaceAll r f x) := pass.toRewrite.from_clean hx hclean

theorem Pass.meets (pass : Pass tok left right G A Q r f lead tail kind kind') {marked v k u x rest : List UInt16} {prev : Option UInt16}
    (hk : Follows k prev) (hu : Q (k ++ u)) (hended : Ended left u) (hkind : kind marked) (hstop : ∀ c ∈ v.head?, right c)
    (hfirst : r.first prev (u ++ (marked ++ v)) = some (x, rest)) : Meets tok G A marked v k u x (f x) rest := by
  refine ⟨lead x, tail x, pass.splits _ _ _ _ hfirst, ?_⟩
  rcases pass.place _ _ _ _ _ _ hended hkind hstop hfirst with ⟨u', hu', hne⟩ | ⟨v₁, rfl, hv⟩
  · left
    have hx : Q (k ++ x) := pass.closed _ _ ⟨[], u', by rw [hu']; simp⟩ hu
    exact ⟨u', hu', hne, pass.suffix x, pass.word _ _ _ _ _ hk hx hfirst⟩
  · right
    obtain ⟨htail, hlead⟩ := pass.covers _ _ _ _ _ _ _ hk hu hended hkind hstop hfirst hv
    exact ⟨v₁, rfl, hv, htail, hlead⟩

theorem Pass.carries (pass : Pass tok left right G A Q r f lead tail kind kind') {x u marked v : List UInt16}
    (h : Carries left right kind G A x u marked v) (hu : Q u) (hv : Q v) :
    (∃ u' marked' v', Carries left right kind' G A (replaceAll r f x) u' marked' v') ∨ Clean G A (replaceAll r f x) := by
  rw [replaceAll, h.text]
  rcases h.start with rfl | hended
  · left
    obtain ⟨marked', v', hout, hkind, hstop, hafter⟩ :=
      pass.arrive (marked ++ v).length none marked v h.kind h.stop h.after hv (fun _ hc => nomatch hc) le_rfl
    exact ⟨[], marked', v', hout, Or.inl rfl, hkind, hstop, h.before, hafter⟩
  · have hlater : ∀ n tail' prev rest, Follows tail' prev → tail' ++ rest <:+ v →
        ∀ w, G w → w <:+: tail' ++ replaceFrom r f n prev rest → w <:+: v ∨ A w := by
      intro n tail' prev rest hfollows hsuffix w hw hin
      rcases pass.toRewrite.from_word hfollows (pass.closed _ _ hsuffix.isInfix hv) hw hin with hin | hin
      · exact Or.inl (hin.trans hsuffix.isInfix)
      · exact Or.inr hin
    rcases replaceFrom_before (k := []) (Q := Q) pass.solid pass.closed
      (fun k prev u x rest hk hq he hfirst _ => pass.meets hk hq he h.kind h.stop hfirst) hlater le_rfl (Or.inl rfl) hu hended with
      ⟨o, ⟨n, hout, hn⟩, ho, hwords⟩ | hcovers
    · left
      obtain ⟨c, hc, hleft⟩ := hended
      obtain ⟨marked', v', hout', hkind, hstop, hafter⟩ := pass.arrive n u.getLast? marked v h.kind h.stop h.after hv
        (fun d hd => by rw [hc, Option.mem_def, Option.some.injEq] at hd; rw [← hd]; exact hleft) hn
      refine ⟨o, marked', v', ?_, Or.inr ho, hkind, hstop, ?_, hafter⟩
      · rw [hout, hout']
      · intro w hw hin
        rcases hwords w hw hin with hin | hin
        · exact h.before w hw hin
        · exact hin
    · right
      intro w hw hin
      rcases hcovers w hw hin with hin | hin | hin
      · exact h.before w hw hin
      · exact h.after w hw hin
      · exact hin

end Pass

end Words

end AgentWorkflow.Lib.JsRegex
