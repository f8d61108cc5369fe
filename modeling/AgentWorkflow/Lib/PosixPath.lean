import AgentWorkflow.Lib.PyText

/-!
# Paths as `PurePosixPath` reads them

The root is kept apart; of the rest the empty components and `.` are dropped, `..` is kept.
-/

namespace AgentWorkflow.Lib.PosixPath

def slash : CodePoint := 0x2F
def backslash : CodePoint := 0x5C
def dot : CodePoint := 0x2E

structure Parsed where
  root : PyStr
  rel : List PyStr
deriving DecidableEq

def rootOf (s : PyStr) : PyStr :=
  match s.takeWhile fun c => c == slash with
  | [] => []
  | [_, _] => [slash, slash]
  | _ => [slash]

/-- `PurePosixPath(s)` -/
def parse (s : PyStr) : Parsed :=
  { root := rootOf s
    rel := (s.splitOn slash).filter fun p => decide (p ≠ [] ∧ p ≠ [dot]) }

def Parsed.isAbsolute (p : Parsed) : Bool := decide (p.root ≠ [])

def Parsed.parts (p : Parsed) : List PyStr := if p.root = [] then p.rel else p.root :: p.rel

/-- A component that names an entry of a directory. -/
structure Component (p : PyStr) : Prop where
  ne_nil : p ≠ []
  ne_dot : p ≠ [dot]
  ne_dots : p ≠ [dot, dot]
  no_slash : slash ∉ p
  no_backslash : backslash ∉ p

theorem splitOn_chars {x : CodePoint} (s : PyStr) : ∀ p ∈ s.splitOn x, ∀ c ∈ p, c ∈ s ∧ c ≠ x := by
  rw [List.splitOn_eq_splitOnP]
  induction s with
  | nil => simp
  | cons d s ih =>
    rw [List.splitOnP_cons_eq_if_modifyHead]
    split
    next hd =>
      intro p hp c hc
      rcases List.mem_cons.mp hp with rfl | hp
      · cases hc
      · have h := ih p hp c hc
        exact ⟨List.mem_cons_of_mem _ h.1, h.2⟩
    next hd =>
      have hne : d ≠ x := by simpa using hd
      intro p hp c hc
      cases hsplit : s.splitOnP (fun c => c == x) with
      | nil => simp [hsplit] at hp
      | cons q qs =>
        rw [hsplit] at ih
        rw [hsplit, List.modifyHead_cons] at hp
        rcases List.mem_cons.mp hp with rfl | hp
        · rcases List.mem_cons.mp hc with rfl | hc
          · exact ⟨List.mem_cons_self, hne⟩
          · have h := ih q List.mem_cons_self c hc
            exact ⟨List.mem_cons_of_mem _ h.1, h.2⟩
        · have h := ih p (List.mem_cons_of_mem _ hp) c hc
          exact ⟨List.mem_cons_of_mem _ h.1, h.2⟩

/-- The components of a path without backslashes that are not `..`. -/
theorem component_of_mem {s : PyStr} (hs : backslash ∉ s) {p : PyStr} (hp : p ∈ (parse s).rel)
    (hdots : p ≠ [dot, dot]) : Component p := by
  obtain ⟨hsplit, hne⟩ := List.mem_filter.mp hp
  have hchars := splitOn_chars s p hsplit
  simp only [decide_eq_true_eq] at hne
  exact ⟨hne.1, hne.2, hdots, fun h => (hchars _ h).2 rfl, fun h => hs (hchars _ h).1⟩

end AgentWorkflow.Lib.PosixPath
