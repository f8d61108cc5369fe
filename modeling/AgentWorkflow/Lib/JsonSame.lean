import AgentWorkflow.Lib.PyJson

/-!
# The same JSON value

`Json.same` compares as JSON does: numbers by value, objects as maps, and a boolean is
no number. Python's `==` is this comparison after every boolean became `0` or `1`.
-/

namespace AgentWorkflow.Lib.Json
variable {χ : Type} [DecidableEq χ]

/-- The number of a JSON numeral. -/
def numeral : Json χ → Option PyFloat
  | int n => some (.finite n)
  | float x => some x
  | _ => none

mutual
def same : Json χ → Json χ → Bool
  | null, null => true
  | bool b, bool c => decide (b = c)
  | str s, str t => decide (s = t)
  | arr l, arr m => sameList l m
  | obj l, obj m => decide (l.length = m.length) && sameObj l m
  | x, y =>
    match numeral x, numeral y with
    | some p, some q => p.eq q
    | _, _ => false

def sameList : List (Json χ) → List (Json χ) → Bool
  | [], [] => true
  | x :: l, y :: m => same x y && sameList l m
  | _, _ => false

def sameObj : List (List χ × Json χ) → List (List χ × Json χ) → Bool
  | [], _ => true
  | (k, x) :: l, m =>
    (match get k m with
      | some y => same x y
      | none => false) && sameObj l m
end

omit [DecidableEq χ] in
mutual
/-- Booleans as the numbers Python compares them as. -/
def asNumbers : Json χ → Json χ
  | bool b => int (if b then 1 else 0)
  | arr l => arr (asNumbersList l)
  | obj l => obj (asNumbersObj l)
  | v => v

def asNumbersList : List (Json χ) → List (Json χ)
  | [] => []
  | x :: l => asNumbers x :: asNumbersList l

def asNumbersObj : List (List χ × Json χ) → List (List χ × Json χ)
  | [] => []
  | (k, x) :: l => (k, asNumbers x) :: asNumbersObj l
end

omit [DecidableEq χ] in
theorem length_asNumbersObj (l : List (List χ × Json χ)) : (asNumbersObj l).length = l.length := by
  induction l with
  | nil => rfl
  | cons p l ih => rw [asNumbersObj, List.length_cons, ih, List.length_cons]

theorem get_asNumbersObj (k : List χ) (l : List (List χ × Json χ)) :
    get k (asNumbersObj l) = (get k l).map asNumbers := by
  induction l with
  | nil => rfl
  | cons p l ih =>
    rw [asNumbersObj, get, get]
    split
    · rfl
    · exact ih

mutual
theorem eq_eq_same (x y : Json χ) : x.eq y = x.asNumbers.same y.asNumbers := by
  match x with
  | .null => cases y <;> simp [eq, same, asNumbers, number, numeral]
  | .bool b => cases y <;> simp [eq, same, asNumbers, number, numeral]
  | .int n => cases y <;> simp [eq, same, asNumbers, number, numeral]
  | .float p => cases y <;> simp [eq, same, asNumbers, number, numeral]
  | .str s => cases y <;> simp [eq, same, asNumbers, number, numeral]
  | .arr l =>
    cases y with
    | arr m =>
      rw [eq, asNumbers, asNumbers, same]
      exact eqList_eq_sameList l m
    | _ => simp [eq, same, asNumbers, number, numeral]
  | .obj l =>
    cases y with
    | obj m =>
      rw [eq, asNumbers, asNumbers, same, length_asNumbersObj, length_asNumbersObj, eqObj_eq_sameObj l m]
    | _ => simp [eq, same, asNumbers, number, numeral]

theorem eqList_eq_sameList (l m : List (Json χ)) :
    eqList l m = sameList (asNumbersList l) (asNumbersList m) := by
  match l, m with
  | [], [] => rfl
  | [], _ :: _ => rfl
  | _ :: _, [] => rfl
  | x :: l, y :: m =>
    rw [eqList, asNumbersList, asNumbersList, sameList, eq_eq_same x y, eqList_eq_sameList l m]

theorem eqObj_eq_sameObj (l m : List (List χ × Json χ)) :
    eqObj l m = sameObj (asNumbersObj l) (asNumbersObj m) := by
  match l with
  | [] => rfl
  | (k, x) :: l =>
    rw [eqObj, asNumbersObj, sameObj, get_asNumbersObj, eqObj_eq_sameObj l m]
    cases get k m with
    | none => rfl
    | some y => simp only [Option.map_some, eq_eq_same x y]
end

mutual
/-- The same value is the same value with numbers for booleans. -/
theorem same_asNumbers (x y : Json χ) (h : x.same y = true) : x.asNumbers.same y.asNumbers = true := by
  match x with
  | .null => cases y <;> simp_all [same, asNumbers, numeral]
  | .bool b =>
    cases y with
    | bool c =>
      rw [same, decide_eq_true_eq] at h
      subst h
      simp [same, asNumbers, numeral, PyFloat.eq]
    | _ => simp [same, numeral] at h
  | .int n =>
    cases y with
    | int m => exact h
    | float q => exact h
    | _ => simp [same, numeral] at h
  | .float p =>
    cases y with
    | int m => exact h
    | float q => exact h
    | _ => simp [same, numeral] at h
  | .str s => cases y <;> simp_all [same, asNumbers, numeral]
  | .arr l =>
    cases y with
    | arr m =>
      rw [same] at h
      rw [asNumbers, asNumbers, same]
      exact sameList_asNumbers l m h
    | _ => simp [same, numeral] at h
  | .obj l =>
    cases y with
    | obj m =>
      rw [same, Bool.and_eq_true] at h
      rw [asNumbers, asNumbers, same, length_asNumbersObj, length_asNumbersObj, Bool.and_eq_true]
      exact ⟨h.1, sameObj_asNumbers l m h.2⟩
    | _ => simp [same, numeral] at h

theorem sameList_asNumbers (l m : List (Json χ)) (h : sameList l m = true) :
    sameList (asNumbersList l) (asNumbersList m) = true := by
  match l, m with
  | [], [] => rfl
  | [], _ :: _ => cases h
  | _ :: _, [] => cases h
  | x :: l, y :: m =>
    rw [sameList, Bool.and_eq_true] at h
    rw [asNumbersList, asNumbersList, sameList, Bool.and_eq_true]
    exact ⟨same_asNumbers x y h.1, sameList_asNumbers l m h.2⟩

theorem sameObj_asNumbers (l m : List (List χ × Json χ)) (h : sameObj l m = true) :
    sameObj (asNumbersObj l) (asNumbersObj m) = true := by
  match l with
  | [] => rfl
  | (k, x) :: l =>
    rw [sameObj, Bool.and_eq_true] at h
    obtain ⟨hx, hl⟩ := h
    rw [asNumbersObj, sameObj, get_asNumbersObj, Bool.and_eq_true]
    refine ⟨?_, sameObj_asNumbers l m hl⟩
    cases hy : get k m with
    | none => simp [hy] at hx
    | some y =>
      rw [hy] at hx
      exact same_asNumbers x y hx
end

/-! ### The order of members -/

def eqMember (m : List (List χ × Json χ)) (p : List χ × Json χ) : Bool :=
  match get p.1 m with
  | some y => p.2.eq y
  | none => false

theorem eqObj_eq_all (l m : List (List χ × Json χ)) : eqObj l m = l.all (eqMember m) := by
  induction l with
  | nil => rfl
  | cons p l ih =>
    rw [eqObj, ih, List.all_cons]
    rfl

theorem eqObj_perm {l l' : List (List χ × Json χ)} (h : l.Perm l') (m : List (List χ × Json χ)) :
    eqObj l m = eqObj l' m := by
  rw [eqObj_eq_all, eqObj_eq_all]
  exact h.all_eq

end AgentWorkflow.Lib.Json
