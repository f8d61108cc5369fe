import AgentWorkflow.Lib.JsonSame
import AgentWorkflow.Lib.PythonLiteral

/-!
# Python's `json` module

`dumps` with `ensure_ascii` and `allow_nan=False`, plain or with sorted keys and without
blanks, and `loads` of the texts it writes. `limit` is the nesting at which the interpreter
raises `RecursionError`. What is read back is the value that was written, its members in
the order they were written in.
-/

namespace AgentWorkflow.Lib.PythonJson
open JsonText

/-! ### Writing -/

section Keys
variable {β : Type} (canonical : Bool) (l : List (List Char × β))

/-- `sort_keys`: by code points. -/
def arrange : List (List Char × β) :=
  if canonical then l.insertionSort fun p q => p.1 ≤ q.1 else l

theorem arrange_perm : (arrange canonical l).Perm l := by
  unfold arrange
  split
  · exact List.perm_insertionSort _ l
  · exact List.Perm.refl l

end Keys

theorem arrange_map {β γ : Type} (canonical : Bool) (f : β → γ) (l : List (List Char × β)) :
    arrange canonical (l.map fun p => (p.1, f p.2)) = (arrange canonical l).map fun p => (p.1, f p.2) := by
  unfold arrange
  split
  · exact (List.map_insertionSort (fun p q : List Char × β => p.1 ≤ q.1)
      (fun p q : List Char × γ => p.1 ≤ q.1) (fun p => (p.1, f p.2)) l (fun _ _ _ _ => Iff.rfl)).symm
  · rfl

/-- `allow_nan=False`. -/
def encodeFloat : PyFloat → Option (Doc Char)
  | .finite q => (Binary64.ofRat |q|).map fun w => .num (floatText q w)
  | _ => none

section Encode
variable (canonical : Bool)

mutual
def encode : Json Char → Option (Doc Char)
  | .null => some .null
  | .bool b => some (.bool b)
  | .int n => if maxStrDigits < (Decimal.digits Char.ofNat n.natAbs).length then none else some (.num (intNumeral n))
  | .float x => encodeFloat x
  | .str s => some (.str (escape s))
  | .arr l => (encodeItems l).map .arr
  | .obj l => (encodeMembers l).map fun m => .obj ((arrange canonical m).map fun p => (escape p.1, p.2))

def encodeItems : List (Json Char) → Option (List (Doc Char))
  | [] => some []
  | v :: l => (encode v).bind fun d => (encodeItems l).map (d :: ·)

def encodeMembers : List (List Char × Json Char) → Option (List (List Char × Doc Char))
  | [] => some []
  | (k, v) :: l => (encode v).bind fun d => (encodeMembers l).map ((k, d) :: ·)
end

end Encode

def dumps (limit : ℕ) (v : Json Char) (canonical : Bool) : Option (List Char) :=
  (encode canonical v).bind fun d =>
    if limit < d.depth then none else some (d.print Char.ofNat (if canonical then [] else [' ']))

/-! ### Reading -/

/-- A key keeps its place when it is stored again. -/
def store (d : List (List Char × Json Char)) (m : List Char × Json Char) : List (List Char × Json Char) :=
  if m.1 ∈ d.map Prod.fst then d.map fun e => if e.1 = m.1 then m else e else d ++ [m]

def dict (l : List (List Char × Json Char)) : List (List Char × Json Char) := l.foldl store []

mutual
def decode : Doc Char → Option (Json Char)
  | .null => some .null
  | .bool b => some (.bool b)
  | .num n => readNumeral n
  | .str b => some (.str (unescape b))
  | .arr l => (decodeItems l).map .arr
  | .obj l => (decodeMembers l).map fun m => .obj (dict m)

def decodeItems : List (Doc Char) → Option (List (Json Char))
  | [] => some []
  | d :: l => (decode d).bind fun v => (decodeItems l).map (v :: ·)

def decodeMembers : List (List Char × Doc Char) → Option (List (List Char × Json Char))
  | [] => some []
  | (k, d) :: l => (decode d).bind fun v => (decodeMembers l).map ((unescape k, v) :: ·)
end

def loads (limit : ℕ) (t : List Char) : Option (Json Char) :=
  (parse Char.toNat t).bind fun d => if limit < d.depth then none else decode d

/-! ### Python's own values -/

def IsBinary64 : PyFloat → Prop
  | .finite q => ∃ w < Binary64.infinity, |q| = Binary64.toRat w
  | _ => True

mutual
/-- Floats are binary64 numbers and the keys of a dictionary are distinct. -/
def WellFormed : Json Char → Prop
  | .float x => IsBinary64 x
  | .arr l => WellFormedItems l
  | .obj l => (l.map Prod.fst).Nodup ∧ WellFormedMembers l
  | _ => True

def WellFormedItems : List (Json Char) → Prop
  | [] => True
  | v :: l => WellFormed v ∧ WellFormedItems l

def WellFormedMembers : List (List Char × Json Char) → Prop
  | [] => True
  | (_, v) :: l => WellFormed v ∧ WellFormedMembers l
end

mutual
/-- The value with the members of its dictionaries as they are written. -/
def arranged (canonical : Bool) : Json Char → Json Char
  | .arr l => .arr (arrangedItems canonical l)
  | .obj l => .obj (arrange canonical (arrangedMembers canonical l))
  | v => v

def arrangedItems (canonical : Bool) : List (Json Char) → List (Json Char)
  | [] => []
  | v :: l => arranged canonical v :: arrangedItems canonical l

def arrangedMembers (canonical : Bool) : List (List Char × Json Char) → List (List Char × Json Char)
  | [] => []
  | (k, v) :: l => (k, arranged canonical v) :: arrangedMembers canonical l
end

theorem keys_arrangedMembers (canonical : Bool) (l : List (List Char × Json Char)) :
    (arrangedMembers canonical l).map Prod.fst = l.map Prod.fst := by
  induction l with
  | nil => rfl
  | cons m l ih => simp only [arrangedMembers, List.map_cons, ih]

theorem foldl_store (l d : List (List Char × Json Char)) (h : ((d ++ l).map Prod.fst).Nodup) :
    l.foldl store d = d ++ l := by
  induction l generalizing d with
  | nil => simp
  | cons m l ih =>
    have hnew : m.1 ∉ d.map Prod.fst := by
      intro hmem
      rw [List.map_append, List.nodup_append] at h
      exact h.2.2 _ hmem _ (List.mem_cons_self ..) rfl
    have hsplit : d ++ m :: l = d ++ [m] ++ l := by simp
    rw [hsplit] at h ⊢
    rw [List.foldl_cons, store, if_neg hnew, ih _ h]

theorem dict_of_nodup {l : List (List Char × Json Char)} (h : (l.map Prod.fst).Nodup) : dict l = l :=
  foldl_store l [] h

/-- What a document is read as. -/
def readValue (d : Doc Char) : Json Char := (decode d).getD .null

theorem decodeMembers_map {m : List (List Char × Doc Char)}
    (h : ∀ p ∈ m, decode p.2 = some (readValue p.2)) :
    decodeMembers (m.map fun p => (escape p.1, p.2)) = some (m.map fun p => (p.1, readValue p.2)) := by
  induction m with
  | nil => rfl
  | cons p m ih =>
    rw [List.map_cons, decodeMembers, h p (List.mem_cons_self ..), Option.bind_some,
      ih fun q hq => h q (List.mem_cons_of_mem _ hq), unescape_escape]
    rfl

theorem okMembers_map {m : List (List Char × Doc Char)} (h : ∀ p ∈ m, p.2.Ok Char.toNat) :
    Doc.OkMembers Char.toNat (m.map fun p => (escape p.1, p.2)) := by
  induction m with
  | nil => trivial
  | cons p m ih =>
    exact ⟨body_escape p.1, h p (List.mem_cons_self ..), ih fun q hq => h q (List.mem_cons_of_mem _ hq)⟩

theorem encodeFloat_spec {x : PyFloat} (hx : IsBinary64 x) {d : Doc Char} (h : encodeFloat x = some d) :
    d.Ok Char.toNat ∧ decode d = some (.float x) := by
  cases x with
  | finite q =>
    obtain ⟨w, hw, hq⟩ := hx
    rw [encodeFloat, hq, Binary64.ofRat_toRat hw, Option.map_some, Option.some.injEq] at h
    subst h
    refine ⟨floatText_ok q w, ?_⟩
    rw [decode, readNumeral, if_neg (floatText_not_int q w), readFloat_floatText hw hq]
  | inf => cases h
  | ninf => cases h
  | nan => cases h

mutual
/-- What is written is well formed and is read back. -/
theorem encode_spec (canonical : Bool) (v : Json Char) (hv : WellFormed v) {d : Doc Char}
    (h : encode canonical v = some d) : d.Ok Char.toNat ∧ decode d = some (arranged canonical v) := by
  match v with
  | .null =>
    cases h
    exact ⟨trivial, rfl⟩
  | .bool b =>
    cases h
    exact ⟨trivial, rfl⟩
  | .int n =>
    unfold encode at h
    split at h
    · cases h
    · next hlen =>
      cases h
      refine ⟨Decimal.integer_ok ascii_ofNat n, ?_⟩
      unfold decode readNumeral
      rw [if_pos ⟨rfl, rfl⟩, readInt_intNumeral hlen]
      rfl
  | .float x => exact encodeFloat_spec hv h
  | .str s =>
    cases h
    refine ⟨body_escape s, ?_⟩
    unfold decode
    rw [unescape_escape]
    rfl
  | .arr l =>
    obtain ⟨ds, hds, rfl⟩ := Option.map_eq_some_iff.mp h
    obtain ⟨hok, hread⟩ := encodeItems_spec canonical l hv hds
    refine ⟨hok, ?_⟩
    unfold decode
    rw [hread]
    rfl
  | .obj l =>
    obtain ⟨m, hm, rfl⟩ := Option.map_eq_some_iff.mp h
    obtain ⟨hkeys, hl⟩ := hv
    obtain ⟨hread, harr⟩ := encodeMembers_spec canonical l hl hm
    have hperm := arrange_perm canonical m
    have hdecode := decodeMembers_map (m := arrange canonical m) fun p hp => (hread p (hperm.mem_iff.mp hp)).2
    refine ⟨okMembers_map fun p hp => (hread p (hperm.mem_iff.mp hp)).1, ?_⟩
    have hnodup : ((arrange canonical (arrangedMembers canonical l)).map Prod.fst).Nodup := by
      refine (((arrange_perm canonical _).map Prod.fst).nodup_iff).mpr ?_
      rwa [keys_arrangedMembers]
    unfold decode
    rw [hdecode, Option.map_some, ← arrange_map, ← harr, dict_of_nodup hnodup]
    rfl

theorem encodeItems_spec (canonical : Bool) (l : List (Json Char)) (hl : WellFormedItems l) {ds : List (Doc Char)}
    (h : encodeItems canonical l = some ds) :
    Doc.OkItems Char.toNat ds ∧ decodeItems ds = some (arrangedItems canonical l) := by
  match l with
  | [] =>
    cases h
    exact ⟨trivial, rfl⟩
  | v :: l =>
    obtain ⟨d, hd, h⟩ := Option.bind_eq_some_iff.mp h
    obtain ⟨ds, hds, rfl⟩ := Option.map_eq_some_iff.mp h
    obtain ⟨hok, hread⟩ := encode_spec canonical v hl.1 hd
    obtain ⟨hoks, hreads⟩ := encodeItems_spec canonical l hl.2 hds
    refine ⟨⟨hok, hoks⟩, ?_⟩
    unfold decodeItems
    rw [hread, Option.bind_some, hreads]
    rfl

theorem encodeMembers_spec (canonical : Bool) (l : List (List Char × Json Char)) (hl : WellFormedMembers l)
    {m : List (List Char × Doc Char)} (h : encodeMembers canonical l = some m) :
    (∀ p ∈ m, p.2.Ok Char.toNat ∧ decode p.2 = some (readValue p.2)) ∧
      arrangedMembers canonical l = m.map fun p => (p.1, readValue p.2) := by
  match l with
  | [] =>
    cases h
    exact ⟨by simp, rfl⟩
  | (k, v) :: l =>
    obtain ⟨d, hd, h⟩ := Option.bind_eq_some_iff.mp h
    obtain ⟨m, hm, rfl⟩ := Option.map_eq_some_iff.mp h
    obtain ⟨hok, hread⟩ := encode_spec canonical v hl.1 hd
    obtain ⟨hreads, harr⟩ := encodeMembers_spec canonical l hl.2 hm
    have hvalue : readValue d = arranged canonical v := by simp [readValue, hread]
    refine ⟨?_, ?_⟩
    · intro p hp
      rcases List.mem_cons.mp hp with rfl | hp
      · exact ⟨hok, by rw [hread, hvalue]⟩
      · exact hreads p hp
    · rw [arrangedMembers, harr, List.map_cons, hvalue]
end

/-- `loads` reads what `dumps` writes. -/
theorem loads_dumps {limit : ℕ} {canonical : Bool} {v : Json Char} (hv : WellFormed v) {t : List Char}
    (h : dumps limit v canonical = some t) : loads limit t = some (arranged canonical v) := by
  obtain ⟨d, hd, h⟩ := Option.bind_eq_some_iff.mp h
  obtain ⟨hok, hread⟩ := encode_spec canonical v hv hd
  split at h
  · cases h
  · next hlimit =>
    cases h
    have hgap : Blank Char.toNat (if canonical then [] else [' ']) := by
      cases canonical with
      | true => simp [Blank]
      | false => simp [Blank, isWs]
    unfold loads
    rw [parse_print ascii_ofNat hgap hok, Option.bind_some, if_neg hlimit, hread]

/-! ### Comparing -/

mutual
theorem eq_arranged (canonical : Bool) (v w : Json Char) : (arranged canonical v).eq w = v.eq w := by
  match v with
  | .null => rfl
  | .bool b => rfl
  | .int n => rfl
  | .float x => rfl
  | .str s => rfl
  | .arr l =>
    cases w with
    | arr m =>
      rw [arranged, Json.eq, Json.eq]
      exact eqList_arranged canonical l m
    | _ => rfl
  | .obj l =>
    cases w with
    | obj m =>
      have hperm := arrange_perm canonical (arrangedMembers canonical l)
      have hlen := congrArg List.length (keys_arrangedMembers canonical l)
      rw [List.length_map, List.length_map] at hlen
      rw [arranged, Json.eq, Json.eq, hperm.length_eq, hlen, Json.eqObj_perm hperm, eqObj_arranged canonical l m]
    | _ => rfl

theorem eqList_arranged (canonical : Bool) (l m : List (Json Char)) :
    Json.eqList (arrangedItems canonical l) m = Json.eqList l m := by
  match l, m with
  | [], _ => rfl
  | _ :: _, [] => rfl
  | v :: l, w :: m =>
    rw [arrangedItems, Json.eqList, Json.eqList, eq_arranged canonical v w, eqList_arranged canonical l m]

theorem eqObj_arranged (canonical : Bool) (l m : List (List Char × Json Char)) :
    Json.eqObj (arrangedMembers canonical l) m = Json.eqObj l m := by
  match l with
  | [] => rfl
  | (k, v) :: l =>
    rw [arrangedMembers, Json.eqObj, Json.eqObj, eqObj_arranged canonical l m]
    cases Json.get k m with
    | none => rfl
    | some w => simp only [eq_arranged canonical v w]
end

/-! ### What can be written -/

mutual
/-- No number is infinite or not a number, and no integer too long. -/
def finite : Json Char → Bool
  | .int n => decide ((Decimal.digits Char.ofNat n.natAbs).length ≤ maxStrDigits)
  | .float x => x.isfinite
  | .arr l => finiteItems l
  | .obj l => finiteMembers l
  | _ => true

def finiteItems : List (Json Char) → Bool
  | [] => true
  | v :: l => finite v && finiteItems l

def finiteMembers : List (List Char × Json Char) → Bool
  | [] => true
  | (_, v) :: l => finite v && finiteMembers l
end

mutual
def nesting : Json Char → ℕ
  | .arr l => 1 + nestingItems l
  | .obj l => 1 + nestingMembers l
  | _ => 0

def nestingItems : List (Json Char) → ℕ
  | [] => 0
  | v :: l => max (nesting v) (nestingItems l)

def nestingMembers : List (List Char × Json Char) → ℕ
  | [] => 0
  | (_, v) :: l => max (nesting v) (nestingMembers l)
end

def writable (limit : ℕ) (v : Json Char) : Bool := finite v && decide (nesting v ≤ limit)

theorem depthMembers_eq {m : List (List Char × Doc Char)} (f : List Char → List Char) :
    Doc.depthMembers (m.map fun p => (f p.1, p.2)) = (m.map fun p => p.2.depth).foldr max 0 := by
  induction m with
  | nil => rfl
  | cons p m ih => rw [List.map_cons, Doc.depthMembers, ih, List.map_cons, List.foldr_cons]

theorem depth_arrange (canonical : Bool) (m : List (List Char × Doc Char)) :
    Doc.depthMembers ((arrange canonical m).map fun p => (escape p.1, p.2)) =
      (m.map fun p => p.2.depth).foldr max 0 := by
  rw [depthMembers_eq]
  exact ((arrange_perm canonical m).map _).foldr_eq 0

theorem encodeFloat_finite {x : PyFloat} (hx : IsBinary64 x) :
    if x.isfinite then ∃ n : Numeral Char, encodeFloat x = some (.num n) else encodeFloat x = none := by
  cases x with
  | finite q =>
    obtain ⟨w, hw, hq⟩ := hx
    refine ⟨floatText q w, ?_⟩
    rw [encodeFloat, hq, Binary64.ofRat_toRat hw, Option.map_some]
  | inf => rfl
  | ninf => rfl
  | nan => rfl

mutual
theorem encode_finite (canonical : Bool) (v : Json Char) (hv : WellFormed v) :
    if finite v then ∃ d, encode canonical v = some d ∧ d.depth = nesting v else encode canonical v = none := by
  match v with
  | .null => exact ⟨_, rfl, rfl⟩
  | .bool b => exact ⟨_, rfl, rfl⟩
  | .str s => exact ⟨_, rfl, rfl⟩
  | .int n =>
    unfold finite encode
    split
    · next h => exact ⟨_, if_neg (not_lt.mpr (of_decide_eq_true h)), rfl⟩
    · next h => exact if_pos (not_le.mp fun hle => h (decide_eq_true hle))
  | .float x =>
    have hx := encodeFloat_finite (x := x) hv
    unfold finite encode
    split at hx
    · next h =>
      obtain ⟨n, hn⟩ := hx
      rw [if_pos h]
      exact ⟨_, hn, rfl⟩
    · next h =>
      rw [if_neg h]
      exact hx
  | .arr l =>
    have hl := encodeItems_finite canonical l hv
    unfold finite encode
    split at hl
    · next h =>
      obtain ⟨ds, hds, hdepth⟩ := hl
      rw [if_pos h, hds]
      exact ⟨_, rfl, congrArg (1 + ·) hdepth⟩
    · next h =>
      rw [if_neg h, hl]
      rfl
  | .obj l =>
    have hl := encodeMembers_finite canonical l hv.2
    unfold finite encode
    split at hl
    · next h =>
      obtain ⟨m, hm, hdepth⟩ := hl
      rw [if_pos h, hm]
      refine ⟨_, rfl, ?_⟩
      rw [Doc.depth, depth_arrange, hdepth, nesting]
    · next h =>
      rw [if_neg h, hl]
      rfl

theorem encodeItems_finite (canonical : Bool) (l : List (Json Char)) (hl : WellFormedItems l) :
    if finiteItems l then ∃ ds, encodeItems canonical l = some ds ∧ Doc.depthItems ds = nestingItems l
    else encodeItems canonical l = none := by
  match l with
  | [] => exact ⟨_, rfl, rfl⟩
  | v :: l =>
    have hv := encode_finite canonical v hl.1
    have hrest := encodeItems_finite canonical l hl.2
    unfold finiteItems encodeItems
    split at hv
    · next h =>
      obtain ⟨d, hd, hdepth⟩ := hv
      rw [hd, h, Bool.true_and, Option.bind_some]
      split at hrest
      · next hfin =>
        obtain ⟨ds, hds, hdepths⟩ := hrest
        rw [if_pos hfin, hds]
        refine ⟨_, rfl, ?_⟩
        rw [Doc.depthItems, hdepth, hdepths, nestingItems]
      · next hfin =>
        rw [if_neg hfin, hrest]
        rfl
    · next h =>
      rw [hv]
      simp [h]

theorem encodeMembers_finite (canonical : Bool) (l : List (List Char × Json Char)) (hl : WellFormedMembers l) :
    if finiteMembers l then
      ∃ m, encodeMembers canonical l = some m ∧ (m.map fun p => p.2.depth).foldr max 0 = nestingMembers l
    else encodeMembers canonical l = none := by
  match l with
  | [] => exact ⟨_, rfl, rfl⟩
  | (k, v) :: l =>
    have hv := encode_finite canonical v hl.1
    have hrest := encodeMembers_finite canonical l hl.2
    unfold finiteMembers encodeMembers
    split at hv
    · next h =>
      obtain ⟨d, hd, hdepth⟩ := hv
      rw [hd, h, Bool.true_and, Option.bind_some]
      split at hrest
      · next hfin =>
        obtain ⟨m, hm, hdepths⟩ := hrest
        rw [if_pos hfin, hm]
        refine ⟨_, rfl, ?_⟩
        rw [List.map_cons, List.foldr_cons, hdepth, hdepths, nestingMembers]
      · next hfin =>
        rw [if_neg hfin, hrest]
        rfl
    · next h =>
      rw [hv]
      simp [h]
end

theorem dumps_isSome {limit : ℕ} {v : Json Char} (hv : WellFormed v) (canonical : Bool) :
    (dumps limit v canonical).isSome = writable limit v := by
  have hfinite := encode_finite canonical v hv
  unfold dumps writable
  split at hfinite
  · next h =>
    obtain ⟨d, hd, hdepth⟩ := hfinite
    rw [hd, h, Option.bind_some, hdepth, Bool.true_and]
    split
    · next hlt => simp [hlt]
    · next hlt => simp [not_lt.mp hlt]
  · next h =>
    rw [hfinite]
    simp [h]

end AgentWorkflow.Lib.PythonJson
