import AgentWorkflow.Lib.JsStringify
import AgentWorkflow.Lib.Utf8

/-!
# Bytes of JavaScript strings

The UTF-8 bytes of a string, and reading a written value back from its bytes.
-/

namespace AgentWorkflow.Lib.JsonText

universe u v

/-! ### Units of another kind -/

section Map
variable {α : Type u} {β : Type v} (f : α → β)

def Numeral.map (n : Numeral α) : Numeral β := ⟨n.sign.map f, n.int.map f, n.frac.map f, n.exp.map f⟩

mutual
def Doc.map : Doc α → Doc β
  | .null => .null
  | .bool b => .bool b
  | .num n => .num (n.map f)
  | .str s => .str (s.map f)
  | .arr items => .arr (mapItems items)
  | .obj members => .obj (mapMembers members)

def Doc.mapItems : List (Doc α) → List (Doc β)
  | [] => []
  | d :: l => d.map :: mapItems l

def Doc.mapMembers : List (List α × Doc α) → List (List β × Doc β)
  | [] => []
  | (k, d) :: l => (k.map f, d.map) :: mapMembers l
end

section
variable (unit : ℕ → α) (line : ℕ → List α) (colon : List α)

mutual
theorem lay_map (d : Doc α) (n : ℕ) :
    (d.lay unit line colon n).map f = (d.map f).lay (fun m => f (unit m)) (fun m => (line m).map f) (colon.map f) n := by
  match d with
  | .null => simp [Doc.lay, Doc.map]
  | .bool true => simp [Doc.lay, Doc.map]
  | .bool false => simp [Doc.lay, Doc.map]
  | .num m => simp [Doc.lay, Doc.map, Numeral.text, Numeral.map]
  | .str s => simp [Doc.lay, Doc.map]
  | .arr [] => simp [Doc.lay, Doc.map, Doc.mapItems]
  | .arr (v :: l) => simp [Doc.lay, Doc.map, Doc.mapItems, lay_map v, layItems_map l]
  | .obj [] => simp [Doc.lay, Doc.map, Doc.mapMembers]
  | .obj ((k, v) :: l) => simp [Doc.lay, Doc.map, Doc.mapMembers, lay_map v, layMembers_map l]

theorem layItems_map (l : List (Doc α)) (n : ℕ) : (Doc.layItems unit line colon n l).map f =
    Doc.layItems (fun m => f (unit m)) (fun m => (line m).map f) (colon.map f) n (Doc.mapItems f l) := by
  match l with
  | [] => simp [Doc.layItems, Doc.mapItems]
  | v :: l => simp [Doc.layItems, Doc.mapItems, lay_map v, layItems_map l]

theorem layMembers_map (l : List (List α × Doc α)) (n : ℕ) : (Doc.layMembers unit line colon n l).map f =
    Doc.layMembers (fun m => f (unit m)) (fun m => (line m).map f) (colon.map f) n (Doc.mapMembers f l) := by
  match l with
  | [] => simp [Doc.layMembers, Doc.mapMembers]
  | (k, v) :: l => simp [Doc.layMembers, Doc.mapMembers, lay_map v, layMembers_map l]
end

end

variable {code : β → ℕ} {f}

theorem Body.map {s : List α} (h : Body (fun c => code (f c)) s) : Body code (s.map f) := by
  induction h with
  | nil => exact .nil
  | plain h₁ h₂ h₃ _ ih => exact .plain h₁ h₂ h₃ ih
  | escape h₁ h₂ _ ih => exact .escape h₁ h₂ ih
  | unicode h₁ h₂ h₃ _ ih => exact .unicode h₁ h₂ (by simpa [isHex] using h₃) ih

theorem Digits.map {s : List α} (h : Digits (fun c => code (f c)) s) : Digits code (s.map f) := by
  refine ⟨by simpa using h.1, fun c hc => ?_⟩
  obtain ⟨b, hb, rfl⟩ := List.mem_map.mp hc
  exact h.2 b hb

theorem Numeral.Ok.map {n : Numeral α} (h : n.Ok fun c => code (f c)) : (n.map f).Ok code where
  sign := by
    rcases h.sign with h | ⟨c, h, hc⟩
    · exact Or.inl (by simp [Numeral.map, h])
    · exact Or.inr ⟨f c, by simp [Numeral.map, h], hc⟩
  int := by
    rcases h.int with ⟨c, h, hc⟩ | ⟨c, t, h, hc, hd⟩
    · exact Or.inl ⟨f c, by simp [Numeral.map, h], hc⟩
    · exact Or.inr ⟨f c, t.map f, by simp [Numeral.map, h], hc, hd.map⟩
  frac := by
    rcases h.frac with h | ⟨c, t, h, hc, hd⟩
    · exact Or.inl (by simp [Numeral.map, h])
    · exact Or.inr ⟨f c, t.map f, by simp [Numeral.map, h], hc, hd.map⟩
  exp := by
    rcases h.exp with h | ⟨c, s, t, h, hc, hs, hd⟩
    · exact Or.inl (by simp [Numeral.map, h])
    · refine Or.inr ⟨f c, s.map f, t.map f, by simp [Numeral.map, h], hc, ?_, hd.map⟩
      rcases hs with hs | ⟨d, hs, hd⟩
      · exact Or.inl (by simp [hs])
      · exact Or.inr ⟨f d, by simp [hs], hd⟩

mutual
theorem ok_map (d : Doc α) (h : d.Ok fun c => code (f c)) : (d.map f).Ok code := by
  match d with
  | .null => trivial
  | .bool b => trivial
  | .num n => exact Numeral.Ok.map h
  | .str s => exact Body.map h
  | .arr l => exact okItems_map l h
  | .obj l => exact okMembers_map l h

theorem okItems_map (l : List (Doc α)) (h : Doc.OkItems (fun c => code (f c)) l) : Doc.OkItems code (Doc.mapItems f l) := by
  match l with
  | [] => trivial
  | d :: l => exact ⟨ok_map d h.1, okItems_map l h.2⟩

theorem okMembers_map (l : List (List α × Doc α)) (h : Doc.OkMembers (fun c => code (f c)) l) :
    Doc.OkMembers code (Doc.mapMembers f l) := by
  match l with
  | [] => trivial
  | (k, d) :: l => exact ⟨Body.map h.1, ok_map d h.2.1, okMembers_map l h.2.2⟩
end

end Map

/-! ### Units of a document -/

section Units
variable {α : Type u} (p : α → Prop)

mutual
def Doc.Units : Doc α → Prop
  | .num n => ∀ c ∈ n.text, p c
  | .str s => ∀ c ∈ s, p c
  | .arr items => UnitsItems items
  | .obj members => UnitsMembers members
  | _ => True

def Doc.UnitsItems : List (Doc α) → Prop
  | [] => True
  | d :: l => d.Units ∧ UnitsItems l

def Doc.UnitsMembers : List (List α × Doc α) → Prop
  | [] => True
  | (k, d) :: l => (∀ c ∈ k, p c) ∧ d.Units ∧ UnitsMembers l
end

variable {p} {unit : ℕ → α} {line : ℕ → List α} {colon : List α} (hunit : ∀ n < 128, p (unit n))
  (hline : ∀ n, ∀ c ∈ line n, p c) (hcolon : ∀ c ∈ colon, p c)
include hunit hline hcolon

set_option linter.unusedSectionVars false in
mutual
theorem lay_units (d : Doc α) (hd : d.Units p) (n : ℕ) : ∀ c ∈ d.lay unit line colon n, p c := by
  match d with
  | .null => simp [Doc.lay, hunit]
  | .bool true => simp [Doc.lay, hunit]
  | .bool false => simp [Doc.lay, hunit]
  | .num m => exact hd
  | .str s =>
    simp only [Doc.lay, List.forall_mem_cons, List.forall_mem_append, List.not_mem_nil, false_implies, implies_true, and_true]
    exact ⟨hunit _ (by decide), hd, hunit _ (by decide)⟩
  | .arr [] => simp [Doc.lay, hunit]
  | .arr (v :: l) =>
    simp only [Doc.lay, List.forall_mem_cons, List.forall_mem_append]
    exact ⟨hunit _ (by decide), hline _, lay_units v hd.1 _, layItems_units l hd.2 n⟩
  | .obj [] => simp [Doc.lay, hunit]
  | .obj ((k, v) :: l) =>
    simp only [Doc.lay, List.forall_mem_cons, List.forall_mem_append]
    exact ⟨hunit _ (by decide), hline _, hunit _ (by decide), hd.1, hunit _ (by decide), hunit _ (by decide), hcolon,
      lay_units v hd.2.1 _, layMembers_units l hd.2.2 n⟩

theorem layItems_units (l : List (Doc α)) (hl : Doc.UnitsItems p l) (n : ℕ) : ∀ c ∈ Doc.layItems unit line colon n l, p c := by
  match l with
  | [] =>
    simp only [Doc.layItems, List.forall_mem_append, List.forall_mem_singleton]
    exact ⟨hline _, hunit _ (by decide)⟩
  | v :: l =>
    simp only [Doc.layItems, List.forall_mem_cons, List.forall_mem_append]
    exact ⟨hunit _ (by decide), hline _, lay_units v hl.1 _, layItems_units l hl.2 n⟩

theorem layMembers_units (l : List (List α × Doc α)) (hl : Doc.UnitsMembers p l) (n : ℕ) :
    ∀ c ∈ Doc.layMembers unit line colon n l, p c := by
  match l with
  | [] =>
    simp only [Doc.layMembers, List.forall_mem_append, List.forall_mem_singleton]
    exact ⟨hline _, hunit _ (by decide)⟩
  | (k, v) :: l =>
    simp only [Doc.layMembers, List.forall_mem_cons, List.forall_mem_append]
    exact ⟨hunit _ (by decide), hline _, hunit _ (by decide), hl.1, hunit _ (by decide), hunit _ (by decide), hcolon,
      lay_units v hl.2.1 _, layMembers_units l hl.2.2 n⟩
end

end Units

/-- A numeral is ASCII text. -/
theorem Numeral.Ok.ascii {α : Type u} {code : α → ℕ} {n : Numeral α} (h : n.Ok code) : ∀ c ∈ n.text, code c < 0x80 := by
  have hdigits : ∀ {t : List α}, Digits code t → ∀ c ∈ t, code c < 0x80 := by
    intro t ht c hc
    have := of_decide_eq_true (ht.2 c hc)
    omega
  have hsign : ∀ c ∈ n.sign, code c < 0x80 := by
    rcases h.sign with h | ⟨c, h, hc⟩ <;> simp [*]
  have hint : ∀ c ∈ n.int, code c < 0x80 := by
    rcases h.int with ⟨c, h, hc⟩ | ⟨c, t, h, hc, hd⟩
    · simp [h, hc]
    · rw [h]
      exact hdigits hd
  have hfrac : ∀ c ∈ n.frac, code c < 0x80 := by
    rcases h.frac with h | ⟨c, t, h, hc, hd⟩
    · simp [h]
    · rw [h, List.forall_mem_cons]
      exact ⟨by omega, hdigits hd⟩
  have hexp : ∀ c ∈ n.exp, code c < 0x80 := by
    rcases h.exp with h | ⟨c, s, t, h, hc, hs, hd⟩
    · simp [h]
    · rw [h, List.forall_mem_cons, List.forall_mem_append]
      refine ⟨by omega, ?_, hdigits hd⟩
      rcases hs with hs | ⟨d, hs, hd⟩
      · simp [hs]
      · rw [hs, List.forall_mem_singleton]
        omega
  simp only [Numeral.text, List.forall_mem_append]
  exact ⟨⟨⟨hsign, hint⟩, hfrac⟩, hexp⟩

end AgentWorkflow.Lib.JsonText

namespace AgentWorkflow.Lib.Js
open JsonText AgentWorkflow.Lib.PyStr

universe u v

/-! ### Values of documents -/

section
variable {α : Type u} {β : Type v} {f : α → β} (code : β → ℕ)

theorem unescape_map (s : List α) : unescape code (s.map f) = unescape (fun c => code (f c)) s := by
  fun_induction unescape (fun c => code (f c)) s with
  | case1 => rfl
  | case2 c hc =>
    unfold unescape
    simp [hc]
  | case3 c hc e he h₁ h₂ h₃ h₄ t ih =>
    simp only [List.map_cons]
    rw [unescape.eq_def]
    simp [hc, he, ih]
  | case4 c hc e t he hshort =>
    simp only [List.map_cons]
    rw [unescape.eq_def]
    simp only [hc, he, if_true]
    match t, hshort with
    | [], _ => rfl
    | [_], _ => rfl
    | [_, _], _ => rfl
    | [_, _, _], _ => rfl
    | h₁ :: h₂ :: h₃ :: h₄ :: t, hshort => exact (hshort _ _ _ _ _ rfl).elim
  | case5 c hc e t he ih =>
    simp only [List.map_cons]
    rw [unescape.eq_def]
    simp [hc, he, ih]
  | case6 c t hc ih =>
    simp only [List.map_cons]
    rw [unescape.eq_def]
    simp [hc, ih]

theorem readDigits_map (t : List α) : Decimal.readDigits code (t.map f) = Decimal.readDigits (fun c => code (f c)) t := by
  simp [Decimal.readDigits, Function.comp_def]

theorem ofNumeral_map (n : Numeral α) : Number.ofNumeral code (n.map f) = .ofNumeral (fun c => code (f c)) n := by
  have hexponent : Decimal.readExponent code (n.exp.map f) = Decimal.readExponent (fun c => code (f c)) n.exp := by
    unfold Decimal.readExponent
    rw [← List.map_drop]
    cases n.exp.drop 1 with
    | nil => rfl
    | cons c t =>
      have hall := readDigits_map code (f := f) (c :: t)
      rw [List.map_cons] at hall ⊢
      dsimp only
      rw [readDigits_map, hall]
  have hmagnitude : Decimal.magnitude code (n.map f) = Decimal.magnitude (fun c => code (f c)) n := by
    unfold Decimal.magnitude Numeral.map
    rw [hexponent, ← List.map_drop, ← List.map_append, readDigits_map, List.length_map]
  unfold Number.ofNumeral
  rw [hmagnitude]
  simp [Numeral.map]

mutual
theorem ofDoc_map (d : Doc α) : Value.ofDoc code (d.map f) = Value.ofDoc (fun c => code (f c)) d := by
  match d with
  | .null => rfl
  | .bool b => rfl
  | .num n => exact congrArg Value.num (ofNumeral_map code n)
  | .str s => exact congrArg Value.str (unescape_map code s)
  | .arr l => exact congrArg Value.arr (ofItems_map l)
  | .obj l => exact congrArg Value.obj (ofMembers_map l [])

theorem ofItems_map (l : List (Doc α)) : Value.ofItems code (Doc.mapItems f l) = Value.ofItems (fun c => code (f c)) l := by
  match l with
  | [] => rfl
  | d :: l =>
    unfold Doc.mapItems Value.ofItems
    rw [ofDoc_map d, ofItems_map l]

theorem ofMembers_map (l : List (List α × Doc α)) (made : List (Str × Value)) :
    Value.ofMembers code made (Doc.mapMembers f l) = Value.ofMembers (fun c => code (f c)) made l := by
  match l with
  | [] => rfl
  | (k, d) :: l =>
    unfold Doc.mapMembers Value.ofMembers
    rw [ofDoc_map d, unescape_map, ofMembers_map l]
end

end

/-! ### UTF-8 -/

/-- The code points of a string; a surrogate alone is U+FFFD. -/
def codePoints : Str → PyStr
  | [] => []
  | [c] => [if isHigh c || isLow c then 0xFFFD else Fin.ofNat 0x110000 c.toNat]
  | c :: d :: t =>
    if isHigh c && isLow d then Fin.ofNat 0x110000 (0x10000 + (c.toNat - 0xD800) * 0x400 + (d.toNat - 0xDC00)) :: codePoints t
    else (if isHigh c || isLow c then 0xFFFD else Fin.ofNat 0x110000 c.toNat) :: codePoints (d :: t)

/-- `Buffer.from(text, 'utf8')` -/
def toUtf8 (s : Str) : List UInt8 := (codePoints s).flatMap fun c => (utf8 c).getD []

def point (c : UInt16) : CodePoint := Fin.ofNat 0x110000 c.toNat

theorem point_val (c : UInt16) : (point c).val = c.toNat := by
  have := c.toNat_lt
  exact Utf8.val_ofNat (by omega)

theorem codePoints_ascii {s : Str} (hs : ∀ c ∈ s, c < 0x80) : codePoints s = s.map point := by
  have hsurrogate : ∀ c ∈ s, isHigh c = false ∧ isLow c = false := by
    intro c hc
    have hlt := UInt16.lt_iff_toNat_lt.mp (hs c hc)
    have hbig : ∀ d : UInt16, 0x80 ≤ d.toNat → ¬ d ≤ c := fun d hd hle =>
      absurd (lt_of_le_of_lt (UInt16.le_iff_toNat_le.mp hle) hlt) (not_lt.mpr hd)
    exact ⟨decide_eq_false fun h => hbig _ (by decide) h.1, decide_eq_false fun h => hbig _ (by decide) h.1⟩
  fun_induction codePoints s with
  | case1 => rfl
  | case2 c => simp [hsurrogate c, point]
  | case3 c d t hpair ih =>
    rw [(hsurrogate c (by simp)).1] at hpair
    cases hpair
  | case4 c d t hpair ih =>
    rw [ih (fun x hx => hs x (List.mem_cons_of_mem _ hx)) fun x hx => hsurrogate x (List.mem_cons_of_mem _ hx)]
    simp [hsurrogate c, point]

theorem toUtf8_ascii {s : Str} (hs : ∀ c ∈ s, c < 0x80) : toUtf8 s = s.map fun c => c.toNat.toUInt8 := by
  unfold toUtf8
  rw [codePoints_ascii hs]
  induction s with
  | nil => rfl
  | cons c s ih =>
    have hc : (point c).val < 0x80 := by
      rw [point_val]
      exact UInt16.lt_iff_toNat_lt.mp (hs c (List.mem_cons_self ..))
    rw [List.map_cons, List.flatMap_cons, utf8_ascii hc, ih fun d hd => hs d (List.mem_cons_of_mem _ hd), point_val]
    rfl

/-- ASCII text is decoded as it was. -/
theorem decode_toUtf8 {s : Str} (hs : ∀ c ∈ s, c < 0x80) : Utf8.decodeReplace (toUtf8 s) = s.map point := by
  have hbyte : ∀ c ∈ s, c.toNat.toUInt8 < 0x80 ∧ c.toNat.toUInt8.toNat = c.toNat := by
    intro c hc
    have hlt : c.toNat < 0x80 := UInt16.lt_iff_toNat_lt.mp (hs c hc)
    have hnat : c.toNat.toUInt8.toNat = c.toNat := UInt8.toNat_ofNat_of_lt' (lt_trans hlt (by decide))
    exact ⟨UInt8.lt_iff_toNat_lt.mpr (by rw [hnat]; exact hlt), hnat⟩
  have hflat : toUtf8 s = (s.map fun c => [c.toNat.toUInt8]).flatten := by
    rw [toUtf8_ascii hs, ← List.flatMap_def, List.map_eq_flatMap]
  unfold Utf8.decodeReplace
  rw [hflat, Utf8.pieces_flatten, List.map_map, List.map_map]
  · refine List.map_congr_left fun c hc => ?_
    have hnat := (hbyte c hc).2
    exact congrArg (Fin.ofNat 0x110000) hnat
  · intro bytes hbytes
    obtain ⟨c, hc, rfl⟩ := List.mem_map.mp hbytes
    show Utf8.feedAll [] ([] ++ [c.toNat.toUInt8]) = _
    rw [Utf8.feedAll_ascii (hbyte c hc).1]
    rfl

/-! ### Reading back -/

mutual
theorem toDoc_units (v : Value) (hv : v.Plain (· < 0x80)) : v.toDoc.Units (· < 0x80) := by
  match v with
  | .null => trivial
  | .bool b => trivial
  | .num n =>
    unfold Value.toDoc
    rw [if_pos hv.1]
    exact fun c hc => UInt16.lt_iff_toNat_lt.mpr ((numeral_ok n).ascii c hc)
  | .str s => exact escape_ascii hv
  | .arr l => exact toItems_units l hv
  | .obj l => exact toMembers_units l hv.2

theorem toItems_units (l : List Value) (hl : Value.PlainItems (· < 0x80) l) : Doc.UnitsItems (· < 0x80) (Value.toItems l) := by
  match l with
  | [] => trivial
  | v :: l => exact ⟨toDoc_units v hl.1, toItems_units l hl.2⟩

theorem toMembers_units (l : List (Str × Value)) (hl : Value.PlainMembers (· < 0x80) l) :
    Doc.UnitsMembers (· < 0x80) (Value.toMembers l) := by
  match l with
  | [] => trivial
  | (k, v) :: l => exact ⟨escape_ascii hl.1, toDoc_units v hl.2.1, toMembers_units l hl.2.2⟩
end

/-- A value with ASCII strings, written between any blanks and ended by a newline, is
read back from its bytes. -/
theorem parse_written {v : Value} (hv : v.Plain (· < 0x80)) {line : ℕ → Str} {colon : Str} (hline : ∀ n, ∀ c ∈ line n, c = 0x20 ∨ c = 0x0A)
    (hcolon : ∀ c ∈ colon, c = 0x20 ∨ c = 0x0A) :
    parse (fun c : CodePoint => c.val) (Utf8.decodeReplace (toUtf8 (v.toDoc.lay UInt16.ofNat line colon 0 ++ [0x0A]))) = some v := by
  have hcode : (fun c => (point c).val) = UInt16.toNat := funext point_val
  have hlow : ∀ c : UInt16, c = 0x20 ∨ c = 0x0A → c < 0x80 := by
    rintro c (rfl | rfl) <;> decide
  have hunits : ∀ c ∈ v.toDoc.lay UInt16.ofNat line colon 0 ++ [0x0A], c < 0x80 := by
    rw [List.forall_mem_append]
    refine ⟨lay_units (by decide) (fun n c hc => hlow c (hline n c hc)) (fun c hc => hlow c (hcolon c hc)) _ (toDoc_units v hv) 0, ?_⟩
    simp
  have hblank : ∀ {t : Str}, (∀ c ∈ t, c = 0x20 ∨ c = 0x0A) → Blank (fun c : CodePoint => c.val) (t.map point) := by
    intro t ht c hc
    obtain ⟨b, hb, rfl⟩ := List.mem_map.mp hc
    rcases ht b hb with rfl | rfl <;> decide
  have hascii : Ascii (fun c : CodePoint => c.val) fun m => point (UInt16.ofNat m) := by
    intro m hm
    exact (point_val _).trans (ascii_unit m hm)
  have hok : (v.toDoc.map point).Ok fun c : CodePoint => c.val := ok_map v.toDoc (by rw [hcode]; exact toDoc_ok v)
  unfold parse
  rw [decode_toUtf8 hunits, List.map_append, List.map_singleton, parse_snoc (by decide), lay_map,
    parse_lay hascii (fun n => hblank (hline n)) (hblank hcolon) hok, Option.map_some, ofDoc_map, hcode, ofDoc_toDoc v hv]

end AgentWorkflow.Lib.Js
