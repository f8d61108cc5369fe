import AgentWorkflow.Lib.OrderedDict
import AgentWorkflow.Lib.PosixPath

/-!
# Input files of a task (`agent.py`, `storage.py`)

`_write_inputs` on a POSIX host. A path is the list of the components below the run
directory, so that an entry is inside it by its type; whether the components are
names of directory entries is what there is to show.
-/

namespace AgentWorkflow.Worker.TaskInputs
open AgentWorkflow.Lib AgentWorkflow.Lib.PyStr AgentWorkflow.Lib.PosixPath

abbrev Bytes := List UInt8
abbrev Path := List PyStr

def inputFileMaxBytes : ℕ := 8 * 1024 * 1024
def inputTotalMaxBytes : ℕ := 32 * 1024 * 1024

inductive InputError where
  | valueError (message : String)
  | osError
  | indexError
deriving DecidableEq, Repr

/-! ### The disk -/

/-- `isPrivate`: our owner and mode 0700; `other` is a link or a special file. -/
inductive Entry where
  | file (data : Bytes)
  | dir (isPrivate : Bool)
  | other
deriving DecidableEq

structure Disk where
  entries : List (Path × Entry)
  nodup : (OrderedDict.keys entries).Nodup

namespace Disk

def find (d : Disk) (p : Path) : Option Entry := OrderedDict.get p d.entries

/-- An entry is made only where there is none. -/
def create (d : Disk) (p : Path) (e : Entry) (h : d.find p = none) : Disk where
  entries := d.entries ++ [(p, e)]
  nodup := by
    have hnew : p ∉ OrderedDict.keys d.entries := OrderedDict.get_none.mp h
    rw [OrderedDict.keys, List.map_append, List.map_singleton]
    refine List.nodup_append.mpr ⟨d.nodup, List.nodup_singleton _, ?_⟩
    rintro a ha b hb rfl
    obtain rfl := List.mem_singleton.mp hb
    exact hnew ha

end Disk

/-- How the system refuses a path: an `OSError`, or a `ValueError` for a name it cannot
encode. A write that fails removes the new file again and counts as refused. -/
inductive Refusal where
  | os
  | value

def Refusal.error : Refusal → InputError
  | .os => .osError
  | .value => .valueError "surrogates not allowed"

/-! ### One component, one file -/

def nul : CodePoint := 0

def pseudoName (name : PyStr) : Prop := name = [] ∨ name = [dot] ∨ name = [dot, dot]

def separated (name : PyStr) : Prop := slash ∈ name ∨ backslash ∈ name

instance (name : PyStr) : Decidable (pseudoName name) := inferInstanceAs (Decidable (_ ∨ _))
instance (name : PyStr) : Decidable (separated name) := inferInstanceAs (Decidable (_ ∨ _))

section
variable (refuses : Path → Option Refusal)

/-- `mkdir`, or `open` with `O_CREAT | O_EXCL` -/
def makeEntry (d : Disk) (p : Path) (e : Entry) : Except InputError Disk :=
  if h : d.find p = none then
    match refuses p with
    | some r => .error r.error
    | none => .ok (d.create p e h)
  else .error .osError

def ensurePrivateChildDirectory (d : Disk) (parent : Path) (name : PyStr) : Except InputError Disk :=
  if pseudoName name ∨ separated name then .error (.valueError "task input directory name is invalid")
  else if d.find (parent ++ [name]) = some (.dir true) then .ok d
  else if nul ∈ name then .error (.valueError "embedded null byte")
  else makeEntry refuses d (parent ++ [name]) (.dir true)

def writeExclusive (d : Disk) (parent : Path) (name : PyStr) (data : Bytes) (maxBytes : ℕ) :
    Except InputError Disk :=
  if d.find parent ≠ some (.dir true) then .error .osError
  else if maxBytes < data.length then .error (.valueError "worker state payload exceeds its size limit")
  else if pseudoName name then .error (.valueError "worker state path escapes its owned directory")
  else if separated name ∨ nul ∈ name then .error (.valueError "worker state filename is invalid")
  else makeEntry refuses d (parent ++ [name]) (.file data)

def makeDirectories (d : Disk) (parent : Path) : List PyStr → Disk × Except InputError Path
  | [] => (d, .ok parent)
  | part :: rest =>
    match ensurePrivateChildDirectory refuses d parent part with
    | .error e => (d, .error e)
    | .ok d' => makeDirectories d' (parent ++ [part]) rest

/-! ### `_write_inputs` -/

def normalize (relative : PyStr) : PyStr := relative.map fun c => if c = backslash then slash else c

/-- `parsed.parts[0]` is read last. -/
def checkPath (relative : PyStr) : Except InputError (List PyStr) :=
  let normalized := normalize relative
  let parsed := parse normalized
  if normalized = [] ∨ parsed.isAbsolute ∨ parsed.parts.any fun p => decide (pseudoName p) then
    .error (.valueError "task input path is invalid")
  else
    match parsed.parts with
    | [] => .error .indexError
    | first :: rest => if (0x3A : CodePoint) ∈ first then .error (.valueError "task input path is invalid") else .ok (first :: rest)

/-- `content` is `str(content)`, `none` where that raises `ValueError`. -/
structure Input where
  key : PyStr
  content : Option PyStr

def writeKey (d : Disk) (total : ℕ) (f : Input) : Disk × Except InputError ℕ :=
  match checkPath f.key with
  | .error e => (d, .error e)
  | .ok parts =>
    match f.content.bind encode with
    | none => (d, .error (.valueError "surrogates not allowed"))
    | some data =>
      if inputFileMaxBytes < data.length ∨ inputTotalMaxBytes < total + data.length then
        (d, .error (.valueError "payload.files exceeds its size limit"))
      else
        let made := makeDirectories refuses d [] parts.dropLast
        match made.2 with
        | .error e => (made.1, .error e)
        | .ok parent =>
          match writeExclusive refuses made.1 parent (parts.getLastD []) data inputFileMaxBytes with
          | .error e => (made.1, .error e)
          | .ok d' => (d', .ok (total + data.length))

/-- `done` counts the keys before the one that failed. -/
structure Progress where
  disk : Disk
  done : ℕ
  error : Option InputError

def writeKeys (d : Disk) (total : ℕ) : List Input → Progress
  | [] => ⟨d, 0, none⟩
  | f :: rest =>
    let r := writeKey refuses d total f
    match r.2 with
    | .error e => ⟨r.1, 0, some e⟩
    | .ok total' =>
      let p := writeKeys r.1 total' rest
      { p with done := p.done + 1 }

def writeInputs (d : Disk) (files : List Input) : Progress :=
  if 1024 < files.length then ⟨d, 0, some (.valueError "payload.files contains too many entries")⟩
  else writeKeys refuses d 0 files

end

/-! ### What a key is read as -/

theorem normalize_no_backslash (relative : PyStr) : backslash ∉ normalize relative := by
  intro h
  obtain ⟨c, -, hc⟩ := List.mem_map.mp h
  split at hc
  · exact absurd hc (by decide)
  next hne => exact hne hc

/-- A path that begun relative has only the components, none of them `..`. -/
theorem checkPath_ok {relative : PyStr} {parts : List PyStr} (h : checkPath relative = .ok parts) :
    parts ≠ [] ∧ ∀ p ∈ parts, Component p := by
  simp only [checkPath] at h
  split at h
  · cases h
  next hgood =>
    simp only [not_or, List.any_eq_true, not_exists, not_and, decide_eq_true_eq, Parsed.isAbsolute, not_not] at hgood
    obtain ⟨-, hroot, hnames⟩ := hgood
    have hrel : (parse (normalize relative)).parts = (parse (normalize relative)).rel := if_pos hroot
    split at h
    · cases h
    next first rest hparts =>
      split at h
      · cases h
      · cases h
        refine ⟨by simp, ?_⟩
        intro p hp
        rw [← hparts] at hp
        have hdots := fun h => hnames p hp (Or.inr (Or.inr h))
        rw [hrel] at hp
        exact component_of_mem (normalize_no_backslash relative) hp hdots

/-- The key is neither empty nor absolute, and all its components are empty or `.`. -/
structure DotsOnly (key : PyStr) : Prop where
  ne_nil : normalize key ≠ []
  relative : rootOf (normalize key) = []
  dots : ∀ p ∈ (normalize key).splitOn slash, p = [] ∨ p = [dot]

theorem rel_eq_nil (s : PyStr) : (parse s).rel = [] ↔ ∀ p ∈ s.splitOn slash, p = [] ∨ p = [dot] := by
  simp only [parse, List.filter_eq_nil_iff, decide_eq_true_eq]
  constructor
  · intro h p hp
    have := h p hp
    tauto
  · intro h p hp
    have := h p hp
    tauto

theorem checkPath_indexError (key : PyStr) : checkPath key = .error .indexError ↔ DotsOnly key := by
  constructor
  · intro h
    simp only [checkPath] at h
    split at h
    · cases h
    next hgood =>
      simp only [not_or, Parsed.isAbsolute, decide_eq_true_eq, not_not] at hgood
      obtain ⟨hne, hroot, -⟩ := hgood
      have hrel : (parse (normalize key)).parts = (parse (normalize key)).rel := if_pos hroot
      split at h
      next hnil =>
        rw [hrel] at hnil
        exact ⟨hne, hroot, (rel_eq_nil _).mp hnil⟩
      · split at h <;> cases h
  · rintro ⟨hne, hroot, hdots⟩
    have hparts : (parse (normalize key)).parts = [] := (if_pos hroot).trans ((rel_eq_nil _).mpr hdots)
    have habs : (parse (normalize key)).isAbsolute = false := decide_eq_false (not_not.mpr hroot)
    simp [checkPath, hne, hparts, habs]

/-! ### What one key does -/

def Inside (p : Path) : Prop := p ≠ [] ∧ ∀ c ∈ p, Component c

def IsDir (e : Path × Entry) : Prop := e.2 = .dir true

section
variable (refuses : Path → Option Refusal)

theorem not_bad {name : PyStr} (h : Component name) : ¬ (pseudoName name ∨ separated name) := by
  rintro ((hc | hc | hc) | hc | hc)
  · exact h.ne_nil hc
  · exact h.ne_dot hc
  · exact h.ne_dots hc
  · exact h.no_slash hc
  · exact h.no_backslash hc

theorem makeEntry_cases (d : Disk) (p : Path) (e : Entry) :
    (∃ d', makeEntry refuses d p e = .ok d' ∧ d'.entries = d.entries ++ [(p, e)]) ∨
      ∃ err, makeEntry refuses d p e = .error err ∧ err ≠ .indexError := by
  unfold makeEntry
  split
  · cases refuses p with
    | none => exact Or.inl ⟨_, rfl, rfl⟩
    | some r => exact Or.inr ⟨_, rfl, by cases r <;> decide⟩
  · exact Or.inr ⟨_, rfl, by decide⟩

theorem ensure_cases (d : Disk) {parent : Path} {name : PyStr} (hname : Component name)
    (hparent : ∀ c ∈ parent, Component c) :
    (∃ d' dirs, ensurePrivateChildDirectory refuses d parent name = .ok d' ∧ d'.entries = d.entries ++ dirs ∧
        ∀ e ∈ dirs, Inside e.1 ∧ IsDir e) ∨
      ∃ err, ensurePrivateChildDirectory refuses d parent name = .error err ∧ err ≠ .indexError := by
  unfold ensurePrivateChildDirectory
  rw [if_neg (not_bad hname)]
  split
  · exact Or.inl ⟨d, [], rfl, by simp, by simp⟩
  · split
    · exact Or.inr ⟨_, rfl, by decide⟩
    · obtain ⟨d', hok, hentries⟩ | herr := makeEntry_cases refuses d (parent ++ [name]) (.dir true)
      · refine Or.inl ⟨d', _, hok, hentries, ?_⟩
        intro e he
        rw [List.mem_singleton.mp he]
        refine ⟨⟨by simp, ?_⟩, rfl⟩
        intro c hc
        rcases List.mem_append.mp hc with hc | hc
        · exact hparent c hc
        · rw [List.mem_singleton.mp hc]
          exact hname
      · exact Or.inr herr

theorem makeDirectories_spec (d : Disk) (parent : Path) {parts : List PyStr} (hparts : ∀ c ∈ parts, Component c)
    (hparent : ∀ c ∈ parent, Component c) :
    ∃ dirs, (makeDirectories refuses d parent parts).1.entries = d.entries ++ dirs ∧
      (∀ e ∈ dirs, Inside e.1 ∧ IsDir e) ∧
      ((makeDirectories refuses d parent parts).2 = .ok (parent ++ parts) ∨
        ∃ err, (makeDirectories refuses d parent parts).2 = .error err ∧ err ≠ .indexError) := by
  induction parts generalizing d parent with
  | nil => exact ⟨[], by simp [makeDirectories], by simp, Or.inl (by simp [makeDirectories])⟩
  | cons part rest ih =>
    have hpart := hparts part List.mem_cons_self
    have hrest : ∀ c ∈ rest, Component c := fun c hc => hparts c (List.mem_cons_of_mem _ hc)
    obtain ⟨d', dirs, hok, hentries, hdirs⟩ | ⟨err, herr, hne⟩ := ensure_cases refuses d hpart hparent
    · have hchild : ∀ c ∈ parent ++ [part], Component c := by
        intro c hc
        rcases List.mem_append.mp hc with hc | hc
        · exact hparent c hc
        · rw [List.mem_singleton.mp hc]
          exact hpart
      obtain ⟨more, hmore, hmoredirs, hend⟩ := ih d' _ hrest hchild
      refine ⟨dirs ++ more, ?_, ?_, ?_⟩
      · simp only [makeDirectories, hok]
        rw [hmore, hentries, List.append_assoc]
      · intro e he
        rcases List.mem_append.mp he with he | he
        · exact hdirs e he
        · exact hmoredirs e he
      · simp only [makeDirectories, hok]
        simpa using hend
    · refine ⟨[], ?_, by simp, Or.inr ⟨err, ?_, hne⟩⟩
      · simp [makeDirectories, herr]
      · simp only [makeDirectories, herr]

theorem writeExclusive_cases (d : Disk) (parent : Path) (name : PyStr) (data : Bytes) (maxBytes : ℕ) :
    (∃ d', writeExclusive refuses d parent name data maxBytes = .ok d' ∧
        d'.entries = d.entries ++ [(parent ++ [name], .file data)]) ∨
      ∃ err, writeExclusive refuses d parent name data maxBytes = .error err ∧ err ≠ .indexError := by
  unfold writeExclusive
  split
  · exact Or.inr ⟨_, rfl, by decide⟩
  · split
    · exact Or.inr ⟨_, rfl, by decide⟩
    · split
      · exact Or.inr ⟨_, rfl, by decide⟩
      · split
        · exact Or.inr ⟨_, rfl, by decide⟩
        · exact makeEntry_cases refuses d _ (.file data)

/-- Where a key's file goes, and its bytes. -/
def target (f : Input) : Option (Path × Bytes) :=
  match checkPath f.key, f.content.bind encode with
  | .ok parts, some data => some (parts, data)
  | _, _ => none

theorem writeKey_spec (d : Disk) (total : ℕ) (f : Input) :
    ∃ dirs, (∀ e ∈ dirs, Inside e.1 ∧ IsDir e) ∧
      ((∃ path data, target f = some (path, data) ∧ Inside path ∧ total + data.length ≤ inputTotalMaxBytes ∧
          (writeKey refuses d total f).2 = .ok (total + data.length) ∧
          (writeKey refuses d total f).1.entries = d.entries ++ (dirs ++ [(path, .file data)])) ∨
        ∃ err, (writeKey refuses d total f).2 = .error err ∧
          (writeKey refuses d total f).1.entries = d.entries ++ dirs ∧ (err = .indexError ↔ DotsOnly f.key)) := by
  unfold writeKey target
  cases hpath : checkPath f.key with
  | error e =>
    refine ⟨[], by simp, Or.inr ⟨e, rfl, by simp, ?_⟩⟩
    rw [← checkPath_indexError, hpath, Except.error.injEq]
  | ok parts =>
    have hdots : ¬ DotsOnly f.key := by
      rw [← checkPath_indexError, hpath]
      simp
    obtain ⟨hne, hparts⟩ := checkPath_ok hpath
    cases hdata : f.content.bind encode with
    | none => exact ⟨[], by simp, Or.inr ⟨_, rfl, by simp, by simp [hdots]⟩⟩
    | some data =>
      simp only
      split
      · exact ⟨[], by simp, Or.inr ⟨_, rfl, by simp, by simp [hdots]⟩⟩
      next hfits =>
        have hinit : ∀ c ∈ parts.dropLast, Component c := fun c hc => hparts c (List.mem_of_mem_dropLast hc)
        have hsplit : parts.dropLast ++ [parts.getLastD []] = parts := by
          rw [List.getLastD_eq_getLast?, List.getLast?_eq_getLast_of_ne_nil hne, Option.getD_some]
          exact List.dropLast_append_getLast hne
        obtain ⟨dirs, hentries, hdirs, hend⟩ :=
          makeDirectories_spec refuses d [] hinit (by simp)
        refine ⟨dirs, hdirs, ?_⟩
        rcases hend with hok | ⟨err, herr, hnot⟩
        · rw [hok]
          simp only [List.nil_append]
          obtain ⟨d', hwrite, hfile⟩ | ⟨err, hwrite, hnot⟩ := writeExclusive_cases refuses
            (makeDirectories refuses d [] parts.dropLast).1 parts.dropLast (parts.getLastD []) data inputFileMaxBytes
          · rw [hwrite]
            refine Or.inl ⟨parts, data, rfl, ⟨hne, hparts⟩, by omega, rfl, ?_⟩
            simp only
            rw [hfile, hentries, hsplit, List.append_assoc]
          · rw [hwrite]
            exact Or.inr ⟨err, rfl, hentries, by simp [hnot, hdots]⟩
        · rw [herr]
          exact Or.inr ⟨err, rfl, hentries, by simp [hnot, hdots]⟩

/-! ### What the call does -/

def fileOf (e : Path × Entry) : Option (Path × Bytes) :=
  match e.2 with
  | .file data => some (e.1, data)
  | _ => none

/-- The files among new entries. -/
def filesOf (new : List (Path × Entry)) : List (Path × Bytes) := new.filterMap fileOf

theorem filesOf_dirs {dirs : List (Path × Entry)} (h : ∀ e ∈ dirs, Inside e.1 ∧ IsDir e) : filesOf dirs = [] := by
  refine List.filterMap_eq_nil_iff.mpr ?_
  intro e he
  have hdir : e.2 = .dir true := (h e he).2
  simp [fileOf, hdir]

def totalSize (files : List (Path × Bytes)) : ℕ := (files.map fun f => f.2.length).sum

/-- The new entries of a call: inside, the files of the keys before the failing one, within the total. -/
structure Wrote (total : ℕ) (files : List Input) (done : ℕ) (new : List (Path × Entry)) : Prop where
  inside : ∀ e ∈ new, Inside e.1
  files : (filesOf new).map some = (files.take done).map target
  size : total + totalSize (filesOf new) ≤ inputTotalMaxBytes

theorem writeKeys_wrote (d : Disk) {total : ℕ} (htotal : total ≤ inputTotalMaxBytes) (files : List Input) :
    (∃ new, (writeKeys refuses d total files).disk.entries = d.entries ++ new ∧
        Wrote total files (writeKeys refuses d total files).done new) ∧
      ((writeKeys refuses d total files).error = none → (writeKeys refuses d total files).done = files.length) := by
  induction files generalizing d total with
  | nil =>
    refine ⟨⟨[], by simp [writeKeys], ⟨by simp, by simp [filesOf], ?_⟩⟩, fun _ => rfl⟩
    simpa [filesOf, totalSize] using htotal
  | cons f rest ih =>
    obtain ⟨dirs, hdirs, ⟨path, data, htarget, hinside, hfits, hok, hentries⟩ | ⟨err, herr, hentries, -⟩⟩ :=
      writeKey_spec refuses d total f
    · obtain ⟨⟨new, hnew, hwrote⟩, hdone⟩ := ih (writeKey refuses d total f).1 hfits
      simp only [writeKeys, hok]
      have hfiles : filesOf (dirs ++ [(path, .file data)] ++ new) = (path, data) :: filesOf new := by
        have hnone := filesOf_dirs hdirs
        unfold filesOf at hnone ⊢
        rw [List.filterMap_append, List.filterMap_append, hnone]
        rfl
      refine ⟨⟨dirs ++ [(path, .file data)] ++ new, ?_, ⟨?_, ?_, ?_⟩⟩, ?_⟩
      · rw [hnew, hentries, List.append_assoc]
      · intro e he
        rcases List.mem_append.mp he with he | he
        · rcases List.mem_append.mp he with he | he
          · exact (hdirs e he).1
          · rw [List.mem_singleton.mp he]
            exact hinside
        · exact hwrote.inside e he
      · rw [hfiles, List.take_succ_cons, List.map_cons, List.map_cons, hwrote.files, htarget]
      · have hsize := hwrote.size
        rw [hfiles]
        simp only [totalSize, List.map_cons, List.sum_cons] at hsize ⊢
        omega
      · intro hnone
        rw [hdone hnone, List.length_cons]
    · simp only [writeKeys, herr]
      refine ⟨⟨dirs, hentries, ⟨fun e he => (hdirs e he).1, ?_, ?_⟩⟩, fun h => by cases h⟩
      · rw [filesOf_dirs hdirs]
        simp
      · rw [filesOf_dirs hdirs]
        simpa [totalSize] using htotal

/-- The call ends in `IndexError` at a key of dots that it reaches. -/
theorem writeKeys_indexError (d : Disk) (total : ℕ) (files : List Input) :
    (writeKeys refuses d total files).error = some .indexError ↔
      ∃ pre f post, files = pre ++ f :: post ∧ DotsOnly f.key ∧ (writeKeys refuses d total pre).error = none := by
  induction files generalizing d total with
  | nil => simp [writeKeys]
  | cons f rest ih =>
    obtain ⟨-, -, ⟨path, data, htarget, -, -, hok, -⟩ | ⟨err, herr, -, hindex⟩⟩ :=
      writeKey_spec refuses d total f
    · have hnot : ¬ DotsOnly f.key := by
        intro hdots
        rw [target, (checkPath_indexError f.key).mpr hdots] at htarget
        cases htarget
      simp only [writeKeys, hok]
      rw [ih]
      constructor
      · rintro ⟨pre, g, post, rfl, hdots, hpre⟩
        exact ⟨f :: pre, g, post, rfl, hdots, by simpa only [writeKeys, hok] using hpre⟩
      · rintro ⟨pre, g, post, hsplit, hdots, hpre⟩
        cases pre with
        | nil =>
          cases hsplit
          exact absurd hdots hnot
        | cons h pre =>
          cases hsplit
          exact ⟨pre, g, post, rfl, hdots, by simpa only [writeKeys, hok] using hpre⟩
    · simp only [writeKeys, herr, Option.some.injEq]
      rw [hindex]
      constructor
      · intro hdots
        exact ⟨[], f, rest, rfl, hdots, rfl⟩
      · rintro ⟨pre, g, post, hsplit, hdots, hpre⟩
        cases pre with
        | nil =>
          cases hsplit
          exact hdots
        | cons h pre =>
          cases hsplit
          simp only [writeKeys, herr] at hpre
          cases hpre

end

/-! ### Containment -/

structure Contained (d : Disk) (files : List Input) (r : Progress) : Prop where
  grows : ∃ new, r.disk.entries = d.entries ++ new ∧ Wrote 0 files r.done new
  finished : r.error = none → r.done = files.length
  failed : ∀ e, r.error = some e → (∃ message, e = .valueError message) ∨ e = .osError

theorem write_inputs_contained_iff (refuses : Path → Option Refusal) (d : Disk) (files : List Input) :
    Contained d files (writeInputs refuses d files) ↔
      (files.length ≤ 1024 → ∀ pre f post, files = pre ++ f :: post → DotsOnly f.key →
        (writeKeys refuses d 0 pre).error ≠ none) := by
  unfold writeInputs
  split
  next hmany =>
    constructor
    · intro _ hfew
      omega
    · intro _
      refine ⟨⟨[], by simp, ⟨by simp, by simp [filesOf], by simp [filesOf, totalSize]⟩⟩, by simp, ?_⟩
      intro e he
      cases he
      exact Or.inl ⟨_, rfl⟩
  next hfew =>
    have hwrote := writeKeys_wrote refuses d (Nat.zero_le inputTotalMaxBytes) files
    have hindex := writeKeys_indexError refuses d 0 files
    constructor
    · intro h _ pre f post hsplit hdots hnone
      rcases h.failed _ (hindex.mpr ⟨pre, f, post, hsplit, hdots, hnone⟩) with ⟨_, he⟩ | he <;> cases he
    · intro h
      refine ⟨hwrote.1, hwrote.2, ?_⟩
      intro e he
      cases e with
      | valueError message => exact Or.inl ⟨message, rfl⟩
      | osError => exact Or.inr rfl
      | indexError =>
        obtain ⟨pre, f, post, hsplit, hdots, hnone⟩ := hindex.mp he
        exact absurd hnone (h (by omega) pre f post hsplit hdots)

def emptyRun : Disk := ⟨[([], .dir true)], by simp [OrderedDict.keys]⟩

theorem dot_key_raises_indexError : ¬ ∀ refuses d files, Contained d files (writeInputs refuses d files) := by
  intro h
  have hfailed := (h (fun _ => none) emptyRun [⟨[dot], some []⟩]).failed .indexError (by decide)
  rcases hfailed with ⟨_, he⟩ | he <;> cases he

end AgentWorkflow.Worker.TaskInputs
