import AgentWorkflow.Desktop.PrivateStorage

/-!
# Private storage after a crash
-/

namespace AgentWorkflow.Desktop.PrivateStorage
open AgentWorkflow.Lib AgentWorkflow.Lib.Js AgentWorkflow.Lib.PyStr AgentWorkflow.Lib.Crashing
open Sse (Bytes)

/-! ### Files -/

@[simp] theorem put_files (p : Path) (f : Option File) (d : Disk) : (d.put p f).files p = f := Function.update_self ..

theorem put_files_ne {p q : Path} (h : q ≠ p) (f : Option File) (d : Disk) : (d.put p f).files q = d.files q :=
  Function.update_of_ne h ..

theorem put_put (p : Path) (f g : Option File) (d : Disk) : (d.put p f).put p g = d.put p g := by
  unfold Disk.put
  dsimp only
  rw [Function.update_idem]

/-- A file that was created, with what has been written of it. -/
def Disk.made (p : Path) (mode : PrivateFileMode) (contents : Bytes) (d : Disk) : Disk :=
  { d.put p (some ⟨d.nextIno, mode, contents⟩) with nextIno := d.nextIno + 1 }

theorem apply_create (p : Path) (mode : PrivateFileMode) (d : Disk) : apply (.create p mode) d = d.made p mode [] := rfl

theorem apply_append (p : Path) (mode : PrivateFileMode) (contents piece rest : Bytes) (d : Disk) :
    apply (.append p piece rest) (d.made p mode contents) = d.made p mode (contents ++ piece) := by
  unfold Disk.made
  show Disk.put p _ _ = _
  unfold Disk.put
  simp

theorem made_files (p : Path) (mode : PrivateFileMode) (contents : Bytes) (d : Disk) :
    (d.made p mode contents).files p = some ⟨d.nextIno, mode, contents⟩ := put_files ..

theorem made_files_ne {p q : Path} (h : q ≠ p) (mode : PrivateFileMode) (contents : Bytes) (d : Disk) :
    (d.made p mode contents).files q = d.files q := put_files_ne h ..

/-! ### Writing a new file -/

section
variable {lasting : Prop}

/-- A crash before some effect, on the disk as it is there. -/
def Cut (lasting : Prop) (C : Effect → Disk → Prop) (stop : Stop Effect StorageError) (d : Disk) : Prop :=
  ∃ e, stop = .crash e ∧ ¬ lasting ∧ C e d

theorem Cut.mono {C C' : Effect → Disk → Prop} {stop : Stop Effect StorageError} {d : Disk} (h : Cut lasting C stop d)
    (hC : ∀ e, C e d → C' e d) : Cut lasting C' stop d := by
  obtain ⟨e, hstop, hlasting, he⟩ := h
  exact ⟨e, hstop, hlasting, hC e he⟩

/-- Part of the file is written. -/
def Partial (d : Disk) (p : Path) (mode : PrivateFileMode) (bytes : Bytes) (e : Effect) (d' : Disk) : Prop :=
  ∃ written piece rest, bytes = written ++ piece ++ rest ∧ piece ≠ [] ∧ e = .append p piece rest ∧ d' = d.made p mode written

theorem writeAll_ends (p : Path) (mode : PrivateFileMode) (d : Disk) (counts : List ℕ) (pre bytes : Bytes) :
    Ends lasting (d.made p mode pre) (writeAll p counts bytes) (fun _ d' => d' = d.made p mode (pre ++ bytes))
      (Cut lasting (Partial d p mode (pre ++ bytes))) := by
  induction counts generalizing pre bytes with
  | nil =>
    cases bytes with
    | nil =>
      unfold writeAll
      exact .pure (by rw [List.append_nil])
    | cons b bytes =>
      unfold writeAll
      refine .act (apply_append ..) fun hlasting => ⟨_, rfl, hlasting, pre, b :: bytes, [], ?_, List.cons_ne_nil _ _, rfl, rfl⟩
      rw [List.append_nil]
  | cons n counts ih =>
    cases bytes with
    | nil =>
      unfold writeAll
      exact .pure (by rw [List.append_nil])
    | cons b bytes =>
      have hsplit : pre ++ b :: bytes = pre ++ (b :: bytes.take n) ++ bytes.drop n := by simp
      unfold writeAll
      refine .step (fun hlasting => ?_) ?_
      · exact ⟨_, rfl, hlasting, pre, b :: bytes.take n, bytes.drop n, hsplit, List.cons_ne_nil _ _, rfl, rfl⟩
      · rw [apply_append, hsplit]
        exact ih _ _

/-- The file is there before, or it is made; a crash leaves nothing or a part of it. -/
theorem createExclusive_ends {p : Path} {mode : PrivateFileMode} {d : Disk} {bytes : Bytes} {maxBytes : ℕ} (hsize : bytes.length ≤ maxBytes)
    (counts : List ℕ) :
    Ends lasting d (createExclusiveFileAtPath p bytes mode maxBytes counts)
      (fun _ d' => d.files p = none ∧ d' = d.made p mode bytes)
      (fun stop d' => (d.files p ≠ none ∧ stop = .error .eexist ∧ d' = d) ∨
        Cut lasting (fun e d' => d.files p = none ∧ (e = .create p mode ∧ d' = d ∨ Partial d p mode bytes e d')) stop d') := by
  unfold createExclusiveFileAtPath
  refine .look (fun _ _ => .look (fun u hu => ?_) fun x hx => ?_) fun x hx => ?_
  · split at hu
    · cases hu
    · next hsome =>
      have hnone : d.files p = none := by simpa using hsome
      refine .step (fun hlasting => .inr ⟨_, rfl, hlasting, hnone, .inl ⟨rfl, rfl⟩⟩) ?_
      rw [apply_create]
      refine (writeAll_ends p mode d counts [] bytes).weaken ?_ ?_
      · exact fun _ d' h => ⟨hnone, h⟩
      · exact fun stop d' h => .inr (h.mono fun e he => ⟨hnone, .inr he⟩)
  · split at hx
    · next hsome =>
      cases hx
      exact .inl ⟨by simpa [Option.isSome_iff_ne_none] using hsome, rfl, rfl⟩
    · cases hx
  · rw [decide_eq_true hsize] at hx
    cases hx

end

/-! ### The marker -/

/-- A crash before the effect leaves a marker or a file that is not whole. -/
def Effect.Unsafe : Effect → Prop
  | .create .marker _ => True
  | .append .marker piece rest => piece ++ rest ≠ [0x0A]
  | .append (.file ..) _ _ => True
  | _ => False

/-- Without its newline the marker is read as well. -/
theorem isMarker_take : ∀ k < rootMarker.length, isMarker (rootMarker.take k) = true ↔ rootMarker.drop k = [0x0A] := by
  decide +kernel

theorem isMarker_written {written piece rest : Bytes} (h : rootMarker = written ++ piece ++ rest) (hpiece : piece ≠ []) :
    isMarker written = true ↔ piece ++ rest = [0x0A] := by
  have hlt : written.length < rootMarker.length := by
    rw [h, List.length_append, List.length_append]
    have := List.length_pos_iff.mpr hpiece
    omega
  have htake := isMarker_take _ hlt
  rw [h, List.append_assoc, List.take_left, List.drop_left] at htake
  exact htake

/-! ### What the disk holds -/

section
variable (use : Str → Str → Limits)

/-- The disk holds these contents, and the next call will find it in order. -/
structure Holds (last : Str → Str → Option Bytes) (d : Disk) : Prop where
  appDataRoot : d.root = true → d.appDataRoot = true
  marker : d.root = true → validateRootMarker d = .ok ()
  unmarked : d.root = false → d.files .marker = none
  subdirs : d.root = false → ∀ subdir, d.subdirs subdir = false
  empty : ∀ subdir name, d.subdirs subdir = false → last subdir name = none
  absent : ∀ subdir name, last subdir name = none → d.files (.file subdir name) = none
  present : ∀ subdir name contents, last subdir name = some contents → contents.length ≤ (use subdir name).maxBytes ∧
    ∃ ino, d.files (.file subdir name) = some ⟨ino, (use subdir name).mode, contents⟩

/-- Every later call fails at the marker. -/
structure Locked (d : Disk) : Prop where
  appDataRoot : d.appDataRoot = true
  root : d.root = true
  marker : ∃ x, validateRootMarker d = .error x

end

section
variable {use : Str → Str → Limits} {last : Str → Str → Option Bytes} {lasting : Prop} {d : Disk}

theorem validateRootMarker_congr {d d' : Disk} (h : d'.files .marker = d.files .marker) : validateRootMarker d' = validateRootMarker d := by
  unfold validateRootMarker readVerifiedFileAtPath
  rw [h]

/-- Files that are neither the marker nor in use come and go. -/
theorem Holds.of_files {d' : Disk} (h : Holds use last d) (happ : d'.appDataRoot = d.appDataRoot) (hroot : d'.root = d.root)
    (hsubdirs : d'.subdirs = d.subdirs) (hmarker : d'.files .marker = d.files .marker)
    (hfiles : ∀ subdir name, d'.files (.file subdir name) = d.files (.file subdir name)) : Holds use last d' := by
  refine ⟨?_, ?_, ?_, ?_, ?_, ?_, ?_⟩
  · rw [happ, hroot]
    exact h.appDataRoot
  · rw [hroot, validateRootMarker_congr hmarker]
    exact h.marker
  · rw [hroot, hmarker]
    exact h.unmarked
  · rw [hroot, hsubdirs]
    exact h.subdirs
  · rw [hsubdirs]
    exact h.empty
  · intro subdir name hnone
    rw [hfiles]
    exact h.absent subdir name hnone
  · intro subdir name contents hsome
    rw [hfiles]
    exact h.present subdir name contents hsome

theorem validateRootMarker_made {contents : Bytes} (hlength : contents.length ≤ ROOT_MARKER_MAX_BYTES) (d : Disk) :
    validateRootMarker (d.made .marker .m600 contents) = check (isMarker contents) "private_storage_marker_invalid" := by
  unfold validateRootMarker readVerifiedFileAtPath
  rw [made_files]
  simp [Nat.not_lt.mpr hlength]

theorem rootMarker_length : rootMarker.length ≤ ROOT_MARKER_MAX_BYTES := by decide +kernel

/-- The root with a marker that can be read. -/
theorem Holds.marked (h : Holds use last d) {contents : Bytes} (hlength : contents.length ≤ ROOT_MARKER_MAX_BYTES)
    (hmarker : isMarker contents = true) :
    Holds use last (Disk.made .marker .m600 contents { d with appDataRoot := true, root := true }) := by
  refine ⟨fun _ => rfl, fun _ => ?_, fun hnot => (nomatch hnot), fun hnot => (nomatch hnot), h.empty, ?_, ?_⟩
  · rw [validateRootMarker_made hlength, hmarker]
    rfl
  · intro subdir name hnone
    rw [made_files_ne (by rintro ⟨⟩)]
    exact h.absent subdir name hnone
  · intro subdir name c hsome
    rw [made_files_ne (by rintro ⟨⟩)]
    exact h.present subdir name c hsome

/-- What `ensurePrivateStorageSubdir` leaves, and what a crash in it leaves. -/
def Ensured (use : Str → Str → Limits) (last : Str → Str → Option Bytes) (subdir : Str) (d d' : Disk) : Prop :=
  Holds use last d' ∧ d'.root = true ∧ d'.subdirs subdir = true ∧ ∀ p ≠ .marker, d'.files p = d.files p

def Interrupted (use : Str → Str → Limits) (last : Str → Str → Option Bytes) (e : Effect) (d' : Disk) : Prop :=
  (e.Unsafe → Locked d') ∧ (¬ e.Unsafe → Holds use last d')

theorem interrupted_safe {e : Effect} (he : ¬ e.Unsafe) (h : Holds use last d) : Interrupted use last e d :=
  ⟨fun hdamage => absurd hdamage he, fun _ => h⟩

theorem ensure_subdir_ends (h : Holds use last d) (hroot : d.root = true) (subdir : Str) :
    Ends lasting d (do
        ask validateRootMarker
        if !(← ask fun d => .ok (d.subdirs subdir)) then act (.mkdirSubdir subdir))
      (fun _ d' => Ensured use last subdir d d') (Cut lasting (Interrupted use last)) := by
  refine .look (fun _ _ => .look (fun b hb => ?_) fun x hx => (nomatch hx)) fun x hx => ?_
  · cases hb
    refine .ite (fun _ => .act ?_ ?_) fun hthere => .pure ⟨h, hroot, by simpa using hthere, fun _ _ => rfl⟩
    · refine ⟨⟨h.appDataRoot, h.marker, h.unmarked, ?_, ?_, h.absent, h.present⟩, hroot, Function.update_self .., fun _ _ => rfl⟩
      · intro hnot
        rw [show d.root = false from hnot] at hroot
        cases hroot
      · intro subdir' name hnot
        refine h.empty subdir' name ?_
        by_cases heq : subdir' = subdir
        · subst heq
          rw [show (apply (.mkdirSubdir subdir') d).subdirs subdir' = true from Function.update_self ..] at hnot
          cases hnot
        · rwa [show (apply (.mkdirSubdir subdir) d).subdirs subdir' = d.subdirs subdir' from Function.update_of_ne heq ..] at hnot
    · exact fun hlasting => ⟨_, rfl, hlasting, interrupted_safe id h⟩
  · rw [h.marker hroot] at hx
    cases hx

theorem ensure_root_ends (h : Holds use last d) (happ : d.appDataRoot = true) (subdir : Str) (counts : List ℕ) :
    Ends lasting d (do
        if !(← ask fun d => .ok d.root) then
          act .mkdirRoot
          createExclusiveFileAtPath .marker rootMarker .m600 ROOT_MARKER_MAX_BYTES counts
        ask validateRootMarker
        if !(← ask fun d => .ok (d.subdirs subdir)) then act (.mkdirSubdir subdir))
      (fun _ d' => Ensured use last subdir d d') (Cut lasting (Interrupted use last)) := by
  refine .look (fun b hb => ?_) fun x hx => (nomatch hx)
  cases hb
  refine .ite (fun hmissing => .step (fun hlasting => ?_) ?_) fun hroot => ensure_subdir_ends h (by simpa using hroot) subdir
  · exact ⟨_, rfl, hlasting, interrupted_safe id h⟩
  have hroot : d.root = false := by simpa using hmissing
  have hdisk : apply .mkdirRoot d = { d with appDataRoot := true, root := true } := by
    show Disk.mk d.appDataRoot true d.subdirs d.files d.nextIno = _
    rw [happ]
  rw [hdisk]
  refine .bind (Q := fun _ d' => d' = Disk.made .marker .m600 rootMarker { d with appDataRoot := true, root := true })
    ((createExclusive_ends rootMarker_length counts).weaken (fun _ _ hd => hd.2) ?_) ?_
  · rintro stop d' (⟨hsome, -, -⟩ | hcut)
    · exact absurd (h.unmarked hroot) hsome
    · refine hcut.mono ?_
      rintro e ⟨-, ⟨rfl, rfl⟩ | ⟨written, piece, rest, hmarker, hpiece, rfl, rfl⟩⟩
      · refine ⟨fun _ => ⟨rfl, rfl, .enoent, ?_⟩, fun hnot => absurd trivial hnot⟩
        unfold validateRootMarker readVerifiedFileAtPath
        rw [show Disk.files { d with appDataRoot := true, root := true } .marker = none from h.unmarked hroot]
      · have hread := isMarker_written hmarker hpiece
        have hlength : written.length ≤ ROOT_MARKER_MAX_BYTES := by
          have := rootMarker_length
          rw [hmarker, List.length_append, List.length_append] at this
          omega
        constructor
        · intro hdamage
          refine ⟨rfl, rfl, .message "private_storage_marker_invalid", ?_⟩
          rw [validateRootMarker_made hlength, Bool.eq_false_iff.mpr fun hnot => hdamage (hread.mp hnot)]
          rfl
        · intro hsafe
          exact h.marked hlength (hread.mpr (not_not.mp hsafe))
  · rintro ⟨⟩ d' rfl
    have hmade := h.marked rootMarker_length (by decide +kernel : isMarker rootMarker = true)
    refine (ensure_subdir_ends hmade rfl subdir).weaken ?_ fun _ _ => id
    rintro - d' ⟨hholds, hroot', hsub, hfiles⟩
    exact ⟨hholds, hroot', hsub, fun p hp => (hfiles p hp).trans (made_files_ne hp ..)⟩

theorem ensure_ends (h : Holds use last d) {subdir : Str} (hsubdir : validSubdir subdir = true) (counts : List ℕ) :
    Ends lasting d (ensurePrivateStorageSubdir subdir counts) (fun _ d' => Ensured use last subdir d d')
      (Cut lasting (Interrupted use last)) := by
  unfold ensurePrivateStorageSubdir
  refine .look (fun _ _ => .look (fun b hb => ?_) fun x hx => (nomatch hx)) fun x hx => ?_
  · cases hb
    dsimp only
    refine .ite (fun _ => .step (fun hlasting => ?_) ?_) fun hthere => ensure_root_ends h (by simpa using hthere) subdir counts
    · exact ⟨_, rfl, hlasting, interrupted_safe id h⟩
    · have happ : Holds use last { d with appDataRoot := true } :=
        ⟨fun _ => rfl, h.marker, h.unmarked, h.subdirs, h.empty, h.absent, h.present⟩
      exact ensure_root_ends happ rfl subdir counts
  · rw [hsubdir] at hx
    cases hx

/-! ### Reading -/

theorem readPrivateFile_holds (h : Holds use last d) {subdir name : Str} (hsubdir : validSubdir subdir = true)
    (hname : validFilename name = true) :
    ∃ r, readPrivateFileIfExists subdir name (use subdir name).maxBytes (use subdir name).mode d = .ok r ∧
      r.map File.contents = last subdir name := by
  unfold readPrivateFileIfExists locateExistingPrivateSubdir
  rw [(use subdir name).valid, hsubdir, hname]
  cases hroot : d.root with
  | false =>
    refine ⟨none, ?_, (h.empty subdir name (h.subdirs hroot subdir)).symm⟩
    rw [Bool.and_false]
    rfl
  | true =>
    rw [h.appDataRoot hroot, h.marker hroot]
    cases hthere : d.subdirs subdir with
    | false => exact ⟨none, rfl, (h.empty subdir name hthere).symm⟩
    | true =>
      cases hlast : last subdir name with
      | none =>
        refine ⟨none, ?_, rfl⟩
        have hread : readVerifiedFileAtPath (.file subdir name) (use subdir name).maxBytes (use subdir name).mode d = .error .enoent := by
          unfold readVerifiedFileAtPath
          rw [h.absent subdir name hlast]
        rw [hread]
        rfl
      | some contents =>
        obtain ⟨hlength, ino, hfile⟩ := h.present subdir name contents hlast
        refine ⟨some ⟨ino, (use subdir name).mode, contents⟩, ?_, rfl⟩
        have hread : readVerifiedFileAtPath (.file subdir name) (use subdir name).maxBytes (use subdir name).mode d =
            .ok ⟨ino, (use subdir name).mode, contents⟩ := by
          unfold readVerifiedFileAtPath
          rw [hfile]
          simp [Nat.not_lt.mpr hlength]
        rw [hread]
        rfl

/-- Nothing is found only where nothing should be, also for a name that is not valid. -/
theorem readPrivateFile_none (h : Holds use last d) {subdir name : Str}
    (hnone : readPrivateFileIfExists subdir name (use subdir name).maxBytes (use subdir name).mode d = .ok none) :
    last subdir name = none := by
  by_cases hthere : d.subdirs subdir = true
  · have hroot : d.root = true := by
      by_contra hnot
      rw [h.subdirs (by simpa using hnot) subdir] at hthere
      cases hthere
    cases hsubdir : validSubdir subdir with
    | false =>
      unfold readPrivateFileIfExists locateExistingPrivateSubdir at hnone
      rw [(use subdir name).valid, hsubdir] at hnone
      cases hnone
    | true =>
      cases hname : validFilename name with
      | false =>
        unfold readPrivateFileIfExists locateExistingPrivateSubdir at hnone
        rw [(use subdir name).valid, hsubdir, h.appDataRoot hroot, hroot, h.marker hroot, hthere, hname] at hnone
        cases hnone
      | true =>
        obtain ⟨r, hr, hlast⟩ := readPrivateFile_holds h hsubdir hname
        rw [hnone] at hr
        cases hr
        exact hlast.symm
  · exact h.empty subdir name (by simpa using hthere)

theorem readPrivateFile_locked (h : Locked d) {subdir : Str} (hsubdir : validSubdir subdir = true) (name : Str) :
    ∃ x, readPrivateFileIfExists subdir name (use subdir name).maxBytes (use subdir name).mode d = .error x := by
  obtain ⟨x, hx⟩ := h.marker
  refine ⟨x, ?_⟩
  unfold readPrivateFileIfExists locateExistingPrivateSubdir
  rw [(use subdir name).valid, hsubdir, h.appDataRoot, h.root, hx]
  rfl

/-! ### Calls -/

theorem set_self {α : Type} (f : Str → Str → α) (subdir name : Str) (a : α) : set f subdir name a subdir name = a := by
  unfold set
  rw [Function.update_self, Function.update_self]

theorem set_of_ne {α : Type} (f : Str → Str → α) {subdir name subdir' name' : Str} (h : (subdir', name') ≠ (subdir, name)) (a : α) :
    set f subdir name a subdir' name' = f subdir' name' := by
  unfold set
  by_cases hsubdir : subdir' = subdir
  · subst hsubdir
    rw [Function.update_self, Function.update_of_ne fun hname => h (by rw [hname])]
  · rw [Function.update_of_ne hsubdir]

/-- One file changes. -/
theorem Holds.change (h : Holds use last d) {d' : Disk} {subdir name : Str} {o : Option Bytes} (happ : d'.appDataRoot = d.appDataRoot)
    (hroot : d'.root = d.root) (hsubdirs : d'.subdirs = d.subdirs) (hmarker : d'.files .marker = d.files .marker)
    (hothers : ∀ subdir' name', (subdir', name') ≠ (subdir, name) → d'.files (.file subdir' name') = d.files (.file subdir' name'))
    (hnone : o = none → d'.files (.file subdir name) = none)
    (hsome : ∀ contents, o = some contents → d.subdirs subdir = true ∧ contents.length ≤ (use subdir name).maxBytes ∧
      ∃ ino, d'.files (.file subdir name) = some ⟨ino, (use subdir name).mode, contents⟩) :
    Holds use (set last subdir name o) d' := by
  refine ⟨?_, ?_, ?_, ?_, ?_, ?_, ?_⟩
  · rw [happ, hroot]
    exact h.appDataRoot
  · rw [hroot, validateRootMarker_congr hmarker]
    exact h.marker
  · rw [hroot, hmarker]
    exact h.unmarked
  · rw [hroot, hsubdirs]
    exact h.subdirs
  all_goals
    intro subdir' name'
    by_cases heq : (subdir', name') = (subdir, name)
  · cases heq
    rw [set_self, hsubdirs]
    intro hmissing
    cases o with
    | none => rfl
    | some contents =>
      rw [(hsome contents rfl).1] at hmissing
      cases hmissing
  · rw [set_of_ne _ heq, hsubdirs]
    exact h.empty subdir' name'
  · cases heq
    rw [set_self]
    exact hnone
  · rw [set_of_ne _ heq, hothers _ _ heq]
    exact h.absent subdir' name'
  · cases heq
    rw [set_self]
    exact fun contents ho => (hsome contents ho).2
  · rw [set_of_ne _ heq, hothers _ _ heq]
    exact h.present subdir' name'

theorem file_ne {subdir name subdir' name' : Str} (h : (subdir', name') ≠ (subdir, name)) : Path.file subdir' name' ≠ .file subdir name := by
  rintro ⟨⟩
  exact h rfl

theorem Holds.made (h : Holds use last d) {subdir name : Str} (hthere : d.subdirs subdir = true) {contents : Bytes}
    (hlength : contents.length ≤ (use subdir name).maxBytes) :
    Holds use (set last subdir name (some contents)) (d.made (.file subdir name) (use subdir name).mode contents) := by
  refine h.change rfl rfl rfl (made_files_ne (by rintro ⟨⟩) ..) ?_ (by rintro ⟨⟩) ?_
  · exact fun _ _ hne => made_files_ne (file_ne hne) ..
  · rintro _ ⟨⟩
    exact ⟨hthere, hlength, _, made_files ..⟩

theorem Holds.new (h : Holds use last d) {subdir name : Str} (hnew : d.files (.file subdir name) = none) : last subdir name = none := by
  cases hlast : last subdir name with
  | none => rfl
  | some contents =>
    obtain ⟨-, ino, hfile⟩ := h.present subdir name contents hlast
    rw [hnew] at hfile
    cases hfile

theorem of_check {ok : Bool} {text : String} {u : Unit} (h : check ok text = .ok u) : ok = true := by
  unfold check at h
  split at h
  · assumption
  · cases h

theorem of_check_error {ok : Bool} {text : String} {x : StorageError} (h : check ok text = .error x) : ok = false := by
  unfold check at h
  split at h
  · cases h
  · simp_all

/-- A call that raises an error or is cut off. -/
def Stopped (use : Str → Str → Limits) (last : Str → Str → Option Bytes) (lasting : Prop) (C : Effect → Disk → Prop)
    (stop : Stop Effect StorageError) (d : Disk) : Prop :=
  (∃ x, stop = .error x ∧ Holds use last d) ∨ Cut lasting C stop d

theorem ensure_any_ends (h : Holds use last d) (subdir : Str) (counts : List ℕ) :
    Ends lasting d (ensurePrivateStorageSubdir subdir counts) (fun _ d' => validSubdir subdir = true ∧ Ensured use last subdir d d')
      (fun stop d' => (validSubdir subdir = false ∧ ∃ x, stop = .error x ∧ d' = d) ∨
        Cut lasting (fun e d' => validSubdir subdir = true ∧ Interrupted use last e d') stop d') := by
  cases hsubdir : validSubdir subdir with
  | false =>
    unfold ensurePrivateStorageSubdir
    rw [hsubdir]
    exact .look (fun _ hu => (nomatch hu)) fun x _ => .inl ⟨rfl, x, rfl, rfl⟩
  | true =>
    exact (ensure_ends h hsubdir counts).weaken (fun _ _ hd => ⟨rfl, hd⟩) fun _ _ hcut => .inr (hcut.mono fun _ he => ⟨rfl, he⟩)

/-- What is left of a file that was being created: a read fails, or returns a part. -/
def Damaged (use : Str → Str → Limits) (last : Str → Str → Option Bytes) (subdir name : Str) (contents : Bytes) (d : Disk) : Prop :=
  validSubdir subdir = true ∧ validFilename name = true ∧
    ((∃ x, readPrivateFileIfExists subdir name (use subdir name).maxBytes (use subdir name).mode d = .error x) ∨
      last subdir name = none ∧ ∃ f, f.contents ≠ contents ∧
        readPrivateFileIfExists subdir name (use subdir name).maxBytes (use subdir name).mode d = .ok (some f))

theorem create_ends (h : Holds use last d) (subdir name : Str) (contents : Bytes) (counts markerCounts : List ℕ) :
    Ends lasting d (Call.program use (.create subdir name contents counts markerCounts))
      (fun _ d' => Holds use (set last subdir name (some contents)) d')
      (Stopped use last lasting fun e d' => (e.Unsafe → Damaged use last subdir name contents d') ∧ (¬ e.Unsafe → Holds use last d')) := by
  unfold Call.program createExclusivePrivateFile
  refine .look (fun _ _ => .look (fun _ hname => .bind (Q := fun _ d' => validSubdir subdir = true ∧ Ensured use last subdir d d')
    ((ensure_any_ends h subdir markerCounts).weaken (fun _ _ => id) ?_) ?_) fun x _ => .inl ⟨x, rfl, h⟩) fun x _ => .inl ⟨x, rfl, h⟩
  all_goals have hname := of_check hname
  · rintro stop d' (⟨-, x, rfl, rfl⟩ | hcut)
    · exact .inl ⟨x, rfl, h⟩
    · refine .inr (hcut.mono ?_)
      rintro e ⟨hsubdir, hdamage, hsafe⟩
      exact ⟨fun he => ⟨hsubdir, hname, .inl (readPrivateFile_locked (hdamage he) hsubdir name)⟩, hsafe⟩
  · rintro ⟨⟩ d' ⟨hsubdir, hholds, hroot, hthere, hfiles⟩
    by_cases hsize : contents.length ≤ (use subdir name).maxBytes
    · refine (createExclusive_ends hsize counts).weaken ?_ ?_
      · rintro - d'' ⟨-, rfl⟩
        exact hholds.made hthere hsize
      · rintro stop d'' (⟨-, rfl, rfl⟩ | hcut)
        · exact .inl ⟨_, rfl, hholds⟩
        · refine .inr (hcut.mono ?_)
          rintro e ⟨hnew, ⟨rfl, rfl⟩ | ⟨written, piece, rest, hcontents, hpiece, rfl, rfl⟩⟩
          · exact ⟨fun hnot => hnot.elim, fun _ => hholds⟩
          · refine ⟨fun _ => ⟨hsubdir, hname, .inr ⟨hholds.new hnew, ?_⟩⟩, fun hnot => absurd trivial hnot⟩
            have hlength : written.length ≤ (use subdir name).maxBytes := by
              rw [hcontents, List.length_append, List.length_append] at hsize
              omega
            obtain ⟨r, hr, hwritten⟩ := readPrivateFile_holds (hholds.made hthere hlength) hsubdir hname
            rw [set_self] at hwritten
            obtain ⟨f, rfl, hf⟩ := Option.map_eq_some_iff.mp hwritten
            refine ⟨f, ?_, hr⟩
            rw [hf, hcontents, List.append_assoc]
            intro heq
            have hlist := congrArg List.length heq
            rw [List.length_append, List.length_append] at hlist
            have := List.length_pos_iff.mpr hpiece
            omega
    · unfold createExclusiveFileAtPath
      rw [decide_eq_false hsize]
      exact .look (fun _ hu => (nomatch hu)) fun x _ => .inl ⟨x, rfl, hholds⟩

/-- The write is one that has to succeed. -/
structure Writable (use : Str → Str → Limits) (subdir name : Str) (contents : Bytes) (hex : Str) (d : Disk) : Prop where
  subdirValid : validSubdir subdir = true
  nameValid : validFilename name = true
  size : contents.length ≤ (use subdir name).maxBytes
  fresh : d.files (.temp subdir name hex) = none

theorem readExistingIdentity_holds (h : Holds use last d) (subdir name : Str) :
    ∃ o, readExistingIdentity (.file subdir name) (use subdir name).maxBytes (use subdir name).mode d = .ok o := by
  unfold readExistingIdentity readVerifiedFileAtPath
  cases hlast : last subdir name with
  | none => exact ⟨none, by rw [h.absent subdir name hlast]⟩
  | some contents =>
    obtain ⟨hlength, ino, hfile⟩ := h.present subdir name contents hlast
    exact ⟨some ino, by rw [hfile]; simp [Nat.not_lt.mpr hlength]⟩

theorem readExistingIdentity_congr {d d' : Disk} {p : Path} (h : d'.files p = d.files p) (maxBytes : ℕ) (mode : PrivateFileMode) :
    readExistingIdentity p maxBytes mode d' = readExistingIdentity p maxBytes mode d := by
  unfold readExistingIdentity readVerifiedFileAtPath
  rw [h]

/-- Temporary files are nobody's contents. -/
theorem Holds.temp (h : Holds use last d) (subdir name hex : Str) (mode : PrivateFileMode) (contents : Bytes) :
    Holds use last (d.made (.temp subdir name hex) mode contents) :=
  h.of_files rfl rfl rfl (made_files_ne (by rintro ⟨⟩) ..) fun _ _ => made_files_ne (by rintro ⟨⟩) ..

/-- The file that is renamed. -/
theorem Holds.renamed (h : Holds use last d) {subdir name : Str} (hex : Str) (hthere : d.subdirs subdir = true) {contents : Bytes}
    (hlength : contents.length ≤ (use subdir name).maxBytes) :
    let d' := apply (.rename (.temp subdir name hex) (.file subdir name)) (d.made (.temp subdir name hex) (use subdir name).mode contents)
    d'.files (.file subdir name) = some ⟨d.nextIno, (use subdir name).mode, contents⟩ ∧
      Holds use (set last subdir name (some contents)) d' := by
  intro d'
  have hother : ∀ p, p ≠ .temp subdir name hex → p ≠ .file subdir name → d'.files p = d.files p := fun p htemp hfile =>
    ((put_files_ne htemp ..).trans (put_files_ne hfile ..)).trans (made_files_ne htemp ..)
  have hself : d'.files (.file subdir name) = some ⟨d.nextIno, (use subdir name).mode, contents⟩ :=
    ((put_files_ne (by rintro ⟨⟩) ..).trans (put_files ..)).trans (made_files ..)
  refine ⟨hself, h.change rfl rfl rfl (hother _ (by rintro ⟨⟩) (by rintro ⟨⟩)) ?_ (by rintro ⟨⟩) ?_⟩
  · exact fun _ _ hne => hother _ (by rintro ⟨⟩) (file_ne hne)
  · rintro _ ⟨⟩
    exact ⟨hthere, hlength, _, hself⟩

theorem write_ends (h : Holds use last d) (subdir name : Str) (contents : Bytes) (hex : Str) (counts markerCounts : List ℕ) :
    Ends lasting d (Call.program use (.write subdir name contents hex counts markerCounts))
      (fun _ d' => Holds use (set last subdir name (some contents)) d')
      (fun stop d' => (∃ x, stop = .error x ∧ Holds use last d' ∧ ¬ Writable use subdir name contents hex d) ∨
        Cut lasting (fun e d' => (e.Unsafe → Damaged use last subdir name contents d') ∧ (¬ e.Unsafe → Holds use last d')) stop d') := by
  unfold Call.program atomicWritePrivateFile
  refine .look (fun _ _ => .look (fun _ hname => .look (fun _ hsize => .bind
    (Q := fun _ d' => validSubdir subdir = true ∧ Ensured use last subdir d d')
    ((ensure_any_ends h subdir markerCounts).weaken (fun _ _ => id) ?_) ?_) ?_) ?_) ?_
  · have hname := of_check hname
    rintro stop d' (⟨hinvalid, x, rfl, rfl⟩ | hcut)
    · refine .inl ⟨x, rfl, h, fun hwritable => ?_⟩
      rw [hwritable.subdirValid] at hinvalid
      cases hinvalid
    · refine .inr (hcut.mono ?_)
      rintro e ⟨hsubdir, hdamage, hsafe⟩
      exact ⟨fun he => ⟨hsubdir, hname, .inl (readPrivateFile_locked (hdamage he) hsubdir name)⟩, hsafe⟩
  · have hsize : contents.length ≤ (use subdir name).maxBytes := of_decide_eq_true (of_check hsize)
    rintro ⟨⟩ d' ⟨hsubdir, hholds, hroot, hthere, hfiles⟩
    obtain ⟨previous, hprevious⟩ := readExistingIdentity_holds hholds subdir name
    refine .look (fun o ho => ?_) fun x hx => ?_
    · rw [hprevious] at ho
      cases ho
      refine .bind (Q := fun _ d'' => d'' = d'.made (.temp subdir name hex) (use subdir name).mode contents)
        ((createExclusive_ends hsize counts).weaken (fun _ _ hd => hd.2) ?_) ?_
      · rintro stop d'' (⟨hused, rfl, rfl⟩ | hcut)
        · refine .inl ⟨_, rfl, hholds, fun hwritable => hused ?_⟩
          rw [hfiles _ (by rintro ⟨⟩)]
          exact hwritable.fresh
        · refine .inr (hcut.mono ?_)
          rintro e ⟨-, ⟨rfl, rfl⟩ | ⟨written, piece, rest, -, -, rfl, rfl⟩⟩
          · exact ⟨fun hnot => hnot.elim, fun _ => hholds⟩
          · exact ⟨fun hnot => hnot.elim, fun _ => hholds.temp ..⟩
      · rintro ⟨⟩ d'' rfl
        have hcurrent := (readExistingIdentity_congr (made_files_ne (q := .file subdir name) (p := .temp subdir name hex) (by rintro ⟨⟩)
          (use subdir name).mode contents d') (use subdir name).maxBytes (use subdir name).mode).trans hprevious
        refine .look (fun o ho => ?_) fun x hx => (nomatch hx)
        rw [hcurrent] at ho
        cases ho
        dsimp only
        rw [if_neg (by simp)]
        refine .step (fun hlasting => .inr ⟨_, rfl, hlasting, fun hnot => hnot.elim, fun _ => hholds.temp ..⟩) ?_
        obtain ⟨hself, hrenamed⟩ := hholds.renamed hex hthere hsize
        have hread : readVerifiedFileAtPath (.file subdir name) (use subdir name).maxBytes (use subdir name).mode
            (apply (.rename (.temp subdir name hex) (.file subdir name))
              (d'.made (.temp subdir name hex) (use subdir name).mode contents)) = .ok ⟨d'.nextIno, (use subdir name).mode, contents⟩ := by
          unfold readVerifiedFileAtPath
          rw [hself]
          simp [Nat.not_lt.mpr hsize]
        refine .look (fun committed hcommitted => ?_) fun x hx => ?_
        · rw [hread] at hcommitted
          cases hcommitted
          rw [if_neg (by simp)]
          exact .pure hrenamed
        · rw [hread] at hx
          cases hx
    · rw [hprevious] at hx
      cases hx
  · refine fun x hx => .inl ⟨x, rfl, h, fun hwritable => ?_⟩
    exact absurd hwritable.size (of_decide_eq_false (of_check_error hx))
  · refine fun x hx => .inl ⟨x, rfl, h, fun hwritable => ?_⟩
    rw [hwritable.nameValid] at hx
    cases hx
  · intro x hx
    rw [(use subdir name).valid] at hx
    cases hx

theorem remove_ends (h : Holds use last d) (subdir name : Str) :
    Ends lasting d (Call.program use (.remove subdir name)) (fun _ d' => Holds use (set last subdir name none) d')
      (Stopped use last lasting fun e d' => ¬ e.Unsafe ∧ Holds use last d') := by
  unfold Call.program removePrivateFile
  refine .bind (Q := fun _ d' => Holds use (set last subdir name none) d') (.look (fun found hfound => ?_) ?_) ?_
  · cases found with
    | none =>
      have hsame : set last subdir name none = last := by
        funext subdir' name'
        by_cases heq : (subdir', name') = (subdir, name)
        · cases heq
          rw [set_self, readPrivateFile_none h hfound]
        · exact set_of_ne _ heq _
      rw [hsame]
      exact .pure h
    | some f =>
      refine .step (fun hlasting => .inr ⟨_, rfl, hlasting, id, h⟩) (.pure ?_)
      refine h.change rfl rfl rfl (put_files_ne (by rintro ⟨⟩) ..) ?_ (fun _ => put_files ..) (by rintro _ ⟨⟩)
      exact fun _ _ hne => put_files_ne (file_ne hne) ..
  · exact fun x _ => .inl ⟨x, rfl, h⟩
  · exact fun _ d' hd' => .pure hd'

end

/-! ### Every run -/

section
variable (use : Str → Str → Limits)

/-- After a restart: a read returns what the last completed call left or what the
interrupted write wrote, and a write with a new temporary name succeeds. -/
structure Survives (s : State) : Prop where
  read : ∀ subdir name, validSubdir subdir = true → validFilename name = true →
    ∃ r, readPrivateFileIfExists subdir name (use subdir name).maxBytes (use subdir name).mode s.disk = .ok r ∧
      (r.map File.contents = s.last subdir name ∨
        ∃ contents, s.interrupted subdir name = some contents ∧ r.map File.contents = some contents)
  write : ∀ subdir name contents hex counts markerCounts, Writable use subdir name contents hex s.disk →
    (Crashing.exec none s.disk (Call.program use (.write subdir name contents hex counts markerCounts))).1 = .ok ()

/-- The crash, if the call is cut off, does not come before an unsafe effect. -/
def SafeCrash (s : State) (i : Call × Option ℕ) : Prop := ∀ e, (step use s i).2 = .error (.crash e) → ¬ e.Unsafe

variable {use}

theorem holds_initial : Holds use initial.last initial.disk :=
  ⟨fun h => (nomatch h), fun h => (nomatch h), fun _ => rfl, fun _ _ => rfl, fun _ _ _ => rfl, fun _ _ _ => rfl, fun _ _ _ h => (nomatch h)⟩

theorem holds_survives {s : State} (h : Holds use s.last s.disk) : Survives use s := by
  constructor
  · intro subdir name hsubdir hname
    obtain ⟨r, hr, hlast⟩ := readPrivateFile_holds h hsubdir hname
    exact ⟨r, hr, .inl hlast⟩
  · intro subdir name contents hex counts markerCounts hwritable
    have hwrite : Ends True s.disk (Call.program use (.write subdir name contents hex counts markerCounts)) _ _ :=
      write_ends h subdir name contents hex counts markerCounts
    have hend := hwrite.outcome (n := none) fun _ => rfl
    rcases hrun : Crashing.exec none s.disk (Call.program use (.write subdir name contents hex counts markerCounts)) with ⟨stop | ⟨⟩, d'⟩
    · rw [hrun] at hend
      rcases hend with ⟨x, -, -, hnot⟩ | ⟨e, -, hnot, -⟩
      · exact absurd hwritable hnot
      · exact absurd trivial hnot
    · rfl

theorem damaged_not_survives {last : Str → Str → Option Bytes} {subdir name : Str} {contents : Bytes} {d : Disk}
    (h : Damaged use last subdir name contents d) (interrupted : Str → Str → Option Bytes) :
    ¬ Survives use ⟨d, last, set interrupted subdir name (some contents)⟩ := by
  intro hsurvives
  obtain ⟨hsubdir, hname, hread⟩ := h
  obtain ⟨r, hr, hallowed⟩ := hsurvives.read subdir name hsubdir hname
  rcases hread with ⟨x, hx⟩ | ⟨hlast, f, hf, hok⟩
  · rw [hx] at hr
    cases hr
  · rw [hok] at hr
    cases hr
    dsimp only at hallowed
    rw [set_self] at hallowed
    rcases hallowed with hold | ⟨c, hc, hnew⟩
    · rw [hlast] at hold
      cases hold
    · cases hc
      exact hf (Option.some.inj hnew)

/-- Any call: done, or an error with everything in order, or a crash. -/
theorem call_ends {last : Str → Str → Option Bytes} {d : Disk} (h : Holds use last d) (c : Call) (interrupted : Str → Str → Option Bytes) :
    Ends False d (c.program use) (fun _ d' => Holds use (c.completed ⟨d', last, interrupted⟩).last d')
      (Stopped use last False fun e d' =>
        (e.Unsafe → ¬ Survives use (c.cutOff ⟨d', last, interrupted⟩)) ∧ (¬ e.Unsafe → Holds use last d')) := by
  cases c with
  | create subdir name contents counts markerCounts =>
    refine (create_ends h subdir name contents counts markerCounts).weaken (fun _ _ => id) ?_
    exact fun _ _ hstop => hstop.imp id fun hcut => hcut.mono fun _ he =>
      ⟨fun hdamage => damaged_not_survives (he.1 hdamage) interrupted, he.2⟩
  | write subdir name contents hex counts markerCounts =>
    refine (write_ends h subdir name contents hex counts markerCounts).weaken (fun _ _ => id) ?_
    rintro stop d' (⟨x, hx, hholds, -⟩ | hcut)
    · exact .inl ⟨x, hx, hholds⟩
    · exact .inr (hcut.mono fun _ he => ⟨fun hdamage => damaged_not_survives (he.1 hdamage) interrupted, he.2⟩)
  | remove subdir name =>
    refine (remove_ends h subdir name).weaken (fun _ _ => id) ?_
    exact fun _ _ hstop => hstop.imp id fun hcut => hcut.mono fun _ he => ⟨fun hdamage => absurd hdamage he.1, fun _ => he.2⟩

theorem cutOff_last (c : Call) (s : State) : (c.cutOff s).last = s.last ∧ (c.cutOff s).disk = s.disk := by
  cases c <;> exact ⟨rfl, rfl⟩

theorem completed_disk (c : Call) (s : State) : (c.completed s).disk = s.disk := by
  cases c <;> rfl

/-- One call keeps the disk in order or, if it crashes before an unsafe effect, damages it. -/
theorem step_ends {s : State} (h : Holds use s.last s.disk) (i : Call × Option ℕ) :
    (SafeCrash use s i → Holds use (step use s i).1.last (step use s i).1.disk) ∧
      (¬ SafeCrash use s i → ¬ Survives use (step use s i).1) := by
  have hend := (call_ends h i.1 s.interrupted).outcome (n := i.2) False.elim
  unfold SafeCrash step
  rcases hrun : Crashing.exec i.2 s.disk (i.1.program use) with ⟨stop | ⟨⟩, d'⟩
  · rw [hrun] at hend
    rcases hend with ⟨x, rfl, hholds⟩ | ⟨e, rfl, -, hdamage, hsafe⟩
    · exact ⟨fun _ => hholds, fun hnot => absurd (fun e he => (nomatch he)) hnot⟩
    · dsimp only
      constructor
      · intro hcrash
        rw [(cutOff_last i.1 _).1, (cutOff_last i.1 _).2]
        exact hsafe (hcrash e rfl)
      · intro hnot
        refine hdamage ?_
        by_contra hsafe
        refine hnot ?_
        rintro e' ⟨⟩
        exact hsafe
  · rw [hrun] at hend
    dsimp only
    refine ⟨fun _ => ?_, fun hnot => absurd (fun e he => (nomatch he)) hnot⟩
    rw [completed_disk]
    exact hend

/-- Private storage survives all crashes of a run exactly if none comes before the marker
is created, before an append to it that is more than its newline, or before an append to a
file that is created in place. -/
theorem survives_iff_safeCrash (use : Str → Str → Limits) (is : List (Call × Option ℕ)) :
    (∀ is₁ is₂, is = is₁ ++ is₂ → Survives use ((machine use).run initial is₁)) ↔
      ∀ is₁ i is₂, is = is₁ ++ i :: is₂ → SafeCrash use ((machine use).run initial is₁) i :=
  (machine use).run_exact (I := fun s => Holds use s.last s.disk) holds_initial (fun _ => holds_survives)
    (fun _ i h hsafe => (step_ends h i).1 hsafe) (fun _ i h hsurvives => by_contra fun hnot => (step_ends h i).2 hnot hsurvives) is

end

def credentialLimits : Limits := ⟨512 * 1024, .m600, by decide⟩

/-- The process ends after the root has been made; the next call finds it without a marker. -/
theorem not_survives_unmarked :
    ¬ Survives (fun _ _ => credentialLimits) ((machine fun _ _ => credentialLimits).run initial
      [(.write (str "credentials") (str "store.json") [0x7B, 0x7D] (str "00") [] [], some 2)]) := by
  intro h
  obtain ⟨r, hr, -⟩ := h.read (str "credentials") (str "store.json") (by decide) (by decide)
  have herror : (readPrivateFileIfExists (str "credentials") (str "store.json") credentialLimits.maxBytes credentialLimits.mode
      ((machine fun _ _ => credentialLimits).run initial
        [(.write (str "credentials") (str "store.json") [0x7B, 0x7D] (str "00") [] [], some 2)]).disk).isOk = false := by
    decide +kernel
  rw [hr] at herror
  cases herror

end AgentWorkflow.Desktop.PrivateStorage
