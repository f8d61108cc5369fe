import AgentWorkflow.Desktop.KnownHosts

/-!
# What the pins keep

What is written is loaded again. From there each call is a change of one entry, and the
first key that is accepted for a host stays the only one until the entry is removed.
-/

namespace AgentWorkflow.Desktop.KnownHosts
open AgentWorkflow.Lib AgentWorkflow.Lib.Js
open PrivateStorage (hasExactKeys parseBytes)
open Sse (Bytes)

/-! ### What is written is loaded -/

/-- A hexadecimal digit is written as it is. -/
theorem digest_units (d : Digest) : d.val.length = 64 ∧ ∀ c ∈ d.val, 0x20 ≤ c ∧ c < 0x80 ∧ c ≠ 0x22 ∧ c ≠ 0x5C := by
  have hvalid := d.property
  simp only [isHex64, Bool.and_eq_true, decide_eq_true_eq, List.all_eq_true] at hvalid
  refine ⟨hvalid.1, fun c hc => ?_⟩
  have hdigit := hvalid.2 c hc
  simp only [UInt16.le_iff_toNat_le, UInt16.lt_iff_toNat_lt, ne_eq, ← UInt16.toNat_inj] at hdigit ⊢
  simp only [UInt16.reduceToNat] at hdigit ⊢
  omega

def KnownHostsStore.members (store : KnownHostsStore) : List (Str × Value) :=
  store.entries.map fun e => (e.1.val, .str e.2.val)

theorem toValue_plain (store : KnownHostsStore) : store.toValue.Plain (· < 0x80) := by
  have hunits : ∀ d : Digest, ∀ c ∈ d.val, c < 0x80 := fun d c hc => ((digest_units d).2 c hc).2.1
  have hkeys : (store.members.map Prod.fst).Nodup := by
    have heq : store.members.map Prod.fst = (OrderedDict.keys store.entries).map Subtype.val := by
      simp [KnownHostsStore.members, OrderedDict.keys, Function.comp_def]
    rw [heq]
    exact store.nodup.map Subtype.val_injective
  have hmembers : Value.PlainMembers (· < 0x80) store.members := by
    rw [plainMembers_iff]
    intro e he
    obtain ⟨x, -, rfl⟩ := List.mem_map.mp he
    exact ⟨hunits x.1, hunits x.2⟩
  have hnames : [str "schema", str "version", str "entries"].Nodup := by decide
  have hascii : ([str "schema", str "version", str "entries", STORE_SCHEMA].all fun s => s.all fun c => decide (c < 0x80)) = true := by
    decide +kernel
  simp only [List.all_eq_true, decide_eq_true_eq] at hascii
  have hversion : STORE_VERSION.isFinite = true := by decide +kernel
  exact ⟨hnames, hascii _ (by simp), hascii _ (by simp), hascii _ (by simp), ⟨hversion, fun hnan => by cases hnan⟩, hascii _ (by simp),
    ⟨hkeys, hmembers⟩, trivial⟩

theorem parseBytes_payload (store : KnownHostsStore) : parseBytes (payload store) = some store.toValue :=
  parse_written (toValue_plain store) (by simp) (by simp)

theorem not_reserved (d : Digest) : d.val ∉ RESERVED_NAMES := by
  intro hmem
  have hlength := (digest_units d).1
  have hshort : ∀ n ∈ RESERVED_NAMES, n.length < 64 := by decide
  have := hshort _ hmem
  omega

theorem validateEntries_members (l made : List (Digest × Digest)) (h : (OrderedDict.keys (made ++ l)).Nodup) :
    validateEntries made (l.map fun e => (e.1.val, .str e.2.val)) = .ok (made ++ l) := by
  induction l generalizing made with
  | nil => simp [validateEntries]
  | cons e l ih =>
    obtain ⟨hostId, fingerprint⟩ := e
    have hnew : hostId ∉ OrderedDict.keys made := by
      intro hmem
      rw [OrderedDict.keys, List.map_append, List.nodup_append] at h
      exact h.2.2 hostId hmem hostId (List.mem_cons_self ..) rfl
    have happ : made ++ [(hostId, fingerprint)] ++ l = made ++ (hostId, fingerprint) :: l := by simp
    rw [List.map_cons]
    unfold validateEntries
    rw [dif_pos ⟨hostId.property, not_reserved hostId⟩]
    dsimp only [asString]
    rw [dif_pos fingerprint.property, OrderedDict.assign_new hnew, ih _ (by rw [happ]; exact h), happ]

theorem validateStore_toValue (store : KnownHostsStore) : validateStore store.toValue = .ok store := by
  have hlimit : ¬ STORE_MAX_ENTRIES < store.members.length := by
    rw [KnownHostsStore.members, List.length_map]
    exact Nat.not_lt.mpr store.limit
  have hentries : validateEntries [] store.members = .ok store.entries := validateEntries_members store.entries [] store.nodup
  have hexact : ∀ v, hasExactKeys [(str "schema", .str STORE_SCHEMA), (str "version", .num STORE_VERSION), (str "entries", v)]
      [str "entries", str "schema", str "version"] = true := fun v => by
    have hperm : [str "schema", str "version", str "entries"].isPerm [str "entries", str "schema", str "version"] = true := by decide
    exact hperm
  unfold validateStore
  split
  · next members hmembers =>
    cases hmembers
    split
    · next hkeys =>
      rw [hexact] at hkeys
      cases hkeys
    · split
      · next hfields => exact hfields.elim (fun h => (h rfl).elim) fun h => (h rfl).elim
      · split
        · next source hsource =>
          cases hsource
          split
          · next hlong => exact (hlimit hlong).elim
          · split
            · next entries hok =>
              cases hok.symm.trans hentries
              rfl
            · next error herror => cases herror.symm.trans hentries
        · next hother => exact (hother store.members rfl).elim
  · next hother => exact (hother _ rfl).elim

/-- Each entry takes 134 bytes: the largest store is far below the size limit. -/
theorem payload_length (store : KnownHostsStore) : (payload store).length ≤ STORE_MAX_BYTES := by
  have hescape : ∀ d : Digest, escape d.val = d.val := fun d => escape_plain (digest_units d).2
  have hlast : ∀ l : List (Digest × Digest),
      (JsonText.Doc.layMembers UInt16.ofNat (fun _ => []) [] 1 (Value.toMembers (l.map fun e => (e.1.val, Value.str e.2.val)))).length =
        134 * l.length + 1 := by
    intro l
    induction l with
    | nil => rfl
    | cons e l ih =>
      simp only [List.map_cons, Value.toMembers, Value.toDoc, JsonText.Doc.layMembers, JsonText.Doc.lay, hescape, List.length_cons,
        List.length_append, List.length_nil, (digest_units _).1, ih]
      omega
  have hentries : ((JsonText.Doc.obj (Value.toMembers store.members)).lay UInt16.ofNat (fun _ => []) [] (0 + 1)).length ≤
      134 * store.entries.length + 2 := by
    unfold KnownHostsStore.members
    cases store.entries with
    | nil => exact le_refl 2
    | cons e l =>
      simp only [List.map_cons, Value.toDoc, Value.toMembers, JsonText.Doc.lay, hescape, List.length_cons, List.length_append,
        List.length_nil, (digest_units _).1, Nat.zero_add, hlast]
      omega
  have hhead : (escape (str "schema")).length = 6 ∧ (escape STORE_SCHEMA).length = 15 ∧ (escape (str "version")).length = 7 ∧
      (escape (str "entries")).length = 7 ∧ STORE_VERSION.isFinite = true ∧ STORE_VERSION.numeral.text.length = 1 := by
    decide +kernel
  obtain ⟨h₁, h₂, h₃, h₄, h₅, h₆⟩ := hhead
  have hunits : ∀ c ∈ stringify store.toValue ++ [0x0A], c < 0x80 := by
    rw [List.forall_mem_append, List.forall_mem_singleton]
    exact ⟨JsonText.lay_units (by decide) (by simp) (by simp) _ (toDoc_units _ (toValue_plain store)) 0, by decide⟩
  have hstringify : (stringify store.toValue).length ≤ 134 * store.entries.length + 57 := by
    have hshape : store.toValue = .obj [(str "schema", .str STORE_SCHEMA), (str "version", .num STORE_VERSION),
        (str "entries", .obj store.members)] := rfl
    rw [hshape]
    simp only [stringify, Value.toDoc, Value.toMembers, h₅, if_true, JsonText.Doc.lay, JsonText.Doc.layMembers, List.length_cons,
      List.length_append, List.length_nil, h₁, h₂, h₃, h₄, h₆]
    omega
  have hlimit := store.limit
  unfold payload
  rw [toUtf8_ascii hunits, List.length_map, List.length_append]
  simp only [STORE_MAX_BYTES, STORE_MAX_ENTRIES, List.length_singleton] at hlimit ⊢
  omega

/-! ### The entries of the file -/

theorem loadKnownHosts_payload (store : KnownHostsStore) : loadKnownHosts none (some (payload store)) = .ok ⟨store, true⟩ := by
  unfold loadKnownHosts readPrivateFileIfExists
  dsimp only
  rw [if_neg (Nat.not_lt.mpr (payload_length store))]
  dsimp only
  rw [parseBytes_payload]
  dsimp only
  rw [validateStore_toValue]
  rfl

/-- The store that a read without failure finds. -/
def current (file : Option Bytes) : Option KnownHostsStore := (loadKnownHosts none file).toOption.map LoadedStore.store

def entry (hostId : Digest) (file : Option Bytes) : Option Digest :=
  (current file).bind fun store => OrderedDict.get hostId store.entries

theorem current_payload (store : KnownHostsStore) : current (some (payload store)) = some store := by
  unfold current
  rw [loadKnownHosts_payload]
  rfl

theorem load_ok {read : Option Thrown} {file : Option Bytes} {loaded : LoadedStore} (h : loadKnownHosts read file = .ok loaded) :
    read = none ∧ current file = some loaded.store ∧ loaded.fileExists = file.isSome := by
  cases read with
  | some error => cases h
  | none =>
    refine ⟨rfl, by rw [current, h]; rfl, ?_⟩
    unfold loadKnownHosts at h
    cases file with
    | none =>
      cases h
      rfl
    | some buffer =>
      dsimp only [readPrivateFileIfExists] at h
      by_cases hsize : STORE_MAX_BYTES < buffer.length
      · rw [if_pos hsize] at h
        cases h
      · rw [if_neg hsize] at h
        dsimp only at h
        cases hparse : parseBytes buffer with
        | none =>
          rw [hparse] at h
          cases h
        | some raw =>
          rw [hparse] at h
          dsimp only at h
          cases hvalid : validateStore raw with
          | error error =>
            rw [hvalid] at h
            cases h
          | ok store =>
            rw [hvalid] at h
            cases h
            rfl

/-- The write does what the file system does with it. -/
theorem persistKnownHosts_eq (write : WriteOutcome) (loaded : LoadedStore) {file : Option Bytes} (h : loaded.fileExists = file.isSome) :
    persistKnownHosts write loaded file = write.apply (payload loaded.store) file := by
  have hlength := Nat.not_lt.mpr (payload_length loaded.store)
  unfold persistKnownHosts atomicWritePrivateFile createExclusivePrivateFile
  rw [if_neg hlength, if_neg hlength, if_neg hlength, h]
  cases file with
  | none => rfl
  | some contents => rfl

/-- A store that is written is loaded with the same entries. -/
theorem persistKnownHosts_loads (write : WriteOutcome) (loaded : LoadedStore) (file : Option Bytes) :
    (persistKnownHosts write loaded file).2 = file ∨
      loadKnownHosts none (persistKnownHosts write loaded file).2 = .ok ⟨loaded.store, true⟩ := by
  have hlength := Nat.not_lt.mpr (payload_length loaded.store)
  have happly : (write.apply (payload loaded.store) file).2 = file ∨
      loadKnownHosts none (write.apply (payload loaded.store) file).2 = .ok ⟨loaded.store, true⟩ := by
    cases write with
    | done => exact Or.inr (loadKnownHosts_payload _)
    | failedOld error => exact Or.inl rfl
    | failedNew error => exact Or.inr (loadKnownHosts_payload _)
  unfold persistKnownHosts atomicWritePrivateFile createExclusivePrivateFile
  rw [if_neg hlength, if_neg hlength, if_neg hlength]
  split
  · exact happly
  · split
    · exact Or.inl rfl
    · exact happly

/-! ### What a call does -/

/-- The new store is in the file unless the write failed before. -/
def WriteOutcome.replaces : WriteOutcome → Bool
  | .failedOld _ => false
  | _ => true

theorem apply_file (write : WriteOutcome) (store : KnownHostsStore) (file : Option Bytes) :
    (write.apply (payload store) file).2 = if write.replaces then some (payload store) else file := by
  cases write with
  | done => rfl
  | failedOld error => rfl
  | failedNew error => rfl

section
variable (sha256 : Bytes → Digest) (hostId : Digest) {key : Bytes} (notifyOnMismatch : Bool) {io : Io} {file : Option Bytes}
  {loaded : LoadedStore}

/-- A host without an entry, when there is room for one. -/
theorem verifyHostKey_new (hkey : 16 ≤ key.length ∧ key.length ≤ 16 * 1024) (hload : loadKnownHosts io.read file = .ok loaded)
    (hget : OrderedDict.get hostId loaded.store.entries = none) (hroom : loaded.store.entries.length < STORE_MAX_ENTRIES) :
    ((verifyHostKey sha256 hostId.val key notifyOnMismatch io file).1.accepted = true ↔ io.write = .done) ∧
      (verifyHostKey sha256 hostId.val key notifyOnMismatch io file).2 =
        if io.write.replaces then some (payload (loaded.store.assign hostId (sha256 key) hroom)) else file := by
  have hpersist := persistKnownHosts_eq io.write
    ⟨loaded.store.assign hostId (sha256 key) hroom, loaded.fileExists⟩ (load_ok hload).2.2
  unfold verifyHostKey
  rw [dif_pos ⟨hostId.property, hkey⟩]
  dsimp only
  rw [hload]
  dsimp only
  rw [hget]
  dsimp only
  rw [dif_pos hroom, hpersist]
  cases hwrite : io.write with
  | done => exact ⟨⟨fun _ => rfl, fun _ => rfl⟩, rfl⟩
  | failedOld error => exact ⟨⟨(fun h => nomatch h), (fun h => nomatch h)⟩, rfl⟩
  | failedNew error => exact ⟨⟨(fun h => nomatch h), (fun h => nomatch h)⟩, rfl⟩

/-- Any other verification leaves the file as it is, -/
theorem verifyHostKey_same (hnew : ¬ ∃ loaded, loadKnownHosts io.read file = .ok loaded ∧
      OrderedDict.get hostId loaded.store.entries = none ∧ loaded.store.entries.length < STORE_MAX_ENTRIES) :
    (verifyHostKey sha256 hostId.val key notifyOnMismatch io file).2 = file := by
  unfold verifyHostKey
  split
  · dsimp only
    split
    · rfl
    · next loaded hload =>
      split
      · next hget =>
        split
        · next hroom => exact (hnew ⟨loaded, hload, hget, hroom⟩).elim
        · rfl
      · split <;> rfl
  · rfl

/-- and accepts the key of the entry only. -/
theorem verifyHostKey_known (hnew : ¬ ∃ loaded, loadKnownHosts io.read file = .ok loaded ∧
      OrderedDict.get hostId loaded.store.entries = none ∧ loaded.store.entries.length < STORE_MAX_ENTRIES) :
    (verifyHostKey sha256 hostId.val key notifyOnMismatch io file).1.accepted = true ↔
      (16 ≤ key.length ∧ key.length ≤ 16 * 1024) ∧ io.read = none ∧ entry hostId file = some (sha256 key) := by
  unfold verifyHostKey
  split
  · next hvalid =>
    dsimp only
    cases hload : loadKnownHosts io.read file with
    | error error =>
      refine ⟨(fun h => by cases h), fun h => ?_⟩
      obtain ⟨-, hread, hentry⟩ := h
      rw [hread] at hload
      simp [entry, current, hload, Except.toOption] at hentry
    | ok loaded =>
      obtain ⟨hread, hcurrent, -⟩ := load_ok hload
      have hentry : entry hostId file = OrderedDict.get hostId loaded.store.entries := by
        rw [entry, hcurrent]
        rfl
      rw [hentry]
      dsimp only
      cases hget : OrderedDict.get hostId loaded.store.entries with
      | none =>
        dsimp only
        have hfull : ¬ loaded.store.entries.length < STORE_MAX_ENTRIES := fun hroom => hnew ⟨loaded, hload, hget, hroom⟩
        rw [dif_neg hfull]
        exact ⟨(fun h => by cases h), fun h => by cases h.2.2⟩
      | some stored =>
        dsimp only
        by_cases hsame : stored = sha256 key
        · rw [if_pos hsame, hsame]
          exact ⟨fun _ => ⟨hvalid.2, hread, rfl⟩, fun _ => rfl⟩
        · rw [if_neg hsame]
          exact ⟨(fun h => by cases h), fun h => (hsame (Option.some.inj h.2.2)).elim⟩
  · next hinvalid => exact ⟨(fun h => by cases h), fun h => (hinvalid ⟨hostId.property, h.1⟩).elim⟩

/-- A name that is no reference is rejected. -/
theorem verifyHostKey_invalid {name : Str} (hname : isHex64 name = false) :
    verifyHostKey sha256 name key notifyOnMismatch io file = (rejected (str "invalid_input"), file) := by
  unfold verifyHostKey
  rw [dif_neg fun h => absurd (hname.symm.trans h.1) Bool.false_ne_true]

end

/-- The key that a verification is given. -/
def Call.key : Call → Option Bytes
  | .verify _ key _ | .connect _ _ key => some key
  | .clear _ => none

/-- All that a call hashes. -/
def Call.hashed : Call → List Bytes
  | .verify _ key _ => [key]
  | .connect host port key => key :: (endpointBytes host port).toList
  | .clear _ => []

def Answer.accepts : Answer → Bool
  | .verdict reply => reply.accepted
  | .cleared _ => false

def Answer.removes : Answer → Bool
  | .cleared (.ok 1) => true
  | _ => false

def Answer.fails : Answer → Bool
  | .cleared (.error _) => true
  | _ => false

def WriteOutcome.leavesNew : WriteOutcome → Bool
  | .failedNew _ => true
  | _ => false

/-- The key was accepted for the host. -/
def Event.Accepts (sha256 : Bytes → Digest) (hostId : Digest) (key : Bytes) (e : Event) : Prop :=
  e.call.endpoint sha256 = some hostId.val ∧ e.call.key = some key ∧ e.answer.accepts = true

def Event.Clears (hostId : Digest) (e : Event) : Prop := e.call = .clear hostId.val ∧ e.answer.removes = true

/-- A call to clear the host failed, and the write left the new store. -/
def Event.HalfClears (hostId : Digest) (e : Event) : Prop :=
  e.call = .clear hostId.val ∧ e.answer.fails = true ∧ e.io.write.leavesNew = true

instance (sha256 : Bytes → Digest) (hostId : Digest) (key : Bytes) (e : Event) : Decidable (e.Accepts sha256 hostId key) :=
  inferInstanceAs (Decidable (_ ∧ _))

instance (hostId : Digest) (e : Event) : Decidable (e.Clears hostId) := inferInstanceAs (Decidable (_ ∧ _))

/-- What a step does to the file: nothing, a new entry, or an entry less. -/
inductive Change (sha256 : Bytes → Digest) (file file' : Option Bytes) (e : Event) : Prop
  | same (h : file' = file)
  | pinned {hostId : Digest} {key : Bytes} {store : KnownHostsStore} (hroom : store.entries.length < STORE_MAX_ENTRIES)
      (endpoint : e.call.endpoint sha256 = some hostId.val) (call : e.call.key = some key) (before : current file = some store)
      (new : OrderedDict.get hostId store.entries = none) (after : current file' = some (store.assign hostId (sha256 key) hroom))
  | removed {hostId : Digest} {store : KnownHostsStore} (event : e.Clears hostId ∨ e.HalfClears hostId)
      (before : current file = some store) (after : current file' = some (store.delete hostId))

section
variable (sha256 : Bytes → Digest)

theorem verifyHostKey_change (hostId : Digest) (key : Bytes) (notifyOnMismatch : Bool) (io : Io) (file : Option Bytes) {e : Event}
    (hendpoint : e.call.endpoint sha256 = some hostId.val) (hcall : e.call.key = some key) :
    Change sha256 file (verifyHostKey sha256 hostId.val key notifyOnMismatch io file).2 e := by
  by_cases hnew : ∃ loaded, loadKnownHosts io.read file = .ok loaded ∧
      OrderedDict.get hostId loaded.store.entries = none ∧ loaded.store.entries.length < STORE_MAX_ENTRIES
  · obtain ⟨loaded, hload, hget, hroom⟩ := hnew
    by_cases hkey : 16 ≤ key.length ∧ key.length ≤ 16 * 1024
    · rw [(verifyHostKey_new sha256 hostId notifyOnMismatch hkey hload hget hroom).2]
      split
      · exact .pinned hroom hendpoint hcall (load_ok hload).2.1 hget (current_payload _)
      · exact .same rfl
    · refine .same ?_
      unfold verifyHostKey
      rw [dif_neg fun h => hkey h.2]
  · exact .same (verifyHostKey_same sha256 hostId notifyOnMismatch hnew)

theorem clearKnownHost_change (name : Str) (io : Io) (file : Option Bytes) :
    Change sha256 file (clearKnownHost name io file).2 ⟨.clear name, io, .cleared (clearKnownHost name io file).1⟩ := by
  unfold clearKnownHost
  split
  · next hid =>
    cases hload : loadKnownHosts io.read file with
    | error error => exact .same rfl
    | ok loaded =>
      obtain ⟨-, hcurrent, hexists⟩ := load_ok hload
      dsimp only
      split
      · exact .same rfl
      · have hpersist := persistKnownHosts_eq io.write ⟨loaded.store.delete ⟨name, hid⟩, loaded.fileExists⟩ hexists
        rw [hpersist]
        cases hwrite : io.write with
        | done => exact @Change.removed _ _ _ _ ⟨name, hid⟩ _ (Or.inl ⟨rfl, rfl⟩) hcurrent (current_payload _)
        | failedOld error => exact .same rfl
        | failedNew error =>
          exact @Change.removed _ _ _ _ ⟨name, hid⟩ _ (Or.inr ⟨rfl, rfl, by rw [hwrite]; rfl⟩) hcurrent (current_payload _)
  · exact .same rfl

theorem step_change (file : Option Bytes) (i : Call × Io) : Change sha256 file (step sha256 file i).1 (step sha256 file i).2 := by
  obtain ⟨call, io⟩ := i
  cases call with
  | verify name key notifyOnMismatch =>
    by_cases hname : isHex64 name = true
    · exact verifyHostKey_change sha256 ⟨name, hname⟩ key notifyOnMismatch io file rfl rfl
    · refine .same ?_
      have hfalse : isHex64 name = false := by simpa using hname
      simp only [step, verifyHostKey_invalid sha256 notifyOnMismatch hfalse]
  | connect host port key =>
    unfold step makeHostVerifier
    dsimp only
    cases hid : createKnownHostId sha256 host port with
    | none => exact .same rfl
    | some hostId =>
      refine verifyHostKey_change sha256 hostId key true io file ?_ rfl
      simp [Call.endpoint, hid]
  | clear name => exact clearKnownHost_change sha256 name io file

/-! ### Entries over a run -/

theorem entry_assign {file : Option Bytes} {store : KnownHostsStore} {hostId fingerprint : Digest}
    {hroom : store.entries.length < STORE_MAX_ENTRIES} (h : current file = some (store.assign hostId fingerprint hroom)) (other : Digest) :
    entry other file = if other = hostId then some fingerprint else OrderedDict.get other store.entries := by
  unfold entry
  rw [h]
  by_cases hother : other = hostId
  · rw [if_pos hother, hother]
    exact OrderedDict.get_assign_self ..
  · rw [if_neg hother]
    exact OrderedDict.get_assign_ne hother ..

theorem entry_delete {file : Option Bytes} {store : KnownHostsStore} {hostId other : Digest} (hother : other ≠ hostId)
    (h : current file = some (store.delete hostId)) : entry other file = OrderedDict.get other store.entries := by
  unfold entry
  rw [h]
  exact OrderedDict.get_pop_ne hother store.entries

theorem entry_current {file : Option Bytes} {store : KnownHostsStore} (h : current file = some store) (hostId : Digest) :
    entry hostId file = OrderedDict.get hostId store.entries := by
  unfold entry
  rw [h]
  rfl

/-- An entry stays until it is removed. -/
theorem Change.keeps {file file' : Option Bytes} {e : Event} (h : Change sha256 file file' e) {hostId fingerprint : Digest}
    (hentry : entry hostId file = some fingerprint) (he : ¬ (e.Clears hostId ∨ e.HalfClears hostId)) :
    entry hostId file' = some fingerprint := by
  cases h with
  | same h => rwa [h]
  | @pinned other key store hroom endpoint call before new after =>
    rw [entry_current before] at hentry
    have hne : hostId ≠ other := by
      rintro rfl
      rw [new] at hentry
      cases hentry
    rw [entry_assign after, if_neg hne]
    exact hentry
  | @removed other store event before after =>
    have hne : hostId ≠ other := by
      rintro rfl
      exact he event
    rw [entry_delete hne after, ← entry_current before]
    exact hentry

/-- A call about another host changes neither the entry nor whether the file can be read. -/
theorem Change.apart {file file' : Option Bytes} {e : Event} (h : Change sha256 file file' e) {hostId : Digest}
    (he : e.call.endpoint sha256 ≠ some hostId.val) :
    entry hostId file' = entry hostId file ∧ ((current file').isSome ↔ (current file).isSome) := by
  cases h with
  | same h => simp [h]
  | @pinned other key store hroom endpoint call before new after =>
    have hne : hostId ≠ other := by
      rintro rfl
      exact he endpoint
    rw [entry_assign after, if_neg hne, entry_current before, after, before]
    exact ⟨rfl, Iff.rfl⟩
  | @removed other store event before after =>
    have hne : hostId ≠ other := by
      rintro rfl
      have hcall : e.call = .clear hostId.val := event.elim And.left And.left
      exact he (by rw [hcall]; rfl)
    rw [entry_delete hne after, entry_current before, after, before]
    exact ⟨rfl, Iff.rfl⟩

theorem run_keeps {hostId fingerprint : Digest} (is : List (Call × Io)) {file : Option Bytes} (hentry : entry hostId file = some fingerprint)
    (his : ∀ e ∈ (machine sha256).trace file is, ¬ (e.Clears hostId ∨ e.HalfClears hostId)) :
    entry hostId ((machine sha256).run file is) = some fingerprint := by
  induction is generalizing file with
  | nil => exact hentry
  | cons i is ih =>
    rw [Machine.trace_cons, List.forall_mem_cons] at his
    exact ih ((step_change sha256 file i).keeps sha256 hentry his.1) his.2

theorem step_call (file : Option Bytes) (i : Call × Io) : (step sha256 file i).2.call = i.1 := by
  obtain ⟨call, io⟩ := i
  cases call <;> rfl

theorem run_apart {hostId : Digest} (is : List (Call × Io)) (file : Option Bytes) (his : ∀ i ∈ is, i.1.endpoint sha256 ≠ some hostId.val) :
    entry hostId ((machine sha256).run file is) = entry hostId file ∧
      ((current ((machine sha256).run file is)).isSome ↔ (current file).isSome) := by
  induction is generalizing file with
  | nil => exact ⟨rfl, Iff.rfl⟩
  | cons i is ih =>
    rw [List.forall_mem_cons] at his
    have hone := (step_change sha256 file i).apart sha256 (by rw [step_call]; exact his.1)
    have hrest := ih (step sha256 file i).1 his.2
    exact ⟨hrest.1.trans hone.1, hrest.2.trans hone.2⟩

/-! ### Verdicts -/

/-- The file has no room for another host. -/
def Full (file : Option Bytes) : Prop := ∃ store, current file = some store ∧ STORE_MAX_ENTRIES ≤ store.entries.length

/-- When a key is accepted. -/
theorem accepted_iff (hostId : Digest) (key : Bytes) (notifyOnMismatch : Bool) (io : Io) (file : Option Bytes) :
    (verifyHostKey sha256 hostId.val key notifyOnMismatch io file).1.accepted = true ↔
      (16 ≤ key.length ∧ key.length ≤ 16 * 1024) ∧ io.read = none ∧ (entry hostId file = some (sha256 key) ∨
        entry hostId file = none ∧ (current file).isSome ∧ ¬ Full file ∧ io.write = .done) := by
  by_cases hnew : ∃ loaded, loadKnownHosts io.read file = .ok loaded ∧
      OrderedDict.get hostId loaded.store.entries = none ∧ loaded.store.entries.length < STORE_MAX_ENTRIES
  · obtain ⟨loaded, hload, hget, hroom⟩ := hnew
    obtain ⟨hread, hcurrent, -⟩ := load_ok hload
    have hentry : entry hostId file = none := (entry_current hcurrent hostId).trans hget
    have hroom' : ¬ Full file := by
      rintro ⟨store, hstore, hlength⟩
      cases hcurrent.symm.trans hstore
      omega
    by_cases hkey : 16 ≤ key.length ∧ key.length ≤ 16 * 1024
    · rw [(verifyHostKey_new sha256 hostId notifyOnMismatch hkey hload hget hroom).1, hentry, hcurrent]
      simp [hkey, hread, hroom']
    · unfold verifyHostKey
      rw [dif_neg fun h => hkey h.2]
      simp [hkey, rejected]
  · rw [verifyHostKey_known sha256 hostId notifyOnMismatch hnew]
    have hnone : ¬ (io.read = none ∧ entry hostId file = none ∧ (current file).isSome ∧ ¬ Full file) := by
      intro ⟨hread, hentry, hsome, hroom⟩
      obtain ⟨store, hstore⟩ := Option.isSome_iff_exists.mp hsome
      cases hload : loadKnownHosts io.read file with
      | error error =>
        rw [hread] at hload
        rw [current, hload] at hstore
        cases hstore
      | ok loaded =>
        cases (load_ok hload).2.1.symm.trans hstore
        refine hnew ⟨loaded, hload, (entry_current hstore hostId).symm.trans hentry, ?_⟩
        by_contra hfull
        exact hroom ⟨_, hstore, Nat.le_of_not_lt hfull⟩
    tauto

/-- A key that is accepted is the one of the entry, before and after. -/
theorem verifyHostKey_entry {hostId : Digest} {key : Bytes} {notifyOnMismatch : Bool} {io : Io} {file : Option Bytes}
    (h : (verifyHostKey sha256 hostId.val key notifyOnMismatch io file).1.accepted = true) :
    entry hostId (verifyHostKey sha256 hostId.val key notifyOnMismatch io file).2 = some (sha256 key) ∧
      ∀ fingerprint, entry hostId file = some fingerprint → fingerprint = sha256 key := by
  by_cases hnew : ∃ loaded, loadKnownHosts io.read file = .ok loaded ∧
      OrderedDict.get hostId loaded.store.entries = none ∧ loaded.store.entries.length < STORE_MAX_ENTRIES
  · have hkey := ((accepted_iff sha256 hostId key notifyOnMismatch io file).mp h).1
    obtain ⟨loaded, hload, hget, hroom⟩ := hnew
    obtain ⟨haccepted, hfile⟩ := verifyHostKey_new sha256 hostId notifyOnMismatch hkey hload hget hroom
    refine ⟨?_, fun fingerprint hentry => ?_⟩
    · have hreplaced : io.write.replaces = true := by
        rw [haccepted.mp h]
        rfl
      rw [hfile, if_pos hreplaced, entry_assign (current_payload _), if_pos rfl]
    · rw [entry_current (load_ok hload).2.1, hget] at hentry
      cases hentry
  · have hentry := ((verifyHostKey_known sha256 hostId notifyOnMismatch hnew).mp h).2.2
    rw [verifyHostKey_same sha256 hostId notifyOnMismatch hnew]
    exact ⟨hentry, fun fingerprint h => Option.some.inj (h.symm.trans hentry)⟩

theorem step_accepts {file : Option Bytes} {i : Call × Io} {hostId : Digest} {key : Bytes}
    (h : (step sha256 file i).2.Accepts sha256 hostId key) :
    entry hostId (step sha256 file i).1 = some (sha256 key) ∧
      ∀ fingerprint, entry hostId file = some fingerprint → fingerprint = sha256 key := by
  obtain ⟨call, io⟩ := i
  obtain ⟨hendpoint, hkey, haccepted⟩ := h
  cases call with
  | verify name key' notifyOnMismatch =>
    cases hendpoint
    cases hkey
    exact verifyHostKey_entry sha256 haccepted
  | connect host port key' =>
    have hid : createKnownHostId sha256 host port = some hostId := by
      obtain ⟨id, hid, hval⟩ := Option.map_eq_some_iff.mp hendpoint
      rw [hid, Subtype.ext hval]
    cases hkey
    unfold step makeHostVerifier at haccepted ⊢
    dsimp only at haccepted ⊢
    rw [hid] at haccepted ⊢
    exact verifyHostKey_entry sha256 haccepted
  | clear name => cases haccepted

end

/-! ### References -/

/-- The units of a host that passed: digits, lower case letters, points, hyphens and colons. -/
def isHostUnit (c : UInt16) : Bool := isLower c || isDigit c || decide (c = 0x2D ∨ c = 0x2E ∨ c = 0x3A)

theorem isHostUnit_ascii {c : UInt16} (h : isHostUnit c = true) : c < 0x80 := by
  simp only [isHostUnit, isLower, isDigit, Bool.or_eq_true, decide_eq_true_eq, UInt16.le_iff_toNat_le, ← UInt16.toNat_inj,
    UInt16.reduceToNat] at h
  rw [UInt16.lt_iff_toNat_lt]
  simp only [UInt16.reduceToNat]
  omega

theorem isHexOrColon_unit {c : UInt16} (h : isHexOrColon c = true) : isHostUnit c = true := by
  simp only [isHexOrColon, isHostUnit, isLower, isDigit, Bool.or_eq_true, decide_eq_true_eq, UInt16.le_iff_toNat_le,
    ← UInt16.toNat_inj, UInt16.reduceToNat] at h ⊢
  omega

theorem isHostName_units {s : Str} (h : isHostName s = true) : ∀ c ∈ s, isHostUnit c = true := by
  cases s with
  | nil => cases h
  | cons d t =>
    simp only [isHostName, Bool.and_eq_true, List.all_eq_true] at h
    intro c hc
    unfold isHostUnit
    rcases List.mem_cons.mp hc with rfl | hc
    · rw [h.1.1.1]
      rfl
    · have hunit := h.1.2 c hc
      simp only [Bool.or_eq_true, decide_eq_true_eq] at hunit ⊢
      rcases hunit with hunit | hunit | hunit
      · exact Or.inl hunit
      · exact Or.inr (Or.inr (Or.inl hunit))
      · exact Or.inr (Or.inl hunit)

theorem normalizeHost_some {value normalized : Str} (h : normalizeHost value = some normalized) :
    normalized = toLowerCase value ∧ ∀ c ∈ normalized, c < 0x80 := by
  unfold normalizeHost at h
  dsimp only at h
  split_ifs at h with h₁ h₂ h₃ h₄ h₅ h₆
  · cases h
    exact ⟨rfl, fun c hc => isHostUnit_ascii (isHexOrColon_unit (List.all_eq_true.mp h₅.1 c hc))⟩
  · cases h
    exact ⟨rfl, fun c hc => isHostUnit_ascii (isHostName_units h₆ c hc)⟩

/-- The first place of a unit. -/
theorem first_place {x₁ x₂ z₁ z₂ : Str} {a : UInt16} (h₁ : a ∉ x₁) (h₂ : a ∉ x₂) (h : x₁ ++ a :: z₁ = x₂ ++ a :: z₂) :
    x₁ = x₂ ∧ z₁ = z₂ := by
  induction x₁ generalizing x₂ with
  | nil =>
    cases x₂ with
    | nil => exact ⟨rfl, List.tail_eq_of_cons_eq h⟩
    | cons c x₂ => exact (h₂ (by rw [List.head_eq_of_cons_eq h]; exact List.mem_cons_self ..)).elim
  | cons c x₁ ih =>
    cases x₂ with
    | nil => exact (h₁ (by rw [← List.head_eq_of_cons_eq h]; exact List.mem_cons_self ..)).elim
    | cons d x₂ =>
      obtain ⟨hx, hz⟩ := ih (fun hmem => h₁ (List.mem_cons_of_mem _ hmem)) (fun hmem => h₂ (List.mem_cons_of_mem _ hmem))
        (List.tail_eq_of_cons_eq h)
      rw [List.head_eq_of_cons_eq h, hx]
      exact ⟨rfl, hz⟩

theorem digits_units (n : ℕ) : ∀ c ∈ Decimal.digits UInt16.ofNat n, c < 0x80 ∧ c ≠ 0x3A := by
  intro c hc
  have hdigit := Decimal.digits_isDigit ascii_unit n c hc
  simp only [JsonText.isDigit, decide_eq_true_eq] at hdigit
  rw [UInt16.lt_iff_toNat_lt, ne_eq, ← UInt16.toNat_inj]
  simp only [UInt16.reduceToNat]
  omega

theorem toUtf8_injective {s t : Str} (hs : ∀ c ∈ s, c < 0x80) (ht : ∀ c ∈ t, c < 0x80) (h : toUtf8 s = toUtf8 t) : s = t := by
  have hpoints := (decode_toUtf8 hs).symm.trans ((congrArg Utf8.decodeReplace h).trans (decode_toUtf8 ht))
  have hpoint : Function.Injective point := by
    intro a b hab
    have hval := congrArg Fin.val hab
    rw [point_val, point_val] at hval
    exact UInt16.toNat_inj.mp hval
  exact hpoint.list_map hpoints

/-- Endpoints with the same text have the same host and port. -/
theorem endpointBytes_injective {host host' : Str} {port port' : PortValue} {bytes : Bytes} (h : endpointBytes host port = some bytes)
    (h' : endpointBytes host' port' = some bytes) : toLowerCase host = toLowerCase host' ∧ normalizePort port = normalizePort port' := by
  have hparts : ∀ {host : Str} {port : PortValue}, endpointBytes host port = some bytes → ∃ normalizedPort,
      normalizePort port = some normalizedPort ∧ (∀ c ∈ toLowerCase host, c < 0x80) ∧
        bytes = toUtf8 (toLowerCase host ++ 0x3A :: Decimal.digits UInt16.ofNat normalizedPort) := by
    intro host port h
    unfold endpointBytes at h
    obtain ⟨normalizedHost, hhost, h⟩ := Option.bind_eq_some_iff.mp h
    obtain ⟨normalizedPort, hport, h⟩ := Option.bind_eq_some_iff.mp h
    obtain ⟨hlower, hascii⟩ := normalizeHost_some hhost
    cases h
    rw [← hlower]
    exact ⟨normalizedPort, hport, hascii, rfl⟩
  obtain ⟨n, hport, hascii, hbytes⟩ := hparts h
  obtain ⟨n', hport', hascii', hbytes'⟩ := hparts h'
  have hall : ∀ {s : Str} {m : ℕ}, (∀ c ∈ s, c < 0x80) → ∀ c ∈ s ++ 0x3A :: Decimal.digits UInt16.ofNat m, c < 0x80 := by
    intro s m hs
    rw [List.forall_mem_append, List.forall_mem_cons]
    exact ⟨hs, by decide, fun c hc => (digits_units m c hc).1⟩
  have htext := toUtf8_injective (hall hascii) (hall hascii') (hbytes.symm.trans hbytes')
  -- the last colon parts host and port
  have hreverse := congrArg List.reverse htext
  simp only [List.reverse_append, List.reverse_cons, List.append_assoc, List.singleton_append] at hreverse
  have hcolon : ∀ m, (0x3A : UInt16) ∉ (Decimal.digits UInt16.ofNat m).reverse := by
    intro m hmem
    exact (digits_units m _ (List.mem_reverse.mp hmem)).2 rfl
  obtain ⟨hdigits, hhosts⟩ := first_place (hcolon n) (hcolon n') hreverse
  have hn := congrArg (Decimal.readDigits UInt16.toNat) (List.reverse_injective hdigits)
  rw [Decimal.readDigits_digits ascii_unit, Decimal.readDigits_digits ascii_unit] at hn
  rw [hport, hport', hn]
  exact ⟨List.reverse_injective hhosts, rfl⟩

/-! ### Host keys are pinned on first use -/

/-- Between two clears of a host, successful ones or ones whose failed write left the new
store, one key at most is accepted for it. Endpoints with another host or port have
another reference. Calls about other hosts leave the entry as it is, and the verdict too
unless a host without an entry finds the store full before them or after them, but not
both. And what is written is loaded again. -/
theorem host_keys_pinned (sha256 : Bytes → Digest) (file : Option Bytes) (is : List (Call × Io))
    (hsha256 : Set.InjOn sha256 {bytes | ∃ i ∈ is, bytes ∈ i.1.hashed}) :
    (∀ hostId key key' before between after first second,
      (machine sha256).trace file is = before ++ first :: (between ++ second :: after) →
        first.Accepts sha256 hostId key → second.Accepts sha256 hostId key' →
          (∀ e ∈ between, ¬ (e.Clears hostId ∨ e.HalfClears hostId)) → key = key') ∧
    (∀ hostId host port key host' port' key' io io', (.connect host port key, io) ∈ is → (.connect host' port' key', io') ∈ is →
      createKnownHostId sha256 host port = some hostId → createKnownHostId sha256 host' port' = some hostId →
        toLowerCase host = toLowerCase host' ∧ normalizePort port = normalizePort port') ∧
    (∀ hostId : Digest, (∀ i ∈ is, i.1.endpoint sha256 ≠ some hostId.val) →
      entry hostId ((machine sha256).run file is) = entry hostId file ∧
        ∀ key notifyOnMismatch io, (entry hostId file ≠ none ∨ (Full file ↔ Full ((machine sha256).run file is))) →
          (verifyHostKey sha256 hostId.val key notifyOnMismatch io ((machine sha256).run file is)).1.accepted =
            (verifyHostKey sha256 hostId.val key notifyOnMismatch io file).1.accepted) ∧
    ∀ write loaded file', (persistKnownHosts write loaded file').2 = file' ∨
      loadKnownHosts none (persistKnownHosts write loaded file').2 = .ok ⟨loaded.store, true⟩ := by
  have hkey : ∀ {i : Call × Io} {key : Bytes}, i.1.key = some key → key ∈ i.1.hashed := by
    intro i key h
    obtain ⟨call, io⟩ := i
    cases call with
    | verify hostId key' notifyOnMismatch =>
      cases h
      exact List.mem_singleton_self _
    | connect host port key' =>
      cases h
      exact List.mem_cons_self ..
    | clear hostId => cases h
  refine ⟨?_, ?_, ?_, persistKnownHosts_loads⟩
  · intro hostId key key' before between after first second htrace hfirst hsecond hbetween
    obtain ⟨is₁, i, is₂, rfl, -, rfl, hrest⟩ := (machine sha256).trace_split htrace
    obtain ⟨is₃, j, is₄, rfl, rfl, rfl, -⟩ := (machine sha256).trace_split hrest.symm
    have hpinned := (step_accepts sha256 hfirst).1
    have hkept := run_keeps sha256 is₃ hpinned hbetween
    have hsame := (step_accepts sha256 hsecond).2 _ hkept
    have hcall : ∀ {t : Option Bytes} {i : Call × Io} {key : Bytes}, (step sha256 t i).2.Accepts sha256 hostId key → i.1.key = some key := by
      intro t i key h
      rw [← step_call sha256 t i]
      exact h.2.1
    exact hsha256 ⟨i, by simp, hkey (hcall hfirst)⟩ ⟨j, by simp, hkey (hcall hsecond)⟩ hsame
  · intro hostId host port key host' port' key' io io' hi hj hid hid'
    obtain ⟨bytes, hbytes, hhash⟩ := Option.map_eq_some_iff.mp hid
    obtain ⟨bytes', hbytes', hhash'⟩ := Option.map_eq_some_iff.mp hid'
    have hsame : bytes = bytes' :=
      hsha256 ⟨_, hi, by simp [Call.hashed, hbytes]⟩ ⟨_, hj, by simp [Call.hashed, hbytes']⟩ (hhash.trans hhash'.symm)
    exact endpointBytes_injective hbytes (hsame ▸ hbytes')
  · intro hostId hothers
    obtain ⟨hentry, hsome⟩ := run_apart sha256 is file hothers
    refine ⟨hentry, fun key notifyOnMismatch io hcase => ?_⟩
    rw [Bool.eq_iff_iff, accepted_iff, accepted_iff, hentry, hsome]
    rcases hcase with hpresent | hfull
    · simp [hpresent]
    · rw [hfull]

/-! ### Samples -/

def firstKey : Bytes := List.replicate 16 1
def secondKey : Bytes := List.replicate 16 2

/-- The hashes of the two keys; any other text has that of `example.com:22`. -/
def sampleSha256 (bytes : Bytes) : Digest :=
  if bytes = firstKey then ⟨str "cc8cd41cef907c4d216069122c4b89936211361f9050a717a1e37ad1862e952f", by decide +kernel⟩
  else if bytes = secondKey then ⟨str "292afde3b64e6636d68f1120d9242f1f85e38ef7bf306e4407c2303eb63791ef", by decide +kernel⟩
  else ⟨str "993574ec685453dca70ab7dd8c8cebce2d365c6765328cab8bf73910752a9876", by decide +kernel⟩

def sampleHost : Digest := sampleSha256 (Sse.asciiBytes "example.com:22")

def working : Io := ⟨none, .done⟩

/-- Two connections, and a call to clear the host that fails between them. -/
def sampleCalls : List (Call × Io) :=
  [(.connect (str "Example.com") .undefined firstKey, working), (.clear sampleHost.val, ⟨none, .failedNew (thrown "private_file_commit_mismatch")⟩),
    (.connect (str "example.com") (.string (str "22")) secondKey, working)]

def sampleSame : List (Call × Io) :=
  [(.connect (str "Example.com") .undefined firstKey, working), (.connect (str "example.com") (.string (str "22")) secondKey, working)]

theorem sample_pinned :
    ∃ a b, (machine sampleSha256).trace none sampleSame = [a, b] ∧ a.Accepts sampleSha256 sampleHost firstKey ∧
      ¬ b.Accepts sampleSha256 sampleHost secondKey := by
  have hinj : Set.InjOn sampleSha256 {bytes | ∃ i ∈ sampleSame, bytes ∈ i.1.hashed} := by
    have hall : (sampleSame.flatMap fun i => i.1.hashed) =
        [firstKey, Sse.asciiBytes "example.com:22", secondKey, Sse.asciiBytes "example.com:22"] := by decide +kernel
    have hlist : ∀ a ∈ sampleSame.flatMap (fun i => i.1.hashed), ∀ b ∈ sampleSame.flatMap (fun i => i.1.hashed),
        sampleSha256 a = sampleSha256 b → a = b := by
      rw [hall]
      decide +kernel
    intro a ha b hb
    exact hlist a (List.mem_flatMap.mpr ha) b (List.mem_flatMap.mpr hb)
  have hfirst := (host_keys_pinned sampleSha256 none sampleSame hinj).1 sampleHost firstKey secondKey [] [] []
  refine ⟨_, _, rfl, by decide +kernel, fun hsecond => ?_⟩
  have hkeys := hfirst _ _ rfl (by decide +kernel) hsecond nofun
  exact absurd hkeys (by decide)

/-- References for a store that is almost full. -/
def numbered (n : ℕ) : Digest :=
  ⟨List.replicate 60 0x30 ++ [hexDigit (n / 0x1000 % 16), hexDigit (n / 0x100 % 16), hexDigit (n / 16 % 16), hexDigit (n % 16)], by
    have hdigit : ∀ d < 16, 0x30 ≤ hexDigit d ∧ hexDigit d ≤ 0x39 ∨ 0x61 ≤ hexDigit d ∧ hexDigit d ≤ 0x66 := by decide
    have h₁ := hdigit (n / 0x1000 % 16) (by omega)
    have h₂ := hdigit (n / 0x100 % 16) (by omega)
    have h₃ := hdigit (n / 16 % 16) (by omega)
    have h₄ := hdigit (n % 16) (by omega)
    simp [isHex64, h₁, h₂, h₃, h₄]⟩

theorem numbered_injective {m n : ℕ} (hm : m < 0x10000) (hn : n < 0x10000) (h : numbered m = numbered n) : m = n := by
  have hdigit : ∀ {a b : ℕ}, a < 16 → b < 16 → hexDigit a = hexDigit b → a = b := by
    intro a b ha hb hab
    rw [← (hexDigit_spec ha).2, ← (hexDigit_spec hb).2, hab]
  have hlist := List.append_cancel_left (congrArg Subtype.val h)
  simp only [List.cons.injEq, and_true] at hlist
  have h₁ := hdigit (by omega) (by omega) hlist.1
  have h₂ := hdigit (by omega) (by omega) hlist.2.1
  have h₃ := hdigit (by omega) (by omega) hlist.2.2.1
  have h₄ := hdigit (by omega) (by omega) hlist.2.2.2
  omega

theorem numbered_nodup {n : ℕ} (hn : n ≤ STORE_MAX_ENTRIES) :
    (OrderedDict.keys ((List.range n).map fun m => (numbered m, numbered 0))).Nodup := by
  have hkeys : OrderedDict.keys ((List.range n).map fun m => (numbered m, numbered 0)) = (List.range n).map numbered := by
    simp [OrderedDict.keys, Function.comp_def]
  rw [hkeys]
  refine List.Nodup.map_on (fun a ha b hb => ?_) List.nodup_range
  have hmax : STORE_MAX_ENTRIES = 512 := rfl
  rw [List.mem_range] at ha hb
  exact numbered_injective (by omega) (by omega)

theorem numbered_limit {n : ℕ} (hn : n ≤ STORE_MAX_ENTRIES) :
    ((List.range n).map fun m => (numbered m, numbered 0)).length ≤ STORE_MAX_ENTRIES := by
  simpa using hn

def numberedStore (n : ℕ) (hn : n ≤ STORE_MAX_ENTRIES) : KnownHostsStore where
  entries := (List.range n).map fun m => (numbered m, numbered 0)
  nodup := numbered_nodup hn
  limit := numbered_limit hn

theorem numbered_new {n m : ℕ} (hn : n ≤ STORE_MAX_ENTRIES) (hm : n ≤ m) (hsmall : m < 0x10000) :
    OrderedDict.get (numbered m) (numberedStore n hn).entries = none := by
  rw [OrderedDict.get_none]
  intro hmem
  obtain ⟨e, he, hkey⟩ := List.mem_map.mp hmem
  obtain ⟨k, hk, rfl⟩ := List.mem_map.mp he
  rw [List.mem_range] at hk
  have := numbered_injective (by omega) hsmall hkey
  omega

def crowdedStore : KnownHostsStore := numberedStore 511 (by decide)

theorem crowded_new {m : ℕ} (hm : 511 ≤ m) (hsmall : m < 0x10000) : OrderedDict.get (numbered m) crowdedStore.entries = none :=
  numbered_new (by decide) hm hsmall

theorem crowded_length : crowdedStore.entries.length = 511 := by
  simp [crowdedStore, numberedStore]

theorem length_assign_new {store : KnownHostsStore} {hostId : Digest} (digest : Digest) (hroom : store.entries.length < STORE_MAX_ENTRIES)
    (h : OrderedDict.get hostId store.entries = none) :
    (store.assign hostId digest hroom).entries.length = store.entries.length + 1 := by
  show (OrderedDict.assign hostId digest store.entries).length = store.entries.length + 1
  rw [OrderedDict.assign_new (OrderedDict.get_none.mp h), List.length_append]
  rfl

/-- One host takes the last place of the store, and another is not accepted any more. -/
theorem last_place {store : KnownHostsStore} {hostId other : Digest} {key : Bytes} (hne : other ≠ hostId)
    (hkey : 16 ≤ key.length ∧ key.length ≤ 16 * 1024) (hold : OrderedDict.get hostId store.entries = none)
    (hnew : OrderedDict.get other store.entries = none) (hlast : store.entries.length + 1 = STORE_MAX_ENTRIES) :
    (verifyHostKey sampleSha256 other.val key true working (some (payload store))).1.accepted = true ∧
      (verifyHostKey sampleSha256 other.val key true working
        (step sampleSha256 (some (payload store)) (.verify hostId.val key true, working)).1).1.accepted = false := by
  have hload := loadKnownHosts_payload store
  have hroom : store.entries.length < STORE_MAX_ENTRIES := by omega
  have hfile : (step sampleSha256 (some (payload store)) (.verify hostId.val key true, working)).1 =
      some (payload (store.assign hostId (sampleSha256 key) hroom)) :=
    (@verifyHostKey_new sampleSha256 hostId _ true working _ _ hkey hload hold hroom).2
  refine ⟨(@verifyHostKey_new sampleSha256 other _ true working _ _ hkey hload hnew hroom).1.mpr rfl, ?_⟩
  rw [hfile, Bool.eq_false_iff]
  intro haccepted
  have hcurrent := current_payload (store.assign hostId (sampleSha256 key) hroom)
  have hcase := ((accepted_iff ..).mp haccepted).2.2
  rw [entry_assign hcurrent, if_neg hne, hnew] at hcase
  rcases hcase with hcase | hcase
  · cases hcase
  · refine hcase.2.2.1 ⟨_, hcurrent, ?_⟩
    rw [length_assign_new _ hroom hold, hlast]

theorem crowded_changes :
    (verifyHostKey sampleSha256 (numbered 512).val firstKey true working (some (payload crowdedStore))).1.accepted = true ∧
      (verifyHostKey sampleSha256 (numbered 512).val firstKey true working
        (step sampleSha256 (some (payload crowdedStore)) (.verify (numbered 511).val firstKey true, working)).1).1.accepted = false := by
  have hne : numbered 512 ≠ numbered 511 := by
    intro h
    have := numbered_injective (by decide) (by decide) h
    omega
  refine last_place hne (by decide) (crowded_new (le_refl 511) (by decide)) (crowded_new (m := 512) (by decide) (by decide)) ?_
  rw [crowded_length]
  rfl

/-- A second key is accepted although no call to clear the host was successful, and a call
about one host changes the verdict for another. -/
theorem sample_repinned :
    (∃ a b c, (machine sampleSha256).trace none sampleCalls = [a, b, c] ∧ a.Accepts sampleSha256 sampleHost firstKey ∧
      ¬ b.Clears sampleHost ∧ c.Accepts sampleSha256 sampleHost secondKey ∧ firstKey ≠ secondKey) ∧
    ∃ file i, i.1.endpoint sampleSha256 ≠ some (numbered 512).val ∧
      (verifyHostKey sampleSha256 (numbered 512).val firstKey true working file).1.accepted = true ∧
      (verifyHostKey sampleSha256 (numbered 512).val firstKey true working (step sampleSha256 file i).1).1.accepted = false := by
  refine ⟨⟨_, _, _, rfl, by decide +kernel, by decide +kernel, by decide +kernel, by decide⟩, _, _, ?_, crowded_changes⟩
  intro h
  have := numbered_injective (by decide) (by decide) (Subtype.ext (Option.some.inj h))
  omega

end AgentWorkflow.Desktop.KnownHosts
