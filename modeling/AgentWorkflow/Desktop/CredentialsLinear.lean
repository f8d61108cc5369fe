import AgentWorkflow.Desktop.Credentials

/-!
# The credential store is a map

What is written is loaded again, so a turn changes one entry of the map in the file or
nothing, and the calls are linearizable.
-/

namespace AgentWorkflow.Desktop.Credentials
open AgentWorkflow.Lib AgentWorkflow.Lib.Js
open PrivateStorage (hasExactKeys parseBytes isLower isUpper isDigit)
open Sse (Bytes)

/-! ### What is written is loaded -/

theorem key_units (key : Key) : ∀ c ∈ key.val, c < 0x80 := by
  obtain ⟨key, hkey⟩ := key
  cases key with
  | nil => exact fun c hc => nomatch hc
  | cons d t =>
    simp only [validKey, isUpper, isLower, isDigit, Bool.and_eq_true, Bool.or_eq_true, decide_eq_true_eq, List.all_eq_true] at hkey
    have hsmall : ∀ c : UInt16, ((0x41 ≤ c ∧ c ≤ 0x5A) ∨ (0x61 ≤ c ∧ c ≤ 0x7A)) ∨ (0x30 ≤ c ∧ c ≤ 0x39) ∨ c = 0x5F ∨ c = 0x2D → c < 0x80 := by
      intro c hc
      simp only [UInt16.le_iff_toNat_le, UInt16.lt_iff_toNat_lt, ← UInt16.toNat_inj] at hc ⊢
      simp only [UInt16.reduceToNat] at hc ⊢
      omega
    intro c hc
    rcases List.mem_cons.mp hc with rfl | hc
    · exact hsmall c (Or.inl hkey.1.1)
    · rcases hkey.2 c hc with (hletter | hdigit) | hmark
      · exact hsmall c (Or.inl hletter)
      · exact hsmall c (Or.inr (Or.inl hdigit))
      · exact hsmall c (Or.inr (Or.inr hmark))

theorem entry_spec (entry : Entry) : Base64.encode (Base64.decode entry.val) = entry.val ∧ ∀ c ∈ entry.val, c < 0x80 := by
  have hvalid := of_decide_eq_true entry.property
  refine ⟨hvalid.2.2.2, ?_⟩
  rw [← hvalid.2.2.2]
  exact Base64.encode_ascii _

def CredentialStore.members (store : CredentialStore) : List (Str × Value) := store.entries.map fun e => (e.1.val, .str e.2.val)

theorem toValue_plain (store : CredentialStore) : store.toValue.Plain (· < 0x80) := by
  have hkeys : (store.members.map Prod.fst).Nodup := by
    have heq : store.members.map Prod.fst = (OrderedDict.keys store.entries).map Subtype.val := by
      simp [CredentialStore.members, OrderedDict.keys, Function.comp_def]
    rw [heq]
    exact store.nodup.map Subtype.val_injective
  have hmembers : Value.PlainMembers (· < 0x80) store.members := by
    rw [plainMembers_iff]
    intro e he
    obtain ⟨x, -, rfl⟩ := List.mem_map.mp he
    exact ⟨key_units x.1, (entry_spec x.2).2⟩
  have hnames : [str "schema", str "version", str "entries"].Nodup := by decide
  have hascii : ([str "schema", str "version", str "entries", STORE_SCHEMA].all fun s => s.all fun c => decide (c < 0x80)) = true := by
    decide +kernel
  simp only [List.all_eq_true, decide_eq_true_eq] at hascii
  have hversion : STORE_VERSION.isFinite = true := by decide +kernel
  exact ⟨hnames, hascii _ (by simp), hascii _ (by simp), hascii _ (by simp), ⟨hversion, fun hnan => by cases hnan⟩, hascii _ (by simp),
    ⟨hkeys, hmembers⟩, trivial⟩

theorem parseBytes_payload (store : CredentialStore) : parseBytes (payload store) = some store.toValue := by
  refine parse_written (toValue_plain store) ?_ (by simp)
  intro n c hc
  rcases List.mem_cons.mp hc with rfl | hc
  · exact Or.inr rfl
  · exact Or.inl (List.eq_of_mem_replicate hc)

theorem loadEntries_members (l made : List (Key × Entry)) (h : (OrderedDict.keys (made ++ l)).Nodup) :
    loadEntries made (l.map fun e => (e.1.val, .str e.2.val)) = .ok (made ++ l) := by
  induction l generalizing made with
  | nil => simp [loadEntries]
  | cons e l ih =>
    obtain ⟨key, entry⟩ := e
    have hnew : key ∉ OrderedDict.keys made := by
      intro hmem
      rw [OrderedDict.keys, List.map_append, List.nodup_append] at h
      exact h.2.2 key hmem key (List.mem_cons_self ..) rfl
    have happ : made ++ [(key, entry)] ++ l = made ++ (key, entry) :: l := by simp
    rw [List.map_cons]
    unfold loadEntries validateKey
    rw [dif_pos key.property]
    dsimp only [asString]
    rw [dif_pos entry.property, OrderedDict.assign_new hnew, ih _ (by rw [happ]; exact h), happ]

theorem validateStore_toValue (store : CredentialStore) : validateStore store.toValue = .ok store := by
  have hlimit : ¬ MAX_ENTRIES < store.members.length := by
    rw [CredentialStore.members, List.length_map]
    exact Nat.not_lt.mpr store.limit
  have hentries : loadEntries [] store.members = .ok store.entries := loadEntries_members store.entries [] store.nodup
  have hexact : ∀ v, hasExactKeys [(str "schema", .str STORE_SCHEMA), (str "version", .num STORE_VERSION), (str "entries", v)]
      [str "entries", str "schema", str "version"] = true := fun v => by
    have hperm : [str "schema", str "version", str "entries"].isPerm [str "entries", str "schema", str "version"] = true := by decide
    exact hperm
  unfold validateStore
  split
  · next members hmembers =>
    cases hmembers
    split
    · next hkeys =>
      rw [hexact] at hkeys
      cases hkeys
    · split
      · next hfields => exact hfields.elim (fun h => (h rfl).elim) fun h => (h rfl).elim
      · split
        · next source hsource =>
          cases hsource
          split
          · next hlong => exact (hlimit hlong).elim
          · split
            · next entries hok =>
              cases hok.symm.trans hentries
              rfl
            · next error herror => cases herror.symm.trans hentries
        · next hother => exact (hother store.members rfl).elim
  · next hother => exact (hother _ rfl).elim

/-- A file that is not too large for its writer is loaded with the entries it was written with. -/
theorem readCredentialStore_payload (store : CredentialStore) (hsize : (payload store).length ≤ STORE_MAX_BYTES) :
    readCredentialStore none (some (payload store)) = .ok (some store) := by
  unfold readCredentialStore readPrivateFileIfExists
  dsimp only
  rw [if_neg (Nat.not_lt.mpr hsize)]
  dsimp only
  rw [parseBytes_payload]
  dsimp only
  rw [validateStore_toValue]
  rfl

/-- What `writeCredentialStore` writes is loaded; where it fails the file is as it was. -/
theorem writeCredentialStore_loads (replace : Option Thrown) (store : CredentialStore) (file : Option Bytes) :
    ((writeCredentialStore replace store file).1 = .ok () ∧
        readCredentialStore none (writeCredentialStore replace store file).2 = .ok (some store)) ∨
      ∃ error, writeCredentialStore replace store file = (.error error, file) := by
  unfold writeCredentialStore atomicWritePrivateFile
  by_cases hsize : STORE_MAX_BYTES < (payload store).length
  · rw [if_pos hsize]
    exact Or.inr ⟨_, rfl⟩
  · rw [if_neg hsize]
    cases replace with
    | some error => exact Or.inr ⟨error, rfl⟩
    | none => exact Or.inl ⟨rfl, readCredentialStore_payload store (Nat.not_lt.mp hsize)⟩

/-! ### The map -/

/-- The ciphertexts of the file; none where the loader refuses it. -/
abbrev Contents := Option (Key → Option Bytes)

def CredentialStore.lookup (store : CredentialStore) (key : Key) : Option Bytes :=
  (OrderedDict.get key store.entries).map fun entry => Base64.decode entry.val

def contents (file : Option Bytes) : Contents :=
  match readCredentialStore none file with
  | .error _ => none
  | .ok found => some (found.getD emptyStore).lookup

theorem read_ok {read : Option Thrown} {file : Option Bytes} {found : Option CredentialStore} (h : readCredentialStore read file = .ok found) :
    contents file = some (found.getD emptyStore).lookup := by
  cases read with
  | some error => cases h
  | none => rw [contents, h]

theorem lookup_assign {store : CredentialStore} {key : Key} {entry : Entry}
    (h : key ∈ OrderedDict.keys store.entries ∨ store.entries.length < MAX_ENTRIES) :
    (store.assign key entry h).lookup = Function.update store.lookup key (some (Base64.decode entry.val)) := by
  funext k
  unfold CredentialStore.lookup CredentialStore.assign
  by_cases hk : k = key
  · rw [hk, Function.update_self, OrderedDict.get_assign_self]
    rfl
  · rw [Function.update_of_ne hk, OrderedDict.get_assign_ne hk]

theorem lookup_delete (store : CredentialStore) (key : Key) : (store.delete key).lookup = Function.update store.lookup key none := by
  funext k
  unfold CredentialStore.lookup CredentialStore.delete
  by_cases hk : k = key
  · rw [hk, Function.update_self, OrderedDict.get_pop_self]
    rfl
  · rw [Function.update_of_ne hk, OrderedDict.get_pop_ne hk]

/-- A turn that fails leaves the file, one that is done changes the entry of its key. -/
theorem setTurn_spec (key : Key) (entry : Entry) (io : Io) (file : Option Bytes) :
    ((∃ error, (setTurn key entry io file).1.answer = .failed error) ∧ (setTurn key entry io file).2 = file) ∨
      ((setTurn key entry io file).1.answer = .done ∧ ∃ f, contents file = some f ∧
        contents (setTurn key entry io file).2 = some (Function.update f key (some (Base64.decode entry.val)))) := by
  unfold setTurn
  cases hread : readCredentialStore io.read file with
  | error error => exact Or.inl ⟨⟨_, rfl⟩, rfl⟩
  | ok found =>
    dsimp only
    split
    · next hroom =>
      rcases writeCredentialStore_loads io.replace ((found.getD emptyStore).assign key entry hroom) file with ⟨hok, hloads⟩ | ⟨error, herror⟩
      · right
        split
        · next file' hwrite =>
          rw [hwrite] at hloads
          refine ⟨rfl, _, read_ok hread, ?_⟩
          rw [read_ok hloads, Option.getD_some, lookup_assign]
        · next error file' hwrite =>
          rw [hwrite] at hok
          cases hok
      · left
        rw [herror]
        exact ⟨⟨_, rfl⟩, rfl⟩
    · exact Or.inl ⟨⟨_, rfl⟩, rfl⟩

theorem lookup_absent {store : CredentialStore} {key : Key} (h : key ∉ OrderedDict.keys store.entries) :
    Function.update store.lookup key none = store.lookup := by
  have hnone : store.lookup key = none := by
    rw [CredentialStore.lookup, OrderedDict.get_none.mpr h]
    rfl
  rw [← hnone, Function.update_eq_self]

theorem deleteTurn_spec (key : Key) (io : Io) (file : Option Bytes) :
    ((∃ error, (deleteTurn key io file).1.answer = .failed error) ∧ (deleteTurn key io file).2 = file) ∨
      ((deleteTurn key io file).1.answer = .done ∧ ∃ f, contents file = some f ∧
        contents (deleteTurn key io file).2 = some (Function.update f key none)) := by
  unfold deleteTurn
  cases hread : readCredentialStore io.read file with
  | error error => exact Or.inl ⟨⟨_, rfl⟩, rfl⟩
  | ok found =>
    have hcontents := read_ok hread
    cases found with
    | none =>
      refine Or.inr ⟨rfl, _, hcontents, ?_⟩
      rw [Option.getD_none, lookup_absent (by simp [emptyStore, OrderedDict.keys])]
      exact hcontents
    | some store =>
      dsimp only
      rw [Option.getD_some] at hcontents
      split
      · next habsent =>
        refine Or.inr ⟨rfl, _, hcontents, ?_⟩
        rw [lookup_absent habsent]
        exact hcontents
      · by_cases hempty : (store.delete key).entries = []
        · rw [if_pos hempty]
          have hlookup : (store.delete key).lookup = emptyStore.lookup := by
            funext k
            unfold CredentialStore.lookup
            rw [hempty]
            rfl
          cases io.replace with
          | some error => exact Or.inl ⟨⟨_, rfl⟩, rfl⟩
          | none =>
            refine Or.inr ⟨rfl, _, hcontents, ?_⟩
            rw [← lookup_delete, hlookup]
            rfl
        · rw [if_neg hempty]
          rcases writeCredentialStore_loads io.replace (store.delete key) file with ⟨hok, hloads⟩ | ⟨error, herror⟩
          · right
            split
            · next file' hwrite =>
              rw [hwrite] at hloads
              refine ⟨rfl, _, hcontents, ?_⟩
              rw [read_ok hloads, Option.getD_some, lookup_delete]
            · next error file' hwrite =>
              rw [hwrite] at hok
              cases hok
          · left
            rw [herror]
            exact ⟨⟨_, rfl⟩, rfl⟩

section
variable {decryptString : Bytes → Option Str}

variable (decryptString) in
/-- The map that the calls are to implement: keys to ciphertexts, read through the keychain. -/
def Spec (m : Contents) (call : Call) (answer : Answer) (m' : Contents) : Prop :=
  match call, answer with
  | _, .failed _ => m' = m
  | .set key value, .done =>
    ∃ k f bytes, k.val = key ∧ decryptString bytes = some value ∧ m = some f ∧ m' = some (Function.update f k (some bytes))
  | .delete key, .done => ∃ k f, k.val = key ∧ m = some f ∧ m' = some (Function.update f k none)
  | .get key, .value value => m' = m ∧ ∃ k f, k.val = key ∧ m = some f ∧
    ((f k = none ∧ value = none) ∨ ∃ bytes v, f k = some bytes ∧ decryptString bytes = some v ∧ value = some v)
  | _, _ => False

theorem Spec.failed {m : Contents} (call : Call) (error : Str) : Spec decryptString m call (.failed error) m := by
  cases call <;> rfl

theorem turn_spec (write : Write decryptString) (io : Io) (file : Option Bytes) :
    Spec decryptString (contents file) write.call (write.turn io file).1.answer (contents (write.turn io file).2) := by
  cases write with
  | set key value encrypted size =>
    rcases setTurn_spec key (encodeEntry encrypted.val size) io file with ⟨⟨error, hfailed⟩, hfile⟩ | ⟨hdone, f, hbefore, hafter⟩
    · show Spec decryptString (contents file) (.set key.val value) (setTurn key (encodeEntry encrypted.val size) io file).1.answer
        (contents (setTurn key (encodeEntry encrypted.val size) io file).2)
      rw [hfailed, hfile]
      exact Spec.failed _ _
    · show Spec decryptString (contents file) (.set key.val value) (setTurn key (encodeEntry encrypted.val size) io file).1.answer
        (contents (setTurn key (encodeEntry encrypted.val size) io file).2)
      rw [hdone, hafter]
      have hdecode : Base64.decode (encodeEntry encrypted.val size).val = encrypted.val := Base64.decode_encode _
      exact ⟨key, f, encrypted.val, rfl, encrypted.property, hbefore, by rw [hdecode]⟩
  | delete key =>
    rcases deleteTurn_spec key io file with ⟨⟨error, hfailed⟩, hfile⟩ | ⟨hdone, f, hbefore, hafter⟩
    · show Spec decryptString (contents file) (.delete key.val) (deleteTurn key io file).1.answer (contents (deleteTurn key io file).2)
      rw [hfailed, hfile]
      exact Spec.failed _ _
    · show Spec decryptString (contents file) (.delete key.val) (deleteTurn key io file).1.answer (contents (deleteTurn key io file).2)
      rw [hdone, hafter]
      exact ⟨key, f, rfl, hbefore, rfl⟩

theorem get_spec (key : Str) (available keychain : Bool) (read : Option Thrown) (file : Option Bytes) :
    Spec decryptString (contents file) (.get key) (secureGetCredential decryptString key available keychain read file).answer
      (contents file) := by
  unfold secureGetCredential validateKey
  by_cases hkey : validKey key = true
  · rw [dif_pos hkey]
    dsimp only
    split
    · exact Spec.failed _ _
    · cases hread : readCredentialStore read file with
      | error error => exact Spec.failed _ _
      | ok found =>
        have hcontents := read_ok hread
        cases found with
        | none => exact ⟨rfl, ⟨key, hkey⟩, _, rfl, hcontents, Or.inl ⟨rfl, rfl⟩⟩
        | some store =>
          dsimp only
          cases hget : OrderedDict.get ⟨key, hkey⟩ store.entries with
          | none =>
            have hnone : store.lookup ⟨key, hkey⟩ = none := by rw [CredentialStore.lookup, hget]; rfl
            exact ⟨rfl, ⟨key, hkey⟩, _, rfl, hcontents, Or.inl ⟨hnone, rfl⟩⟩
          | some entry =>
            have hsome : store.lookup ⟨key, hkey⟩ = some (Base64.decode entry.val) := by rw [CredentialStore.lookup, hget]; rfl
            dsimp only
            split
            · exact Spec.failed _ _
            · cases hdecrypt : decryptString (Base64.decode entry.val) with
              | none => exact Spec.failed _ _
              | some value => exact ⟨rfl, ⟨key, hkey⟩, _, rfl, hcontents, Or.inr ⟨_, _, hsome, hdecrypt, rfl⟩⟩
  · rw [dif_neg hkey]
    exact Spec.failed _ _

/-! ### Runs -/

def State.waiting (s : State decryptString) : List (ℕ × Call) := s.queue.map fun q => (q.1, q.2.call)

/-- What holds of a history and the state after it. -/
structure Sound (file : Option Bytes) (h : List Event) (s : State decryptString) : Prop where
  waiting : Linear.Waiting h s.waiting s.settled s.nextId
  legal : Linear.Legal (Spec decryptString) (contents file) (Linear.effects h) (contents s.file)

variable {file : Option Bytes} {h : List Event} {s : State decryptString}

theorem Sound.settle (hs : Sound file h s) {call : Call} {answer : Answer}
    (hspec : Spec decryptString (contents s.file) call answer (contents s.file)) :
    Sound file (h ++ [(s.settle call answer).2]) (s.settle call answer).1 where
  waiting := hs.waiting.settle call answer
  legal := by
    rw [Linear.effects_snoc]
    exact hs.legal.snoc hspec

theorem Sound.enqueue (hs : Sound file h s) (write : Write decryptString) : Sound file (h ++ [(s.enqueue write).2]) (s.enqueue write).1 where
  waiting := by
    have hqueue : (s.enqueue write).1.waiting = s.waiting ++ [(s.nextId, write.call)] := by simp [State.waiting, State.enqueue]
    rw [hqueue]
    exact hs.waiting.enqueue write.call
  legal := by
    rw [Linear.effects_snoc]
    simpa [State.enqueue] using hs.legal

theorem Sound.quiet (hs : Sound file h s) : Sound file (h ++ [{ invoked := none }]) s where
  waiting := hs.waiting.quiet
  legal := by
    rw [Linear.effects_snoc]
    simpa using hs.legal

theorem step_sound (hs : Sound file h s) (i : Input decryptString) : Sound file (h ++ [(step s i).2]) (step s i).1 := by
  cases i with
  | set key value available encrypted =>
    simp only [step]
    split
    · next reply hreply =>
      have hfailed : ∃ error, reply.answer = .failed error := by
        unfold secureSetCredential validateKey at hreply
        split at hreply
        · cases hreply
          exact ⟨_, rfl⟩
        · split at hreply
          · cases hreply
            exact ⟨_, rfl⟩
          · split at hreply
            · cases hreply
              exact ⟨_, rfl⟩
            · split at hreply
              · cases hreply
              · cases hreply
                exact ⟨_, rfl⟩
      obtain ⟨error, herror⟩ := hfailed
      rw [herror]
      exact hs.settle (Spec.failed _ _)
    · exact hs.enqueue _
  | get key available keychain read => exact hs.settle (get_spec key available keychain read s.file)
  | delete key =>
    simp only [step]
    split
    · next reply hreply =>
      have hfailed : ∃ error, reply.answer = .failed error := by
        unfold secureDeleteCredential at hreply
        split at hreply
        · cases hreply
          exact ⟨_, rfl⟩
        · cases hreply
      obtain ⟨error, herror⟩ := hfailed
      rw [herror]
      exact hs.settle (Spec.failed _ _)
    · exact hs.enqueue _
  | turn io =>
    simp only [step]
    split
    · exact hs.quiet
    · next id write queue hqueue =>
      have hwaiting : s.waiting = (id, write.call) :: queue.map fun q => (q.1, q.2.call) := by rw [State.waiting, hqueue]; rfl
      have hw := hs.waiting
      rw [hwaiting] at hw
      refine ⟨hw.turn _, ?_⟩
      rw [Linear.effects_snoc]
      exact hs.legal.snoc (turn_spec write io s.file)
  | answer id =>
    simp only [step]
    split
    · exact hs.quiet
    · next a ha =>
      refine ⟨hs.waiting.answer (List.mem_of_find?_eq_some ha) fun b hb => List.mem_of_mem_erase hb, ?_⟩
      rw [Linear.effects_snoc]
      simpa using hs.legal

variable (decryptString) in
theorem run_sound (file : Option Bytes) (is : List (Input decryptString)) :
    Sound file ((machine decryptString).trace (initial decryptString file) is)
      ((machine decryptString).run (initial decryptString file) is) := by
  have hzero : Sound file [] (initial decryptString file) := ⟨Linear.Waiting.nil, rfl⟩
  exact (machine decryptString).history_invariant (P := fun h s => Sound file h s) hzero (fun _ _ i hs => step_sound hs i) is

/-! ### Progress -/

/-- Whatever happens in its turns, every call that waits takes effect. -/
theorem turns_effect (ios : List Io) (s : State decryptString) (hlen : s.queue.length ≤ ios.length) :
    ∀ q ∈ s.queue, ∃ f ∈ Linear.effects ((machine decryptString).trace s (ios.map .turn)), f.id = q.1 ∧ f.call = q.2.call := by
  induction ios generalizing s with
  | nil =>
    rw [List.eq_nil_of_length_eq_zero (Nat.le_zero.mp hlen)]
    exact fun _ hq => nomatch hq
  | cons io ios ih =>
    intro q hq
    cases hqueue : s.queue with
    | nil =>
      rw [hqueue] at hq
      cases hq
    | cons p queue =>
      obtain ⟨id, write⟩ := p
      have hstep : (machine decryptString).step s (.turn io) =
          ({ s with file := (write.turn io s.file).2, queue := queue, settled := s.settled ++ [(id, (write.turn io s.file).1.answer)] },
            { effect := some ⟨id, write.call, (write.turn io s.file).1.answer⟩ }) := by
        show step s (.turn io) = _
        simp only [step]
        rw [hqueue]
      have htrace : Linear.effects ((machine decryptString).trace s ((io :: ios).map .turn)) =
          ⟨id, write.call, (write.turn io s.file).1.answer⟩ ::
            Linear.effects ((machine decryptString).trace ((machine decryptString).step s (.turn io)).1 (ios.map .turn)) := by
        rw [List.map_cons, Machine.trace_cons, Linear.effects, List.filterMap_cons, hstep]
        rfl
      rw [htrace]
      rw [hqueue] at hq hlen
      rcases List.mem_cons.mp hq with rfl | hq
      · exact ⟨_, List.mem_cons_self .., rfl, rfl⟩
      · have hrest : ((machine decryptString).step s (.turn io)).1.queue = queue := by rw [hstep]
        obtain ⟨f, hf, hfq⟩ := ih ((machine decryptString).step s (.turn io)).1 (by rw [hrest]; simpa using hlen) q (by rw [hrest]; exact hq)
        exact ⟨f, List.mem_cons_of_mem _ hf, hfq⟩

/-! ### Reads -/

/-- What the last set or delete of the key left, if there was one. -/
def lastWrite (key : Str) : List (Linear.Effect Call Answer) → Option (Option Str)
  | [] => none
  | e :: es =>
    (lastWrite key es).or
      (match e.call, e.answer with
        | .set k value, .done => if k = key then some (some value) else none
        | .delete k, .done => if k = key then some none else none
        | _, _ => none)

/-- What the map has for the key after these effects. -/
theorem legal_entry {m m' : Contents} {es : List (Linear.Effect Call Answer)} (hlegal : Linear.Legal (Spec decryptString) m es m') {key : Key}
    {f' : Key → Option Bytes} (hm' : m' = some f') :
    ∃ f, m = some f ∧
      ((lastWrite key.val es = none ∧ f' key = f key) ∨ (lastWrite key.val es = some none ∧ f' key = none) ∨
        ∃ value bytes, lastWrite key.val es = some (some value) ∧ f' key = some bytes ∧ decryptString bytes = some value) := by
  induction es generalizing m with
  | nil =>
    have hlegal : m' = m := hlegal
    exact ⟨f', by rw [← hlegal, hm'], Or.inl ⟨rfl, rfl⟩⟩
  | cons e es ih =>
    obtain ⟨m₁, hspec, hrest⟩ := hlegal
    obtain ⟨f₁, hm₁, hcase⟩ := ih hrest
    -- A later write stands; before the first one the entry is that of the map before.
    have hlater : ∀ w : Option (Option Str), lastWrite key.val (e :: es) = (lastWrite key.val es).or w → (w = none → ∃ f, m = some f ∧ f₁ key = f key) →
        (∀ v, w = some v → ∃ f, m = some f ∧ ((v = none ∧ f₁ key = none) ∨
          ∃ value bytes, v = some value ∧ f₁ key = some bytes ∧ decryptString bytes = some value)) →
        ∃ f, m = some f ∧ ((lastWrite key.val (e :: es) = none ∧ f' key = f key) ∨
          (lastWrite key.val (e :: es) = some none ∧ f' key = none) ∨
          ∃ value bytes, lastWrite key.val (e :: es) = some (some value) ∧ f' key = some bytes ∧ decryptString bytes = some value) := by
      intro w hw hnone hsome
      rw [hw]
      cases w with
      | none =>
        obtain ⟨f, hf, hkey⟩ := hnone rfl
        rw [Option.or_none]
        exact ⟨f, hf, hcase.imp (fun h => ⟨h.1, h.2.trans hkey⟩) id⟩
      | some v =>
        obtain ⟨f, hf, hv⟩ := hsome v rfl
        refine ⟨f, hf, ?_⟩
        rcases hcase with ⟨hl, hk⟩ | ⟨hl, hk⟩ | ⟨value, bytes, hl, hk, hdecrypt⟩
        · rw [hl, Option.none_or, hk]
          rcases hv with ⟨rfl, hv⟩ | ⟨value, bytes, rfl, hv, hdecrypt⟩
          · exact Or.inr (Or.inl ⟨rfl, hv⟩)
          · exact Or.inr (Or.inr ⟨value, bytes, rfl, hv, hdecrypt⟩)
        · rw [hl, Option.some_or]
          exact Or.inr (Or.inl ⟨rfl, hk⟩)
        · rw [hl, Option.some_or]
          exact Or.inr (Or.inr ⟨value, bytes, rfl, hk, hdecrypt⟩)
    obtain ⟨id, call, answer⟩ := e
    cases answer with
    | failed error =>
      have hsame : m₁ = m := by cases call <;> exact hspec
      refine hlater none ?_ (fun _ => ⟨f₁, hsame.symm.trans hm₁, rfl⟩) fun _ hv => nomatch hv
      cases call <;> rfl
    | value value =>
      cases call with
      | get k =>
        have hsame : m₁ = m := hspec.1
        exact hlater none rfl (fun _ => ⟨f₁, hsame.symm.trans hm₁, rfl⟩) fun _ hv => nomatch hv
      | set k v => exact hspec.elim
      | delete k => exact hspec.elim
    | done =>
      cases call with
      | get k => exact hspec.elim
      | set k v =>
        obtain ⟨k', f, bytes, hk', hdecrypt, hm, hupdate⟩ := hspec
        have hf₁ : f₁ = Function.update f k' (some bytes) := Option.some.inj (hm₁.symm.trans hupdate)
        by_cases hkey : k = key.val
        · have heq : k' = key := Subtype.ext (hk'.trans hkey)
          refine hlater (some (some v)) (by simp [lastWrite, hkey]) (fun h => nomatch h) ?_
          rintro _ ⟨⟩
          exact ⟨f, hm, Or.inr ⟨v, bytes, rfl, by rw [hf₁, heq, Function.update_self], hdecrypt⟩⟩
        · have hne : key ≠ k' := fun h => hkey (hk'.symm.trans (congrArg Subtype.val h.symm))
          refine hlater none (by simp [lastWrite, hkey]) (fun _ => ⟨f, hm, ?_⟩) fun _ hv => nomatch hv
          rw [hf₁, Function.update_of_ne hne]
      | delete k =>
        obtain ⟨k', f, hk', hm, hupdate⟩ := hspec
        have hf₁ : f₁ = Function.update f k' none := Option.some.inj (hm₁.symm.trans hupdate)
        by_cases hkey : k = key.val
        · have heq : k' = key := Subtype.ext (hk'.trans hkey)
          refine hlater (some none) (by simp [lastWrite, hkey]) (fun h => nomatch h) ?_
          rintro _ ⟨⟩
          exact ⟨f, hm, Or.inl ⟨rfl, by rw [hf₁, heq, Function.update_self]⟩⟩
        · have hne : key ≠ k' := fun h => hkey (hk'.symm.trans (congrArg Subtype.val h.symm))
          refine hlater none (by simp [lastWrite, hkey]) (fun _ => ⟨f, hm, ?_⟩) fun _ hv => nomatch hv
          rw [hf₁, Function.update_of_ne hne]

/-! ### The calls together -/

variable (decryptString) in
/-- The calls are linearizable, those that wait all have their turn, a get gives what the last
set or delete left, and what is written is loaded. -/
theorem credential_store_linearizable (file : Option Bytes) (is : List (Input decryptString)) :
    Linear.Linearizable (Spec decryptString) (contents file) ((machine decryptString).trace (initial decryptString file) is)
        (contents ((machine decryptString).run (initial decryptString file) is).file) ∧
      (∀ ios : List Io, ((machine decryptString).run (initial decryptString file) is).queue.length ≤ ios.length →
        ∀ x ∈ (machine decryptString).trace (initial decryptString file) is, ∀ i ∈ x.invoked,
          ∃ f ∈ Linear.effects ((machine decryptString).trace (initial decryptString file) (is ++ ios.map .turn)),
            f.id = i.1 ∧ f.call = i.2) ∧
      (∀ es f fs, Linear.effects ((machine decryptString).trace (initial decryptString file) is) = es ++ f :: fs →
        ∀ key value, f.call = .get key → f.answer = .value value →
          lastWrite key es = some value ∨
            lastWrite key es = none ∧ Spec decryptString (contents file) (.get key) (.value value) (contents file)) ∧
      ∀ (replace : Option Thrown) (store : CredentialStore) (file : Option Bytes),
        (writeCredentialStore replace store file).1 = .ok () →
          readCredentialStore none (writeCredentialStore replace store file).2 = .ok (some store) := by
  have hs := run_sound decryptString file is
  refine ⟨⟨hs.waiting.ordered, hs.legal⟩, ?_, ?_, ?_⟩
  · intro ios hlen x hx i hi
    have heffects : Linear.effects ((machine decryptString).trace (initial decryptString file) (is ++ ios.map .turn)) =
        Linear.effects ((machine decryptString).trace (initial decryptString file) is) ++
          Linear.effects ((machine decryptString).trace ((machine decryptString).run (initial decryptString file) is) (ios.map .turn)) := by
      rw [Machine.trace_append, Linear.effects, List.filterMap_append]
      rfl
    rw [heffects]
    rcases hs.waiting.pending x hx i hi with ⟨f, hf, hfi⟩ | hwaits
    · exact ⟨f, List.mem_append_left _ hf, hfi⟩
    · obtain ⟨q, hq, rfl⟩ := List.mem_map.mp hwaits
      obtain ⟨f, hf, hfq⟩ := turns_effect ios _ hlen q hq
      exact ⟨f, List.mem_append_right _ hf, hfq⟩
  · rintro es ⟨id, call, answer⟩ fs heffects key value rfl rfl
    have hlegal := hs.legal
    rw [heffects] at hlegal
    obtain ⟨m₁, hbefore, m₂, hspec, -⟩ := Linear.legal_append.mp hlegal
    obtain ⟨-, k, f₁, rfl, hm₁, hread⟩ := hspec
    obtain ⟨f, hm, hcase⟩ := legal_entry hbefore hm₁
    rcases hcase with ⟨hlast, hsame⟩ | ⟨hlast, hnone⟩ | ⟨v, bytes, hlast, hsome, hdecrypt⟩
    · rw [hsame] at hread
      exact Or.inr ⟨hlast, rfl, k, f, rfl, hm, hread⟩
    · left
      rcases hread with ⟨-, rfl⟩ | ⟨bytes, v, hsome, -⟩
      · exact hlast
      · rw [hnone] at hsome
        cases hsome
    · left
      rcases hread with ⟨hnone, -⟩ | ⟨bytes', v', hsome', hdecrypt', rfl⟩
      · rw [hsome] at hnone
        cases hnone
      · rw [hsome, Option.some.injEq] at hsome'
        rw [hsome'] at hdecrypt
        rw [hlast, ← hdecrypt, ← hdecrypt']
  · intro replace store file hok
    rcases writeCredentialStore_loads replace store file with ⟨-, hloads⟩ | ⟨error, herror⟩
    · exact hloads
    · rw [herror] at hok
      cases hok

end

end AgentWorkflow.Desktop.Credentials
