import AgentWorkflow.Worker.OfflineSafety

/-!
# Runs of the offline queue

The invariant over `_cache_offline` and `flush_offline`, and over every run.
-/

namespace AgentWorkflow.Worker
open AgentWorkflow.Lib AgentWorkflow.Lib.PyStr

variable {J : JsonCodec} {env : ℕ → Choice}

/-- Whatever stops a program leaves the invariant. -/
def Left (J : JsonCodec) (_ : Stop) (w : World) : Prop := Good (Body J) w

/-! ### Caching a record -/

/-- The name was drawn for a record that is not complete yet. -/
structure Named (J : JsonCodec) (s : Stamp) (d : Disk) (h : List Event) : Prop where
  body : Body J d h
  drawn : s ∈ drawn h
  fresh : ∀ body content, Event.cached s body content ∉ h

theorem Body.draw {s : Stamp} {d : Disk} {h : List Event} (hb : Body J d h) (hs : s ∉ drawn h) :
    Named J s d (h ++ [.drew s]) ∧ Vacant d s := by
  have hlog : Worker.drawn (h ++ [.drew s]) = Worker.drawn h ++ [s] := by simp [Worker.drawn]
  have hold : ∀ {t body content}, Event.cached t body content ∈ h ++ [.drew s] → .cached t body content ∈ h := by
    intro t body content hmem
    rcases List.mem_append.mp hmem with hmem | hmem
    · exact hmem
    · cases List.mem_singleton.mp hmem
  refine ⟨⟨⟨?_, hb.single, ?_, ?_, hb.kept.snoc (by simp), hb.accounted.snoc trivial⟩, ?_, ?_⟩, hb.vacant s hs⟩
  · intro t ht
    rw [hlog] at ht
    exact hb.vacant t fun hmem => ht (List.mem_append_left _ hmem)
  · intro t body content hmem
    rw [hlog]
    exact List.mem_append_left _ (hb.known t body content (hold hmem))
  · intro t body content hmem
    exact hb.codec t body content (hold hmem)
  · rw [hlog]
    exact List.mem_append_right _ (List.mem_singleton_self s)
  · intro body content hmem
    exact hs (hb.known s body content (hold hmem))

/-- Writing the queue file of a named record. -/
theorem Named.write {s : Stamp} {d : Disk} {h : List Event} (hn : Named J s d h) {place : Option Bytes}
    (hfile : files d s = (place, none, none)) {content : Bytes} (hlen : content.length ≤ maxOfflineBytes) :
    Named J s (d.write s.queueName content) (h ++ [.wrote (d.write s.queueName content)]) ∧
      files (d.write s.queueName content) s = (some content, none, none) := by
  have hself : files (d.write s.queueName content) s = (some content, none, none) := by
    rw [files_write_self, hfile]
  refine ⟨⟨?_, ?_, ?_⟩, hself⟩
  · refine hn.body.write hn.drawn (fun t ht => files_write_ne ht content) (Or.inr ⟨content, Or.inl hself, hlen⟩) ?_
    intro body content' hmem
    exact absurd hmem (hn.fresh body content')
  · simpa [Worker.drawn] using hn.drawn
  · intro body content' hmem
    rcases List.mem_append.mp hmem with hmem | hmem
    · exact hn.fresh body content' hmem
    · cases List.mem_singleton.mp hmem

theorem triple_writeExclusive (s : Stamp) {data : Bytes} (hlen : data.length ≤ maxOfflineBytes) :
    ETriple (Good fun d h => Named J s d h ∧ Vacant d s) (writeExclusive env s.queueName data)
      (fun ok => Good fun d h => Named J s d h ∧ (ok = true → files d s = (some data, none, none))) (Left J) := by
  have hstop : ∀ {A : Disk → List Event → Prop}, (∀ d h, A d h → Named J s d h) →
      ∀ w, Good A w → Left J .crash w := fun hA w hw => hw.mono fun d h ha => (hA d h ha).body
  refine ETriple.bind (triple_crashPoint (hstop fun d h hw => hw.1)) fun _ => triple_get fun w => ?_
  refine ETriple.ite (fun _ => triple_pure fun w hw => ?_) fun _ => ?_
  · exact hw.mono fun d h hA => ⟨hA.2.1, by simp⟩
  refine ETriple.bind triple_choose fun c => ?_
  have hpart : (data.take c.written).length ≤ maxOfflineBytes :=
    le_trans (List.length_take_le' _ _) hlen
  refine ETriple.bind (Q := fun _ => Good fun d h => Named J s d h ∧
    files d s = (some (data.take c.written), none, none)) (triple_change ?_) fun _ => ?_
  · intro d h hA
    exact hA.2.1.write hA.2.2 hpart
  refine ETriple.ite (fun _ => ETriple.throw (hstop fun d h hw => hw.1)) fun _ => ?_
  refine ETriple.bind (Q := fun _ => Good fun d h => Named J s d h ∧ files d s = (some data, none, none))
    (triple_change ?_) fun _ => ?_
  · intro d h hA
    exact hA.1.write hA.2 hlen
  refine ETriple.bind (triple_crashPoint (hstop fun d h hw => hw.1)) fun _ => triple_pure fun w hw => ?_
  exact hw.mono fun d h hA => ⟨hA.1, fun _ => hA.2⟩

theorem triple_tryNames {encoded : Bytes} (hlen : encoded.length ≤ maxOfflineBytes) (tries : ℕ) :
    ETriple (Good (Body J)) (tryNames env encoded tries)
      (fun s => Good fun d h => Named J s d h ∧ files d s = (some encoded, none, none)) (Left J) := by
  induction tries with
  | zero => exact ETriple.throw fun w hw => hw
  | succ tries ih =>
    refine ETriple.bind triple_choose fun c => ?_
    refine ETriple.bind (Q := fun _ => Good fun d h => Named J (Stamp.now c.timeNs c.uuid) d h ∧
      Vacant d (Stamp.now c.timeNs c.uuid)) (triple_draw fun d h hb hs => hb.draw hs) fun _ => ?_
    refine ETriple.bind (triple_writeExclusive _ hlen) fun ok => ETriple.ite (fun hok => ?_) fun _ => ?_
    · exact triple_pure fun w hw => hw.mono fun d h hA => ⟨hA.1, hA.2 hok⟩
    · exact ih.pre fun w hw => hw.mono fun d h hA => hA.1.body

theorem encodeQueueRecord_ok {kind : PyStr} {payload : Value} {body : QueueBody} {encoded : Bytes}
    (h : encodeQueueRecord J kind payload = .ok (body, encoded)) :
    validateQueueRecord (queueRecord kind payload) = .ok body ∧
      J.dumps (queueRecord kind payload) = some encoded ∧ encoded.length ≤ maxOfflineBytes := by
  unfold encodeQueueRecord at h
  obtain ⟨body', hvalid, h⟩ := bind_ok h
  cases hdump : J.dumps (queueRecord kind payload) with
  | none =>
    rw [hdump] at h
    cases h
  | some bytes =>
    rw [hdump] at h
    dsimp only at h
    split_ifs at h with hlen
    cases h
    exact ⟨hvalid, rfl, Nat.le_of_not_lt hlen⟩

/-- Reading back what `json.dumps` wrote. -/
def JsonCodec.Lawful (J : JsonCodec) : Prop := ∀ v b, J.dumps v = some b → J.loads b = some v

theorem Named.cached {s : Stamp} {d : Disk} {h : List Event} (hn : Named J s d h) {content : Bytes}
    (hfile : files d s = (some content, none, none)) {item : Value} {body : QueueBody}
    (hread : J.loads content = some item) (hvalid : validateQueueRecord item = .ok body) :
    Body J d (h ++ [.cached s body content]) := by
  have hdraw : Worker.drawn (h ++ [.cached s body content]) = Worker.drawn h := by simp [Worker.drawn]
  refine ⟨?_, hn.body.single, ?_, ?_, ?_, hn.body.accounted.snoc trivial⟩
  · rw [hdraw]
    exact hn.body.vacant
  · intro t body' content' hmem
    rw [hdraw]
    rcases List.mem_append.mp hmem with hmem | hmem
    · exact hn.body.known t body' content' hmem
    · cases List.mem_singleton.mp hmem
      exact hn.drawn
  · intro t body' content' hmem
    rcases List.mem_append.mp hmem with hmem | hmem
    · exact hn.body.codec t body' content' hmem
    · cases List.mem_singleton.mp hmem
      exact ⟨item, hread, hvalid⟩
  · intro t body' content' hmem
    rcases List.mem_append.mp hmem with hmem | hmem
    · rcases hn.body.kept t body' content' hmem with hd | hh
      · exact Or.inl (hd.snoc _)
      · exact Or.inr hh
    · cases List.mem_singleton.mp hmem
      exact Or.inr (Or.inl hfile)

theorem triple_cacheOffline (hJ : J.Lawful) (kind : PyStr) (payload : Value) :
    ETriple (Good (Body J)) (cacheOffline J env kind payload) (fun _ => Good (Body J)) (Left J) := by
  unfold cacheOffline
  cases hencode : encodeQueueRecord J kind payload with
  | error e => exact ETriple.throw fun w hw => hw
  | ok out =>
    obtain ⟨body, encoded⟩ := out
    obtain ⟨hvalid, hdump, hlen⟩ := encodeQueueRecord_ok hencode
    refine ETriple.bind (triple_tryNames hlen 8) fun s => ?_
    refine triple_record (fun h => by simp [drawn]) fun d h hA => ?_
    exact hA.1.cached hA.2 (hJ _ _ hdump) hvalid

/-! ### Directory listings -/

theorem mem_sortedNames {p : Pattern} {d : Disk} {n : PyStr} :
    n ∈ Disk.sortedNames p d ↔ d.offline.lookup n ≠ none ∧ fullmatch p n = true := by
  simp only [Disk.sortedNames, List.mem_insertionSort, List.mem_filter]
  rw [← AList.mem_keys, ← AList.lookup_isSome, Option.isSome_iff_ne_none]

theorem sortedNames_sorted (p : Pattern) (d : Disk) : (Disk.sortedNames p d).Pairwise (· < ·) := by
  have hle : (Disk.sortedNames p d).Pairwise (· ≤ ·) := List.pairwise_insertionSort _ _
  have hne : (Disk.sortedNames p d).Pairwise (· ≠ ·) := by
    have hnodup : (d.offline.keys.filter fun n => fullmatch p n).Nodup := d.offline.keys_nodup.filter _
    exact (List.perm_insertionSort (· ≤ ·) _).nodup_iff.mpr hnodup
  exact hle.imp₂ (fun a b hab hne => lt_of_le_of_ne hab hne) hne

theorem openExisting_error {d : Disk} {n : PyStr} {e : PyError} (h : openExisting d n = .error e) :
    d.offline.lookup n = none ∨ ∃ content, d.offline.lookup n = some content ∧ maxOfflineBytes < content.length := by
  unfold openExisting at h
  cases hl : d.offline.lookup n with
  | none => exact Or.inl rfl
  | some content =>
    rw [hl] at h
    dsimp only at h
    split_ifs at h with hlen
    exact Or.inr ⟨content, rfl, hlen⟩

theorem openExisting_ok {d : Disk} {n : PyStr} {content : Bytes} (h : openExisting d n = .ok content) :
    d.offline.lookup n = some content := by
  unfold openExisting at h
  cases hl : d.offline.lookup n with
  | none =>
    rw [hl] at h
    cases h
  | some content' =>
    rw [hl] at h
    dsimp only at h
    split_ifs at h with hlen
    cases h
    rfl

/-! ### The moves of a claim -/

section Claims
variable {A B : Disk → List Event → Prop} {s : Stamp}

/-- `E` is what a caller may assume after an error, which the invariant rules out. -/
theorem triple_rejectClaim (hA : ∀ d h, A d h → Body J d h ∧ d.offline.lookup s.claimName ≠ none)
    (hmove : ∀ d h content, A d h → files d s = (none, some content, none) →
      B (d.reject s.claimName s.queueName) (h ++ [.wrote (d.reject s.claimName s.queueName)])) :
    ETriple (Good A) (rejectClaim env s) (fun r => Good fun d h => (∃ x, r = .ok x) ∧ B d h) (Left J) := by
  refine triple_get fun w => ETriple.ite (fun hnone => triple_pure fun w' hw => ?_) fun _ => ?_
  · refine hw.mono fun d h hd => ?_
    obtain ⟨rfl, ha⟩ := hd
    exact absurd hnone (hA _ h ha).2
  refine ETriple.ite (fun hsome => triple_pure fun w' hw => ?_) fun _ => ?_
  · refine hw.mono fun d h hd => ?_
    obtain ⟨rfl, ha⟩ := hd
    obtain ⟨hb, hc⟩ := hA _ h ha
    obtain ⟨content, hfile, -⟩ := hb.claimed hc
    exact absurd (congrArg (fun p => p.2.2) hfile) hsome
  refine ETriple.bind (Q := fun _ => Good B) (triple_fs ?_ ?_) fun _ => ?_
  · exact fun w' hw => hw.mono fun d h hd => (hA d h hd.2).1
  · intro d h hd
    obtain ⟨hb, hc⟩ := hA d h hd.2
    obtain ⟨content, hfile, -⟩ := hb.claimed hc
    exact hmove d h content hd.2 hfile
  · exact triple_pure fun w' hw => hw.mono fun d h hd => ⟨⟨_, rfl⟩, hd⟩

theorem triple_returnClaim (hA : ∀ d h, A d h → Body J d h ∧ d.offline.lookup s.claimName ≠ none)
    (hmove : ∀ d h content, A d h → files d s = (none, some content, none) →
      B (d.rename s.claimName s.queueName) (h ++ [.wrote (d.rename s.claimName s.queueName)])) :
    ETriple (Good A) (returnClaim env s) (fun r => Good fun d h => (∃ x, r = .ok x) ∧ B d h) (Left J) := by
  refine triple_get fun w => ETriple.ite (fun hbad => triple_pure fun w' hw => ?_) fun _ => ?_
  · refine hw.mono fun d h hd => ?_
    obtain ⟨rfl, ha⟩ := hd
    obtain ⟨hb, hc⟩ := hA _ h ha
    obtain ⟨content, hfile, -⟩ := hb.claimed hc
    rcases hbad with hbad | hbad
    · exact absurd (queue_of_files hfile) hbad
    · exact absurd hbad hc
  refine ETriple.bind (Q := fun _ => Good B) (triple_fs ?_ ?_) fun _ => ?_
  · exact fun w' hw => hw.mono fun d h hd => (hA d h hd.2).1
  · intro d h hd
    obtain ⟨hb, hc⟩ := hA d h hd.2
    obtain ⟨content, hfile, -⟩ := hb.claimed hc
    exact hmove d h content hd.2 hfile
  · exact triple_pure fun w' hw => hw.mono fun d h hd => ⟨⟨_, rfl⟩, hd⟩

/-- The handlers do not raise where the invariant holds. -/
theorem triple_orRaise {x : Offline (Except PyError PUnit)}
    (hx : ETriple (Good A) x (fun r => Good fun d h => (∃ y, r = .ok y) ∧ B d h) (Left J)) :
    ETriple (Good A) (orRaise x) (fun _ => Good B) (Left J) := by
  refine ETriple.bind hx fun r => ?_
  cases r with
  | error e =>
    refine ETriple.throw fun w hw => hw.mono fun d h hd => ?_
    obtain ⟨⟨y, hy⟩, -⟩ := hd
    cases hy
  | ok y => exact triple_pure fun w hw => hw.mono fun d h hd => hd.2

end Claims

/-! ### Recovery -/

/-- The claims of `before` are queue files again, but for those still to come. -/
structure Recovering (J : JsonCodec) (before : Disk) (rest : List PyStr) (d : Disk) (h : List Event) : Prop where
  body : Body J d h
  claims : ∀ t : Stamp, d.offline.lookup t.claimName ≠ none → t.claimName ∈ rest
  back : ∀ (t : Stamp) content, before.offline.lookup t.claimName = some content →
    d.offline.lookup t.queueName = some content ∨ d.offline.lookup t.claimName = some content

theorem Recovering.skip {before d : Disk} {name : PyStr} {rest : List PyStr} {h : List Event}
    (hr : Recovering J before (name :: rest) d h)
    (hskip : ∀ t : Stamp, t.claimName = name → d.offline.lookup t.claimName = none) :
    Recovering J before rest d h := by
  refine ⟨hr.body, ?_, hr.back⟩
  intro t ht
  rcases List.mem_cons.mp (hr.claims t ht) with heq | hmem
  · exact absurd (hskip t heq) ht
  · exact hmem

theorem Recovering.returned {before d : Disk} {s : Stamp} {rest : List PyStr} {h : List Event} {content : Bytes}
    (hr : Recovering J before (s.claimName :: rest) d h) (hfile : files d s = (none, some content, none)) :
    Recovering J before rest (d.rename s.claimName s.queueName)
      (h ++ [.wrote (d.rename s.claimName s.queueName)]) := by
  have hself := files_return_self hfile
  refine ⟨hr.body.toQueue hfile, ?_, ?_⟩
  · intro t ht
    by_cases hts : t = s
    · subst hts
      exact absurd (claim_of_files hself) ht
    · have hsame := files_return_ne (d := d) hts
      rw [claim_of_files hsame] at ht
      rcases List.mem_cons.mp (hr.claims t ht) with heq | hmem
      · exact absurd (claimName_injective heq) hts
      · exact hmem
  · intro t content' hbefore
    by_cases hts : t = s
    · subst hts
      rcases hr.back t content' hbefore with hq | hc
      · rw [queue_of_files hfile] at hq
        cases hq
      · rw [claim_of_files hfile] at hc
        cases hc
        exact Or.inl (queue_of_files hself)
    · have hsame := files_return_ne (d := d) hts
      rw [queue_of_files hsame, claim_of_files hsame]
      exact hr.back t content' hbefore

theorem triple_recoverClaim (before : Disk) (name : PyStr) (rest : List PyStr)
    (hname : ∃ s : Stamp, name = s.claimName) :
    ETriple (Good (Recovering J before (name :: rest))) (recoverClaim env name)
      (fun _ => Good (Recovering J before rest)) (Left J) := by
  obtain ⟨s, rfl⟩ := hname
  refine triple_get fun w => ?_
  rw [matchClaimName_self]
  dsimp only
  cases hopen : openExisting w.disk s.claimName with
  | error e =>
    refine triple_pure fun w' hw => hw.mono fun d h hd => ?_
    obtain ⟨rfl, hr⟩ := hd
    refine hr.skip fun t ht => ?_
    rw [ht]
    rcases openExisting_error hopen with hnone | ⟨content, hsome, hlen⟩
    · exact hnone
    · obtain ⟨content', hfile, hsmall⟩ := hr.body.claimed (by rw [hsome]; simp)
      rw [claim_of_files hfile] at hsome
      cases hsome
      exact absurd hlen (Nat.not_lt.mpr hsmall)
  | ok content =>
    have hclaim := openExisting_ok hopen
    dsimp only
    refine ETriple.ite (fun hqueue => ?_) fun hqueue => ?_
    · -- the queue file cannot exist next to the claim
      have habsurd : ∀ d h, d = w.disk ∧ Recovering J before (s.claimName :: rest) d h → False := by
        rintro d h ⟨rfl, hr⟩
        obtain ⟨content', hfile, -⟩ := hr.body.claimed (by rw [hclaim]; simp)
        exact hqueue (queue_of_files hfile)
      refine ETriple.bind (triple_rejectClaim (B := fun _ _ => False) ?_ ?_) fun _ => ?_
      · exact fun d h hd => (habsurd d h hd).elim
      · exact fun d h content' hd => (habsurd d h hd).elim
      · exact triple_pure fun w' hw => hw.mono fun d h hd => hd.2.elim
    · refine triple_fs (fun w' hw => hw.mono fun d h hd => hd.2.body) ?_
      rintro d h ⟨rfl, hr⟩
      obtain ⟨content', hfile, -⟩ := hr.body.claimed (by rw [hclaim]; simp)
      exact hr.returned hfile

theorem triple_recoverClaims (before : Disk) (names : List PyStr)
    (hnames : ∀ n ∈ names, ∃ s : Stamp, n = s.claimName) :
    ETriple (Good (Recovering J before names)) (recoverClaims env names)
      (fun _ => Good (Recovering J before [])) (Left J) := by
  induction names with
  | nil => exact triple_pure fun w hw => hw
  | cons name rest ih =>
    refine ETriple.bind (triple_recoverClaim before name rest (hnames name (List.mem_cons_self ..))) fun _ => ?_
    exact ih fun n hn => hnames n (List.mem_cons_of_mem _ hn)

/-! ### The replay loop -/

/-- Before the next name: no record is claimed and what is queued is still to
come, after everything that was sent. -/
structure Waiting (J : JsonCodec) (rest : List PyStr) (d : Disk) (h : List Event) : Prop where
  body : Body J d h
  claims : ∀ t : Stamp, d.offline.lookup t.claimName = none
  queue : ∀ t : Stamp, d.offline.lookup t.queueName ≠ none → t.queueName ∈ rest
  sorted : rest.Pairwise (· < ·)
  after : ∀ t ∈ sent h, ∀ n ∈ rest, t.queueName < n

/-- The same with one record claimed. -/
structure Claimed (J : JsonCodec) (s : Stamp) (rest : List PyStr) (d : Disk) (h : List Event) : Prop where
  body : Body J d h
  claim : d.offline.lookup s.claimName ≠ none
  claims : ∀ t : Stamp, t ≠ s → d.offline.lookup t.claimName = none
  queue : ∀ t : Stamp, d.offline.lookup t.queueName ≠ none → t.queueName ∈ rest
  sorted : (s.queueName :: rest).Pairwise (· < ·)
  after : ∀ t ∈ sent h, t = s ∨ t.queueName < s.queueName

theorem sent_wrote (h : List Event) (d : Disk) : sent (h ++ [.wrote d]) = sent h := by
  rw [sent_snoc]
  rfl

theorem Waiting.skip {name : PyStr} {rest : List PyStr} {d : Disk} {h : List Event} (hw : Waiting J (name :: rest) d h)
    (hskip : ∀ t : Stamp, t.queueName = name → d.offline.lookup t.queueName = none) : Waiting J rest d h := by
  refine ⟨hw.body, hw.claims, ?_, hw.sorted.of_cons, ?_⟩
  · intro t ht
    rcases List.mem_cons.mp (hw.queue t ht) with heq | hmem
    · exact absurd (hskip t heq) ht
    · exact hmem
  · intro t ht n hn
    exact hw.after t ht n (List.mem_cons_of_mem _ hn)

theorem Waiting.claimed {s : Stamp} {rest : List PyStr} {d : Disk} {h : List Event} {content : Bytes}
    (hw : Waiting J (s.queueName :: rest) d h) (hfile : files d s = (some content, none, none)) :
    Claimed J s rest (d.rename s.queueName s.claimName) (h ++ [.wrote (d.rename s.queueName s.claimName)]) := by
  have hself := files_claim_self hfile
  refine ⟨hw.body.toClaim hfile, ?_, ?_, ?_, hw.sorted, ?_⟩
  · rw [claim_of_files hself]
    simp
  · intro t hts
    rw [claim_of_files (files_claim_ne hts)]
    exact hw.claims t
  · intro t ht
    by_cases hts : t = s
    · subst hts
      exact absurd (queue_of_files hself) ht
    · rw [queue_of_files (files_claim_ne hts)] at ht
      rcases List.mem_cons.mp (hw.queue t ht) with heq | hmem
      · exact absurd (queueName_injective heq) hts
      · exact hmem
  · intro t ht
    rw [sent_wrote] at ht
    exact Or.inr (hw.after t ht _ (List.mem_cons_self ..))

/-- The claimed record left the offline directory. -/
theorem Claimed.gone {s : Stamp} {rest : List PyStr} {d d' : Disk} {h : List Event} (hc : Claimed J s rest d h)
    (hbody : Body J d' (h ++ [.wrote d'])) (hne : ∀ t, t ≠ s → files d' t = files d t)
    {rejected : Option Bytes} (hself : files d' s = (none, none, rejected)) :
    Waiting J rest d' (h ++ [.wrote d']) := by
  refine ⟨hbody, ?_, ?_, hc.sorted.of_cons, ?_⟩
  · intro t
    by_cases hts : t = s
    · subst hts
      exact claim_of_files hself
    · rw [claim_of_files (hne t hts)]
      exact hc.claims t hts
  · intro t ht
    by_cases hts : t = s
    · subst hts
      exact absurd (queue_of_files hself) ht
    · rw [queue_of_files (hne t hts)] at ht
      exact hc.queue t ht
  · intro t ht n hn
    rw [sent_wrote] at ht
    have hsn : s.queueName < n := List.rel_of_pairwise_cons hc.sorted hn
    rcases hc.after t ht with rfl | hlt
    · exact hsn
    · exact lt_trans hlt hsn

theorem Claimed.posted {s : Stamp} {rest : List PyStr} {d : Disk} {h : List Event} (hc : Claimed J s rest d h)
    (body : QueueBody) (answer : Answer) : Claimed J s rest d (h ++ [.posted d s body answer]) := by
  have hacc : Accounted h (.posted d s body answer) := by
    constructor
    · intro t ht
      rcases hc.after t ht with rfl | hlt
      · exact Or.inl rfl
      · exact Or.inr (queueName_lt_iff.mp hlt)
    · intro t ht
      exact queueName_lt_iff.mp (List.rel_of_pairwise_cons hc.sorted (hc.queue t ht))
  refine ⟨hc.body.note (by simp [drawn]) (by simp) hacc, hc.claim, hc.claims, hc.queue, hc.sorted, ?_⟩
  intro t ht
  rw [sent_snoc] at ht
  rcases List.mem_append.mp ht with ht | ht
  · exact hc.after t ht
  · exact Or.inl (List.mem_singleton.mp ht)

theorem triple_claim (name : PyStr) (rest : List PyStr) :
    ETriple (Good (Waiting J (name :: rest))) (claim env name)
      (fun r => Good fun d h =>
        match r with
        | .ok s => Claimed J s rest d h
        | .error _ => Waiting J rest d h) (Left J) := by
  refine triple_get fun w => ?_
  dsimp only
  cases hopen : openExisting w.disk name with
  | error e =>
    refine triple_pure fun w' hw => hw.mono fun d h hd => ?_
    obtain ⟨rfl, hwait⟩ := hd
    refine hwait.skip ?_
    rintro t rfl
    rcases openExisting_error hopen with hnone | ⟨content, hsome, hlen⟩
    · exact hnone
    · obtain ⟨content', hfile, hsmall⟩ := hwait.body.queued (by rw [hsome]; simp)
      rw [queue_of_files hfile] at hsome
      cases hsome
      exact absurd hlen (Nat.not_lt.mpr hsmall)
  | ok content =>
    have hqueue := openExisting_ok hopen
    dsimp only
    cases hmatch : matchQueueName name with
    | none =>
      refine triple_pure fun w' hw => hw.mono fun d h hd => hd.2.skip ?_
      rintro t rfl
      rw [matchQueueName_self] at hmatch
      cases hmatch
    | some s =>
      have hname : name = s.queueName := by
        unfold matchQueueName at hmatch
        split_ifs at hmatch with hfull
        obtain ⟨t, rfl⟩ := queuePattern_match hfull
        have hself := matchQueueName_self t
        rw [matchQueueName, if_pos hfull, hmatch] at hself
        cases hself
        rfl
      subst hname
      dsimp only
      refine ETriple.ite (fun hclaim => triple_pure fun w' hw => hw.mono fun d h hd => ?_) fun _ => ?_
      · obtain ⟨rfl, hwait⟩ := hd
        exact absurd (hwait.claims s) hclaim
      · refine ETriple.bind (Q := fun _ => Good (Claimed J s rest)) (triple_fs ?_ ?_) fun _ => ?_
        · exact fun w' hw => hw.mono fun d h hd => hd.2.body
        · rintro d h ⟨rfl, hwait⟩
          obtain ⟨content', hfile, -⟩ := hwait.body.queued (by rw [hqueue]; simp)
          exact hwait.claimed hfile
        · exact triple_pure fun w' hw => hw

theorem outcomeOf_ok {answer : Answer} (h : outcomeOf answer = some .ok) :
    ∃ status content, answer = .response status content ∧ status < 300 := by
  cases answer with
  | unavailable => cases h
  | response status content =>
    refine ⟨status, content, rfl, ?_⟩
    simp only [outcomeOf] at h
    split_ifs at h with h3 h4 h5 h6
    · cases h
    · cases h
    · cases h
    · omega

/-- A request leaves the disk as it is. -/
theorem triple_request (disk : Disk) (s : Stamp) (rest : List PyStr) (body : QueueBody) (attempts : ℕ) :
    ETriple (Good fun d h => d = disk ∧ Claimed J s rest d h) (request env s body attempts)
      (fun out => Good fun d h => d = disk ∧ Claimed J s rest d h ∧ (out = .ok → Delivered h body)) (Left J) := by
  induction attempts with
  | zero => exact triple_pure fun w hw => hw.mono fun d h hc => ⟨hc.1, hc.2, by simp⟩
  | succ attempts ih =>
    refine ETriple.bind (triple_crashPoint fun w hw => hw.mono fun d h hc => hc.2.body) fun _ => ?_
    refine ETriple.bind triple_choose fun c => triple_get fun w => ?_
    refine ETriple.bind (Q := fun _ => Good fun d h => d = disk ∧ Claimed J s rest d h ∧
      Event.posted w.disk s body c.answer ∈ h) (triple_record (fun h => by simp [drawn]) ?_) fun _ => ?_
    · rintro d h ⟨rfl, heq, hc⟩
      exact ⟨heq, hc.posted body c.answer, List.mem_append_right _ (List.mem_singleton_self _)⟩
    refine ETriple.ite (fun _ => ETriple.throw fun w' hw => hw.mono fun d h hd => hd.2.1.body) fun _ => ?_
    cases hout : outcomeOf c.answer with
    | none => exact ih.pre fun w' hw => hw.mono fun d h hd => ⟨hd.1, hd.2.1⟩
    | some outcome =>
      refine triple_pure fun w' hw => hw.mono fun d h hd => ⟨hd.1, hd.2.1, ?_⟩
      rintro rfl
      obtain ⟨status, content, hanswer, hlt⟩ := outcomeOf_ok hout
      rw [hanswer] at hd
      exact ⟨_, s, status, content, hd.2.2, hlt⟩

theorem readClaim_ok {d : Disk} {s : Stamp} {body : QueueBody} (h : readClaim J d s = .ok body) :
    ∃ content item, d.offline.lookup s.claimName = some content ∧ J.loads content = some item ∧
      validateQueueRecord item = .ok body := by
  unfold readClaim at h
  cases hopen : openExisting d s.claimName with
  | error e =>
    rw [hopen] at h
    cases h
  | ok raw =>
    rw [hopen] at h
    dsimp only at h
    cases hloads : J.loads raw with
    | none =>
      rw [hloads] at h
      cases h
    | some item =>
      rw [hloads] at h
      exact ⟨raw, item, openExisting_ok hopen, hloads, h⟩

/-- Sending the claimed record to the rejected directory. -/
theorem triple_rejected (s : Stamp) (rest : List PyStr) :
    ETriple (Good (Claimed J s rest)) (orRaise (rejectClaim env s)) (fun _ => Good (Waiting J rest)) (Left J) := by
  refine triple_orRaise (triple_rejectClaim (fun d h hc => ⟨hc.body, hc.claim⟩) ?_)
  intro d h content hc hfile
  exact hc.gone (hc.body.toRejected hfile) (fun t ht => files_reject_ne ht) (files_reject_self hfile)

theorem triple_replay (s : Stamp) (rest : List PyStr) (flushed : ℕ) :
    ETriple (Good (Claimed J s rest)) (replay J env s flushed)
      (fun out => Good fun d h => Body J d h ∧ (out.2 = true → Waiting J rest d h)) (Left J) := by
  refine triple_get fun w => ?_
  have hcontinue : ∀ k : ℕ, ETriple (Good (Waiting J rest)) (pure (k, true) : Offline (ℕ × Bool))
      (fun out => Good fun d h => Body J d h ∧ (out.2 = true → Waiting J rest d h)) (Left J) :=
    fun k => triple_pure fun w' hw => hw.mono fun d h hd => ⟨hd.body, fun _ => hd⟩
  cases hread : readClaim J w.disk s with
  | error e =>
    refine ETriple.pre (P := Good (Claimed J s rest)) ?_ fun w' hw => hw.mono fun d h hd => hd.2
    dsimp only
    refine ETriple.ite (fun _ => ?_) fun _ => ETriple.throw fun w' hw => hw.mono fun d h hd => hd.body
    exact ETriple.bind (triple_rejected s rest) fun _ => hcontinue flushed
  | ok body =>
    obtain ⟨content, item, hclaim, hloads, hvalid⟩ := readClaim_ok hread
    refine ETriple.bind (triple_request w.disk s rest body 2) fun out => ?_
    have hclaimed : ∀ w', Good (fun d h => d = w.disk ∧ Claimed J s rest d h ∧ (out = .ok → Delivered h body)) w' →
        Good (Claimed J s rest) w' := fun w' hw => hw.mono fun d h hd => hd.2.1
    cases out with
    | unavailable =>
      refine ETriple.bind ((triple_orRaise (B := Body J) (triple_returnClaim ?_ ?_)).pre hclaimed) fun _ => ?_
      · exact fun d h hc => ⟨hc.body, hc.claim⟩
      · exact fun d h content' hc hfile => hc.body.toQueue hfile
      · exact triple_pure fun w' hw => hw.mono fun d h hd => ⟨hd, by simp⟩
    | permanent status => exact ETriple.bind ((triple_rejected s rest).pre hclaimed) fun _ => hcontinue flushed
    | invalidJson => exact ETriple.bind ((triple_rejected s rest).pre hclaimed) fun _ => hcontinue flushed
    | ok =>
      refine ETriple.bind (triple_get fun w' => ETriple.ite (fun hnone => ?_) fun _ => ?_) fun _ => hcontinue (flushed + 1)
      · refine ETriple.throw fun w'' hw => hw.mono fun d h hd => ?_
        exact hd.2.2.1.body
      · refine triple_fs (fun w'' hw => hw.mono fun d h hd => hd.2.2.1.body) ?_
        rintro d h ⟨-, rfl, hc, hd⟩
        obtain ⟨content', hfile, -⟩ := hc.body.claimed hc.claim
        have hcontent : content' = content := by
          rw [claim_of_files hfile] at hclaim
          exact Option.some.inj hclaim
        subst hcontent
        exact hc.gone (hc.body.unlinked hfile hloads hvalid (hd rfl)) (fun t ht => files_unlink_ne ht)
          (files_unlink_self hfile)

theorem triple_flushLoop (names : List PyStr) (flushed : ℕ) :
    ETriple (Good (Waiting J names)) (flushLoop J env names flushed) (fun _ => Good (Body J)) (Left J) := by
  induction names generalizing flushed with
  | nil => exact triple_pure fun w hw => hw.mono fun d h hd => hd.body
  | cons name rest ih =>
    refine ETriple.bind (triple_claim name rest) fun r => ?_
    cases r with
    | error e => exact ih flushed
    | ok s =>
      refine ETriple.bind (triple_replay s rest flushed) fun out => ETriple.ite (fun hgo => ?_) fun _ => ?_
      · exact (ih out.1).pre fun w hw => hw.mono fun d h hd => hd.2 hgo
      · exact triple_pure fun w hw => hw.mono fun d h hd => hd.1

theorem triple_flushOffline :
    ETriple (Good (Body J)) (flushOffline J env) (fun _ => Good (Body J)) (Left J) := by
  refine triple_get fun w => ?_
  have hrecover : ETriple (Good fun d h => d = w.disk ∧ Body J d h) (recoverOrphanClaims env)
      (fun _ => Good (Recovering J w.disk [])) (Left J) := by
    refine triple_get fun w' => (triple_recoverClaims w.disk _ ?_).pre fun w'' hw => hw.mono fun d h hd => ?_
    · intro n hn
      exact claimPattern_match (mem_sortedNames.mp hn).2
    · obtain ⟨rfl, hsame, hb⟩ := hd
      refine ⟨hb, fun t ht => mem_sortedNames.mpr ⟨ht, t.fullmatch_claimName⟩, ?_⟩
      intro t content hbefore
      rw [hsame]
      exact Or.inr hbefore
  refine ETriple.bind hrecover fun _ => triple_get fun w' => ?_
  refine ETriple.bind (Q := fun _ => Good fun d h => Body J d h ∧ (∀ t : Stamp, d.offline.lookup t.claimName = none) ∧
    sent h = []) (triple_record (fun h => by simp [drawn]) ?_) fun _ => triple_get fun w'' => ?_
  · rintro d h ⟨rfl, hr⟩
    have hnone : ∀ t : Stamp, w'.disk.offline.lookup t.claimName = none := by
      intro t
      by_contra ht
      exact absurd (hr.claims t ht) List.not_mem_nil
    have hacc : Accounted h (.recovered w.disk w'.disk) := by
      intro t
      refine ⟨fun content hbefore => ?_, hnone t⟩
      rcases hr.back t content hbefore with hq | hc
      · exact hq
      · rw [hnone t] at hc
        cases hc
    refine ⟨hr.body.note (by simp [drawn]) (by simp) hacc, hnone, ?_⟩
    rw [sent_snoc]
    rfl
  · refine (triple_flushLoop _ 0).pre fun v hv => hv.mono fun d h hd => ?_
    obtain ⟨rfl, hb, hclaims, hsent⟩ := hd
    refine ⟨hb, hclaims, fun t ht => mem_sortedNames.mpr ⟨ht, t.fullmatch_queueName⟩, sortedNames_sorted _ _, ?_⟩
    intro t ht
    rw [hsent] at ht
    cases ht

/-! ### Runs -/

theorem step_good (hJ : J.Lawful) {w : World} (hw : Good (Body J) w) (op : OfflineOp) :
    Good (Body J) (w.step J op) := by
  cases op with
  | cache env kind payload => exact ETriple.final (triple_cacheOffline hJ kind payload) hw
  | flush env => exact ETriple.final triple_flushOffline hw

theorem new_good : Good (Body J) World.new := by
  intro _
  refine ⟨fun s _ => files_empty s, fun s => Or.inl (files_empty s), ?_, ?_, ?_, everywhere_nil⟩
  · intro s body content hmem
    cases hmem
  · intro s body content hmem
    cases hmem
  · intro s body content hmem
    cases hmem

/-- In every run of `_cache_offline` and `flush_offline` calls, stopped
anywhere, that draws no file name twice: a record whose caching returned is in
exactly one of its three places with its content, at every moment, until the
server answered a post of its task and payload with a status below 300; a
recovery turns every claim into the queue file of the same stamp; and each post
sends a record that is before all that are queued and after all that were sent
since the recovery. -/
theorem offline_queue_crash_safe (J : JsonCodec) (hJ : J.Lawful) (ops : List OfflineOp)
    (hfresh : (drawn ((offlineMachine J).run World.new ops).log).Nodup) :
    let w := (offlineMachine J).run World.new ops
    (∀ pre d post, w.log = pre ++ .wrote d :: post → ∀ s body content, .cached s body content ∈ pre →
      (∃ d' t status reply, Event.posted d' t body (.response status reply) ∈ pre ∧ status < 300) ∨ Holds d s content) ∧
    (∀ s body content, .cached s body content ∈ w.log →
      (∃ d' t status reply, Event.posted d' t body (.response status reply) ∈ w.log ∧ status < 300) ∨
        Holds w.disk s content) ∧
    (∀ pre before after post, w.log = pre ++ .recovered before after :: post → ∀ s : Stamp,
      (∀ content, before.offline.lookup s.claimName = some content →
        after.offline.lookup s.queueName = some content) ∧ after.offline.lookup s.claimName = none) ∧
    ∀ pre d s body answer post, w.log = pre ++ .posted d s body answer :: post →
      (∀ t ∈ sent pre, t = s ∨ t.lt s) ∧ ∀ t : Stamp, d.offline.lookup t.queueName ≠ none → s.lt t := by
  intro w
  have hgood : Good (Body J) w := (offlineMachine J).run_invariant (P := Good (Body J))
    (fun _ op hw => step_good hJ hw op) World.new ops new_good
  have hb := hgood hfresh
  refine ⟨?_, hb.kept, ?_, ?_⟩
  · intro pre d post hlog
    exact hb.accounted pre _ post hlog
  · intro pre before after post hlog
    exact hb.accounted pre _ post hlog
  · intro pre d s body answer post hlog
    exact hb.accounted pre _ post hlog

/-! ### One record -/

def sampleText : String :=
  "\x7b\"kind\":\"result\",\"payload\":\x7b\"payload\":\x7b\"attempt_id\":\"0f8fad5b-d9cb-469f-a165-70867728950e\",\"duration_s\":1.0,\"logs\":\"\",\"output\":\x7b\x7d,\"status\":\"success\"\x7d,\"task_id\":\"t1\"\x7d,\"schema\":\"awp-offline-result/v2\"\x7d\n"

def sampleBytes : Bytes := (ofString sampleText).map fun c => c.val.toUInt8

def samplePayload : Value :=
  .obj [(ofString "attempt_id", .str sampleAttempt), (ofString "duration_s", .float (.finite 1)),
    (ofString "logs", .str []), (ofString "output", .obj []), (ofString "status", .str (ofString "success"))]

def sampleBody : Value := .obj [(ofString "payload", samplePayload), (ofString "task_id", .str (ofString "t1"))]

/-- Writes and reads the one record of the sample. -/
def sampleCodec : JsonCodec where
  dumps v :=
    match v with
    | .obj [(k, .str kind), (p, .obj [(q, .obj [(a, .str attempt), (b, .float x), (l, .str logs), (o, .obj []),
        (t, .str status)]), (u, .str task)]), (c, .str schema)] =>
      if [k, kind, p, q, a, attempt, b, l, logs, o, t, status, u, task, c, schema] =
          [ofString "kind", ofString "result", ofString "payload", ofString "payload", ofString "attempt_id",
            sampleAttempt, ofString "duration_s", ofString "logs", [], ofString "output", ofString "status",
            ofString "success", ofString "task_id", ofString "t1", ofString "schema",
            ofString "awp-offline-result/v2"] ∧ x = .finite 1 then some sampleBytes
      else none
    | _ => none
  loads b := if b = sampleBytes then some (queueRecord (ofString "result") sampleBody) else none

theorem sampleCodec_lawful : sampleCodec.Lawful := by
  intro v b h
  simp only [sampleCodec] at h
  split at h
  next =>
    split_ifs at h with heq
    simp only [List.cons.injEq, and_true] at heq
    have hb : sampleBytes = b := Option.some.inj h
    obtain ⟨⟨rfl, rfl, rfl, rfl, rfl, rfl, rfl, rfl, rfl, rfl, rfl, rfl, rfl, rfl, rfl, rfl⟩, rfl⟩ := heq
    show (if b = sampleBytes then _ else none) = _
    rw [if_pos hb.symm]
    rfl
  next => cases h

/-- The record is cached and sent once; `status` is what the server answers. -/
def sampleOps (status : ℕ) : List OfflineOp :=
  [.cache (fun _ => ⟨false, 0, 0, 0, .unavailable⟩) (ofString "result") sampleBody,
    .flush fun _ => ⟨false, 0, 0, 0, .response status .empty⟩]

theorem offline_queue_crash_safe_sample :
    let w := (offlineMachine sampleCodec).run World.new (sampleOps 503)
    (∀ s body content, .cached s body content ∈ w.log →
      (∃ d' t status reply, Event.posted d' t body (.response status reply) ∈ w.log ∧ status < 300) ∨
        Holds w.disk s content) ∧ Vacant World.new.disk (Stamp.now 0 0) ∧ ¬ Vacant w.disk (Stamp.now 0 0) := by
  have hrun := offline_queue_crash_safe sampleCodec sampleCodec_lawful (sampleOps 503) (by decide +kernel)
  refine ⟨hrun.2.1, files_empty _, ?_⟩
  unfold Vacant
  decide +kernel

def answers (h : List Event) : List ℕ :=
  h.filterMap fun
    | .posted _ _ _ (.response status _) => some status
    | _ => none

def cachedStamps (h : List Event) : List Stamp :=
  h.filterMap fun
    | .cached s _ _ => some s
    | _ => none

/-- A response that is neither an error nor a success removes the record: no
post was answered with a 2xx, and the record is nowhere. -/
theorem informational_answer_removes_record :
    let w := (offlineMachine sampleCodec).run World.new (sampleOps 103)
    (drawn w.log).Nodup ∧ Stamp.now 0 0 ∈ cachedStamps w.log ∧ answers w.log = [103] ∧
      Vacant w.disk (Stamp.now 0 0) := by
  unfold Vacant
  decide +kernel

end AgentWorkflow.Worker
