import AgentWorkflow.Worker.OfflineNames

/-!
# No cached result is lost

A record is on disk once, under one of its three names, until the server has
taken it; the claims a crash left are queue files again before anything is
sent; and what is sent is always the first record in the queue.
-/

namespace AgentWorkflow.Worker
open AgentWorkflow.Lib AgentWorkflow.Lib.PyStr

/-! ### Reading the log -/

def drawn (h : List Event) : List Stamp :=
  h.filterMap fun
    | .drew s => some s
    | _ => none

def sentStep (ss : List Stamp) : Event → List Stamp
  | .recovered _ _ => []
  | .posted _ s _ _ => ss ++ [s]
  | _ => ss

/-- The records posted since the last recovery. -/
def sent (h : List Event) : List Stamp := h.foldl sentStep []

/-- The server answered a post of this body with a status below 300. -/
def Delivered (h : List Event) (body : QueueBody) : Prop :=
  ∃ d s status content, Event.posted d s body (.response status content) ∈ h ∧ status < 300

def Kept (h : List Event) (d : Disk) : Prop :=
  ∀ s body content, Event.cached s body content ∈ h → Delivered h body ∨ Holds d s content

/-- What the log shows at each of its events. -/
def Accounted (h : List Event) : Event → Prop
  | .wrote d => Kept h d
  | .recovered before after => ∀ s : Stamp,
    (∀ content, before.offline.lookup s.claimName = some content → after.offline.lookup s.queueName = some content) ∧
      after.offline.lookup s.claimName = none
  | .posted d s _ _ =>
    (∀ t ∈ sent h, t = s ∨ t.lt s) ∧ ∀ t : Stamp, d.offline.lookup t.queueName ≠ none → s.lt t
  | .drew _ | .cached _ _ _ => True

theorem sent_snoc (h : List Event) (e : Event) : sent (h ++ [e]) = sentStep (sent h) e := by
  simp [sent]

theorem Delivered.snoc {h : List Event} {body : QueueBody} (hd : Delivered h body) (e : Event) :
    Delivered (h ++ [e]) body := by
  obtain ⟨d, s, status, content, hmem, hlt⟩ := hd
  exact ⟨d, s, status, content, List.mem_append_left _ hmem, hlt⟩

/-! ### The invariant -/

structure Body (J : JsonCodec) (d : Disk) (h : List Event) : Prop where
  vacant : ∀ s, s ∉ drawn h → Vacant d s
  single : ∀ s, Vacant d s ∨ ∃ content, Holds d s content ∧ content.length ≤ maxOfflineBytes
  known : ∀ s body content, .cached s body content ∈ h → s ∈ drawn h
  codec : ∀ s body content, .cached s body content ∈ h →
    ∃ item, J.loads content = some item ∧ validateQueueRecord item = .ok body
  kept : Kept h d
  accounted : Everywhere Accounted h

section Invariant
variable {J : JsonCodec} {d d' : Disk} {h : List Event} {s : Stamp} {content : Bytes}

theorem Kept.snoc (hk : Kept h d) {e : Event} (he : ∀ s body content, e ≠ .cached s body content) : Kept (h ++ [e]) d := by
  intro s body content hmem
  rcases List.mem_append.mp hmem with hmem | hmem
  · rcases hk s body content hmem with hd | hh
    · exact Or.inl (hd.snoc e)
    · exact Or.inr hh
  · exact absurd (List.mem_singleton.mp hmem).symm (he s body content)

/-- An event that neither draws a name nor completes a record. -/
theorem Body.note (hb : Body J d h) {e : Event} (hdraw : drawn (h ++ [e]) = drawn h)
    (he : ∀ s body content, e ≠ .cached s body content) (hacc : Accounted h e) : Body J d (h ++ [e]) where
  vacant := by
    rw [hdraw]
    exact hb.vacant
  single := hb.single
  known := by
    intro s body content hmem
    rw [hdraw]
    rcases List.mem_append.mp hmem with hmem | hmem
    · exact hb.known s body content hmem
    · exact absurd (List.mem_singleton.mp hmem).symm (he s body content)
  codec := by
    intro s body content hmem
    rcases List.mem_append.mp hmem with hmem | hmem
    · exact hb.codec s body content hmem
    · exact absurd (List.mem_singleton.mp hmem).symm (he s body content)
  kept := hb.kept.snoc he
  accounted := hb.accounted.snoc hacc

/-- A write that touches the files of one known record and loses none of them
that is still owed. -/
theorem Body.write (hb : Body J d h) (hs : s ∈ drawn h) (hne : ∀ t, t ≠ s → files d' t = files d t)
    (hself : Vacant d' s ∨ ∃ content, Holds d' s content ∧ content.length ≤ maxOfflineBytes)
    (howed : ∀ body content, .cached s body content ∈ h → Delivered h body ∨ Holds d' s content) :
    Body J d' (h ++ [.wrote d']) := by
  have hkept : Kept h d' := by
    intro t body content hmem
    by_cases hts : t = s
    · subst hts
      exact howed body content hmem
    · rcases hb.kept t body content hmem with hd | hh
      · exact Or.inl hd
      · right
        unfold Holds
        rw [hne t hts]
        exact hh
  have hmoved : Body J d' h := by
    refine ⟨?_, ?_, hb.known, hb.codec, hkept, hb.accounted⟩
    · intro t ht
      have hts : t ≠ s := by
        rintro rfl
        exact ht hs
      unfold Vacant
      rw [hne t hts]
      exact hb.vacant t ht
    · intro t
      by_cases hts : t = s
      · subst hts
        exact hself
      · unfold Vacant Holds
        rw [hne t hts]
        exact hb.single t
  exact hmoved.note (by simp [drawn]) (by simp) hkept

/-- Moving the one file of a record keeps everything. -/
theorem Body.move (hb : Body J d h) {place : Option Bytes × Option Bytes × Option Bytes}
    (hplace : files d s = place) (hnot : place ≠ (none, none, none))
    (hne : ∀ t, t ≠ s → files d' t = files d t) (hto : ∀ content, Holds d s content → Holds d' s content) :
    Body J d' (h ++ [.wrote d']) := by
  have hs : s ∈ drawn h := by
    by_contra hs
    have hvac : files d s = (none, none, none) := hb.vacant s hs
    exact hnot (hplace.symm.trans hvac)
  refine hb.write hs hne ?_ ?_
  · rcases hb.single s with hv | ⟨content, hh, hlen⟩
    · have hvac : files d s = (none, none, none) := hv
      exact absurd (hplace.symm.trans hvac) hnot
    · exact Or.inr ⟨content, hto content hh, hlen⟩
  · intro body content hmem
    rcases hb.kept s body content hmem with hd | hh
    · exact Or.inl hd
    · exact Or.inr (hto content hh)

theorem Holds.queued (hh : Holds d s content) (hq : d.offline.lookup s.queueName ≠ none) :
    files d s = (some content, none, none) := by
  rcases hh with hh | hh | hh
  · exact hh
  · exact absurd (queue_of_files hh) hq
  · exact absurd (queue_of_files hh) hq

theorem Holds.claimed (hh : Holds d s content) (hc : d.offline.lookup s.claimName ≠ none) :
    files d s = (none, some content, none) := by
  rcases hh with hh | hh | hh
  · exact absurd (claim_of_files hh) hc
  · exact hh
  · exact absurd (claim_of_files hh) hc

theorem Body.queued (hb : Body J d h) (hq : d.offline.lookup s.queueName ≠ none) :
    ∃ content, files d s = (some content, none, none) ∧ content.length ≤ maxOfflineBytes := by
  rcases hb.single s with hv | ⟨content, hh, hlen⟩
  · exact absurd (queue_of_files hv) hq
  · exact ⟨content, hh.queued hq, hlen⟩

theorem Body.claimed (hb : Body J d h) (hc : d.offline.lookup s.claimName ≠ none) :
    ∃ content, files d s = (none, some content, none) ∧ content.length ≤ maxOfflineBytes := by
  rcases hb.single s with hv | ⟨content, hh, hlen⟩
  · exact absurd (claim_of_files hv) hc
  · exact ⟨content, hh.claimed hc, hlen⟩

theorem Body.toClaim (hb : Body J d h) (hfile : files d s = (some content, none, none)) :
    Body J (d.rename s.queueName s.claimName) (h ++ [.wrote (d.rename s.queueName s.claimName)]) := by
  refine hb.move hfile (by simp) (fun t ht => files_claim_ne ht) fun content' hh => Or.inr (Or.inl ?_)
  have hq := hh.queued (by rw [queue_of_files hfile]; simp)
  exact files_claim_self hq

theorem Body.toQueue (hb : Body J d h) (hfile : files d s = (none, some content, none)) :
    Body J (d.rename s.claimName s.queueName) (h ++ [.wrote (d.rename s.claimName s.queueName)]) := by
  refine hb.move hfile (by simp) (fun t ht => files_return_ne ht) fun content' hh => Or.inl ?_
  have hc := hh.claimed (by rw [claim_of_files hfile]; simp)
  exact files_return_self hc

theorem Body.toRejected (hb : Body J d h) (hfile : files d s = (none, some content, none)) :
    Body J (d.reject s.claimName s.queueName) (h ++ [.wrote (d.reject s.claimName s.queueName)]) := by
  refine hb.move hfile (by simp) (fun t ht => files_reject_ne ht) fun content' hh => Or.inr (Or.inr ?_)
  have hc := hh.claimed (by rw [claim_of_files hfile]; simp)
  exact files_reject_self hc

/-- The claim of a record that the server has taken may go. -/
theorem Body.unlinked (hb : Body J d h) (hfile : files d s = (none, some content, none)) {item : Value}
    {body : QueueBody} (hread : J.loads content = some item) (hvalid : validateQueueRecord item = .ok body)
    (hd : Delivered h body) :
    Body J (d.unlink s.claimName) (h ++ [.wrote (d.unlink s.claimName)]) := by
  have hs : s ∈ drawn h := by
    by_contra hs
    have hvac : files d s = (none, none, none) := hb.vacant s hs
    rw [hfile] at hvac
    cases hvac
  refine hb.write hs (fun t ht => files_unlink_ne ht) (Or.inl (files_unlink_self hfile)) ?_
  intro body' content' hmem
  rcases hb.kept s body' content' hmem with hd' | hh
  · exact Or.inl hd'
  · left
    have hsame := hh.claimed (by rw [claim_of_files hfile]; simp)
    rw [hfile] at hsame
    cases hsame
    obtain ⟨item', hread', hvalid'⟩ := hb.codec s body' content hmem
    rw [hread] at hread'
    cases hread'
    rw [hvalid] at hvalid'
    cases hvalid'
    exact hd

end Invariant

/-! ### Rules for the programs -/

/-- An assertion on the disk and the log, in runs that drew no name twice. -/
def Good (A : Disk → List Event → Prop) (w : World) : Prop := (drawn w.log).Nodup → A w.disk w.log

section Rules
variable {env : ℕ → Choice} {A A' : Disk → List Event → Prop} {E : Stop → World → Prop} {α : Type}

theorem triple_choose : ETriple (Good A) (choose env) (fun _ => Good A) E := fun _ hw => hw

theorem triple_change {f : Disk → Disk} (hf : ∀ d h, A d h → A' (f d) (h ++ [.wrote (f d)])) :
    ETriple (Good A) (change f) (fun _ => Good A') E := by
  intro w hw hn
  exact hf w.disk w.log (hw (by simpa [World.setDisk, drawn] using hn))

theorem triple_record {e : Event} (hdraw : ∀ h, drawn (h ++ [e]) = drawn h) (he : ∀ d h, A d h → A' d (h ++ [e])) :
    ETriple (Good A) (record e) (fun _ => Good A') E := by
  intro w hw hn
  exact he w.disk w.log (hw (by simpa [World.record, hdraw] using hn))

/-- A drawn name has not been drawn before. -/
theorem triple_draw {s : Stamp} (hs : ∀ d h, A d h → s ∉ drawn h → A' d (h ++ [.drew s])) :
    ETriple (Good A) (record (.drew s)) (fun _ => Good A') E := by
  intro w hw hn
  have hlog : drawn (w.log ++ [.drew s]) = drawn w.log ++ [s] := by simp [drawn]
  have hnodup : (drawn w.log ++ [s]).Nodup := hlog ▸ hn
  rw [List.nodup_append] at hnodup
  refine hs w.disk w.log (hw hnodup.1) fun hmem => ?_
  exact hnodup.2.2 s hmem s (List.mem_singleton_self s) rfl

theorem triple_get {f : World → Offline α} {Q : α → World → Prop}
    (h : ∀ w, ETriple (Good fun d log => d = w.disk ∧ A d log) (f w) Q E) :
    ETriple (Good A) (MonadState.get >>= f) Q E := by
  refine ETriple.get_bind fun w hw => (h w).pre ?_
  rintro _ rfl hn
  exact ⟨rfl, hw hn⟩

theorem triple_pure {a : α} {Q : α → World → Prop} (h : ∀ w, Good A w → Q a w) :
    ETriple (Good A) (pure a : Offline α) Q E := ETriple.pure h

theorem Good.mono {w : World} (hw : Good A w) (h : ∀ d log, A d log → A' d log) : Good A' w :=
  fun hn => h _ _ (hw hn)

theorem triple_crashPoint (hA : ∀ w, Good A w → E .crash w) :
    ETriple (Good A) (crashPoint env) (fun _ => Good A) E := by
  refine ETriple.bind triple_choose fun c => ETriple.ite (fun _ => ETriple.throw hA) fun _ => ?_
  exact ETriple.pure fun w hw => hw

theorem triple_fs {f : Disk → Disk} (hA : ∀ w, Good A w → E .crash w)
    (hf : ∀ d h, A d h → A' (f d) (h ++ [.wrote (f d)])) :
    ETriple (Good A) (fs env f) (fun _ => Good A') E :=
  ETriple.bind (triple_crashPoint hA) fun _ => triple_change hf

end Rules

end AgentWorkflow.Worker
