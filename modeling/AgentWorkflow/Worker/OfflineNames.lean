import AgentWorkflow.Worker.OfflineQueue

/-!
# File names and the places of a record

The two patterns match exactly the names that are built from a stamp, and name
order is the order of the stamps. A record is in at most one of three places,
and each operation on the disk moves the file of one stamp.
-/

namespace AgentWorkflow.Worker
open AgentWorkflow.Lib AgentWorkflow.Lib.PyStr

namespace Stamp

theorem timestamp_length (s : Stamp) : s.timestamp.length = 20 :=
  (fullmatch_length s.timestamp_match).trans (by simp [timestampPattern])

theorem nonce_length (s : Stamp) : s.nonce.length = 32 :=
  (fullmatch_length s.nonce_match).trans (by simp [noncePattern])

theorem ofGroups_self (s : Stamp) : ofGroups s.timestamp s.nonce = some s := by
  unfold ofGroups
  rw [dif_pos ⟨s.timestamp_match, s.nonce_match⟩]

theorem fullmatch_queueName (s : Stamp) : fullmatch queuePattern s.queueName = true := by
  refine fullmatch_append_iff.mpr ⟨_, _, rfl, s.timestamp_match, ?_⟩
  refine fullmatch_append_iff.mpr ⟨_, _, rfl, fullmatch_literal.mpr rfl, ?_⟩
  exact fullmatch_append_iff.mpr ⟨_, _, rfl, s.nonce_match, fullmatch_literal.mpr rfl⟩

theorem fullmatch_claimName (s : Stamp) : fullmatch claimPattern s.claimName = true := by
  refine fullmatch_append_iff.mpr ⟨_, _, rfl, fullmatch_literal.mpr rfl, ?_⟩
  refine fullmatch_append_iff.mpr ⟨_, _, rfl, s.timestamp_match, ?_⟩
  refine fullmatch_append_iff.mpr ⟨_, _, rfl, fullmatch_literal.mpr rfl, ?_⟩
  exact fullmatch_append_iff.mpr ⟨_, _, rfl, s.nonce_match, fullmatch_literal.mpr rfl⟩

end Stamp

open Stamp

theorem queuePattern_match {name : PyStr} (h : fullmatch queuePattern name = true) :
    ∃ s : Stamp, name = s.queueName := by
  obtain ⟨timestamp, rest, rfl, ht, h⟩ := fullmatch_append_iff.mp h
  obtain ⟨dash, rest, rfl, hd, h⟩ := fullmatch_append_iff.mp h
  obtain ⟨nonce, suffix, rfl, hn, hs⟩ := fullmatch_append_iff.mp h
  rw [fullmatch_literal.mp hd, fullmatch_literal.mp hs]
  exact ⟨⟨timestamp, nonce, ht, hn⟩, rfl⟩

theorem claimPattern_match {name : PyStr} (h : fullmatch claimPattern name = true) :
    ∃ s : Stamp, name = s.claimName := by
  obtain ⟨c, rest, rfl, hc, h⟩ := fullmatch_append_iff.mp h
  obtain ⟨timestamp, rest, rfl, ht, h⟩ := fullmatch_append_iff.mp h
  obtain ⟨dash, rest, rfl, hd, h⟩ := fullmatch_append_iff.mp h
  obtain ⟨nonce, suffix, rfl, hn, hs⟩ := fullmatch_append_iff.mp h
  rw [fullmatch_literal.mp hc, fullmatch_literal.mp hd, fullmatch_literal.mp hs]
  exact ⟨⟨timestamp, nonce, ht, hn⟩, rfl⟩

theorem matchQueueName_self (s : Stamp) : matchQueueName s.queueName = some s := by
  have htake : s.queueName.take 20 = s.timestamp := List.take_left' s.timestamp_length
  have hdrop : s.queueName.drop 21 = s.nonce ++ ofString ".json" := by
    have hlen : (s.timestamp ++ ofString "-").length = 21 := by
      rw [List.length_append, s.timestamp_length]
      rfl
    rw [queueName, ← List.append_assoc]
    exact List.drop_left' hlen
  rw [matchQueueName, if_pos s.fullmatch_queueName, htake, hdrop, List.take_left' s.nonce_length, ofGroups_self]

theorem matchClaimName_self (s : Stamp) : matchClaimName s.claimName = some s := by
  have hrest : s.claimName.drop 2 = s.timestamp ++ (ofString "-" ++ (s.nonce ++ ofString ".s")) :=
    List.drop_left' rfl
  have htake : (s.claimName.drop 2).take 20 = s.timestamp := by
    rw [hrest]
    exact List.take_left' s.timestamp_length
  have hdrop : s.claimName.drop 23 = s.nonce ++ ofString ".s" := by
    have hlen : (s.timestamp ++ ofString "-").length = 21 := by
      rw [List.length_append, s.timestamp_length]
      rfl
    have hsplit : s.claimName.drop 23 = (s.claimName.drop 2).drop 21 := by rw [List.drop_drop]
    rw [hsplit, hrest, ← List.append_assoc]
    exact List.drop_left' hlen
  rw [matchClaimName, if_pos s.fullmatch_claimName, htake, hdrop, List.take_left' s.nonce_length, ofGroups_self]

theorem queueName_injective {s t : Stamp} (h : s.queueName = t.queueName) : s = t := by
  have hs := matchQueueName_self s
  rw [h, matchQueueName_self t] at hs
  exact (Option.some.inj hs).symm

theorem claimName_injective {s t : Stamp} (h : s.claimName = t.claimName) : s = t := by
  have hs := matchClaimName_self s
  rw [h, matchClaimName_self t] at hs
  exact (Option.some.inj hs).symm

/-- A claim starts with a dot. -/
theorem queueName_ne_claimName (s t : Stamp) : s.queueName ≠ t.claimName := by
  intro h
  have hmatch := s.fullmatch_queueName
  rw [h] at hmatch
  exact absurd hmatch (by simp [claimName, queuePattern, timestampPattern, ofString, fullmatch, List.replicate,
    isDigit, oneOf])

/-- Name order is the order of timestamp and nonce. -/
theorem queueName_lt_iff {s t : Stamp} : s.queueName < t.queueName ↔ s.lt t := by
  have htime : s.timestamp.length = t.timestamp.length := by rw [s.timestamp_length, t.timestamp_length]
  have hnonce : s.nonce.length = t.nonce.length := by rw [s.nonce_length, t.nonce_length]
  unfold queueName Stamp.lt
  rw [append_lt_append_iff htime, append_lt_append_iff rfl, append_lt_append_iff hnonce]
  simp

/-! ### The places of a record -/

/-- What the queue file, the claim and the rejected file of a stamp hold. -/
def files (d : Disk) (s : Stamp) : Option Bytes × Option Bytes × Option Bytes :=
  (d.offline.lookup s.queueName, d.offline.lookup s.claimName, d.rejected.lookup s.queueName)

def Vacant (d : Disk) (s : Stamp) : Prop := files d s = (none, none, none)

/-- The content is in exactly one of the three places. -/
def Holds (d : Disk) (s : Stamp) (content : Bytes) : Prop :=
  files d s = (some content, none, none) ∨ files d s = (none, some content, none) ∨
    files d s = (none, none, some content)

theorem files_empty (s : Stamp) : Vacant Disk.empty s := rfl

section Files
variable {d : Disk} {s t : Stamp} {content : Bytes}

theorem queue_of_files {q c r : Option Bytes} (h : files d s = (q, c, r)) : d.offline.lookup s.queueName = q :=
  congrArg Prod.fst h

theorem claim_of_files {q c r : Option Bytes} (h : files d s = (q, c, r)) : d.offline.lookup s.claimName = c :=
  congrArg (fun p => p.2.1) h

theorem files_write_self (d : Disk) (s : Stamp) (content : Bytes) :
    files (d.write s.queueName content) s = (some content, (files d s).2) := by
  simp only [files, Disk.write, AList.lookup_insert]
  rw [AList.lookup_insert_ne (queueName_ne_claimName s s).symm]

theorem files_write_ne (h : t ≠ s) (content : Bytes) : files (d.write s.queueName content) t = files d t := by
  simp only [files, Disk.write]
  rw [AList.lookup_insert_ne fun he => h (queueName_injective he),
    AList.lookup_insert_ne (queueName_ne_claimName s t).symm]

/-- Moving a file to a place that is not one of its own leaves the other names. -/
theorem lookup_rename_ne {a b n : PyStr} (ha : n ≠ a) (hb : n ≠ b) :
    (d.rename a b).offline.lookup n = d.offline.lookup n := by
  unfold Disk.rename
  split
  · rfl
  · rw [AList.lookup_insert_ne hb, AList.lookup_erase_ne ha]

theorem lookup_rename_source {a b : PyStr} (h : a ≠ b) : (d.rename a b).offline.lookup a = none := by
  unfold Disk.rename
  split
  next hnone => exact hnone
  next => rw [AList.lookup_insert_ne h, AList.lookup_erase]

theorem lookup_rename_destination {a b : PyStr} (h : d.offline.lookup a = some content) :
    (d.rename a b).offline.lookup b = some content := by
  simp only [Disk.rename, h, AList.lookup_insert]

theorem rename_rejected (a b : PyStr) : (d.rename a b).rejected = d.rejected := by
  unfold Disk.rename
  split <;> rfl

theorem files_claim_self (h : files d s = (some content, none, none)) :
    files (d.rename s.queueName s.claimName) s = (none, some content, none) := by
  simp only [files, Prod.mk.injEq] at h ⊢
  refine ⟨lookup_rename_source (queueName_ne_claimName s s), lookup_rename_destination h.1, ?_⟩
  rw [rename_rejected]
  exact h.2.2

theorem files_claim_ne (h : t ≠ s) : files (d.rename s.queueName s.claimName) t = files d t := by
  simp only [files, rename_rejected]
  rw [lookup_rename_ne (fun he => h (queueName_injective he)) (queueName_ne_claimName t s),
    lookup_rename_ne (queueName_ne_claimName s t).symm fun he => h (claimName_injective he)]

theorem files_return_self (h : files d s = (none, some content, none)) :
    files (d.rename s.claimName s.queueName) s = (some content, none, none) := by
  simp only [files, Prod.mk.injEq] at h ⊢
  refine ⟨lookup_rename_destination h.2.1, lookup_rename_source (queueName_ne_claimName s s).symm, ?_⟩
  rw [rename_rejected]
  exact h.2.2

theorem files_return_ne (h : t ≠ s) : files (d.rename s.claimName s.queueName) t = files d t := by
  simp only [files, rename_rejected]
  rw [lookup_rename_ne (queueName_ne_claimName t s) fun he => h (queueName_injective he),
    lookup_rename_ne (fun he => h (claimName_injective he)) (queueName_ne_claimName s t).symm]

theorem files_reject_self (h : files d s = (none, some content, none)) :
    files (d.reject s.claimName s.queueName) s = (none, none, some content) := by
  simp only [files, Prod.mk.injEq] at h
  simp only [files, Disk.reject, h.2.1, AList.lookup_erase, AList.lookup_insert]
  rw [AList.lookup_erase_ne (queueName_ne_claimName s s), h.1]

theorem files_reject_ne (h : t ≠ s) : files (d.reject s.claimName s.queueName) t = files d t := by
  unfold Disk.reject
  split
  · rfl
  · simp only [files]
    rw [AList.lookup_erase_ne (queueName_ne_claimName t s),
      AList.lookup_erase_ne fun he => h (claimName_injective he),
      AList.lookup_insert_ne fun he => h (queueName_injective he)]

theorem files_unlink_self (h : files d s = (none, some content, none)) : Vacant (d.unlink s.claimName) s := by
  simp only [files, Prod.mk.injEq] at h
  simp only [Vacant, files, Disk.unlink, AList.lookup_erase]
  rw [AList.lookup_erase_ne (queueName_ne_claimName s s), h.1, h.2.2]

theorem files_unlink_ne (h : t ≠ s) : files (d.unlink s.claimName) t = files d t := by
  simp only [files, Disk.unlink]
  rw [AList.lookup_erase_ne (queueName_ne_claimName t s),
    AList.lookup_erase_ne fun he => h (claimName_injective he)]

end Files

end AgentWorkflow.Worker
