import AgentWorkflow.Lib.Machine
import AgentWorkflow.Lib.OrderedDict
import AgentWorkflow.Lib.SlidingWindow

/-!
# The in-memory rate limiter (`middleware.py`)

`acquire` runs under a lock, so the limiter is a machine whose operations are whole
calls with their clock reading. Keys of any type stand for the identity strings;
clock readings are rationals.
-/

namespace AgentWorkflow.ControlPlane.RateLimiter
open AgentWorkflow.Lib AgentWorkflow.Lib.OrderedDict AgentWorkflow.Lib.SlidingWindow

universe u
variable {κ : Type u} [DecidableEq κ]

structure Call (κ : Type u) where
  key : κ
  limit : ℤ
  window : ℤ
  now : ℚ
deriving DecidableEq

structure Reply where
  allowed : Bool
  retryAfter : ℤ
deriving DecidableEq

abbrev Hits (κ : Type u) := List (κ × List ℚ)

/-- `int(q)`. -/
def truncate (q : ℚ) : ℤ := if 0 ≤ q then ⌊q⌋ else ⌈q⌉

def maxLimiterKeys : ℤ := 10000

/-- `_max_keys` of a limiter built with `max_keys`. -/
def keyBound (maxKeys : ℤ) : ℕ := (max 1 (min maxKeys maxLimiterKeys)).toNat

def Call.limit' (c : Call κ) : ℕ := (max 1 c.limit).toNat

def Call.window' (c : Call κ) : ℚ := (max 1 c.window : ℤ)

/-- The hits of the key that are still in the window. -/
def kept (c : Call κ) (hits : Hits κ) : List ℚ := recent (c.now - c.window') ((get c.key hits).getD [])

def acquire (maxKeys : ℤ) (c : Call κ) (hits : Hits κ) : Reply × Hits κ :=
  let l := kept c hits
  if c.limit' ≤ l.length then
    -- the oldest hit decides how long to wait, whatever the limit is
    (⟨false, max 1 (truncate (l.headD 0 + c.window' - c.now) + 1)⟩, put c.key l hits)
  else (⟨true, 0⟩, evict (keyBound maxKeys) (put c.key (l ++ [c.now]) hits))

def limiter (κ : Type u) [DecidableEq κ] (maxKeys : ℤ) : Machine (Hits κ) (Call κ) (Call κ × Reply) :=
  ⟨fun hits c => ((acquire maxKeys c hits).2, (c, (acquire maxKeys c hits).1))⟩

/-- The clock does not go back from one call to the next. -/
def Ordered (calls : List (Call κ)) : Prop := calls.Pairwise fun c d => c.now ≤ d.now

instance (calls : List (Call κ)) : Decidable (Ordered calls) :=
  inferInstanceAs (Decidable (calls.Pairwise fun c d => c.now ≤ d.now))

/-- The times of the allowed calls on a key. -/
def admitted (k : κ) (h : List (Call κ × Reply)) : List ℚ :=
  (h.filter fun e => decide (e.1.key = k) && e.2.allowed).map fun e => e.1.now

/-! ### What a call does -/

omit [DecidableEq κ] in
theorem limit_pos (c : Call κ) : 0 < c.limit' := by
  unfold Call.limit'
  omega

theorem acquire_cases (maxKeys : ℤ) (c : Call κ) (hits : Hits κ) :
    (c.limit' ≤ (kept c hits).length ∧ (acquire maxKeys c hits).1.allowed = false ∧
      (acquire maxKeys c hits).2 = put c.key (kept c hits) hits) ∨
    ((kept c hits).length < c.limit' ∧ (acquire maxKeys c hits).1.allowed = true ∧
      (acquire maxKeys c hits).2 = evict (keyBound maxKeys) (put c.key (kept c hits ++ [c.now]) hits)) := by
  unfold acquire
  by_cases hfull : c.limit' ≤ (kept c hits).length
  · left
    simp only [if_pos hfull]
    exact ⟨hfull, trivial, trivial⟩
  · right
    simp only [if_neg hfull]
    exact ⟨not_le.mp hfull, trivial, trivial⟩

theorem acquire_allowed (maxKeys : ℤ) (c : Call κ) (hits : Hits κ) :
    (acquire maxKeys c hits).1.allowed = true ↔ (kept c hits).length < c.limit' := by
  rcases acquire_cases maxKeys c hits with ⟨h, hf, -⟩ | ⟨h, ht, -⟩
  · rw [hf]
    simpa using h
  · rw [ht]
    simpa using h

/-- A denied call had hits, so its key keeps its entry. -/
theorem mem_keys_of_full {c : Call κ} {hits : Hits κ} (h : c.limit' ≤ (kept c hits).length) : c.key ∈ keys hits := by
  by_contra hnone
  rw [← get_none] at hnone
  have hpos := limit_pos c
  simp only [kept, hnone, Option.getD_none, recent, List.dropWhile_nil, List.length_nil] at h
  omega

/-- What a call leaves under another key. -/
theorem get_acquire_ne {c : Call κ} {hits : Hits κ} (hd : (keys hits).Nodup) (maxKeys : ℤ) {k : κ} (hk : k ≠ c.key) :
    get k (acquire maxKeys c hits).2 = get k hits ∨ get k (acquire maxKeys c hits).2 = none := by
  rcases acquire_cases maxKeys c hits with ⟨-, -, h⟩ | ⟨-, -, h⟩
  · rw [h, get_put_ne hk]
    exact Or.inl rfl
  · rw [h, ← get_put_ne hk (kept c hits ++ [c.now]) hits]
    exact get_evict (nodup_put hd _ _) _ _

theorem nodup_acquire {c : Call κ} {hits : Hits κ} (hd : (keys hits).Nodup) (maxKeys : ℤ) :
    (keys (acquire maxKeys c hits).2).Nodup := by
  rcases acquire_cases maxKeys c hits with ⟨-, -, h⟩ | ⟨-, -, h⟩
  · rw [h]
    exact nodup_put hd _ _
  · rw [h]
    exact (nodup_put hd _ _).sublist ((evict_sublist _ _).map _)

theorem length_acquire {c : Call κ} {hits : Hits κ} {maxKeys : ℤ} (hlen : hits.length ≤ keyBound maxKeys) :
    (acquire maxKeys c hits).2.length ≤ keyBound maxKeys := by
  rcases acquire_cases maxKeys c hits with ⟨hfull, -, h⟩ | ⟨-, -, h⟩
  · rw [h]
    exact (length_put_of_mem (mem_keys_of_full hfull) _).trans hlen
  · rw [h]
    exact length_evict_le _ _

/-! ### Histories -/

theorem trace_calls (maxKeys : ℤ) (hits : Hits κ) (calls : List (Call κ)) :
    ((limiter κ maxKeys).trace hits calls).map Prod.fst = calls := by
  induction calls generalizing hits with
  | nil => rfl
  | cons c calls ih =>
    rw [Machine.trace_cons, List.map_cons, ih]
    rfl

theorem admitted_snoc (k : κ) (h : List (Call κ × Reply)) (e : Call κ × Reply) :
    admitted k (h ++ [e]) = if e.1.key = k ∧ e.2.allowed = true then admitted k h ++ [e.1.now] else admitted k h := by
  unfold admitted
  rw [List.filter_append, List.map_append]
  by_cases he : e.1.key = k ∧ e.2.allowed = true
  · rw [if_pos he, List.filter_cons_of_pos (by simp [he])]
    rfl
  · rw [if_neg he, List.filter_cons_of_neg (by simpa using he)]
    simp

theorem mem_admitted {k : κ} {h : List (Call κ × Reply)} {x : ℚ} (hx : x ∈ admitted k h) : ∃ e ∈ h, x = e.1.now := by
  obtain ⟨e, he, rfl⟩ := List.mem_map.mp hx
  exact ⟨e, (List.mem_filter.mp he).1, rfl⟩

omit [DecidableEq κ] in
theorem Ordered.earlier {h : List (Call κ × Reply)} {e : Call κ × Reply} (ho : Ordered ((h ++ [e]).map Prod.fst)) :
    Ordered (h.map Prod.fst) ∧ ∀ d ∈ h, d.1.now ≤ e.1.now := by
  rw [Ordered, List.map_append, List.pairwise_append] at ho
  refine ⟨ho.1, fun d hd => ho.2.2 d.1 (List.mem_map_of_mem hd) e.1 (by simp)⟩

/-- The lists of hits are in order and hold readings of earlier calls. -/
structure Sound (h : List (Call κ × Reply)) (hits : Hits κ) : Prop where
  nodup : (keys hits).Nodup
  sorted : ∀ k l, get k hits = some l → l.Pairwise (· ≤ ·)
  past : ∀ k l, get k hits = some l → ∀ x ∈ l, ∃ e ∈ h, x = e.1.now

theorem Sound.kept {h : List (Call κ × Reply)} {hits : Hits κ} (hs : Sound h hits) (c : Call κ) :
    (kept c hits).Pairwise (· ≤ ·) ∧ (∀ x ∈ RateLimiter.kept c hits, c.now - c.window' < x) ∧
      ∀ x ∈ RateLimiter.kept c hits, ∃ e ∈ h, x = e.1.now := by
  unfold RateLimiter.kept
  cases hg : get c.key hits with
  | none => simp [recent]
  | some l =>
    have hsub := (recent_suffix (c.now - c.window') l).sublist
    have hsorted := hs.sorted _ l hg
    exact ⟨hsorted.sublist hsub, recent_after hsorted, fun x hx => hs.past _ l hg x (hsub.mem hx)⟩

theorem Sound.step {h : List (Call κ × Reply)} {hits : Hits κ} (hs : Sound h hits) (maxKeys : ℤ) (c : Call κ)
    (hlast : ∀ e ∈ h, e.1.now ≤ c.now) :
    Sound (h ++ [((limiter κ maxKeys).step hits c).2]) ((limiter κ maxKeys).step hits c).1 := by
  obtain ⟨hsorted, -, hpast⟩ := hs.kept c
  have hnow : ∀ x ∈ RateLimiter.kept c hits ++ [c.now],
      ∃ e ∈ h ++ [((limiter κ maxKeys).step hits c).2], x = e.1.now := by
    intro x hx
    rcases List.mem_append.mp hx with hx | hx
    · obtain ⟨e, he, rfl⟩ := hpast x hx
      exact ⟨e, List.mem_append_left _ he, rfl⟩
    · rw [List.mem_singleton.mp hx]
      exact ⟨_, List.mem_append_right _ (List.mem_singleton_self _), rfl⟩
  have hself : ∀ l, get c.key ((limiter κ maxKeys).step hits c).1 = some l →
      l = RateLimiter.kept c hits ∨ l = RateLimiter.kept c hits ++ [c.now] := by
    intro l hl
    rcases acquire_cases maxKeys c hits with ⟨-, -, h'⟩ | ⟨-, -, h'⟩
    · rw [show ((limiter κ maxKeys).step hits c).1 = _ from h', get_put_self] at hl
      exact Or.inl (Option.some.inj hl).symm
    · rw [show ((limiter κ maxKeys).step hits c).1 = _ from h'] at hl
      rcases get_evict (nodup_put hs.nodup c.key (RateLimiter.kept c hits ++ [c.now])) (keyBound maxKeys) c.key with
        he | he
      · rw [he, get_put_self] at hl
        exact Or.inr (Option.some.inj hl).symm
      · rw [he] at hl
        cases hl
  have hother : ∀ k l, k ≠ c.key → get k ((limiter κ maxKeys).step hits c).1 = some l → get k hits = some l := by
    intro k l hk hl
    rcases get_acquire_ne hs.nodup maxKeys hk with he | he
    · rwa [show get k ((limiter κ maxKeys).step hits c).1 = _ from he] at hl
    · rw [show get k ((limiter κ maxKeys).step hits c).1 = none from he] at hl
      cases hl
  refine ⟨nodup_acquire hs.nodup maxKeys, fun k l hl => ?_, fun k l hl x hx => ?_⟩
  · by_cases hk : k = c.key
    · subst hk
      rcases hself l hl with rfl | rfl
      · exact hsorted
      · rw [List.pairwise_append]
        refine ⟨hsorted, List.pairwise_singleton _ _, fun x hx y hy => ?_⟩
        obtain ⟨e, he, rfl⟩ := hpast x hx
        rw [List.mem_singleton.mp hy]
        exact hlast e he
    · exact hs.sorted k l (hother k l hk hl)
  · by_cases hk : k = c.key
    · subst hk
      rcases hself l hl with rfl | rfl
      · exact hnow x (List.mem_append_left _ hx)
      · exact hnow x hx
    · obtain ⟨e, he, rfl⟩ := hs.past k l (hother k l hk hl) x hx
      exact ⟨e, List.mem_append_left _ he, rfl⟩

theorem sound_run (maxKeys : ℤ) {calls : List (Call κ)} (ho : Ordered calls) :
    Sound ((limiter κ maxKeys).trace [] calls) ((limiter κ maxKeys).run [] calls) := by
  have hinv := (limiter κ maxKeys).history_invariant (s := [])
    (P := fun h hits => Ordered (h.map Prod.fst) → Sound h hits)
    (fun _ => ⟨List.nodup_nil, by simp [OrderedDict.get], by simp [OrderedDict.get]⟩)
    (fun h hits c ih ho => (ih ho.earlier.1).step maxKeys c ho.earlier.2) calls
  rw [trace_calls] at hinv
  exact hinv ho

/-! ### One limit for each key -/

/-- Every call on a key brings the limit and the window of the key. -/
structure Regular (limit window : κ → ℤ) (calls : List (Call κ)) : Prop where
  limit_pos : ∀ k, 1 ≤ limit k
  window_pos : ∀ k, 1 ≤ window k
  calls : ∀ c ∈ calls, c.limit = limit c.key ∧ c.window = window c.key

/-- What the limiter knows of a key: the admitted times but for those that no
later window reaches. -/
structure Tracks (n : ℕ) (w : ℚ) (k : κ) (h : List (Call κ × Reply)) (hits : Hits κ) : Prop where
  split : ∃ old, admitted k h = old ++ (get k hits).getD [] ∧ ∀ x ∈ old, ∃ e ∈ h, x ≤ e.1.now - w
  within : Within n w (admitted k h)

section Window
variable {h : List (Call κ × Reply)} {hits : Hits κ} {maxKeys : ℤ} {c : Call κ}

/-- The kept hits of a call are the admitted times in the window before it. -/
theorem Tracks.window {n : ℕ} (ht : Tracks n c.window' c.key h hits) (hs : Sound h hits)
    (hlast : ∀ e ∈ h, e.1.now ≤ c.now) : inWindow c.window' c.now (admitted c.key h) = kept c hits := by
  obtain ⟨old, hadm, hold⟩ := ht.split
  obtain ⟨-, hafter, hpast⟩ := hs.kept c
  obtain ⟨out, hout, hcut⟩ := recent_split (c.now - c.window') ((get c.key hits).getD [])
  have hkept : (get c.key hits).getD [] = out ++ kept c hits := hout
  rw [hadm, hkept, ← List.append_assoc]
  refine inWindow_of_split (fun x hx => ?_) fun x hx => ⟨hafter x hx, ?_⟩
  · rcases List.mem_append.mp hx with hx | hx
    · obtain ⟨e, he, hle⟩ := hold x hx
      exact hle.trans (sub_le_sub_right (hlast e he) _)
    · exact hcut x hx
  · obtain ⟨e, he, rfl⟩ := hpast x hx
    exact hlast e he

/-- A call on the key, when nothing is evicted. -/
theorem Tracks.step {n : ℕ} (ht : Tracks n c.window' c.key h hits) (hs : Sound h hits)
    (hlast : ∀ e ∈ h, e.1.now ≤ c.now) (hn : c.limit' = n)
    (hroom : (put c.key (kept c hits ++ [c.now]) hits).length ≤ keyBound maxKeys) :
    Tracks n c.window' c.key (h ++ [((limiter κ maxKeys).step hits c).2]) ((limiter κ maxKeys).step hits c).1 := by
  obtain ⟨old, hadm, hold⟩ := ht.split
  obtain ⟨out, hout, hcut⟩ := recent_split (c.now - c.window') ((get c.key hits).getD [])
  have hkept : admitted c.key h = (old ++ out) ++ kept c hits := by
    rw [hadm, List.append_assoc]
    exact congrArg _ hout
  have hold' : ∀ e, e.1 = c → ∀ x ∈ old ++ out, ∃ d ∈ h ++ [e], x ≤ d.1.now - c.window' := by
    intro e he x hx
    rcases List.mem_append.mp hx with hx | hx
    · obtain ⟨d, hd, hle⟩ := hold x hx
      exact ⟨d, List.mem_append_left _ hd, hle⟩
    · refine ⟨e, List.mem_append_right _ (List.mem_singleton_self _), ?_⟩
      rw [he]
      exact hcut x hx
  rcases acquire_cases maxKeys c hits with ⟨-, hdenied, hstate⟩ | ⟨hlt, hallowed, hstate⟩
  · have hsame : admitted c.key (h ++ [((limiter κ maxKeys).step hits c).2]) = admitted c.key h := by
      rw [admitted_snoc, if_neg]
      rintro ⟨-, hall⟩
      rw [show ((limiter κ maxKeys).step hits c).2.2.allowed = false from hdenied] at hall
      cases hall
    refine ⟨⟨old ++ out, ?_, hold' _ rfl⟩, ?_⟩
    · rw [hsame, show ((limiter κ maxKeys).step hits c).1 = _ from hstate, get_put_self]
      exact hkept
    · rw [hsame]
      exact ht.within
  · have hnew : admitted c.key (h ++ [((limiter κ maxKeys).step hits c).2]) = admitted c.key h ++ [c.now] := by
      rw [admitted_snoc, if_pos ⟨rfl, hallowed⟩]
      rfl
    refine ⟨⟨old ++ out, ?_, hold' _ rfl⟩, ?_⟩
    · rw [hnew, hkept, show ((limiter κ maxKeys).step hits c).1 = _ from hstate, evict_of_length_le hroom, get_put_self]
      rw [List.append_assoc]
      rfl
    · rw [hnew]
      refine ht.within.snoc (fun x hx => ?_) ?_
      · obtain ⟨e, he, rfl⟩ := mem_admitted hx
        exact hlast e he
      · rw [ht.window hs hlast, ← hn]
        exact hlt

/-- A call on another key, when nothing is evicted. -/
theorem Tracks.step_ne {n : ℕ} {w : ℚ} {k : κ} (ht : Tracks n w k h hits) (hk : k ≠ c.key)
    (hroom : (put c.key (kept c hits ++ [c.now]) hits).length ≤ keyBound maxKeys) :
    Tracks n w k (h ++ [((limiter κ maxKeys).step hits c).2]) ((limiter κ maxKeys).step hits c).1 := by
  have hsame : admitted k (h ++ [((limiter κ maxKeys).step hits c).2]) = admitted k h := by
    rw [admitted_snoc, if_neg]
    rintro ⟨he, -⟩
    exact hk he.symm
  have hget : get k ((limiter κ maxKeys).step hits c).1 = get k hits := by
    rcases acquire_cases maxKeys c hits with ⟨-, -, hstate⟩ | ⟨-, -, hstate⟩
    · rw [show ((limiter κ maxKeys).step hits c).1 = _ from hstate, get_put_ne hk]
    · rw [show ((limiter κ maxKeys).step hits c).1 = _ from hstate, evict_of_length_le hroom, get_put_ne hk]
  obtain ⟨old, hadm, hold⟩ := ht.split
  refine ⟨⟨old, ?_, fun x hx => ?_⟩, ?_⟩
  · rw [hsame, hget]
    exact hadm
  · obtain ⟨e, he, hle⟩ := hold x hx
    exact ⟨e, List.mem_append_left _ he, hle⟩
  · rw [hsame]
    exact ht.within

end Window

/-- Few enough keys: the limiter never has to evict. -/
theorem length_le_of_keys {S : Finset κ} {hits : Hits κ} (hd : (keys hits).Nodup) (hS : ∀ k ∈ keys hits, k ∈ S) :
    hits.length ≤ S.card := by
  have hlen : hits.length = (keys hits).length := by simp [keys]
  rw [hlen, ← List.toFinset_card_of_nodup hd]
  exact Finset.card_le_card fun k hk => hS k (List.mem_toFinset.mp hk)

theorem keys_step {maxKeys : ℤ} {hits : Hits κ} {c : Call κ} {k : κ}
    (hk : k ∈ keys ((limiter κ maxKeys).step hits c).1) : k = c.key ∨ k ∈ keys hits := by
  rcases acquire_cases maxKeys c hits with ⟨-, -, hstate⟩ | ⟨-, -, hstate⟩
  · rw [show ((limiter κ maxKeys).step hits c).1 = _ from hstate] at hk
    exact mem_keys_put.mp hk
  · rw [show ((limiter κ maxKeys).step hits c).1 = _ from hstate] at hk
    exact mem_keys_put.mp (((evict_sublist _ _).map Prod.fst).mem hk)

/-- The invariant of histories in which every key keeps its limit and all keys fit. -/
structure Exact (limit window : κ → ℤ) (S : Finset κ) (h : List (Call κ × Reply)) (hits : Hits κ) : Prop where
  sound : Sound h hits
  keys : ∀ k ∈ keys hits, k ∈ S
  tracks : ∀ k, Tracks (limit k).toNat (window k) k h hits

omit [DecidableEq κ] in
theorem Regular.call {limit window : κ → ℤ} {calls : List (Call κ)} (hr : Regular limit window calls) {c : Call κ}
    (hc : c ∈ calls) : c.limit' = (limit c.key).toNat ∧ c.window' = window c.key := by
  obtain ⟨hl, hw⟩ := hr.calls c hc
  have hlpos := hr.limit_pos c.key
  have hwpos := hr.window_pos c.key
  unfold Call.limit' Call.window'
  rw [hl, hw, max_eq_right hlpos, max_eq_right hwpos]
  exact ⟨rfl, rfl⟩

theorem exact_run {limit window : κ → ℤ} {maxKeys : ℤ} {S : Finset κ} {calls : List (Call κ)} (ho : Ordered calls)
    (hr : Regular limit window calls) (hS : ∀ c ∈ calls, c.key ∈ S) (hcard : S.card ≤ keyBound maxKeys) :
    Exact limit window S ((limiter κ maxKeys).trace [] calls) ((limiter κ maxKeys).run [] calls) := by
  have hinv := (limiter κ maxKeys).history_invariant (s := [])
    (P := fun h hits => Ordered (h.map Prod.fst) → (∀ e ∈ h, e.1 ∈ calls) → Exact limit window S h hits)
    (fun _ _ => ⟨⟨List.nodup_nil, by simp [OrderedDict.get], by simp [OrderedDict.get]⟩, by simp [OrderedDict.keys],
      fun k => ⟨⟨[], by simp [admitted, OrderedDict.get], by simp⟩, within_nil _ _⟩⟩)
    (fun h hits c ih ho hin => by
      obtain ⟨hprev, hlast⟩ := ho.earlier
      have hx := ih hprev fun e he => hin e (List.mem_append_left _ he)
      have hc : c ∈ calls := hin _ (List.mem_append_right _ (List.mem_singleton_self _))
      obtain ⟨hlimit, hwindow⟩ := hr.call hc
      have hroom : (put c.key (kept c hits ++ [c.now]) hits).length ≤ keyBound maxKeys := by
        refine (length_le_of_keys (S := S) (nodup_put hx.sound.nodup _ _) fun k hk => ?_).trans hcard
        rcases mem_keys_put.mp hk with rfl | hk
        · exact hS c hc
        · exact hx.keys k hk
      refine ⟨hx.sound.step maxKeys c hlast, fun k hk => ?_, fun k => ?_⟩
      · rcases keys_step hk with rfl | hk
        · exact hS c hc
        · exact hx.keys k hk
      · by_cases hk : k = c.key
        · subst hk
          have ht := hx.tracks c.key
          rw [← hwindow] at ht ⊢
          exact ht.step hx.sound hlast hlimit hroom
        · exact (hx.tracks k).step_ne hk hroom) calls
  rw [trace_calls] at hinv
  refine hinv ho fun e he => ?_
  have hmem := List.mem_map_of_mem (f := Prod.fst) he
  rwa [trace_calls] at hmem

theorem run_length (maxKeys : ℤ) (calls : List (Call κ)) :
    ((limiter κ maxKeys).run [] calls).length ≤ keyBound maxKeys :=
  (limiter κ maxKeys).run_invariant (P := fun hits => hits.length ≤ keyBound maxKeys)
    (fun _ _ h => length_acquire h) [] calls (Nat.zero_le _)

omit [DecidableEq κ] in
theorem Regular.sublist {limit window : κ → ℤ} {calls calls' : List (Call κ)} (hr : Regular limit window calls)
    (hsub : ∀ c ∈ calls', c ∈ calls) : Regular limit window calls' :=
  ⟨hr.limit_pos, hr.window_pos, fun c hc => hr.calls c (hsub c hc)⟩

/-- The limiter never holds more keys than its bound. While every key keeps one
limit and one window and all keys fit, no window of a key holds more allowed calls
than its limit, and a call is denied only when that many were allowed in the
window before it. -/
theorem sliding_window_limit (maxKeys : ℤ) (limit window : κ → ℤ) (calls : List (Call κ)) :
    let h := (limiter κ maxKeys).trace [] calls
    ((limiter κ maxKeys).run [] calls).length ≤ keyBound maxKeys ∧
    (Ordered calls → Regular limit window calls → (calls.map Call.key).toFinset.card ≤ keyBound maxKeys →
      (∀ k t, ((inWindow (window k : ℚ) t (admitted k h)).length : ℤ) ≤ limit k) ∧
      ∀ pre e post, h = pre ++ e :: post → e.2.allowed = false →
        ((inWindow (window e.1.key : ℚ) e.1.now (admitted e.1.key pre)).length : ℤ) = limit e.1.key) := by
  intro h
  refine ⟨run_length maxKeys calls, fun ho hr hcard => ?_⟩
  have hmem : ∀ c ∈ calls, c.key ∈ (calls.map Call.key).toFinset := by
    intro c hc
    exact List.mem_toFinset.mpr (List.mem_map_of_mem hc)
  have hlimit : ∀ k, ((limit k).toNat : ℤ) = limit k := by
    intro k
    have hpos := hr.limit_pos k
    omega
  refine ⟨fun k t => ?_, fun pre e post heq hdenied => ?_⟩
  · have hle := ((exact_run ho hr hmem hcard).tracks k).within t
    rw [← hlimit k]
    exact_mod_cast hle
  · obtain ⟨before, c, after, rfl, rfl, rfl, -⟩ := (limiter κ maxKeys).trace_split heq
    rw [Ordered, List.pairwise_append] at ho
    have hx := exact_run ho.1 (hr.sublist fun d hd => List.mem_append_left _ hd)
      (fun d hd => hmem d (List.mem_append_left _ hd)) hcard
    obtain ⟨hl, hw⟩ := hr.call (c := c) (by simp)
    have hlast : ∀ e ∈ (limiter κ maxKeys).trace [] before, e.1.now ≤ c.now := by
      intro e he
      have hb : e.1 ∈ before := by
        have hfst := List.mem_map_of_mem (f := Prod.fst) he
        rwa [trace_calls] at hfst
      exact ho.2.2 e.1 hb c (List.mem_cons_self ..)
    have ht := hx.tracks c.key
    rw [← hw] at ht
    have hwindow := ht.window hx.sound hlast
    have hfull : c.limit' ≤ (kept c ((limiter κ maxKeys).run [] before)).length := by
      by_contra hlt
      have hall := (acquire_allowed maxKeys c ((limiter κ maxKeys).run [] before)).mpr (not_le.mp hlt)
      rw [show ((limiter κ maxKeys).step _ c).2.2.allowed = true from hall] at hdenied
      cases hdenied
    have hle := ht.within c.now
    change ((inWindow (window c.key : ℚ) c.now (admitted c.key ((limiter κ maxKeys).trace [] before))).length : ℤ) = limit c.key
    rw [← hw, ← hlimit c.key]
    rw [hwindow] at hle ⊢
    omega

/-! ### `retry_after` -/

/-- When the call is denied with `retry_after` r: whatever calls follow, the same
call r seconds later or later still is allowed, if no call on the key was admitted
in between. -/
def RetryHonest (maxKeys : ℤ) (c : Call κ) (hits : Hits κ) : Prop :=
  (acquire maxKeys c hits).1.allowed = false →
    ∀ (later : List (Call κ)) (s : ℚ), Ordered (c :: (later ++ [{ c with now := s }])) →
      (∀ e ∈ (limiter κ maxKeys).trace (acquire maxKeys c hits).2 later, e.1.key = c.key → e.2.allowed = false) →
      c.now + (acquire maxKeys c hits).1.retryAfter ≤ s →
      (acquire maxKeys { c with now := s } ((limiter κ maxKeys).run (acquire maxKeys c hits).2 later)).1.allowed = true

/-- Of the hits in the window, the one the limit counts from (the oldest, if no more
than `limit` hits are there) leaves the window by the first whole second, counted
from the call, after the oldest hit has left it. -/
def LeavesWithOldest (c : Call κ) (hits : Hits κ) : Prop :=
  ∀ x ∈ (kept c hits)[(kept c hits).length - c.limit']?,
    x + c.window' ≤ c.now + (⌊(kept c hits).headD 0 + c.window' - c.now⌋ + 1)

instance (c : Call κ) (hits : Hits κ) : Decidable (LeavesWithOldest c hits) :=
  inferInstanceAs (Decidable (∀ x ∈ (kept c hits)[(kept c hits).length - c.limit']?, _))

section Retry
variable {h : List (Call κ × Reply)} {hits : Hits κ} {maxKeys : ℤ} {c : Call κ}

theorem oldest_after (hs : Sound h hits) (hne : kept c hits ≠ []) :
    0 < (kept c hits).headD 0 + c.window' - c.now := by
  obtain ⟨-, hafter, -⟩ := hs.kept c
  obtain ⟨x, l, hl⟩ := List.exists_cons_of_ne_nil hne
  have hx := hafter x (by rw [hl]; exact List.mem_cons_self ..)
  rw [hl, List.headD_cons]
  linarith

theorem retryAfter_eq (hs : Sound h hits) (hfull : c.limit' ≤ (kept c hits).length) :
    (acquire maxKeys c hits).1.retryAfter = ⌊(kept c hits).headD 0 + c.window' - c.now⌋ + 1 := by
  have hne : kept c hits ≠ [] := by
    rintro hnil
    rw [hnil, List.length_nil] at hfull
    have hpos := limit_pos c
    omega
  have hpos := oldest_after hs hne
  have hfloor : 0 ≤ ⌊(kept c hits).headD 0 + c.window' - c.now⌋ := Int.floor_nonneg.mpr hpos.le
  unfold acquire
  simp only [if_pos hfull, truncate, if_pos hpos.le]
  omega

/-- A call whose limit is not exceeded has its hit to wait for at the front. -/
theorem leaves_of_room (hle : (kept c hits).length ≤ c.limit') : LeavesWithOldest c hits := by
  intro x hx
  rw [Nat.sub_eq_zero_of_le hle] at hx
  have hne : kept c hits ≠ [] := by
    rintro hnil
    rw [hnil] at hx
    cases hx
  obtain ⟨y, l, hl⟩ := List.exists_cons_of_ne_nil hne
  rw [hl, List.getElem?_cons_zero, Option.mem_some_iff] at hx
  subst hx
  have hlt := Int.lt_floor_add_one ((kept c hits).headD 0 + c.window' - c.now)
  rw [hl, List.headD_cons] at hlt ⊢
  linarith

/-- What later calls leave of the hits of a key on which none of them is admitted. -/
theorem suffix_run {k : κ} {l : List ℚ} (later : List (Call κ)) {hits : Hits κ} (hd : (keys hits).Nodup)
    (hl : ∀ m, get k hits = some m → m <:+ l)
    (hdenied : ∀ e ∈ (limiter κ maxKeys).trace hits later, e.1.key = k → e.2.allowed = false) :
    ∀ m, get k ((limiter κ maxKeys).run hits later) = some m → m <:+ l := by
  induction later generalizing hits with
  | nil => exact hl
  | cons d later ih =>
    refine ih (nodup_acquire hd maxKeys) (fun m hm => ?_) fun e he => hdenied e (List.mem_cons_of_mem _ he)
    by_cases hk : k = d.key
    · subst hk
      have hno : (acquire maxKeys d hits).1.allowed = false := hdenied _ (List.mem_cons_self ..) rfl
      rcases acquire_cases maxKeys d hits with ⟨hfull, -, hstate⟩ | ⟨-, hyes, -⟩
      · rw [show ((limiter κ maxKeys).step hits d).1 = _ from hstate, get_put_self] at hm
        obtain ⟨m', hm'⟩ := Option.ne_none_iff_exists'.mp (mt get_none.mp (not_not_intro (mem_keys_of_full hfull)))
        have hsuf : kept d hits <:+ m' := by
          unfold kept
          rw [hm']
          exact recent_suffix _ _
        rw [← Option.some.inj hm]
        exact hsuf.trans (hl m' hm')
      · rw [hno] at hyes
        cases hyes
    · rcases get_acquire_ne (c := d) hd maxKeys hk with he | he
      · rw [show get k ((limiter κ maxKeys).step hits d).1 = _ from he] at hm
        exact hl m hm
      · rw [show get k ((limiter κ maxKeys).step hits d).1 = none from he] at hm
        cases hm

/-- The entry a denied call leaves. -/
theorem get_denied (hfull : c.limit' ≤ (kept c hits).length) :
    get c.key (acquire maxKeys c hits).2 = some (kept c hits) := by
  rcases acquire_cases maxKeys c hits with ⟨-, -, hstate⟩ | ⟨hlt, -, -⟩
  · rw [hstate, get_put_self]
  · omega

/-- Seen from the end, an entry of a list lies in every suffix that is long enough. -/
theorem mem_suffix_of_index {l pre suf : List ℚ} {n : ℕ} (hl : l = pre ++ suf) (hn : n ≤ suf.length) {x : ℚ}
    (hx : x ∈ l[l.length - n]?) : x ∈ suf := by
  subst hl
  rw [List.length_append, List.getElem?_append_right (by omega)] at hx
  exact List.mem_of_getElem? hx

theorem mem_prefix_of_index {l pre suf : List ℚ} {n : ℕ} (hl : l = pre ++ suf) (hn : suf.length < n)
    (hle : n ≤ l.length) {x : ℚ} (hx : x ∈ l[l.length - n]?) : x ∈ pre := by
  subst hl
  rw [List.length_append] at hx hle
  rw [List.getElem?_append_left (by omega)] at hx
  exact List.mem_of_getElem? hx

theorem retryHonest_iff (hs : Sound h hits) : RetryHonest maxKeys c hits ↔ LeavesWithOldest c hits := by
  by_cases hfull : c.limit' ≤ (kept c hits).length
  · have hretry : (acquire maxKeys c hits).1.retryAfter = _ := retryAfter_eq hs hfull
    have hdenied : (acquire maxKeys c hits).1.allowed = false := by
      rcases acquire_cases maxKeys c hits with ⟨-, hf, -⟩ | ⟨hlt, -, -⟩
      · exact hf
      · omega
    constructor
    · intro hhonest x hx
      let s : ℚ := c.now + (acquire maxKeys c hits).1.retryAfter
      have hlater : c.now ≤ s := by
        have hpos : 0 ≤ (acquire maxKeys c hits).1.retryAfter := by
          simp only [acquire, if_pos hfull]
          omega
        have hcast : (0 : ℚ) ≤ (acquire maxKeys c hits).1.retryAfter := by exact_mod_cast hpos
        exact le_add_of_nonneg_right hcast
      have hall := hhonest hdenied [] s (by simpa [Ordered] using hlater) (by simp) le_rfl
      rw [acquire_allowed] at hall
      have hkept : kept { c with now := s } (acquire maxKeys c hits).2 = recent (s - c.window') (kept c hits) := by
        rw [kept, get_denied hfull]
        rfl
      rw [Machine.run_nil, hkept] at hall
      obtain ⟨old, hsplit, hold⟩ := recent_split (s - c.window') (kept c hits)
      have hmem : x ∈ old := mem_prefix_of_index hsplit hall hfull hx
      have hle := hold x hmem
      have hs' : s = c.now + (⌊(kept c hits).headD 0 + c.window' - c.now⌋ + 1 : ℤ) := by
        rw [← hretry]
      push_cast at hs'
      linarith
    · intro hleaves _ later s _ hquiet hwait
      rw [acquire_allowed]
      by_contra hlong
      have hsuf := suffix_run later (nodup_acquire hs.nodup maxKeys) (l := kept c hits) (fun m hm => by
        rw [get_denied hfull] at hm
        rw [← Option.some.inj hm]) hquiet
      obtain ⟨hsorted, -, -⟩ := hs.kept c
      have hlong' : c.limit' ≤ (recent (s - c.window') ((get c.key
          ((limiter κ maxKeys).run (acquire maxKeys c hits).2 later)).getD [])).length := not_lt.mp hlong
      cases hm : get c.key ((limiter κ maxKeys).run (acquire maxKeys c hits).2 later) with
      | none =>
        rw [hm] at hlong'
        have hpos := limit_pos c
        simp [recent] at hlong'
        omega
      | some m =>
        rw [hm, Option.getD_some] at hlong'
        have hmsuf := hsuf m hm
        obtain ⟨pre, hpre⟩ := (recent_suffix (s - c.window') m).trans hmsuf
        have hin : (kept c hits).length - c.limit' < (kept c hits).length := by
          have hpos := limit_pos c
          omega
        have hx := mem_suffix_of_index hpre.symm hlong' (List.getElem?_eq_getElem hin)
        have hafter := recent_after (hsorted.sublist hmsuf.sublist) _ hx
        have hdue := hleaves _ (List.getElem?_eq_getElem hin)
        rw [hretry] at hwait
        push_cast at hwait
        linarith
  · have hall : (acquire maxKeys c hits).1.allowed = true := (acquire_allowed _ _ _).mpr (not_le.mp hfull)
    refine iff_of_true (fun hno => ?_) (leaves_of_room (not_le.mp hfull).le)
    rw [hall] at hno
    cases hno

end Retry

/-- In every history, for calls with any limits and windows: the wait a denied call
is told is long enough exactly when the hit its limit counts from leaves the window
within the whole second after the oldest one. -/
theorem retry_after_honest_iff (maxKeys : ℤ) (calls : List (Call κ)) (c : Call κ) (ho : Ordered (calls ++ [c])) :
    RetryHonest maxKeys c ((limiter κ maxKeys).run [] calls) ↔
      LeavesWithOldest c ((limiter κ maxKeys).run [] calls) := by
  rw [Ordered, List.pairwise_append] at ho
  exact retryHonest_iff (sound_run maxKeys ho.1)

/-- A peer's calls on the default class: one, and thirty half a minute later. -/
def defaultCalls : List (Call ℕ) := ⟨0, 120, 60, 0⟩ :: List.replicate 30 ⟨0, 120, 60, 30⟩

/-- A login of the same peer, in the class with limit 30. -/
def authCall : Call ℕ := ⟨0, 30, 60, 40⟩

theorem retry_after_honest_iff_auth : RetryHonest 10000 authCall ((limiter ℕ 10000).run [] defaultCalls) ↔
    LeavesWithOldest authCall ((limiter ℕ 10000).run [] defaultCalls) :=
  retry_after_honest_iff 10000 defaultCalls authCall (by decide +kernel)

/-- The login is told to wait 21 seconds; then thirty hits are still in the window. -/
theorem auth_retry_denied : ¬ RetryHonest 10000 authCall ((limiter ℕ 10000).run [] defaultCalls) := by
  intro h
  have hdenied : (acquire 10000 authCall ((limiter ℕ 10000).run [] defaultCalls)).1.allowed = false := by decide +kernel
  have hwait : authCall.now + (acquire 10000 authCall ((limiter ℕ 10000).run [] defaultCalls)).1.retryAfter ≤ 61 := by
    decide +kernel
  have hagain := h hdenied [] 61 (by decide +kernel) (by simp) hwait
  revert hagain
  decide +kernel

end AgentWorkflow.ControlPlane.RateLimiter
