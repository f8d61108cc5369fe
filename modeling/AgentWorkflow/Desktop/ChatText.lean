import AgentWorkflow.Lib.Numbered

/-!
# Texts and chunks of the chat store

Every character remembers the thread it belongs to (`owner`); the code keeps plain
strings. A chunk is what both transports hand to `_ingestChunk`.
-/

namespace AgentWorkflow.Desktop.Chat
open AgentWorkflow.Lib AgentWorkflow.Lib.Calendar

abbrev ThreadId := Text
abbrev ConvId := Text

structure Glyph where
  char : Char
  owner : ThreadId
deriving DecidableEq

abbrev Content := List Glyph

def tag (owner : ThreadId) (t : Text) : Content := t.map fun c => ⟨c, owner⟩

def plain (c : Content) : Text := c.map Glyph.char

def OwnedBy (owner : ThreadId) (c : Content) : Prop := ∀ g ∈ c, g.owner = owner

/-- White space and line terminators of the language. -/
def isSpace (c : Char) : Bool :=
  c.toNat ∈ [9, 10, 11, 12, 13, 32, 0xA0, 0x1680, 0x2028, 0x2029, 0x202F, 0x205F, 0x3000, 0xFEFF] ||
    decide (0x2000 ≤ c.toNat ∧ c.toNat ≤ 0x200A)

/-- `.trim()` -/
def trim (c : Content) : Content :=
  ((c.dropWhile fun g => isSpace g.char).reverse.dropWhile fun g => isSpace g.char).reverse

def Spaces (c : Content) : Prop := ∀ g ∈ c, isSpace g.char = true

theorem spaces_append {a b : Content} : Spaces (a ++ b) ↔ Spaces a ∧ Spaces b := List.forall_mem_append

theorem trim_split (c : Content) : ∃ lead trail, c = lead ++ trim c ++ trail ∧ Spaces lead ∧ Spaces trail := by
  let p : Glyph → Bool := fun g => isSpace g.char
  have hspaces : ∀ t : Content, Spaces (t.takeWhile p) := fun t g hg => List.mem_takeWhile_imp (p := p) hg
  refine ⟨c.takeWhile p, ((c.dropWhile p).reverse.takeWhile p).reverse, ?_, hspaces c, ?_⟩
  · have hback : trim c ++ ((c.dropWhile p).reverse.takeWhile p).reverse = c.dropWhile p := by
      change ((c.dropWhile p).reverse.dropWhile p).reverse ++ ((c.dropWhile p).reverse.takeWhile p).reverse = _
      rw [← List.reverse_append, List.takeWhile_append_dropWhile, List.reverse_reverse]
    rw [List.append_assoc, hback, List.takeWhile_append_dropWhile]
  · intro g hg
    exact hspaces _ g (List.mem_reverse.mp hg)

theorem trim_eq_nil_iff (c : Content) : trim c = [] ↔ Spaces c := by
  constructor
  · intro h
    obtain ⟨lead, trail, hc, hlead, htrail⟩ := trim_split c
    rw [hc, h, List.append_nil]
    exact spaces_append.mpr ⟨hlead, htrail⟩
  · intro h
    have hdrop : (c.dropWhile fun g => isSpace g.char) = [] := List.dropWhile_eq_nil_iff.mpr h
    rw [trim, hdrop]
    rfl

/-- What is seen of a text. -/
def visible (c : Content) : Content := c.filter fun g => !isSpace g.char

theorem visible_append (a b : Content) : visible (a ++ b) = visible a ++ visible b := List.filter_append ..

theorem visible_nil : visible [] = [] := rfl

/-- Only what has nothing to see is trimmed away. -/
theorem visible_of_trim {c : Content} (h : trim c = []) : visible c = [] := by
  rw [visible, List.filter_eq_nil_iff]
  intro g hg
  simp [(trim_eq_nil_iff c).mp h g hg]

theorem ownedBy_tag (owner : ThreadId) (t : Text) : OwnedBy owner (tag owner t) := by
  intro g hg
  obtain ⟨c, -, rfl⟩ := List.mem_map.mp hg
  rfl

theorem ownedBy_nil (owner : ThreadId) : OwnedBy owner [] := by
  intro g hg
  cases hg

theorem OwnedBy.append {owner : ThreadId} {a b : Content} (ha : OwnedBy owner a) (hb : OwnedBy owner b) :
    OwnedBy owner (a ++ b) := by
  intro g hg
  cases List.mem_append.mp hg with
  | inl h => exact ha g h
  | inr h => exact hb g h

theorem OwnedBy.trim {owner : ThreadId} {c : Content} (h : OwnedBy owner c) : OwnedBy owner (trim c) := by
  intro g hg
  unfold Chat.trim at hg
  rw [List.mem_reverse] at hg
  have hmem := (List.dropWhile_suffix _).mem hg
  rw [List.mem_reverse] at hmem
  exact h g ((List.dropWhile_suffix _).mem hmem)

inductive Role where
  | user
  | assistant
deriving DecidableEq

structure Message where
  role : Role
  content : Content
deriving DecidableEq

def AllOwnedBy (owner : ThreadId) (ms : List Message) : Prop := ∀ m ∈ ms, OwnedBy owner m.content

theorem allOwnedBy_nil (owner : ThreadId) : AllOwnedBy owner [] := by
  intro m hm
  cases hm

theorem AllOwnedBy.snoc {owner : ThreadId} {ms : List Message} (h : AllOwnedBy owner ms) {role : Role} {c : Content}
    (hc : OwnedBy owner c) : AllOwnedBy owner (ms ++ [⟨role, c⟩]) := by
  intro m hm
  cases List.mem_append.mp hm with
  | inl h' => exact h m h'
  | inr h' =>
    rw [List.mem_singleton.mp h']
    exact hc

/-! ### Chunks -/

structure ErrorInfo where
  code : Option Text
  message : Text
deriving DecidableEq

inductive ChunkType where
  | messageStart
  | ccStatus
  | error
  | modeSwitch
  | other
deriving DecidableEq

structure Choice where
  content : Option Text
  stop : Bool
deriving DecidableEq

structure Chunk where
  type : ChunkType
  -- `target === 'local_cc'`
  toLocalCc : Bool
  label : Text
  tool : Option Text
  delta : Option Text
  choice : Option Choice
  done : Bool
  conversationId : Option ConvId
  ccSessionId : Option Text
  code : Option Text
  message : Option Text
  error : Option Text
deriving DecidableEq

def Chunk.empty : Chunk := ⟨.other, false, [], none, none, none, false, none, none, none, none, none⟩

def Chunk.finished (c : Chunk) : Bool := c.done || (c.choice.map Choice.stop).getD false

/-- The text a chunk adds to the reply in the active view. -/
def Chunk.text (c : Chunk) : Text := c.delta.getD [] ++ ((c.choice.bind Choice.content).getD [])

/-- The text a chunk adds to the reply of a background thread. -/
def Chunk.backgroundText (c : Chunk) : Text :=
  match c.delta with
  | some t => t
  | none => (c.choice.bind Choice.content).getD []

def isAlnum (c : Char) : Bool :=
  (decide ('0' ≤ c) && decide (c ≤ '9')) || (decide ('a' ≤ c) && decide (c ≤ 'z')) ||
    (decide ('A' ≤ c) && decide (c ≤ 'Z'))

def isLineEnd (c : Char) : Bool := c.toNat ∈ [10, 13, 0x2028, 0x2029]

/-- `delta.match(/^\s*(E-[A-Z0-9]{4,12})\b\s*:?\s*(.*)/i)`. A word boundary ends the
code, so the run of letters and digits is matched as a whole. -/
def errorCode (delta : Text) : Option ErrorInfo :=
  match delta.dropWhile isSpace with
  | e :: '-' :: rest =>
    let run := rest.takeWhile isAlnum
    let after := rest.drop run.length
    if (e = 'E' ∨ e = 'e') ∧ 4 ≤ run.length ∧ run.length ≤ 12 ∧ after.head? ≠ some '_' then
      let tail := after.dropWhile isSpace
      let tail := (if tail.head? = some ':' then tail.drop 1 else tail).dropWhile isSpace
      let message := tail.takeWhile fun c => !isLineEnd c
      some ⟨some (e :: '-' :: run), if message = [] then delta else message⟩
    else none
  | _ => none

/-- `_extractErrorChunk` -/
def extractErrorChunk (c : Chunk) : Option ErrorInfo :=
  if c.type = .error then some ⟨c.code, (c.message.or c.error).getD "Unknown error".toList⟩
  else
    match c.error with
    | some (x :: e) => some ⟨none, x :: e⟩
    | _ => errorCode (c.delta.getD [])

/-- The chunk ends the turn it is for. -/
def Chunk.terminal (c : Chunk) : Bool := c.finished || (extractErrorChunk c).isSome

/-! ### Thread ids -/

def threadPrefix : Text := "thread-".toList

/-- `thread-${n}` -/
def threadId (n : ℕ) : ThreadId := threadPrefix ++ Numbered.zeroPadded 1 n

theorem threadId_injective : Function.Injective threadId := by
  intro m n h
  have hdigits := congrArg Numbered.value (List.append_cancel_left h)
  rwa [Numbered.value_zeroPadded, Numbered.value_zeroPadded] at hdigits

/-- The number of `id.match(/thread-(\d+)/)` -/
def threadNumber : Text → Option ℕ
  | [] => none
  | c :: t => (Numbered.matchNumber threadPrefix (c :: t)).or (threadNumber t)

end AgentWorkflow.Desktop.Chat
