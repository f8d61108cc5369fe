import AgentWorkflow.Desktop.ChatSteps

/-!
# Regenerating the last answer

`regenerateLastResponse` pops one message, takes the last user message out of the list
and sends it again. A turn that used tools left more than one answer behind it.
-/

namespace AgentWorkflow.Desktop.Chat
open AgentWorkflow.Lib AgentWorkflow.Lib.Calendar

def isUser (m : Message) : Bool := decide (m.role = .user)

def popAssistant (msgs : List Message) : List Message :=
  match msgs.getLast? with
  | some m => if m.role = .assistant then msgs.dropLast else msgs
  | none => msgs

/-- The last user message and the list without it. -/
def takeLastUser (msgs : List Message) : Option (Message × List Message) :=
  match msgs.reverse.dropWhile fun m => !isUser m with
  | [] => none
  | u :: before => some (u, before.reverse ++ (msgs.reverse.takeWhile fun m => !isUser m).reverse)

namespace System
variable (cfg : Config)

def setMessages (msgs : List Message) (s : System) : System :=
  { s with store := { s.store with view := { s.store.view with messages := msgs } } }

/-- `regenerateLastResponse`; `route` and `lab` are read by `sendMessage`. -/
def regenerateLastResponse (route lab : Bool) (now : Text) (s : System) : System :=
  if s.store.view.streaming then s
  else
    let msgs := popAssistant s.store.view.messages
    match takeLastUser msgs with
    | none => setMessages msgs s
    | some (u, rest) => sendMessage cfg (plain u.content) route lab now (setMessages rest s)

end System

/-! ### The list after it -/

theorem takeLastUser_append {u : Message} (hu : u.role = .user) (pre answers : List Message)
    (ha : ∀ m ∈ answers, m.role = .assistant) : takeLastUser (pre ++ u :: answers) = some (u, pre ++ answers) := by
  have hskip : ∀ m ∈ answers.reverse, (!isUser m) = true := by
    intro m hm
    simp [isUser, ha m (List.mem_reverse.mp hm)]
  have hstop : ¬ (!isUser u) = true := by simp [isUser, hu]
  have hrev : (pre ++ u :: answers).reverse = answers.reverse ++ u :: pre.reverse := by simp
  have hdrop : (answers.reverse ++ u :: pre.reverse).dropWhile (fun m => !isUser m) = u :: pre.reverse := by
    rw [List.dropWhile_append_of_pos hskip, List.dropWhile_cons_of_neg (p := fun m => !isUser m) hstop]
  have htake : (answers.reverse ++ u :: pre.reverse).takeWhile (fun m => !isUser m) = answers.reverse := by
    rw [List.takeWhile_append_of_pos hskip, List.takeWhile_cons_of_neg (p := fun m => !isUser m) hstop, List.append_nil]
  simp only [takeLastUser, hrev, hdrop, htake, List.reverse_reverse]

theorem popAssistant_append {u : Message} (hu : u.role = .user) (pre answers : List Message)
    (ha : ∀ m ∈ answers, m.role = .assistant) :
    popAssistant (pre ++ u :: answers) = pre ++ u :: answers.dropLast := by
  cases answers using List.reverseRecOn with
  | nil => simp [popAssistant, hu]
  | append_singleton as a =>
    have hrole : a.role = .assistant := ha a (by simp)
    have hlast : (pre ++ u :: (as ++ [a])) = (pre ++ u :: as) ++ [a] := by simp
    rw [popAssistant, hlast, List.getLast?_concat, List.dropLast_concat, List.dropLast_concat]
    simp [hrole]

namespace System
variable {cfg : Config}

theorem messages_sendViaLocalCc (turn : ℕ) (content : Content) (lab : Bool) (s : System) :
    (sendViaLocalCc cfg turn content lab s).store.view.messages = s.store.view.messages := by
  unfold sendViaLocalCc
  dsimp only
  split
  · split <;> rfl
  · simp

/-- `sendMessage` adds the message, and nothing else before its first await. -/
theorem messages_sendMessage (content : Text) (route lab : Bool) (now : Text) {s : System}
    (hidle : s.store.view.streaming = false) :
    (sendMessage cfg content route lab now s).store.view.messages =
      s.store.view.messages ++ [⟨.user, tag s.store.activeId content⟩] := by
  have hbegin : (beginTurn content now s.store).view.messages =
      s.store.view.messages ++ [⟨.user, tag s.store.activeId content⟩] := by simp [beginTurn]
  unfold sendMessage
  rw [hidle, if_neg Bool.false_ne_true]
  dsimp only
  split
  · rw [messages_sendViaLocalCc, frame_closeStream]
    exact hbegin
  · rw [← hbegin]
    unfold sendViaHttp
    dsimp only
    rw [frame_closeStream]

end System

def texts (msgs : List Message) : List (Role × Text) := msgs.map fun m => (m.role, plain m.content)

theorem plain_tag (owner : ThreadId) (t : Text) : plain (tag owner t) = t := by
  simp [plain, tag, Function.comp_def]

/-- After a regenerate the list ends with the last user message exactly when one answer
at most stood behind that message. -/
theorem regenerate_replaces_iff (cfg : Config) (route lab : Bool) (now : Text) (s : System) (pre answers : List Message)
    (u : Message) (hidle : s.store.view.streaming = false) (hlist : s.store.view.messages = pre ++ u :: answers)
    (hu : u.role = .user) (ha : ∀ m ∈ answers, m.role = .assistant) :
    texts (System.regenerateLastResponse cfg route lab now s).store.view.messages = texts (pre ++ [u]) ↔
      answers.length ≤ 1 := by
  have ha' : ∀ m ∈ answers.dropLast, m.role = .assistant := fun m hm => ha m (List.mem_of_mem_dropLast hm)
  have hafter : (System.regenerateLastResponse cfg route lab now s).store.view.messages =
      pre ++ answers.dropLast ++ [⟨.user, tag s.store.activeId (plain u.content)⟩] := by
    unfold System.regenerateLastResponse
    rw [hidle, if_neg Bool.false_ne_true]
    simp only [hlist, popAssistant_append hu pre answers ha, takeLastUser_append hu pre _ ha']
    exact System.messages_sendMessage _ route lab now hidle
  have hcopy : texts [⟨.user, tag s.store.activeId (plain u.content)⟩] = texts [u] := by
    simp [texts, plain_tag, hu]
  rw [hafter]
  unfold texts at hcopy ⊢
  rw [List.map_append, List.map_append, List.map_append, hcopy]
  constructor
  · intro h
    have hlen := congrArg List.length h
    simp only [List.length_append, List.length_map, List.length_dropLast, List.length_singleton] at hlen
    omega
  · intro h
    have hnil : answers.dropLast = [] := by
      rw [← List.length_eq_zero_iff, List.length_dropLast]
      omega
    rw [hnil, List.map_nil, List.append_nil]

/-- A turn over HTTP from a fresh store: one answer. -/
def shortTurn : System :=
  (System.machine Config.plain).run (System.init Config.plain [] ∅ [])
    [.sendMessage "Why?".toList false false [], .headers 0 true,
      .line 0 { Chunk.empty with delta := some "So".toList } false [],
      .line 0 { Chunk.empty with done := true } false []]

theorem regenerate_replaces_iff_sample :
    texts (System.regenerateLastResponse Config.plain false false [] shortTurn).store.view.messages =
      texts ([welcomeMessage Config.plain (threadId 1)] ++ [⟨.user, tag (threadId 1) "Why?".toList⟩]) :=
  (regenerate_replaces_iff Config.plain false false [] shortTurn [welcomeMessage Config.plain (threadId 1)]
    [⟨.assistant, tag (threadId 1) "So".toList⟩] ⟨.user, tag (threadId 1) "Why?".toList⟩ (by decide +kernel)
    (by decide +kernel) rfl (by decide)).mpr (by decide)

/-- A turn over HTTP with one tool call, from a fresh store: two answers. -/
def toolTurn : System :=
  (System.machine Config.plain).run (System.init Config.plain [] ∅ [])
    [.sendMessage "Why?".toList false false [], .headers 0 true,
      .line 0 { Chunk.empty with delta := some "One".toList } false [],
      .line 0 { Chunk.empty with type := .ccStatus, label := "Read".toList } false [],
      .line 0 { Chunk.empty with delta := some "Two".toList } false [],
      .line 0 { Chunk.empty with done := true } false []]

/-- The first of the two answers stays, in front of the question. -/
theorem old_answer_left_behind :
    toolTurn.store.view.streaming = false ∧
      texts toolTurn.store.view.messages = [(.assistant, "Hello".toList), (.user, "Why?".toList),
        (.assistant, "One".toList), (.assistant, "Two".toList)] ∧
      texts (System.regenerateLastResponse Config.plain false false [] toolTurn).store.view.messages =
        [(.assistant, "Hello".toList), (.assistant, "One".toList), (.user, "Why?".toList)] := by
  refine ⟨by decide +kernel, by decide +kernel, by decide +kernel⟩

end AgentWorkflow.Desktop.Chat
