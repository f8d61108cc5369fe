import AgentWorkflow.Desktop.CcStdout

/-!
# Output that is too long

The limit is tested on the text that has accumulated, before it is cut into lines, and the
text stays where it is after the report.
-/

namespace AgentWorkflow.Desktop.CcStdout
open AgentWorkflow.Lib AgentWorkflow.Lib.Js AgentWorkflow.Lib.PyStr
open Sse (Bytes Text TextDecoder newline units)

/-! ### Lengths and blanks -/

theorem units_append (s t : Text) : units (s ++ t) = units s + units t := by
  unfold units
  rw [List.flatMap_append, List.length_append]

theorem units_le_of_sublist {s t : Text} (h : s.Sublist t) : units s ≤ units t := by
  unfold units
  exact (h.flatMap _).length_le

theorem lines_sublist (t : Text) :
    (∀ l ∈ JsText.lines newline t, l.Sublist t) ∧ (JsText.remainder newline t).Sublist t := by
  induction hlen : t.length using Nat.strong_induction_on generalizing t with
  | _ n ih =>
    by_cases ht : newline ∈ t
    · obtain ⟨l, rest, rfl, hl⟩ := List.eq_append_cons_of_mem ht
      have hlt : rest.length < n := by
        rw [← hlen, List.length_append, List.length_cons]
        omega
      obtain ⟨hlines, hrest⟩ := ih _ hlt rest rfl
      have hsuffix : rest.Sublist (l ++ newline :: rest) :=
        (List.sublist_cons_self newline rest).trans (List.sublist_append_right l _)
      rw [JsText.lines_line hl, JsText.remainder_line hl]
      refine ⟨?_, hrest.trans hsuffix⟩
      intro k hk
      rcases List.mem_cons.mp hk with rfl | hk
      · exact List.sublist_append_left k _
      · exact (hlines k hk).trans hsuffix
    · rw [JsText.lines_last ht, JsText.remainder_last ht]
      exact ⟨fun l hl => (nomatch hl), List.Sublist.refl t⟩

theorem trimText_eq_nil {t : Text} : trimText t = [] ↔ ∀ c ∈ t, JsText.isSpace c.val = true := by
  unfold trimText JsText.trim
  rw [List.rdropWhile_eq_nil_iff]
  constructor
  · intro h
    have hnone : t.dropWhile (fun c => JsText.isSpace c.val) = [] := by
      cases hd : t.dropWhile (fun c => JsText.isSpace c.val) with
      | nil => rfl
      | cons c r =>
        have hhead := List.head?_dropWhile_not (fun c : CodePoint => JsText.isSpace c.val) t
        rw [hd] at hhead h
        have hc := h c (List.mem_cons_self ..)
        simp [hc] at hhead
    exact List.dropWhile_eq_nil_iff.mp hnone
  · intro h c hc
    exact h c ((List.dropWhile_sublist _).mem hc)

theorem blank_sublist {s t : Text} (h : s.Sublist t) (ht : trimText t = []) : trimText s = [] := by
  rw [trimText_eq_nil] at ht ⊢
  exact fun c hc => ht c (h.mem hc)

/-- What is left of a character is not blank. -/
theorem flush_nil_of_blank {d : TextDecoder} (h : trimText (flush d).1 = []) : (flush d).1 = [] := by
  rw [trimText_eq_nil] at h
  cases hf : (flush d).1 with
  | nil => rfl
  | cons c r =>
    rw [hf] at h
    have hmem : c ∈ (flush d).1 := by
      rw [hf]
      exact List.mem_cons_self ..
    have hchar := Sse.skipMark_subset _ _ _ hmem
    unfold Utf8.finish at hchar
    split at hchar
    · cases hchar
    · have hspace := h c (List.mem_cons_self ..)
      rw [show c = Utf8.replacement from List.mem_singleton.mp hchar] at hspace
      exact absurd hspace (by decide)

theorem handleLines_blank {lines : List Text} (h : ∀ l ∈ lines, trimText l = []) (session : CcSession) :
    handleLines lines session = (session, []) := by
  induction lines with
  | nil => rfl
  | cons l lines ih =>
    have hrest := ih fun k hk => h k (List.mem_cons_of_mem _ hk)
    simp [handleLines, handleLine_blank (h l (List.mem_cons_self ..)), hrest]

/-! ### Chunks that fit -/

/-- The lines of chunks that fit are within the limit. -/
theorem lines_le {chunks : List Bytes} (h : DataFits chunks) :
    (∀ l ∈ JsText.lines newline (text chunks.flatten), units l ≤ STDOUT_OVERSIZE_LIMIT) ∧
      units (JsText.remainder newline (text chunks.flatten)) ≤ STDOUT_OVERSIZE_LIMIT := by
  induction chunks using List.reverseRecOn with
  | nil => exact ⟨fun l hl => (nomatch hl), Nat.zero_le _⟩
  | append_singleton chunks value ih =>
    obtain ⟨hlines, -⟩ := ih fun pre v post heq => h pre v (post ++ [value]) (by rw [heq]; simp)
    have hfits := h chunks value [] rfl
    obtain ⟨hsub, hrest⟩ := lines_sublist (accumulated chunks.flatten value)
    obtain ⟨-, hsplit, hremainder⟩ := lines_text_append chunks.flatten value
    rw [List.flatten_append, List.flatten_singleton, hsplit, hremainder]
    refine ⟨?_, (units_le_of_sublist hrest).trans hfits⟩
    intro l hl
    rcases List.mem_append.mp hl with hl | hl
    · exact hlines l hl
    · exact (units_le_of_sublist (hsub l hl)).trans hfits

/-- The first chunk that does not fit. -/
theorem exists_over {chunks : List Bytes} (h : ¬ DataFits chunks) :
    ∃ pre value post, chunks = pre ++ value :: post ∧ DataFits pre ∧
      STDOUT_OVERSIZE_LIMIT < units (accumulated pre.flatten value) := by
  induction chunks using List.reverseRecOn with
  | nil =>
    refine absurd ?_ h
    intro pre value post heq
    simp at heq
  | append_singleton chunks value ih =>
    by_cases hchunks : DataFits chunks
    · by_cases hlast : units (accumulated chunks.flatten value) ≤ STDOUT_OVERSIZE_LIMIT
      · refine absurd ?_ h
        intro pre v post heq
        rcases List.eq_nil_or_concat post with rfl | ⟨post, w, rfl⟩
        · obtain ⟨rfl, hv⟩ := List.append_inj' heq rfl
          rw [← (List.cons.inj hv).1]
          exact hlast
        · have heq' : chunks ++ [value] = (pre ++ v :: post) ++ [w] := by simpa using heq
          exact hchunks pre v post (List.append_inj' heq' rfl).1
      · exact ⟨chunks, value, [], rfl, hchunks, Nat.lt_of_not_le hlast⟩
    · obtain ⟨pre, v, post, rfl, hpre, hover⟩ := ih hchunks
      exact ⟨pre, v, post ++ [value], by simp, hpre, hover⟩

/-! ### Chunks that do not fit -/

theorem decode_nil (d : TextDecoder) : d.decode [] = ([], d) := by
  obtain ⟨seen, bomSeen⟩ := d
  cases bomSeen <;> rfl

theorem handleStdoutChunk_over {piece : Text} {x : Stdout} (h : STDOUT_OVERSIZE_LIMIT < units (x.stdoutBuffer ++ piece)) :
    handleStdoutChunk piece x = (stop { x with stdoutBuffer := x.stdoutBuffer ++ piece }, [.oversize oversizeChunk]) :=
  if_pos h

theorem data_over {x : Stdout} {value : Bytes} (h : STDOUT_OVERSIZE_LIMIT < units (x.stdoutBuffer ++ (x.decoder.decode value).1))
    (hexit : x.exited = false) :
    ∃ y, step x (.data value) = (y, [.oversize oversizeChunk]) ∧ y.exited = false ∧
      y.stdoutBuffer = x.stdoutBuffer ++ (x.decoder.decode value).1 ∧ y.decoder = (x.decoder.decode value).2 := by
  refine ⟨_, handleStdoutChunk_over h, ?_, ?_, ?_⟩
  all_goals
    unfold stop
    rw [if_neg (by simp [hexit])]
  exact hexit

/-- Every chunk after the first one that is too long is reported again. -/
theorem trace_over {x : Stdout} (hx : STDOUT_OVERSIZE_LIMIT < units x.stdoutBuffer) (hexit : x.exited = false) (post : List Bytes) :
    (machine.trace x (post.map .data)).flatten = List.replicate post.length (.oversize oversizeChunk) ∧
      (machine.run x (post.map .data)).exited = false ∧
      (machine.run x (post.map .data)).stdoutBuffer = x.stdoutBuffer ++ (x.decoder.decode post.flatten).1 ∧
      (machine.run x (post.map .data)).decoder = (x.decoder.decode post.flatten).2 := by
  induction post generalizing x with
  | nil =>
    simp [decode_nil, hexit]
  | cons value post ih =>
    have hover : STDOUT_OVERSIZE_LIMIT < units (x.stdoutBuffer ++ (x.decoder.decode value).1) := by
      rw [units_append]
      omega
    obtain ⟨y, hstep, hopen, hybuffer, hydecoder⟩ := data_over hover hexit
    obtain ⟨htrace, hexited, hbuffer, hdecoder⟩ := ih (hybuffer ▸ hover) hopen
    rw [List.map_cons, Machine.trace_cons, Machine.run_cons, List.flatten_cons]
    show (step x (.data value)).2 ++ (machine.trace (step x (.data value)).1 _).flatten = _ ∧
      (machine.run (step x (.data value)).1 _).exited = false ∧ (machine.run (step x (.data value)).1 _).stdoutBuffer = _ ∧
        (machine.run (step x (.data value)).1 _).decoder = _
    rw [hstep, htrace, hexited, hbuffer, hdecoder, hybuffer, hydecoder, List.flatten_cons, TextDecoder.decode_append]
    exact ⟨rfl, rfl, List.append_assoc _ _ _, rfl⟩

/-- So does the exit, unless all of it is blank. -/
theorem exit_over {x : Stdout} (hx : STDOUT_OVERSIZE_LIMIT < units x.stdoutBuffer) (hexit : x.exited = false) :
    (step x .exit).2 =
      (if trimText (x.stdoutBuffer ++ (flush x.decoder).1) = [] then [] else [.oversize oversizeChunk]) ++ [.sessionExit] := by
  have hopen : ¬ x.exited = true := by
    rw [hexit]
    exact Bool.false_ne_true
  have hstep : step x .exit = ({ (flushOutput x).1 with exited := true }, (flushOutput x).2 ++ [.sessionExit]) := if_neg hopen
  rw [hstep]
  unfold flushOutput
  dsimp only
  by_cases hblank : trimText (x.stdoutBuffer ++ (flush x.decoder).1) = []
  · rw [if_neg (not_not.mpr hblank), if_pos hblank]
  · have hlong : STDOUT_OVERSIZE_LIMIT < units (x.stdoutBuffer ++ (flush x.decoder).1 ++ [newline] ++ []) := by
      rw [List.append_nil, units_snoc, units_append]
      omega
    rw [if_pos hblank, if_neg hblank, handleStdoutChunk_over hlong]

/-- The output from the first chunk on that is too long. -/
theorem output_over (session : CcSession) {pre : List Bytes} (post : List Bytes) {value : Bytes} (hpre : DataFits pre)
    (hover : STDOUT_OVERSIZE_LIMIT < units (accumulated pre.flatten value)) :
    (machine.trace (start session) (outputOf (pre ++ value :: post))).flatten =
      (handleLines (JsText.lines newline (text pre.flatten)) session).2.map .event ++
        List.replicate (post.length + 1) (.oversize oversizeChunk) ++
        ((if trimText (accumulated pre.flatten value ++
            (((TextDecoder.decode ⟨[], false⟩ (pre.flatten ++ value)).2.decode post.flatten).1 ++
              (flush (TextDecoder.decode ⟨[], false⟩ (pre ++ value :: post).flatten).2).1)) = [] then []
          else [.oversize oversizeChunk]) ++ [.sessionExit]) := by
  obtain ⟨hread, htrace⟩ := read_data session pre hpre
  let x := machine.run (start session) (pre.map .data)
  have hbuffer : x.stdoutBuffer ++ (x.decoder.decode value).1 = accumulated pre.flatten value := by
    rw [hread.stdoutBuffer, hread.decoder]
    rfl
  obtain ⟨y, hstep, hyopen, hybuffer, hydecoder⟩ := data_over (by rw [hbuffer]; exact hover) hread.exited
  have hylong : y.stdoutBuffer = accumulated pre.flatten value := hybuffer.trans hbuffer
  rw [← hylong] at hover
  obtain ⟨hmore, hexited, hlast, hdecoder⟩ := trace_over hover hyopen post
  have hfinal : STDOUT_OVERSIZE_LIMIT < units (machine.run y (post.map .data)).stdoutBuffer := by
    rw [hlast, units_append]
    omega
  have hexit := exit_over hfinal hexited
  have hvalue : y.decoder = (TextDecoder.decode ⟨[], false⟩ (pre.flatten ++ value)).2 := by
    rw [hydecoder, hread.decoder, TextDecoder.decode_append]
  have hall : (pre ++ value :: post).flatten = pre.flatten ++ value ++ post.flatten := by simp
  have hevents : outputOf (pre ++ value :: post) = pre.map .data ++ (.data value :: (post.map .data ++ [.exit])) := by
    simp [outputOf]
  rw [hevents, Machine.trace_append, List.flatten_append, htrace, Machine.trace_cons, List.flatten_cons, Machine.trace_append,
    List.flatten_append]
  show _ ++ ((step x (.data value)).2 ++ ((machine.trace (step x (.data value)).1 _).flatten ++
    [(step (machine.run (step x (.data value)).1 _) .exit).2].flatten)) = _
  rw [hstep]
  dsimp only
  rw [hmore, List.flatten_singleton, hexit, hlast, hdecoder, hylong, hvalue, hall, TextDecoder.decode_append _ (pre.flatten ++ value),
    List.replicate_succ, List.append_assoc, List.append_assoc]
  simp

/-- What the report is about. -/
def LongLine (bytes : Bytes) : Prop := ∃ l ∈ allLines bytes, STDOUT_OVERSIZE_LIMIT < units l

/-- The complete lines before the first one that is too long. -/
def linesBefore (bytes : Bytes) : List Text :=
  (JsText.lines newline (text bytes)).takeWhile fun l => decide (units l ≤ STDOUT_OVERSIZE_LIMIT)

/-- Output that is too long is reported for what it is, once, and what came before it has
been passed on. -/
structure ReportedOnce (session : CcSession) (chunks : List Bytes) : Prop where
  reported : (∃ b ∈ (machine.trace (start session) (outputOf chunks)).flatten, b.isOversize = true) ↔ LongLine chunks.flatten
  once : (machine.trace (start session) (outputOf chunks)).flatten.countP Broadcast.isOversize ≤ 1
  before : LongLine chunks.flatten → (handleLines (linesBefore chunks.flatten) session).2 <+:
    (machine.trace (start session) (outputOf chunks)).flatten.filterMap Broadcast.chunk

/-- The last chunk is the first that is too long, and with what it is added to it is
blank. -/
def BlankLine (chunks : List Bytes) : Prop :=
  ∃ pre value, chunks = pre ++ [value] ∧ DataFits pre ∧ STDOUT_OVERSIZE_LIMIT < units (accumulated pre.flatten value) ∧
    trimText (accumulated pre.flatten value ++ (flush (TextDecoder.decode ⟨[], false⟩ chunks.flatten).2).1) = [] ∧
      ∃ l ∈ JsText.lines newline (accumulated pre.flatten value) ++ [JsText.remainder newline (accumulated pre.flatten value)],
        STDOUT_OVERSIZE_LIMIT < units l

theorem count_events (cs : List FlatChunk) : (cs.map Broadcast.event).countP Broadcast.isOversize = 0 := by
  rw [List.countP_eq_zero]
  intro b hb
  obtain ⟨c, -, rfl⟩ := List.mem_map.mp hb
  simp [Broadcast.isOversize]

theorem chunks_events (cs : List FlatChunk) : (cs.map Broadcast.event).filterMap Broadcast.chunk = cs := by
  rw [List.filterMap_map]
  exact List.filterMap_some

theorem exists_oversize_iff {bs : List Broadcast} : (∃ b ∈ bs, b.isOversize = true) ↔ 0 < bs.countP Broadcast.isOversize :=
  List.countP_pos_iff.symm

/-- Nothing is too long. -/
theorem reportedOnce_fits (session : CcSession) {chunks : List Bytes} (hdata : DataFits chunks) (hexit : ExitFits chunks) :
    ReportedOnce session chunks := by
  obtain ⟨htrace, -⟩ := output_eq session hdata hexit
  have hcount : (machine.trace (start session) (outputOf chunks)).flatten.countP Broadcast.isOversize = 0 := by
    rw [htrace, List.countP_append, count_events]
    rfl
  have hshort : ¬ LongLine chunks.flatten := by
    rintro ⟨l, hl, hlong⟩
    obtain ⟨hlines, hrest⟩ := lines_le hdata
    rcases List.mem_append.mp hl with hl | hl
    · exact absurd (hlines l hl) (Nat.not_le_of_lt hlong)
    · rw [List.mem_singleton.mp hl] at hlong
      by_cases hblank : trimText (lastLine chunks.flatten) = []
      · have htail := flush_nil_of_blank (blank_sublist (List.sublist_append_right _ _) hblank)
        rw [lastLine, htail, List.append_nil] at hlong
        omega
      · have := hexit hblank
        omega
  refine ⟨?_, by omega, fun hlong => absurd hlong hshort⟩
  rw [exists_oversize_iff, hcount]
  exact ⟨fun h => absurd h (lt_irrefl 0), fun h => absurd h hshort⟩

/-- The newline that the exit adds is too much. -/
theorem output_exit_over (session : CcSession) {chunks : List Bytes} (hdata : DataFits chunks) (hexit : ¬ ExitFits chunks) :
    (machine.trace (start session) (outputOf chunks)).flatten =
      (handleLines (JsText.lines newline (text chunks.flatten)) session).2.map .event ++ [.oversize oversizeChunk, .sessionExit] := by
  obtain ⟨hread, htrace⟩ := read_data session chunks hdata
  obtain ⟨hblank, hlong⟩ : trimText (lastLine chunks.flatten) ≠ [] ∧ ¬ units (lastLine chunks.flatten) + 1 ≤ STDOUT_OVERSIZE_LIMIT :=
    Classical.not_imp.mp hexit
  let x := machine.run (start session) (chunks.map .data)
  have hlast : x.stdoutBuffer ++ (flush x.decoder).1 = lastLine chunks.flatten := by
    rw [hread.stdoutBuffer, hread.decoder]
    rfl
  have hstep : step x .exit = ({ (flushOutput x).1 with exited := true }, (flushOutput x).2 ++ [.sessionExit]) :=
    if_neg (by rw [hread.exited]; exact Bool.false_ne_true)
  have hout : (step x .exit).2 = [.oversize oversizeChunk, .sessionExit] := by
    rw [hstep]
    unfold flushOutput
    dsimp only
    rw [hlast, if_pos hblank, handleStdoutChunk_over (by
      rw [List.append_nil, units_snoc]
      omega)]
    rfl
  unfold outputOf
  rw [Machine.trace_snoc, List.flatten_append, htrace, List.flatten_singleton]
  exact congrArg (_ ++ ·) hout

theorem linesBefore_eq {bytes : Bytes} (h : ∀ l ∈ JsText.lines newline (text bytes), units l ≤ STDOUT_OVERSIZE_LIMIT) :
    linesBefore bytes = JsText.lines newline (text bytes) := by
  unfold linesBefore
  rw [List.takeWhile_eq_self_iff]
  exact fun l hl => decide_eq_true (h l hl)

theorem reportedOnce_exit (session : CcSession) {chunks : List Bytes} (hdata : DataFits chunks) (hexit : ¬ ExitFits chunks) :
    ReportedOnce session chunks ↔ STDOUT_OVERSIZE_LIMIT < units (lastLine chunks.flatten) := by
  have htrace := output_exit_over session hdata hexit
  obtain ⟨hlines, -⟩ := lines_le hdata
  have hcount : (machine.trace (start session) (outputOf chunks)).flatten.countP Broadcast.isOversize = 1 := by
    rw [htrace, List.countP_append, count_events]
    rfl
  have hlong : LongLine chunks.flatten ↔ STDOUT_OVERSIZE_LIMIT < units (lastLine chunks.flatten) := by
    constructor
    · rintro ⟨l, hl, hlong⟩
      rcases List.mem_append.mp hl with hl | hl
      · exact absurd (hlines l hl) (Nat.not_le_of_lt hlong)
      · rw [← List.mem_singleton.mp hl]
        exact hlong
    · exact fun h => ⟨_, List.mem_append_right _ (List.mem_singleton_self _), h⟩
  have hreported : ∃ b ∈ (machine.trace (start session) (outputOf chunks)).flatten, b.isOversize = true := by
    rw [exists_oversize_iff, hcount]
    exact Nat.one_pos
  constructor
  · exact fun h => hlong.mp (h.reported.mp hreported)
  · intro h
    refine ⟨⟨fun _ => hlong.mpr h, fun _ => hreported⟩, hcount.le, fun _ => ?_⟩
    rw [htrace, List.filterMap_append, chunks_events, linesBefore_eq hlines]
    exact List.prefix_append _ _

/-- A chunk that is too long, blank and the last one. -/
theorem output_blank (session : CcSession) {pre : List Bytes} {value : Bytes} (hpre : DataFits pre)
    (hover : STDOUT_OVERSIZE_LIMIT < units (accumulated pre.flatten value))
    (hblank : trimText (accumulated pre.flatten value ++ (flush (TextDecoder.decode ⟨[], false⟩ (pre ++ [value]).flatten).2).1) = []) :
    (machine.trace (start session) (outputOf (pre ++ [value]))).flatten =
      (handleLines (JsText.lines newline (text pre.flatten)) session).2.map .event ++ [.oversize oversizeChunk, .sessionExit] := by
  rw [output_over session [] hpre hover, List.flatten_nil, decode_nil, List.nil_append, if_pos hblank, List.append_assoc]
  rfl

/-- Its lines are those before it and blank ones. -/
theorem longLine_blank {pre : List Bytes} {value : Bytes} (hpre : DataFits pre)
    (hblank : trimText (accumulated pre.flatten value ++ (flush (TextDecoder.decode ⟨[], false⟩ (pre ++ [value]).flatten).2).1) = []) :
    LongLine (pre ++ [value]).flatten ↔
      ∃ l ∈ JsText.lines newline (accumulated pre.flatten value) ++ [JsText.remainder newline (accumulated pre.flatten value)],
        STDOUT_OVERSIZE_LIMIT < units l := by
  have htail := flush_nil_of_blank (blank_sublist (List.sublist_append_right _ _) hblank)
  obtain ⟨hshort, -⟩ := lines_le hpre
  obtain ⟨-, hlines, hrest⟩ := lines_text_append pre.flatten value
  have hall : allLines (pre ++ [value]).flatten = JsText.lines newline (text pre.flatten) ++
      (JsText.lines newline (accumulated pre.flatten value) ++ [JsText.remainder newline (accumulated pre.flatten value)]) := by
    unfold allLines lastLine
    rw [htail, List.append_nil, List.flatten_append, List.flatten_singleton, hlines, hrest, List.append_assoc]
  unfold LongLine
  rw [hall]
  constructor
  · rintro ⟨l, hl, hlong⟩
    rcases List.mem_append.mp hl with hl | hl
    · exact absurd (hshort l hl) (Nat.not_le_of_lt hlong)
    · exact ⟨l, hl, hlong⟩
  · exact fun ⟨l, hl, hlong⟩ => ⟨l, List.mem_append_right _ hl, hlong⟩

theorem reportedOnce_blank (session : CcSession) {chunks : List Bytes} (h : BlankLine chunks) : ReportedOnce session chunks := by
  obtain ⟨pre, value, rfl, hpre, hover, hblank, hlong⟩ := h
  have htrace := output_blank session hpre hover hblank
  have hcount : (machine.trace (start session) (outputOf (pre ++ [value]))).flatten.countP Broadcast.isOversize = 1 := by
    rw [htrace, List.countP_append, count_events]
    rfl
  refine ⟨⟨fun _ => (longLine_blank hpre hblank).mpr hlong, fun _ => ?_⟩, hcount.le, fun _ => ?_⟩
  · rw [exists_oversize_iff, hcount]
    exact Nat.one_pos
  · obtain ⟨hshort, -⟩ := lines_le hpre
    obtain ⟨-, hlines, -⟩ := lines_text_append pre.flatten value
    obtain ⟨hsub, -⟩ := lines_sublist (accumulated pre.flatten value)
    -- the lines of the chunk are blank, however many of them are counted
    have hbefore : linesBefore (pre ++ [value]).flatten = JsText.lines newline (text pre.flatten) ++
        (JsText.lines newline (accumulated pre.flatten value)).takeWhile fun l => decide (units l ≤ STDOUT_OVERSIZE_LIMIT) := by
      unfold linesBefore
      rw [List.flatten_append, List.flatten_singleton, hlines,
        List.takeWhile_append_of_pos fun l hl => decide_eq_true (hshort l hl)]
    have hnone : ∀ s : CcSession, handleLines ((JsText.lines newline (accumulated pre.flatten value)).takeWhile fun l =>
        decide (units l ≤ STDOUT_OVERSIZE_LIMIT)) s = (s, []) := by
      refine handleLines_blank ?_
      intro l hl
      have hmem := hsub l ((List.takeWhile_sublist _).mem hl)
      exact blank_sublist (hmem.trans (List.sublist_append_left _ _)) hblank
    rw [htrace, List.filterMap_append, chunks_events, hbefore, handleLines_append, hnone, List.append_nil]
    exact List.prefix_append _ _

/-- From the first chunk that is too long on, every chunk is reported, and the exit too
unless all that is kept is blank. -/
theorem reportedOnce_over (session : CcSession) {chunks : List Bytes} (h : ¬ DataFits chunks) :
    ReportedOnce session chunks ↔ BlankLine chunks := by
  refine ⟨?_, reportedOnce_blank session⟩
  intro honce
  obtain ⟨pre, value, post, rfl, hpre, hover⟩ := exists_over h
  have hcount := honce.once
  rw [output_over session post hpre hover, List.countP_append, List.countP_append, List.countP_append, count_events,
    List.countP_replicate, if_pos (show (Broadcast.oversize oversizeChunk).isOversize = true from rfl)] at hcount
  have hlast : post = [] := by
    rw [← List.length_eq_zero_iff]
    omega
  subst hlast
  rw [List.flatten_nil, decode_nil, List.nil_append] at hcount
  have hblank : trimText (accumulated pre.flatten value ++
      (flush (TextDecoder.decode ⟨[], false⟩ (pre ++ [value]).flatten).2).1) = [] := by
    by_contra hne
    rw [if_neg hne] at hcount
    simp [Broadcast.isOversize] at hcount
  refine ⟨pre, value, rfl, hpre, hover, hblank, ?_⟩
  rw [← longLine_blank hpre hblank]
  apply honce.reported.mp
  rw [output_blank session hpre hover hblank]
  exact ⟨.oversize oversizeChunk, by simp, rfl⟩

/-- Output that is too long is reported once if and only if no chunk makes the accumulated
text too long and the newline of the exit only does with a last line that is; or if the last
chunk makes it so with nothing but blanks. -/
theorem oversize_reported_once_iff (session : CcSession) (chunks : List Bytes) :
    ReportedOnce session chunks ↔
      (DataFits chunks ∧ (ExitFits chunks ∨ STDOUT_OVERSIZE_LIMIT < units (lastLine chunks.flatten))) ∨ BlankLine chunks := by
  have hnot : BlankLine chunks → ¬ DataFits chunks := by
    rintro ⟨pre, value, rfl, -, hover, -⟩ hdata
    exact absurd (hdata pre value [] rfl) (Nat.not_le_of_lt hover)
  by_cases hdata : DataFits chunks
  · by_cases hexit : ExitFits chunks
    · exact ⟨fun _ => .inl ⟨hdata, .inl hexit⟩, fun _ => reportedOnce_fits session hdata hexit⟩
    · rw [reportedOnce_exit session hdata hexit]
      constructor
      · exact fun h => .inl ⟨hdata, .inr h⟩
      · rintro (⟨-, h | h⟩ | h)
        · exact absurd h hexit
        · exact h
        · exact absurd hdata (hnot h)
  · rw [reportedOnce_over session hdata]
    exact ⟨.inr, fun h => h.resolve_left fun h' => hdata h'.1⟩

/-! ### A line that is too long, in one chunk -/

def letter : CodePoint := (Utf8.Piece.scalar [0x61]).char

theorem decode_letters (n : ℕ) :
    TextDecoder.decode ⟨[], false⟩ (List.replicate (n + 1) 0x61) = (List.replicate (n + 1) letter, ⟨[], true⟩) := by
  have hfeed : ∀ n, Utf8.feedAll [] (List.replicate n 0x61) = (List.replicate n (.scalar [0x61]), []) := by
    intro n
    induction n with
    | zero => rfl
    | succ n ih =>
      rw [List.replicate_succ, ← List.nil_append (0x61 :: _), Utf8.feedAll_ascii (by decide), ih]
      rfl
  unfold TextDecoder.decode
  dsimp only
  rw [hfeed, List.map_replicate, List.replicate_succ]
  have hletter : ¬ (Utf8.Piece.scalar [0x61]).char = Sse.byteOrderMark := by decide
  simp only [Sse.skipMark, if_neg hletter]
  rfl

theorem accumulated_letters (n : ℕ) : accumulated [] (List.replicate (n + 1) 0x61) = List.replicate (n + 1) letter := by
  have hstart : TextDecoder.decode ⟨[], false⟩ [] = ([], ⟨[], false⟩) := decode_nil _
  unfold accumulated text
  rw [hstart]
  dsimp only
  rw [decode_letters]
  rfl

theorem units_letters (n : ℕ) : units (List.replicate n letter) = n := by
  induction n with
  | zero => rfl
  | succ n ih =>
    rw [List.replicate_succ', units_append, ih]
    rfl

/-- The line is reported when it arrives, and again at the exit. -/
theorem letters_twice {n : ℕ} (h : STDOUT_OVERSIZE_LIMIT < n + 1) (session : CcSession) :
    (machine.trace (start session) (outputOf [List.replicate (n + 1) 0x61])).flatten =
      [.oversize oversizeChunk, .oversize oversizeChunk, .sessionExit] := by
  have hnone : DataFits [] := fun pre v post heq => by simp at heq
  have hover : STDOUT_OVERSIZE_LIMIT < units (accumulated [].flatten (List.replicate (n + 1) 0x61)) := by
    rw [List.flatten_nil, accumulated_letters, units_letters]
    exact h
  have hvisible : ¬ trimText (List.replicate (n + 1) letter) = [] := by
    rw [trimText_eq_nil]
    intro hspace
    exact absurd (hspace letter (by simp [List.replicate_succ])) (by decide)
  have htail : flush ⟨[], true⟩ = ([], ⟨[], false⟩) := rfl
  have htrace := output_over session [] hnone hover
  rw [List.nil_append, List.flatten_singleton, List.flatten_nil, decode_nil, decode_letters, htail, accumulated_letters,
    List.append_nil, List.append_nil, if_neg hvisible] at htrace
  exact htrace

theorem oversize_reported_twice : ¬ ∀ (session : CcSession) (chunks : List Bytes), ReportedOnce session chunks := by
  intro h
  have honce := (h freshSession [List.replicate (STDOUT_OVERSIZE_LIMIT + 1) 0x61]).once
  rw [letters_twice (Nat.lt_succ_self _)] at honce
  exact absurd honce (by decide)

/-! ### Complete up to the limit, then the exit -/

/-- The broadcasts of a session whose output is complete. -/
def completeOutput (session : CcSession) (bytes : Bytes) : List Broadcast :=
  (handleEvents (jsonLines (allLines bytes)) session).2.map .event ++ [.sessionExit]

/-- The bytes of the data events, whenever the exit comes. -/
def dataOf (events : List ProcEvent) : Bytes :=
  (events.map fun | .data buf => buf | .exit => []).flatten

theorem handleLines_jsonLines (lines : List Text) (session : CcSession) :
    (handleLines lines session).2 = (handleEvents (jsonLines lines) session).2 := by
  obtain ⟨b, hb⟩ := handleLines_eq lines session
  rw [hb]
  rfl

/-- The lines before a chunk come first. -/
theorem lines_start (pre : List Bytes) (post : List Bytes) :
    JsText.lines newline (text pre.flatten) <+: allLines (pre ++ post).flatten := by
  obtain ⟨-, hlines, -⟩ := lines_text_append pre.flatten post.flatten
  unfold allLines
  rw [List.flatten_append, hlines, List.append_assoc]
  exact List.prefix_append _ _

theorem handleLines_start {xs ys : List Text} (h : xs <+: ys) (session : CcSession) :
    (handleLines xs session).2 <+: (handleLines ys session).2 := by
  obtain ⟨zs, rfl⟩ := h
  rw [handleLines_append]
  exact List.prefix_append _ _

/-- What comes before the exit: translations and reports. -/
theorem output_shape (session : CcSession) (chunks : List Bytes) :
    ∃ cs reports, (machine.trace (start session) (outputOf chunks)).flatten =
        cs.map .event ++ List.replicate reports (.oversize oversizeChunk) ++ [.sessionExit] ∧
      cs <+: (handleLines (allLines chunks.flatten) session).2 ∧
      (DataFits chunks → ExitFits chunks → cs = (handleLines (allLines chunks.flatten) session).2 ∧ reports = 0) := by
  by_cases hdata : DataFits chunks
  · by_cases hexit : ExitFits chunks
    · obtain ⟨htrace, -⟩ := output_eq session hdata hexit
      refine ⟨_, 0, ?_, List.prefix_rfl, fun _ _ => ⟨rfl, rfl⟩⟩
      rw [htrace, List.replicate_zero, List.append_nil]
    · refine ⟨_, 1, (output_exit_over session hdata hexit).trans ?_, handleLines_start (List.prefix_append _ _) session,
        fun _ h => absurd h hexit⟩
      rw [List.append_assoc]
      rfl
  · obtain ⟨pre, value, post, rfl, hpre, hover⟩ := exists_over hdata
    have htrace := output_over session post hpre hover
    have hprefix := handleLines_start (lines_start pre (value :: post)) session
    by_cases hblank : trimText (accumulated pre.flatten value ++
        (((TextDecoder.decode ⟨[], false⟩ (pre.flatten ++ value)).2.decode post.flatten).1 ++
          (flush (TextDecoder.decode ⟨[], false⟩ (pre ++ value :: post).flatten).2).1)) = []
    · rw [if_pos hblank] at htrace
      exact ⟨_, post.length + 1, htrace, hprefix, fun h => absurd h hdata⟩
    · rw [if_neg hblank] at htrace
      refine ⟨_, post.length + 1 + 1, htrace.trans ?_, hprefix, fun h => absurd h hdata⟩
      rw [List.replicate_succ' (n := post.length + 1)]
      simp only [List.append_assoc]

/-- Of a session whose exit comes after its output: the translations of the JSON lines in
order and then the exit, once; past the limit the translations end in reports. -/
theorem output_complete_then_exit (session : CcSession) (chunks : List Bytes) :
    ∃ cs reports, (machine.trace (start session) (outputOf chunks)).flatten =
        cs.map .event ++ List.replicate reports (.oversize oversizeChunk) ++ [.sessionExit] ∧
      cs <+: (handleEvents (jsonLines (allLines chunks.flatten)) session).2 ∧
      (DataFits chunks → ExitFits chunks →
        (machine.trace (start session) (outputOf chunks)).flatten = completeOutput session chunks.flatten) := by
  obtain ⟨cs, reports, htrace, hprefix, hfits⟩ := output_shape session chunks
  rw [handleLines_jsonLines] at hprefix hfits
  refine ⟨cs, reports, htrace, hprefix, fun hdata hexit => ?_⟩
  obtain ⟨hcs, hreports⟩ := hfits hdata hexit
  rw [htrace, hcs, hreports, List.replicate_zero, List.append_nil]
  rfl

def exitBeforeData : List ProcEvent := [.exit, .data (Sse.asciiBytes "\x7b\"type\":\"message_stop\"\x7d\n")]

/-- A line of more than the limit is not translated, and the exit does not wait for the
data that is still in the pipe. -/
theorem output_incomplete :
    (∃ chunks, (machine.trace (start freshSession) (outputOf chunks)).flatten ≠ completeOutput freshSession chunks.flatten) ∧
      (machine.trace (start freshSession) exitBeforeData).flatten ≠ completeOutput freshSession (dataOf exitBeforeData) := by
  refine ⟨⟨[List.replicate (STDOUT_OVERSIZE_LIMIT + 1) 0x61], ?_⟩, ?_⟩
  · intro h
    rw [letters_twice (Nat.lt_succ_self _)] at h
    have hcount := congrArg (List.countP Broadcast.isOversize) h
    unfold completeOutput at hcount
    rw [List.countP_append, count_events] at hcount
    exact absurd hcount (by decide)
  · intro h
    have hevents := congrArg (fun bs => bs.map fun b => b.chunk.isSome) h
    exact absurd hevents (by decide +kernel)

end AgentWorkflow.Desktop.CcStdout
