import Forgelet.Executor.Proofs.EngineProofs
import Forgelet.Executor.Proofs.LinesProofs
import Forgelet.Executor.Proofs.MaskProofs

/-!
# Proofs: secrets in the output of scripts

The lines of a script are masked one by one. A delivered value that fits into a line, and that asterisks do not put
together again, does not reach the log with them, however the output is read. Other values do.
-/

namespace Forgelet.Executor

open Bytes (ofString byte)

variable {v : Bytes} {secrets env : GoMap Bytes Bytes} {refs : List SecretRef}

/-- The text of an `out` record that reaches the innermost handler. -/
def Logged.outLine (l : Logged) : Option Bytes :=
  if l.record.message = ofString "out" then
    l.received.record.attrs.findSome? fun a =>
      match a with
      | (key, .string s) => if key = ofString "message" then some s else none
      | _ => none
  else none

/-- The text of all `out` records of a run, on lines. -/
def Run.outText (r : Run) : Bytes := Bytes.join [byte '\n'] (r.log.filterMap Logged.outLine)

theorem infix_join {b l} (hv : v ≠ []) (hb : b ∉ v) (h : v <:+: Bytes.join [b] l) : ∃ s ∈ l, v <:+: s := by
  induction l with
  | nil => exact absurd (List.infix_nil.mp h) hv
  | cons s rest ih =>
    cases rest with
    | nil => exact ⟨s, List.mem_singleton_self s, h⟩
    | cons s' rest =>
      have hsplit : v <:+: s ++ b :: Bytes.join [b] (s' :: rest) := by
        rw [← List.singleton_append, ← List.append_assoc]
        exact h
      rcases Replace.infix_append_cons hb hsplit with h | h
      · exact ⟨s, (.head _), h⟩
      · obtain ⟨t, ht, hin⟩ := ih h
        exact ⟨t, .tail _ ht, hin⟩

variable {l : Logged} {host : Host}

theorem outLine_eq_apply {line} (h : l.outLine = some line) :
    l.record.message = ofString "out" ∧ ∃ s, line = l.masker.apply s := by
  unfold Logged.outLine at h
  split_ifs at h with hmessage
  refine ⟨hmessage, ?_⟩
  obtain ⟨a, ha, hline⟩ := List.exists_of_findSome?_eq_some h
  obtain ⟨a₀, -, rfl⟩ := List.mem_map.mp (List.mem_filter.mp ha).1
  obtain ⟨key, value⟩ := a₀
  cases value with
  | string s =>
    refine ⟨s, ?_⟩
    dsimp only [Handler.maskAttr] at hline
    split_ifs at hline
    exact (Option.some.inj hline).symm
  | group | other => cases hline

theorem deliverOne_subset (d : Delivery) (ref : SecretRef) :
    d.masker.vals ⊆ (deliverOne secrets d ref).masker.vals := by
  unfold deliverOne
  cases secrets.lookup (SecretRef.key ref) with
  | none => exact List.Subset.refl _
  | some val =>
    split_ifs <;> exact d.masker.subset_add val

theorem mem_deliver (hv : v ≠ []) (h : ∃ ref ∈ refs, secrets.lookup (SecretRef.key ref) = some v) :
    v ∈ (deliver secrets env refs).masker.vals := by
  obtain ⟨ref, href, hlook⟩ := h
  refine deliver_of_mem (P := fun d => v ∈ d.masker.vals) env href (fun d => ?_)
    fun d ref' hd => deliverOne_subset d ref' hd
  unfold deliverOne
  rw [hlook]
  split_ifs <;> exact Masker.mem_add hv

theorem mem_reported_log {st result reason err} (h : l ∈ (reported host st result reason err).log) :
    l ∈ st.log ∨ (l.masker = st.masker ∧ l.record.message = ofString "report job failed") := by
  unfold reported at h
  split at h
  · exact .inl h
  · rcases List.mem_append.mp h with h | h
    · exact .inl h
    · rw [List.mem_singleton.mp h]
      exact .inr ⟨rfl, rfl⟩

theorem mem_finish_log {p jobRunID st halt} (h : l ∈ (finish host p jobRunID st halt).log) :
    l ∈ st.log ∨ (l.masker = st.masker ∧ l.record.message = ofString "report job failed") := by
  match halt, h with
  | none, h => exact mem_reported_log h
  | some (.failed _ _), h => exact mem_reported_log h
  | some (.cancelled _), h => exact mem_reported_log h
  | some (.unprepared _), h => exact .inl h

/-- Every `out` record of a run is logged with all delivered values registered. -/
theorem mem_masker_of_out {p jobRunID} (hfetch : fetch host p = .ok secrets) (hv : v ≠ [])
    (hdelivered : ∃ ref ∈ p.secretRefs, secrets.lookup (SecretRef.key ref) = some v)
    (hl : l ∈ (run host p jobRunID).log) (hout : l.record.message = ofString "out") : v ∈ l.masker.vals := by
  have hother : l.record.message ≠ ofString "report job failed" := by
    rw [hout]
    decide
  rcases run_cases host p jobRunID with ⟨k, err, hrun⟩ | ⟨st, result, err, hrun, hlog, -⟩ |
    ⟨secrets', env, st, halt, hfetch', hsteps, hrun⟩
  · rw [hrun] at hl
    rcases mem_reported_log hl with hl | ⟨-, hl⟩
    · cases hl
    · exact absurd hl hother
  · rw [hrun] at hl
    have hnil : l ∈ st.log := hl
    rw [hlog] at hnil
    cases hnil
  · rw [hfetch] at hfetch'
    cases hfetch'
    have hmasker : v ∈ (deliver secrets env p.secretRefs).masker.vals := mem_deliver hv hdelivered
    obtain ⟨new, hnew, hsubset⟩ := (moved_of_runSteps hsteps).log
    rw [hrun] at hl
    rcases mem_finish_log hl with hl | ⟨-, hl⟩
    · rw [hnew] at hl
      exact hsubset l hl hmasker
    · exact absurd hl hother

/-- A value of one line that asterisks do not put together again. -/
structure Maskable (v : Bytes) : Prop where
  nonempty : v ≠ []
  line : byte '\n' ∉ v
  apart : Replace.Apart Masker.star 3 v

/-- No delivered value that can be masked is in the text of the `out` records of a run. -/
theorem not_infix_outText {p jobRunID} (hfetch : fetch host p = .ok secrets)
    (hdelivered : ∃ ref ∈ p.secretRefs, secrets.lookup (SecretRef.key ref) = some v) (h : Maskable v) :
    ¬v <:+: (run host p jobRunID).outText := by
  intro hin
  obtain ⟨line, hline, hin⟩ := infix_join h.nonempty h.line hin
  obtain ⟨l, hl, houtLine⟩ := List.mem_filterMap.mp hline
  obtain ⟨hout, s, rfl⟩ := outLine_eq_apply houtLine
  exact l.masker.not_infix_apply (mem_masker_of_out hfetch h.nonempty hdelivered hl hout) h.apart s hin

/-! ## One stream -/

/-- The text of the `out` records of one script, of which the reads were `reads`. -/
def streamText (values reads : List Bytes) : Bytes :=
  Bytes.join [byte '\n']
    ((emitLines Handler.new (Masker.ofAdds values) (readLines [] reads)).2.filterMap Logged.outLine)

theorem mem_ofAdds {values} (hv : v ∈ values) (hne : v ≠ []) : v ∈ (Masker.ofAdds values).vals := by
  have hkeep : ∀ (values : List Bytes) (m : Masker), v ∈ m.vals → v ∈ (values.foldl Masker.add m).vals := by
    intro values
    induction values with
    | nil => exact fun _ h => h
    | cons w rest ih => exact fun m h => ih _ (m.subset_add w h)
  obtain ⟨before, after, rfl⟩ := List.append_of_mem hv
  rw [Masker.ofAdds, List.foldl_append, List.foldl_cons]
  exact hkeep after _ (Masker.mem_add hne)

theorem not_infix_streamText {values} (hv : v ∈ values) (h : Maskable v) (reads : List Bytes) :
    ¬v <:+: streamText values reads := by
  intro hin
  obtain ⟨line, hline, hin⟩ := infix_join h.nonempty h.line hin
  obtain ⟨l, hl, houtLine⟩ := List.mem_filterMap.mp hline
  obtain ⟨-, s, rfl⟩ := outLine_eq_apply houtLine
  have hregistered := (Moved.emitLines Handler.new (Masker.ofAdds values) (readLines [] reads)).2 l hl
  exact l.masker.not_infix_apply (hregistered (mem_ofAdds hv h.nonempty)) h.apart s hin

/-- Lines that are no commands are logged. -/
theorem outLines_emitLines (m : Masker) {lines : List Bytes} (h : ∀ line ∈ lines, parseCommand line = none) :
    (emitLines Handler.new m lines).2.filterMap Logged.outLine = lines.map m.apply := by
  induction lines with
  | nil => rfl
  | cons line rest ih =>
    rw [List.forall_mem_cons] at h
    have hline : emitLine m line = (m, some (outRecord line)) := by rw [emitLine, h.1]
    rw [emitLines, hline, List.map_cons, ← ih h.2]
    rfl

theorem parseCommand_eq_none {line : Bytes} (h : line.head? ≠ some (byte ':')) : parseCommand line = none := by
  unfold parseCommand
  rw [if_pos]
  cases line with
  | nil => rfl
  | cons c line =>
    have hc : (byte ':' == c) = false := beq_eq_false_iff_ne.mpr fun hc => h (congrArg some hc.symm)
    show (byte ':' == c && _) = false
    rw [hc, Bool.false_and]

theorem trimLast_of_notMem {b : UInt8} {s : Bytes} (h : b ∉ s) : trimLast b s = s := by
  rw [trimLast, if_neg]
  exact fun hlast => h (List.mem_of_mem_getLast? (Option.mem_def.mpr hlast))

/-- The lines of a text that no newline ends, joined again. -/
theorem join_streamLines (s : Bytes) : byte '\r' ∉ s → s.getLast? ≠ some (byte '\n') →
    Bytes.join [byte '\n'] (streamLines s) = s := by
  refine lines_induction (motive := fun s => byte '\r' ∉ s → s.getLast? ≠ some (byte '\n') →
    Bytes.join [byte '\n'] (streamLines s) = s) ?_ ?_ s
  · intro s hline _ _
    rw [streamLines_rest hline]
    split
    · rename_i hnil
      rw [hnil]
      rfl
    · rfl
  · intro line after hline ih hreturn hend
    rw [List.mem_append, List.mem_cons, not_or, not_or] at hreturn
    have hne : after ≠ [] := by
      rintro rfl
      exact hend List.getLast?_concat
    rw [List.getLast?_append_cons, List.getLast?_cons_of_ne_nil hne] at hend
    have hjoin := ih hreturn.2.2 hend
    rw [streamLines_line hline, trimLast_of_notMem hreturn.1]
    cases hlines : streamLines after with
    | nil =>
      rw [hlines] at hjoin
      exact absurd hjoin.symm hne
    | cons first rest =>
      rw [hlines] at hjoin
      show line ++ [byte '\n'] ++ Bytes.join [byte '\n'] (first :: rest) = _
      rw [hjoin, List.append_assoc, List.singleton_append]

theorem mem_streamLines (s : Bytes) : ∀ line ∈ streamLines s, byte '\n' ∉ line ∧ line ⊆ s := by
  have htrim : ∀ line, trimLast (byte '\r') line ⊆ line := by
    intro line
    rw [trimLast]
    split
    · exact (List.dropLast_sublist line).subset
    · exact List.Subset.refl line
  refine lines_induction (motive := fun s => ∀ line ∈ streamLines s, byte '\n' ∉ line ∧ line ⊆ s) ?_ ?_ s
  · intro s hs line hline
    rw [streamLines_rest hs] at hline
    split at hline
    · cases hline
    · rw [List.mem_singleton.mp hline]
      exact ⟨hs, List.Subset.refl s⟩
  · intro first after hfirst ih line hline
    rw [streamLines_line hfirst, List.mem_cons] at hline
    rcases hline with rfl | hline
    · exact ⟨fun hmem => hfirst (htrim first hmem), List.subset_append_of_subset_left _ (htrim first)⟩
    · obtain ⟨hbreak, hsub⟩ := ih line hline
      exact ⟨hbreak, fun b hb => List.mem_append_right _ (.tail _ (hsub hb))⟩

theorem streamText_eq (values : List Bytes) {text : Bytes}
    (h : ∀ line ∈ streamLines text, parseCommand line = none) : streamText values [text] =
      Bytes.join [byte '\n'] ((streamLines text).map (Masker.ofAdds values).apply) := by
  rw [streamText, readLines_eq List.not_mem_nil, List.nil_append, List.flatten_singleton, outLines_emitLines _ h]

theorem vals_ofAdds_singleton (hv : v ≠ []) : (Masker.ofAdds [v]).vals = [v] := by
  show (Masker.add .new v).vals = [v]
  rw [Masker.add, dif_neg hv, dif_neg (by exact List.not_mem_nil)]
  rfl

theorem apply_ofAdds_singleton (hv : v ≠ []) (s : Bytes) :
    (Masker.ofAdds [v]).apply s = Replace.replaceAll v (List.replicate 3 Masker.star) s := by
  have hsorted : (Masker.ofAdds [v]).sorted = [v] := by
    rw [Masker.sorted, vals_ofAdds_singleton hv]
    rfl
  rw [Masker.apply_eq, hsorted]
  rfl

/-- A letter that is not the given byte. -/
theorem exists_letter (b : Option UInt8) :
    ∃ x, some x ≠ b ∧ x ≠ byte ':' ∧ x ≠ byte '\n' ∧ x ≠ byte '\r' := by
  by_cases hb : some (byte 'a') = b
  · refine ⟨byte 'b', ?_, by decide, by decide, by decide⟩
    rw [← hb]
    decide
  · exact ⟨byte 'a', hb, by decide, by decide, by decide⟩

/-- A value that asterisks put together again is left in a line. -/
theorem exists_streamText_of_not_apart (hne : v ≠ []) (hline : byte '\n' ∉ v)
    (h : ¬Replace.Apart Masker.star 3 v) : ∃ text, v <:+: streamText [v] [text] := by
  obtain ⟨x, hx, hcolon, hbreak, -⟩ := exists_letter v.head?
  obtain ⟨y, hy, -, hbreak', -⟩ := exists_letter v.getLast?
  obtain ⟨s, hs, hleft⟩ := Replace.exists_infix_replaceAll hne (by decide) h hx.symm hy.symm
  have hmem : byte '\n' ∉ x :: (s ++ [y]) := by
    simp only [List.mem_cons, List.mem_append, List.not_mem_nil, or_false, not_or]
    exact ⟨Ne.symm hbreak, fun hmem => hline (hs hmem), Ne.symm hbreak'⟩
  have hlines : streamLines (x :: (s ++ [y])) = [x :: (s ++ [y])] := by
    rw [streamLines_rest hmem, if_neg (List.cons_ne_nil _ _)]
  refine ⟨x :: (s ++ [y]), ?_⟩
  rw [streamText_eq, hlines]
  · rw [List.map_singleton, apply_ofAdds_singleton hne]
    exact hleft
  · rw [hlines]
    intro line hmem
    rw [List.mem_singleton.mp hmem]
    exact parseCommand_eq_none fun hfirst => hcolon (Option.some_inj.mp hfirst)

/-- A value of several lines that are no commands is printed line by line. -/
theorem exists_streamText_of_lines (hbreak : byte '\n' ∈ v) (hreturn : byte '\r' ∉ v) (hcolon : byte ':' ∉ v) :
    ∃ text, v <:+: streamText [v] [text] := by
  have hne : v ≠ [] := List.ne_nil_of_mem hbreak
  have hother : ∀ b ∈ v ++ [byte 'a'], b ≠ byte '\r' ∧ b ≠ byte ':' := by
    intro b hb
    rcases List.mem_append.mp hb with hb | hb
    · exact ⟨fun h => hreturn (h ▸ hb), fun h => hcolon (h ▸ hb)⟩
    · rw [List.mem_singleton.mp hb]
      decide
  -- no line is a command, and no line has the value
  have hcommands : ∀ line ∈ streamLines (v ++ [byte 'a']), parseCommand line = none := by
    intro line hline
    refine parseCommand_eq_none fun hfirst => ?_
    exact (hother _ ((mem_streamLines _ line hline).2 (List.mem_of_mem_head? hfirst))).2 rfl
  have hmasked : (streamLines (v ++ [byte 'a'])).map (Masker.ofAdds [v]).apply = streamLines (v ++ [byte 'a']) := by
    refine (List.map_congr_left fun line hline => ?_).trans (List.map_id _)
    refine Masker.apply_eq_self _ fun w hw hin => ?_
    rw [vals_ofAdds_singleton hne, List.mem_singleton] at hw
    rw [hw] at hin
    exact (mem_streamLines _ line hline).1 (hin.subset hbreak)
  refine ⟨v ++ [byte 'a'], ?_⟩
  rw [streamText_eq _ hcommands, hmasked, join_streamLines]
  · exact (List.prefix_append ..).isInfix
  · exact fun hmem => (hother _ hmem).1 rfl
  · rw [List.getLast?_concat]
    decide

/-- A value that can be masked is in the text of no run that it is delivered to, whatever the steps print and however
it is read. Any other value is left in the text of some stream, if it has one line or plain lines. -/
theorem outText_hides (v : Bytes) :
    (Maskable v → ∀ host p jobRunID secrets, fetch host p = .ok secrets →
      (∃ ref ∈ p.secretRefs, secrets.lookup (SecretRef.key ref) = some v) →
        ¬v <:+: (run host p jobRunID).outText) ∧
    ((byte '\n' ∈ v → byte '\r' ∉ v ∧ byte ':' ∉ v) →
      ((∀ values reads, v ∈ values → ¬v <:+: streamText values reads) ↔ Maskable v)) := by
  refine ⟨fun h host p jobRunID secrets hfetch hdelivered => not_infix_outText hfetch hdelivered h, fun hplain => ?_⟩
  refine ⟨fun hhidden => ?_, fun h values reads hv => not_infix_streamText hv h reads⟩
  have hall : ¬∃ text, v <:+: streamText [v] [text] := by
    rintro ⟨text, hleft⟩
    exact hhidden [v] [text] (List.mem_singleton_self v) hleft
  have hne : v ≠ [] := by
    rintro rfl
    exact hall ⟨[], List.nil_infix⟩
  have hline : byte '\n' ∉ v := fun hbreak =>
    hall (exists_streamText_of_lines hbreak (hplain hbreak).1 (hplain hbreak).2)
  refine ⟨hne, hline, ?_⟩
  by_contra happart
  exact hall (exists_streamText_of_not_apart hne hline happart)

/-- A host with one secret, whose scripts print one text, read in two parts. -/
def printingHost (secret first second : String) : Host :=
  { Host.quiet with
    fetchSecrets := fun _ => .ok ((∅ : GoMap Bytes Bytes).insert (ofString "repository/S") (ofString secret))
    script := fun _ _ _ => (.ran [ofString first, ofString second] (.exited 0), .none) }

/-- One script, and one secret. -/
def printingPlan : Plan := planOf [scriptStep "s" "print"] [⟨"repository", "S", ofString "S"⟩]

/-- A value that two reads bring. -/
theorem outText_hides_read : (run (printingHost "a*c" "x a*" "c\ny") printingPlan "j").outText = ofString "x ***\ny" ∧
    ¬ofString "a*c" <:+: (run (printingHost "a*c" "x a*" "c\ny") printingPlan "j").outText :=
  ⟨by decide +kernel, (outText_hides _).1 ⟨by decide, by decide, by decide⟩ _ _ _ _ rfl
    ⟨_, List.mem_singleton_self _, by decide⟩⟩

/-- A value of two lines is printed as it is, and so is one with an asterisk. -/
theorem outText_shows : (run (printingHost "a\nb" "a\n" "b\n") printingPlan "j").outText = ofString "a\nb" ∧
    (run (printingHost "a*" "aa*\n" "") printingPlan "j").outText = ofString "a***" := by
  decide +kernel

end Forgelet.Executor
