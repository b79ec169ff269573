import Forgelet.Expression.Proofs.ConditionProofs
import Forgelet.Expression.Proofs.LiteralProofs
import Forgelet.Lib.EntryOrder
import Forgelet.Lib.Replace
import Forgelet.Server.Proofs.ConditionProofs

/-!
# Proofs: which attempts a condition sees

`needs` shows the last attempt of every key in the list of records, and the status of the job comes from the last
dependency with a failed or cancelled attempt, and there from the first such attempt. Two lists with the same keys are
told apart by a condition exactly if they differ in one of these.
-/

namespace Forgelet.Server

open Bytes (ofString byte)
open DurableStore (pushEvent intentOf)
open Expression (Env Value Node Tok Lexes Parses lexes_token lexes_quoted quoted escaped opening evalNode parse)
open Expression.Value (looseEqual objKey text)

variable {rec rec' : JobRunRecord} {runs runs' : List JobRunRecord} {key : String}

/-- The attempt of `key` that `needs` shows. -/
def lastOf (runs : List JobRunRecord) (key : String) : Option JobRunRecord := runs.reverse.find? (·.jobKey = key)

/-- The result that `needs` shows for `key`. -/
def shownResult (runs : List JobRunRecord) (key : String) : Option String :=
  (lastOf runs key).map (githubResultName ·.status)

/-- The attempt that decides about the status of `rec`. -/
def deciding (rec : JobRunRecord) (runs : List JobRunRecord) : Option JobRunRecord :=
  rec.dependsOn.reverse.findSome? fun depKey => runs.find? (stopped depKey)

/-! ## The results -/

theorem nodup_needsMap (runs : List JobRunRecord) : ((needsMap runs).map (·.1)).Nodup := by
  induction runs using List.reverseRecOn with
  | nil => exact List.nodup_nil
  | append_singleton runs r ih =>
    rw [needsMap, List.foldl_concat]
    exact Entries.nodup_assign _ _ ih

theorem find?_needsMap_ofString (runs : List JobRunRecord) (key : String) :
    Entries.find? (ofString key) (needsMap runs) =
      (shownResult runs key).map fun name => .obj [(ofString "result", text name)] := by
  rw [find?_needsMap, shownResult, lastOf, Option.map_map]
  simp only [Bytes.ofString_injective.eq_iff]
  rfl

theorem lastOf_eq_none : lastOf runs key = none ↔ key ∉ runs.map (·.jobKey) := by
  rw [lastOf, List.find?_eq_none]
  simp

theorem needsContext_of_shownResult (h : ∀ key, shownResult runs key = shownResult runs' key) :
    needsContext runs = needsContext runs' := by
  refine Entries.insertionSort_eq_of_perm (Entries.perm_of_find? (nodup_needsMap runs) (nodup_needsMap runs') ?_)
    (nodup_needsMap runs)
  intro k
  by_cases hk : ∃ key, k = ofString key
  · obtain ⟨key, rfl⟩ := hk
    rw [find?_needsMap_ofString, find?_needsMap_ofString, h key]
  · have hnone : ∀ runs : List JobRunRecord, Entries.find? k (needsMap runs) = none := by
      intro runs
      rw [find?_needsMap, Option.map_eq_none_iff, List.find?_eq_none]
      intro r _ hr
      exact hk ⟨r.jobKey, (of_decide_eq_true hr).symm⟩
    rw [hnone, hnone]

/-! ## The status -/

/-- The status that an attempt gives to a job that depends on it. -/
def statusOf : Option JobRunRecord → String
  | none => "success"
  | some r => if r.status = .cancelled then "cancelled" else "failure"

theorem conditionStatus_eq (runs : List JobRunRecord) (status : String) (deps : List String) :
    conditionStatus runs status deps =
      (deps.reverse.findSome? fun depKey => runs.find? (stopped depKey)).elim status (statusOf ∘ some) := by
  induction deps generalizing status with
  | nil => rfl
  | cons depKey rest ih =>
    rw [conditionStatus, List.reverse_cons, List.findSome?_append, List.findSome?_singleton]
    cases runs.find? (stopped depKey) with
    | none => rw [Option.or_none, ← ih]
    | some r =>
      dsimp only
      rw [ih]
      cases rest.reverse.findSome? fun depKey => runs.find? (stopped depKey) <;> rfl

theorem conditionStatus_deciding (rec : JobRunRecord) (runs : List JobRunRecord) :
    conditionStatus runs "success" rec.dependsOn = statusOf (deciding rec runs) := by
  rw [conditionStatus_eq, deciding]
  cases rec.dependsOn.reverse.findSome? fun depKey => runs.find? (stopped depKey) <;> rfl

/-- Only a failed or a cancelled attempt decides. -/
theorem status_deciding {r} (h : deciding rec runs = some r) : r.status = .failed ∨ r.status = .cancelled := by
  obtain ⟨depKey, -, hfind⟩ := List.exists_of_findSome?_eq_some h
  have hstopped := List.find?_some hfind
  rw [stopped, Bool.and_eq_true, Bool.or_eq_true, decide_eq_true_eq, decide_eq_true_eq,
    decide_eq_true_eq] at hstopped
  exact hstopped.2

theorem statusOf_eq_iff : statusOf (deciding rec runs) = statusOf (deciding rec' runs') ↔
      (deciding rec runs).map (·.status) = (deciding rec' runs').map (·.status) := by
  have hstatus : ∀ (rec : JobRunRecord) (runs : List JobRunRecord),
      (deciding rec runs).map (·.status) = none ∧ statusOf (deciding rec runs) = "success" ∨
      (deciding rec runs).map (·.status) = some .failed ∧ statusOf (deciding rec runs) = "failure" ∨
      (deciding rec runs).map (·.status) = some .cancelled ∧ statusOf (deciding rec runs) = "cancelled" := by
    intro rec runs
    cases hd : deciding rec runs with
    | none => exact .inl ⟨rfl, rfl⟩
    | some r => rcases status_deciding hd with hr | hr <;> simp [statusOf, hr]
  rcases hstatus rec runs with ⟨hm, hs⟩ | ⟨hm, hs⟩ | ⟨hm, hs⟩ <;>
    rcases hstatus rec' runs' with ⟨hm', hs'⟩ | ⟨hm', hs'⟩ | ⟨hm', hs'⟩ <;>
      rw [hm, hm', hs, hs'] <;> decide

/-! ## Asking for a result -/

/-- The condition that asks whether the result of `key` is `name`. -/
def asksFor (key name : String) : String := "always() && needs['" ++ key ++ "'].result == '" ++ name ++ "'"

/-- A key that can stand in a condition as it is. -/
structure Askable (key : String) : Prop where
  quote : byte '\'' ∉ ofString key
  opening : Bytes.contains (ofString key) opening = false

/-- The tokens of `asksFor`. -/
def asksForToks (key name : String) : List Tok :=
  [.ident (ofString "always"), .punct .lparen, .punct .rparen, .punct .and, .ident (ofString "needs"), .punct .lbrack,
    .string (ofString key), .punct .rbrack, .punct .dot, .ident (ofString "result"), .punct .eq,
    .string (ofString name)]

/-- The syntax tree of `needs[key].result`. -/
def resultNode (key : String) : Node :=
  .member (.member (.ident (ofString "needs")) (.literal (text key))) (.literal (text "result"))

/-- The syntax tree of `asksFor`. -/
def asksForNode (key name : String) : Node :=
  .binary .and (.call (ofString "always") []) (.binary .eq (resultNode key) (.literal (text name)))

/-- The results there are. -/
def results : List String := ["success", "failure", "cancelled", "skipped", "pending"]

theorem githubResultName_mem (status : JobRunStatus) : githubResultName status ∈ results := by
  cases status <;> decide

theorem escaped_of_notMem {s : Bytes} (h : byte '\'' ∉ s) : escaped s = s := by
  induction s with
  | nil => rfl
  | cons b s ih =>
    rw [List.mem_cons, not_or] at h
    have hcons : escaped (b :: s) = b :: escaped s := by simp [escaped, Ne.symm h.1]
    rw [hcons, ih h.2]

theorem quoted_of_notMem {s : Bytes} (h : byte '\'' ∉ s) : quoted s = [byte '\''] ++ (s ++ [byte '\'']) := by
  rw [quoted, escaped_of_notMem h]
  rfl

theorem quote_notMem_results : ∀ name ∈ results, byte '\'' ∉ ofString name := by decide

theorem ofString_parts (a b c d e : String) :
    ofString (a ++ b ++ c ++ d ++ e) = ofString a ++ ofString b ++ ofString c ++ ofString d ++ ofString e := by
  rw [Bytes.ofString_append, Bytes.ofString_append, Bytes.ofString_append, Bytes.ofString_append]

theorem ofString_asksFor (h : Askable key) {name} (hname : name ∈ results) : ofString (asksFor key name) =
      ofString "always() && needs[" ++
        (quoted (ofString key) ++ (ofString "].result == " ++ quoted (ofString name))) := by
  have hbefore : ofString "always() && needs['" = ofString "always() && needs[" ++ [byte '\''] := by decide
  have hbetween : ofString "'].result == '" = [byte '\''] ++ (ofString "].result == " ++ [byte '\'']) := by decide
  have hafter : ofString "'" = [byte '\''] := by decide
  refine (ofString_parts ..).trans ?_
  rw [hbefore, hbetween, hafter, quoted_of_notMem h.quote, quoted_of_notMem (quote_notMem_results name hname)]
  simp only [List.append_assoc]

theorem lexes_asksFor (h : Askable key) {name} (hmem : name ∈ results) :
    Lexes (ofString (asksFor key name)) (asksForToks key name ++ [.eof]) := by
  have hname : Lexes (quoted (ofString name)) [.string (ofString name), .eof] := by
    have hone := lexes_quoted (t := []) nofun (ofString name) (.eof rfl)
    rwa [List.append_nil] at hone
  have htail : Lexes (ofString "].result == " ++ quoted (ofString name)) [.punct .rbrack, .punct .dot,
      .ident (ofString "result"), .punct .eq, .string (ofString name), .eof] := by
    refine (lexes_token (ofString "]") rfl rfl).mpr ⟨_, rfl, ?_⟩
    refine (lexes_token (ofString ".") rfl rfl).mpr ⟨_, rfl, ?_⟩
    refine (lexes_token (ofString "result") rfl rfl).mpr ⟨_, rfl, ?_⟩
    refine (lexes_token (ofString "==") rfl rfl).mpr ⟨_, rfl, ?_⟩
    have hblank : Lexes ([byte ' '] ++ (quoted (ofString name) ++ [])) [.string (ofString name), .eof] :=
      (Expression.lexes_blanks (List.all_eq_true.mp rfl) (List.all_eq_true.mp rfl)).mpr hname
    rwa [List.append_nil] at hblank
  rw [ofString_asksFor h hmem]
  refine (lexes_token (ofString "always") rfl rfl).mpr ⟨_, rfl, ?_⟩
  refine (lexes_token (ofString "(") rfl rfl).mpr ⟨_, rfl, ?_⟩
  refine (lexes_token (ofString ")") rfl rfl).mpr ⟨_, rfl, ?_⟩
  refine (lexes_token (ofString "&&") rfl rfl).mpr ⟨_, rfl, ?_⟩
  refine (lexes_token (ofString "needs") rfl rfl).mpr ⟨_, rfl, ?_⟩
  refine (lexes_token (ofString "[") rfl rfl).mpr ⟨_, rfl, ?_⟩
  have hbracket : (ofString "].result == " ++ quoted (ofString name)).head? = some (byte ']') := rfl
  exact lexes_quoted (by rw [hbracket]; decide) (ofString key) htail

theorem parses_asksFor (key name : String) :
    Parses .or (asksForToks key name ++ [.eof]) (asksForNode key name) [.eof] := by
  have hliteral : ∀ {s r}, Parses .unary (.string s :: .punct .rbrack :: r) (.literal (.str s)) (.punct .rbrack :: r) :=
    .plain nofun (.chain .string (.chainEnd nofun nofun))
  have hneeds : Parses .unary ((asksForToks key name).drop 4 ++ [.eof]) (resultNode key)
      [.punct .eq, .string (ofString name), .eof] :=
    .plain nofun (.chain (.ident rfl nofun) (.index (.or (.and (.compare hliteral (.compareEnd rfl)) (.andEnd nofun))
      (.orEnd nofun)) (.dot (.ident rfl nofun) rfl (.chainEnd nofun nofun))))
  have hname : Parses .unary [.string (ofString name), .eof] (.literal (text name)) [.eof] :=
    .plain nofun (.chain .string (.chainEnd nofun nofun))
  have hequal : Parses .compare ((asksForToks key name).drop 4 ++ [.eof])
      (.binary .eq (resultNode key) (.literal (text name))) [.eof] :=
    .compare hneeds (.compareMore rfl hname (.compareEnd rfl))
  have halways : Parses .compare (asksForToks key name ++ [.eof]) (.call (ofString "always") [])
      ((asksForToks key name).drop 3 ++ [.eof]) :=
    .compare (.plain nofun (.chain (.callEmpty rfl) (.chainEnd nofun nofun))) (.compareEnd rfl)
  exact .or (.and halways (.andMore hequal (.andEnd nofun))) (.orEnd nofun)

theorem opening_notMem_asksFor (h : Askable key) {name} (hname : name ∈ results) :
    Bytes.contains (ofString (asksFor key name)) opening = false := by
  have hends : ∀ name ∈ results,
      Bytes.contains (ofString "].result == " ++ quoted (ofString name)) opening = false := by
    decide +kernel
  have hstart : Bytes.contains (ofString "always() && needs[") opening = false := by decide
  rw [Bool.eq_false_iff, ne_eq, Bytes.contains_iff_infix, ofString_asksFor h hname, quoted_of_notMem h.quote]
  intro hin
  have hquote : byte '\'' ∉ opening := by decide
  rw [List.append_assoc, List.singleton_append, List.append_assoc, List.singleton_append] at hin
  have hnot : ∀ {s : Bytes}, Bytes.contains s opening = false → ¬opening <:+: s := by
    intro s hs hsub
    rw [Bytes.contains_iff_infix.mpr hsub] at hs
    cases hs
  -- the quotes cut the text into parts
  rcases Replace.infix_append_cons hquote hin with hin | hin
  · exact hnot hstart hin
  · rcases Replace.infix_append_cons hquote hin with hin | hin
    · exact hnot h.opening hin
    · exact hnot (hends name hname) hin

theorem trimSpace_asksFor (h : Askable key) {name} (hname : name ∈ results) :
    (ofString (asksFor key name)).trimSpace = ofString (asksFor key name) := by
  obtain ⟨rest, hfirst⟩ : ∃ rest, ofString (asksFor key name) = byte 'a' :: rest := by
    rw [ofString_asksFor h hname]
    exact ⟨_, rfl⟩
  obtain ⟨front, hlast⟩ : ∃ front, ofString (asksFor key name) = front ++ [byte '\''] := by
    rw [ofString_asksFor h hname, quoted_of_notMem (quote_notMem_results name hname)]
    simp only [← List.append_assoc]
    exact ⟨_, rfl⟩
  have hedges : Bytes.trimSpace ([] ++ (ofString (asksFor key name) ++ [])) = ofString (asksFor key name) :=
    Bytes.trimSpace_of_edges (fun _ h => (List.not_mem_nil h).elim) (fun _ h => (List.not_mem_nil h).elim) hfirst hlast
      ⟨by decide, by decide⟩ ⟨by decide, by decide⟩
  rw [List.nil_append, List.append_nil] at hedges
  exact hedges

theorem stands_asksFor (h : Askable key) {name} (hname : name ∈ results) :
    Expression.stands (ofString (asksFor key name)).trimSpace := by
  obtain ⟨rest, hrest⟩ : ∃ rest, ofString (asksFor key name) = ofString "always(" ++ rest := by
    rw [ofString_asksFor h hname]
    exact ⟨_, rfl⟩
  have hlower : (ofString "always(" ++ rest).toLower = ofString "always(" ++ rest.toLower := by
    have hascii : (ofString "always(").all (decide <| Bytes.IsAscii ·) := by decide
    unfold Bytes.toLower Bytes.runes
    rw [Bytes.chunks_ascii_append (by simpa using hascii), List.map_append, List.flatMap_append]
    congr 1
  have hcall : Expression.mentionsStatusFunction (ofString "always(" ++ rest) := by
    refine List.any_eq_true.mpr ⟨ofString "always(", by decide, ?_⟩
    rw [hlower, Bytes.contains_iff_infix]
    exact (List.prefix_append ..).isInfix
  rw [trimSpace_asksFor h hname, hrest, Expression.stands, hcall]
  rfl

theorem objKey_needsContext {shown} (hshown : shownResult runs key = some shown) :
    objKey (needsContext runs) (ofString key) = .obj [(ofString "result", text shown)] := by
  have hfind : Entries.find? (ofString key) (needsContext runs) =
      some (.obj [(ofString "result", text shown)]) := by
    have hsorted := Entries.find?_perm (List.perm_insertionSort (fun a b => Bytes.le a.1 b.1 = true) _).symm
      (nodup_needsMap runs) (ofString key)
    rw [needsContext, ← hsorted, find?_needsMap_ofString, hshown]
    rfl
  rw [objKey, hfind]

/-- The environment answers whether `key` has the result. -/
theorem checkCondition_asksFor (ev : Event) (rec : JobRunRecord) (h : Askable key) {name} (hname : name ∈ results)
    {shown} (hshown : shownResult runs key = some shown) :
    checkCondition ev rec runs (asksFor key name) = .ok (looseEqual (text shown) (text name)) := by
  have hneeds : (jobConditionEnv ev rec runs).lookup (ofString "needs") = some (.obj (needsContext runs)) := rfl
  have hmember : evalNode (jobConditionEnv ev rec runs) (resultNode key) = .ok (text shown) := by
    simp only [resultNode, evalNode, hneeds]
    show Except.ok (Expression.memberOf (objKey (needsContext runs) (ofString key)) _) = _
    rw [objKey_needsContext hshown]
    rfl
  have heval : Expression.eval (ofString (asksFor key name)) (jobConditionEnv ev rec runs) =
      .ok (.bool (looseEqual (text shown) (text name))) := by
    rw [Expression.eval, Expression.parse_iff.mpr ⟨_, lexes_asksFor h hname, parses_asksFor key name⟩]
    have halways : evalNode (jobConditionEnv ev rec runs) (.call (ofString "always") []) = .ok (.bool true) := rfl
    have hequal : evalNode (jobConditionEnv ev rec runs) (.binary .eq (resultNode key) (.literal (text name))) =
        .ok (.bool (looseEqual (text shown) (text name))) := by
      rw [evalNode, hmember]
      rfl
    show evalNode _ (asksForNode key name) = _
    rw [asksForNode, evalNode, halways, hequal]
    rfl
  unfold checkCondition
  rw [Expression.evaluateCondition_expr (opening_notMem_asksFor h hname) heval, stands_asksFor h hname, Bool.or_true,
    Bool.and_true]
  rfl

theorem looseEqual_results : ∀ name ∈ results, ∀ shown ∈ results,
    looseEqual (text shown) (text name) = decide (shown = name) := by
  decide +kernel

theorem shownResult_mem {shown} (h : shownResult runs key = some shown) : shown ∈ results := by
  obtain ⟨r, -, rfl⟩ := Option.map_eq_some_iff.mp h
  exact githubResultName_mem r.status

theorem shownResult_eq_none : shownResult runs key = none ↔ key ∉ runs.map (·.jobKey) := by
  rw [shownResult, Option.map_eq_none_iff, lastOf_eq_none]

section

variable (ev : Event) (h : ∀ cond, checkCondition ev rec runs cond = checkCondition ev rec' runs' cond)
include h

theorem shownResult_of_conditions (hkeys : ∀ key, key ∈ runs.map (·.jobKey) ↔ key ∈ runs'.map (·.jobKey))
    (hask : ∀ key ∈ runs.map (·.jobKey), Askable key) (key : String) :
    shownResult runs key = shownResult runs' key := by
  cases hshown : shownResult runs key with
  | none =>
    rw [shownResult_eq_none, hkeys, ← shownResult_eq_none] at hshown
    exact hshown.symm
  | some shown =>
    have hmem : key ∈ runs.map (·.jobKey) := by
      by_contra hnot
      rw [shownResult_eq_none.mpr hnot] at hshown
      cases hshown
    obtain ⟨shown', hshown'⟩ : ∃ shown', shownResult runs' key = some shown' := by
      refine Option.ne_none_iff_exists'.mp fun hnone => ?_
      exact shownResult_eq_none.mp hnone ((hkeys key).mp hmem)
    have hname := shownResult_mem hshown
    -- the lists give the same answer to the question for the result that the first one shows
    have hcond := h (asksFor key shown)
    rw [checkCondition_asksFor ev rec (hask key hmem) hname hshown,
      checkCondition_asksFor ev rec' (hask key hmem) hname hshown', Except.ok.injEq,
      looseEqual_results shown hname shown hname,
      looseEqual_results shown hname shown' (shownResult_mem hshown'), decide_eq_decide] at hcond
    rw [hshown', hcond.mp rfl]

theorem conditionStatus_of_conditions :
    conditionStatus runs "success" rec.dependsOn = conditionStatus runs' "success" rec'.dependsOn := by
  have hsuccess := h "success()"
  have hfailure := h "failure()"
  rw [checkCondition_success, checkCondition_success, Except.ok.injEq, decide_eq_decide] at hsuccess
  rw [checkCondition_failure, checkCondition_failure, Except.ok.injEq, decide_eq_decide] at hfailure
  -- the two questions tell the three statuses apart
  rcases conditionStatus_cases runs "success" rec.dependsOn with heq | heq | heq
  · rw [heq, hsuccess.mp heq]
  · rw [heq, hfailure.mp heq]
  · rcases conditionStatus_cases runs' "success" rec'.dependsOn with heq' | heq' | heq'
    · rw [heq', hsuccess.mpr heq']
    · rw [heq', hfailure.mpr heq']
    · rw [heq, heq']

end

/-- The last attempts of every key show the same result, and the attempts that decide have the same status. -/
def SameAttempts (rec rec' : JobRunRecord) (runs runs' : List JobRunRecord) : Prop :=
  (∀ key, shownResult runs key = shownResult runs' key) ∧
    (deciding rec runs).map (·.status) = (deciding rec' runs').map (·.status)

/-- An attempt of the job `key` with the given status. -/
def attemptOf (key : String) (dependsOn : List String) (attempt : Nat) (status : JobRunStatus) :
    JobRunRecord :=
  { DurableStore.newJob key "run" (intentOf key dependsOn "") 0 with attempt := attempt, status := status }

end Forgelet.Server
