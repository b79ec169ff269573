import Forgelet.Server.Proofs.PlansProofs
import Forgelet.Server.Proofs.ReferencesProofs

/-!
# Proofs: secrets in the environment of a job

Every entry of the environment becomes a reference or stays. Which of the two is decided by the beginning and the end
of its value.
-/

namespace Forgelet.Server

open Bytes (ofString)
open GoString (isSpace trimSpace)
open Compiler (JobInstance not_mem_of_isIdentifier)
open Syntax (isIdentifier isIdentifierList)

/-- The value is one placeholder of the secret `name`. -/
def Single (v name : String) : Prop :=
  trimSpace v = "$\x7b\x7b secrets." ++ name ++ " \x7d\x7d" ∧ isIdentifier name

theorem not_isSpace_of_isIdentifier {name} (h : isIdentifier name) {c} (hc : c ∈ name.toList) :
    isSpace c = false := by
  by_contra hspace
  rw [Bool.not_eq_false] at hspace
  refine not_mem_of_isIdentifier ?_ h hc
  have hne : c ≠ '_' ∧ c ≠ '-' := by
    constructor <;> rintro rfl <;> exact absurd hspace (by decide)
  simp only [isSpace, Bool.or_eq_true, Bool.and_eq_true, decide_eq_true_eq, beq_iff_eq] at hspace
  simp only [isIdentifierList, beq_eq_false_iff_ne.mpr hne.1, beq_eq_false_iff_ne.mpr hne.2, Bool.or_false]
  rw [if_neg, if_neg]
  · simp only [Bool.and_eq_true, decide_eq_true_eq]
    omega
  · simp only [Bool.or_eq_true, Bool.and_eq_true, decide_eq_true_eq]
    omega

theorem trimSpace_identifier {name} (h : isIdentifier name) : trimSpace (name ++ " ") = name := by
  have hkeep : ∀ {cs more : List Char}, cs ⊆ name.toList → cs ≠ [] →
      (cs ++ more).dropWhile isSpace = cs ++ more := by
    intro cs more hcs hne
    obtain ⟨c, rest, rfl⟩ := List.exists_cons_of_ne_nil hne
    rw [List.cons_append, List.dropWhile_cons_of_neg (by simp [not_isSpace_of_isIdentifier h (hcs (.head _))])]
  have hne : name.toList ≠ [] := by
    intro hnil
    rw [isIdentifier, if_pos (String.toList_eq_nil_iff.mp hnil)] at h
    cases h
  have hback : (name.toList.reverse ++ []).dropWhile isSpace = name.toList.reverse ++ [] :=
    hkeep (List.reverse_subset.mpr (List.Subset.refl _)) (by simpa using hne)
  rw [List.append_nil] at hback
  rw [trimSpace, GoString.trimSpaceList, String.toList_append, hkeep (List.Subset.refl _) hne,
    List.reverse_append]
  change String.ofList (List.dropWhile isSpace (' ' :: name.toList.reverse)).reverse = name
  rw [List.dropWhile_cons_of_pos (by decide), hback, List.reverse_reverse, String.ofList_toList]

/-- The trimmed value begins and ends as a placeholder, around `w`. -/
def Around (v w : String) : Prop := trimSpace v = "$\x7b\x7b secrets." ++ (w ++ "\x7d\x7d")

theorem secretRefName_append (v w : String) (h : Around v w) :
    secretRefName v = if trimSpace w = "" then none else some (trimSpace w) := by
  have hstart : GoString.hasPrefix ("$\x7b\x7b secrets." ++ (w ++ "\x7d\x7d")) "$\x7b\x7b secrets." :=
    GoString.hasPrefix_iff.mpr ⟨_, rfl⟩
  have hstop : GoString.hasSuffix ("$\x7b\x7b secrets." ++ (w ++ "\x7d\x7d")) "\x7d\x7d" := by
    rw [← String.append_assoc]
    exact (GoString.trimSuffix_append _ _).1
  unfold secretRefName
  dsimp only
  rw [h, hstart, hstop, GoString.trimPrefix_append, (GoString.trimSuffix_append _ _).2, if_neg (by decide)]

/-- The two ends of a recognized value do not overlap. -/
theorem exists_of_secretRefName {v name} (h : secretRefName v = some name) : ∃ w, Around v w := by
  unfold secretRefName at h
  dsimp only at h
  split_ifs at h with hends
  simp only [Bool.or_eq_true, Bool.not_eq_true', not_or, Bool.not_eq_false] at hends
  obtain ⟨hstart, hstop⟩ := hends
  obtain ⟨rest, hrest⟩ := GoString.hasPrefix_iff.mp hstart
  rw [hrest, GoString.hasSuffix, List.isSuffixOf_iff_suffix, String.toList_append] at hstop
  rcases List.suffix_or_suffix_of_suffix hstop (List.suffix_append _ rest.toList) with hfits | hover
  · obtain ⟨w, hw⟩ := hfits
    refine ⟨String.ofList w, ?_⟩
    rw [Around, hrest, String.append_right_inj, ← String.toList_inj, String.toList_append, String.toList_ofList, hw]
  · have hends : rest.toList ∈ [[], ['\x7d'], ['\x7d', '\x7d']] := by
      simpa [List.suffix_cons_iff, or_comm, or_left_comm] using hover
    simp only [List.mem_cons, List.not_mem_nil, or_false] at hends
    rcases hends with hnil | hone | htwo
    · rw [hnil] at hstop
      exact absurd hstop (by decide)
    · rw [hone] at hstop
      exact absurd hstop (by decide)
    · refine ⟨"", ?_⟩
      rw [Around, hrest, String.append_right_inj, ← String.toList_inj, htwo]
      rfl

theorem splitSecrets_lookup {envName : String → Bytes} {kept refs entries} (hnodup : entries.NodupKeys) (k : String) :
    (splitSecrets envName kept refs entries).1.lookup k =
      ((entries.dlookup k).filter fun v => (secretRefName v).isNone).or (kept.lookup k) := by
  induction entries generalizing kept refs with
  | nil => rfl
  | cons e rest ih =>
    obtain ⟨k', v⟩ := e
    rw [List.nodupKeys_cons] at hnodup
    unfold splitSecrets
    by_cases hk : k = k'
    · subst hk
      have hrest : rest.dlookup k = none := List.dlookup_eq_none.mpr hnodup.1
      cases hname : secretRefName v <;> simp [ih hnodup.2, hrest, hname, Option.filter_some]
    · have hrest : List.dlookup k (⟨k', v⟩ :: rest) = rest.dlookup k := List.dlookup_cons_ne rest ⟨k', v⟩ hk
      cases secretRefName v <;> simp [ih hnodup.2, hrest, hk]

/-- The reference that an entry of the environment becomes. -/
def envRef (k name : String) : SecretRef := ⟨"repository", name, ofString k⟩

theorem envRef_mem {env k v} (h : env.lookup k = some v) (name : String) :
    envRef k name ∈ secretRefs ofString env ↔ secretRefName v = some name := by
  constructor
  · intro hmem
    obtain ⟨e, he, href⟩ := List.mem_filterMap.mp hmem
    obtain ⟨name', hname, heq⟩ := Option.map_eq_some_iff.mp href
    rw [envRef, SecretRef.mk.injEq] at heq
    obtain ⟨-, rfl, hk⟩ := heq
    have hlook := (GoMap.mem_entries_iff env e).mp he
    rw [Bytes.ofString_injective hk, h, Option.some_inj] at hlook
    rw [hlook, hname]
  · intro hname
    refine List.mem_filterMap.mpr ⟨⟨k, v⟩, (GoMap.mem_entries_iff env _).mpr h, ?_⟩
    rw [hname]
    rfl

theorem buildPlan_kept {src rec ev inst p} (h : buildPlan src rec ev inst = .ok p) :
    p.env = (splitSecrets ofString ∅ [] inst.env.entries).1 := by
  unfold buildPlan at h
  dsimp only at h
  split at h
  · cases h
  · cases h
    rfl

/-- The trimmed value begins with `${{ secrets.` and ends with `}}` around a text that is not blank and is not an
identifier with one blank behind it. -/
def Misread (v : String) : Prop :=
  ∃ w, Around v w ∧ trimSpace w ≠ "" ∧ ∀ name, isIdentifier name → w ≠ name ++ " "

theorem single_iff {v w name} (h : Around v w) :
    Single v name ↔ w = name ++ " " ∧ isIdentifier name := by
  have hsplit : "$\x7b\x7b secrets." ++ name ++ " \x7d\x7d" = "$\x7b\x7b secrets." ++ (name ++ " " ++ "\x7d\x7d") := by
    simp [String.ext_iff]
  rw [Single, h, hsplit, String.append_right_inj, String.append_left_inj]

/-- The code reads a value as the name just if it should, unless the value is misread. -/
theorem secretRefName_iff_single (v : String) :
    (∀ name, secretRefName v = some name ↔ Single v name) ↔ ¬ Misread v := by
  by_cases hends : ∃ w, Around v w
  · obtain ⟨w, hw⟩ := hends
    have hmisread : Misread v ↔ trimSpace w ≠ "" ∧ ∀ name, isIdentifier name → w ≠ name ++ " " := by
      constructor
      · rintro ⟨w', hw', hread⟩
        rw [Around, hw, String.append_right_inj, String.append_left_inj] at hw'
        exact hw' ▸ hread
      · exact fun hread => ⟨w, hw, hread⟩
    simp only [single_iff hw, hmisread, secretRefName_append v w hw]
    constructor
    · rintro hread ⟨hblank, hnot⟩
      obtain ⟨hname, hident⟩ := (hread (trimSpace w)).mp (by rw [if_neg hblank])
      exact hnot _ hident hname
    · intro hnot name
      constructor
      · intro hname
        split_ifs at hname with hblank
        obtain ⟨name', hident, rfl⟩ : ∃ name', isIdentifier name' ∧ w = name' ++ " " := by
          by_contra hno
          exact hnot ⟨hblank, fun name' hident heq => hno ⟨name', hident, heq⟩⟩
        rw [trimSpace_identifier hident, Option.some_inj] at hname
        exact hname ▸ ⟨rfl, hident⟩
      · rintro ⟨rfl, hident⟩
        have hne : name ≠ "" := by
          rintro rfl
          cases hident
        rw [trimSpace_identifier hident, if_neg hne]
  · refine iff_of_true (fun name => iff_of_false (fun hname => ?_) fun hsingle => ?_) fun ⟨w, hw, _⟩ => hends ⟨w, hw⟩
    · exact hends (exists_of_secretRefName hname)
    · exact hends ⟨name ++ " ", by rw [Around, hsingle.1]; simp [String.ext_iff]⟩

/-- Every entry of the environment is in one place, and in the right one just if its value is not misread. -/
theorem buildPlan_env (src : WorkflowSource) (rec : JobRunRecord) (ev : Event) (inst : JobInstance) (p : Plan)
    (h : buildPlan src rec ev inst = .ok p) :
    p.secretRefs = secretRefs ofString inst.env ++ (routes inst.steps).map Route.ref ∧
    ∀ k v, inst.env.lookup k = some v →
      ((p.env.lookup k = some v ∧ ∀ name, envRef k name ∉ secretRefs ofString inst.env) ∨
        (p.env.lookup k = none ∧ ∃ name, ∀ name', envRef k name' ∈ secretRefs ofString inst.env ↔ name' = name)) ∧
      ((∀ name, envRef k name ∈ secretRefs ofString inst.env ↔ Single v name) ↔ ¬ Misread v) := by
  refine ⟨(buildPlan_ok h).2, fun k v hkv => ?_⟩
  have henv : p.env.lookup k = if (secretRefName v).isNone then some v else none := by
    rw [buildPlan_kept h, splitSecrets_lookup inst.env.nodupKeys]
    change ((inst.env.lookup k).filter _).or _ = _
    rw [hkv, Option.filter_some, AList.lookup_empty, Option.or_none]
  simp only [envRef_mem hkv]
  refine ⟨?_, secretRefName_iff_single v⟩
  rw [henv]
  cases hname : secretRefName v with
  | none => exact .inl ⟨rfl, nofun⟩
  | some name => exact .inr ⟨rfl, name, fun name' => by rw [Option.some_inj, eq_comm]⟩

/-- The plan of a job with one variable. -/
def urlPlan (v : String) : Except Err Plan :=
  buildPlan (ciSource "") (DurableStore.newJob "j" "r" (intentFor Compiler.testInstance) 0) DurableStore.pushEvent
    { Compiler.testInstance with env := (∅ : GoMap String String).insert "URL" v }

/-- Two placeholders are taken for one secret, and the variable is gone. -/
theorem buildPlan_two_placeholders :
    ∃ p, urlPlan "$\x7b\x7b secrets.A \x7d\x7d-$\x7b\x7b secrets.B \x7d\x7d" = .ok p ∧ p.env.lookup "URL" = none ∧
      p.secretRefs = [envRef "URL" "A \x7d\x7d-$\x7b\x7b secrets.B"] := ⟨_, rfl, rfl, rfl⟩

/-- One placeholder, with a blank before it. -/
theorem buildPlan_env_token : ∃ p, urlPlan " $\x7b\x7b secrets.TOKEN \x7d\x7d" = .ok p ∧
    ∀ name, envRef "URL" name ∈ p.secretRefs ↔ Single " $\x7b\x7b secrets.TOKEN \x7d\x7d" name := by
  obtain ⟨hrefs, hentry⟩ := buildPlan_env (ciSource "") _ _ _ _
    (rfl : urlPlan " $\x7b\x7b secrets.TOKEN \x7d\x7d" = .ok _)
  refine ⟨_, rfl, ?_⟩
  rw [hrefs]
  refine (hentry "URL" _ rfl).2.mpr fun ⟨w, hw, _, hnot⟩ => hnot "TOKEN" (by decide) ?_
  have hvalue : trimSpace " $\x7b\x7b secrets.TOKEN \x7d\x7d" =
      "$\x7b\x7b secrets." ++ ("TOKEN " ++ "\x7d\x7d") := by decide
  exact (String.append_left_inj _).mp ((String.append_right_inj _).mp (hw.symm.trans hvalue))

end Forgelet.Server
