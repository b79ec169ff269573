import Forgelet.Security.TokenReview

/-!
# Proofs: which tokens are verified

`Verify` accepts what the API authenticates, if the user name is that of the executor's service account and the pod is
bound to a job. It does not look at the audiences that the API reports.
-/

namespace Forgelet.TokenReview

open GoString (cut_eq_some hasPrefix_iff trimPrefix_append)

theorem containsList_singleton (c : Char) (cs : List Char) : GoString.containsList cs [c] ↔ c ∈ cs := by
  induction cs with
  | nil => simp [GoString.containsList]
  | cons d cs ih =>
    rw [GoString.containsList, Bool.or_eq_true, ih, List.mem_cons, List.isPrefixOf_iff_prefix, List.cons_prefix_cons]
    simp

theorem contains_colon (s : String) : GoString.contains s ":" ↔ ':' ∈ s.toList :=
  containsList_singleton ':' s.toList

theorem parseServiceAccount_iff {username ns sa} : parseServiceAccount username = .ok (ns, sa) ↔
      username = serviceAccountStart ++ (ns ++ (":" ++ sa)) ∧ ns ≠ "" ∧ sa ≠ "" ∧ ':' ∉ ns.toList ∧
        ':' ∉ sa.toList := by
  unfold parseServiceAccount
  constructor
  · intro h
    split_ifs at h with hstart
    rw [Bool.not_eq_false] at hstart
    obtain ⟨rest, rfl⟩ := hasPrefix_iff.mp hstart
    rw [trimPrefix_append] at h
    cases hcut : GoString.cut rest ':' with
    | none =>
      rw [hcut] at h
      cases h
    | some parts =>
      rw [hcut] at h
      dsimp only at h
      split_ifs at h with hbad
      cases h
      rw [not_or, not_or, contains_colon] at hbad
      obtain ⟨hrest, hns⟩ := cut_eq_some.mp hcut
      refine ⟨?_, hbad.1, hbad.2.1, hns, hbad.2.2⟩
      congr 1
      exact String.toList_inj.mp (by rw [hrest, String.toList_append, String.toList_append]; rfl)
  · rintro ⟨rfl, hns, hsa, hns', hsa'⟩
    have hcut : GoString.cut (ns ++ (":" ++ sa)) ':' = some (ns, sa) :=
      cut_eq_some.mpr ⟨by rw [String.toList_append, String.toList_append]; rfl, hns'⟩
    have hstart : GoString.hasPrefix (serviceAccountStart ++ (ns ++ (":" ++ sa))) serviceAccountStart :=
      hasPrefix_iff.mpr ⟨_, rfl⟩
    rw [hstart, if_neg (by decide), trimPrefix_append, hcut]
    dsimp only
    rw [if_neg]
    rw [not_or, not_or, contains_colon]
    exact ⟨hns, hsa, hsa'⟩

/-- A value is the only one under the first of two keys that has exactly one value. -/
def Single (extra : GoMap String (List String)) (oldKey newKey value : String) : Prop :=
  extra.lookup oldKey = some [value] ∨
    (∀ other, extra.lookup oldKey ≠ some [other]) ∧ extra.lookup newKey = some [value]

theorem onlyValue_iff {values value} : onlyValue values = some value ↔ values = some [value] := by
  match values with
  | none => simp [onlyValue]
  | some [] => simp [onlyValue]
  | some [v] => simp [onlyValue]
  | some (_ :: _ :: _) => simp [onlyValue]

theorem lookupExtra_iff {extra oldKey newKey value} :
    lookupExtra extra oldKey newKey = some value ↔ Single extra oldKey newKey value := by
  have hboth : lookupExtra extra oldKey newKey =
      (onlyValue (extra.lookup oldKey)).or (onlyValue (extra.lookup newKey)) := by
    unfold lookupExtra
    rw [List.findSome?_cons, List.findSome?_cons, List.findSome?_nil]
    cases onlyValue (extra.lookup oldKey) <;> cases onlyValue (extra.lookup newKey) <;> rfl
  unfold Single
  rw [hboth, Option.or_eq_some_iff, onlyValue_iff, onlyValue_iff, Option.eq_none_iff_forall_ne_some]
  simp only [ne_eq, onlyValue_iff]

theorem extras_iff {extra podUID podName} :
    extras extra = .ok (podUID, podName) ↔ podUIDOf extra = some podUID ∧ podNameOf extra = some podName := by
  unfold extras
  cases podUIDOf extra with
  | none => simp
  | some uid =>
    cases podNameOf extra with
    | none | some => simp

/-- A verifier with all it needs; names of Kubernetes have no colon in them. -/
structure Verifier.Configured (v : Verifier) (bindings : BindingSource) : Prop where
  bindings : v.bindings = some bindings
  audience : v.audience ≠ ""
  ns : v.ns ≠ "" ∧ ':' ∉ v.ns.toList
  saName : v.saName ≠ "" ∧ ':' ∉ v.saName.toList

/-- The identity that a verifier makes for a pod. -/
def Verifier.identity (v : Verifier) (now : Time) (podUID : String) (jobRunID : JobRunID) : Verified where
  jobRunID := jobRunID
  scopes := v.scopes
  audience := v.audience
  ns := v.ns
  podUID := podUID
  tokenID := "sa:" ++ v.saName ++ ":" ++ podUID
  issuedAt := now

theorem verifyStatus_iff {v bindings} (h : v.Configured bindings) (now : Time) (status : Status) (ident : Verified) :
    verifyStatus v bindings now status = .ok ident ↔
      status.authenticated ∧ status.username = serviceAccountStart ++ (v.ns ++ (":" ++ v.saName)) ∧
      ∃ podUID podName jobRunID, podUIDOf status.extra = some podUID ∧ podNameOf status.extra = some podName ∧
        bindings v.ns podName podUID = .ok jobRunID ∧ ident = v.identity now podUID jobRunID := by
  unfold verifyStatus
  constructor
  · intro hok
    split_ifs at hok with hauth
    cases hparse : parseServiceAccount status.username with
    | error err =>
      rw [hparse] at hok
      cases hok
    | ok names =>
      rw [hparse] at hok
      dsimp only at hok
      split_ifs at hok with hns hsa
      cases hextras : extras status.extra with
      | error err =>
        rw [hextras] at hok
        cases hok
      | ok pod =>
        rw [hextras] at hok
        dsimp only at hok
        cases hbound : bindings names.1 pod.2 pod.1 with
        | error err =>
          rw [hbound] at hok
          cases hok
        | ok jobRunID =>
          rw [hbound] at hok
          rw [not_not] at hns hsa
          obtain ⟨husername, -⟩ := parseServiceAccount_iff.mp hparse
          obtain ⟨huid, hname⟩ := extras_iff.mp hextras
          refine ⟨by simpa using hauth, by rw [husername, hns, hsa], pod.1, pod.2, jobRunID, huid, hname, ?_, ?_⟩
          · rw [← hns]
            exact hbound
          · rw [← Except.ok.inj hok, Verifier.identity, hns, hsa]
  · rintro ⟨hauth, husername, podUID, podName, jobRunID, huid, hname, hbound, rfl⟩
    have hparse : parseServiceAccount status.username = .ok (v.ns, v.saName) :=
      parseServiceAccount_iff.mpr ⟨husername, h.ns.1, h.saName.1, h.ns.2, h.saName.2⟩
    rw [if_neg (by rw [hauth]; decide), hparse]
    dsimp only
    rw [if_neg (not_not.mpr rfl), if_neg (not_not.mpr rfl), extras_iff.mpr ⟨huid, hname⟩]
    dsimp only
    rw [hbound]
    rfl

/-- The answer names the account of the verifier and a pod that is bound to a job. -/
def BoundPod (v : Verifier) (bindings : BindingSource) (status : Status) (podUID : String) (jobRunID : JobRunID) :
    Prop :=
  status.username = serviceAccountStart ++ (v.ns ++ (":" ++ v.saName)) ∧
    ∃ podName, Single status.extra "authentication.k8s.io/pod-uid" "authentication.kubernetes.io/pod-uid" podUID ∧
      Single status.extra "authentication.k8s.io/pod-name" "authentication.kubernetes.io/pod-name" podName ∧
      bindings v.ns podName podUID = .ok jobRunID

/-- What `Verify` checks. -/
theorem verify_ok_iff {v bindings} (h : v.Configured bindings) {api} (now : Time) {raw status}
    (hreview : api raw [v.audience] = .ok status) (ident : Verified) :
    verify v api now raw = .ok ident ↔ status.authenticated ∧
      ∃ podUID jobRunID, BoundPod v bindings status podUID jobRunID ∧ ident = v.identity now podUID jobRunID := by
  have hverify : verify v api now raw = verifyStatus v bindings now status := by
    unfold verify
    rw [h.bindings]
    dsimp only
    rw [if_neg (by rw [not_or, not_or]; exact ⟨h.audience, h.ns.1, h.saName.1⟩), hreview]
  rw [hverify, verifyStatus_iff h]
  simp only [podUIDOf, podNameOf, lookupExtra_iff]
  constructor
  · rintro ⟨hauth, husername, podUID, podName, jobRunID, huid, hname, hbound, hident⟩
    exact ⟨hauth, podUID, jobRunID, ⟨husername, podName, huid, hname, hbound⟩, hident⟩
  · rintro ⟨hauth, podUID, jobRunID, ⟨husername, podName, huid, hname, hbound⟩, hident⟩
    exact ⟨hauth, husername, podUID, podName, jobRunID, huid, hname, hbound, hident⟩

/-- `Verify` returns an identity exactly for the tokens with its audience of bound pods of the executor's service
account, if and only if the API does not authenticate such a pod for other audiences. -/
theorem verify_iff {v : Verifier} {bindings : BindingSource} (h : v.Configured bindings) (api : ReviewAPI) (now : Time)
    (raw : String) {status : Status} (hreview : api raw [v.audience] = .ok status) :
    (∀ ident, verify v api now raw = .ok ident ↔ status.authenticated ∧ v.audience ∈ status.audiences ∧
      ∃ podUID jobRunID, BoundPod v bindings status podUID jobRunID ∧ ident = v.identity now podUID jobRunID) ↔
    (status.authenticated → (∃ podUID jobRunID, BoundPod v bindings status podUID jobRunID) →
      v.audience ∈ status.audiences) := by
  simp only [verify_ok_iff h now hreview]
  constructor
  · rintro hexact hauth ⟨podUID, jobRunID, hpod⟩
    exact ((hexact _).mp ⟨hauth, podUID, jobRunID, hpod, rfl⟩).2.1
  · intro haudience ident
    constructor
    · rintro ⟨hauth, podUID, jobRunID, hpod, hident⟩
      exact ⟨hauth, haudience hauth ⟨podUID, jobRunID, hpod⟩, podUID, jobRunID, hpod, hident⟩
    · rintro ⟨hauth, -, hpod⟩
      exact ⟨hauth, hpod⟩

/-- A pod with the label of its job run. -/
def somePodLabels : BindingSource :=
  podLabelBindings (fun _ _ => .ok ⟨"u1", (∅ : GoMap String String).insert defaultJobRunLabel "ii"⟩) defaultJobRunLabel

/-- A verifier that reads the labels. -/
def someVerifier : Verifier where
  audience := "forgelet-control-plane"
  ns := "forgelet-jobs"
  saName := "forgelet-executor"
  scopes := ["plan:read", "secrets:read", "status:write"]
  bindings := some somePodLabels

/-- A verifier with a table. -/
def tableVerifier : Verifier :=
  { someVerifier with bindings := some (inMemoryBindings ((∅ : GoMap String JobRunID).insert "u1" "ii")) }

/-- The answer for a token of that pod, with some audiences. -/
def somePodStatus (audiences : List String) : Status where
  authenticated := true
  error := ""
  audiences := audiences
  username := "system:serviceaccount:forgelet-jobs:forgelet-executor"
  extra := ((∅ : GoMap String (List String)).insert "authentication.kubernetes.io/pod-uid" ["u1"]).insert
    "authentication.k8s.io/pod-name" ["p1"]

/-- The token of a pod of the job is accepted. -/
theorem verify_iff_pod : verify someVerifier (fun _ audiences => .ok (somePodStatus audiences)) 5 "t" =
      .ok (someVerifier.identity 5 "u1" "ii") := by
  have hold : (somePodStatus [someVerifier.audience]).extra.lookup "authentication.k8s.io/pod-uid" = none := rfl
  have huid : ∀ other,
      (somePodStatus [someVerifier.audience]).extra.lookup "authentication.k8s.io/pod-uid" ≠ some [other] := by
    intro other h
    rw [hold] at h
    cases h
  have hpod : BoundPod someVerifier somePodLabels (somePodStatus [someVerifier.audience]) "u1" "ii" :=
    ⟨by decide, "p1", .inr ⟨huid, rfl⟩, .inl rfl, rfl⟩
  exact ((verify_iff ⟨rfl, by decide, ⟨by decide, by decide⟩, by decide, by decide⟩ _ 5 "t" rfl).mpr
    (fun _ _ => by decide) _).mpr ⟨rfl, by decide, "u1", "ii", hpod, rfl⟩

/-- The API knows nothing of audiences: the token may be for anyone, and it is accepted. -/
theorem verify_any_audience :
    (verify someVerifier (fun _ _ => .ok (somePodStatus [])) 5 "t" = .ok (someVerifier.identity 5 "u1" "ii") ∧
      verify tableVerifier (fun _ _ => .ok (somePodStatus [])) 5 "t" = .ok (tableVerifier.identity 5 "u1" "ii")) ∧
      someVerifier.audience ∉ (somePodStatus []).audiences ∧ tableVerifier.audience ∉ (somePodStatus []).audiences := by
  decide +kernel

end Forgelet.TokenReview
