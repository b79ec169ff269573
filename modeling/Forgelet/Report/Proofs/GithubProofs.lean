import Mathlib.Data.Finset.Card
import Forgelet.Report.Github

/-!
# Proofs: one check run for each job

`Report` finds the check run of a job on the page that is listed, and creates one if it does not. As long as the page
shows it, there is one check run for each external id, as it was reported last. A second one stays.
-/

namespace Forgelet.Report

open ReportCall (arrives commit page)

variable {g : Github} {c : ReportCall}

variable {commit : Commit} {x : String} {g' : Github} {calls : List ReportCall}

/-- The check runs of a commit with one external id. -/
def Github.under (g : Github) (commit : Commit) (x : String) : List CheckRun :=
  (g.onCommit commit).filter fun r => r.externalID = x

/-- The external ids on a commit. -/
def Github.ids (g : Github) (commit : Commit) : List String := (g.onCommit commit).map (·.externalID)

theorem Github.mem_ids : x ∈ g.ids commit ↔ g.under commit x ≠ [] := by
  unfold ids under
  rw [List.mem_map, ne_eq, List.filter_eq_nil_iff]
  simp

/-! ## One call -/

/-- `Report` does nothing, or updates a check run that is on the page, or creates one. -/
inductive Wrote (c : ReportCall) (g : Github) : Github → Prop
  | nothing (failed : c.arrives = false) : Wrote c g g
  | updated {r page} (arrived : c.arrives) (listed : c.page = some page)
      (found : (page.entries (g.onCommit c.commit)).find? (·.externalID = c.check.externalID) = some r) :
      Wrote c g (g.update c.commit.owner c.commit.repo r.id (checkPayload c.check c.commit.sha))
  | created {page} (arrived : c.arrives) (listed : c.page = some page)
      (absent : (page.entries (g.onCommit c.commit)).find? (·.externalID = c.check.externalID) = none) :
      Wrote c g (g.create c.commit.owner c.commit.repo (checkPayload c.check c.commit.sha))

theorem findByExternalID_ok {existing} (h : findByExternalID c.net g commit x = .ok existing) :
    ∃ page, c.page = some page ∧ (page.entries (g.onCommit commit)).find? (·.externalID = x) = existing := by
  unfold findByExternalID at h
  unfold page
  cases hlisting : c.net.listing with
  | failed err =>
    rw [hlisting] at h
    cases h
  | response code body =>
    rw [hlisting] at h
    dsimp only at h
    split_ifs at h with hcode
    cases body with
    | error err => cases h
    | ok page => exact ⟨page, if_pos (not_not.mp hcode), Except.ok.inj h⟩

theorem findByExternalID_error {err} (h : findByExternalID c.net g commit x = .error err) : c.page = none := by
  unfold findByExternalID at h
  unfold page
  cases hlisting : c.net.listing with
  | failed err => rfl
  | response code body =>
    rw [hlisting] at h
    dsimp only at h
    split_ifs at h with hcode
    · cases body with
      | error err => rfl
      | ok page => exact if_neg hcode
    · cases body with
      | error err => rfl
      | ok page => cases h

theorem report_wrote (baseURL : String) (c : ReportCall) (g : Github) :
    Wrote c g (report baseURL c.net c.run c.check g).2 := by
  have hfailed : c.arrives = false → ∀ {g'}, g' = g → Wrote c g g' := fun hfailed _ heq => heq ▸ .nothing hfailed
  unfold report
  cases htoken : c.net.token with
  | error err => exact hfailed (by simp [arrives, htoken, Except.isOk, Except.toBool]) rfl
  | ok token =>
    dsimp only
    split_ifs with hrepo hsha
    · refine hfailed ?_ rfl
      rcases hrepo with howner | hname
      · simp [arrives, commit, howner]
      · simp [arrives, commit, hname]
    · exact hfailed (by simp [arrives, commit, hsha]) rfl
    · rw [not_or] at hrepo
      cases hfind : findByExternalID c.net g c.commit c.check.externalID with
      | error err =>
        rw [commit] at hfind
        rw [hfind]
        exact hfailed (by simp [arrives, findByExternalID_error hfind]) rfl
      | ok existing =>
        obtain ⟨page, hpage, hfound⟩ := findByExternalID_ok hfind
        have harrives : c.arrives = c.net.write.arrives := by
          simp [arrives, commit, htoken, hrepo, hsha, hpage, Except.isOk, Except.toBool]
        rw [commit] at hfind
        rw [hfind]
        cases existing with
        | none =>
          unfold sendEffect
          split_ifs with hwrite
          · exact .created (harrives.trans hwrite) hpage hfound
          · exact .nothing (by rw [harrives, Bool.not_eq_true] at *; exact hwrite)
        | some r =>
          unfold sendEffect
          split_ifs with hwrite
          · exact .updated (harrives.trans hwrite) hpage hfound
          · exact .nothing (by rw [harrives, Bool.not_eq_true] at *; exact hwrite)

/-! ## What a call leaves -/

theorem Github.onCommit_update (g : Github) (commit : Commit) (id : Nat) (p : CheckPayload) :
    (g.update commit.owner commit.repo id p).onCommit commit =
      (g.onCommit commit).map fun r => if r.id = id then r.update p else r := by
  have hcommit : ∀ r, (rewrite commit.owner commit.repo id p r).commit = r.commit := by
    intro r
    unfold rewrite
    split <;> rfl
  unfold onCommit update
  rw [List.filter_map]
  simp only [Function.comp_def, hcommit]
  refine List.map_congr_left fun r hr => ?_
  have hr' : r.commit = commit := by simpa using (List.mem_filter.mp hr).2
  unfold rewrite
  rw [hr']
  simp

theorem Github.onCommit_create (g : Github) (commit : Commit) (p : CheckPayload) (hsha : p.headSHA = commit.sha) :
    (g.create commit.owner commit.repo p).onCommit commit =
      g.onCommit commit ++ [.create g.next commit.owner commit.repo p] := by
  unfold onCommit create
  rw [List.filter_append, List.filter_singleton]
  simp [CheckRun.create, hsha]

theorem carries_create (id : Nat) (commit : Commit) (check : Check) :
    (CheckRun.create id commit.owner commit.repo (checkPayload check commit.sha)).Carries check where
  name := rfl
  detailsURL := rfl
  status := rfl
  conclusion := rfl
  startedAt t ht := by simp [CheckRun.create, checkPayload, ht]
  completedAt t ht := by simp [CheckRun.create, checkPayload, ht]

theorem carries_update (r : CheckRun) (check : Check) (sha : String) :
    (r.update (checkPayload check sha)).Carries check where
  name := rfl
  detailsURL := rfl
  status := rfl
  conclusion := rfl
  startedAt t ht := by simp [CheckRun.update, checkPayload, ht]
  completedAt t ht := by simp [CheckRun.update, checkPayload, ht]

/-- The check run of the job is the only one under its external id, with its state; others are as they were. -/
structure Upserted (c : ReportCall) (g g' : Github) : Prop where
  one : ∃ r, g'.under c.commit c.check.externalID = [r] ∧ r.Carries c.check
  others : ∀ x, x ≠ c.check.externalID → g'.under c.commit x = g.under c.commit x
  ids : g'.ids c.commit = g.ids c.commit ∧ c.check.externalID ∈ g.ids c.commit ∨
    g'.ids c.commit = g.ids c.commit ++ [c.check.externalID] ∧ c.check.externalID ∉ g.ids c.commit

section Update

variable {r : CheckRun} (hr : r ∈ g.onCommit c.commit) (hid : r.externalID = c.check.externalID)

include hr

/-- Ids are unique, so that only one check run is changed. -/
theorem eq_of_id {r'} (hr' : r' ∈ g.onCommit c.commit) (heq : r'.id = r.id) : r' = r :=
  List.inj_on_of_nodup_map g.distinct (List.mem_of_mem_filter hr') (List.mem_of_mem_filter hr) heq

include hid

theorem externalID_update {r'} (hr' : r' ∈ g.onCommit c.commit) :
    (if r'.id = r.id then r'.update (checkPayload c.check c.commit.sha) else r').externalID = r'.externalID := by
  split_ifs with heq
  · rw [eq_of_id hr hr' heq, hid]
    rfl
  · rfl

theorem under_update (x : String) :
    (g.update c.commit.owner c.commit.repo r.id (checkPayload c.check c.commit.sha)).under c.commit x =
      (g.under c.commit x).map fun r' =>
        if r'.id = r.id then r'.update (checkPayload c.check c.commit.sha) else r' := by
  rw [Github.under, g.onCommit_update, List.filter_map, Github.under]
  congr 1
  refine List.filter_congr fun r' hr' => ?_
  rw [Function.comp_apply, externalID_update hr hid hr']

theorem upserted_update (hsingle : (g.under c.commit c.check.externalID).length ≤ 1) :
    Upserted c g (g.update c.commit.owner c.commit.repo r.id (checkPayload c.check c.commit.sha)) := by
  have hmem : r ∈ g.under c.commit c.check.externalID := List.mem_filter.mpr ⟨hr, decide_eq_true hid⟩
  have hone : g.under c.commit c.check.externalID = [r] := by
    obtain ⟨r', hr'⟩ := List.length_eq_one_iff.mp (Nat.le_antisymm hsingle (List.length_pos_of_mem hmem))
    rw [hr', List.mem_singleton] at hmem
    rw [hr', hmem]
  refine ⟨⟨r.update (checkPayload c.check c.commit.sha), ?_, carries_update r c.check c.commit.sha⟩, fun x hx => ?_,
    .inl ⟨?_, ?_⟩⟩
  · rw [under_update hr hid, hone, List.map_singleton, if_pos rfl]
  · rw [under_update hr hid]
    refine (List.map_congr_left fun r' hr' => if_neg fun heq => hx ?_).trans (List.map_id _)
    obtain ⟨hmem', hx'⟩ := List.mem_filter.mp hr'
    rw [← of_decide_eq_true hx', eq_of_id hr hmem' heq, hid]
  · rw [Github.ids, g.onCommit_update, List.map_map]
    exact List.map_congr_left fun r' hr' => externalID_update hr hid hr'
  · exact List.mem_map.mpr ⟨r, hr, hid⟩

end Update

theorem under_create (x : String) :
    (g.create c.commit.owner c.commit.repo (checkPayload c.check c.commit.sha)).under c.commit x =
      g.under c.commit x ++ if c.check.externalID = x then
        [.create g.next c.commit.owner c.commit.repo (checkPayload c.check c.commit.sha)] else [] := by
  rw [Github.under, g.onCommit_create _ _ rfl, List.filter_append, Github.under]
  congr 1
  split_ifs with hx
  · exact List.filter_eq_self.mpr fun r hr => by rw [List.mem_singleton.mp hr]; exact decide_eq_true hx
  · exact List.filter_eq_nil_iff.mpr fun r hr => by rw [List.mem_singleton.mp hr]; exact mt of_decide_eq_true hx

theorem upserted_create (habsent : g.under c.commit c.check.externalID = []) :
    Upserted c g (g.create c.commit.owner c.commit.repo (checkPayload c.check c.commit.sha)) := by
  refine ⟨⟨_, ?_, carries_create g.next c.commit c.check⟩, fun x hx => ?_, .inr ⟨?_, ?_⟩⟩
  · rw [under_create, habsent, if_pos rfl, List.nil_append]
  · rw [under_create, if_neg hx.symm, List.append_nil]
  · rw [Github.ids, g.onCommit_create _ _ rfl, List.map_append, Github.ids]
    rfl
  · rw [Github.mem_ids]
    exact not_not.mpr habsent

/-- A call that gets through lists a page with the check runs of its job. -/
def Shown (c : ReportCall) (g : Github) : Prop :=
  c.arrives → ∀ page, c.page = some page →
    ∀ r ∈ g.under c.commit c.check.externalID, r ∈ page.entries (g.onCommit c.commit)

theorem shown_of_room (hroom : (g.ids c.commit).length ≤ 100) : Shown c g := by
  intro _ page _ r hr
  rw [Github.ids, List.length_map] at hroom
  exact page.whole _ hroom (List.mem_of_mem_filter hr)

/-- Such a call finds the check run of its job, if there is one. -/
theorem Wrote.upserted (h : Wrote c g g') (harrived : c.arrives) (hshown : Shown c g)
    (hsingle : (g.under c.commit c.check.externalID).length ≤ 1) : Upserted c g g' := by
  cases h with
  | nothing failed =>
    rw [failed] at harrived
    cases harrived
  | @updated r page _ _ found =>
    have hid : r.externalID = c.check.externalID := by simpa using List.find?_some found
    exact upserted_update (page.sub _ (List.mem_of_find?_eq_some found)) hid hsingle
  | @created page _ listed absent =>
    refine upserted_create (List.eq_nil_iff_forall_not_mem.mpr fun r hr => ?_)
    exact List.find?_eq_none.mp absent r (hshown harrived page listed r hr) (List.mem_filter.mp hr).2

theorem Wrote.length_le (h : Wrote c g g') (x : String) :
    (g.under c.commit x).length ≤ (g'.under c.commit x).length := by
  cases h with
  | nothing => exact le_rfl
  | @updated r page _ _ found =>
    have hid : r.externalID = c.check.externalID := by simpa using List.find?_some found
    rw [under_update (page.sub _ (List.mem_of_find?_eq_some found)) hid, List.length_map]
  | created =>
    rw [under_create, List.length_append]
    exact Nat.le_add_right _ _

theorem Wrote.twice (h : Wrote c g g') (hshown : ¬Shown c g)
    (hsingle : (g.under c.commit c.check.externalID).length ≤ 1) :
    c.arrives ∧ 2 ≤ (g'.under c.commit c.check.externalID).length := by
  unfold Shown at hshown
  push Not at hshown
  obtain ⟨harrived, page, hpage, r, hr, hmissing⟩ := hshown
  refine ⟨harrived, ?_⟩
  cases h with
  | nothing failed =>
    rw [failed] at harrived
    cases harrived
  | @updated r' page' _ listed found =>
    -- what is found is another check run under the external id, of which there is one
    obtain rfl := Option.mem_unique hpage listed
    have hid : r'.externalID = c.check.externalID := by simpa using List.find?_some found
    have hr' : r' ∈ g.under c.commit c.check.externalID :=
      List.mem_filter.mpr ⟨page.sub _ (List.mem_of_find?_eq_some found), decide_eq_true hid⟩
    obtain ⟨r'', hone⟩ := List.length_eq_one_iff.mp (Nat.le_antisymm hsingle (List.length_pos_of_mem hr))
    rw [hone, List.mem_singleton] at hr hr'
    rw [hr, ← hr'] at hmissing
    exact absurd (List.mem_of_find?_eq_some found) hmissing
  | created =>
    rw [under_create, if_pos rfl, List.length_append]
    exact Nat.succ_le_succ (List.length_pos_of_mem hr)

/-! ## Sequences of calls -/

/-- Every call of a sequence is shown the check runs of its job. -/
def EachShown (baseURL : String) : List ReportCall → Github → Prop
  | [], _ => True
  | c :: calls, g => Shown c g ∧ EachShown baseURL calls (report baseURL c.net c.run c.check g).2

/-- The calls are on one commit, which has no two check runs for a reported job. -/
structure Tidy (calls : List ReportCall) (g : Github) (commit : Commit) : Prop where
  on : ∀ c ∈ calls, c.commit = commit
  single : ∀ c ∈ calls, (g.under commit c.check.externalID).length ≤ 1

theorem Tidy.tail (h : Tidy (c :: calls) g commit) : Tidy calls g commit where
  on c' hc' := h.on c' (List.mem_cons_of_mem c hc')
  single c' hc' := h.single c' (List.mem_cons_of_mem c hc')

theorem Tidy.upserted (h : Tidy (c :: calls) g commit) (hup : Upserted c g g') : Tidy calls g' commit := by
  have hcommit := h.on c (.head _)
  obtain ⟨⟨r, hr, -⟩, hothers, -⟩ := hup
  rw [hcommit] at hr hothers
  refine ⟨h.tail.on, fun c' hc' => ?_⟩
  by_cases heq : c'.check.externalID = c.check.externalID
  · rw [heq, hr, List.length_singleton]
  · rw [hothers _ heq]
    exact h.tail.single c' hc'

section

variable (baseURL : String)
include baseURL

/-- A call that is shown its check runs does nothing, or updates or creates the one. -/
theorem Tidy.step (h : Tidy (c :: calls) g commit) (hshown : Shown c g) :
    c.arrives = false ∧ (report baseURL c.net c.run c.check g).2 = g ∨
      c.arrives ∧ Upserted c g (report baseURL c.net c.run c.check g).2 := by
  have hwrote := report_wrote baseURL c g
  generalize (report baseURL c.net c.run c.check g).2 = g' at hwrote ⊢
  cases harrives : c.arrives with
  | false =>
    cases hwrote with
    | nothing => exact .inl ⟨rfl, rfl⟩
    | updated arrived => rw [arrived] at harrives; cases harrives
    | created arrived => rw [arrived] at harrives; cases harrives
  | true =>
    refine .inr ⟨rfl, hwrote.upserted harrives hshown ?_⟩
    rw [h.on c (.head _)]
    exact h.single c (.head _)

/-- The calls after it find the commit as tidy, with what it reported. -/
theorem Tidy.step_under (h : Tidy (c :: calls) g commit) (hshown : Shown c g) :
    Tidy calls (report baseURL c.net c.run c.check g).2 commit ∧ ∀ x, (c.check.externalID = x ∧ c.arrives ∧
          ∃ r, (report baseURL c.net c.run c.check g).2.under commit x = [r] ∧ r.Carries c.check) ∨
        ¬(c.check.externalID = x ∧ c.arrives) ∧
          (report baseURL c.net c.run c.check g).2.under commit x = g.under commit x := by
  rcases h.step baseURL hshown with ⟨hfailed, hsame⟩ | ⟨harrived, hup⟩
  · rw [hsame]
    exact ⟨h.tail, fun x => .inr ⟨by simp [hfailed], rfl⟩⟩
  · refine ⟨h.upserted hup, fun x => ?_⟩
    obtain ⟨hone, hothers, -⟩ := hup
    rw [h.on c (.head _)] at hone hothers
    by_cases hx : c.check.externalID = x
    · subst hx
      exact .inl ⟨rfl, harrived, hone⟩
    · exact .inr ⟨fun hand => hx hand.1, hothers x (Ne.symm hx)⟩

theorem reports_kept (h : Tidy calls g commit) (hshown : EachShown baseURL calls g)
    (hnone : lastReported x calls = none) : (reports baseURL calls g).under commit x = g.under commit x := by
  induction calls generalizing g with
  | nil => rfl
  | cons c calls ih =>
    rw [lastReported, Option.or_eq_none_iff] at hnone
    obtain ⟨htidy, hx⟩ := h.step_under baseURL hshown.1
    have hrest := ih htidy hshown.2 hnone.1
    rcases hx x with ⟨hid, harrived, -⟩ | ⟨-, hsame⟩
    · rw [if_pos ⟨hid, harrived⟩] at hnone
      cases hnone.2
    · exact hrest.trans hsame

theorem reports_one (h : Tidy calls g commit) (hshown : EachShown baseURL calls g) {check}
    (hlast : lastReported x calls = some check) :
    ∃ r, (reports baseURL calls g).under commit x = [r] ∧ r.Carries check := by
  induction calls generalizing g with
  | nil => cases hlast
  | cons c calls ih =>
    rw [lastReported] at hlast
    obtain ⟨htidy, hx⟩ := h.step_under baseURL hshown.1
    cases hrest : lastReported x calls with
    | some check' =>
      rw [hrest, Option.some_or, Option.some_inj] at hlast
      subst hlast
      exact ih htidy hshown.2 hrest
    | none =>
      rw [hrest, Option.none_or] at hlast
      split_ifs at hlast with hc
      cases hlast
      rcases hx x with ⟨-, -, hone⟩ | ⟨hnot, -⟩
      · have hkept := reports_kept baseURL htidy hshown.2 hrest
        obtain ⟨r, hr, hcarries⟩ := hone
        exact ⟨r, hkept.trans hr, hcarries⟩
      · exact absurd hc hnot

theorem reports_length_le (hon : ∀ c ∈ calls, c.commit = commit) (x : String) :
    (g.under commit x).length ≤ ((reports baseURL calls g).under commit x).length := by
  induction calls generalizing g with
  | nil => exact le_rfl
  | cons c calls ih =>
    obtain ⟨hc, hrest⟩ := List.forall_mem_cons.mp hon
    have hstep := (report_wrote baseURL c g).length_le x
    rw [hc] at hstep
    exact hstep.trans (ih hrest)

/-- If its check run is not shown to a call, the job has a second one. -/
theorem eachShown_of_one (h : Tidy calls g commit)
    (hone : ∀ x check, lastReported x calls = some check → ((reports baseURL calls g).under commit x).length = 1) :
    EachShown baseURL calls g := by
  induction calls generalizing g with
  | nil => trivial
  | cons c calls ih =>
    have hcommit := h.on c (.head _)
    have hshown : Shown c g := by
      by_contra hnot
      have hsingle := h.single c (.head _)
      rw [← hcommit] at hsingle
      obtain ⟨harrived, htwice⟩ := (report_wrote baseURL c g).twice hnot hsingle
      obtain ⟨check, hcheck⟩ : ∃ check, lastReported c.check.externalID (c :: calls) = some check := by
        rw [lastReported, if_pos ⟨rfl, harrived⟩]
        cases lastReported c.check.externalID calls with
        | none | some => exact ⟨_, rfl⟩
      have hlater :=
        reports_length_le baseURL h.tail.on c.check.externalID (g := (report baseURL c.net c.run c.check g).2)
      rw [hcommit] at htwice
      have hend : ((reports baseURL calls (report baseURL c.net c.run c.check g).2).under commit
        c.check.externalID).length = 1 := hone _ check hcheck
      omega
    refine ⟨hshown, ih (h.step_under baseURL hshown).1 fun x check hcheck => hone x check ?_⟩
    rw [lastReported, hcheck, Option.some_or]

end

/-! ## Room on the page -/

/-- The external ids that calls report and a commit does not have yet. -/
def newIDs (calls : List ReportCall) (g : Github) (commit : Commit) : Finset String :=
  (calls.map (·.check.externalID)).toFinset \ (g.ids commit).toFinset

/-- A page holds all check runs that a commit has and gets. -/
def Room (calls : List ReportCall) (g : Github) (commit : Commit) : Prop :=
  (g.ids commit).length + (newIDs calls g commit).card ≤ 100

theorem Room.tail (h : Room (c :: calls) g commit) : Room calls g commit := by
  refine le_trans (Nat.add_le_add_left (Finset.card_le_card ?_) _) h
  refine Finset.sdiff_subset_sdiff ?_ (Finset.Subset.refl _)
  rw [List.map_cons, List.toFinset_cons]
  exact Finset.subset_insert _ _

theorem Room.upserted (h : Room (c :: calls) g commit) (hcommit : c.commit = commit) (hup : Upserted c g g') :
    Room calls g' commit := by
  have hids := hup.ids
  rw [hcommit] at hids
  rcases hids with ⟨hsame, -⟩ | ⟨hnew, hfresh⟩
  · unfold Room newIDs
    rw [hsame]
    exact h.tail
  · -- the new external id has moved from those to come to those that are there
    have hsub : newIDs calls g' commit ⊆ (newIDs (c :: calls) g commit).erase c.check.externalID := by
      intro x hx
      unfold newIDs at hx ⊢
      rw [hnew] at hx
      simp only [Finset.mem_sdiff, List.mem_toFinset, List.mem_append, List.mem_cons, not_or, Finset.mem_erase,
        List.map_cons] at hx ⊢
      exact ⟨hx.2.2.1, .inr hx.1, hx.2.1⟩
    have hmem : c.check.externalID ∈ newIDs (c :: calls) g commit := by
      unfold newIDs
      simp only [Finset.mem_sdiff, List.mem_toFinset, List.map_cons, List.mem_cons, true_or, true_and]
      exact hfresh
    have hcard := Finset.card_le_card hsub
    rw [Finset.card_erase_of_mem hmem] at hcard
    have hpos := Finset.card_pos.mpr ⟨_, hmem⟩
    unfold Room at h ⊢
    rw [hnew, List.length_append, List.length_singleton]
    omega

theorem eachShown_of_room (baseURL : String) (h : Tidy calls g commit) (hroom : Room calls g commit) :
    EachShown baseURL calls g := by
  induction calls generalizing g with
  | nil => trivial
  | cons c calls ih =>
    have hcommit := h.on c (.head _)
    have hshown : Shown c g := shown_of_room (by rw [hcommit]; exact le_trans (Nat.le_add_right _ _) hroom)
    refine ⟨hshown, ?_⟩
    rcases h.step baseURL hshown with ⟨-, hsame⟩ | ⟨-, hup⟩
    · rw [hsame]
      exact ih h.tail hroom.tail
    · exact ih (h.upserted hup) (hroom.upserted hcommit hup)

/-- After any calls of `Report` on a commit, whichever of their requests fail, every external id has one check run, in
the state reported last, if and only if every call was shown the check run of its job, as when a page has room for
all. -/
theorem reports_upsert_iff {calls : List ReportCall} {commit : Commit} (baseURL : String) (h : Tidy calls g commit) :
    ((∀ x check, lastReported x calls = some check →
      ∃ r, (reports baseURL calls g).under commit x = [r] ∧ r.Carries check) ↔ EachShown baseURL calls g) ∧
    (Room calls g commit → EachShown baseURL calls g) := by
  refine ⟨⟨fun hone => ?_, fun hshown x check hlast => reports_one baseURL h hshown hlast⟩, eachShown_of_room baseURL h⟩
  refine eachShown_of_one baseURL h fun x check hlast => ?_
  obtain ⟨r, hr, -⟩ := hone x check hlast
  rw [hr, List.length_singleton]

/-! ## Runs -/

/-- The commit of `someRun`. -/
def someCommit : Commit := ⟨"o", "r", "c"⟩

/-- A run of a push. -/
def someRun : RunRecord where
  id := "run"
  event := ⟨"github", "push", "d", ⟨"github", "o", "r"⟩, "refs/heads/main", "c", "a"⟩
  delivery := ⟨"github", "d"⟩
  status := .running
  createdAt := 0
  finishedAt := none

/-- Every request succeeds. -/
def Network.calm (page : Page) : Network := ⟨.ok "t", .response 200 (.ok page), .response 200 "200 OK"⟩

/-- A check of the job `test`. -/
def checkOf (id : String) (status : CheckStatus) (conclusion : Option CheckConclusion) : Check :=
  ⟨"run", id, "test", id, "https://ci/runs/run/jobs/test", status, conclusion, none, none⟩

/-- A report over a calm network. -/
def callOf (page : Page) (check : Check) : ReportCall := ⟨.calm page, someRun, check⟩

/-- Two jobs, the first one reported twice, and the second one once more in vain. -/
def twoJobs : List ReportCall :=
  [callOf .oldest (checkOf "1" .inProgress none), callOf .newest (checkOf "2" .queued none),
    callOf .newest (checkOf "1" .completed (some .success)),
    ⟨⟨.ok "t", .response 200 (.ok .oldest), .response 502 "502 Bad Gateway"⟩, someRun, checkOf "2" .inProgress none⟩]

/-- The first job has one check, as it was reported last. -/
theorem reports_upsert_two_jobs : ∃ r, (reports "https://api" twoJobs .new).under someCommit "1" = [r] ∧
      r.Carries (checkOf "1" .completed (some .success)) :=
  have hiff := reports_upsert_iff "https://api" (⟨by decide +kernel, by decide +kernel⟩ : Tidy twoJobs .new someCommit)
  hiff.1.mpr (hiff.2 (by unfold Room; decide +kernel)) "1" _ (by decide +kernel)

/-- The id of a job: one character. -/
def charID (n : Nat) : String := String.singleton (Char.ofNat (n + 33))

/-- The reports of the start of `n` jobs, and the end of the job `last`. -/
def manyJobs (page : Page) (n last : Nat) : List ReportCall :=
  (List.range n).map (fun i => callOf page (checkOf (charID i) .inProgress none)) ++
    [callOf page (checkOf (charID last) .completed (some .success))]

/-- With one job more than a page has room for, a job gets a second check run. -/
theorem reports_duplicate :
    ((reports "https://api" (manyJobs .oldest 101 100) .new).under someCommit (charID 100)).map (·.status) =
        ["in_progress", "completed"] ∧
      ((reports "https://api" (manyJobs .newest 101 0) .new).under someCommit (charID 0)).map (·.status) =
        ["in_progress", "completed"] := by
  decide +kernel

end Forgelet.Report
