import Mathlib.Data.List.Induction
import Forgelet.Store.Proofs.NumberingProofs

/-!
# Proofs: open attempts

`RerequestJob` does not look at the status of the job it is given. At most one attempt of every key is open as
long as every new attempt is requested for a job that has ended, and no longer.
-/

namespace Forgelet.DurableStore

open Relation

variable {W : Wiring} {s : DurableStore}

theorem EarlierEnded.oneOpen (hn : Numbering s) (he : EarlierEnded s) : OneOpen s := by
  intro id id' job job' hjob hjob' hrun hkey hopen hopen'
  rcases Nat.lt_trichotomy job.attempt job'.attempt with hlt | heq | hgt
  · rw [he id id' job job' hjob hjob' hrun hkey hlt] at hopen
    cases hopen
  · exact hn.unique (attemptOf_lookup hjob) ⟨job', hjob', hrun, hkey, heq.symm⟩
  · rw [he id' id job' job hjob' hjob hrun.symm hkey.symm hgt] at hopen'
    cases hopen'

theorem earlierEnded_step (hi : Inv W s) (hn : Numbering s) {op} (hok : RetriesEnded s op) (he : EarlierEnded s) :
    EarlierEnded (op.apply W s) := by
  intro id id' job job' hjob hjob' hrun hkey hlt
  -- a job that had ended before the call has ended after it
  have hended : ∀ {old}, s.jobs.lookup id = some old → old.status.isTerminal → job.status.isTerminal := by
    intro old hold hterm
    obtain ⟨after, hafter, hwrites⟩ := carried_apply hi op id old hold
    obtain rfl := Option.mem_unique hafter hjob
    rw [((forward_of_writes hwrites).final hterm).1]
    exact hterm
  have hg := growth_apply hi op
  have hpos := (hn.grow hg).positive hjob
  generalize hs' : op.apply W s = s' at hg hjob hjob'
  cases hg with
  | nothing jobs jobIDs =>
    have hsym := fun id => (jobs id).symm
    obtain ⟨old, hold, horun, hokey, hoatt⟩ := (attemptOf_lookup hjob).rewrite hsym
    obtain ⟨old', hold', horun', hokey', hoatt'⟩ := (attemptOf_lookup hjob').rewrite hsym
    refine hended hold (he id id' old old' hold hold' ?_ ?_ ?_)
    · rw [horun', hrun, horun]
    · rw [hokey', hkey, hokey]
    · omega
  | drafts unused first distinct jobs jobIDs =>
    rcases jobs.mp hjob' with ⟨hmem', -⟩ | hold'
    · have := (first job' hmem').2
      omega
    · rcases jobs.mp hjob with ⟨hmem, -⟩ | hold
      · exact absurd (hrun.trans (first job hmem).1) (unused hold')
      · exact he id id' job job' hold hold' hrun hkey hlt
  | @next i new orig now found last unused jobs jobIDs =>
    have hlast : orig.status.isTerminal := hok orig found last
    rw [jobs] at hjob hjob'
    split_ifs at hjob with hid
    · -- nothing is later than the new attempt
      cases hjob
      have hatt : (nextAttempt new orig now).attempt = orig.attempt + 1 := rfl
      split_ifs at hjob' with hid'
      · cases hjob'
        omega
      · have hle : job'.attempt ≤ orig.attempt := by
          by_contra hgt
          obtain ⟨id', hnext⟩ := hn.closed (orig.attempt + 1) ⟨job', hjob', hrun, hkey, rfl⟩ (by omega) (by omega)
          exact hn.not_next found last hnext
        omega
    · split_ifs at hjob' with hid'
      · cases hjob'
        have hle : job.attempt ≤ orig.attempt := Nat.lt_succ_iff.mp hlt
        rcases Nat.lt_or_eq_of_le hle with hbefore | heq
        · exact he id i job orig hjob found hrun hkey hbefore
        · obtain rfl := hn.unique ⟨job, hjob, hrun.symm, hkey.symm, heq⟩ (attemptOf_lookup found)
          obtain rfl := Option.mem_unique hjob found
          exact hlast
      · exact he id id' job job' hjob hjob' hrun hkey hlt

/-- A request for the last attempt writes the next one. -/
theorem rerequestJob_writes {id job} (hjob : s.jobs.lookup id = some job)
    (hlast : ∀ j ∈ s.jobsOf job.runID, j.jobKey = job.jobKey → j.attempt ≠ job.attempt + 1) (now : Time) (i : JobRunID)
    : (s.rerequestJob W id now).2.jobs.lookup i =
      if i = W.ids.mint s.minted then some (nextAttempt (W.ids.mint s.minted) job now) else s.jobs.lookup i := by
  have hout := rerequestJob_outcome W s id now
  generalize s.rerequestJob W id now = out at hout
  cases hout with
  | missing absent =>
    rw [hjob] at absent
    cases absent
  | existing found listed key next =>
    obtain rfl := Option.mem_unique hjob found
    exact absurd next (hlast _ listed key)
  | orphan found unstored =>
    obtain rfl := Option.mem_unique hjob found
    exact appended_lookup job now i
  | attempt found last stored =>
    obtain rfl := Option.mem_unique hjob found
    exact reattempted_lookup i

theorem not_oneOpen_of_open (hi : Inv W s) {op} (hbad : ¬RetriesEnded s op) : ¬OneOpen (op.apply W s) := by
  cases op with
  | rerequestJob id now =>
    unfold RetriesEnded at hbad
    push Not at hbad
    obtain ⟨job, hjob, hlast, hopen⟩ := hbad
    have hwrites := rerequestJob_writes (W := W) hjob hlast now
    have hne : id ≠ W.ids.mint s.minted := by
      rintro rfl
      rw [fresh_of_minted hi.minted _ (le_refl _)] at hjob
      cases hjob
    have hkept := (hwrites id).trans (if_neg hne)
    have hnew := (hwrites (W.ids.mint s.minted)).trans (if_pos rfl)
    intro hone
    exact hne (hone _ _ _ _ hnew (hkept.trans hjob) rfl rfl rfl (Bool.eq_false_iff.mpr hopen))
  | _ => exact absurd trivial hbad

/-- Along every sequence of calls, at most one attempt of every key is open exactly when no call creates the next
attempt of a job that has not ended. -/
theorem one_open_iff (W : Wiring) (ops : List StoreOp) : (∀ before, before <+: ops → OneOpen (afterOps W before)) ↔
      ∀ before op, before ++ [op] <+: ops → RetriesEnded (afterOps W before) op := by
  constructor
  · intro hone before op hpre
    by_contra hbad
    refine not_oneOpen_of_open (inv_reachable (reachable_afterOps W before)) hbad ?_
    have hafter := hone (before ++ [op]) hpre
    rw [afterOps_append] at hafter
    exact hafter
  · intro hok before hpre
    have hreach := reachable_afterOps W before
    refine EarlierEnded.oneOpen (numbering_reachable hreach) ?_
    clear hreach
    induction before using List.reverseRecOn with
    | nil => exact fun _ _ _ _ h => by cases h
    | append_singleton before op ih =>
      have hreach := reachable_afterOps W before
      have hearlier := ih ((List.prefix_append before [op]).trans hpre)
      rw [afterOps_append]
      exact earlierEnded_step (inv_reachable hreach) (numbering_reachable hreach) (hok before op hpre) hearlier

/-- A job is requested again while it runs, and both attempts are dispatched. -/
def overlapOps : List StoreOp :=
  [.recordDelivery pushDelivery, .createRun (pushSeed [intentOf "a" [] ""]) 0, .claimNextQueuedJob,
    .ackDispatched "ii" ⟨"jobrun-ii", "u"⟩ 1, .applyObserved "ii" .running 2, .rerequestJob "ii" 3,
    .claimNextQueuedJob, .ackDispatched "iii" ⟨"jobrun-iii", "u"⟩ 4, .applyObserved "iii" .running 5]

/-- Both attempts run at the same time. -/
theorem two_attempts_running : ∃ job job', (afterOps Wiring.unary overlapOps).getJobRun "ii" = .ok job ∧
      (afterOps Wiring.unary overlapOps).getJobRun "iii" = .ok job' ∧ job'.runID = job.runID ∧
      job'.jobKey = job.jobKey ∧ job.status = .running ∧ job'.status = .running ∧
      ¬OneOpen (afterOps Wiring.unary overlapOps) := by
  refine ⟨_, _, rfl, rfl, rfl, rfl, rfl, rfl, fun hone => ?_⟩
  have hsame := hone "ii" "iii" _ _ rfl rfl rfl rfl rfl rfl
  exact absurd hsame (by decide)

end Forgelet.DurableStore
