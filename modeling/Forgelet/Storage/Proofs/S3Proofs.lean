import Forgelet.Lib.Separator
import Forgelet.Storage.S3

/-!
# Proofs: the object store

The names of objects are taken apart at their slashes, so that no repository reaches into another one. A restore key is
compared after it was sanitized, which is not the comparison of the keys themselves.
-/

namespace Forgelet.S3

open Bytes (ofString byte trimSpace)

variable {d : Digest} {b : Bucket} {repo repo' : Repository} {key : Bytes} {restoreKeys : List Bytes}

/-! ## Names -/

/-- A repository that can be told from a name. -/
def Repository.Slashless (repo : Repository) : Prop :=
  byte '/' ∉ repo.provider ∧ byte '/' ∉ repo.owner ∧ byte '/' ∉ repo.name

instance (repo : Repository) : Decidable repo.Slashless := inferInstanceAs (Decidable (_ ∧ _ ∧ _))

variable {rest k : Bytes}

theorem objectName_inj (h : repo.Slashless) (h' : repo'.Slashless) {rest'}
    (heq : objectName repo rest = objectName repo' rest') : repo = repo' ∧ rest = rest' := by
  obtain ⟨hprovider, howner⟩ := Separator.cut_inj h.1 h'.1 heq
  obtain ⟨howner, hname⟩ := Separator.cut_inj h.2.1 h'.2.1 howner
  obtain ⟨hname, hrest⟩ := Separator.cut_inj h.2.2 h'.2.2 hname
  cases repo
  cases repo'
  simp_all

theorem objectName_isPrefix {more : Bytes} (h : rest <+: more) : objectName repo rest <+: objectName repo more := by
  simpa [objectName] using h

/-- An object of the repository's cache. -/
def InCache (repo : Repository) (k : Bytes) : Prop := ∃ rest, k = cachePrefix repo rest

theorem inCache_of_isPrefix (h : cachePrefix repo rest <+: k) : InCache repo k := by
  obtain ⟨more, rfl⟩ := h
  exact ⟨rest ++ more, by simp [cachePrefix, objectName]⟩

theorem firstListed_mem {l} (h : firstListed l = some k) : .ok k ∈ l := by
  induction l with
  | nil => cases h
  | cons entry rest ih =>
    cases entry with
    | error err => exact .tail _ (ih h)
    | ok k' =>
      rw [← Option.some.inj h]
      exact (.head _)

theorem resolveRestore_inCache (h : resolveRestore d b repo restoreKeys = .ok (some k)) : InCache repo k := by
  induction restoreKeys with
  | nil => cases h
  | cons rk rest ih =>
    unfold resolveRestore at h
    dsimp only at h
    split_ifs at h
    · exact ih h
    · split at h
      · cases h
      · obtain rfl := Option.some.inj (Except.ok.inj h)
        exact ⟨_, rfl⟩
      · split at h
        · rename_i hlisted
          obtain rfl := Option.some.inj (Except.ok.inj h)
          exact inCache_of_isPrefix (b.list_ok _ _ (firstListed_mem hlisted)).2
        · exact ih h

theorem cacheResolve_inCache (h : cacheResolve d b repo key restoreKeys = .ok (some k)) : InCache repo k := by
  unfold cacheResolve at h
  split at h
  · cases h
  · obtain rfl := Option.some.inj (Except.ok.inj h)
    exact ⟨_, rfl⟩
  · exact resolveRestore_inCache h

/-- What is under the caches of a repository belongs to no other, and is no artifact. -/
theorem InCache.apart (h : repo.Slashless) (hk : InCache repo k) :
    (∀ repo', repo'.Slashless → repo' ≠ repo → ∀ rest, k ≠ objectName repo' rest) ∧
      ∀ repo', repo'.Slashless → ∀ runID name, k ≠ artifactKey repo' runID name := by
  obtain ⟨rest, rfl⟩ := hk
  constructor
  · intro repo' h' hne rest' heq
    exact hne (objectName_inj h h' heq).1.symm
  · intro repo' h' runID name heq
    exact absurd (List.cons.inj (objectName_inj h h' heq).2).1 (by decide)

/-- What `CacheResolve` can return and what `cacheKey` names is under the caches of the repository, belongs to no
other one and is no artifact, and the names of artifacts are told apart. -/
theorem repositories_isolated (d : Digest) (b : Bucket) (repo : Repository) (h : repo.Slashless) :
    (∀ k key restoreKeys, k = cacheKey d repo key ∨ cacheResolve d b repo key restoreKeys = .ok (some k) →
        cachePrefix repo [] <+: k ∧ (∀ repo', repo'.Slashless → repo' ≠ repo → ∀ key' runID name,
          k ≠ cacheKey d repo' key' ∧ k ≠ artifactKey repo' runID name) ∧
        ∀ runID name, k ≠ artifactKey repo runID name) ∧
      ∀ repo', repo'.Slashless → ∀ runID runID' name name', byte '/' ∉ runID → byte '/' ∉ runID' →
        artifactKey repo runID name = artifactKey repo' runID' name' →
        repo = repo' ∧ runID = runID' ∧ name = name' := by
  constructor
  · intro k key restoreKeys hk
    have hcache : InCache repo k := by
      rcases hk with rfl | hk
      · exact ⟨_, rfl⟩
      · exact cacheResolve_inCache hk
    obtain ⟨hother, hartifact⟩ := hcache.apart h
    refine ⟨?_, fun repo' h' hne key' runID name => ⟨hother repo' h' hne _, hartifact repo' h' runID name⟩,
      hartifact repo h⟩
    obtain ⟨rest, rfl⟩ := hcache
    exact objectName_isPrefix (by simp)
  · intro repo' h' runID runID' name name' hrun hrun' heq
    obtain ⟨hrepo, hrest⟩ := objectName_inj h h' heq
    obtain ⟨hid, hname⟩ := Separator.cut_inj hrun hrun' (List.append_cancel_left hrest)
    exact ⟨hrepo, hid, List.append_cancel_right hname⟩

/-! ## Restore keys -/

/-- The restore keys that are compared: trimmed, and not blank. -/
def wanted (restoreKeys : List Bytes) : List Bytes := (restoreKeys.map trimSpace).filter (· ≠ [])

/-- The listing for a restore key has the object of a key. -/
def Reaches (d : Digest) (r key : Bytes) : Prop := sanitizePrefix r <+: sanitizeKey d key

/-- The caches of the repository are those of the saved keys, all listed. -/
structure Bucket.Holds (b : Bucket) (d : Digest) (repo : Repository) (saved : List Bytes) : Prop where
  saved : ∀ rest, cachePrefix repo rest ∈ b.objects ↔ ∃ key ∈ saved, sanitizeKey d key = rest
  listed : ∀ p k, k ∈ b.objects → p <+: k → .ok k ∈ b.list p

/-- A restore key is a prefix of the key, and those before it of no saved key. -/
def Literal (saved restoreKeys : List Bytes) (found : Bytes) : Prop :=
  ∃ before r after, wanted restoreKeys = before ++ r :: after ∧ r <+: found ∧
    ∀ r' ∈ before, ∀ other ∈ saved, ¬ r' <+: other

/-- A hit that the keys themselves justify. -/
def Justified (d : Digest) (repo : Repository) (saved : List Bytes) (key : Bytes) (restoreKeys : List Bytes)
    (k : Bytes) : Prop :=
  ∃ found ∈ saved, k = cacheKey d repo found ∧ (found = key ∨ Literal saved restoreKeys found)

/-- No two of the keys at hand have the same hash. -/
def CollisionFree (d : Digest) (keys : List Bytes) : Prop := ∀ k ∈ keys, ∀ k' ∈ keys, d.hash k = d.hash k' → k = k'

theorem CollisionFree.mono {keys keys'} (h : CollisionFree d keys) (hsub : keys' ⊆ keys) : CollisionFree d keys' :=
  fun k hk k' hk' => h k (hsub hk) k' (hsub hk')

theorem hash_of_sanitizeKey {k'} (h : sanitizeKey d k = sanitizeKey d k') : d.hash k = d.hash k' :=
  (List.cons.inj (List.append_inj_right' h (by simp [d.length]))).2

theorem reaches_self (r : Bytes) : Reaches d r r := List.prefix_append ..

section Resolved

variable {saved : List Bytes} (hb : b.Holds d repo saved)

include hb in
theorem mem_objects_iff (hfree : CollisionFree d (key :: saved)) : cacheKey d repo key ∈ b.objects ↔ key ∈ saved := by
  rw [cacheKey, hb.saved]
  constructor
  · rintro ⟨other, hother, heq⟩
    rw [← hfree other (.tail _ hother) key (.head _) (hash_of_sanitizeKey heq)]
    exact hother
  · exact fun h => ⟨key, h, rfl⟩

theorem cachePrefix_isPrefix {more} : cachePrefix repo rest <+: cachePrefix repo more ↔ rest <+: more := by
  simp [cachePrefix, objectName]

theorem firstListed_none {l} (h : firstListed l = none) (k : Bytes) : .ok k ∉ l := by
  induction l with
  | nil => exact List.not_mem_nil
  | cons entry rest ih =>
    cases entry with
    | error err => simpa using ih h
    | ok k' => cases h

include hb in
/-- The loop returns a saved key that the first restore key with any reaches. -/
theorem resolveRestore_found (hfree : CollisionFree d (wanted restoreKeys ++ saved))
    (h : resolveRestore d b repo restoreKeys = .ok (some k)) :
    ∃ before r after, wanted restoreKeys = before ++ r :: after ∧
      (∀ r' ∈ before, ∀ other ∈ saved, ¬ Reaches d r' other) ∧
      ∃ found ∈ saved, k = cacheKey d repo found ∧ (r ∈ saved → found = r) ∧ Reaches d r found := by
  induction restoreKeys with
  | nil => cases h
  | cons rk rest ih =>
    unfold resolveRestore at h
    by_cases hblank : trimSpace rk = []
    · have hwanted : wanted (rk :: rest) = wanted rest := by simp [wanted, hblank]
      rw [if_pos hblank] at h
      rw [hwanted] at hfree ⊢
      exact ih hfree h
    · have hwanted : wanted (rk :: rest) = trimSpace rk :: wanted rest := by simp [wanted, hblank]
      rw [if_neg hblank] at h
      rw [hwanted] at hfree ⊢
      have hmem : cacheKey d repo (trimSpace rk) ∈ b.objects ↔ trimSpace rk ∈ saved :=
        mem_objects_iff hb (hfree.mono (by simp))
      split at h
      · cases h
      · rename_i hstat
        have hsaved := hmem.mp ((b.stat_ok _ _ hstat).mp rfl)
        exact ⟨[], trimSpace rk, wanted rest, rfl, nofun, trimSpace rk, hsaved,
          (Option.some.inj (Except.ok.inj h)).symm, fun _ => rfl, reaches_self _⟩
      · rename_i hstat
        have hunsaved : trimSpace rk ∉ saved := fun hsaved =>
          Bool.false_ne_true ((b.stat_ok _ _ hstat).mpr (hmem.mpr hsaved))
        split at h
        · rename_i k' hlisted
          obtain rfl := Option.some.inj (Except.ok.inj h)
          obtain ⟨hobject, hstarts⟩ := b.list_ok _ _ (firstListed_mem hlisted)
          obtain ⟨more, rfl⟩ := inCache_of_isPrefix hstarts
          obtain ⟨found, hfound, rfl⟩ := (hb.saved more).mp hobject
          exact ⟨[], trimSpace rk, wanted rest, rfl, nofun, found, hfound, rfl, fun hsaved => absurd hsaved hunsaved,
            cachePrefix_isPrefix.mp hstarts⟩
        · rename_i hlisted
          have hnone : ∀ other ∈ saved, ¬ Reaches d (trimSpace rk) other := fun other hother hreaches =>
            firstListed_none hlisted _ (hb.listed _ _ ((hb.saved _).mpr ⟨other, hother, rfl⟩)
              (cachePrefix_isPrefix.mpr hreaches))
          obtain ⟨before, r, after, heq, hbefore, hfound⟩ :=
            ih (hfree.mono (List.subset_cons_self ..)) h
          exact ⟨trimSpace rk :: before, r, after, by rw [heq]; rfl, List.forall_mem_cons.mpr ⟨hnone, hbefore⟩, hfound⟩

/-- A bucket that lists its objects in this order. -/
def bucketOf (objects : List Bytes) : Bucket where
  objects := objects
  stat k := .ok (objects.contains k)
  list p := (objects.filter (p.isPrefixOf ·)).map .ok
  stat_ok k found h := by
    rw [← Except.ok.inj h]
    exact List.contains_iff_mem
  list_ok p k h := by
    obtain ⟨k', hk', heq⟩ := List.mem_map.mp h
    obtain rfl := Except.ok.inj heq
    obtain ⟨hobject, hstarts⟩ := List.mem_filter.mp hk'
    exact ⟨hobject, List.isPrefixOf_iff_prefix.mp hstarts⟩

theorem bucketOf_stat {objects} (h : k ∉ objects) : (bucketOf objects).stat k = .ok false :=
  congrArg Except.ok (by rwa [Bool.eq_false_iff, ne_eq, List.contains_iff_mem])

theorem bucketOf_holds (d : Digest) (repo : Repository) {found} (hfound : found ∈ saved) :
    (bucketOf ((found :: saved).map (cacheKey d repo))).Holds d repo saved where
  saved rest := by
    have hinj : ∀ key, cacheKey d repo key = cachePrefix repo rest ↔ sanitizeKey d key = rest := by
      simp [cacheKey, cachePrefix, objectName]
    show cachePrefix repo rest ∈ (found :: saved).map (cacheKey d repo) ↔ _
    simp only [List.mem_map, hinj, List.mem_cons]
    constructor
    · rintro ⟨key, rfl | hkey, heq⟩
      · exact ⟨key, hfound, heq⟩
      · exact ⟨key, hkey, heq⟩
    · exact fun ⟨key, hkey, heq⟩ => ⟨key, .inr hkey, heq⟩
  listed p k hk hstarts := List.mem_map_of_mem (List.mem_filter.mpr ⟨hk, List.isPrefixOf_iff_prefix.mpr hstarts⟩)

/-- The first object in the bucket that the restore key reaches is returned. -/
theorem resolveRestore_first {found} (hfound : found ∈ saved) (hfree : CollisionFree d (wanted restoreKeys ++ saved))
    {before after r} (hsplit : wanted restoreKeys = before ++ r :: after)
    (hbefore : ∀ r' ∈ before, ∀ other ∈ saved, ¬ Reaches d r' other) (hself : r ∈ saved → found = r)
    (hreaches : Reaches d r found) :
    resolveRestore d (bucketOf ((found :: saved).map (cacheKey d repo))) repo restoreKeys =
      .ok (some (cacheKey d repo found)) := by
  have hb := bucketOf_holds d repo hfound
  induction restoreKeys generalizing before with
  | nil => exact absurd hsplit (by simp [wanted])
  | cons rk rest ih =>
    unfold resolveRestore
    by_cases hblank : trimSpace rk = []
    · have hwanted : wanted (rk :: rest) = wanted rest := by simp [wanted, hblank]
      rw [hwanted] at hfree hsplit
      rw [if_pos hblank]
      exact ih hfree hsplit hbefore
    · have hwanted : wanted (rk :: rest) = trimSpace rk :: wanted rest := by simp [wanted, hblank]
      rw [hwanted] at hfree hsplit
      have hmem : cacheKey d repo (trimSpace rk) ∈ (found :: saved).map (cacheKey d repo) ↔ trimSpace rk ∈ saved :=
        mem_objects_iff hb (hfree.mono (by simp))
      rw [if_neg hblank]
      cases before with
      | nil =>
        obtain ⟨rfl, -⟩ := List.cons.inj hsplit
        by_cases hsaved : trimSpace rk ∈ saved
        · have hstat : (bucketOf ((found :: saved).map (cacheKey d repo))).stat (cacheKey d repo (trimSpace rk)) =
              .ok true := congrArg Except.ok (List.contains_iff_mem.mpr (hmem.mpr hsaved))
          rw [hstat, hself hsaved]
        · have hstarts : (cachePrefix repo (sanitizePrefix (trimSpace rk))).isPrefixOf (cacheKey d repo found) :=
            List.isPrefixOf_iff_prefix.mpr (cachePrefix_isPrefix.mpr hreaches)
          rw [bucketOf_stat fun h => hsaved (hmem.mp h)]
          dsimp only [bucketOf]
          rw [List.map_cons, List.filter_cons_of_pos hstarts]
          rfl
      | cons r' before =>
        obtain ⟨rfl, hrest⟩ := List.cons.inj hsplit
        have hnone := hbefore _ (.head _)
        have hlist : firstListed ((bucketOf ((found :: saved).map (cacheKey d repo))).list
            (cachePrefix repo (sanitizePrefix (trimSpace rk)))) = none := by
          cases hlisted : firstListed ((bucketOf ((found :: saved).map (cacheKey d repo))).list
              (cachePrefix repo (sanitizePrefix (trimSpace rk)))) with
          | none => rfl
          | some k =>
            obtain ⟨hobject, hstarts⟩ := (bucketOf _).list_ok _ _ (firstListed_mem hlisted)
            obtain ⟨more, rfl⟩ := inCache_of_isPrefix hstarts
            obtain ⟨other, hother, rfl⟩ := (hb.saved more).mp hobject
            exact absurd (cachePrefix_isPrefix.mp hstarts) (hnone other hother)
        rw [bucketOf_stat fun h => hnone _ (hmem.mp h) (reaches_self _)]
        rw [hlist]
        exact ih (hfree.mono (List.subset_cons_self ..)) hrest fun r' hr' => hbefore r' (.tail _ hr')

end Resolved

/-- A restore key reaches only keys that begin with it as it is written. One that begins a key without reaching it, as
one of dashes alone can, begins every key that is reached. -/
structure Agree (d : Digest) (restoreKeys keys : List Bytes) : Prop where
  literal : ∀ r ∈ wanted restoreKeys, ∀ other ∈ keys, Reaches d r other → r <+: other
  missed : ∀ r ∈ wanted restoreKeys, ∀ other ∈ keys, r <+: other → ¬ Reaches d r other →
    ∀ r' ∈ wanted restoreKeys, ∀ found ∈ keys, Reaches d r' found → r <+: found

theorem wanted_subset {list} (h : list ⊆ restoreKeys) : wanted list ⊆ wanted restoreKeys := by
  intro r hr
  simp only [wanted, List.mem_filter, List.mem_map] at hr ⊢
  obtain ⟨⟨rk, hrk, heq⟩, hne⟩ := hr
  exact ⟨⟨rk, h hrk, heq⟩, hne⟩

theorem Agree.mono {list saved keys} (h : Agree d restoreKeys keys) (hlist : list ⊆ restoreKeys)
    (hsaved : saved ⊆ keys) :
    Agree d list saved where
  literal r hr other hother := h.literal r (wanted_subset hlist hr) other (hsaved hother)
  missed r hr other hother hstarts hmissed r' hr' found hfound :=
    h.missed r (wanted_subset hlist hr) other (hsaved hother) hstarts hmissed r' (wanted_subset hlist hr') found
      (hsaved hfound)

/-- What the first effective restore key reaches begins with it, or with an earlier one. -/
theorem Agree.found {saved before r after found} (h : Agree d restoreKeys saved)
    (hsplit : wanted restoreKeys = before ++ r :: after)
    (hbefore : ∀ r' ∈ before, ∀ other ∈ saved, ¬ Reaches d r' other) (hfound : found ∈ saved)
    (hreaches : Reaches d r found) : Literal saved restoreKeys found := by
  have hr : r ∈ wanted restoreKeys := by simp [hsplit]
  cases hfirst : before.find? fun r' => saved.any (r'.isPrefixOf ·) with
  | none =>
    refine ⟨before, r, after, hsplit, h.literal r hr found hfound hreaches, fun r' hr' other hother hstarts => ?_⟩
    have hnone := List.find?_eq_none.mp hfirst r' hr'
    exact hnone (List.any_eq_true.mpr ⟨other, hother, List.isPrefixOf_iff_prefix.mpr hstarts⟩)
  | some r₀ =>
    obtain ⟨hany, before₀, after₀, rfl, hbefore₀⟩ := List.find?_eq_some_iff_append.mp hfirst
    obtain ⟨other, hother, hstarts⟩ := List.any_eq_true.mp hany
    refine ⟨before₀, r₀, after₀ ++ r :: after, by simp [hsplit], ?_, fun r' hr' other' hother' hstarts' => ?_⟩
    · exact h.missed r₀ (by simp [hsplit]) other hother (List.isPrefixOf_iff_prefix.mp hstarts)
        (hbefore r₀ (by simp) other hother) r hr found hfound hreaches
    · have hnot := hbefore₀ r' hr'
      rw [Bool.not_eq_true', List.any_eq_false] at hnot
      exact hnot other' hother' (List.isPrefixOf_iff_prefix.mpr hstarts')

/-- In a bucket of these keys, a hit for these restore keys is justified. -/
def JustifiedIn (d : Digest) (repo : Repository) (saved : List Bytes) (key : Bytes) (restoreKeys : List Bytes) : Prop :=
  ∀ b : Bucket, b.Holds d repo saved → ∀ k, cacheResolve d b repo key restoreKeys = .ok (some k) →
    Justified d repo saved key restoreKeys k

theorem Agree.justified {saved} (hfree : CollisionFree d (key :: (wanted restoreKeys ++ saved)))
    (h : Agree d restoreKeys (saved.filter (· ≠ key))) : JustifiedIn d repo saved key restoreKeys := by
  intro b hb k hk
  have hmem : cacheKey d repo key ∈ b.objects ↔ key ∈ saved := mem_objects_iff hb (hfree.mono (by simp))
  unfold cacheResolve at hk
  split at hk
  · cases hk
  · rename_i hstat
    exact ⟨key, hmem.mp ((b.stat_ok _ _ hstat).mp rfl), (Option.some.inj (Except.ok.inj hk)).symm, .inl rfl⟩
  · rename_i hstat
    have hunsaved : key ∉ saved := fun hsaved => Bool.false_ne_true ((b.stat_ok _ _ hstat).mpr (hmem.mpr hsaved))
    rw [List.filter_eq_self.mpr fun other hother => decide_eq_true (ne_of_mem_of_not_mem hother hunsaved)] at h
    obtain ⟨before, r, after, hsplit, hbefore, found, hfound, rfl, -, hreaches⟩ :=
      resolveRestore_found hb (hfree.mono (List.subset_cons_self ..)) hk
    exact ⟨found, hfound, rfl, .inr (h.found hsplit hbefore hfound hreaches)⟩

/-- A key that the first effective restore key reaches is returned from the bucket that lists it first. -/
theorem JustifiedIn.literal {saved found before r after}
    (hfree : CollisionFree d (key :: (wanted restoreKeys ++ saved)))
    (h : JustifiedIn d repo saved key restoreKeys) (hkey : key ∉ saved) (hfound : found ∈ saved)
    (hsplit : wanted restoreKeys = before ++ r :: after)
    (hbefore : ∀ r' ∈ before, ∀ other ∈ saved, ¬ Reaches d r' other) (hself : r ∈ saved → found = r)
    (hreaches : Reaches d r found) : Literal saved restoreKeys found := by
  have hrest := hfree.mono (List.subset_cons_self ..)
  have hb := bucketOf_holds d repo hfound
  have habsent : cacheKey d repo key ∉ (found :: saved).map (cacheKey d repo) :=
    mt (mem_objects_iff hb (hfree.mono (by simp))).mp hkey
  have hresolve : cacheResolve d (bucketOf ((found :: saved).map (cacheKey d repo))) repo key restoreKeys =
      .ok (some (cacheKey d repo found)) := by
    rw [cacheResolve, bucketOf_stat habsent]
    exact resolveRestore_first hfound hrest hsplit hbefore hself hreaches
  obtain ⟨found', hfound', heq, rfl | hliteral⟩ := h _ hb _ hresolve
  · exact absurd hfound' hkey
  · have hsame : sanitizeKey d found = sanitizeKey d found' := by
      simpa [cacheKey, cachePrefix, objectName] using heq
    rw [hrest found (by simp [hfound]) found' (by simp [hfound']) (hash_of_sanitizeKey hsame)]
    exact hliteral

theorem Literal.head {saved r after found} (h : Literal saved restoreKeys found)
    (hwanted : wanted restoreKeys = r :: after)
    (hstarts : ∃ other ∈ saved, r <+: other) : r <+: found := by
  obtain ⟨before, r', after', hsplit, hfound, hbefore⟩ := h
  rw [hwanted] at hsplit
  cases before with
  | nil =>
    obtain ⟨rfl, -⟩ := List.cons.inj hsplit
    exact hfound
  | cons r'' before =>
    obtain ⟨rfl, -⟩ := List.cons.inj hsplit
    obtain ⟨other, hother, hother'⟩ := hstarts
    exact absurd hother' (hbefore r (.head _) other hother)

theorem exists_of_wanted {r} (h : r ∈ wanted restoreKeys) :
    ∃ rk ∈ restoreKeys, ∀ list, wanted (rk :: list) = r :: wanted list := by
  simp only [wanted, List.mem_filter, List.mem_map, decide_eq_true_eq] at h
  obtain ⟨⟨rk, hrk, rfl⟩, hne⟩ := h
  exact ⟨rk, hrk, fun list => by simp [wanted, hne]⟩

/-- A digest that only sees the length. -/
def lengthDigest : Digest where
  hash key := List.replicate 8 (Bytes.hexDigit (key.length % 16))
  length _ := List.length_replicate
  hex key b hb := by
    have hdigits : ∀ n < 16, Bytes.hexDigit n ∈ ofString "0123456789abcdef" := by decide
    rw [List.eq_of_mem_replicate hb]
    exact hdigits _ (Nat.mod_lt _ (by decide))

/-- The repository of the examples. -/
def ownRepository : Repository := ⟨ofString "github", ofString "o", ofString "r"⟩

/-- What is found for a restore key is no artifact of another repository. -/
theorem repositories_isolated_artifact :
    let k := cacheKey lengthDigest ownRepository (ofString "linux-go")
    cacheResolve lengthDigest (bucketOf [k]) ownRepository (ofString "x") [ofString "linux"] = .ok (some k) ∧
      k ≠ artifactKey ⟨ofString "github", ofString "o", ofString "other"⟩ (ofString "1") (ofString "x") := by
  have hhit : cacheResolve lengthDigest (bucketOf [cacheKey lengthDigest ownRepository (ofString "linux-go")])
      ownRepository (ofString "x") [ofString "linux"] =
        .ok (some (cacheKey lengthDigest ownRepository (ofString "linux-go"))) := by decide +kernel
  obtain ⟨-, hapart, -⟩ := (repositories_isolated lengthDigest _ ownRepository (by decide)).1 _ _ _ (.inr hhit)
  exact ⟨hhit, (hapart _ (by decide) (by decide) [] _ _).2⟩

/-- The object that is returned for one restore key where one key is saved. -/
def restored (saved restoreKey : String) : Option (Option Bytes) :=
  (cacheResolve lengthDigest (bucketOf [cacheKey lengthDigest ownRepository (ofString saved)]) ownRepository
    (ofString "x") [ofString restoreKey]).toOption

end Forgelet.S3
