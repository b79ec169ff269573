import Forgelet.Security.Proofs.CipherProofs
import Forgelet.Security.Rotation

/-!
# Proofs: key rotation

The invariant of a history is that the blob is sealed with the master key of the last `Seal` or `Rewrap`. Everything
else about a blob follows from it and from the key that the keyring has for its version.
-/

namespace Forgelet.Secret

open Bytes (ofString)

variable {σ : Type} {aes : AesGcm} {rng : Source σ} {aad : Bytes} {v : Vault σ}

variable {keys : List Key} {current : UInt32} {k : Key}

theorem addKeys_lookup {t t'} (h : addKeys t keys = .ok t') (version : UInt32) (k : Key) :
    t'.keys.lookup version = some k ↔ t.keys.lookup version = some k ∨ (k ∈ keys ∧ k.version = version) := by
  induction keys generalizing t with
  | nil =>
    cases h
    simp
  | cons k' rest ih =>
    unfold addKeys at h
    split_ifs at h with hversion hsize hdup
    have habsent : t.keys.lookup k'.version = none := by simpa using hdup
    rw [ih h, KeyTable.insert, GoMap.lookup_insert_ite, List.mem_cons]
    by_cases heq : version = k'.version
    · subst heq
      rw [if_pos rfl, habsent]
      constructor
      · rintro (hk | ⟨hk, hv⟩)
        · exact .inr ⟨.inl (Option.some.inj hk).symm, by rw [Option.some.inj hk]⟩
        · exact .inr ⟨.inr hk, hv⟩
      · rintro (hk | ⟨rfl | hk, hv⟩)
        · cases hk
        · exact .inl rfl
        · exact .inr ⟨hk, hv⟩
    · rw [if_neg heq]
      constructor
      · rintro (hk | ⟨hk, hv⟩)
        · exact .inl hk
        · exact .inr ⟨.inr hk, hv⟩
      · rintro (hk | ⟨rfl | hk, hv⟩)
        · exact .inl hk
        · exact absurd hv.symm heq
        · exact .inr ⟨hk, hv⟩

theorem newStaticKeyring_lookup {ring} (h : newStaticKeyring current keys = .ok ring) (version : UInt32) (k : Key) :
    ring.keyring.key version = some k ↔ k ∈ keys ∧ k.version = version := by
  unfold newStaticKeyring at h
  split_ifs at h
  split at h
  · cases h
  · rename_i t ht
    split_ifs at h
    cases h
    show t.keys.lookup version = some k ↔ _
    rw [addKeys_lookup ht]
    simp [KeyTable.empty]

theorem StaticKeyring.mem_list (ring : StaticKeyring) (k : Key) :
    k ∈ ring.list ↔ ring.keyring.key k.version = some k := by
  unfold list
  rw [GoMap.mem_values_iff]
  constructor
  · rintro ⟨version, hk⟩
    rw [ring.version _ _ hk]
    exact hk
  · exact fun hk => ⟨_, hk⟩

theorem StaticKeyring.currentKey_mem (ring : StaticKeyring) : ring.currentKey ∈ ring.list := by
  rw [mem_list, ring.currentKey_version]
  exact ring.currentKey_lookup

theorem newStaticKeyring_mem {ring} (h : newStaticKeyring current keys = .ok ring) (k : Key) :
    k ∈ ring.list ↔ k ∈ keys := by
  rw [ring.mem_list, newStaticKeyring_lookup h, and_iff_left rfl]

theorem mem_reconfigure (h : k ∈ (v.reconfigure (newStaticKeyring current keys)).ring.list) :
    k ∈ v.ring.list ∨ k ∈ keys := by
  cases hring : newStaticKeyring current keys with
  | error err =>
    rw [hring] at h
    exact .inl h
  | ok ring =>
    rw [hring] at h
    exact .inr ((newStaticKeyring_mem hring k).mp h)

theorem reconfigure_mem (hv : k ∈ v.ring.list) (hk : k ∈ keys) :
    k ∈ (v.reconfigure (newStaticKeyring current keys)).ring.list := by
  cases hring : newStaticKeyring current keys with
  | error err => exact hv
  | ok ring => exact (newStaticKeyring_mem hring k).mpr hk

theorem store_ring (plaintext : Bytes) (r : Except Err Sealed × σ) : (v.store plaintext r).ring = v.ring := by
  obtain ⟨_ | _, _⟩ := r <;> rfl

theorem mem_step {op} (h : k ∈ (v.step aes rng aad op).ring.list) : k ∈ v.ring.list ∨ op = .addKey k := by
  cases op with
  | put plaintext => exact .inl (store_ring plaintext _ ▸ h)
  | rewrap => exact .inl (store_ring v.plaintext _ ▸ h)
  | addKey k' =>
    rcases mem_reconfigure h with hk | hk
    · exact .inl hk
    · rcases List.mem_append.mp hk with hk | hk
      · exact .inl hk
      · exact .inr (by rw [List.mem_singleton.mp hk])
  | setCurrent version => exact .inl ((mem_reconfigure h).elim id id)
  | retire version => exact .inl ((mem_reconfigure h).elim id fun hk => (List.mem_filter.mp hk).1)

theorem step_mem {op} (hop : ∀ version, op ≠ .retire version) (h : k ∈ v.ring.list) :
    k ∈ (v.step aes rng aad op).ring.list := by
  cases op with
  | put plaintext => exact (store_ring plaintext _).symm ▸ h
  | rewrap => exact (store_ring v.plaintext _).symm ▸ h
  | addKey k' => exact reconfigure_mem h (List.mem_append_left _ h)
  | setCurrent version => exact reconfigure_mem h h
  | retire version => exact absurd rfl (hop version)

theorem reconfigure_rest (ring : Except Err StaticKeyring) :
    (v.reconfigure ring).blob = v.blob ∧ (v.reconfigure ring).plaintext = v.plaintext ∧
      (v.reconfigure ring).master = v.master := by
  cases ring <;> exact ⟨rfl, rfl, rfl⟩

theorem step_master (op : Op) :
    (v.step aes rng aad op).master = v.master ∨ (v.step aes rng aad op).master ∈ v.ring.list := by
  have hstore : ∀ plaintext r, (v.store plaintext r).master = v.master ∨
      (v.store plaintext r).master ∈ v.ring.list := by
    rintro plaintext ⟨_ | _, _⟩
    · exact .inl rfl
    · exact .inr v.ring.currentKey_mem
  cases op with
  | put | rewrap => exact hstore ..
  | addKey | setCurrent | retire => exact .inl (reconfigure_rest _).2.2

theorem rewrap_sealedWith (haes : Tagged aes) (hv : SealedWith aes v.master aad v.plaintext v.blob) {blob s}
    (h : (v.cipher rng).rewrap aes v.rng v.blob aad = (.ok blob, s)) :
    SealedWith aes v.ring.currentKey aad v.plaintext blob := by
  unfold Cipher.rewrap at h
  cases hopen : (v.cipher rng).openSealed aes v.blob aad with
  | error err =>
    rw [hopen] at h
    cases (Prod.mk.inj h).1
  | ok out =>
    rw [hopen] at h
    obtain ⟨held, hheld⟩ := held_of_openSealed hopen
    obtain ⟨-, -, rfl⟩ := (openSealed_iff haes hv hheld (v.ring.size _ _ hheld) out).mp hopen
    exact sealSecret_sealedWith rfl h

/-- The invariant: the blob is sealed with the master key of the last call that made one. -/
theorem step_sealedWith (haes : Tagged aes) (hv : SealedWith aes v.master aad v.plaintext v.blob) (op : Op) :
    SealedWith aes (v.step aes rng aad op).master aad (v.step aes rng aad op).plaintext
      (v.step aes rng aad op).blob := by
  have hrest : ∀ ring, SealedWith aes (v.reconfigure ring).master aad (v.reconfigure ring).plaintext
      (v.reconfigure ring).blob := by
    intro ring
    obtain ⟨hblob, hplaintext, hmaster⟩ := reconfigure_rest (v := v) ring
    rw [hblob, hplaintext, hmaster]
    exact hv
  have hstore : ∀ plaintext r, (∀ blob s, r = (.ok blob, s) → SealedWith aes v.ring.currentKey aad plaintext blob) →
      SealedWith aes (v.store plaintext r).master aad (v.store plaintext r).plaintext (v.store plaintext r).blob := by
    rintro plaintext ⟨_ | blob, s⟩ h
    · exact hv
    · exact h blob s rfl
  cases op with
  | put plaintext => exact hstore _ _ fun blob s h => sealSecret_sealedWith rfl h
  | rewrap => exact hstore _ _ fun blob s h => rewrap_sealedWith haes hv h
  | addKey | setCurrent | retire => exact hrest _

theorem step_plaintext (hrng : rng.Delivers) (op : Op) (rest : List Op) :
    lastSealed (v.step aes rng aad op).plaintext rest = lastSealed v.plaintext (op :: rest) := by
  cases op with
  | put plaintext =>
    have hcurrent : (v.cipher rng).ring.current = .ok v.ring.currentKey := rfl
    obtain ⟨blob, s, hseal⟩ := sealSecret_ok aes hrng hcurrent v.ring.currentKey_size v.rng plaintext aad
    rw [Vault.step, hseal]
    rfl
  | rewrap =>
    rw [Vault.step]
    obtain ⟨_ | _, _⟩ := (v.cipher rng).rewrap aes v.rng v.blob aad
    · rfl
    · rfl
  | addKey | setCurrent | retire => exact congrArg (lastSealed · rest) (reconfigure_rest _).2.1

theorem run_plaintext (hrng : rng.Delivers) (history : List Op) :
    (v.run aes rng aad history).plaintext = lastSealed v.plaintext history := by
  induction history generalizing v with
  | nil => rfl
  | cons op rest ih => exact ih.trans (step_plaintext hrng op rest)

theorem run_sealedWith (haes : Tagged aes) (hv : SealedWith aes v.master aad v.plaintext v.blob) (history : List Op) :
    SealedWith aes (v.run aes rng aad history).master aad (v.run aes rng aad history).plaintext
      (v.run aes rng aad history).blob := by
  induction history generalizing v with
  | nil => exact hv
  | cons op rest ih => exact ih (step_sealedWith haes hv op)

theorem run_master_mem (hv : v.master ∈ v.ring.list) {history} (h : ∀ version, .retire version ∉ history) :
    (v.run aes rng aad history).master ∈ (v.run aes rng aad history).ring.list := by
  induction history generalizing v with
  | nil => exact hv
  | cons op rest ih =>
    have hop : ∀ version, op ≠ .retire version := by
      rintro version rfl
      exact h version (.head _)
    refine ih ?_ fun version hmem => h version (.tail _ hmem)
    rcases step_master (v := v) op with heq | hmaster
    · rw [heq]
      exact step_mem hop hv
    · exact step_mem hop hmaster

theorem run_assigned {material : UInt32 → Bytes} (hkeys : ∀ k ∈ v.ring.list, k.material = material k.version)
    (hmaster : v.master.material = material v.master.version) {history} (h : ∀ op ∈ history, op.Assigned material) :
    (∀ k ∈ (v.run aes rng aad history).ring.list, k.material = material k.version) ∧
      (v.run aes rng aad history).master.material = material (v.run aes rng aad history).master.version := by
  induction history generalizing v with
  | nil => exact ⟨hkeys, hmaster⟩
  | cons op rest ih =>
    refine ih ?_ ?_ fun op' hop' => h op' (.tail _ hop')
    · intro k hk
      rcases mem_step hk with hk | rfl
      · exact hkeys k hk
      · exact h _ (.head _)
    · rcases step_master (v := v) op with heq | hm
      · rw [heq]
        exact hmaster
      · exact hkeys _ hm

theorem retains_opens (haes : Tagged aes) (hrng : rng.Delivers) (hv : SealedWith aes v.master aad v.plaintext v.blob)
    (hretains : v.Retains) : (v.cipher rng).openSealed aes v.blob aad = .ok v.plaintext ∧
      ∃ blob s, (v.cipher rng).rewrap aes v.rng v.blob aad = (.ok blob, s) ∧ blob.masterKeyVersion = v.ring.currentVer ∧
        ∀ ring : StaticKeyring, ring.keyring.key v.ring.currentVer = some v.ring.currentKey →
          (Cipher.mk ring.keyring rng).openSealed aes blob aad = .ok v.plaintext := by
  have hheld : (v.cipher rng).ring.key v.blob.masterKeyVersion = some v.master := hretains
  have hopen := (openSealed_iff haes hv hheld (v.ring.size _ _ hretains) _).mpr ⟨rfl, rfl, rfl⟩
  have hcurrent : (v.cipher rng).ring.current = .ok v.ring.currentKey := rfl
  obtain ⟨blob, s, hseal⟩ := sealSecret_ok aes hrng hcurrent v.ring.currentKey_size v.rng v.plaintext aad
  have hblob := sealSecret_sealedWith rfl hseal
  have hversion : blob.masterKeyVersion = v.ring.currentVer := hblob.version.trans v.ring.currentKey_version
  refine ⟨hopen, blob, s, ?_, hversion, fun ring hring => ?_⟩
  · rw [Cipher.rewrap, hopen]
    exact hseal
  · have hheld' : (Cipher.mk ring.keyring rng).ring.key blob.masterKeyVersion = some v.ring.currentKey := by
      rw [hversion]
      exact hring
    exact (openSealed_iff haes hblob hheld' v.ring.currentKey_size _).mpr ⟨rfl, rfl, rfl⟩

/-- Through every history of its keyring a sealed secret opens, and can be sealed again under the current key alone,
just while the keyring retains its key: where none is retired, or where its version is there and no version is given
to two keys. -/
theorem sealed_survives_rotation (haes : Tagged aes) (hrng : rng.Delivers) (ring : StaticKeyring) (s : σ)
    (plaintext aad : Bytes) (history : List Op) :
    ∃ blob s', (Cipher.mk ring.keyring rng).sealSecret aes s plaintext aad = (.ok blob, s') ∧
      ∀ v, v = Vault.run aes rng aad ⟨ring, s', blob, plaintext, ring.currentKey⟩ history →
        v.plaintext = lastSealed plaintext history ∧
        (v.Retains → (v.cipher rng).openSealed aes v.blob aad = .ok v.plaintext ∧
          ∃ blob' s'', (v.cipher rng).rewrap aes v.rng v.blob aad = (.ok blob', s'') ∧
            blob'.masterKeyVersion = v.ring.currentVer ∧
            ∀ ring' : StaticKeyring, ring'.keyring.key v.ring.currentVer = some v.ring.currentKey →
              (Cipher.mk ring'.keyring rng).openSealed aes blob' aad = .ok v.plaintext) ∧
        (¬ v.Retains → ∀ out, (v.cipher rng).openSealed aes v.blob aad ≠ .ok out) ∧
        ((∀ version, .retire version ∉ history) → v.Retains) ∧
        ∀ material, (∀ k ∈ ring.list, k.material = material k.version) → (∀ op ∈ history, op.Assigned material) →
          (v.ring.keyring.key v.blob.masterKeyVersion).isSome → v.Retains := by
  have hcurrent : (Cipher.mk ring.keyring rng).ring.current = .ok ring.currentKey := rfl
  obtain ⟨blob, s', hseal⟩ := sealSecret_ok aes hrng hcurrent ring.currentKey_size s plaintext aad
  refine ⟨blob, s', hseal, ?_⟩
  intro v hv
  have hblob : SealedWith aes v.master aad v.plaintext v.blob :=
    hv ▸ run_sealedWith haes (sealSecret_sealedWith rfl hseal) history
  have hretains : v.Retains ↔ v.master ∈ v.ring.list := by
    rw [Vault.Retains, v.ring.mem_list, hblob.version]
  refine ⟨hv ▸ run_plaintext hrng history, retains_opens haes hrng hblob, ?_, ?_, ?_⟩
  · intro hlost out hout
    obtain ⟨held, hheld⟩ := held_of_openSealed hout
    obtain ⟨hmaterial, -⟩ := (openSealed_iff haes hblob hheld (v.ring.size _ _ hheld) out).mp hout
    have heq : held = v.master := Key.ext ((v.ring.version _ _ hheld).trans hblob.version) hmaterial
    exact hlost (hheld.trans (congrArg some heq))
  · intro hnone
    rw [hretains, hv]
    exact run_master_mem ring.currentKey_mem hnone
  · intro material hring hops hsome
    obtain ⟨held, hheld⟩ := Option.isSome_iff_exists.mp hsome
    have hversion : held.version = v.master.version := (v.ring.version _ _ hheld).trans hblob.version
    obtain ⟨hkeys, hmaster⟩ : (∀ k ∈ v.ring.list, k.material = material k.version) ∧
        v.master.material = material v.master.version :=
      hv ▸ run_assigned hring (hring _ ring.currentKey_mem) hops
    have hmem : held ∈ v.ring.list := by
      rw [v.ring.mem_list, v.ring.version _ _ hheld]
      exact hheld
    have heq : held = v.master := Key.ext hversion (by rw [hkeys held hmem, hmaster, hversion])
    exact hretains.mpr (heq ▸ hmem)

/-- A new key is added and made current, the secret is wrapped again, and opens. -/
theorem sealed_survives_rotation_added :
    zeros.Delivers ∧ ∃ blob s, (Cipher.mk oneKey.keyring zeros).sealSecret Aead.labelled () (ofString "v") [] =
        (.ok blob, s) ∧ ∀ v, v = Vault.run Aead.labelled zeros [] ⟨oneKey, s, blob, ofString "v", oneKey.currentKey⟩
          [.addKey ⟨2, List.replicate 32 9⟩, .setCurrent 2, .rewrap] →
        (v.cipher zeros).openSealed Aead.labelled v.blob [] = .ok (ofString "v") := by
  obtain ⟨blob, s, hseal, hrun⟩ := sealed_survives_rotation labelled_tagged zeros_delivers oneKey () (ofString "v") []
    [.addKey ⟨2, List.replicate 32 9⟩, .setCurrent 2, .rewrap]
  refine ⟨zeros_delivers, blob, s, hseal, fun v hv => ?_⟩
  obtain ⟨hplaintext, hopens, -, hretains, -⟩ := hrun v hv
  rw [(hopens (hretains (by simp))).1, hplaintext]
  rfl

end Forgelet.Secret
