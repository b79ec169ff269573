import Forgelet.Lib.Separator
import Forgelet.Security.Cipher

/-!
# Proofs: sealing and opening

What `Seal` writes, and what `Open` reads from such a blob: the wrapped data key is cut where it was put together, so
that the master key and the associated data alone decide. The associated data determine the scope and the name of a
secret unless a NUL byte in these moves the border.
-/

namespace Forgelet.Secret

open Bytes (ofString)

variable {σ : Type} {aes : AesGcm} {master : Key} {aad aad' plaintext : Bytes} {blob : Sealed}

/-- An ideal cipher whose ciphertexts are not empty: AES-GCM appends a tag. -/
structure Tagged (aes : AesGcm) : Prop extends aes.Ideal where
  tag : ∀ key nonce plaintext aad, aes.encrypt key nonce plaintext aad ≠ []

theorem labelled_tagged : Tagged Aead.labelled := ⟨Aead.labelled_ideal, Aead.labelled_ne_nil⟩

/-- A reader that never fails. -/
def Source.Delivers (rng : Source σ) : Prop := ∀ s n, ∃ b s', rng.readFull s n = (.ok b, s')

/-- The blob is what `Seal` writes for some data key and nonces. -/
def SealedWith (aes : AesGcm) (master : Key) (aad plaintext : Bytes) (blob : Sealed) : Prop :=
  ∃ dek nonce wrapNonce, dek.length = 32 ∧ nonce.length = nonceSize ∧ wrapNonce.length = nonceSize ∧
    blob = ⟨nonce, aes.encrypt dek nonce plaintext aad, wrapNonce ++ aes.encrypt master.material wrapNonce dek aad,
      master.version⟩

theorem SealedWith.version (h : SealedWith aes master aad plaintext blob) : blob.masterKeyVersion = master.version := by
  obtain ⟨_, _, _, _, _, _, rfl⟩ := h
  rfl

theorem newGCM_ok {key} (h : key.length = 32) : newGCM key = .ok ⟨key, .inr (.inr h)⟩ := dif_pos _

/-- What `Seal` returns. -/
theorem sealSecret_sealedWith {c : Cipher σ} (hcurrent : c.ring.current = .ok master) {s s' : σ}
    (h : c.sealSecret aes s plaintext aad = (.ok blob, s')) : SealedWith aes master aad plaintext blob := by
  unfold Cipher.sealSecret at h
  rw [hcurrent] at h
  dsimp only at h
  split at h
  · cases h
  · rename_i dek _ hdek
    have hlength := c.rng.full _ _ _ _ hdek
    rw [newGCM_ok hlength] at h
    dsimp only at h
    split at h
    · cases h
    · rename_i nonce _ hnonce
      split at h
      · cases h
      · rename_i wrapGCM hwrapGCM
        split at h
        · cases h
        · rename_i wrapNonce _ hwrap
          have hkey : wrapGCM.key = master.material := by
            unfold newGCM at hwrapGCM
            split_ifs at hwrapGCM
            exact congrArg Gcm.key (Except.ok.inj hwrapGCM).symm
          obtain ⟨hblob, -⟩ := Prod.mk.inj h
          refine ⟨dek, nonce, wrapNonce, hlength, c.rng.full _ _ _ _ hnonce, c.rng.full _ _ _ _ hwrap, ?_⟩
          rw [← Except.ok.inj hblob, Gcm.sealText, Gcm.sealText, hkey]

/-- `Seal` succeeds where the reader delivers and the current key has 32 bytes. -/
theorem sealSecret_ok (aes : AesGcm) {c : Cipher σ} (hrng : c.rng.Delivers) (hcurrent : c.ring.current = .ok master)
    (hsize : master.material.length = 32) (s : σ) (plaintext aad : Bytes) :
    ∃ blob s', c.sealSecret aes s plaintext aad = (.ok blob, s') := by
  obtain ⟨dek, s₁, hdek⟩ := hrng s 32
  obtain ⟨nonce, s₂, hnonce⟩ := hrng s₁ nonceSize
  obtain ⟨wrapNonce, s₃, hwrap⟩ := hrng s₂ nonceSize
  unfold Cipher.sealSecret
  rw [hcurrent]
  rw [hdek]
  dsimp only
  rw [newGCM_ok (c.rng.full _ _ _ _ hdek)]
  rw [hnonce]
  rw [newGCM_ok hsize]
  dsimp only
  rw [hwrap]
  exact ⟨_, _, rfl⟩

theorem openText_eq {g : Gcm} {nonce ciphertext out : Bytes} :
    g.openText aes nonce ciphertext aad = .ok out ↔ aes.decrypt g.key nonce ciphertext aad = some out := by
  unfold Gcm.openText
  cases aes.decrypt g.key nonce ciphertext aad with
  | none => exact ⟨nofun, nofun⟩
  | some text => exact ⟨fun h => congrArg some (Except.ok.inj h), fun h => congrArg Except.ok (Option.some.inj h)⟩

/-- `Open` returns the plaintext for the master key and data of the `Seal`, or nothing. -/
theorem openSealed_iff (haes : Tagged aes) {c : Cipher σ} (hblob : SealedWith aes master aad plaintext blob)
    {held : Key} (hheld : c.ring.key blob.masterKeyVersion = some held) (hsize : held.material.length = 32)
    (out : Bytes) :
    c.openSealed aes blob aad' = .ok out ↔ held.material = master.material ∧ aad' = aad ∧ out = plaintext := by
  obtain ⟨dek, nonce, wrapNonce, hdek, hnonce, hwrap, rfl⟩ := hblob
  have hlong : ¬ (wrapNonce ++ aes.encrypt master.material wrapNonce dek aad).length < nonceSize + 1 := by
    have htag := List.length_pos_iff.mpr (haes.tag master.material wrapNonce dek aad)
    rw [List.length_append, hwrap]
    omega
  have htake : (wrapNonce ++ aes.encrypt master.material wrapNonce dek aad).take nonceSize = wrapNonce :=
    List.take_left' hwrap
  have hdrop : (wrapNonce ++ aes.encrypt master.material wrapNonce dek aad).drop nonceSize =
      aes.encrypt master.material wrapNonce dek aad := List.drop_left' hwrap
  unfold Cipher.openSealed
  rw [hheld]
  dsimp only
  rw [newGCM_ok hsize]
  dsimp only
  rw [if_neg hlong, htake, hdrop]
  cases hunwrap : Gcm.openText aes ⟨held.material, .inr (.inr hsize)⟩ wrapNonce
      (aes.encrypt master.material wrapNonce dek aad) aad' with
  | error err =>
    refine ⟨nofun, ?_⟩
    rintro ⟨hkey, rfl, -⟩
    exact absurd (hunwrap.symm.trans (openText_eq.mpr (haes.decrypt_iff.mpr ⟨hkey, rfl, rfl, rfl⟩))) nofun
  | ok dek' =>
    obtain ⟨hkey, -, haad, rfl⟩ := haes.decrypt_iff.mp (openText_eq.mp hunwrap)
    dsimp only
    rw [newGCM_ok hdek]
    dsimp only
    rw [if_neg (not_not.mpr hnonce)]
    cases hpayload : Gcm.openText aes ⟨dek', .inr (.inr hdek)⟩ nonce (aes.encrypt dek' nonce plaintext aad) aad' with
    | error err =>
      exact absurd (hpayload.symm.trans (openText_eq.mpr (haes.decrypt_iff.mpr ⟨rfl, rfl, haad, rfl⟩))) nofun
    | ok text =>
      obtain ⟨-, -, -, rfl⟩ := haes.decrypt_iff.mp (openText_eq.mp hpayload)
      exact ⟨fun h => ⟨hkey, haad, (Except.ok.inj h).symm⟩, fun h => congrArg Except.ok h.2.2.symm⟩

theorem held_of_openSealed {c : Cipher σ} {out : Bytes} (h : c.openSealed aes blob aad = .ok out) :
    ∃ held, c.ring.key blob.masterKeyVersion = some held := by
  unfold Cipher.openSealed at h
  split at h
  · cases h
  · exact ⟨_, ‹_›⟩

theorem StaticKeyring.currentKey_lookup (ring : StaticKeyring) :
    ring.keys.lookup ring.currentVer = some ring.currentKey := (Option.some_get ring.hasCurrent).symm

theorem StaticKeyring.currentKey_version (ring : StaticKeyring) : ring.currentKey.version = ring.currentVer :=
  ring.version _ _ ring.currentKey_lookup

theorem StaticKeyring.currentKey_size (ring : StaticKeyring) : ring.currentKey.material.length = 32 :=
  ring.size _ _ ring.currentKey_lookup

/-- What was just sealed is opened with the same data. -/
theorem opens_iff (haes : Tagged aes) {ring : StaticKeyring} {rng : Source σ} {s s' : σ}
    (hseal : (Cipher.mk ring.keyring rng).sealSecret aes s plaintext aad = (.ok blob, s')) :
    (∃ out, (Cipher.mk ring.keyring rng).openSealed aes blob aad' = .ok out) ↔ aad = aad' := by
  have hblob := sealSecret_sealedWith rfl hseal
  have hheld : (Cipher.mk ring.keyring rng).ring.key blob.masterKeyVersion = some ring.currentKey := by
    rw [hblob.version, ring.currentKey_version]
    exact ring.currentKey_lookup
  constructor
  · rintro ⟨out, hout⟩
    exact ((openSealed_iff haes hblob hheld ring.currentKey_size out).mp hout).2.1.symm
  · intro heq
    exact ⟨plaintext, (openSealed_iff haes hblob hheld ring.currentKey_size _).mpr ⟨rfl, heq.symm, rfl⟩⟩

/-- One owner has a NUL byte and more behind its scope, and this in front of its name. -/
def Shifted (scope name scope' name' : Bytes) : Prop := ∃ t, scope' = scope ++ 0 :: t ∧ name = t ++ 0 :: name'

theorem Shifted.irrefl {scope name} : ¬ Shifted scope name scope name := by
  rintro ⟨t, hscope, -⟩
  have hlength := congrArg List.length hscope
  rw [List.length_append, List.length_cons] at hlength
  omega

theorem secretAAD_eq_iff {scope name scope' name'} : secretAAD scope name = secretAAD scope' name' ↔
      (scope = scope' ∧ name = name') ∨ Shifted scope name scope' name' ∨ Shifted scope' name' scope name := by
  unfold secretAAD
  rw [List.append_cancel_left_eq, List.cons.injEq, Separator.cut_eq_iff]
  simp only [Shifted, true_and]

/-- A sealed secret is opened for another owner just where the two are shifted. So it is bound to its owner where the
scopes, or the names, have no NUL byte. -/
theorem secretAAD_binds_iff (haes : Tagged aes) (ring : StaticKeyring) (rng : Source σ) {s s' : σ} {plaintext : Bytes}
    (scope name scope' name' : Bytes)
    (hseal : (Cipher.mk ring.keyring rng).sealSecret aes s plaintext (secretAAD scope name) = (.ok blob, s')) :
    (((∃ out, (Cipher.mk ring.keyring rng).openSealed aes blob (secretAAD scope' name') = .ok out) ↔
          scope = scope' ∧ name = name') ↔ ¬ (Shifted scope name scope' name' ∨ Shifted scope' name' scope name)) ∧
      ((0 ∉ scope ∧ 0 ∉ scope') ∨ (0 ∉ name ∧ 0 ∉ name') →
        ((∃ out, (Cipher.mk ring.keyring rng).openSealed aes blob (secretAAD scope' name') = .ok out) ↔
          scope = scope' ∧ name = name')) := by
  rw [opens_iff haes hseal, secretAAD_eq_iff]
  have hiff : ((scope = scope' ∧ name = name') ∨ Shifted scope name scope' name' ∨ Shifted scope' name' scope name ↔
      scope = scope' ∧ name = name') ↔ ¬ (Shifted scope name scope' name' ∨ Shifted scope' name' scope name) := by
    constructor
    · rintro h hshifted
      obtain ⟨rfl, rfl⟩ := h.mp (.inr hshifted)
      exact hshifted.elim Shifted.irrefl Shifted.irrefl
    · exact fun h => or_iff_left h
  refine ⟨hiff, fun hclean => hiff.mpr ?_⟩
  rintro (⟨t, rfl, rfl⟩ | ⟨t, rfl, rfl⟩)
  · simp at hclean
  · simp at hclean

/-- A source of zeros. -/
def zeros : Source Unit where
  readFull _ n := (.ok (List.replicate n 0), ())
  full _ n b _ h := by
    obtain ⟨hb, -⟩ := Prod.mk.inj h
    rw [← Except.ok.inj hb, List.length_replicate]

theorem zeros_delivers : zeros.Delivers := fun _ _ => ⟨_, _, rfl⟩

/-- A keyring of one key. -/
def oneKey : StaticKeyring where
  toKeyTable := KeyTable.empty.insert ⟨1, List.replicate 32 7⟩ (by decide) rfl
  currentVer := 1
  hasCurrent := rfl

theorem oneKey_seals (plaintext aad : Bytes) :
    ∃ blob s, (Cipher.mk oneKey.keyring zeros).sealSecret Aead.labelled () plaintext aad = (.ok blob, s) :=
  sealSecret_ok _ zeros_delivers rfl oneKey.currentKey_size () plaintext aad

/-- A secret of the repository does not open as one of the environment. -/
theorem secretAAD_binds_environment :
    ∃ blob s, (Cipher.mk oneKey.keyring zeros).sealSecret Aead.labelled () (ofString "v")
          (secretAAD (ofString "repository") (ofString "TOKEN")) = (.ok blob, s) ∧
      ¬ ∃ out, (Cipher.mk oneKey.keyring zeros).openSealed Aead.labelled blob
        (secretAAD (ofString "environment") (ofString "TOKEN")) = .ok out := by
  obtain ⟨blob, s, hseal⟩ := oneKey_seals (ofString "v") (secretAAD (ofString "repository") (ofString "TOKEN"))
  have hbinds := secretAAD_binds_iff labelled_tagged oneKey zeros _ _ (ofString "environment") (ofString "TOKEN") hseal
  refine ⟨blob, s, hseal, ?_⟩
  rw [hbinds.2 (.inl (by decide))]
  decide

/-- The secret `c` of one scope is opened as a secret of the scope `a`. -/
theorem secretAAD_shared : ∃ blob s, (Cipher.mk oneKey.keyring zeros).sealSecret Aead.labelled () (ofString "v")
          (secretAAD (ofString "a\x00b") (ofString "c")) = (.ok blob, s) ∧
      (∃ out, (Cipher.mk oneKey.keyring zeros).openSealed Aead.labelled blob
        (secretAAD (ofString "a") (ofString "b\x00c")) = .ok out) ∧
      ofString "a\x00b" ≠ ofString "a" ∧ ofString "c" ≠ ofString "b\x00c" := by
  obtain ⟨blob, s, hseal⟩ := oneKey_seals (ofString "v") (secretAAD (ofString "a\x00b") (ofString "c"))
  exact ⟨blob, s, hseal, (opens_iff labelled_tagged hseal).mpr (by decide), by decide, by decide⟩

end Forgelet.Secret
