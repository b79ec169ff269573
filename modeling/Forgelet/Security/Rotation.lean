import Forgelet.Security.Cipher

/-!
# Key rotation

A stored secret through a history of its keyring. Every change of the keyring is a new `StaticKeyring` made by
`NewStaticKeyring`; a change that it refuses, and a call that fails, leave everything as it is but the reader.
-/

namespace Forgelet.Secret

/-- An operation on secrets and keys. -/
inductive Op
  | put (plaintext : Bytes)
  | addKey (k : Key)
  | setCurrent (version : UInt32)
  | retire (version : UInt32)
  | rewrap

/-- A stored secret with the keyring. `plaintext` and `master` are history. -/
structure Vault (σ : Type) where
  ring : StaticKeyring
  rng : σ
  blob : Sealed
  plaintext : Bytes
  master : Key

/-- The keys, in some order. -/
def StaticKeyring.list (r : StaticKeyring) : List Key := r.keys.entries.map (·.2)

namespace Vault

variable {σ : Type} (aes : AesGcm) (rng : Source σ) (aad : Bytes)

/-- The cipher with the keys as they are. -/
def cipher (v : Vault σ) : Cipher σ := ⟨v.ring.keyring, rng⟩

/-- The new keyring is used if it is valid. -/
def reconfigure (v : Vault σ) : Except Err StaticKeyring → Vault σ
  | .ok ring => { v with ring := ring }
  | .error _ => v

/-- A blob is stored, unless the call fails. -/
def store (v : Vault σ) (plaintext : Bytes) : Except Err Sealed × σ → Vault σ
  | (.ok blob, s) => { v with rng := s, blob := blob, plaintext := plaintext, master := v.ring.currentKey }
  | (.error _, s) => { v with rng := s }

/-- One operation. -/
def step (v : Vault σ) : Op → Vault σ
  | .put plaintext => v.store plaintext ((v.cipher rng).sealSecret aes v.rng plaintext aad)
  | .addKey k => v.reconfigure (newStaticKeyring v.ring.currentVer (v.ring.list ++ [k]))
  | .setCurrent version => v.reconfigure (newStaticKeyring version v.ring.list)
  | .retire version =>
    v.reconfigure (newStaticKeyring v.ring.currentVer (v.ring.list.filter fun k => k.version ≠ version))
  | .rewrap => v.store v.plaintext ((v.cipher rng).rewrap aes v.rng v.blob aad)

/-- A history of operations. -/
def run (v : Vault σ) (history : List Op) : Vault σ := history.foldl (step aes rng aad) v

/-- The keyring still has the key that the blob needs. -/
def Retains (v : Vault σ) : Prop := v.ring.keyring.key v.blob.masterKeyVersion = some v.master

end Vault

/-- The plaintext after a history: that of its last `Seal`, a `put`. -/
def lastSealed (plaintext : Bytes) : List Op → Bytes
  | [] => plaintext
  | .put plaintext' :: rest => lastSealed plaintext' rest
  | _ :: rest => lastSealed plaintext rest

/-- No version is given to two keys. -/
def Op.Assigned (material : UInt32 → Bytes) : Op → Prop
  | .addKey k => k.material = material k.version
  | _ => True

end Forgelet.Secret
