import Forgelet.Lib.Aead
import Forgelet.Lib.Bytes
import Forgelet.Scheduler.Port

/-!
# Secrets at rest

Envelope encryption (`internal/security/secret/cipher.go`): a secret is sealed with a fresh data key, and the data key
with a versioned master key. AES-GCM is a parameter, as are the reader of random bytes and its state.
-/

namespace Forgelet.Secret

open Bytes (ofString)

/-- A master key and its version. -/
@[ext]
structure Key where
  version : UInt32
  material : Bytes
deriving DecidableEq

/-- The key to seal with, and the keys to open with. -/
structure Keyring where
  current : Except Err Key
  key : UInt32 → Option Key

/-- The keys of a `StaticKeyring`: each under its version, not zero, with 32 bytes. -/
structure KeyTable where
  keys : GoMap UInt32 Key
  version : ∀ v k, keys.lookup v = some k → k.version = v
  reserved : ∀ v k, keys.lookup v = some k → v ≠ 0
  size : ∀ v k, keys.lookup v = some k → k.material.length = 32

namespace KeyTable

/-- No keys. -/
def empty : KeyTable where
  keys := ∅
  version := nofun
  reserved := nofun
  size := nofun

/-- One more key, in place of one of its version. -/
def insert (t : KeyTable) (k : Key) (hversion : k.version ≠ 0) (hsize : k.material.length = 32) : KeyTable where
  keys := t.keys.insert k.version k
  version v k' h := by
    rcases GoMap.lookup_insert_cases h with ⟨rfl, rfl⟩ | h
    · rfl
    · exact t.version v k' h
  reserved v k' h := by
    rcases GoMap.lookup_insert_cases h with ⟨rfl, rfl⟩ | h
    · exact hversion
    · exact t.reserved v k' h
  size v k' h := by
    rcases GoMap.lookup_insert_cases h with ⟨rfl, rfl⟩ | h
    · exact hsize
    · exact t.size v k' h

end KeyTable

/-- `StaticKeyring`; the current version is one of the keys. -/
structure StaticKeyring extends KeyTable where
  currentVer : UInt32
  hasCurrent : (keys.lookup currentVer).isSome

/-- The loop of `NewStaticKeyring` over the keys. -/
def addKeys (t : KeyTable) : List Key → Except Err KeyTable
  | [] => .ok t
  | k :: rest =>
    if hversion : k.version = 0 then .error (.errorf "secret: key version 0 is reserved")
    else if hsize : k.material.length = 32 then
      if (t.keys.lookup k.version).isSome then
        .error (.errorf ("secret: duplicate key version " ++ toString k.version.toNat))
      else addKeys (t.insert k hversion hsize) rest
    else
      .error (.errorf ("secret: key " ++ toString k.version.toNat ++ ": material must be 32 bytes, got " ++
        toString k.material.length))

/-- `NewStaticKeyring`. -/
def newStaticKeyring (current : UInt32) (keys : List Key) : Except Err StaticKeyring :=
  if keys = [] then .error (.errorf "secret: keyring needs at least one key")
  else
    match addKeys .empty keys with
    | .error err => .error err
    | .ok t =>
      if h : (t.keys.lookup current).isSome then
        .ok { toKeyTable := t, currentVer := current, hasCurrent := h }
      else .error (.errorf ("secret: current version " ++ toString current.toNat ++ " not among keys"))

namespace StaticKeyring

/-- The key to seal with. -/
def currentKey (r : StaticKeyring) : Key := (r.keys.lookup r.currentVer).get r.hasCurrent

/-- A `StaticKeyring` as a `Keyring`: `Current` and `Key`. -/
def keyring (r : StaticKeyring) : Keyring where
  current := .ok r.currentKey
  key v := r.keys.lookup v

end StaticKeyring

/-- AES-GCM, or what stands for it. -/
abbrev AesGcm := Aead Bytes Bytes Bytes Bytes Bytes

/-- The size of a nonce of GCM. -/
def nonceSize : Nat := 12

/-- `cipher.AEAD` as `newGCM` makes it: a key of a size that `aes.NewCipher` takes. -/
structure Gcm where
  key : Bytes
  size : key.length = 16 ∨ key.length = 24 ∨ key.length = 32

/-- `newGCM`: AES has three key sizes. -/
def newGCM (key : Bytes) : Except Err Gcm :=
  if size : key.length = 16 ∨ key.length = 24 ∨ key.length = 32 then .ok ⟨key, size⟩
  else
    .error (.wrap "secret: init cipher: " (.errorf ("crypto/aes: invalid key size " ++ toString key.length)) "")

/-- `Seal` of `cipher.AEAD`; the nonces it is given here have the right size. -/
def Gcm.sealText (aes : AesGcm) (g : Gcm) (nonce plaintext aad : Bytes) : Bytes := aes.encrypt g.key nonce plaintext aad

/-- `Open` of `cipher.AEAD`. -/
def Gcm.openText (aes : AesGcm) (g : Gcm) (nonce ciphertext aad : Bytes) : Except Err Bytes :=
  match aes.decrypt g.key nonce ciphertext aad with
  | some plaintext => .ok plaintext
  | none => .error (.errorf "cipher: message authentication failed")

/-- A reader of random bytes, as `io.ReadFull` reads from it. -/
structure Source (σ : Type) where
  readFull : σ → Nat → Except Err Bytes × σ
  full : ∀ s n b s', readFull s n = (.ok b, s') → b.length = n

/-- A sealed secret. -/
structure Sealed where
  nonce : Bytes
  ciphertext : Bytes
  wrappedDEK : Bytes
  masterKeyVersion : UInt32
deriving DecidableEq

/-- A cipher with a source of random bytes. -/
structure Cipher (σ : Type) where
  ring : Keyring
  rng : Source σ

namespace Cipher

variable {σ : Type} (aes : AesGcm) (c : Cipher σ)

/-- `Seal`, from a state of the reader. -/
def sealSecret (s : σ) (plaintext aad : Bytes) : Except Err Sealed × σ :=
  match c.ring.current with
  | .error err => (.error (.wrap "secret: current master key: " err ""), s)
  | .ok master =>
    match c.rng.readFull s 32 with
    | (.error err, s) => (.error (.wrap "secret: data key: " err ""), s)
    | (.ok dek, s) =>
      match newGCM dek with
      | .error err => (.error err, s)
      | .ok payloadGCM =>
        match c.rng.readFull s nonceSize with
        | (.error err, s) => (.error (.wrap "secret: payload nonce: " err ""), s)
        | (.ok nonce, s) =>
          let ciphertext := payloadGCM.sealText aes nonce plaintext aad
          match newGCM master.material with
          | .error err => (.error err, s)
          | .ok wrapGCM =>
            match c.rng.readFull s nonceSize with
            | (.error err, s) => (.error (.wrap "secret: wrap nonce: " err ""), s)
            | (.ok wrapNonce, s) =>
              let wrapped := wrapGCM.sealText aes wrapNonce dek aad
              (.ok
                { nonce := nonce
                  ciphertext := ciphertext
                  wrappedDEK := wrapNonce ++ wrapped
                  masterKeyVersion := master.version }, s)

/-- `Open`. -/
def openSealed (s : Sealed) (aad : Bytes) : Except Err Bytes :=
  match c.ring.key s.masterKeyVersion with
  | none =>
    .error (.errorf ("secret: master key version " ++ toString s.masterKeyVersion.toNat ++ " not available"))
  | some master =>
    match newGCM master.material with
    | .error err => .error err
    | .ok wrapGCM =>
      if s.wrappedDEK.length < nonceSize + 1 then .error (.errorf "secret: wrapped data key too short")
      else
        match wrapGCM.openText aes (s.wrappedDEK.take nonceSize) (s.wrappedDEK.drop nonceSize) aad with
        | .error err => .error (.wrap "secret: unwrap data key: " err "")
        | .ok dek =>
          match newGCM dek with
          | .error err => .error err
          | .ok payloadGCM =>
            if s.nonce.length ≠ nonceSize then .error (.errorf "secret: payload nonce size mismatch")
            else
              match payloadGCM.openText aes s.nonce s.ciphertext aad with
              | .error err => .error (.wrap "secret: open payload: " err "")
              | .ok plaintext => .ok plaintext

/-- `Rewrap`, from a state of the reader. -/
def rewrap (s : σ) (blob : Sealed) (aad : Bytes) : Except Err Sealed × σ :=
  match c.openSealed aes blob aad with
  | .error err => (.error (.wrap "secret: rewrap: " err ""), s)
  | .ok plaintext => c.sealSecret aes s plaintext aad

end Cipher

/-- The associated data of a secret. -/
def secretAAD (scope name : Bytes) : Bytes := ofString "forgelet-secret" ++ 0 :: (scope ++ 0 :: name)

end Forgelet.Secret
