import CosmicPass.Cache.Crypto
import CosmicPass.Cache.Store

/-!
# The cache file on disk

`load`, `save` and `delete_all` of `src/cache/store.rs` over the bytes of the file, with the key
store of `src/cache/keystore.rs` that asks the Secret Service. The encoding of a cache file is a
parameter with its round trip, and the cipher is that of `Crypto`; a fresh key and a nonce are given
to the save that draws them. Each operation is awaited to its end, with no file operation failing.
-/

namespace CosmicPass

/-- How a cache file is written and read. Reading takes no notice of what follows it. -/
structure CacheCodec where
  toAllocvec : CacheFile → Except String Crypto.Bytes
  fromBytes : Crypto.Bytes → Option CacheFile
  fromBytes_of_toAllocvec : ∀ file bytes, toAllocvec file = .ok bytes → fromBytes bytes = some file

/-- What is up with the keyring at present. -/
structure KeyringState where
  /-- `COSMIC_PASS_NO_KEYRING` is `1`. -/
  disabled : Bool := false
  /-- No call is answered. -/
  failing : Option String := none
  locked : Bool := false
  itemLocked : Bool := false
  /-- No item is created. -/
  refusing : Option String := none
deriving DecidableEq

/-- The keyring, with the secrets it holds under the attributes of the cache key. -/
structure Keyring where
  state : KeyringState
  items : List Crypto.Bytes
deriving DecidableEq

namespace Keyring

open Crypto (Bytes Key)

/-- `try_into()` of a secret. -/
def toKey (bytes : Bytes) : Option Key :=
  if h : bytes.length = 32 then some ⟨bytes.toArray, h⟩ else none

/-- `key_inner`; `create` is the key to be created if there is none. -/
def keyInner (ring : Keyring) (create : Option Key) :
    Except CacheError (Except KeyState Key) × Keyring :=
  match ring.state.failing with
  | some text => (.error (.keyring text), ring)
  | none =>
      if ring.state.locked then (.ok (.error .unavailable), ring)
      else
        match ring.items, create with
        | secret :: _, _ =>
            if ring.state.itemLocked then (.ok (.error .unavailable), ring)
            else
              match toKey secret with
              | none => (.error (.keyring "stored key has the wrong length"), ring)
              | some key => (.ok (.ok key), ring)
        | [], none => (.ok (.error .missing), ring)
        | [], some key =>
            match ring.state.refusing with
            | some text => (.error (.keyring text), ring)
            | none => (.ok (.ok key), { ring with items := [key.toList] })

def key (ring : Keyring) (create : Option Key) : Except KeyState Key × Keyring :=
  if ring.state.disabled then (.error .unavailable, ring)
  else
    match ring.keyInner create with
    | (.ok outcome, ring) => (outcome, ring)
    | (.error _, ring) => (.error .unavailable, ring)

/-- A deletion that fails is logged. -/
def delete (ring : Keyring) : Keyring :=
  if ring.state.disabled ∨ ring.state.failing.isSome then ring else { ring with items := [] }

end Keyring

structure DiskStore where
  keyring : Keyring
  file : Option Crypto.Bytes
  writes : Nat := 0
deriving DecidableEq

/-- One operation; the keyring changes its state between two of them. -/
inductive DiskOp where
  | save (file : CacheFile) (fresh : Crypto.Key) (nonce : Crypto.Nonce)
  | load
  | deleteAll
  | keyring (state : KeyringState)

namespace DiskStore

variable (codec : CacheCodec) (aead : Crypto.Aead)

/-- `none` where opening the file panics. -/
def load (s : DiskStore) : Option (Option CacheFile × DiskStore) :=
  match s.file with
  | none => some (none, s)
  | some raw =>
      match s.keyring.key none with
      | (.error .unavailable, keyring) => some (none, { s with keyring })
      | (.error .missing, keyring) => some (none, { s with keyring, file := none })
      | (.ok key, keyring) =>
          (Crypto.openFile aead key raw).map fun opened =>
            match opened.toOption.bind codec.fromBytes with
            | none => (none, { s with keyring, file := none })
            | some file =>
                if file.formatVersion = cacheFormatVersion then (some file, { s with keyring })
                else (none, { s with keyring, file := none })

def save (s : DiskStore) (file : CacheFile) (fresh : Crypto.Key) (nonce : Crypto.Nonce) :
    Except CacheError Unit × DiskStore :=
  match s.keyring.key (some fresh) with
  | (.error _, keyring) => (.ok (), { s with keyring })
  | (.ok key, keyring) =>
      match codec.toAllocvec file with
      | .error text => (.error (.io text), { s with keyring })
      | .ok plain =>
          match Crypto.sealFile aead key nonce plain with
          | .error error => (.error error, { s with keyring })
          | .ok sealed => (.ok (), { keyring, file := some sealed, writes := s.writes + 1 })

def deleteAll (s : DiskStore) : DiskStore := { s with file := none, keyring := s.keyring.delete }

def perform (s : DiskStore) : DiskOp → Option DiskStore
  | .save file fresh nonce => some (s.save codec aead file fresh nonce).2
  | .load => (s.load codec aead).map Prod.snd
  | .deleteAll => some s.deleteAll
  | .keyring state => some { s with keyring := { s.keyring with state } }

end DiskStore

end CosmicPass
