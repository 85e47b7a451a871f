import Mathlib.Data.List.Basic

/-!
# The cache file envelope

`seal` and `open` of `src/cache/crypto.rs`. The file is the magic (4 bytes), the version (2, little
endian), the nonce (24) and the ciphertext with its tag; the header of 30 bytes is authenticated. The
cipher is a parameter with the law of an ideal one, and the nonce that `seal` draws is given to it. A
slice or an index out of range is `none`.
-/

namespace CosmicPass

inductive CacheError where
  | noKey
  | corrupt
  | unsupported
  | keyring (message : String)
  | io (message : String)
deriving DecidableEq

namespace Crypto

abbrev Bytes := List UInt8

abbrev Key := Vector UInt8 32

abbrev Nonce := Vector UInt8 24

/-- XChaCha20-Poly1305, ideally: a body decrypts to what it is the encryption of, and to nothing else.
There is no encryption of a plaintext that is too long. -/
structure Aead where
  encrypt : Key → Nonce → Bytes → Bytes → Option Bytes
  decrypt : Key → Nonce → Bytes → Bytes → Option Bytes
  decrypt_eq_some_iff : ∀ key nonce associated body plaintext,
    decrypt key nonce associated body = some plaintext ↔
      encrypt key nonce associated plaintext = some body

/-- `CPC1`. -/
def magic : Bytes := [0x43, 0x50, 0x43, 0x31]

def envelopeVersion : Nat := 1

def headerLen : Nat := 30

/-- `u16::to_le_bytes`. -/
def toLeBytes (n : Nat) : Bytes := [UInt8.ofNat (n % 256), UInt8.ofNat (n / 256)]

/-- `u16::from_le_bytes`. -/
def fromLeBytes (low high : UInt8) : Nat := low.toNat + 256 * high.toNat

/-- `&bytes[..n]`. -/
def sliceTo (bytes : Bytes) (n : Nat) : Option Bytes :=
  if n ≤ bytes.length then some (bytes.take n) else none

/-- `&bytes[n..]`. -/
def sliceFrom (bytes : Bytes) (n : Nat) : Option Bytes :=
  if n ≤ bytes.length then some (bytes.drop n) else none

/-- `bytes.split_at(n)`. -/
def splitAt (bytes : Bytes) (n : Nat) : Option (Bytes × Bytes) :=
  if n ≤ bytes.length then some (bytes.take n, bytes.drop n) else none

/-- `bytes.try_into()`. -/
def toNonce (bytes : Bytes) : Option Nonce :=
  if h : bytes.length = 24 then some ⟨bytes.toArray, h⟩ else none

def header (nonce : Nonce) : Bytes := magic ++ toLeBytes envelopeVersion ++ nonce.toList

/-- `seal`, once the nonce is drawn. -/
def sealFile (aead : Aead) (key : Key) (nonce : Nonce) (plaintext : Bytes) : Except CacheError Bytes :=
  match aead.encrypt key nonce (header nonce) plaintext with
  | none => .error .corrupt
  | some buffer => .ok (header nonce ++ buffer)

/-- What `open` does behind its checks of the length and the magic. -/
def openVersioned (aead : Aead) (key : Key) (file : Bytes) : Option (Except CacheError Bytes) := do
  let low ← file[4]?
  let high ← file[5]?
  if fromLeBytes low high ≠ envelopeVersion then some (.error .unsupported)
  else
    let (header, body) ← splitAt file headerLen
    let nonceBytes ← sliceFrom header 6
    match toNonce nonceBytes with
    | none => some (.error .corrupt)
    | some nonce =>
        match aead.decrypt key nonce header body with
        | none => some (.error .corrupt)
        | some buffer => some (.ok buffer)

/-- `open`: `none` where it panics. -/
def openFile (aead : Aead) (key : Key) (file : Bytes) : Option (Except CacheError Bytes) :=
  if file.length < headerLen then some (.error .corrupt)
  else do
    let start ← sliceTo file 4
    if start ≠ magic then some (.error .corrupt) else openVersioned aead key file

end Crypto

end CosmicPass
