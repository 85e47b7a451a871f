import CosmicPass.Cache.Disk
import CosmicPass.Proof.Envelope

/-!
# The file on disk is a register

Whatever lies on the disk, a load comes to an end, and takes a file away only if the keyring
answered and nothing can be read from it. What a save wrote is the sealing of its file under the key
in the keyring, so operations one after the other follow the register of the files that were
written: over bytes, and with a keyring that may lock, fail or refuse between any two of them.
-/

namespace CosmicPass

open Crypto (Bytes Key Nonce Aead)

namespace Keyring

variable {ring : Keyring} {key : Key}

theorem toList_of_toKey {bytes : Bytes} (h : toKey bytes = some key) : key.toList = bytes := by
  unfold toKey at h
  split at h
  next =>
    obtain rfl := Option.some.inj h
    rfl
  next => cases h

/-- **What becomes of a request.** There is no answer, or there is a key, or there is none, and the
one given is created if it was asked for. -/
theorem key_cases (ring : Keyring) (create : Option Key) :
    ring.key create = (.error .unavailable, ring) ∨
      (∃ key rest, ring.items = key.toList :: rest ∧ ring.key create = (.ok key, ring)) ∨
      ring.items = [] ∧ (create = none ∧ ring.key create = (.error .missing, ring) ∨
        ∃ fresh, create = some fresh ∧
          ring.key create = (.ok fresh, { ring with items := [fresh.toList] })) := by
  unfold key
  by_cases hdisabled : ring.state.disabled = true
  · exact Or.inl (by simp [hdisabled])
  · simp only [hdisabled, Bool.false_eq_true, if_false]
    cases hfailing : ring.state.failing with
    | some text => exact Or.inl (by simp [keyInner, hfailing])
    | none =>
        by_cases hlocked : ring.state.locked = true
        · exact Or.inl (by simp [keyInner, hfailing, hlocked])
        · cases hitems : ring.items with
          | cons secret rest =>
              by_cases hitem : ring.state.itemLocked = true
              · exact Or.inl (by simp [keyInner, hfailing, hlocked, hitems, hitem])
              · cases hkey : toKey secret with
                | none =>
                    exact Or.inl (by simp [keyInner, hfailing, hlocked, hitems, hitem, hkey])
                | some key =>
                    refine Or.inr (Or.inl ⟨key, rest, by rw [toList_of_toKey hkey], ?_⟩)
                    simp [keyInner, hfailing, hlocked, hitems, hitem, hkey]
          | nil =>
              cases create with
              | none =>
                  refine Or.inr (Or.inr ⟨rfl, Or.inl ⟨rfl, ?_⟩⟩)
                  simp [keyInner, hfailing, hlocked, hitems]
              | some fresh =>
                  cases hrefusing : ring.state.refusing with
                  | some text =>
                      exact Or.inl (by simp [keyInner, hfailing, hlocked, hitems, hrefusing])
                  | none =>
                      refine Or.inr (Or.inr ⟨rfl, Or.inr ⟨fresh, rfl, ?_⟩⟩)
                      simp [keyInner, hfailing, hlocked, hitems, hrefusing]

/-- The keyring says whether it holds the key. -/
def answers (ring : Keyring) : Bool :=
  match (ring.key none).1 with
  | .error .unavailable => false
  | _ => true

theorem key_of_answers {rest : List Bytes} (h : ring.answers = true)
    (hitems : ring.items = key.toList :: rest) : (ring.key none).1 = .ok key := by
  rcases ring.key_cases none with hkey | ⟨found, others, hfound, hkey⟩ | ⟨hempty, -⟩
  · simp [answers, hkey] at h
  · rw [hitems, List.cons.injEq, Vector.toList_inj] at hfound
    rw [hkey, hfound.1]
  · simp [hitems] at hempty

end Keyring

namespace DiskStore

variable {codec : CacheCodec} {aead : Aead} {s : DiskStore}

/-- What the bytes of a file hold, for the holder of the key. -/
def Holds (codec : CacheCodec) (aead : Aead) (key : Key) (raw : Bytes) (file : CacheFile) : Prop :=
  ∃ nonce plain, Crypto.sealFile aead key nonce plain = .ok raw ∧ codec.fromBytes plain = some file

theorem opened_iff {key : Key} {raw : Bytes} {opened : Except CacheError Bytes}
    (hopened : Crypto.openFile aead key raw = some opened) (file : CacheFile) :
    opened.toOption.bind codec.fromBytes = some file ↔ Holds codec aead key raw file := by
  have hseals : ∀ plain, opened = .ok plain ↔
      ∃ nonce, Crypto.sealFile aead key nonce plain = .ok raw := by
    intro plain
    rw [← Option.some.injEq, ← hopened, Crypto.openFile_eq_ok_iff]
    simp only [Crypto.sealFile_eq_ok_iff]
  constructor
  · intro h
    obtain ⟨plain, hplain, hfile⟩ := Option.bind_eq_some_iff.mp h
    cases opened with
    | error error => simp [Except.toOption] at hplain
    | ok bytes =>
        obtain rfl := Option.some.inj hplain
        obtain ⟨nonce, hsealed⟩ := (hseals _).mp rfl
        exact ⟨nonce, _, hsealed, hfile⟩
  · rintro ⟨nonce, plain, hsealed, hfile⟩
    rw [(hseals plain).mpr ⟨nonce, hsealed⟩]
    exact hfile

/-- **What a load does.** It comes to an end without a panic. It finds a file exactly if the keyring
gives a key that the bytes are a sealing under, of a file of this format; it takes the file away
exactly if the keyring answers and nothing is found; and it leaves the keyring alone. -/
theorem load_spec (codec : CacheCodec) (aead : Aead) (s : DiskStore) :
    ∃ found s', s.load codec aead = some (found, s') ∧
      (∀ file, found = some file ↔ file.formatVersion = cacheFormatVersion ∧
        ∃ raw key, s.file = some raw ∧ (s.keyring.key none).1 = .ok key ∧
          Holds codec aead key raw file) ∧
      s' = { s with file := if s.keyring.answers = true ∧ found = none then none else s.file } := by
  obtain ⟨keyring, file, writes⟩ := s
  cases file with
  | none => exact ⟨none, _, rfl, by simp, by simp⟩
  | some raw =>
      rcases keyring.key_cases none with hkey | ⟨key, rest, -, hkey⟩ | ⟨-, ⟨-, hkey⟩ | ⟨_, hnone, -⟩⟩
      · exact ⟨none, ⟨keyring, some raw, writes⟩, by simp [load, hkey], by simp [hkey],
          by simp [Keyring.answers, hkey]⟩
      · obtain ⟨opened, hopened⟩ := Crypto.exists_openFile aead key raw
        have hholds : ∀ file, opened.toOption.bind codec.fromBytes = some file ↔
            Holds codec aead key raw file := opened_iff hopened
        cases hfound : opened.toOption.bind codec.fromBytes with
        | none =>
            refine ⟨none, ⟨keyring, none, writes⟩, by simp [load, hkey, hopened, hfound], ?_, ?_⟩
            · simp [hkey, ← hholds, hfound]
            · simp [Keyring.answers, hkey]
        | some held =>
            by_cases hversion : held.formatVersion = cacheFormatVersion
            · refine ⟨some held, ⟨keyring, some raw, writes⟩,
                by simp [load, hkey, hopened, hfound, hversion], ?_, by simp⟩
              intro file
              simp only [Option.some.injEq, hkey, Except.ok.injEq, exists_and_left, exists_eq_left',
                ← hholds, hfound]
              exact ⟨fun h => h ▸ ⟨hversion, rfl⟩, And.right⟩
            · refine ⟨none, ⟨keyring, none, writes⟩,
                by simp [load, hkey, hopened, hfound, hversion], ?_,
                by simp [Keyring.answers, hkey]⟩
              simp only [reduceCtorEq, Option.some.injEq, hkey, Except.ok.injEq, exists_and_left,
                exists_eq_left', ← hholds, hfound, false_iff, not_and]
              rintro _ hthis rfl
              exact hversion hthis
      · exact ⟨none, ⟨keyring, none, writes⟩, by simp [load, hkey], by simp [hkey],
          by simp [Keyring.answers, hkey]⟩
      · cases hnone

/-- **Any file at all.** A load of whatever bytes there are comes to an end without a panic. It
finds a file exactly if the keyring gives a key that the bytes are a sealing under, of a file of
this format; it takes the file away exactly if the keyring answers and nothing is found, and changes
nothing else; and loading again finds the same, and changes nothing. -/
theorem load_any_bytes (codec : CacheCodec) (aead : Aead) (s : DiskStore) :
    ∃ found s', s.load codec aead = some (found, s') ∧
      (∀ file, found = some file ↔ file.formatVersion = cacheFormatVersion ∧
        ∃ raw key, s.file = some raw ∧ (s.keyring.key none).1 = .ok key ∧
          Holds codec aead key raw file) ∧
      s' = { s with file := if s.keyring.answers = true ∧ found = none then none else s.file } ∧
      s'.load codec aead = some (found, s') := by
  obtain ⟨found, s', hload, hfound, rfl⟩ := load_spec codec aead s
  refine ⟨found, _, hload, hfound, rfl, ?_⟩
  by_cases hgone : s.keyring.answers = true ∧ found = none
  · rw [if_pos hgone, hgone.2]
    rfl
  · rw [if_neg hgone]
    exact hload.trans (by rw [if_neg hgone])

theorem load_eq_none (codec : CacheCodec) (aead : Aead) (h : s.keyring.answers = false) :
    s.load codec aead = some (none, s) := by
  obtain ⟨keyring, file, writes⟩ := s
  cases file with
  | none => rfl
  | some raw =>
      rcases keyring.key_cases none with hkey | ⟨key, -, -, hkey⟩ | ⟨-, ⟨-, hkey⟩ | ⟨_, hnone, -⟩⟩
      · simp [load, hkey]
      · simp [Keyring.answers, hkey] at h
      · simp [Keyring.answers, hkey] at h
      · cases hnone

/-! ### One operation after the other -/

/-- What an operation comes to; a save that does not write comes to nothing. -/
def comesTo (s s' : DiskStore) : DiskOp → Register.Op CacheFile
  | .save file _ _ => if s'.writes = s.writes then .read else .write file
  | .load | .keyring _ => .read
  | .deleteAll => .clear

/-- The store after some operations, and what they came to. -/
def performAll (codec : CacheCodec) (aead : Aead) :
    DiskStore → List DiskOp → Option (DiskStore × List (Register.Op CacheFile))
  | s, [] => some (s, [])
  | s, op :: rest => do
      let s' ← s.perform codec aead op
      let (last, ops) ← s'.performAll codec aead rest
      some (last, s.comesTo s' op :: ops)

/-- The file is what the register holds, sealed under the key in the keyring. One that is gone
though the register still holds it was of another format. -/
structure Follows (codec : CacheCodec) (aead : Aead) (s : DiskStore) (r : Register CacheFile) :
    Prop where
  unlocked : r.locked = false
  present : ∀ raw, s.file = some raw → ∃ key rest file, s.keyring.items = key.toList :: rest ∧
    Holds codec aead key raw file ∧ r.content = some file
  gone : s.file = none → ∀ file, r.content = some file → file.formatVersion ≠ cacheFormatVersion

/-- What a save does: nothing, or a key more, or the file is written under the key there then is. -/
def Saves (codec : CacheCodec) (aead : Aead) (s s' : DiskStore) (file : CacheFile) : Prop :=
  (s'.writes = s.writes ∧ s'.file = s.file ∧
      (s'.keyring.items = s.keyring.items ∨ s.keyring.items = [])) ∨
    (s'.writes = s.writes + 1 ∧ ∃ raw key rest, s'.file = some raw ∧
      s'.keyring.items = key.toList :: rest ∧ Holds codec aead key raw file)

theorem saves_save (codec : CacheCodec) (aead : Aead) (s : DiskStore) (file : CacheFile)
    (fresh : Key) (nonce : Nonce) : Saves codec aead s (s.save codec aead file fresh nonce).2 file := by
  have hunder : ∀ key rest ring, s.keyring.key (some fresh) = (.ok key, ring) →
      ring.items = key.toList :: rest → (ring.items = s.keyring.items ∨ s.keyring.items = []) →
      Saves codec aead s (s.save codec aead file fresh nonce).2 file := by
    intro key rest ring hkey hitems hkept
    unfold save
    rw [hkey]
    dsimp only
    cases hplain : codec.toAllocvec file with
    | error text => exact Or.inl ⟨rfl, rfl, hkept⟩
    | ok plain =>
        dsimp only
        cases hsealed : Crypto.sealFile aead key nonce plain with
        | error error => exact Or.inl ⟨rfl, rfl, hkept⟩
        | ok raw =>
            exact Or.inr ⟨rfl, raw, key, rest, rfl, hitems, nonce, plain, hsealed,
              codec.fromBytes_of_toAllocvec file plain hplain⟩
  rcases s.keyring.key_cases (some fresh) with
    hkey | ⟨key, rest, hitems, hkey⟩ | ⟨hempty, ⟨hnone, -⟩ | ⟨key, -, hkey⟩⟩
  · refine Or.inl ?_
    simp [save, hkey]
  · exact hunder key rest s.keyring hkey hitems (Or.inl rfl)
  · cases hnone
  · exact hunder key [] _ hkey rfl (Or.inr hempty)

/-- Under one key the bytes hold one file. -/
theorem Holds.unique {key : Key} {raw : Bytes} {file other : CacheFile}
    (h : Holds codec aead key raw file) (hother : Holds codec aead key raw other) : file = other := by
  obtain ⟨opened, hopened⟩ := Crypto.exists_openFile aead key raw
  have hfile := (opened_iff hopened file).mpr h
  rw [(opened_iff hopened other).mpr hother] at hfile
  exact (Option.some.inj hfile).symm

theorem Follows.load {r : Register CacheFile} (h : s.Follows codec aead r) :
    ∃ found s', s.load codec aead = some (found, s') ∧ s'.Follows codec aead r ∧
      (s.keyring.answers = true → ∀ file, found = some file ↔
        file.formatVersion = cacheFormatVersion ∧ r.content = some file) := by
  obtain ⟨found, s', hload, hfound, hafter⟩ := load_spec codec aead s
  have hfile : s'.file = if s.keyring.answers = true ∧ found = none then none else s.file := by
    rw [hafter]
  have hkeyring : s'.keyring = s.keyring := by rw [hafter]
  have hheld : s.keyring.answers = true → ∀ file, found = some file ↔
      file.formatVersion = cacheFormatVersion ∧ r.content = some file := by
    intro hanswers file
    rw [hfound]
    refine and_congr_right fun hversion => ⟨?_, fun hcontent => ?_⟩
    · rintro ⟨raw, key, hraw, hkey, hholds⟩
      obtain ⟨mine, rest, held, hitems, hheld, hcontent⟩ := h.present raw hraw
      rw [Keyring.key_of_answers hanswers hitems, Except.ok.injEq] at hkey
      subst hkey
      rw [hcontent, hheld.unique hholds]
    · cases hraw : s.file with
      | none => exact absurd hversion (h.gone hraw file hcontent)
      | some raw =>
          obtain ⟨key, rest, held, hitems, hheld, hcontent'⟩ := h.present raw hraw
          rw [hcontent, Option.some.injEq] at hcontent'
          subst hcontent'
          exact ⟨raw, key, rfl, Keyring.key_of_answers hanswers hitems, hheld⟩
  refine ⟨found, s', hload, ⟨h.unlocked, fun raw hraw => ?_, fun hgone file hcontent hversion => ?_⟩,
    hheld⟩
  · rw [hfile] at hraw
    rw [hkeyring]
    split at hraw
    · cases hraw
    · exact h.present raw hraw
  · rw [hfile] at hgone
    split at hgone
    next hnothing =>
      have hthere := (hheld hnothing.1 file).mpr ⟨hversion, hcontent⟩
      rw [hnothing.2] at hthere
      cases hthere
    next => exact h.gone hgone file hcontent hversion

theorem Follows.perform {r : Register CacheFile} (h : s.Follows codec aead r) (op : DiskOp) :
    ∃ s', s.perform codec aead op = some s' ∧
      s'.Follows codec aead (r.perform (s.comesTo s' op)) := by
  cases op with
  | save file fresh nonce =>
      refine ⟨_, rfl, ?_⟩
      rcases saves_save codec aead s file fresh nonce with
        ⟨hwrites, hfile, hitems⟩ | ⟨hwrites, raw, key, rest, hfile, hitems, hholds⟩
      · simp only [comesTo, hwrites, if_true, Register.perform]
        refine ⟨h.unlocked, fun raw hraw => ?_, fun hgone => h.gone (hfile ▸ hgone)⟩
        obtain ⟨key, rest, held, hkey, hheld, hcontent⟩ := h.present raw (hfile ▸ hraw)
        rcases hitems with hsame | hempty
        · exact ⟨key, rest, held, hsame.trans hkey, hheld, hcontent⟩
        · simp [hempty] at hkey
      · have hmore : (s.save codec aead file fresh nonce).2.writes ≠ s.writes := by omega
        simp only [comesTo, if_neg hmore, Register.perform, h.unlocked, Bool.false_eq_true, if_false]
        refine ⟨rfl, fun found hfound => ?_, by simp [hfile]⟩
        rw [hfile, Option.some.injEq] at hfound
        subst hfound
        exact ⟨key, rest, file, hitems, hholds, rfl⟩
  | load =>
      obtain ⟨found, s', hload, hfollows, -⟩ := h.load
      exact ⟨s', by simp [DiskStore.perform, hload], hfollows⟩
  | deleteAll => exact ⟨_, rfl, h.unlocked, by simp [deleteAll], by simp [comesTo, Register.perform]⟩
  | keyring state => exact ⟨_, rfl, h.unlocked, h.present, h.gone⟩

theorem Follows.performAll (ops : List DiskOp) : ∀ {s : DiskStore} {r : Register CacheFile},
    s.Follows codec aead r → ∃ last done, s.performAll codec aead ops = some (last, done) ∧
      last.Follows codec aead (r.performAll done) := by
  induction ops with
  | nil => exact fun h => ⟨_, [], rfl, h⟩
  | cons op rest ih =>
      intro s r h
      obtain ⟨s', hop, hnext⟩ := h.perform op
      obtain ⟨last, done, hrest, hlast⟩ := ih hnext
      exact ⟨last, s.comesTo s' op :: done, by simp [DiskStore.performAll, hop, hrest], hlast⟩

/-- **The bytes are a register.** After any operations on a store that began without a file,
whatever the keyring held and however it changes its state in between, none has panicked; a load
that the keyring answers gives the file last written if nothing was deleted since and it is of this
format, and nothing else; one that it does not answer gives nothing and leaves the store alone. -/
theorem disk_store_is_register (codec : CacheCodec) (aead : Aead) (keyring : Keyring)
    (ops : List DiskOp) :
    ∃ s done, performAll codec aead { keyring, file := none } ops = some (s, done) ∧
      (s.keyring.answers = true → ∃ found s', s.load codec aead = some (found, s') ∧
        ∀ file, found = some file ↔ file.formatVersion = cacheFormatVersion ∧
          Register.LastWrite false done file) ∧
      (s.keyring.answers = false → s.load codec aead = some (none, s)) := by
  have hstart : Follows codec aead { keyring, file := none } ⟨none, false⟩ :=
    ⟨rfl, by simp, by simp⟩
  obtain ⟨s, done, hrun, hfollows⟩ := hstart.performAll ops
  obtain ⟨found, s', hload, -, hfound⟩ := hfollows.load
  refine ⟨s, done, hrun, fun hanswers => ⟨found, s', hload, fun file => ?_⟩, load_eq_none codec aead⟩
  rw [hfound hanswers, Register.content_eq_some_iff]

section Examples

def blankFile : CacheFile :=
  { formatVersion := cacheFormatVersion, account := ⟨""⟩, fetchedAt := 0, vaults := [], items := [],
    usage := [] }

/-- The encoding of the blank file alone. -/
def blankCodec : CacheCodec where
  toAllocvec file := if file = blankFile then .ok [2, 0, 0, 0, 0, 0] else .error "not blank"
  fromBytes bytes := if [2, 0, 0, 0, 0, 0] <+: bytes then some blankFile else none
  fromBytes_of_toAllocvec file bytes h := by
    split at h
    next hblank =>
      obtain rfl := Except.ok.inj h
      simp [hblank]
    next => cases h

/-- Saved, locked, not found, unlocked: the file is there again. -/
example : ((performAll blankCodec Crypto.tagged
    { keyring := { state := {}, items := [] }, file := none }
    [.save blankFile (Vector.replicate 32 7) (Vector.replicate 24 1), .keyring { locked := true },
      .load, .keyring {}]).bind fun out => (out.1.load blankCodec Crypto.tagged).map Prod.fst) =
    some (some blankFile) := by
  decide +kernel

end Examples

end DiskStore

end CosmicPass
