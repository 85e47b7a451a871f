import CosmicPass.Cache.Crypto

/-!
# The envelope opens what it sealed, and nothing else

A file of the header's length or more splits into header and body without a slice out of range, and the
header that passes the checks is the one that the nonce in it gives. So the cipher is asked exactly what
the sealing of that body would be.
-/

namespace CosmicPass

namespace Crypto

section Envelope

variable {aead : Aead} {key : Key} {nonce : Nonce} {file plaintext body : Bytes}

theorem length_header (nonce : Nonce) : (header nonce).length = headerLen := by
  simp [header, magic, toLeBytes, headerLen]

theorem fromLeBytes_eq_iff {low high : UInt8} :
    fromLeBytes low high = envelopeVersion ↔ [low, high] = toLeBytes envelopeVersion := by
  have hversion : toLeBytes envelopeVersion = [1, 0] := rfl
  rw [hversion, fromLeBytes, envelopeVersion, List.cons.injEq, List.cons.injEq]
  rw [← UInt8.toNat_inj, ← UInt8.toNat_inj]
  have hlow := low.toNat_lt
  simp
  omega

theorem toNonce_toList (nonce : Nonce) : toNonce nonce.toList = some nonce := by
  rw [toNonce, dif_pos nonce.length_toList]
  rfl

theorem toList_of_toNonce {bytes : Bytes} (h : toNonce bytes = some nonce) : nonce.toList = bytes := by
  unfold toNonce at h
  split at h
  next =>
    obtain rfl := Option.some.inj h
    rfl
  next => cases h

/-- A file of the header's length or more has all its parts. -/
theorem exists_layout (h : headerLen ≤ file.length) :
    ∃ start low high nonce body, start.length = 4 ∧
      toNonce ((file.take headerLen).drop 6) = some nonce ∧
      file = start ++ [low, high] ++ nonce.toList ++ body := by
  have hlen : ((file.take headerLen).drop 6).length = 24 := by
    rw [List.length_drop, List.length_take_of_le h, headerLen]
  have hnonce : toNonce ((file.take headerLen).drop 6) =
      some ⟨((file.take headerLen).drop 6).toArray, hlen⟩ := dif_pos hlen
  have hversion : ((file.take 6).drop 4).length = 2 := by
    rw [headerLen] at h
    simp only [List.length_drop, List.length_take]
    omega
  obtain ⟨low, high, hpair⟩ := List.length_eq_two.mp hversion
  refine ⟨file.take 4, low, high, _, file.drop headerLen, ?_, hnonce, ?_⟩
  · rw [headerLen] at h
    rw [List.length_take]
    omega
  · calc file = file.take headerLen ++ file.drop headerLen := (List.take_append_drop _ _).symm
      _ = (file.take headerLen).take 6 ++ (file.take headerLen).drop 6 ++ file.drop headerLen := by
          rw [List.take_append_drop 6 (file.take headerLen)]
      _ = (file.take 6).take 4 ++ (file.take 6).drop 4 ++ (file.take headerLen).drop 6 ++
            file.drop headerLen := by
          rw [List.take_take, List.take_append_drop 4 (file.take 6)]
          rfl
      _ = _ := by
          rw [hpair, List.take_take, toList_of_toNonce hnonce]
          rfl

/-- What becomes of a file, part by part. -/
theorem openFile_of_layout {start : Bytes} {low high : UInt8} (hstart : start.length = 4) :
    openFile aead key (start ++ [low, high] ++ nonce.toList ++ body) =
      some (if start ≠ magic then .error .corrupt
        else if [low, high] ≠ toLeBytes envelopeVersion then .error .unsupported
        else match aead.decrypt key nonce (start ++ [low, high] ++ nonce.toList) body with
          | none => .error .corrupt
          | some buffer => .ok buffer) := by
  have hheader : (start ++ [low, high] ++ nonce.toList).length = headerLen := by
    simp [hstart, headerLen]
  have hlength : ¬ (start ++ [low, high] ++ nonce.toList ++ body).length < headerLen := by
    rw [List.length_append, hheader]
    omega
  have hfour : sliceTo (start ++ [low, high] ++ nonce.toList ++ body) 4 = some start := by
    rw [sliceTo, if_pos (by simp [hstart]), List.append_assoc, List.append_assoc,
      List.take_left' hstart]
  have hlow : (start ++ [low, high] ++ nonce.toList ++ body)[4]? = some low := by
    simp [hstart]
  have hhigh : (start ++ [low, high] ++ nonce.toList ++ body)[5]? = some high := by
    simp [List.getElem?_append, hstart]
  have hsplit : splitAt (start ++ [low, high] ++ nonce.toList ++ body) headerLen =
      some (start ++ [low, high] ++ nonce.toList, body) := by
    rw [splitAt, if_pos (Nat.not_lt.mp hlength), List.take_left' hheader, List.drop_left' hheader]
  have hnonce : sliceFrom (start ++ [low, high] ++ nonce.toList) 6 = some nonce.toList := by
    rw [sliceFrom, if_pos (by simp [hstart]), List.drop_left' (by simp [hstart])]
  unfold openFile openVersioned
  rw [if_neg hlength, hfour, hlow, hhigh, hsplit]
  simp only [Option.bind_eq_bind, Option.bind_some, hnonce, toNonce_toList, ne_eq,
    fromLeBytes_eq_iff]
  split
  next => rfl
  next =>
    split
    next => rfl
    next => cases aead.decrypt key nonce (start ++ [low, high] ++ nonce.toList) body <;> rfl

/-- **No slice is out of range.** -/
theorem exists_openFile (aead : Aead) (key : Key) (file : Bytes) :
    ∃ result, openFile aead key file = some result := by
  by_cases hlength : file.length < headerLen
  · exact ⟨_, if_pos hlength⟩
  · obtain ⟨start, low, high, nonce, body, hstart, -, rfl⟩ := exists_layout (Nat.not_lt.mp hlength)
    exact ⟨_, openFile_of_layout hstart⟩

theorem openFile_header (aead : Aead) (key : Key) (nonce : Nonce) (body : Bytes) :
    openFile aead key (header nonce ++ body) =
      some (match aead.decrypt key nonce (header nonce) body with
        | none => .error .corrupt
        | some buffer => .ok buffer) := by
  obtain ⟨low, high, hversion⟩ : ∃ low high, toLeBytes envelopeVersion = [low, high] := ⟨_, _, rfl⟩
  have hparts : header nonce ++ body = magic ++ [low, high] ++ nonce.toList ++ body := by
    rw [header, hversion]
  rw [hparts, openFile_of_layout rfl, if_neg (not_not.mpr rfl), hversion, if_neg (not_not.mpr rfl),
    header, hversion]

/-- Behind another magic or another version nothing is opened. -/
theorem eq_header_of_openFile (h : openFile aead key file = some (.ok plaintext)) :
    ∃ nonce body, file = header nonce ++ body := by
  by_cases hlength : file.length < headerLen
  · rw [openFile, if_pos hlength] at h
    cases h
  · obtain ⟨start, low, high, nonce, body, hstart, -, rfl⟩ := exists_layout (Nat.not_lt.mp hlength)
    rw [openFile_of_layout hstart, Option.some.injEq] at h
    by_cases hmagic : start = magic
    · by_cases hversion : [low, high] = toLeBytes envelopeVersion
      · exact ⟨nonce, body, by rw [hmagic, hversion, header]⟩
      · rw [if_neg (not_not.mpr hmagic), if_pos hversion] at h
        cases h
    · rw [if_pos hmagic] at h
      cases h

theorem openFile_eq_ok_iff :
    openFile aead key file = some (.ok plaintext) ↔
      ∃ nonce body, aead.encrypt key nonce (header nonce) plaintext = some body ∧
        file = header nonce ++ body := by
  constructor
  · intro h
    obtain ⟨nonce, body, rfl⟩ := eq_header_of_openFile h
    refine ⟨nonce, body, (aead.decrypt_eq_some_iff _ _ _ _ _).mp ?_, rfl⟩
    rw [openFile_header, Option.some.injEq] at h
    cases hdecrypt : aead.decrypt key nonce (header nonce) body with
    | none => simp [hdecrypt] at h
    | some buffer => simpa [hdecrypt] using h
  · rintro ⟨nonce, body, hencrypt, rfl⟩
    rw [openFile_header, (aead.decrypt_eq_some_iff _ _ _ _ _).mpr hencrypt]

theorem sealFile_eq_ok_iff :
    sealFile aead key nonce plaintext = .ok file ↔
      ∃ body, aead.encrypt key nonce (header nonce) plaintext = some body ∧
        file = header nonce ++ body := by
  unfold sealFile
  cases aead.encrypt key nonce (header nonce) plaintext with
  | none => simp
  | some buffer => simp [eq_comm]

/-- **The envelope accepts exactly what it seals**, for every key, file and plaintext. -/
theorem envelope_accepts_what_it_seals (aead : Aead) (key : Key) :
    (∀ file : Bytes, ∃ result, openFile aead key file = some result) ∧
    (∀ file : Bytes, headerLen ≤ file.length →
      ∃ nonce, toNonce ((file.take headerLen).drop 6) = some nonce) ∧
    (∀ file plaintext : Bytes, openFile aead key file = some (.ok plaintext) ↔
      ∃ (nonce : Nonce) (body : Bytes),
        aead.encrypt key nonce (magic ++ toLeBytes envelopeVersion ++ nonce.toList) plaintext =
          some body ∧
        file = magic ++ toLeBytes envelopeVersion ++ nonce.toList ++ body ∧
        (magic ++ toLeBytes envelopeVersion ++ nonce.toList).length = headerLen) ∧
    ∀ (nonce : Nonce) (plaintext file : Bytes), sealFile aead key nonce plaintext = .ok file →
      (∃ body, aead.encrypt key nonce (magic ++ toLeBytes envelopeVersion ++ nonce.toList) plaintext =
          some body ∧
        file = magic ++ toLeBytes envelopeVersion ++ nonce.toList ++ body) ∧
      openFile aead key file = some (.ok plaintext) := by
  refine ⟨exists_openFile aead key, fun file h => ?_, fun file plaintext => ?_,
    fun nonce plaintext file h => ?_⟩
  · obtain ⟨-, -, -, nonce, -, -, hnonce, -⟩ := exists_layout h
    exact ⟨nonce, hnonce⟩
  · rw [openFile_eq_ok_iff]
    refine exists_congr fun nonce => exists_congr fun body => and_congr_right fun _ => ?_
    exact ⟨fun h => ⟨h, length_header nonce⟩, fun h => h.1⟩
  · have hform := sealFile_eq_ok_iff.mp h
    exact ⟨hform, openFile_eq_ok_iff.mpr ⟨nonce, hform⟩⟩

end Envelope

/-- A cipher that only puts a tag of 16 bytes behind the plaintext. -/
def tagged : Aead where
  encrypt _ _ _ plaintext := some (plaintext ++ List.replicate 16 0)
  decrypt _ _ _ body :=
    if List.replicate 16 0 <:+ body then some (body.take (body.length - 16)) else none
  decrypt_eq_some_iff _ _ _ body plaintext := by
    rw [Option.some.injEq]
    constructor
    · intro h
      obtain ⟨⟨before, rfl⟩, htake⟩ := Option.ite_none_right_eq_some.mp h
      simpa using htake.symm
    · rintro rfl
      rw [if_pos (List.suffix_append _ _)]
      simp

theorem envelope_accepts_what_it_seals_tagged :
    (∀ file : Bytes, ∃ result, openFile tagged (Vector.replicate 32 7) file = some result) ∧
    (∀ file : Bytes, headerLen ≤ file.length →
      ∃ nonce, toNonce ((file.take headerLen).drop 6) = some nonce) ∧
    (∀ file plaintext : Bytes, openFile tagged (Vector.replicate 32 7) file = some (.ok plaintext) ↔
      ∃ (nonce : Nonce) (body : Bytes),
        tagged.encrypt (Vector.replicate 32 7) nonce
            (magic ++ toLeBytes envelopeVersion ++ nonce.toList) plaintext = some body ∧
        file = magic ++ toLeBytes envelopeVersion ++ nonce.toList ++ body ∧
        (magic ++ toLeBytes envelopeVersion ++ nonce.toList).length = headerLen) ∧
    ∀ (nonce : Nonce) (plaintext file : Bytes),
      sealFile tagged (Vector.replicate 32 7) nonce plaintext = .ok file →
      (∃ body, tagged.encrypt (Vector.replicate 32 7) nonce
            (magic ++ toLeBytes envelopeVersion ++ nonce.toList) plaintext = some body ∧
        file = magic ++ toLeBytes envelopeVersion ++ nonce.toList ++ body) ∧
      openFile tagged (Vector.replicate 32 7) file = some (.ok plaintext) :=
  envelope_accepts_what_it_seals tagged (Vector.replicate 32 7)

end Crypto

end CosmicPass
