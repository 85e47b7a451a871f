import CosmicPass.Pass.Output
import Mathlib.Data.List.DropRight

/-!
# Which texts are read as versions

The parts of a version are trimmed, may carry a plus sign, and a missing minor part reads as zero like a
missing patch. So a bare number is a version too, and in a banner it wins over the dotted number after
it.
-/

namespace CosmicPass

/-! ### The numbers of a version -/

section Numbers

variable {run part : List Char} {n : Nat}

/-- A run of ASCII digits for a number that fits. -/
structure IsNumber (run : List Char) (n : Nat) : Prop where
  ne_nil : run ≠ []
  isDigit : ∀ c ∈ run, c.isDigit = true
  value : Nat.ofDigitChars 10 run 0 = n
  le : n ≤ u32Max

/-- What the parser reads a part as: around the digits it drops whitespace, and a plus sign before
them. -/
def Reads (part : List Char) (n : Nat) : Prop :=
  IsNumber (trimmed part) n ∨ ∃ run, trimmed part = '+' :: run ∧ IsNumber run n

theorem IsNumber.notMem (h : IsNumber run n) {c : Char} (hc : c.isDigit = false) : c ∉ run := by
  intro hmem
  rw [h.isDigit c hmem] at hc
  cases hc

theorem isWhitespace_of_isDigit {c : Char} (h : c.isDigit = true) : isWhitespace c = false := by
  simp only [Char.isDigit, Bool.and_eq_true, decide_eq_true_eq, UInt32.le_iff_toNat_le] at h
  change 48 ≤ c.toNat ∧ c.toNat ≤ 57 at h
  rw [isWhitespace, decide_eq_false_iff_not]
  omega

theorem parseU32_eq_some_iff :
    parseU32 part = some n ↔ IsNumber part n ∨ ∃ run, part = '+' :: run ∧ IsNumber run n := by
  have hread : ∀ digits : List Char,
      (if digits ≠ [] ∧ (digits.all Char.isDigit) ∧ Nat.ofDigitChars 10 digits 0 ≤ u32Max then
        some (Nat.ofDigitChars 10 digits 0) else none) = some n ↔ IsNumber digits n := by
    intro digits
    constructor
    · intro h
      obtain ⟨⟨hne, hall, hle⟩, hvalue⟩ := (Option.ite_none_right_eq_some).mp h
      obtain rfl := Option.some.inj hvalue
      exact ⟨hne, List.all_eq_true.mp hall, rfl, hle⟩
    · intro h
      have hle : Nat.ofDigitChars 10 digits 0 ≤ u32Max := h.value ▸ h.le
      rw [if_pos ⟨h.ne_nil, List.all_eq_true.mpr h.isDigit, hle⟩, h.value]
  unfold parseU32
  by_cases hplus : part.head? = some '+'
  · obtain ⟨rest, rfl⟩ := List.head?_eq_some_iff.mp hplus
    rw [if_pos hplus, List.tail_cons]
    constructor
    · exact fun h => Or.inr ⟨rest, rfl, (hread rest).mp h⟩
    · rintro (h | ⟨run, heq, h⟩)
      · exact absurd List.mem_cons_self (h.notMem (by decide))
      · obtain rfl := (List.cons.inj heq).2
        exact (hread rest).mpr h
  · rw [if_neg hplus]
    constructor
    · exact fun h => Or.inl ((hread part).mp h)
    · rintro (h | ⟨run, rfl, -⟩)
      · exact (hread part).mpr h
      · exact absurd rfl hplus

theorem parseU32_trimmed : parseU32 (trimmed part) = some n ↔ Reads part n := parseU32_eq_some_iff

theorem trimmed_eq_self (h : ∀ c ∈ part, isWhitespace c = false) : trimmed part = part := by
  have hfirst : part.dropWhile isWhitespace = part :=
    List.dropWhile_eq_self_iff.mpr fun hpos => by simp [h _ (List.getElem_mem hpos)]
  rw [trimmed, hfirst]
  exact List.rdropWhile_eq_self_iff.mpr fun hne => by simp [h _ (List.getLast_mem hne)]

theorem mem_trimmed {c : Char} (hc : c ∈ part) (h : isWhitespace c = false) : c ∈ trimmed part := by
  have hdrop : ∀ text : List Char, c ∈ text → c ∈ text.dropWhile isWhitespace := by
    intro text hmem
    rw [← @List.takeWhile_append_dropWhile _ isWhitespace text, List.mem_append] at hmem
    refine hmem.resolve_left fun hspace => ?_
    rw [List.mem_takeWhile_imp hspace] at h
    cases h
  rw [trimmed, List.rdropWhile, List.mem_reverse]
  exact hdrop _ (List.mem_reverse.mpr (hdrop part hc))

theorem IsNumber.reads (h : IsNumber run n) : Reads run n := by
  have hself : trimmed run = run :=
    trimmed_eq_self fun c hc => isWhitespace_of_isDigit (h.isDigit c hc)
  exact Or.inl (hself.symm ▸ h)

theorem Reads.dot_notMem (h : Reads part n) : '.' ∉ part := by
  intro hmem
  have hkept := mem_trimmed hmem (by decide)
  cases h with
  | inl hnumber => exact hnumber.notMem (by decide) hkept
  | inr hsigned =>
      obtain ⟨run, heq, hnumber⟩ := hsigned
      rw [heq, List.mem_cons] at hkept
      exact hnumber.notMem (by decide) (hkept.resolve_left (by decide))

/-- A part without whitespace and without a sign is read as what it is. -/
theorem Reads.isNumber (h : Reads part n) (hplain : ∀ c ∈ part, c ≠ '+' ∧ isWhitespace c = false) :
    IsNumber part n := by
  rw [Reads, trimmed_eq_self fun c hc => (hplain c hc).2] at h
  refine h.resolve_right ?_
  rintro ⟨run, rfl, -⟩
  exact (hplain '+' List.mem_cons_self).1 rfl

theorem IsNumber.plain (h : IsNumber run n) : ∀ c ∈ run, c ≠ '+' ∧ isWhitespace c = false := by
  intro c hc
  refine ⟨?_, isWhitespace_of_isDigit (h.isDigit c hc)⟩
  rintro rfl
  exact h.notMem (by decide) hc

theorem isNumber_toString (h : n ≤ u32Max) : IsNumber (toString n).toList n where
  ne_nil := by
    rw [Nat.toString_eq_ofList_toDigits, String.toList_ofList]
    exact Nat.toDigits_ne_nil
  isDigit c hc := by
    rw [Nat.toString_eq_ofList_toDigits, String.toList_ofList] at hc
    exact Nat.isDigit_of_mem_toDigits (by decide) (by decide) hc
  value := by
    rw [Nat.toString_eq_ofList_toDigits, String.toList_ofList, Nat.ofDigitChars_ten_toDigits]
  le := h

end Numbers

/-! ### The texts that are versions -/

section Texts

variable {text : List Char} {v w : CliVersion}

/-- Two or three runs of digits separated by single dots; a missing patch is zero. -/
inductive Dotted : List Char → CliVersion → Prop
  | two {a b : List Char} {major minor : Nat} :
      IsNumber a major → IsNumber b minor →
      Dotted (a ++ '.' :: b) { major, minor, patch := 0 }
  | three {a b c : List Char} {major minor patch : Nat} :
      IsNumber a major → IsNumber b minor → IsNumber c patch →
      Dotted (a ++ '.' :: (b ++ '.' :: c)) { major, minor, patch }

/-- One to three parts, each of which is read as a number; what is missing is zero. -/
inductive Lenient : List Char → CliVersion → Prop
  | one {a : List Char} {major : Nat} : Reads a major → Lenient a { major, minor := 0, patch := 0 }
  | two {a b : List Char} {major minor : Nat} :
      Reads a major → Reads b minor → Lenient (a ++ '.' :: b) { major, minor, patch := 0 }
  | three {a b c : List Char} {major minor patch : Nat} :
      Reads a major → Reads b minor → Reads c patch →
      Lenient (a ++ '.' :: (b ++ '.' :: c)) { major, minor, patch }

/-- **Not a dotted version, and read as one**: a number alone, or parts of which one has a sign or
whitespace around it. -/
def Loose (text : List Char) (v : CliVersion) : Prop :=
  Lenient text v ∧ ('.' ∉ text ∨ ∃ c ∈ text, c = '+' ∨ isWhitespace c = true)

/-- What the parts of a text are read as. -/
theorem fromStr_of_parts {s : String} {parts : List (List Char)}
    (hparts : s.toList.splitOn '.' = parts) :
    CliVersion.fromStr s = some v ↔
      (∃ a, parts = [a] ∧ Reads a v.major ∧ v.minor = 0 ∧ v.patch = 0) ∨
      (∃ a b, parts = [a, b] ∧ Reads a v.major ∧ Reads b v.minor ∧ v.patch = 0) ∨
      ∃ a b c, parts = [a, b, c] ∧ Reads a v.major ∧ Reads b v.minor ∧ Reads c v.patch := by
  have hzero : parseU32 (trimmed ['0']) = some 0 := by decide
  obtain ⟨major, minor, patch⟩ := v
  unfold CliVersion.fromStr
  rw [hparts]
  match parts with
  | [] => exact absurd hparts (List.splitOn_ne_nil _ _)
  | [a] => simp [hzero, Option.bind_eq_some_iff, parseU32_trimmed, @eq_comm Nat 0]
  | [a, b] => simp [Option.bind_eq_some_iff, parseU32_trimmed, @eq_comm Nat 0]
  | [a, b, c] => simp [Option.bind_eq_some_iff, parseU32_trimmed]
  | a :: b :: c :: d :: rest => simp

theorem fromStr_eq_some_iff {s : String} :
    CliVersion.fromStr s = some v ↔ Lenient s.toList v := by
  constructor
  · intro h
    have hjoin := @List.intercalate_splitOn _ s.toList _ _ '.'
    obtain ⟨major, minor, patch⟩ := v
    obtain ⟨a, hparts, ha, rfl, rfl⟩ | ⟨a, b, hparts, ha, hb, rfl⟩ |
      ⟨a, b, c, hparts, ha, hb, hc⟩ := (fromStr_of_parts rfl).mp h
    · rw [← hjoin, hparts, List.intercalate_singleton]
      exact Lenient.one ha
    · rw [← hjoin, hparts]
      simpa using Lenient.two ha hb
    · rw [← hjoin, hparts]
      simpa using Lenient.three ha hb hc
  · intro h
    generalize htext : s.toList = text at h
    have hsplit : ∀ {a rest : List Char}, '.' ∉ a →
        (a ++ '.' :: rest).splitOn '.' = a :: rest.splitOn '.' :=
      fun hdot => List.splitOn_append_cons_self_of_not_mem hdot _
    cases h with
    | one ha =>
        refine (fromStr_of_parts rfl).mpr (Or.inl ⟨_, ?_, ha, rfl, rfl⟩)
        rw [htext, List.splitOn_eq_singleton ha.dot_notMem]
    | two ha hb =>
        refine (fromStr_of_parts rfl).mpr (Or.inr (Or.inl ⟨_, _, ?_, ha, hb, rfl⟩))
        rw [htext, hsplit ha.dot_notMem, List.splitOn_eq_singleton hb.dot_notMem]
    | three ha hb hc =>
        refine (fromStr_of_parts rfl).mpr (Or.inr (Or.inr ⟨_, _, _, ?_, ha, hb, hc⟩))
        rw [htext, hsplit ha.dot_notMem, hsplit hb.dot_notMem,
          List.splitOn_eq_singleton hc.dot_notMem]

theorem Lenient.unique (hv : Lenient text v) (hw : Lenient text w) : v = w := by
  have hread : ∀ {u}, Lenient text u → CliVersion.fromStr (String.ofList text) = some u :=
    fun h => fromStr_eq_some_iff.mpr (by rwa [String.toList_ofList])
  exact Option.some.inj ((hread hv).symm.trans (hread hw))

theorem Dotted.lenient (h : Dotted text v) : Lenient text v := by
  cases h with
  | two ha hb => exact Lenient.two ha.reads hb.reads
  | three ha hb hc => exact Lenient.three ha.reads hb.reads hc.reads

theorem Dotted.plain (h : Dotted text v) :
    '.' ∈ text ∧ ∀ c ∈ text, c ≠ '+' ∧ isWhitespace c = false := by
  have hdot : ('.' : Char) ≠ '+' ∧ isWhitespace '.' = false := by decide
  cases h with
  | two ha hb =>
      refine ⟨by simp, ?_⟩
      rw [List.forall_mem_append, List.forall_mem_cons]
      exact ⟨ha.plain, hdot, hb.plain⟩
  | three ha hb hc =>
      refine ⟨by simp, ?_⟩
      rw [List.forall_mem_append, List.forall_mem_cons, List.forall_mem_append, List.forall_mem_cons]
      exact ⟨ha.plain, hdot, hb.plain, hdot, hc.plain⟩

/-- What is read as a version is a dotted one unless it is loose. -/
theorem dotted_iff : Dotted text v ↔ Lenient text v ∧ ¬ Loose text v := by
  constructor
  · intro h
    refine ⟨h.lenient, fun hloose => ?_⟩
    cases hloose.2 with
    | inl hnone => exact hnone h.plain.1
    | inr hodd =>
        obtain ⟨c, hc, hsign⟩ := hodd
        obtain ⟨hne, hspace⟩ := h.plain.2 c hc
        rw [hspace] at hsign
        exact hsign.elim hne Bool.false_ne_true
  · rintro ⟨h, hloose⟩
    have hplain : '.' ∈ text ∧ ∀ c ∈ text, c ≠ '+' ∧ isWhitespace c = false := by
      by_contra hodd
      refine hloose ⟨h, ?_⟩
      by_contra hnone
      simp only [not_or, not_exists, not_and, not_not] at hnone
      exact hodd ⟨hnone.1, fun c hc => by simpa using hnone.2 c hc⟩
    obtain ⟨hdot, hchars⟩ := hplain
    cases h with
    | one ha => exact absurd hdot ha.dot_notMem
    | two ha hb =>
        rw [List.forall_mem_append, List.forall_mem_cons] at hchars
        exact Dotted.two (ha.isNumber hchars.1) (hb.isNumber hchars.2.2)
    | three ha hb hc =>
        rw [List.forall_mem_append, List.forall_mem_cons, List.forall_mem_append,
          List.forall_mem_cons] at hchars
        obtain ⟨haChars, -, hbChars, -, hcChars⟩ := hchars
        exact Dotted.three (ha.isNumber haChars) (hb.isNumber hbChars) (hc.isNumber hcChars)

/-- The text of a version is dotted. -/
theorem dotted_toText (hmajor : v.major ≤ u32Max) (hminor : v.minor ≤ u32Max)
    (hpatch : v.patch ≤ u32Max) : Dotted v.toText.toList v := by
  have h := Dotted.three (isNumber_toString hmajor) (isNumber_toString hminor)
    (isNumber_toString hpatch)
  simpa [CliVersion.toText] using h

end Texts

/-! ### The version in a banner -/

section Banners

variable {words : List (List Char)} {v : CliVersion}

/-- The first word that is a dotted version behind its leading `v`s is `v`. -/
def FirstDotted (words : List (List Char)) (v : CliVersion) : Prop :=
  ∃ before word after, words = before ++ word :: after ∧ Dotted (withoutLeadingV word) v ∧
    ∀ other ∈ before, ∀ w, ¬ Dotted (withoutLeadingV other) w

/-- No loose version is the first word that reads as a version, unless it says the same as the first
dotted one. -/
def Undisturbed (words : List (List Char)) : Prop :=
  ∀ before word after v, words = before ++ word :: after → Loose (withoutLeadingV word) v →
    (∀ other ∈ before, ∀ w, ¬ Lenient (withoutLeadingV other) w) → FirstDotted after v

/-- The version that the parser finds among the words. -/
def foundVersion (words : List (List Char)) : Option CliVersion :=
  words.findSome? fun word => CliVersion.fromStr (String.ofList (withoutLeadingV word))

theorem foundVersion_eq_some_iff :
    foundVersion words = some v ↔
      ∃ before word after, words = before ++ word :: after ∧ Lenient (withoutLeadingV word) v ∧
        ∀ other ∈ before, ∀ w, ¬ Lenient (withoutLeadingV other) w := by
  have hread : ∀ word u, CliVersion.fromStr (String.ofList (withoutLeadingV word)) = some u ↔
      Lenient (withoutLeadingV word) u := fun word u => by
    rw [fromStr_eq_some_iff, String.toList_ofList]
  rw [foundVersion, List.findSome?_eq_some_iff]
  simp only [hread, Option.eq_none_iff_forall_ne_some, ne_eq]

theorem foundVersion_eq_none_iff :
    foundVersion words = none ↔ ∀ word ∈ words, ∀ w, ¬ Lenient (withoutLeadingV word) w := by
  rw [foundVersion, List.findSome?_eq_none_iff]
  simp only [Option.eq_none_iff_forall_ne_some, ne_eq, fromStr_eq_some_iff, String.toList_ofList]

theorem firstDotted_cons {word : List Char} :
    FirstDotted (word :: words) v ↔ Dotted (withoutLeadingV word) v ∨
      (∀ w, ¬ Dotted (withoutLeadingV word) w) ∧ FirstDotted words v := by
  constructor
  · rintro ⟨before, found, after, hsplit, hfound, hbefore⟩
    cases before with
    | nil =>
        obtain ⟨rfl, rfl⟩ := List.cons.inj hsplit
        exact Or.inl hfound
    | cons other before =>
        obtain ⟨rfl, rfl⟩ := List.cons.inj hsplit
        obtain ⟨hother, hbefore⟩ := List.forall_mem_cons.mp hbefore
        exact Or.inr ⟨hother, before, found, after, rfl, hfound, hbefore⟩
  · intro h
    cases h with
    | inl hword => exact ⟨[], word, words, rfl, hword, fun other hmem => absurd hmem List.not_mem_nil⟩
    | inr hlater =>
        obtain ⟨hword, before, found, after, rfl, hfound, hbefore⟩ := hlater
        exact ⟨word :: before, found, after, rfl, hfound, List.forall_mem_cons.mpr ⟨hword, hbefore⟩⟩

theorem FirstDotted.unique {w : CliVersion} (hv : FirstDotted words v) (hw : FirstDotted words w) :
    v = w := by
  induction words with
  | nil =>
      obtain ⟨before, found, after, hsplit, -, -⟩ := hv
      simp at hsplit
  | cons word words ih =>
      cases firstDotted_cons.mp hv with
      | inl hhere =>
          have hother := (firstDotted_cons.mp hw).resolve_right fun hlater => hlater.1 v hhere
          exact hhere.lenient.unique hother.lenient
      | inr hlater =>
          have hother := (firstDotted_cons.mp hw).resolve_left (hlater.1 w)
          exact ih hlater.2 hother.2

/-- A word that is no dotted version does not count for which one is first. -/
theorem firstDotted_append {before : List (List Char)}
    (hbefore : ∀ other ∈ before, ∀ w, ¬ Dotted (withoutLeadingV other) w) :
    FirstDotted (before ++ words) v ↔ FirstDotted words v := by
  induction before with
  | nil => rfl
  | cons other before ih =>
      obtain ⟨hother, hbefore⟩ := List.forall_mem_cons.mp hbefore
      rw [List.cons_append, firstDotted_cons, ih hbefore]
      exact ⟨fun h => (h.resolve_left (hother v)).2, fun h => Or.inr ⟨hother, h⟩⟩

theorem firstDotted_of_found (hwords : Undisturbed words) (h : foundVersion words = some v) :
    FirstDotted words v := by
  obtain ⟨before, word, after, rfl, hword, hbefore⟩ := foundVersion_eq_some_iff.mp h
  rw [firstDotted_append fun other hmem w hdotted => hbefore other hmem w hdotted.lenient,
    firstDotted_cons]
  by_cases hloose : Loose (withoutLeadingV word) v
  · refine Or.inr ⟨fun w hdotted => ?_, hwords before word after v rfl hloose hbefore⟩
    obtain rfl := hdotted.lenient.unique hword
    exact (dotted_iff.mp hdotted).2 hloose
  · exact Or.inl (dotted_iff.mpr ⟨hword, hloose⟩)

/-- The parser finds the first dotted version exactly where no loose one disturbs it. -/
theorem found_eq_firstDotted_iff :
    ((∀ v, foundVersion words = some v ↔ FirstDotted words v) ∧
      (foundVersion words = none ↔ ∀ word ∈ words, ∀ w, ¬ Dotted (withoutLeadingV word) w)) ↔
      Undisturbed words := by
  constructor
  · rintro ⟨hfound, -⟩ before word after v rfl hloose hbefore
    have hfirst := (hfound v).mp (foundVersion_eq_some_iff.mpr ⟨before, word, after, rfl, hloose.1,
      hbefore⟩)
    rw [firstDotted_append fun other hmem w hdotted => hbefore other hmem w hdotted.lenient,
      firstDotted_cons] at hfirst
    exact (hfirst.resolve_left fun hdotted => (dotted_iff.mp hdotted).2 hloose).2
  · intro hwords
    have hnone :
        foundVersion words = none ↔ ∀ word ∈ words, ∀ w, ¬ Dotted (withoutLeadingV word) w := by
      rw [foundVersion_eq_none_iff]
      refine ⟨fun h word hmem w hdotted => h word hmem w hdotted.lenient, fun h => ?_⟩
      by_contra hread
      rw [← foundVersion_eq_none_iff] at hread
      obtain ⟨v, hv⟩ := Option.ne_none_iff_exists'.mp hread
      obtain ⟨before, word, after, rfl, hword, -⟩ := firstDotted_of_found hwords hv
      exact h word (List.mem_append_right _ List.mem_cons_self) v hword
    refine ⟨fun v => ⟨firstDotted_of_found hwords, fun hfirst => ?_⟩, hnone⟩
    cases hfound : foundVersion words with
    | none =>
        obtain ⟨before, word, after, rfl, hword, -⟩ := hfirst
        exact absurd hword (hnone.mp hfound word (List.mem_append_right _ List.mem_cons_self) v)
    | some w => rw [hfirst.unique (firstDotted_of_found hwords hfound)]

theorem parseVersion_toUTF8 (banner : String) :
    parseVersion banner.toUTF8 =
      match foundVersion (splitWords banner.toList []) with
      | none => .error (.protocol "--version")
      | some version => .ok version := by
  have hread : String.fromUTF8? banner.toUTF8 = some banner := dif_pos banner.isValidUTF8
  rw [parseVersion, hread]
  rfl

/-- **Which texts and banners the parser reads as the versions they are.** -/
theorem versions_read_exactly_iff (s banner : String) :
    ((∀ v, CliVersion.fromStr s = some v ↔ Dotted s.toList v) ↔ ∀ v, ¬ Loose s.toList v) ∧
    (((∀ v, parseVersion banner.toUTF8 = .ok v ↔ FirstDotted (splitWords banner.toList []) v) ∧
        (parseVersion banner.toUTF8 = .error (.protocol "--version") ↔
          ∀ word ∈ splitWords banner.toList [], ∀ v, ¬ Dotted (withoutLeadingV word) v)) ↔
      Undisturbed (splitWords banner.toList [])) ∧
    ∀ v : CliVersion, v.major ≤ u32Max → v.minor ≤ u32Max → v.patch ≤ u32Max →
      CliVersion.fromStr v.toText = some v := by
  refine ⟨?_, ?_, fun v hmajor hminor hpatch => ?_⟩
  · simp only [fromStr_eq_some_iff, dotted_iff]
    exact ⟨fun h v hloose => ((h v).mp hloose.1).2 hloose, fun h v => by simp [h v]⟩
  · rw [parseVersion_toUTF8, ← found_eq_firstDotted_iff]
    cases foundVersion (splitWords banner.toList []) with
    | none => simp
    | some found => simp
  · exact fromStr_eq_some_iff.mpr (dotted_toText hmajor hminor hpatch).lenient

/-- A build number before the version is taken for it. -/
theorem build_number_read_as_version :
    CliVersion.fromStr "7" = some { major := 7, minor := 0, patch := 0 } ∧
    (¬ ∃ v, Dotted "7".toList v) ∧
    parseVersion "build 7 of 2.3.3\n".toUTF8 = .ok { major := 7, minor := 0, patch := 0 } ∧
    FirstDotted (splitWords "build 7 of 2.3.3\n".toList []) { major := 2, minor := 3, patch := 3 } := by
  refine ⟨by decide, ?_, ?_, ?_⟩
  · rintro ⟨v, hdotted⟩
    exact absurd hdotted.plain.1 (by decide)
  · rw [parseVersion_toUTF8]
    decide
  · have hwords : splitWords "build 7 of 2.3.3\n".toList [] =
        [['b', 'u', 'i', 'l', 'd'], ['7'], ['o', 'f']] ++ [['2', '.', '3', '.', '3']] := by decide
    have hnone : ∀ other ∈ [['b', 'u', 'i', 'l', 'd'], ['7'], ['o', 'f']], ∀ v,
        ¬ Dotted (withoutLeadingV other) v := by
      have hdots : ∀ other ∈ [['b', 'u', 'i', 'l', 'd'], ['7'], ['o', 'f']],
          '.' ∉ withoutLeadingV other := by decide
      exact fun other hmem v hdotted => hdots other hmem hdotted.plain.1
    have hnumber : ∀ n ≤ 9, IsNumber (toString n).toList n := fun n hn =>
      isNumber_toString (hn.trans (by decide))
    have hversion : Dotted ['2', '.', '3', '.', '3'] { major := 2, minor := 3, patch := 3 } :=
      Dotted.three (hnumber 2 (by decide)) (hnumber 3 (by decide)) (hnumber 3 (by decide))
    rw [hwords, firstDotted_append hnone, firstDotted_cons]
    exact Or.inl hversion

end Banners

end CosmicPass
