import Mathlib.Data.List.Forall2
import Mathlib.Tactic.TypeStar

/-!
# JSON values, decoders, and what a decoder cannot tell apart

A JSON value keeps the members of an object in the order they are written, repeated names included. A
decoder reads a value into a type, or rejects it; the ones here are the usual derived ones: strings,
optional values, lists, and records read from an object or, by position, from an array.

A *tolerance* says which values may stand for each other at each place of a document, and where the
order of members is no matter, places being followed through members and elements. `Tolerance.Agree`
is agreement up to a tolerance, and the lemmas after it say that each decoder reads values that agree
in the same way.
-/

inductive Json where
  | null
  | bool (value : Bool)
  | number (text : String)
  | string (text : String)
  | array (elements : List Json)
  | object (members : List (String × Json))

abbrev Decoder (α : Type*) := Json → Option α

namespace Json

variable {α β : Type*}

def asString : Decoder String
  | .string text => some text
  | _ => none

def asOption (decode : Decoder α) : Decoder (Option α)
  | .null => some none
  | v => (decode v).map some

def asList (decode : Decoder α) : Decoder (List α)
  | .array elements => elements.mapM decode
  | _ => none

/-- The fields of a record, in the order they are declared, and other names some of them go by. -/
structure Shape where
  fields : List String
  aliases : List (String × String) := []

def Shape.field (shape : Shape) (name : String) : Option String :=
  if name ∈ shape.fields then some name else shape.aliases.lookup name

def Shape.known (shape : Shape) (members : List (String × Json)) : List (String × Json) :=
  members.filterMap fun member => (shape.field member.1).map fun field => (field, member.2)

/-- The fields of a record that are present: by name from an object, whose other members are ignored
and which may name no field twice, or by position from an array. -/
def asRecord (shape : Shape) : Decoder (List (String × Json))
  | .object members =>
      let known := shape.known members
      if (known.map Prod.fst).Nodup then some known else none
  | .array elements =>
      if elements.length ≤ shape.fields.length then some (shape.fields.zip elements) else none
  | _ => none

def required (record : List (String × Json)) (field : String) (decode : Decoder α) : Option α :=
  (record.lookup field).bind decode

def orElse (record : List (String × Json)) (field : String) (absent : α) (decode : Decoder α) :
    Option α :=
  match record.lookup field with
  | some v => decode v
  | none => some absent

theorem lookup_eq_some_iff_mem {r : List (String × Json)} (hnodup : (r.map Prod.fst).Nodup)
    (field : String) (v : Json) : r.lookup field = some v ↔ (field, v) ∈ r := by
  induction r with
  | nil => simp
  | cons m r ih =>
      obtain ⟨name, w⟩ := m
      obtain ⟨hnot, hrest⟩ := List.nodup_cons.mp hnodup
      by_cases heq : field = name
      · subst heq
        have hnone : (field, v) ∉ r := fun hmem => hnot (List.mem_map.mpr ⟨_, hmem, rfl⟩)
        simp [hnone, eq_comm]
      · have hne : (field == name) = false := by simpa using heq
        simp [List.lookup_cons, hne, ih hrest, heq]

theorem lookup_perm {r s : List (String × Json)} (hnodup : (r.map Prod.fst).Nodup)
    (hperm : r.Perm s) (field : String) : r.lookup field = s.lookup field := by
  have hs : (s.map Prod.fst).Nodup := (hperm.map Prod.fst).nodup_iff.mp hnodup
  refine Option.ext fun v => ?_
  rw [lookup_eq_some_iff_mem hnodup, lookup_eq_some_iff_mem hs, hperm.mem_iff]

/-!
### What was written

The members and elements a decoder was given, and what its result says about them.
-/

def members : Json → List (String × Json)
  | .object members => members
  | _ => []

def elements : Json → List Json
  | .array elements => elements
  | _ => []

/-- The members of a record as they stand, whether they are known or not. -/
def written (shape : Shape) : Json → List (String × Json)
  | .array elements => shape.fields.zip elements
  | v => v.members

/-- There is something at the place: a value that is neither null nor an empty text, array or object. -/
def filled : Json → Bool
  | .null => false
  | .string text => text ≠ ""
  | .array elements => !elements.isEmpty
  | .object members => !members.isEmpty
  | .bool _ | .number _ => true

/-- A field of a record, under whichever of its names it is written. -/
def member (shape : Shape) (field : String) (v : Json) : Option Json :=
  (asRecord shape v).bind fun r => r.lookup field

def elementsAt (shape : Shape) (field : String) (v : Json) : List Json :=
  (member shape field v).elim [] elements

def filledNames (shape : Shape) (v : Json) : List String :=
  ((written shape v).filter fun m => m.2.filled).map Prod.fst

theorem Shape.mem_of_field {shape : Shape} {name field : String} (h : shape.field name = some field) :
    name = field ∧ field ∈ shape.fields ∨ (name, field) ∈ shape.aliases := by
  unfold Shape.field at h
  split at h
  next hmem =>
    obtain rfl := Option.some.inj h
    exact Or.inl ⟨rfl, hmem⟩
  next =>
    obtain ⟨before, after, heq, -⟩ := List.lookup_eq_some_iff.mp h
    exact Or.inr (by simp [heq])

theorem field_of_lookup {shape : Shape} {v w : Json} {r : List (String × Json)} {field : String}
    (hrecord : asRecord shape v = some r) (hlookup : r.lookup field = some w) :
    ∃ name, shape.field name = some field ∧ (name, w) ∈ written shape v := by
  obtain ⟨before, after, hsplit, -⟩ := List.lookup_eq_some_iff.mp hlookup
  have hmem : (field, w) ∈ r := by simp [hsplit]
  cases v with
  | object members =>
      simp only [asRecord] at hrecord
      split at hrecord
      next =>
        obtain rfl := Option.some.inj hrecord
        obtain ⟨⟨name, w'⟩, hwritten, hknown⟩ := List.mem_filterMap.mp hmem
        obtain ⟨_, hfield, heq⟩ := Option.map_eq_some_iff.mp hknown
        obtain ⟨rfl, rfl⟩ := Prod.mk.inj heq
        exact ⟨name, hfield, hwritten⟩
      next => simp at hrecord
  | array elements =>
      simp only [asRecord] at hrecord
      split at hrecord
      next =>
        obtain rfl := Option.some.inj hrecord
        exact ⟨field, if_pos (List.of_mem_zip hmem).1, hmem⟩
      next => simp at hrecord
  | _ => simp [asRecord] at hrecord

theorem member_of_record {shape : Shape} {v : Json} {r : List (String × Json)}
    (hrecord : asRecord shape v = some r) (field : String) :
    member shape field v = r.lookup field := by
  simp [member, hrecord]

theorem elementsAt_undeclared {shape : Shape} {field : String}
    (h : field ∉ shape.fields ++ shape.aliases.map Prod.snd) (v : Json) :
    elementsAt shape field v = [] := by
  have hnone : member shape field v = none := by
    rw [Option.eq_none_iff_forall_not_mem]
    intro w hmember
    obtain ⟨r, hrecord, hlookup⟩ := Option.bind_eq_some_iff.mp hmember
    obtain ⟨name, hfield, -⟩ := field_of_lookup hrecord hlookup
    rcases Shape.mem_of_field hfield with ⟨-, hmem⟩ | hmem
    · exact h (List.mem_append_left _ hmem)
    · exact h (List.mem_append_right _ (List.mem_map_of_mem hmem))
  simp [elementsAt, hnone]

/-- A field that goes by no other name is written under its own. -/
theorem mem_filledNames {shape : Shape} {v w : Json} {r : List (String × Json)} {field : String}
    (hrecord : asRecord shape v = some r) (hlookup : r.lookup field = some w) (hfilled : w.filled)
    (halias : field ∉ shape.aliases.map Prod.snd) : field ∈ filledNames shape v := by
  obtain ⟨name, hfield, hmem⟩ := field_of_lookup hrecord hlookup
  rcases Shape.mem_of_field hfield with ⟨rfl, -⟩ | hother
  · exact List.mem_map.mpr ⟨_, List.mem_filter.mpr ⟨hmem, hfilled⟩, rfl⟩
  · exact absurd (List.mem_map_of_mem hother) halias

/-- A field that is not as if it were absent is there. -/
theorem lookup_of_orElse {r : List (String × Json)} {field : String} {absent x : α}
    {decode : Decoder α} (h : orElse r field absent decode = some x) (hne : x ≠ absent) :
    ∃ w, r.lookup field = some w ∧ decode w = some x := by
  unfold orElse at h
  split at h
  next w hlookup => exact ⟨w, hlookup, h⟩
  next => exact absurd (Option.some.inj h).symm hne

theorem asOption_cases {v : Json} {x : Option α} {decode : Decoder α}
    (h : asOption decode v = some x) :
    v = .null ∧ x = none ∨ ∃ y, decode v = some y ∧ x = some y := by
  cases v with
  | null => exact Or.inl ⟨rfl, (Option.some.inj h).symm⟩
  | _ =>
      obtain ⟨y, hread, rfl⟩ := Option.map_eq_some_iff.mp h
      exact Or.inr ⟨y, hread, rfl⟩

theorem foldlM_last {read : β → Option α} {l : List β} : ∀ {first x : α},
    l.foldlM (fun _ a => read a) first = some x →
      l = [] ∧ x = first ∨ ∃ a, l.getLast? = some a ∧ read a = some x := by
  induction l with
  | nil =>
      intro first x h
      exact Or.inl ⟨rfl, (Option.some.inj h).symm⟩
  | cons a l ih =>
      intro first x h
      rw [List.foldlM_cons] at h
      obtain ⟨y, hread, hrest⟩ := Option.bind_eq_some_iff.mp h
      rcases ih hrest with ⟨rfl, rfl⟩ | ⟨last, hlast, hx⟩
      · exact Or.inr ⟨a, rfl, hread⟩
      · exact Or.inr ⟨last, by simp [List.getLast?_cons, hlast], hx⟩

theorem mapM_eq_some {read : β → Option α} {l : List β} : ∀ {xs : List α},
    l.mapM read = some xs ↔ l.map read = xs.map some := by
  induction l with
  | nil =>
      intro xs
      cases xs <;> simp
  | cons a l ih =>
      intro xs
      cases xs with
      | nil => simp [List.mapM_cons, Option.bind_eq_some_iff]
      | cons x xs => simp [List.mapM_cons, ← ih, Option.bind_eq_some_iff]

/-- What is read at each place is paired with what it was read from. -/
theorem mem_zip_of_mapM {read : β → Option α} {l : List β} {xs : List α} {a : β} {x : α}
    (h : l.mapM read = some xs) (hmem : (a, x) ∈ l.zip xs) : a ∈ l ∧ read a = some x := by
  have hpair : (a, some x) ∈ l.zip (l.map read) := by
    rw [mapM_eq_some.mp h, List.zip_map_right]
    exact List.mem_map_of_mem hmem
  rw [← List.map_prod_left_eq_zip] at hpair
  obtain ⟨_, ha, heq⟩ := List.mem_map.mp hpair
  obtain ⟨rfl, hread⟩ := Prod.mk.inj heq
  exact ⟨ha, hread⟩

theorem elements_of_asList {v : Json} {xs : List α} {decode : Decoder α}
    (h : asList decode v = some xs) : v.elements.map decode = xs.map some := by
  cases v with
  | array vs => exact mapM_eq_some.mp h
  | _ => simp [asList] at h

/-- A list field is read from its elements, of which there are none where it is absent. -/
theorem elementsAt_of_orElse {shape : Shape} {v : Json} {r : List (String × Json)} {field : String}
    {xs : List α} {decode : Decoder α} (hrecord : asRecord shape v = some r)
    (h : orElse r field [] (asList decode) = some xs) :
    (elementsAt shape field v).map decode = xs.map some := by
  rw [elementsAt, member_of_record hrecord]
  unfold orElse at h
  split at h
  next w hlookup =>
    rw [hlookup]
    exact elements_of_asList h
  next hlookup =>
    obtain rfl := Option.some.inj h
    simp [hlookup]

theorem elementsAt_of_required {shape : Shape} {v : Json} {r : List (String × Json)}
    {field : String} {xs : List α} {decode : Decoder α} (hrecord : asRecord shape v = some r)
    (h : required r field (asList decode) = some xs) :
    (elementsAt shape field v).map decode = xs.map some := by
  obtain ⟨w, hlookup, hread⟩ := Option.bind_eq_some_iff.mp h
  rw [elementsAt, member_of_record hrecord, hlookup]
  exact elements_of_asList hread

theorem mem_of_map_decode {decode : Decoder α} {vs : List Json} {xs : List α} {x : α}
    (h : vs.map decode = xs.map some) (hmem : x ∈ xs) : ∃ v ∈ vs, decode v = some x := by
  have hsome : some x ∈ vs.map decode := h ▸ List.mem_map_of_mem hmem
  exact List.mem_map.mp hsome

/-- Which values may stand for each other at a place, and the places below it. -/
structure Tolerance (P : Type*) where
  member : P → String → P
  element : P → Nat → P
  tolerates : P → Json → Json → Prop
  /-- Where the members of an object may come in another order. -/
  unordered : P → Prop

namespace Tolerance

variable {P : Type*} (T : Tolerance P)

/-- Agreement at a place: the values are the same but for what is tolerated there and below. -/
inductive Agree : P → Json → Json → Prop
  | refl (p : P) (v : Json) : Agree p v v
  | tolerated {p : P} {v w : Json} (h : T.tolerates p v w) : Agree p v w
  | array {p : P} {vs ws : List Json} (hlength : vs.length = ws.length)
      (h : ∀ (n : Nat) (v w : Json), vs[n]? = some v → ws[n]? = some w →
        Agree (T.element p n) v w) :
      Agree p (.array vs) (.array ws)
  | object {p : P} {ms ms' ns : List (String × Json)} (hperm : ms.Perm ms')
      (hordered : T.unordered p ∨ ms = ms') (hnames : ms'.map Prod.fst = ns.map Prod.fst)
      (h : ∀ (n : Nat) (name : String) (v w : Json), ms'[n]? = some (name, v) →
        ns[n]? = some (name, w) → Agree (T.member p name) v w) :
      Agree p (.object ms) (.object ns)

def Strict (p : P) : Prop := ∀ v w, ¬ T.tolerates p v w

def AgreeMembers (p : P) : List (String × Json) → List (String × Json) → Prop :=
  List.Forall₂ fun m n => m.1 = n.1 ∧ T.Agree (T.member p m.1) m.2 n.2

/-- Records whose fields agree. -/
def AgreeRecords (p : P) (r s : List (String × Json)) : Prop :=
  ∀ field, Option.Rel (T.Agree (T.member p field)) (r.lookup field) (s.lookup field)

variable {T} {p : P} {v w : Json}

theorem agreeMembers_of_names {ms : List (String × Json)} : ∀ {ns : List (String × Json)},
    ms.map Prod.fst = ns.map Prod.fst →
    (∀ (n : Nat) (name : String) (v w : Json), ms[n]? = some (name, v) →
      ns[n]? = some (name, w) → T.Agree (T.member p name) v w) → T.AgreeMembers p ms ns := by
  induction ms with
  | nil =>
      intro ns hnames _
      obtain rfl : ns = [] := by simpa using hnames.symm
      exact .nil
  | cons m ms ih =>
      intro ns hnames h
      cases ns with
      | nil => simp at hnames
      | cons n ns =>
          obtain ⟨hname, hrest⟩ := List.cons.inj hnames
          refine .cons ⟨hname, ?_⟩ (ih hrest fun k name v w hv hw => ?_)
          · exact h 0 m.1 m.2 n.2 rfl (by rw [hname]; rfl)
          · exact h (k + 1) name v w (by simpa using hv) (by simpa using hw)

theorem AgreeMembers.agree {ms ns : List (String × Json)} (h : T.AgreeMembers p ms ns) :
    T.Agree p (.object ms) (.object ns) := by
  refine .object (List.Perm.refl ms) (.inr rfl) ?_ ?_
  · induction h with
    | nil => rfl
    | cons hm _ ih => simp [hm.1, ih]
  · induction h with
    | nil => simp
    | cons hm _ ih =>
        intro n name v w hv hw
        cases n with
        | zero =>
            obtain rfl := by simpa using hv
            obtain rfl := by simpa using hw
            exact hm.2
        | succ n => exact ih n name v w (by simpa using hv) (by simpa using hw)

theorem Agree.asString (hstrict : T.Strict p) (h : T.Agree p v w) : asString v = asString w := by
  cases h with
  | refl => rfl
  | tolerated h => exact absurd h (hstrict v w)
  | array => rfl
  | object => rfl

theorem Agree.asOption {decode : Decoder α} (hstrict : T.Strict p) (h : T.Agree p v w)
    (hdecode : decode v = decode w) : asOption decode v = asOption decode w := by
  cases h with
  | refl => rfl
  | tolerated h => exact absurd h (hstrict v w)
  | array => simp [Json.asOption, hdecode]
  | object => simp [Json.asOption, hdecode]

theorem Agree.asList {decode : Decoder α} (hstrict : T.Strict p) (h : T.Agree p v w)
    (hdecode : ∀ n v w, T.Agree (T.element p n) v w → decode v = decode w) :
    asList decode v = asList decode w := by
  cases h with
  | refl => rfl
  | tolerated h => exact absurd h (hstrict v w)
  | object => rfl
  | @array _ vs ws hlength h =>
      have hmap : vs.map decode = ws.map decode := by
        refine List.ext_getElem? fun n => ?_
        rw [List.getElem?_map, List.getElem?_map]
        cases hv : vs[n]? with
        | none =>
            rw [List.getElem?_eq_none_iff, hlength, ← List.getElem?_eq_none_iff] at hv
            rw [hv]
        | some v =>
            have hlt := (List.getElem?_eq_some_iff.mp hv).1
            have hw : ws[n]? = some ws[n] := List.getElem?_eq_getElem (hlength ▸ hlt)
            rw [hw, Option.map_some, Option.map_some, hdecode n v _ (h n v _ hv hw)]
      have hmapM : ∀ elements : List Json,
          elements.mapM decode = (elements.map decode).mapM fun read => read := by
        intro elements
        rw [List.mapM_map]
        rfl
      simp only [Json.asList]
      rw [hmapM, hmapM, hmap]

theorem AgreeMembers.known {shape : Shape} {ms ns : List (String × Json)}
    (hnames : ∀ name field, shape.field name = some field → T.member p name = T.member p field)
    (h : T.AgreeMembers p ms ns) : T.AgreeMembers p (shape.known ms) (shape.known ns) := by
  induction h with
  | nil => exact .nil
  | @cons m n ms ns hm _ ih =>
      obtain ⟨hname, hagree⟩ := hm
      unfold Shape.known at ih ⊢
      cases hfield : shape.field m.1 with
      | none =>
          have hfield' : shape.field n.1 = none := hname ▸ hfield
          simpa [hfield, hfield'] using ih
      | some field =>
          have hfield' : shape.field n.1 = some field := hname ▸ hfield
          simp only [List.filterMap_cons, hfield, hfield', Option.map_some]
          exact .cons ⟨rfl, hnames _ _ hfield ▸ hagree⟩ ih

theorem AgreeMembers.names {ms ns : List (String × Json)} (h : T.AgreeMembers p ms ns) :
    ms.map Prod.fst = ns.map Prod.fst := by
  induction h with
  | nil => rfl
  | cons hm _ ih => simp [hm.1, ih]

theorem agreeMembers_zip {fields : List String} : ∀ {vs ws : List Json}, vs.length = ws.length →
    (∀ (n : Nat) (field : String) (v w : Json), fields[n]? = some field → vs[n]? = some v →
      ws[n]? = some w → T.Agree (T.member p field) v w) →
    T.AgreeMembers p (fields.zip vs) (fields.zip ws) := by
  induction fields with
  | nil => exact fun _ _ => .nil
  | cons field fields ih =>
      intro vs ws hlength h
      cases vs with
      | nil =>
          obtain rfl : ws = [] := List.length_eq_zero_iff.mp hlength.symm
          exact .nil
      | cons v vs =>
          cases ws with
          | nil => simp at hlength
          | cons w ws =>
              refine .cons ⟨rfl, h 0 field v w rfl rfl rfl⟩ (ih (by simpa using hlength) ?_)
              intro n field' v' w' hf hv hw
              exact h (n + 1) field' v' w' (by simpa using hf) (by simpa using hv) (by simpa using hw)

theorem AgreeRecords.refl (r : List (String × Json)) : T.AgreeRecords p r r := by
  intro field
  cases r.lookup field with
  | none => exact .none
  | some v => exact .some (.refl _ v)

theorem AgreeMembers.records {ms ns : List (String × Json)} (h : T.AgreeMembers p ms ns) :
    T.AgreeRecords p ms ns := by
  intro field
  induction h with
  | nil => exact .none
  | @cons m n ms ns hm _ ih =>
      obtain ⟨name, v⟩ := m
      obtain ⟨name', w⟩ := n
      obtain ⟨rfl, hagree⟩ := hm
      by_cases heq : field = name
      · subst heq
        simpa using Option.Rel.some hagree
      · have hne : (field == name) = false := by simpa using heq
        simpa [List.lookup_cons, hne] using ih

/-- Values that agree are both read as records, whose fields agree, or both rejected. -/
theorem Agree.asRecord {shape : Shape} (hstrict : T.Strict p)
    (hfields : ∀ (n : Nat) (field : String), shape.fields[n]? = some field →
      T.element p n = T.member p field)
    (hnames : ∀ name field, shape.field name = some field → T.member p name = T.member p field)
    (h : T.Agree p v w) :
    Option.Rel (T.AgreeRecords p) (asRecord shape v) (asRecord shape w) := by
  cases h with
  | refl =>
      cases Json.asRecord shape v with
      | none => exact .none
      | some ms => exact .some (.refl ms)
  | tolerated h => exact absurd h (hstrict v w)
  | @object _ ms ms' ns hperm _ hms h =>
      have hknown := (agreeMembers_of_names hms h).known hnames
      have hperm : (shape.known ms).Perm (shape.known ms') := hperm.filterMap _
      have hnodup : ((shape.known ms).map Prod.fst).Nodup ↔ ((shape.known ns).map Prod.fst).Nodup := by
        rw [← hknown.names]
        exact (hperm.map Prod.fst).nodup_iff
      simp only [Json.asRecord, hnodup]
      split
      next hns =>
        refine .some fun field => ?_
        rw [lookup_perm (hnodup.mpr hns) hperm]
        exact hknown.records field
      next => exact .none
  | @array _ vs ws hlength h =>
      simp only [Json.asRecord, hlength]
      split
      · refine .some (AgreeMembers.records ?_)
        refine agreeMembers_zip hlength fun n field v w hf hv hw => ?_
        exact hfields n field hf ▸ h n v w hv hw
      · exact .none

theorem Agree.bindRecord {shape : Shape} {read : List (String × Json) → Option α}
    (hstrict : T.Strict p)
    (hfields : ∀ (n : Nat) (field : String), shape.fields[n]? = some field →
      T.element p n = T.member p field)
    (hnames : ∀ name field, shape.field name = some field → T.member p name = T.member p field)
    (h : T.Agree p v w) (hread : ∀ r s, T.AgreeRecords p r s → read r = read s) :
    (Json.asRecord shape v).bind read = (Json.asRecord shape w).bind read := by
  have hrecord := h.asRecord hstrict hfields hnames
  generalize Json.asRecord shape v = left, Json.asRecord shape w = right at hrecord ⊢
  cases hrecord with
  | none => rfl
  | some hms => exact hread _ _ hms

theorem AgreeRecords.required {r s : List (String × Json)} {decode : Decoder α}
    (h : T.AgreeRecords p r s) (field : String)
    (hdecode : ∀ v w, T.Agree (T.member p field) v w → decode v = decode w) :
    required r field decode = required s field decode := by
  have hfield := h field
  unfold Json.required
  generalize r.lookup field = left, s.lookup field = right at hfield ⊢
  cases hfield with
  | none => rfl
  | some hagree => exact hdecode _ _ hagree

theorem AgreeRecords.orElse {r s : List (String × Json)} {decode : Decoder α}
    (h : T.AgreeRecords p r s) (field : String) (absent : α)
    (hdecode : ∀ v w, T.Agree (T.member p field) v w → decode v = decode w) :
    orElse r field absent decode = orElse s field absent decode := by
  have hfield := h field
  unfold Json.orElse
  generalize r.lookup field = left, s.lookup field = right at hfield ⊢
  cases hfield with
  | none => rfl
  | some hagree => exact hdecode _ _ hagree

end Tolerance

end Json
