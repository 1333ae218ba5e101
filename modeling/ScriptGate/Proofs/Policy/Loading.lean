import Mathlib.Data.Set.List
import ScriptGate.Proofs.Policy.Fields

/-!
# A policy file is applied completely or refused

No part of a policy file is passed over. The file has a policy if and only if it spells an object in
which every name is that of a field and every value is valid for its field; each field of the policy
is then what the last value under its name holds, or the standard one if the name is not there. All
other objects are refused, with errors for the invalid fields, for every unknown name, and for
nothing else. The order of the members, and the order and repetition of the items of a set, do not
matter.

## Main definitions

* `Policy.Rearranged`: objects that differ in the order and repetition of their parts only.
* `Policy.Same`: policies that mean the same in every field.
* `Policy.Spells`: the value that a file spells.

## Main results

* `Policy.Shape.holds_of_alike`: what a value holds does not hang on the order and repetition in it.
* `Policy.load_complete`: a policy file is applied completely or refused.
-/

namespace ScriptGate.Policy

open Record
open Json (Decodes)
open Json.Value (settle)

variable {rs ns : List (Text × Json.Value)} {f : Field} {p q : Policy}

/-! ### Order and repetition -/

/-- Arrays with the same items. -/
def SameItems (v w : Json.Value) : Prop :=
  ∃ vs ws, v = .array vs ∧ w = .array ws ∧ ∀ x, x ∈ vs ↔ x ∈ ws

/-- Values that differ at most in the order and repetition of items, and objects of arrays also in
the order of their members. -/
inductive Alike : Json.Value → Json.Value → Prop
  | same (v : Json.Value) : Alike v v
  | items {v w : Json.Value} (h : SameItems v w) : Alike v w
  | members {ms ns : List (Text × Json.Value)}
      (h : ∀ name, Option.Rel SameItems (Json.Value.get? name ms) (Json.Value.get? name ns)) :
      Alike (.object ms) (.object ns)

/-- Members with the same names, of which the last values are alike field by field. -/
def Rearranged (rs rs' : List (Text × Json.Value)) : Prop :=
  (∀ name, name ∈ rs.map (·.1) ↔ name ∈ rs'.map (·.1)) ∧
    ∀ f ∈ fields, Option.Rel Alike (f.value? rs) (f.value? rs')

/-- Lists with the same members. -/
def SameSet (ts us : List Text) : Prop := ∀ t, t ∈ ts ↔ t ∈ us

/-- Tables with the same sets under the same names. -/
def SameTable (t u : NameTable) : Prop :=
  ∀ name, Option.Rel SameSet (t.lookup name) (u.lookup name)

/-- Contents of a field that mean the same. -/
def Shape.Same : (s : Shape) → s.Content → s.Content → Prop
  | .set => SameSet
  | .table => SameTable
  | .optionalTable => Option.Rel SameTable
  | .unit => Eq
  | .depth => Eq

/-- Policies that mean the same in every field. -/
def Same (p q : Policy) : Prop := ∀ f ∈ fields, f.shape.Same (f.get p) (f.get q)

section Alike

variable {v w : Json.Value} {ts us : List Text} {t u : NameTable}

/-- What two options have in common with a third carries over to them. -/
theorem rel_of_rel {α β γ : Type} {R : α → β → Prop} {S : α → γ → Prop} {T : β → γ → Prop}
    {x : Option α} {y : Option β} {z : Option γ} (hy : Option.Rel R x y) (hz : Option.Rel S x z)
    (h : ∀ a b c, R a b → S a c → T b c) : Option.Rel T y z := by
  cases hy with
  | none =>
    cases hz
    exact .none
  | some hb =>
    cases hz with
    | some hc => exact .some (h _ _ _ hb hc)

theorem none_iff_of_rel {α β : Type} {R : α → β → Prop} {x : Option α} {y : Option β}
    (h : Option.Rel R x y) : x = none ↔ y = none := by
  cases h <;> simp

theorem sameTable_refl (t : NameTable) : SameTable t t := by
  intro name
  cases t.lookup name with
  | none => exact .none
  | some ts => exact .some fun _ => Iff.rfl

theorem Shape.same_refl (s : Shape) (a : s.Content) : s.Same a a := by
  cases s with
  | set => exact fun _ => Iff.rfl
  | table => exact sameTable_refl a
  | optionalTable =>
    cases a with
    | none => exact .none
    | some t => exact .some (sameTable_refl t)
  | unit => rfl
  | depth => rfl

theorem sameSet_of_holdsSet (h : HoldsSet v ts) (h' : HoldsSet v us) : SameSet ts us := by
  obtain ⟨items, rfl, hts⟩ := h
  obtain ⟨items', heq, hus⟩ := h'
  have hitems : items = items' :=
    List.map_injective_iff.mpr (fun _ _ => Json.Value.string.inj) (Json.Value.array.inj heq)
  intro t
  rw [hts, hus, hitems]

theorem sameTable_of_holdsTable (h : HoldsTable v t) (h' : HoldsTable v u) : SameTable t u := by
  obtain ⟨ms, rfl, ht⟩ := h
  obtain ⟨ms', heq, hu⟩ := h'
  cases heq
  exact fun name => rel_of_rel (ht name) (hu name) fun _ _ _ => sameSet_of_holdsSet

/-- A value holds one content of a field, up to the order and repetition in it. -/
theorem Shape.same_of_holds {s : Shape} {a b : s.Content} (ha : s.Holds v a) (hb : s.Holds v b) :
    s.Same a b := by
  cases s with
  | set => exact sameSet_of_holdsSet ha hb
  | table => exact sameTable_of_holdsTable ha hb
  | optionalTable =>
    cases a with
    | none =>
      obtain rfl : v = .null := ha
      cases b with
      | none => exact .none
      | some u => obtain ⟨ms, hms, -⟩ := hb; cases hms
    | some t =>
      cases b with
      | none =>
        obtain rfl : v = .null := hb
        obtain ⟨ms, hms, -⟩ := ha
        cases hms
      | some u => exact .some (sameTable_of_holdsTable ha hb)
  | unit =>
    have hnames : ∀ a b : OffsetUnit, (a.name : Text) = b.name → a = b := by
      intro a b
      cases a <;> cases b <;> decide
    exact hnames a b (Json.Value.string.inj (ha.symm.trans hb))
  | depth =>
    have hread := (integer_eq_valid.mpr ha).symm.trans (integer_eq_valid.mpr hb)
    exact Subtype.ext (Int.ofNat.inj (Validated.valid.inj hread))

theorem holdsSet_of_sameItems (h : SameItems v w) (hv : HoldsSet v ts) : HoldsSet w ts := by
  obtain ⟨vs, ws, rfl, rfl, hsame⟩ := h
  obtain ⟨items, hitems, hts⟩ := hv
  obtain rfl := Json.Value.array.inj hitems
  obtain ⟨items', rfl⟩ : ws ∈ Set.range (List.map Json.Value.string) := by
    rw [Set.range_list_map]
    intro x hx
    obtain ⟨t, -, rfl⟩ := List.mem_map.mp ((hsame x).mpr hx)
    exact ⟨t, rfl⟩
  have hmem (t : Text) (l : List Text) : .string t ∈ l.map Json.Value.string ↔ t ∈ l := by simp
  exact ⟨items', rfl, fun t => by rw [hts, ← hmem t items, hsame, hmem]⟩

theorem holdsTable_of_members {ms ns : List (Text × Json.Value)}
    (h : ∀ name, Option.Rel SameItems (Json.Value.get? name ms) (Json.Value.get? name ns))
    (hv : HoldsTable (.object ms) t) : HoldsTable (.object ns) t := by
  obtain ⟨ms', hms, ht⟩ := hv
  cases hms
  exact ⟨ns, rfl, fun name => rel_of_rel (h name) (ht name) fun _ _ _ => holdsSet_of_sameItems⟩

theorem Shape.eq_set_of_holds {s : Shape} {a : s.Content} {vs : List Json.Value}
    (h : s.Holds (.array vs) a) : s = .set := by
  cases s with
  | set => rfl
  | table => obtain ⟨ms, hms, -⟩ := h; cases hms
  | optionalTable =>
    cases a with
    | none => cases h
    | some t => obtain ⟨ms, hms, -⟩ := h; cases hms
  | unit => cases h
  | depth => cases h

/-- **What a value holds does not hang on the order and repetition in it.** -/
theorem Shape.holds_of_alike {s : Shape} {a : s.Content} (h : Alike v w) (ha : s.Holds v a) :
    s.Holds w a := by
  cases h with
  | same => exact ha
  | items h =>
    -- Only sets are held by arrays.
    obtain ⟨vs, -, rfl, -, -⟩ := id h
    obtain rfl := Shape.eq_set_of_holds ha
    exact holdsSet_of_sameItems h ha
  | members h =>
    cases s with
    | set => obtain ⟨items, hitems, -⟩ := ha; cases hitems
    | table => exact holdsTable_of_members h ha
    | optionalTable =>
      cases a with
      | none => cases ha
      | some t => exact holdsTable_of_members (t := t) h ha
    | unit => cases ha
    | depth => cases ha

end Alike

/-! ### Files -/

/-- The text of a file, with its line ends made equal, spells a value. -/
def Spells (text : List Char) (v : Json.Value) : Prop :=
  Decodes (some Numeral.maxDigits) (Text.unixLines text) v

variable {text : List Char}

theorem load_of_spells {v : Json.Value} (h : Spells text v) :
    load text = (record v.settle).toExcept.mapError .invalid := by
  have hread : Json.read (Text.unixLines text) = .ok v.settle :=
    Json.readWithin_eq_ok_iff.mpr ⟨v, rfl, h⟩
  rw [load, hread]

theorem load_of_settles (h : Spells text (.object rs)) (hns : Settles rs ns) :
    load text = (ofMembers ns).toExcept.mapError .invalid := by
  rw [load_of_spells h, hns]
  rfl

theorem exists_settles (rs : List (Text × Json.Value)) : ∃ ns, Settles rs ns :=
  ⟨_, rfl⟩

theorem eq_object_of_members {v : Json.Value} (h : members recordName v.settle = .valid ns) :
    ∃ rs, v = .object rs ∧ Settles rs ns := by
  cases v with
  | object rs => exact ⟨rs, rfl, congrArg Json.Value.object (Validated.valid.inj h)⟩
  | _ => cases h

/-- A file that has a policy spells an object, and its members are read as the policy. -/
theorem exists_of_load (h : load text = .ok p) :
    ∃ rs ns, Spells text (.object rs) ∧ Settles rs ns ∧ ofMembers ns = .valid p := by
  rw [load] at h
  cases hread : Json.read (Text.unixLines text) with
  | error e =>
    rw [hread] at h
    cases h
  | ok v =>
    have hloaded : (record v).toExcept.mapError LoadError.invalid = .ok p := by
      rwa [hread] at h
    obtain ⟨raw, rfl, hspells⟩ := Json.readWithin_eq_ok_iff.mp hread
    have hvalid := Validated.eq_valid_of_toExcept (mapError_eq_ok hloaded)
    obtain ⟨ns, hns, hmembers⟩ := Validated.andThen_eq_valid.mp hvalid
    obtain ⟨rs, rfl, hsettles⟩ := eq_object_of_members hns
    exact ⟨rs, ns, hspells, hsettles, hmembers⟩

theorem exists_of_acceptable (h : Spells text (.object rs)) (hrs : Acceptable rs) :
    ∃ p, load text = .ok p ∧ Describes rs p := by
  obtain ⟨ns, hns⟩ := exists_settles rs
  obtain ⟨p, hp⟩ := exists_valid hns hrs
  exact ⟨p, by rw [load_of_settles h hns, hp]; rfl, describes_of_valid hns hp⟩

theorem accepted_of_load (h : Spells text (.object rs)) (hload : load text = .ok p) :
    Acceptable rs ∧ Describes rs p := by
  obtain ⟨ns, hns⟩ := exists_settles rs
  rw [load_of_settles h hns] at hload
  have hvalid := Validated.eq_valid_of_toExcept (mapError_eq_ok hload)
  exact ⟨acceptable_of_valid hns hvalid, describes_of_valid hns hvalid⟩

theorem exists_refuses (h : Spells text (.object rs))
    (hnames : ∀ name ∈ rs.map (·.1), name.Plain) (hrs : ¬Acceptable rs) :
    ∃ errors, load text = .error (.invalid errors) ∧ Refuses rs errors := by
  obtain ⟨ns, hns⟩ := exists_settles rs
  have hplain : ∀ m ∈ ns, isBroken m.1 = false := fun m hm =>
    Text.plain_iff_not_isBroken.mp (hnames m.1 (hns.mem_names hm))
  rw [load_of_settles h hns]
  cases hmembers : ofMembers ns with
  | valid p => exact absurd (acceptable_of_valid hns hmembers) hrs
  | invalid errors =>
    have herrors : errors = (blocks ns).flatMap (·.2) := by
      rw [← errors_ofMembers hplain, hmembers]
      rfl
    exact ⟨errors, rfl, herrors ▸ refuses_blocks hns hrs⟩

/-- Rearranged objects describe policies that mean the same. -/
theorem same_of_rearranged {rs' : List (Text × Json.Value)} (h : Rearranged rs rs')
    (hp : Describes rs p) (hq : Describes rs' q) : p.Same q := by
  intro f hf
  obtain ⟨hgiven, hstandard⟩ := hp f hf
  obtain ⟨hgiven', hstandard'⟩ := hq f hf
  cases hv : f.value? rs with
  | none =>
    have hnone : f.value? rs' = none := (none_iff_of_rel (h.2 f hf)).mp hv
    rw [hstandard hv, hstandard' hnone]
    exact f.shape.same_refl _
  | some v =>
    obtain ⟨w, hw, halike⟩ := exists_of_rel (h.2 f hf) hv
    exact Shape.same_of_holds (Shape.holds_of_alike halike (hgiven v hv)) (hgiven' w hw)

theorem acceptable_of_rearranged {rs' : List (Text × Json.Value)} (h : Rearranged rs rs')
    (hrs : Acceptable rs) : Acceptable rs' := by
  refine ⟨fun name hname => hrs.1 name ((h.1 name).mpr hname), fun f hf w hw => ?_⟩
  cases hv : f.value? rs with
  | none =>
    have hnone : f.value? rs' = none := (none_iff_of_rel (h.2 f hf)).mp hv
    rw [hnone] at hw
    cases hw
  | some v =>
    obtain ⟨w', hw', halike⟩ := exists_of_rel (h.2 f hf) hv
    obtain rfl := Option.some.inj (hw'.symm.trans hw)
    obtain ⟨a, ha⟩ := hrs.2 f hf v hv
    exact ⟨a, Shape.holds_of_alike halike ha⟩

/-- **A policy file is applied completely or refused.** It has a policy if and only if it spells an
acceptable object. Every field of this policy is what the last value under its name holds, or the
standard one, and the nesting limit is positive; order and repetition in the file do not matter. An
object that is not acceptable, in which no name is broken, is refused with errors for its invalid
fields and its unknown names, and any other value for not being an object. -/
theorem load_complete (text : List Char) :
    ((∃ p, load text = .ok p) ↔ ∃ rs, Spells text (.object rs) ∧ Acceptable rs) ∧
    (∀ rs p, Spells text (.object rs) → load text = .ok p → Describes rs p ∧ 1 ≤ p.maxDepth) ∧
    (∀ other rs rs' p, Spells text (.object rs) → Spells other (.object rs') → Rearranged rs rs' →
      load text = .ok p → ∃ q, load other = .ok q ∧ p.Same q) ∧
    (∀ rs, Spells text (.object rs) → (∀ name ∈ rs.map (·.1), name.Plain) → ¬Acceptable rs →
      ∃ errors, load text = .error (.invalid errors) ∧ Refuses rs errors) ∧
    ∀ v, Spells text v → (∀ rs, v ≠ .object rs) →
      load text = .error (.invalid [⟨[], .notRecord recordName⟩]) := by
  refine ⟨⟨?_, ?_⟩, ?_, ?_, fun rs => exists_refuses, ?_⟩
  · rintro ⟨p, hp⟩
    obtain ⟨rs, ns, hspells, hns, hvalid⟩ := exists_of_load hp
    exact ⟨rs, hspells, acceptable_of_valid hns hvalid⟩
  · rintro ⟨rs, hspells, hrs⟩
    obtain ⟨p, hp, -⟩ := exists_of_acceptable hspells hrs
    exact ⟨p, hp⟩
  · intro rs p hspells hp
    exact ⟨(accepted_of_load hspells hp).2, p.maxDepth_pos⟩
  · intro other rs rs' p hspells hother hrearranged hp
    obtain ⟨hrs, hdescribes⟩ := accepted_of_load hspells hp
    obtain ⟨q, hq, hdescribed⟩ :=
      exists_of_acceptable hother (acceptable_of_rearranged hrearranged hrs)
    exact ⟨q, hq, same_of_rearranged hrearranged hdescribes hdescribed⟩
  · intro v hspells hobject
    rw [load_of_spells hspells]
    cases v with
    | object rs => exact absurd rfl (hobject rs)
    | _ => rfl

/-- A file with a limit that is written twice, at last as a string, and an identifier twice. -/
def repeatedFile : List Char :=
  ("\x7b\"max_depth\": 0, \"safe_identifiers\": [\"b\", \"a\", \"b\"], " ++
    "\"max_depth\": \" +1_0.00 \"\x7d").toList

/-- A file with two invalid fields and two unknown names, one of which is written twice. -/
def misspeltFile : List Char :=
  ("\x7b\"zeta\": 1, \"max_depth\": 0, \"alpha\": 2, \"offset_unit\": \"bytes\", " ++
    "\"zeta\": [], \"safe_namespaces\": []\x7d").toList

/-- The errors with which a file is refused. -/
def refusal? (text : List Char) : Option (List FieldError) :=
  match load text with
  | .error (.invalid errors) => some errors
  | _ => none

/-- The names of an object that a file spells, each once. -/
def namesIn? (text : List Char) : Option (List Text) :=
  match Json.read (Text.unixLines text) with
  | .ok (.object ms) => some (ms.map (·.1))
  | _ => none

theorem exists_of_namesIn? {names : List Text} (h : namesIn? text = some names) :
    ∃ rs, Spells text (.object rs) ∧ ∀ name ∈ rs.map (·.1), name ∈ names := by
  rw [namesIn?] at h
  split at h
  next ms hread =>
    obtain ⟨raw, hraw, hspells⟩ := Json.readWithin_eq_ok_iff.mp hread
    obtain ⟨rs, rfl, hns⟩ := eq_object_of_members (congrArg (members recordName) hraw)
    refine ⟨rs, hspells, fun name hname => ?_⟩
    rw [← Option.some.inj h, hns.names, List.mem_eraseDups]
    exact hname
  next => cases h

/-- In the one file the last limit counts, and in the other every fault is told at its place. -/
theorem repeatedFile_applied_misspeltFile_refused :
    (∃ rs p, Spells repeatedFile (.object rs) ∧ load repeatedFile = .ok p ∧ Describes rs p ∧
      p.maxDepth = 10 ∧ p.safeIdentifiers = Text.ofStrings ["b", "a", "b"]) ∧
    ∃ rs, Spells misspeltFile (.object rs) ∧ ¬Acceptable rs ∧
      Refuses rs [⟨[.name "offset_unit"], .notUnit⟩, ⟨[.name "max_depth"], .tooSmall 1⟩,
        ⟨[.name "zeta"], .unknownName⟩, ⟨[.name "alpha"], .unknownName⟩] := by
  constructor
  · have hrun : (load repeatedFile).toOption.map (fun p => (p.maxDepth, p.safeIdentifiers)) =
        some (10, Text.ofStrings ["b", "a", "b"]) := by decide +kernel
    obtain ⟨p, hp, hfields⟩ := Option.map_eq_some_iff.mp hrun
    rw [Prod.mk.injEq] at hfields
    have hload := eq_ok_of_toOption hp
    obtain ⟨rs, hspells, -⟩ := (load_complete repeatedFile).1.mp ⟨p, hload⟩
    exact ⟨rs, p, hspells, hload, ((load_complete _).2.1 rs p hspells hload).1, hfields⟩
  · have hnames : namesIn? misspeltFile = some (Text.ofStrings
        ["zeta", "max_depth", "alpha", "offset_unit", "safe_namespaces"]) := by decide +kernel
    have hrefusal : refusal? misspeltFile = some
        [⟨[.name "offset_unit"], .notUnit⟩, ⟨[.name "max_depth"], .tooSmall 1⟩,
          ⟨[.name "zeta"], .unknownName⟩, ⟨[.name "alpha"], .unknownName⟩] := by decide +kernel
    obtain ⟨rs, hspells, hrs⟩ := exists_of_namesIn? hnames
    have hplain : ∀ name ∈ rs.map (·.1), name.Plain := fun name hname => by
      obtain ⟨s, -, rfl⟩ := List.mem_map.mp (hrs name hname)
      exact Text.plain_ofString s
    have hunacceptable : ¬Acceptable rs := fun hrs => by
      obtain ⟨p, hp⟩ := (load_complete misspeltFile).1.mpr ⟨rs, hspells, hrs⟩
      rw [refusal?, hp] at hrefusal
      cases hrefusal
    obtain ⟨errors, herrors, hrefuses⟩ :=
      (load_complete misspeltFile).2.2.2.1 rs hspells hplain hunacceptable
    rw [refusal?, herrors] at hrefusal
    exact ⟨rs, hspells, hunacceptable, Option.some.inj hrefusal ▸ hrefuses⟩

end ScriptGate.Policy
