import ScriptGate.Proofs.Json.Grammar
import ScriptGate.Proofs.Number.Whole
import ScriptGate.Proofs.Outcome

/-!
# What the fields of a record hold

A reader of fields either has a result or tells at least one error, and it has one exactly for the
values that hold something of its type. What a value holds is stated here without the readers: an
array of strings holds a set, an object of such arrays holds a table, a string may hold the name of
a unit, and several kinds of values hold a whole number.

## Main definitions

* `Record.Validated.errors`, `Record.Validated.Honest`: the errors against a result, and that there
  is one where there is no result.
* `Record.HoldsSet`, `Record.HoldsTable`, `Record.HoldsInteger`: what a JSON value holds.
* `Record.Reads`: a reader has a result for the values that hold one, and tells why for the others.

## Main results

* `Record.reads_set`, `Record.reads_table`, `Record.reads_nullable`, `Record.reads_unit`,
  `Record.reads_atLeast`: the readers of fields.
-/

namespace ScriptGate.Record

namespace Validated

variable {α β γ : Type} {x : Validated α} {y : Validated β}

/-- The errors that stand against a result. -/
def errors : Validated α → List FieldError
  | valid _ => []
  | invalid es => es

/-- Where no error is told there is a result. -/
def Honest (x : Validated α) : Prop := x.errors = [] → ∃ a, x = valid a

@[simp] theorem errors_map (f : α → β) : (x.map f).errors = x.errors := by
  cases x <;> rfl

@[simp] theorem errors_combine (f : α → β → γ) :
    (combine f x y).errors = x.errors ++ y.errors := by
  cases x <;> cases y <;> simp [combine, errors]

@[simp] theorem errors_under (s : Step) :
    (x.under s).errors = x.errors.map fun e => { e with place := s :: e.place } := by
  cases x <;> rfl

theorem map_eq_valid {f : α → β} {b : β} : x.map f = valid b ↔ ∃ a, x = valid a ∧ f a = b := by
  cases x <;> simp [map]

theorem combine_eq_valid {f : α → β → γ} {c : γ} :
    combine f x y = valid c ↔ ∃ a b, x = valid a ∧ y = valid b ∧ f a b = c := by
  cases x <;> cases y <;> simp [combine]

theorem under_eq_valid {s : Step} {a : α} : x.under s = valid a ↔ x = valid a := by
  cases x <;> simp [under]

theorem andThen_eq_valid {f : α → Validated β} {b : β} :
    x.andThen f = valid b ↔ ∃ a, x = valid a ∧ f a = valid b := by
  cases x <;> simp [andThen]

theorem eq_valid_of_toExcept {a : α} (h : x.toExcept = .ok a) : x = valid a := by
  cases x with
  | valid b => exact congrArg valid (Except.ok.inj h)
  | invalid es => cases h

/-! ### Honesty -/

theorem honest_valid (a : α) : Honest (valid a) := fun _ => ⟨a, rfl⟩

theorem honest_wrong (p : Problem) : Honest (wrong p : Validated α) := fun h => by cases h

theorem Honest.map {f : α → β} (h : x.Honest) : (x.map f).Honest := fun hx => by
  obtain ⟨a, rfl⟩ := h (by simpa using hx)
  exact ⟨f a, rfl⟩

theorem Honest.under {s : Step} (h : x.Honest) : (x.under s).Honest := fun hx => by
  obtain ⟨a, rfl⟩ := h (by simpa using hx)
  exact ⟨a, rfl⟩

theorem Honest.combine {f : α → β → γ} (hx : x.Honest) (hy : y.Honest) :
    (combine f x y).Honest := fun h => by
  rw [errors_combine, List.append_eq_nil_iff] at h
  obtain ⟨a, rfl⟩ := hx h.1
  obtain ⟨b, rfl⟩ := hy h.2
  exact ⟨f a b, rfl⟩

theorem Honest.andThen {f : α → Validated β} (hx : x.Honest) (hf : ∀ a, (f a).Honest) :
    (x.andThen f).Honest := by
  cases x with
  | valid a => exact hf a
  | invalid es => exact fun h => by obtain ⟨a, ha⟩ := hx h; cases ha

theorem Honest.ite {c : Prop} [Decidable c] {y : Validated α} (hx : x.Honest) (hy : y.Honest) :
    (if c then x else y).Honest := by
  split
  next => exact hx
  next => exact hy

theorem Honest.errors_eq_nil_iff (h : x.Honest) : x.errors = [] ↔ ∃ a, x = valid a :=
  ⟨h, by rintro ⟨a, rfl⟩; rfl⟩

/-! ### Fields one after the other -/

theorem seq_eq (f : Validated (α → β)) : f <*> x = combine (fun g a => g a) f x := rfl

theorem functor_map_eq (f : α → β) : f <$> x = x.map f := rfl

theorem seqLeft_eq : x <* y = combine (fun a _ => a) x y := by
  cases x <;> cases y <;> rfl

/-! ### Items and members -/

theorem each_eq_valid {read : α → Validated β} {i : Nat} {as : List α} {bs : List β} :
    each read i as = valid bs ↔ List.Forall₂ (fun a b => read a = valid b) as bs := by
  induction as generalizing i bs with
  | nil => simp [each, eq_comm]
  | cons a as ih =>
    simp only [each, combine_eq_valid, under_eq_valid, ih, List.forall₂_cons_left_iff]
    constructor
    · rintro ⟨b, bs', hb, hbs, rfl⟩
      exact ⟨b, bs', hb, hbs, rfl⟩
    · rintro ⟨b, bs', hb, hbs, rfl⟩
      exact ⟨b, bs', hb, hbs, rfl⟩

theorem eachNamed_eq_valid {read : α → Validated β} {ms : List (Text × α)}
    {ns : List (Text × β)} : eachNamed read ms = valid ns ↔
      List.Forall₂ (fun m n => m.1 = n.1 ∧ read m.2 = valid n.2) ms ns := by
  induction ms generalizing ns with
  | nil => simp [eachNamed, eq_comm]
  | cons m ms ih =>
    simp only [eachNamed, combine_eq_valid, under_eq_valid, ih, List.forall₂_cons_left_iff]
    constructor
    · rintro ⟨b, bs, hb, hbs, rfl⟩
      exact ⟨(m.1, b), bs, ⟨rfl, hb⟩, hbs, rfl⟩
    · rintro ⟨⟨name, b⟩, bs, ⟨rfl, hb⟩, hbs, rfl⟩
      exact ⟨b, bs, hb, hbs, rfl⟩

theorem exists_eachNamed {read : α → Validated β} {ms : List (Text × α)}
    (h : ∀ m ∈ ms, ∃ b, read m.2 = valid b) : ∃ ns, eachNamed read ms = valid ns := by
  induction ms with
  | nil => exact ⟨[], rfl⟩
  | cons m ms ih =>
    obtain ⟨⟨b, hb⟩, hms⟩ := List.forall_mem_cons.mp h
    obtain ⟨ns, hns⟩ := ih hms
    exact ⟨(m.1, b) :: ns, by rw [eachNamed, hb, hns]; rfl⟩

theorem honest_each {read : α → Validated β} {i : Nat} {as : List α}
    (h : ∀ a, (read a).Honest) : (each read i as).Honest := by
  induction as generalizing i with
  | nil => exact honest_valid _
  | cons a as ih => exact (h a).under.combine ih

theorem honest_eachNamed {read : α → Validated β} {ms : List (Text × α)}
    (h : ∀ a, (read a).Honest) : (eachNamed read ms).Honest := by
  induction ms with
  | nil => exact honest_valid _
  | cons m ms ih => exact (h m.2).under.combine ih

end Validated

/-! ### What values hold -/

open Json.Value (get?)

/-- An array of strings holds the set of these. -/
def HoldsSet (v : Json.Value) (ts : List Text) : Prop :=
  ∃ items : List Text, v = .array (items.map .string) ∧ ∀ t, t ∈ ts ↔ t ∈ items

/-- An object of sets holds the table that has each of them under its name. -/
def HoldsTable (v : Json.Value) (t : List (Text × List Text)) : Prop :=
  ∃ ms, v = .object ms ∧ ∀ name, Option.Rel HoldsSet (get? name ms) (t.lookup name)

/-- Null holds nothing, and another value what it holds. -/
def HoldsNullable {α : Type} (holds : Json.Value → α → Prop) (v : Json.Value) : Option α → Prop
  | none => v = .null
  | some a => holds v a

/-- A string that is the name of an offset unit holds it. -/
def HoldsUnit (v : Json.Value) (u : OffsetUnit) : Prop := v = .string u.name

/-- A whole number is held by itself, by a double of this value and by a string that spells it; the
truth values hold one and zero. -/
inductive HoldsInteger : Json.Value → Int → Prop
  | int (n : Int) : HoldsInteger (.int n) n
  | bool (b : Bool) : HoldsInteger (.bool b) (if b then 1 else 0)
  | float {x : Binary64} {n : Int} (h : x.toRat? = some (n : ℚ)) : HoldsInteger (.float x) n
  | string {cs : List Char} {n : Int} (h : Numeral.Spells cs n) :
      HoldsInteger (.string (Text.ofChars cs)) n

variable {α : Type} {v : Json.Value}

/-- An option that is related to some value has one that is related to it. -/
theorem exists_of_rel {β : Type} {R : α → β → Prop} {x : Option α} {y : Option β} {a : α}
    (h : Option.Rel R x y) (hx : x = some a) : ∃ b, y = some b ∧ R a b := by
  cases h with
  | none => cases hx
  | some hab => exact ⟨_, rfl, Option.some.inj hx ▸ hab⟩

/-- The reader has a result for a value that holds one, and it is one that is held; for another
value it tells why. -/
structure Reads (read : Reader α) (v : Json.Value) (holds : α → Prop) : Prop where
  sound : ∀ a, read v = .valid a → holds a
  complete : ∀ a, holds a → ∃ b, read v = .valid b
  honest : (read v).Honest

theorem Reads.errors_eq_nil_iff {read : Reader α} {holds : α → Prop} (h : Reads read v holds) :
    (read v).errors = [] ↔ ∃ a, holds a :=
  h.honest.errors_eq_nil_iff.trans
    ⟨fun ⟨a, ha⟩ => ⟨a, h.sound a ha⟩, fun ⟨a, ha⟩ => h.complete a ha⟩

/-! ### Sets and tables -/

theorem string_eq_valid {t : Text} : string v = .valid t ↔ v = .string t := by
  cases v <;> simp [string, Validated.wrong]

theorem honest_string (v : Json.Value) : (string v).Honest := by
  cases v with
  | string t => exact Validated.honest_valid t
  | _ => exact Validated.honest_wrong _

/-- An array is read as the strings that are its items. -/
theorem arrayOf_string_eq_valid {p : Problem} {ts : List Text} :
    arrayOf p string v = .valid ts ↔ v = .array (ts.map .string) := by
  cases v with
  | array vs =>
    rw [arrayOf, Validated.each_eq_valid, Json.Value.array.injEq, ← List.forall₂_eq_eq_eq,
      List.forall₂_map_right_iff]
    simp only [string_eq_valid]
  | _ => simp [arrayOf, Validated.wrong]

theorem honest_set (v : Json.Value) : (set v).Honest := by
  cases v with
  | array vs => exact Validated.honest_each honest_string
  | _ => exact Validated.honest_wrong _

/-- **The reader of sets.** -/
theorem reads_set (v : Json.Value) : Reads set v (HoldsSet v) where
  sound ts h := ⟨ts, arrayOf_string_eq_valid.mp h, fun _ => Iff.rfl⟩
  complete := by
    rintro ts ⟨items, hitems, -⟩
    exact ⟨items, arrayOf_string_eq_valid.mpr hitems⟩
  honest := honest_set v

/-- Members that are read one by one are found under their names. -/
theorem rel_of_forall₂ {ms : List (Text × Json.Value)} {t : List (Text × List Text)}
    (h : List.Forall₂ (fun m n => m.1 = n.1 ∧ set m.2 = .valid n.2) ms t) (name : Text) :
    Option.Rel HoldsSet (get? name ms) (t.lookup name) := by
  induction h with
  | nil => exact .none
  | @cons m n ms t hmn _ ih =>
    obtain ⟨hname, hset⟩ := hmn
    by_cases hm : m.1 = name
    · have hlookup : List.lookup name (n :: t) = some n.2 := by
        rw [List.lookup_cons, ← hname, hm, BEq.rfl]
      have hget : get? name (m :: ms) = some m.2 := by simp [get?, hm]
      rw [hlookup, hget]
      exact .some ((reads_set m.2).sound _ hset)
    · have hlookup : List.lookup name (n :: t) = t.lookup name := by
        rw [List.lookup_cons, ← hname, beq_false_of_ne (Ne.symm hm)]
      have hget : get? name (m :: ms) = get? name ms := by simp [get?, hm]
      rw [hlookup, hget]
      exact ih

/-- **The reader of tables.** It reads every member, so that the names have to differ for the table
to be what the object holds. -/
theorem reads_table (hv : ∀ ms, v = .object ms → (ms.map (·.1)).Nodup) :
    Reads table v (HoldsTable v) := by
  cases v with
  | object ms =>
    refine ⟨fun t ht => ?_, ?_, Validated.honest_eachNamed honest_set⟩
    · exact ⟨ms, rfl, rel_of_forall₂ (Validated.eachNamed_eq_valid.mp ht)⟩
    · rintro t ⟨ms', hms, hrel⟩
      cases hms
      refine Validated.exists_eachNamed fun m hm => ?_
      obtain ⟨ts, -, hset⟩ := exists_of_rel (hrel m.1) (Json.Value.get?_of_mem (hv ms rfl) hm)
      exact (reads_set m.2).complete ts hset
  | _ =>
    refine ⟨fun t ht => (by cases ht), ?_, Validated.honest_wrong _⟩
    rintro t ⟨ms, hms, -⟩
    cases hms

theorem nullable_of_ne {read : Reader α} (h : v ≠ .null) : nullable read v = (read v).map some := by
  cases v with
  | null => exact absurd rfl h
  | _ => rfl

/-- **The reader of values that may be null.** -/
theorem reads_nullable {read : Reader α} {holds : Json.Value → α → Prop}
    (h : Reads read v (holds v)) : Reads (nullable read) v (HoldsNullable holds v) := by
  by_cases hnull : v = .null
  · subst hnull
    exact ⟨fun a ha => (by cases ha; rfl), fun _ _ => ⟨none, rfl⟩, Validated.honest_valid _⟩
  · have hread : nullable read v = (read v).map some := nullable_of_ne hnull
    refine ⟨fun a ha => ?_, fun a ha => ?_, hread ▸ h.honest.map⟩
    · obtain ⟨b, hb, rfl⟩ := Validated.map_eq_valid.mp (hread ▸ ha)
      exact h.sound b hb
    · cases a with
      | none => exact absurd ha hnull
      | some b =>
        obtain ⟨c, hc⟩ := h.complete b ha
        exact ⟨some c, by rw [hread, hc]; rfl⟩

/-! ### Units and whole numbers -/

/-- **The reader of units.** -/
theorem reads_unit (v : Json.Value) : Reads unit v (HoldsUnit v) where
  sound u hu := by
    cases v with
    | string t =>
      simp only [unit] at hu
      split at hu
      next => cases hu
      next =>
        split at hu
        next ht => cases hu; rw [ht]; rfl
        next =>
          split at hu
          next ht => cases hu; rw [ht]; rfl
          next => cases hu
    | _ => cases hu
  complete := by
    rintro u rfl
    exact ⟨u, by cases u <;> rfl⟩
  honest := by
    cases v with
    | string t =>
      refine .ite (Validated.honest_wrong _) (.ite (Validated.honest_valid _) ?_)
      exact .ite (Validated.honest_valid _) (Validated.honest_wrong _)
    | _ => exact Validated.honest_wrong _

theorem holdsInteger_string {t : Text} {n : Int} :
    HoldsInteger (.string t) n ↔ ∃ cs, t = Text.ofChars cs ∧ Numeral.Spells cs n := by
  constructor
  · intro h
    cases h with
    | string h => exact ⟨_, rfl, h⟩
  · rintro ⟨cs, rfl, h⟩
    exact .string h

theorem holdsInteger_float {x : Binary64} {n : Int} :
    HoldsInteger (.float x) n ↔ x.toRat? = some (n : ℚ) := by
  constructor
  · intro h
    cases h with
    | float h => exact h
  · exact .float

theorem integer_float {x : Binary64} {n : Int} :
    integer (.float x) = .valid n ↔ x.toInt? = some n := by
  cases x with
  | finite negative m e =>
    simp only [integer, Binary64.isFinite]
    cases (Binary64.finite negative m e).toInt? <;> simp [Validated.wrong]
  | _ => simp [integer, Binary64.isFinite, Binary64.toInt?, Validated.wrong]

theorem integer_string {cs : List Char} {n : Int} :
    integer (.string (Text.ofChars cs)) = .valid n ↔
      integerOfText? (Text.ofChars cs) = some n := by
  have hplain := Text.plain_iff_not_isBroken.mp (Text.plain_ofChars cs)
  simp only [integer, hplain, Bool.false_eq_true, if_false]
  cases integerOfText? (Text.ofChars cs) <;> simp [Validated.wrong]

/-- **A value is read as the whole number that it holds.** -/
theorem integer_eq_valid {n : Int} : integer v = .valid n ↔ HoldsInteger v n := by
  cases v with
  | float x => rw [integer_float, holdsInteger_float, Binary64.toInt?_eq_some_iff]
  | string t =>
    rw [holdsInteger_string]
    constructor
    · intro h
      have hbroken : isBroken t = false := by
        rw [Bool.eq_false_iff]
        intro hbroken
        simp [integer, hbroken, Validated.wrong] at h
      obtain ⟨cs, rfl⟩ := Text.plain_iff.mp (Text.plain_iff_not_isBroken.mpr hbroken)
      exact ⟨cs, rfl, Numeral.integerOfText?_eq_some_iff.mp (integer_string.mp h)⟩
    · rintro ⟨cs, rfl, h⟩
      exact integer_string.mpr (Numeral.integerOfText?_eq_some_iff.mpr h)
  | int m => exact ⟨fun h => (by cases h; exact .int _), fun h => (by cases h; rfl)⟩
  | bool b => exact ⟨fun h => (by cases h; exact .bool b), fun h => (by cases h; rfl)⟩
  | _ => exact ⟨fun h => (by cases h), fun h => (by cases h)⟩

theorem honest_integer (v : Json.Value) : (integer v).Honest := by
  cases v with
  | float x =>
    refine .ite (Validated.honest_wrong _) ?_
    cases x.toInt? with
    | none => exact Validated.honest_wrong _
    | some n => exact Validated.honest_valid n
  | string t =>
    refine .ite (Validated.honest_wrong _) ?_
    cases integerOfText? t with
    | none => exact Validated.honest_wrong _
    | some n => exact Validated.honest_valid n
  | int n => exact Validated.honest_valid n
  | bool b => exact Validated.honest_valid _
  | _ => exact Validated.honest_wrong _

/-- **The reader of numbers with a lower bound.** -/
theorem reads_atLeast (minimum : Nat) (v : Json.Value) :
    Reads (atLeast minimum) v fun n => HoldsInteger v n.1 where
  sound a ha := by
    obtain ⟨n, hn, ha⟩ := Validated.andThen_eq_valid.mp ha
    split at ha
    next hle =>
      cases ha
      rw [Int.toNat_of_nonneg hle.2]
      exact integer_eq_valid.mp hn
    next => cases ha
  complete a ha := by
    refine ⟨a, Validated.andThen_eq_valid.mpr ⟨a.1, integer_eq_valid.mpr ha, ?_⟩⟩
    simp [a.2]
  honest := by
    refine (honest_integer v).andThen fun n => ?_
    split
    next => exact Validated.honest_valid _
    next => exact Validated.honest_wrong _

/-! ### Fields -/

section Fields

variable {ms : List (Text × Json.Value)} {name : String} {otherwise a : α} {read : Reader α}

theorem fieldOr_of_some (h : get? name ms = some v) :
    fieldOr ms name otherwise read = (read v).under (.name name) := by
  rw [fieldOr, h]

theorem fieldOr_of_none (h : get? name ms = none) :
    fieldOr ms name otherwise read = .valid otherwise := by
  rw [fieldOr, h]

theorem honest_fieldOr (h : ∀ v, get? name ms = some v → (read v).Honest) :
    (fieldOr ms name otherwise read).Honest := by
  cases hget : get? name ms with
  | none => exact fieldOr_of_none hget ▸ Validated.honest_valid _
  | some v => exact fieldOr_of_some hget ▸ (h v hget).under

theorem errors_onlyNames (ms : List (Text × Json.Value)) (names : List String) :
    (onlyNames ms names).errors =
      (ms.filter fun m => m.1 ∉ Text.ofStrings names).map
        fun m => ⟨[.name m.1], .unknownName⟩ := by
  rw [onlyNames]
  split
  next h => rw [h]; rfl
  next => rfl

theorem honest_onlyNames (ms : List (Text × Json.Value)) (names : List String) :
    (onlyNames ms names).Honest := by
  rw [onlyNames]
  split
  next => exact Validated.honest_valid _
  next h => exact fun herrors => absurd (List.map_eq_nil_iff.mp herrors) h

end Fields

end ScriptGate.Record
