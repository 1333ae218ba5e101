import Mathlib.Algebra.Group.Nat.Defs
import ScriptGate.Batch.Format
import ScriptGate.Proofs.Record.Fields

/-!
# The batch format is what is parsed

Two tests stand between a payload and its requests: the rules of the format, and the reader of
records, which has rules of its own. They never disagree. A payload has requests if and only if it
spells an array of objects that describe them; a value that keeps the rules of the format is always
read as a record. All other payloads are refused as malformed, but for those in which a whole number
has too many digits to be read.

## Main definitions

* `Batch.Describes`: an object that describes a request.

## Main results

* `Batch.requestRule_settle_eq_nil_iff`: an object keeps the rules if and only if it describes a
  request.
* `Batch.record_settle`: an object that describes a request is read as this request.
* `Batch.parse_iff_describes`: a payload has the requests that its objects describe.
-/

namespace ScriptGate

open Json (Decodes LongRun)

namespace Json.Value

variable {v : Value}

theorem settle_eq_string {t : Text} : v.settle = .string t ↔ v = .string t := by
  cases v <;> simp [settle, ofMembers]

theorem settle_eq_array {ws : List Value} :
    v.settle = .array ws ↔ ∃ vs, v = .array vs ∧ vs.map settle = ws := by
  cases v <;> simp [settle, ofMembers, settleItems_eq]

theorem settle_eq_strings {ts : List Text} :
    v.settle = .array (ts.map .string) ↔ v = .array (ts.map .string) := by
  rw [settle_eq_array]
  constructor
  · rintro ⟨vs, rfl, hvs⟩
    have hsame : vs.map settle = vs.map id → vs = ts.map .string := fun h => by
      rw [← hvs, h, List.map_id]
    refine congrArg array (hsame (List.map_congr_left fun w hw => ?_))
    obtain ⟨t, -, ht⟩ := List.mem_map.mp (hvs ▸ List.mem_map_of_mem hw)
    rw [← ht, settle_eq_string.mp ht.symm]
    rfl
  · rintro rfl
    exact ⟨_, rfl, by rw [List.map_map]; rfl⟩

end Json.Value

namespace Batch

open Json.Value (get? last? settle)

variable {v : Json.Value} {vs : List Json.Value} {ms : List (Text × Json.Value)} {r : Request}

/-- The object describes the request. Its names are among those of the format; the last script in it
is that of the request, and so are the last variables, if there are any. -/
def Describes (v : Json.Value) (r : Request) : Prop :=
  ∃ ms, v = .object ms ∧ (∀ name ∈ ms.map (·.1), name ∈ memberNames) ∧
    last? "script" ms = some (.string r.script) ∧
    (last? "allowedVariables" ms = none ∧ r.allowedVariables = [] ∨
      last? "allowedVariables" ms = some (.array (r.allowedVariables.map .string)))

/-! ### The rules of the format -/

theorem under_eq_nil {s : Record.Step} {es : List Violation} : under s es = [] ↔ es = [] :=
  List.map_eq_nil_iff

theorem itemsRule_eq_nil_iff {rule : Json.Value → List Violation} {i : Nat} :
    itemsRule rule i vs = [] ↔ ∀ v ∈ vs, rule v = [] := by
  induction vs generalizing i with
  | nil => simp [itemsRule]
  | cons v vs ih => rw [itemsRule, List.append_eq_nil_iff, under_eq_nil, ih, List.forall_mem_cons]

theorem stringRule_eq_nil_iff : stringRule v = [] ↔ ∃ t, v = .string t := by
  cases v <;> simp [stringRule, wrongType]

theorem variablesRule_eq_nil_iff :
    variablesRule v = [] ↔ ∃ ts : List Text, v = .array (ts.map .string) := by
  cases v with
  | array vs =>
    have hstrings : (∀ v ∈ vs, ∃ t, v = .string t) ↔ ∃ ts : List Text, vs = ts.map .string := by
      induction vs with
      | nil => exact ⟨fun _ => ⟨[], rfl⟩, fun _ => by simp⟩
      | cons v vs ih =>
        rw [List.forall_mem_cons, ih]
        constructor
        · rintro ⟨⟨t, rfl⟩, ts, rfl⟩
          exact ⟨t :: ts, rfl⟩
        · rintro ⟨_ | ⟨t, ts⟩, hts⟩
          · cases hts
          · cases hts
            exact ⟨⟨t, rfl⟩, ts, rfl⟩
    simpa [variablesRule, itemsRule_eq_nil_iff, stringRule_eq_nil_iff] using hstrings
  | _ => simp [variablesRule, wrongType]

theorem memberRule_eq_nil_iff {name : String} {rule : Json.Value → List Violation} :
    memberRule name rule ms = [] ↔ ∀ v, get? name ms = some v → rule v = [] := by
  rw [memberRule]
  cases get? name ms with
  | none => simp
  | some v => simp [under_eq_nil]

theorem unexpectedNames_eq_nil_iff :
    unexpectedNames ms = [] ↔ ∀ name ∈ ms.map (·.1), name ∈ memberNames := by
  have hset (ts : List Text) : Text.sortedSet ts = [] ↔ ts = [] := by
    simp [Text.sortedSet, List.eq_nil_iff_forall_not_mem]
  rw [unexpectedNames, hset, List.filter_eq_nil_iff]
  simp

theorem requestRule_object_eq_nil_iff :
    requestRule (.object ms) = [] ↔ (∀ name ∈ ms.map (·.1), name ∈ memberNames) ∧
      (∃ t, get? "script" ms = some (.string t)) ∧
      ∀ v, get? "allowedVariables" ms = some v → ∃ ts : List Text, v = .array (ts.map .string) := by
  simp only [requestRule, List.append_eq_nil_iff, memberRule_eq_nil_iff, stringRule_eq_nil_iff,
    variablesRule_eq_nil_iff, ← unexpectedNames_eq_nil_iff]
  cases get? "script" ms with
  | none => simp
  | some v =>
    cases unexpectedNames ms <;> simp

/-- **An object keeps the rules if and only if it describes a request.** -/
theorem requestRule_settle_eq_nil_iff : requestRule v.settle = [] ↔ ∃ r, Describes v r := by
  cases v with
  | object ms =>
    obtain ⟨ns, hns, hget, hnames⟩ := Json.Value.settle_object ms
    rw [hns, requestRule_object_eq_nil_iff, hget, hget]
    simp only [hnames, List.mem_eraseDups, Option.map_eq_some_iff, Json.Value.settle_eq_string]
    constructor
    · rintro ⟨hmembers, ⟨t, w, hw, rfl⟩, hvariables⟩
      cases hlast : last? "allowedVariables" ms with
      | none => exact ⟨⟨t, []⟩, ms, rfl, hmembers, hw, .inl ⟨hlast, rfl⟩⟩
      | some u =>
        obtain ⟨ts, hts⟩ := hvariables u.settle ⟨u, hlast, rfl⟩
        obtain rfl := Json.Value.settle_eq_strings.mp hts
        exact ⟨⟨t, ts⟩, ms, rfl, hmembers, hw, .inr hlast⟩
    · rintro ⟨r, ms', hms, hmembers, hscript, hvariables⟩
      cases hms
      refine ⟨hmembers, ⟨r.script, _, hscript, rfl⟩, ?_⟩
      rintro _ ⟨u, hu, rfl⟩
      rcases hvariables with ⟨hnone, -⟩ | hsome
      · rw [hnone] at hu
        cases hu
      · obtain rfl := Option.some.inj (hsome.symm.trans hu)
        exact ⟨r.allowedVariables, Json.Value.settle_eq_strings.mpr rfl⟩
  | _ => simp [settle, requestRule, wrongType, Describes, Json.Value.settleItems_eq]

/-! ### Records -/

/-- **An object that describes a request is read as this request.** The reader of records knows the
variables by a second name, which the format does not allow. -/
theorem record_settle (h : Describes v r) : Request.record v.settle = .valid r := by
  obtain ⟨ms, rfl, hmembers, hscript, hvariables⟩ := h
  obtain ⟨ns, hns, hget, hnames⟩ := Json.Value.settle_object ms
  have hfield : Record.field ns "script" Record.string = .valid r.script := by
    rw [Record.field, hget, hscript]
    rfl
  have hother : get? "allowed_variables" ns = none :=
    Json.Value.get?_eq_none fun h =>
      absurd (hmembers _ (List.mem_eraseDups.mp (hnames ▸ h))) (by decide)
  have hvariable : Request.variablesField ns = .valid r.allowedVariables := by
    rw [Request.variablesField, hget]
    rcases hvariables with ⟨hnone, hempty⟩ | hsome
    · rw [hnone, hempty, Record.fieldOr, hother]
      rfl
    · have htuple : Record.tuple (settle (.array (r.allowedVariables.map .string))) =
          .valid r.allowedVariables :=
        Record.arrayOf_string_eq_valid.mpr (Json.Value.settle_eq_strings.mpr rfl)
      rw [Record.field, hget, hsome]
      simp only [Option.map_some, htuple]
      rfl
  rw [hns, Request.record, Record.members, Record.Validated.andThen, Request.ofMembers, hfield,
    hvariable]
  rfl

/-! ### Payloads -/

theorem violations_settle_eq_nil_iff :
    violations v.settle = [] ↔ ∃ items, v = .array items ∧ ∀ w ∈ items, ∃ r, Describes w r := by
  cases v with
  | array vs =>
    simp [settle, violations, Json.Value.settleItems_eq, itemsRule_eq_nil_iff,
      requestRule_settle_eq_nil_iff]
  | _ => simp [settle, violations, wrongType, Json.Value.ofMembers]

/-- Objects that describe requests are read as these requests. -/
theorem requests_settle {requests : List Request} (h : List.Forall₂ Describes vs requests) :
    Batch.requests (settle (.array vs)) = .ok requests := by
  rw [settle, Json.Value.settleItems_eq, Batch.requests]
  induction h with
  | nil => rfl
  | cons hr _ ih =>
    rw [List.map_cons, List.mapM_cons, ih, record_settle hr]
    rfl

theorem exists_requests (h : ∀ w ∈ vs, ∃ r, Describes w r) :
    ∃ requests, List.Forall₂ Describes vs requests := by
  induction vs with
  | nil => exact ⟨[], .nil⟩
  | cons w vs ih =>
    obtain ⟨⟨r, hr⟩, hvs⟩ := List.forall_mem_cons.mp h
    obtain ⟨requests, hrequests⟩ := ih hvs
    exact ⟨r :: requests, .cons hr hrequests⟩

theorem errors_builtIn_eq_nil_iff : errors .builtIn v = [] ↔ violations v = [] :=
  List.map_eq_nil_iff

/-- What becomes of a payload: it has the requests that its objects describe, it is refused as
malformed, or a whole number in it has too many digits. -/
theorem parse_cases (payload : List Char) :
    (∃ items requests, Decodes (some Numeral.maxDigits) payload (.array items) ∧
        List.Forall₂ Describes items requests ∧ parse .builtIn payload = .ok requests) ∨
      (∃ m, parse .builtIn payload = .error (.malformed m)) ∨
      ∃ digits, LongRun (some Numeral.maxDigits) digits payload ∧
        parse .builtIn payload = .error (.unreadable (.longInteger digits)) := by
  rw [parse]
  cases hread : Json.read payload with
  | error e =>
    cases e with
    | malformed f line column pos => exact .inr (.inl ⟨_, rfl⟩)
    | longInteger digits => exact .inr (.inr ⟨digits, Json.run_of_longInteger hread, rfl⟩)
  | ok v =>
    dsimp only
    split
    next herrors =>
      obtain ⟨raw, rfl, hdecodes⟩ := Json.readWithin_eq_ok_iff.mp hread
      obtain ⟨items, rfl, hitems⟩ :=
        violations_settle_eq_nil_iff.mp (errors_builtIn_eq_nil_iff.mp herrors)
      obtain ⟨requests, hrequests⟩ := exists_requests hitems
      exact .inl ⟨items, requests, hdecodes, hrequests, requests_settle hrequests⟩
    next => exact .inr (.inl ⟨_, rfl⟩)

theorem parse_of_describes {payload : List Char} {requests : List Request}
    (hdecodes : Decodes (some Numeral.maxDigits) payload (.array vs))
    (h : List.Forall₂ Describes vs requests) : parse .builtIn payload = .ok requests := by
  have hread : Json.read payload = .ok (settle (.array vs)) :=
    Json.readWithin_eq_ok_iff.mpr ⟨_, rfl, hdecodes⟩
  have hitems : ∀ w ∈ vs, ∃ r, Describes w r := fun w hw => by
    obtain ⟨r, -, hr⟩ := exists_of_mem_right (R := fun r w => Describes w r) h.flip hw
    exact ⟨r, hr⟩
  have herrors : errors .builtIn (settle (.array vs)) = [] :=
    errors_builtIn_eq_nil_iff.mpr (violations_settle_eq_nil_iff.mpr ⟨vs, rfl, hitems⟩)
  simp only [parse, hread, herrors, requests_settle h]

/-- **A payload has the requests that its objects describe.** It has requests if and only if it
spells an array of objects that describe them, one for each and in their order. If no run of digits
in it is too long to be read as a number, every other payload is refused as malformed. Such a run is
the only other way to fail; no payload keeps the format and is no list of records. -/
theorem parse_iff_describes (payload : List Char) :
    (∀ requests, parse .builtIn payload = .ok requests ↔
      ∃ items, Decodes (some Numeral.maxDigits) payload (.array items) ∧
        List.Forall₂ Describes items requests) ∧
    ((∀ digits, ¬LongRun (some Numeral.maxDigits) digits payload) →
      (∃ requests, parse .builtIn payload = .ok requests) ∨
        ∃ m, parse .builtIn payload = .error (.malformed m)) ∧
    ∀ e, parse .builtIn payload = .error e → (∃ m, e = .malformed m) ∨
      ∃ digits, e = .unreadable (.longInteger digits) ∧
        LongRun (some Numeral.maxDigits) digits payload := by
  refine ⟨fun requests => ⟨fun h => ?_, fun ⟨items, hdecodes, hitems⟩ =>
    parse_of_describes hdecodes hitems⟩, fun hshort => ?_, fun e he => ?_⟩
  · rcases parse_cases payload with ⟨items, others, hdecodes, hitems, hok⟩ | ⟨m, hm⟩ | ⟨k, -, hk⟩
    · obtain rfl := Except.ok.inj (hok.symm.trans h)
      exact ⟨items, hdecodes, hitems⟩
    · cases hm.symm.trans h
    · cases hk.symm.trans h
  · rcases parse_cases payload with ⟨-, requests, -, -, hok⟩ | hm | ⟨k, hrun, -⟩
    · exact .inl ⟨requests, hok⟩
    · exact .inr hm
    · exact absurd hrun (hshort k)
  · rcases parse_cases payload with ⟨-, requests, -, -, hok⟩ | ⟨m, hm⟩ | ⟨k, hrun, hk⟩
    · cases hok.symm.trans he
    · exact .inl ⟨m, Except.error.inj (he.symm.trans hm)⟩
    · exact .inr ⟨k, Except.error.inj (he.symm.trans hk), hrun⟩

/-- A payload in which a script is written twice, at first as a number. -/
def repeatedPayload : List Char :=
  ("[\x7b\"script\": 0, \"script\": \"a\", \"allowedVariables\": [\"b\"]\x7d, " ++
    "\x7b\"script\": \"c\"\x7d]").toList

/-- A payload in which the variables go by their second name. -/
def aliasPayload : List Char :=
  "[\x7b\"script\": \"a\", \"allowed_variables\": []\x7d]".toList

/-- The second script counts. The second name for the variables is refused, though the reader of
records knows it. -/
theorem repeatedPayload_describes :
    (∃ items, Decodes (some Numeral.maxDigits) repeatedPayload (.array items) ∧
      List.Forall₂ Describes items [⟨"a", ["b"]⟩, ⟨"c", []⟩]) ∧
    ∃ m, parse .builtIn aliasPayload = .error (.malformed m) := by
  constructor
  · exact ((parse_iff_describes repeatedPayload).1 _).mp (eq_ok_of_toOption (by decide +kernel))
  · have hnone : (parse .builtIn aliasPayload).toOption = none := by decide +kernel
    obtain ⟨requests, hok⟩ | hm := (parse_iff_describes aliasPayload).2.1 fun digits hrun => by
      obtain ⟨hlimit, run, hrun, rfl, -⟩ := hrun
      have hle := hrun.length_le
      have hlength : aliasPayload.length ≤ 100 := by decide +kernel
      have hlt : 4300 < run.length := by simpa [Numeral.maxDigits] using hlimit
      omega
    · rw [hok] at hnone
      cases hnone
    · exact hm

/-- The payload with one whole number, in which the digits are all that is read. -/
def numberPayload (n : Nat) : List Char := '[' :: (Nat.toDigits 10 n ++ [']'])

/-- A number with too many digits stops the reader. -/
theorem parse_numberPayload {n : Nat} (h : Numeral.maxDigits < (Nat.toDigits 10 n).length) :
    parse .builtIn (numberPayload n) =
      .error (.unreadable (.longInteger (Nat.toDigits 10 n).length)) := by
  obtain ⟨d, ds, hds, hd, -⟩ := Json.toDigits_cons n
  have hnumeric : Json.Numeric (Nat.toDigits 10 n) := ⟨d, ds, hds, .inl hd⟩
  have hbracket : Json.Cursor.skipBlanks ⟨0, numberPayload n⟩ = ⟨0, numberPayload n⟩ :=
    Json.skipBlanks_cons rfl
  have hnext : Json.Cursor.next ⟨0, numberPayload n⟩ = ⟨1, Nat.toDigits 10 n ++ [']']⟩ :=
    Json.skipBlanks_opens Json.blanks_nil hnumeric.opens
  have hopen : ¬Json.Cursor.At ⟨1, Nat.toDigits 10 n ++ [']']⟩ ']' := by
    rintro ⟨tail, htail⟩
    have hnumeral : Json.Numeric (Nat.toDigits 10 n ++ [']']) := hnumeric.append
    obtain ⟨x, rest, hcons, -, hx, -⟩ := hnumeral.opens
    exact hx (List.cons.inj (hcons.symm.trans htail)).1
  have hitems (fuel : Nat) : Json.items (some Numeral.maxDigits) (fuel + 2)
      ⟨1, Nat.toDigits 10 n ++ [']']⟩ = .error (.longInteger (Nat.toDigits 10 n).length) := by
    rw [Json.items, hnumeric.append.value_eq,
      Json.number_longInteger (by simp [Json.Ends]) (by simpa using h)]
    rfl
  have hvalue (fuel : Nat) : Json.value (some Numeral.maxDigits) (fuel + 3) ⟨0, numberPayload n⟩ =
      .error (.longInteger (Nat.toDigits 10 n).length) := by
    rw [Json.value_array ⟨_, rfl⟩ (hnext ▸ hopen), hnext, hitems]
    rfl
  have hread : Json.read (numberPayload n) = .error (.longInteger (Nat.toDigits 10 n).length) := by
    obtain ⟨fuel, hfuel⟩ : ∃ fuel, 2 * (numberPayload n).length + 2 = fuel + 3 :=
      ⟨2 * (Nat.toDigits 10 n ++ [']']).length + 1, by rw [numberPayload, List.length_cons]; omega⟩
    have hmark : (numberPayload n).head? ≠ some '\uFEFF' := by simp [numberPayload]
    rw [Json.read, Json.readWithin, Json.document, if_neg hmark, hbracket, hfuel, hvalue]
    rfl
  rw [parse, hread]

/-- Whatever number it holds, the payload is JSON text. -/
theorem read_numberPayload (n : Nat) :
    Json.readWithin none (numberPayload n) = .ok (.array [.int n]) := by
  have hnumber : Json.Reads none (.int n) (Text.ofNat n).toChars := Json.Reads.int (n := n) rfl
  have hitems := Json.ReadsItems.last hnumber Json.blanks_nil
  rw [List.append_nil, Json.toChars_ofNat] at hitems
  exact (Json.Reads.array Json.blanks_nil hitems).readWithin (by simp)

/-- The digits of a power of ten are one more than its exponent. -/
theorem length_toDigits_pow (k : Nat) : (Nat.toDigits 10 (10 ^ k)).length = k + 1 := by
  refine Nat.le_antisymm ?_ (Nat.lt_of_not_le fun h => ?_)
  · exact (Nat.length_toDigits_le_iff (by decide) (by omega)).mpr
      (Nat.pow_lt_pow_right (by decide) (by omega))
  · have hpos : 0 < k := Nat.lt_of_lt_of_le Nat.length_toDigits_pos h
    exact Nat.lt_irrefl _ ((Nat.length_toDigits_le_iff (by decide) hpos).mp h)

/-- The first power of ten that has too many digits is JSON text in an array, but the payload is not
refused as malformed. -/
theorem power_unreadable :
    parse .builtIn (numberPayload (10 ^ Numeral.maxDigits)) =
        .error (.unreadable (.longInteger (Numeral.maxDigits + 1))) ∧
      Json.readWithin none (numberPayload (10 ^ Numeral.maxDigits)) =
        .ok (.array [.int (10 ^ Numeral.maxDigits : Nat)]) := by
  have hlength := length_toDigits_pow Numeral.maxDigits
  refine ⟨?_, read_numberPayload _⟩
  rw [parse_numberPayload (by rw [hlength]; exact Nat.lt_succ_self _), hlength]

end Batch

end ScriptGate
