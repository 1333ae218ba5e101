import Mathlib.Data.List.Induction
import Mathlib.Data.List.Nodup
import ScriptGate.Proofs.Json.Reading
import ScriptGate.Proofs.Outcome

/-!
# What a JSON text spells

The reader stands against a grammar. A text spells a value, in which objects keep all members that
are written, also those with one name; the reader gives this value with every object reduced to the
last value of each name. It reads every text that spells a value, and no other. What stops it is a
fault, or a whole number with more digits than are allowed, and these digits stand in the text.

## Main definitions

* `Json.Value.settle`: a value with the last value of each name only.
* `Json.Spells`: the grammar of values, items and members.
* `Json.Decodes`: a text that spells a value.
* `Json.LongRun`: a text with more digits in a row than are allowed.

## Main results

* `Json.Spells.readBy`: what is spelled is read.
* `Json.readsSpelled`: what is read is spelled.
* `Json.readWithin_eq_ok_iff`: a text is read if and only if it spells a value.
* `Json.run_of_longInteger`: a whole number that stops the reader stands in the text.
-/

namespace ScriptGate.Json

/-! ### Members with one name -/

namespace Value

mutual

/-- The value with every object reduced to the last value of each name. -/
def settle : Value → Value
  | .array vs => .array (settleItems vs)
  | .object ms => .ofMembers (settleMembers ms)
  | v => v

/-- The items with their objects reduced. -/
def settleItems : List Value → List Value
  | [] => []
  | v :: vs => v.settle :: settleItems vs

/-- The members with the objects in their values reduced. -/
def settleMembers : List (Text × Value) → List (Text × Value)
  | [] => []
  | (name, v) :: ms => (name, v.settle) :: settleMembers ms

end

theorem settleItems_eq (vs : List Value) : settleItems vs = vs.map settle := by
  induction vs with
  | nil => rfl
  | cons v vs ih => rw [settleItems, ih, List.map_cons]

theorem settleMembers_eq (ms : List (Text × Value)) :
    settleMembers ms = ms.map fun m => (m.1, m.2.settle) := by
  induction ms with
  | nil => rfl
  | cons m ms ih => rw [settleMembers, ih, List.map_cons]

/-- The last value of a name. -/
def last? (name : Text) (ms : List (Text × Value)) : Option Value :=
  (ms.reverse.find? fun m => m.1 = name).map (·.2)

theorem get?_put {name key : Text} {v : Value} {ms : List (Text × Value)} :
    get? name (put key v ms) = if key = name then some v else get? name ms := by
  induction ms with
  | nil => by_cases hkey : key = name <;> simp [put, get?, hkey]
  | cons m ms ih =>
    by_cases hm : m.1 = key
    · by_cases hkey : key = name <;> simp [put, get?, hm, hkey]
    · rw [put, if_neg hm]
      by_cases hname : m.1 = name
      · have hkey : key ≠ name := fun h => hm (hname.trans h.symm)
        simp [get?, hname, hkey]
      · simpa [get?, hname] using ih

/-- **Of members with one name the last value counts.** -/
theorem get?_foldl_put {name : Text} {ms : List (Text × Value)} :
    get? name (ms.foldl (fun acc m => put m.1 m.2 acc) []) = last? name ms := by
  rw [List.foldl_eq_foldr_reverse, last?]
  induction ms.reverse with
  | nil => rfl
  | cons m ms ih =>
    rw [List.foldr_cons, get?_put, List.find?_cons, ih]
    by_cases hm : m.1 = name <;> simp [hm]

theorem names_put {key : Text} {v : Value} {ms : List (Text × Value)} :
    (put key v ms).map (·.1) =
      if key ∈ ms.map (·.1) then ms.map (·.1) else ms.map (·.1) ++ [key] := by
  induction ms with
  | nil => simp [put]
  | cons m ms ih =>
    by_cases hm : m.1 = key
    · simp [put, hm]
    · rw [put, if_neg hm, List.map_cons, ih]
      have hmem : key ∈ (m :: ms).map (·.1) ↔ key ∈ ms.map (·.1) := by
        simp [Ne.symm hm]
      simp only [hmem]
      split <;> rfl

/-- The names of an object are those that are written, in the order in which they first come. -/
theorem names_foldl_put (ms : List (Text × Value)) :
    (ms.foldl (fun acc m => put m.1 m.2 acc) []).map (·.1) = (ms.map (·.1)).eraseDups := by
  induction ms using List.reverseRecOn with
  | nil => rfl
  | append_singleton ms m ih =>
    rw [List.foldl_append, List.foldl_cons, List.foldl_nil, names_put, ih, List.map_append,
      List.eraseDups_append]
    simp only [List.map_cons, List.map_nil, List.removeAll, List.filter_cons, List.filter_nil,
      List.mem_eraseDups, List.elem_eq_mem]
    by_cases hm : m.1 ∈ ms.map (·.1)
    · simp [hm]
    · simp [hm, List.eraseDups_cons]

theorem nodup_foldl_put (ms : List (Text × Value)) :
    ((ms.foldl (fun acc m => put m.1 m.2 acc) []).map (·.1)).Nodup := by
  induction ms using List.reverseRecOn with
  | nil => exact List.nodup_nil
  | append_singleton ms m ih =>
    rw [List.foldl_append, List.foldl_cons, List.foldl_nil, names_put]
    split
    next => exact ih
    next hm => exact List.concat_eq_append ▸ ih.concat hm

variable {v : Value} {ms : List (Text × Value)} {name : Text}

theorem get?_eq_none (h : name ∉ ms.map (·.1)) : get? name ms = none := by
  rw [get?, List.find?_eq_none.mpr fun m hm => ?_]
  · rfl
  · simpa using fun hname => h (List.mem_map.mpr ⟨m, hm, hname⟩)

theorem get?_of_mem {m : Text × Value} (h : (ms.map (·.1)).Nodup) (hm : m ∈ ms) :
    get? m.1 ms = some m.2 := by
  induction ms with
  | nil => cases hm
  | cons m' ms ih =>
    rw [List.map_cons, List.nodup_cons] at h
    rcases List.mem_cons.mp hm with rfl | hm
    · simp [get?]
    · have hne : m'.1 ≠ m.1 := fun heq => h.1 (heq ▸ List.mem_map_of_mem hm)
      simpa [get?, hne] using ih h.2 hm

/-- What is read of an object under a name is the last value that is written, and its names come in
the order in which they are first written. -/
theorem settle_object (ms : List (Text × Value)) : ∃ ns, settle (.object ms) = .object ns ∧
    (∀ name, get? name ns = (last? name ms).map settle) ∧
    ns.map (·.1) = (ms.map (·.1)).eraseDups := by
  refine ⟨_, rfl, fun name => ?_, ?_⟩
  · rw [get?_foldl_put, settleMembers_eq, last?, last?, ← List.map_reverse, List.find?_map,
      Option.map_map, Option.map_map]
    rfl
  · rw [names_foldl_put, settleMembers_eq, List.map_map]
    rfl

/-- An object that is read has no name twice. -/
theorem nodup_of_settle {ns : List (Text × Value)} (h : v.settle = .object ns) :
    (ns.map (·.1)).Nodup := by
  cases v with
  | object ms =>
    cases h
    exact nodup_foldl_put _
  | _ => cases h

end Value

/-! ### The grammar -/

/-- The cursor stands at the character. -/
def Cursor.At (c : Cursor) (x : Char) : Prop := ∃ tail, c.rest = x :: tail

/-- The cursor past a character and the blanks after it. -/
def Cursor.next (c : Cursor) : Cursor := (c.skip 1).skipBlanks

/-- The second cursor is further on in the text. -/
def Cursor.Before (c d : Cursor) : Prop := d.rest <:+ c.rest ∧ d.rest.length < c.rest.length

/-- A string stands between the cursors. -/
def Quotes (c : Cursor) (t : Text) (d : Cursor) : Prop :=
  c.At '"' ∧ scanString c.pos (c.pos + 1) (c.skip 1).rest [] = .ok (t, d)

/-- What the grammar speaks of: a value, the inside of an array or the inside of an object. -/
inductive Part where
  | value (v : Value)
  | items (vs : List Value)
  | members (ms : List (Text × Value))

/-- The text between the cursors spells the part. The inside of an array or an object goes up to and
including its closing bracket. -/
inductive Spells (limit : Option Nat) : Cursor → Part → Cursor → Prop
  | string {c d : Cursor} {t : Text} (h : Quotes c t d) : Spells limit c (.value (.string t)) d
  | word {c d : Cursor} {v : Value} (h : word? c = some (v, d)) : Spells limit c (.value v) d
  | number {c d : Cursor} {v : Value} (h : number limit c = .ok (v, d)) :
      Spells limit c (.value v) d
  | noItems {c : Cursor} (hopen : c.At '[') (hclose : c.next.At ']') :
      Spells limit c (.value (.array [])) (c.next.skip 1)
  | array {c d : Cursor} {vs : List Value} (hopen : c.At '[')
      (h : Spells limit c.next (.items vs) d) : Spells limit c (.value (.array vs)) d
  | noMembers {c : Cursor} (hopen : c.At '{') (hclose : c.next.At '}') :
      Spells limit c (.value (.object [])) (c.next.skip 1)
  | object {c d : Cursor} {ms : List (Text × Value)} (hopen : c.At '{')
      (h : Spells limit c.next (.members ms) d) : Spells limit c (.value (.object ms)) d
  | lastItem {c d : Cursor} {v : Value} (h : Spells limit c (.value v) d)
      (hclose : d.skipBlanks.At ']') : Spells limit c (.items [v]) (d.skipBlanks.skip 1)
  | item {c d e : Cursor} {v : Value} {vs : List Value} (h : Spells limit c (.value v) d)
      (hcomma : d.skipBlanks.At ',') (hrest : Spells limit d.skipBlanks.next (.items vs) e) :
      Spells limit c (.items (v :: vs)) e
  | lastMember {c d e : Cursor} {name : Text} {v : Value} (hname : Quotes c name d)
      (hcolon : d.skipBlanks.At ':') (h : Spells limit d.skipBlanks.next (.value v) e)
      (hclose : e.skipBlanks.At '}') :
      Spells limit c (.members [(name, v)]) (e.skipBlanks.skip 1)
  | member {c d e f : Cursor} {name : Text} {v : Value} {ms : List (Text × Value)}
      (hname : Quotes c name d) (hcolon : d.skipBlanks.At ':')
      (h : Spells limit d.skipBlanks.next (.value v) e) (hcomma : e.skipBlanks.At ',')
      (hrest : Spells limit e.skipBlanks.next (.members ms) f) :
      Spells limit c (.members ((name, v) :: ms)) f

/-- The whole text spells the value: there is no mark at its head, and nothing but blanks around the
value. -/
def Decodes (limit : Option Nat) (cs : List Char) (v : Value) : Prop :=
  cs.head? ≠ some '\uFEFF' ∧
    ∃ d, Spells limit (Cursor.skipBlanks ⟨0, cs⟩) (.value v) d ∧ d.skipBlanks.rest = []

/-- In the text stands a run of so many digits, which are too many. -/
def LongRun (limit : Option Nat) (k : Nat) (cs : List Char) : Prop :=
  limit.any (· < k) ∧ ∃ run, run <:+: cs ∧ run.length = k ∧ ∀ x ∈ run, x.isDigit

/-! ### Tokens -/

section Tokens

variable {limit : Option Nat} {c d : Cursor} {v : Value} {x : Char}

namespace Cursor

variable {e : Cursor} {y : Char}

theorem At.eq (hx : c.At x) (hy : c.At y) : x = y := by
  obtain ⟨tail, htail⟩ := hx
  obtain ⟨other, hother⟩ := hy
  exact (List.cons.inj (htail.symm.trans hother)).1

theorem at_iff : c.At x ↔ c.rest.head? = some x := List.head?_eq_some_iff.symm

theorem Before.trans (h : c.Before d) (h' : d.Before e) : c.Before e :=
  ⟨h'.1.trans h.1, Nat.lt_trans h'.2 h.2⟩

theorem Before.skipBlanks (h : c.Before d) : c.Before d.skipBlanks :=
  have hsuffix : d.skipBlanks.rest <:+ d.rest := List.drop_suffix ..
  ⟨hsuffix.trans h.1, Nat.lt_of_le_of_lt hsuffix.length_le h.2⟩

theorem At.before_skip (h : c.At x) : c.Before (c.skip 1) := by
  obtain ⟨tail, htail⟩ := h
  exact ⟨List.drop_suffix .., by simp [Cursor.skip, htail]⟩

theorem At.before_next (h : c.At x) : c.Before c.next := h.before_skip.skipBlanks

end Cursor

/-- A string takes at least its closing quote. -/
theorem scanString_suffix {begin pos : Nat} {cs : List Char} {acc t : Text}
    (h : scanString begin pos cs acc = .ok (t, d)) :
    d.rest <:+ cs ∧ d.rest.length < cs.length := by
  have hstep {cs : List Char} (taken : List Char)
      (h : d.rest <:+ cs ∧ d.rest.length < cs.length) :
      d.rest <:+ taken ++ cs ∧ d.rest.length < (taken ++ cs).length :=
    ⟨h.1.trans (List.suffix_append ..), by rw [List.length_append]; omega⟩
  fun_induction scanString begin pos cs acc with
  | case1 => cases h
  | case2 pos cs acc =>
    cases h
    exact ⟨List.suffix_cons .., by simp⟩
  | case3 pos a b c d cs acc n hn hcs ih => exact hstep ['\\', 'u', a, b, c, d] (ih h)
  | case4 => cases h
  | case5 => cases h
  | case6 => cases h
  | case7 => cases h
  | case8 pos c cs acc hcs hc x hx ih => exact hstep ['\\', c] (ih h)
  | case9 => cases h
  | case10 pos c cs acc _ _ _ _ _ hc ih => exact hstep [c] (ih h)

theorem Quotes.before {t : Text} (h : Quotes c t d) : c.Before d :=
  have hstring : (c.skip 1).Before d := scanString_suffix h.2
  h.1.before_skip.trans hstring

theorem scanString_ne_longInteger {begin pos k : Nat} {cs : List Char} {acc : Text} :
    scanString begin pos cs acc ≠ .error (.longInteger k) := by
  fun_induction scanString begin pos cs acc with
  | case3 _ _ _ _ _ _ _ _ _ _ ih => exact ih
  | case8 _ _ _ _ _ _ _ _ ih => exact ih
  | case10 _ _ _ _ _ _ _ _ _ _ ih => exact ih
  | _ => simp

theorem word?_eq_some (h : word? c = some (v, d)) :
    ∃ w ∈ words, w.1 <+: c.rest ∧ v = w.2 ∧ d = c.skip w.1.length := by
  obtain ⟨w, hw, hd⟩ := Option.map_eq_some_iff.mp h
  have hbegins : w.1.isPrefixOf c.rest := by simpa using List.find?_some hw
  obtain ⟨hv, hd⟩ := Prod.mk.inj hd
  exact ⟨w, List.mem_of_find?_eq_some hw, List.isPrefixOf_iff_prefix.mp hbegins, hv.symm, hd.symm⟩

theorem word?_before (h : word? c = some (v, d)) : c.Before d := by
  obtain ⟨w, hw, ⟨rest, hrest⟩, -, rfl⟩ := word?_eq_some h
  have hwords : ∀ w ∈ words, 0 < w.1.length := by decide
  have hpos := hwords w hw
  refine ⟨List.drop_suffix .., ?_⟩
  simp only [Cursor.skip, ← hrest, List.drop_left, List.length_append]
  omega

/-- Words hold no members. -/
theorem settle_word (h : word? c = some (v, d)) : v.settle = v := by
  obtain ⟨w, hw, -, rfl, -⟩ := word?_eq_some h
  simp only [words, List.mem_cons, List.not_mem_nil, or_false] at hw
  rcases hw with rfl | rfl | rfl | rfl | rfl | rfl <;> rfl

/-- The cursor past a minus sign, if it stands at one. -/
def Cursor.unsigned (c : Cursor) : Cursor := if c.rest.head? = some '-' then c.skip 1 else c

theorem wholePart_eq_some {cs whole : List Char} (h : wholePart cs = some whole) :
    whole <+: cs ∧ whole ≠ [] ∧ ∀ x ∈ whole, x.isDigit := by
  unfold wholePart at h
  split at h
  · cases h
    exact ⟨⟨_, rfl⟩, by simp, List.forall_mem_singleton.mpr rfl⟩
  · have hdigits : ∀ x ∈ takeDigits cs, x.isDigit := List.all_eq_true.mp List.all_takeWhile
    split at h
    next => cases h
    next ds hne =>
      cases h
      exact ⟨List.takeWhile_prefix _, hne, hdigits⟩

/-- A number is at fault, has too many digits, or is read past its whole part. -/
theorem number_cases (limit : Option Nat) (c : Cursor) :
    number limit c = .error (.fault .noValue c.pos) ∨
      ∃ whole, wholePart c.unsigned.rest = some whole ∧
        (number limit c = .error (.longInteger whole.length) ∧ limit.any (· < whole.length) ∨
          ∃ v d, number limit c = .ok (v, d) ∧ v.settle = v ∧
            d.rest <:+ (c.unsigned.skip whole.length).rest) := by
  have hskip (s : Cursor) (k : Nat) : (s.skip k).rest <:+ s.rest := List.drop_suffix ..
  simp only [number, Cursor.unsigned]
  generalize (if c.rest.head? = some '-' then c.skip 1 else c) = s
  cases hwhole : wholePart s.rest with
  | none => exact .inl rfl
  | some whole =>
    refine .inr ⟨whole, rfl, ?_⟩
    dsimp only
    cases fractionPart (s.skip whole.length).rest with
    | none =>
      dsimp only
      cases exponentPart (s.skip whole.length).rest with
      | none =>
        dsimp only
        split
        next hlimit => exact .inl ⟨rfl, hlimit⟩
        next => exact .inr ⟨_, _, rfl, rfl, List.suffix_rfl⟩
      | some e => exact .inr ⟨_, _, rfl, rfl, hskip ..⟩
    | some ds =>
      dsimp only
      cases exponentPart ((s.skip whole.length).skip (1 + ds.length)).rest with
      | none => exact .inr ⟨_, _, rfl, rfl, hskip ..⟩
      | some e => exact .inr ⟨_, _, rfl, rfl, (hskip ..).trans (hskip ..)⟩

/-- The whole part of a number stands in the text, and the number begins with it. -/
theorem wholePart_unsigned {whole : List Char} (h : wholePart c.unsigned.rest = some whole) :
    Numeric c.rest ∧ whole <:+: c.rest ∧ c.Before (c.unsigned.skip whole.length) := by
  obtain ⟨hbegins, hne, hdigits⟩ := wholePart_eq_some h
  obtain ⟨rest, hrest⟩ := hbegins
  obtain ⟨x, xs, rfl⟩ := List.exists_cons_of_ne_nil hne
  have hx : x.isDigit := hdigits x (List.mem_cons_self ..)
  have hskip : (c.unsigned.skip (x :: xs).length).rest = rest := by
    rw [Cursor.skip, ← hrest, List.drop_left]
  have hunsigned : c.rest = c.unsigned.rest ∨ c.rest = '-' :: c.unsigned.rest := by
    rw [Cursor.unsigned]
    split
    next hminus =>
      obtain ⟨tail, htail⟩ := List.head?_eq_some_iff.mp hminus
      exact .inr (by simp [Cursor.skip, htail])
    next => exact .inl rfl
  rw [Cursor.Before, hskip]
  rcases hunsigned with hc | hc
  · have hlength : rest.length < (x :: xs ++ rest).length := by
      rw [List.length_append, List.length_cons]
      omega
    rw [hc, ← hrest]
    exact ⟨⟨x, xs ++ rest, rfl, .inl hx⟩, ⟨[], rest, rfl⟩, ⟨_, rfl⟩, hlength⟩
  · have hlength : rest.length < ('-' :: (x :: xs ++ rest)).length := by
      rw [List.length_cons, List.length_append]
      omega
    rw [hc, ← hrest]
    exact ⟨⟨'-', _, rfl, .inr ⟨rfl, x, xs ++ rest, rfl, hx⟩⟩, ⟨['-'], rest, rfl⟩,
      ⟨'-' :: x :: xs, rfl⟩, hlength⟩

theorem number_eq_ok (h : number limit c = .ok (v, d)) :
    Numeric c.rest ∧ c.Before d ∧ v.settle = v := by
  rcases number_cases limit c with hfault | ⟨whole, hwhole, hcases⟩
  · rw [hfault] at h
    cases h
  obtain ⟨hnumeric, -, hsuffix, hlt⟩ := wholePart_unsigned hwhole
  rcases hcases with ⟨hlong, -⟩ | ⟨v', d', hok, hsettle, hd⟩
  · rw [hlong] at h
    cases h
  · rw [hok] at h
    cases h
    exact ⟨hnumeric, ⟨hd.trans hsuffix, Nat.lt_of_le_of_lt hd.length_le hlt⟩, hsettle⟩

/-- A whole number has too many digits only if they stand in the text. -/
theorem number_eq_longInteger {k : Nat} (h : number limit c = .error (.longInteger k)) :
    LongRun limit k c.rest := by
  rcases number_cases limit c with hfault | ⟨whole, hwhole, hcases⟩
  · rw [hfault] at h
    cases h
  rcases hcases with ⟨hlong, hlimit⟩ | ⟨v', d', hok, -⟩
  · rw [hlong] at h
    cases h
    exact ⟨hlimit, whole, (wholePart_unsigned hwhole).2.1, rfl, (wholePart_eq_some hwhole).2.2⟩
  · rw [hok] at h
    cases h

end Tokens

/-! ### What the reader does at a cursor -/

section Reader

variable {limit : Option Nat} {fuel k : Nat} {c d e : Cursor} {v : Value} {vs : List Value}
  {ms : List (Text × Value)}

/-! What stands at the cursor decides what is read. -/

theorem value_at_quote (h : c.At '"') : value limit (fuel + 1) c =
    (scanString c.pos (c.pos + 1) (c.skip 1).rest []).map fun r => (.string r.1, r.2) := by
  obtain ⟨tail, htail⟩ := h
  simp only [value, htail, Cursor.skip, List.drop_succ_cons, List.drop_zero]

theorem value_noItems (hopen : c.At '[') (hclose : c.next.At ']') :
    value limit (fuel + 1) c = .ok (.array [], c.next.skip 1) := by
  obtain ⟨tail, htail⟩ := hopen
  simp only [value, htail]
  exact if_pos (Cursor.at_iff.mp hclose)

theorem value_array (hopen : c.At '[') (h : ¬c.next.At ']') :
    value limit (fuel + 1) c = (items limit fuel c.next).map fun r => (.array r.1, r.2) := by
  obtain ⟨tail, htail⟩ := hopen
  simp only [value, htail]
  exact if_neg (mt Cursor.at_iff.mpr h)

theorem value_noMembers (hopen : c.At '{') (hclose : c.next.At '}') :
    value limit (fuel + 1) c = .ok (.object [], c.next.skip 1) := by
  obtain ⟨tail, htail⟩ := hopen
  simp only [value, htail]
  exact if_pos (Cursor.at_iff.mp hclose)

theorem value_object (hopen : c.At '{') (h : ¬c.next.At '}') :
    value limit (fuel + 1) c = (members limit fuel c.next).map fun r => (.ofMembers r.1, r.2) := by
  obtain ⟨tail, htail⟩ := hopen
  simp only [value, htail]
  exact if_neg (mt Cursor.at_iff.mpr h)

theorem value_at_other (hquote : ¬c.At '"') (hbracket : ¬c.At '[') (hbrace : ¬c.At '{') :
    value limit (fuel + 1) c = match word? c with
      | some r => .ok r
      | none => number limit c := by
  rw [value]
  split
  next tail htail => exact absurd ⟨tail, htail⟩ hquote
  next tail htail => exact absurd ⟨tail, htail⟩ hbracket
  next tail htail => exact absurd ⟨tail, htail⟩ hbrace
  next => rfl

/-- What a value is read as: a string, an array or an object, of which each may be empty, a word or
a number. -/
theorem value_cases (limit : Option Nat) (fuel : Nat) (c : Cursor) :
    (c.At '"' ∧ value limit (fuel + 1) c =
        (scanString c.pos (c.pos + 1) (c.skip 1).rest []).map fun r => (.string r.1, r.2)) ∨
      (c.At '[' ∧ c.next.At ']' ∧ value limit (fuel + 1) c = .ok (.array [], c.next.skip 1)) ∨
      (c.At '[' ∧ value limit (fuel + 1) c =
        (items limit fuel c.next).map fun r => (.array r.1, r.2)) ∨
      (c.At '{' ∧ c.next.At '}' ∧ value limit (fuel + 1) c = .ok (.object [], c.next.skip 1)) ∨
      (c.At '{' ∧ value limit (fuel + 1) c =
        (members limit fuel c.next).map fun r => (.ofMembers r.1, r.2)) ∨
      (∃ r, word? c = some r ∧ value limit (fuel + 1) c = .ok r) ∨
      value limit (fuel + 1) c = number limit c := by
  by_cases hquote : c.At '"'
  · exact .inl ⟨hquote, value_at_quote hquote⟩
  refine .inr ?_
  by_cases hbracket : c.At '['
  · by_cases hclose : c.next.At ']'
    · exact .inl ⟨hbracket, hclose, value_noItems hbracket hclose⟩
    · exact .inr (.inl ⟨hbracket, value_array hbracket hclose⟩)
  refine .inr (.inr ?_)
  by_cases hbrace : c.At '{'
  · by_cases hclose : c.next.At '}'
    · exact .inl ⟨hbrace, hclose, value_noMembers hbrace hclose⟩
    · exact .inr (.inl ⟨hbrace, value_object hbrace hclose⟩)
  refine .inr (.inr ?_)
  rw [value_at_other hquote hbracket hbrace]
  cases word? c with
  | some r => exact .inl ⟨r, rfl, rfl⟩
  | none => exact .inr rfl

/-- No word begins like a string, an array or an object. -/
theorem not_at_of_word {x : Char} (h : word? c = some (v, d)) (hx : x ∈ ['"', '[', '{', ']', '}']) :
    ¬c.At x := by
  rintro ⟨tail, htail⟩
  obtain ⟨w, hw, ⟨rest, hrest⟩, -, -⟩ := word?_eq_some h
  have hwords : words.all fun w =>
      w.1 != [] && ['"', '[', '{', ']', '}'].all (w.1.head? != some ·) := by decide
  obtain ⟨hne, hheads⟩ := (Bool.and_eq_true_iff ..).mp (List.all_eq_true.mp hwords w hw)
  have hhead := List.all_eq_true.mp hheads x hx
  rw [htail] at hrest
  obtain ⟨y, ys, hcons⟩ := List.exists_cons_of_ne_nil (bne_iff_ne.mp hne)
  rw [hcons] at hrest hhead
  exact bne_iff_ne.mp hhead (congrArg some (List.cons.inj hrest).1)

theorem value_of_word (h : word? c = some (v, d)) : value limit (fuel + 1) c = .ok (v, d) := by
  rw [value_at_other (not_at_of_word h (by decide)) (not_at_of_word h (by decide))
    (not_at_of_word h (by decide)), h]

theorem value_of_number (h : number limit c = .ok (v, d)) :
    value limit (fuel + 1) c = .ok (v, d) :=
  (number_eq_ok h).1.value_eq.trans h

/-- The items of an array: a value, and the end of the array or a comma and further items. -/
theorem items_eq_ok_iff : items limit (fuel + 1) c = .ok (vs, e) ↔
    ∃ v d, value limit fuel c = .ok (v, d) ∧
      (d.skipBlanks.At ']' ∧ vs = [v] ∧ e = d.skipBlanks.skip 1 ∨
        d.skipBlanks.At ',' ∧ ∃ ws, items limit fuel d.skipBlanks.next = .ok (ws, e) ∧
          vs = v :: ws) := by
  rw [items]
  constructor
  · intro h
    obtain ⟨⟨v, d⟩, hv, h⟩ := bind_eq_ok h
    refine ⟨v, d, hv, ?_⟩
    dsimp only at h
    split at h
    next tail htail =>
      cases h
      exact .inl ⟨⟨tail, htail⟩, rfl, rfl⟩
    next tail htail =>
      obtain ⟨⟨ws, e'⟩, hws, h⟩ := bind_eq_ok h
      cases h
      exact .inr ⟨⟨tail, htail⟩, ws, hws, rfl⟩
    next => cases h
  · rintro ⟨v, d, hv, ⟨⟨tail, htail⟩, rfl, rfl⟩ | ⟨⟨tail, htail⟩, ws, hws, rfl⟩⟩
    · simp only [hv, bind, Except.bind, htail]
      rfl
    · rw [Cursor.next] at hws
      simp only [hv, bind, Except.bind, htail, hws]
      rfl

/-- The members of an object: a name, a colon and a value, and the end of the object or a comma and
further members. -/
theorem members_eq_ok_iff : members limit (fuel + 1) c = .ok (ms, e) ↔
    ∃ name d v f, Quotes c name d ∧ d.skipBlanks.At ':' ∧
      value limit fuel d.skipBlanks.next = .ok (v, f) ∧
      (f.skipBlanks.At '}' ∧ ms = [(name, v)] ∧ e = f.skipBlanks.skip 1 ∨
        f.skipBlanks.At ',' ∧ ∃ ns, members limit fuel f.skipBlanks.next = .ok (ns, e) ∧
          ms = (name, v) :: ns) := by
  rw [members]
  constructor
  · intro h
    split at h
    next cs hcs =>
      obtain ⟨⟨name, d⟩, hname, h⟩ := bind_eq_ok h
      have hquotes : Quotes c name d := ⟨⟨cs, hcs⟩, by simpa [Cursor.skip, hcs] using hname⟩
      dsimp only at h
      split at h
      next hcolon =>
        obtain ⟨⟨v, f⟩, hv, h⟩ := bind_eq_ok h
        refine ⟨name, d, v, f, hquotes, Cursor.at_iff.mpr hcolon, hv, ?_⟩
        dsimp only at h
        split at h
        next tail htail =>
          cases h
          exact .inl ⟨⟨tail, htail⟩, rfl, rfl⟩
        next tail htail =>
          obtain ⟨⟨ns, e'⟩, hns, h⟩ := bind_eq_ok h
          cases h
          exact .inr ⟨⟨tail, htail⟩, ns, hns, rfl⟩
        next => cases h
      next => cases h
    next => cases h
  · rintro ⟨name, d, v, f, ⟨⟨cs, hcs⟩, hname⟩, hcolon, hv, hcases⟩
    rw [Cursor.next] at hv
    simp only [Cursor.skip, hcs, List.drop_succ_cons, List.drop_zero] at hname
    simp only [hcs, hname, bind, Except.bind, Cursor.at_iff.mp hcolon, if_true, hv]
    rcases hcases with ⟨⟨tail, htail⟩, rfl, rfl⟩ | ⟨⟨tail, htail⟩, ns, hns, rfl⟩
    · simp only [htail]
      rfl
    · rw [Cursor.next] at hns
      simp only [htail, hns]
      rfl

end Reader

/-! ### What is spelled is read -/

section Spells

variable {limit : Option Nat} {c d : Cursor} {p : Part}

theorem Spells.before (h : Spells limit c p d) : c.Before d := by
  induction h with
  | string h => exact h.before
  | word h => exact word?_before h
  | number h => exact (number_eq_ok h).2.1
  | noItems hopen hclose => exact hopen.before_next.trans hclose.before_skip
  | array hopen _ ih => exact hopen.before_next.trans ih
  | noMembers hopen hclose => exact hopen.before_next.trans hclose.before_skip
  | object hopen _ ih => exact hopen.before_next.trans ih
  | lastItem _ hclose ih => exact ih.skipBlanks.trans hclose.before_skip
  | item _ hcomma _ ih ihrest => exact ih.skipBlanks.trans (hcomma.before_next.trans ihrest)
  | lastMember hname hcolon _ hclose ih =>
    have hvalue := hname.before.skipBlanks.trans (hcolon.before_next.trans ih)
    exact hvalue.skipBlanks.trans hclose.before_skip
  | member hname hcolon _ hcomma _ ih ihrest =>
    have hvalue := hname.before.skipBlanks.trans (hcolon.before_next.trans ih)
    exact hvalue.skipBlanks.trans (hcomma.before_next.trans ihrest)

/-- Nothing that is spelled begins with a closing bracket. -/
theorem Spells.not_at {x : Char} (h : Spells limit c p d) (hx : x ∈ [']', '}']) : ¬c.At x := by
  have hne : ∀ y ∈ ['"', '[', '{'], ∀ x ∈ [']', '}'], y ≠ x := by simp
  have hopens {y : Char} {c : Cursor} (hy : y ∈ ['"', '[', '{']) (hat : c.At y) : ¬c.At x :=
    fun h => hne y hy x hx (hat.eq h)
  induction h with
  | string h => exact hopens (by decide) h.1
  | word h => exact not_at_of_word h (List.mem_append_right ['"', '[', '{'] hx)
  | number h =>
    rintro ⟨tail, htail⟩
    obtain ⟨y, rest, hcons, -, hbracket, hbrace⟩ := (number_eq_ok h).1.opens
    obtain ⟨rfl, -⟩ := List.cons.inj (htail.symm.trans hcons)
    simp [hbracket, hbrace] at hx
  | noItems hopen _ => exact hopens (by decide) hopen
  | array hopen _ _ => exact hopens (by decide) hopen
  | noMembers hopen _ => exact hopens (by decide) hopen
  | object hopen _ _ => exact hopens (by decide) hopen
  | lastItem _ _ ih => exact ih
  | item _ _ _ ih _ => exact ih
  | lastMember hname _ _ _ _ => exact hopens (by decide) hname.1
  | member hname _ _ _ _ _ _ => exact hopens (by decide) hname.1

/-- The reader gives the part, with its objects reduced, and ends at the cursor. -/
def Part.ReadBy (limit : Option Nat) (fuel : Nat) (c d : Cursor) : Part → Prop
  | .value v => Json.value limit fuel c = .ok (v.settle, d)
  | .items vs => Json.items limit fuel c = .ok (vs.map Value.settle, d)
  | .members ms => Json.members limit fuel c = .ok (ms.map fun m => (m.1, m.2.settle), d)

/-- The fuel that a part takes if it is spelled by so many characters at most. -/
def Part.cost (length : Nat) : Part → Nat
  | .value _ => 2 * length
  | _ => 2 * length + 1

/-- **What is spelled is read.** -/
theorem Spells.readBy {fuel : Nat} (h : Spells limit c p d) (hfuel : p.cost c.rest.length ≤ fuel) :
    p.ReadBy limit (fuel + 1) c d := by
  induction h generalizing fuel with
  | string h =>
    rw [Part.ReadBy, value_at_quote h.1, h.2]
    rfl
  | word h => rw [Part.ReadBy, value_of_word h, settle_word h]
  | number h => rw [Part.ReadBy, value_of_number h, (number_eq_ok h).2.2]
  | noItems hopen hclose => exact value_noItems hopen hclose
  | array hopen h ih =>
    have hlt := hopen.before_next.2
    simp only [Part.cost] at hfuel ih
    obtain ⟨fuel, rfl⟩ : ∃ k, fuel = k + 1 := ⟨fuel - 1, by omega⟩
    have hitems : items _ (fuel + 1) _ = _ := ih (by omega)
    rw [Part.ReadBy, value_array hopen (h.not_at (by decide)), hitems, Value.settle,
      Value.settleItems_eq]
    rfl
  | noMembers hopen hclose => exact value_noMembers hopen hclose
  | object hopen h ih =>
    have hlt := hopen.before_next.2
    simp only [Part.cost] at hfuel ih
    obtain ⟨fuel, rfl⟩ : ∃ k, fuel = k + 1 := ⟨fuel - 1, by omega⟩
    have hmembers : members _ (fuel + 1) _ = _ := ih (by omega)
    rw [Part.ReadBy, value_object hopen (h.not_at (by decide)), hmembers, Value.settle,
      Value.settleMembers_eq]
    rfl
  | lastItem h hclose ih =>
    simp only [Part.cost] at hfuel ih
    obtain ⟨fuel, rfl⟩ : ∃ k, fuel = k + 1 := ⟨fuel - 1, by omega⟩
    exact items_eq_ok_iff.mpr ⟨_, _, ih (by omega), .inl ⟨hclose, rfl, rfl⟩⟩
  | item h hcomma hrest ih ihrest =>
    have hlt := (h.before.skipBlanks.trans hcomma.before_next).2
    simp only [Part.cost] at hfuel ih ihrest
    obtain ⟨fuel, rfl⟩ : ∃ k, fuel = k + 1 := ⟨fuel - 1, by omega⟩
    exact items_eq_ok_iff.mpr
      ⟨_, _, ih (by omega), .inr ⟨hcomma, _, ihrest (by omega), rfl⟩⟩
  | lastMember hname hcolon h hclose ih =>
    have hlt := (hname.before.skipBlanks.trans hcolon.before_next).2
    simp only [Part.cost] at hfuel ih
    obtain ⟨fuel, rfl⟩ : ∃ k, fuel = k + 1 := ⟨fuel - 1, by omega⟩
    exact members_eq_ok_iff.mpr
      ⟨_, _, _, _, hname, hcolon, ih (by omega), .inl ⟨hclose, rfl, rfl⟩⟩
  | member hname hcolon h hcomma hrest ih ihrest =>
    have hvalue := hname.before.skipBlanks.trans hcolon.before_next
    have hlt := hvalue.2
    have hltrest := ((hvalue.trans h.before).skipBlanks.trans hcomma.before_next).2
    simp only [Part.cost] at hfuel ih ihrest
    obtain ⟨fuel, rfl⟩ : ∃ k, fuel = k + 1 := ⟨fuel - 1, by omega⟩
    exact members_eq_ok_iff.mpr
      ⟨_, _, _, _, hname, hcolon, ih (by omega), .inr ⟨hcomma, _, ihrest (by omega), rfl⟩⟩

end Spells

/-! ### What is read is spelled -/

/-- The reader reads nothing, with so much fuel, but what is spelled. -/
structure ReadsSpelled (limit : Option Nat) (fuel : Nat) : Prop where
  value : ∀ {c d v}, value limit fuel c = .ok (v, d) →
    ∃ raw, Value.settle raw = v ∧ Spells limit c (.value raw) d
  items : ∀ {c d vs}, items limit fuel c = .ok (vs, d) →
    ∃ raw, raw.map Value.settle = vs ∧ Spells limit c (.items raw) d
  members : ∀ {c d ms}, members limit fuel c = .ok (ms, d) →
    ∃ raw, raw.map (fun m => (m.1, m.2.settle)) = ms ∧ Spells limit c (.members raw) d

section Sound

variable {limit : Option Nat} {fuel k : Nat} {c d : Cursor} {v : Value}

theorem spells_of_value (h : ReadsSpelled limit fuel)
    (hread : value limit (fuel + 1) c = .ok (v, d)) :
    ∃ raw, Value.settle raw = v ∧ Spells limit c (.value raw) d := by
  rcases value_cases limit fuel c with ⟨hquote, heq⟩ | ⟨hopen, hclose, heq⟩ | ⟨hopen, heq⟩ |
    ⟨hopen, hclose, heq⟩ | ⟨hopen, heq⟩ | ⟨r, hword, heq⟩ | heq
  all_goals rw [heq] at hread
  · obtain ⟨⟨t, e⟩, hscan, hv⟩ := map_eq_ok hread
    cases hv
    exact ⟨.string t, rfl, .string ⟨hquote, hscan⟩⟩
  · cases hread
    exact ⟨.array [], rfl, .noItems hopen hclose⟩
  · obtain ⟨⟨vs, e⟩, hvs, hv⟩ := map_eq_ok hread
    cases hv
    obtain ⟨raw, rfl, hraw⟩ := h.items hvs
    exact ⟨.array raw, by rw [Value.settle, Value.settleItems_eq], .array hopen hraw⟩
  · cases hread
    exact ⟨.object [], rfl, .noMembers hopen hclose⟩
  · obtain ⟨⟨ms, e⟩, hms, hv⟩ := map_eq_ok hread
    cases hv
    obtain ⟨raw, rfl, hraw⟩ := h.members hms
    exact ⟨.object raw, by rw [Value.settle, Value.settleMembers_eq], .object hopen hraw⟩
  · cases hread
    exact ⟨v, settle_word hword, .word hword⟩
  · exact ⟨v, (number_eq_ok hread).2.2, .number hread⟩

/-- **What is read is spelled.** -/
theorem readsSpelled (limit : Option Nat) (fuel : Nat) : ReadsSpelled limit fuel := by
  induction fuel with
  | zero => exact ⟨nofun, nofun, nofun⟩
  | succ fuel ih =>
    refine ⟨spells_of_value ih, fun hread => ?_, fun hread => ?_⟩
    · obtain ⟨v, d, hv, hcases⟩ := items_eq_ok_iff.mp hread
      obtain ⟨raw, rfl, hraw⟩ := ih.value hv
      rcases hcases with ⟨hclose, rfl, rfl⟩ | ⟨hcomma, ws, hws, rfl⟩
      · exact ⟨[raw], rfl, .lastItem hraw hclose⟩
      · obtain ⟨raws, rfl, hraws⟩ := ih.items hws
        exact ⟨raw :: raws, rfl, .item hraw hcomma hraws⟩
    · obtain ⟨name, d, v, e, hname, hcolon, hv, hcases⟩ := members_eq_ok_iff.mp hread
      obtain ⟨raw, rfl, hraw⟩ := ih.value hv
      rcases hcases with ⟨hclose, rfl, rfl⟩ | ⟨hcomma, ns, hns, rfl⟩
      · exact ⟨[(name, raw)], rfl, .lastMember hname hcolon hraw hclose⟩
      · obtain ⟨raws, rfl, hraws⟩ := ih.members hns
        exact ⟨(name, raw) :: raws, rfl, .member hname hcolon hraw hcomma hraws⟩

end Sound

/-! ### Whole numbers that are too long -/

section LongRun

variable {limit : Option Nat} {fuel k : Nat} {c d : Cursor}

theorem LongRun.of_suffix {cs ds : List Char} (h : LongRun limit k cs) (hs : cs <:+ ds) :
    LongRun limit k ds := by
  obtain ⟨hlimit, run, hrun, hlength, hdigits⟩ := h
  exact ⟨hlimit, run, hrun.trans hs.isInfix, hlength, hdigits⟩

/-- A whole number that stops the reader with so much fuel stands in the text. -/
structure StopsAtRun (limit : Option Nat) (fuel : Nat) : Prop where
  value : ∀ {c k}, value limit fuel c = .error (.longInteger k) → LongRun limit k c.rest
  items : ∀ {c k}, items limit fuel c = .error (.longInteger k) → LongRun limit k c.rest
  members : ∀ {c k}, members limit fuel c = .error (.longInteger k) → LongRun limit k c.rest

theorem run_of_value (h : StopsAtRun limit fuel)
    (hread : value limit (fuel + 1) c = .error (.longInteger k)) : LongRun limit k c.rest := by
  rcases value_cases limit fuel c with ⟨-, heq⟩ | ⟨-, -, heq⟩ | ⟨hopen, heq⟩ | ⟨-, -, heq⟩ |
    ⟨hopen, heq⟩ | ⟨r, -, heq⟩ | heq
  all_goals rw [heq] at hread
  · exact absurd (map_eq_error hread) scanString_ne_longInteger
  · cases hread
  · exact (h.items (map_eq_error hread)).of_suffix hopen.before_next.1
  · cases hread
  · exact (h.members (map_eq_error hread)).of_suffix hopen.before_next.1
  · cases hread
  · exact number_eq_longInteger hread

/-- Every cursor that the reader comes to is further on in the text. -/
theorem before_of_value {v : Value} (h : value limit fuel c = .ok (v, d)) : c.Before d := by
  obtain ⟨raw, -, hraw⟩ := (readsSpelled limit fuel).value h
  exact hraw.before

theorem run_of_items (h : StopsAtRun limit fuel)
    (hread : items limit (fuel + 1) c = .error (.longInteger k)) : LongRun limit k c.rest := by
  rw [items] at hread
  rcases bind_eq_error hread with hvalue | ⟨⟨v, d⟩, hvalue, hread⟩
  · exact h.value hvalue
  have hbefore := (before_of_value hvalue).skipBlanks
  dsimp only at hread
  split at hread
  next => cases hread
  next tail htail =>
    rcases bind_eq_error hread with hitems | ⟨_, -, hread⟩
    · have hcomma : d.skipBlanks.At ',' := ⟨tail, htail⟩
      exact (h.items hitems).of_suffix (hbefore.trans hcomma.before_next).1
    · cases hread
  next => cases hread

theorem run_of_members (h : StopsAtRun limit fuel)
    (hread : members limit (fuel + 1) c = .error (.longInteger k)) : LongRun limit k c.rest := by
  rw [members] at hread
  split at hread
  next cs hcs =>
    rcases bind_eq_error hread with hname | ⟨⟨name, d⟩, hname, hread⟩
    · exact absurd hname scanString_ne_longInteger
    have hquotes : Quotes c name d := ⟨⟨cs, hcs⟩, by simpa [Cursor.skip, hcs] using hname⟩
    dsimp only at hread
    split at hread
    next hcolon =>
      have hcolon : d.skipBlanks.At ':' := Cursor.at_iff.mpr hcolon
      have hbefore := hquotes.before.skipBlanks.trans hcolon.before_next
      rcases bind_eq_error hread with hvalue | ⟨⟨v, e⟩, hvalue, hread⟩
      · exact (h.value hvalue).of_suffix hbefore.1
      have hend := (hbefore.trans (before_of_value hvalue)).skipBlanks
      dsimp only at hread
      split at hread
      next => cases hread
      next tail htail =>
        rcases bind_eq_error hread with hmembers | ⟨_, -, hread⟩
        · have hcomma : e.skipBlanks.At ',' := ⟨tail, htail⟩
          exact (h.members hmembers).of_suffix (hend.trans hcomma.before_next).1
        · cases hread
      next => cases hread
    next => cases hread
  next => cases hread

theorem stopsAtRun (limit : Option Nat) (fuel : Nat) : StopsAtRun limit fuel := by
  induction fuel with
  | zero => exact ⟨nofun, nofun, nofun⟩
  | succ fuel ih => exact ⟨run_of_value ih, run_of_items ih, run_of_members ih⟩

end LongRun

/-! ### Whole texts -/

section Texts

variable {limit : Option Nat} {cs : List Char}

/-- **A text is read if and only if it spells a value**, and it is read as this value with every
object reduced to the last value of each name. -/
theorem readWithin_eq_ok_iff {v : Value} :
    readWithin limit cs = .ok v ↔ ∃ raw, Value.settle raw = v ∧ Decodes limit cs raw := by
  constructor
  · intro h
    have hdocument := mapError_eq_ok h
    rw [document] at hdocument
    split at hdocument
    · cases hdocument
    next hmark =>
      obtain ⟨⟨w, d⟩, hvalue, hdocument⟩ := bind_eq_ok hdocument
      dsimp only at hdocument
      split at hdocument
      next hend =>
        cases hdocument
        obtain ⟨raw, hsettle, hraw⟩ := (readsSpelled limit _).value hvalue
        exact ⟨raw, hsettle, hmark, d, hraw, List.isEmpty_iff.mp hend⟩
      next => cases hdocument
  · rintro ⟨raw, rfl, hmark, d, hraw, hend⟩
    have hlength : (Cursor.skipBlanks ⟨0, cs⟩).rest.length ≤ cs.length :=
      (List.drop_suffix ..).length_le
    have hvalue : value limit (2 * cs.length + 1 + 1) _ = _ :=
      hraw.readBy (by simp only [Part.cost]; omega)
    have hdocument : document limit cs = .ok raw.settle := by
      rw [document, if_neg hmark, hvalue]
      simp only [bind, Except.bind, hend, List.isEmpty_nil, if_true]
      rfl
    rw [readWithin, hdocument]
    rfl

/-- **A whole number that stops the reader stands in the text.** -/
theorem run_of_longInteger {k : Nat} (h : readWithin limit cs = .error (.longInteger k)) :
    LongRun limit k cs := by
  have hstop : document limit cs = .error (.longInteger k) := by
    rw [readWithin] at h
    cases hdocument : document limit cs with
    | ok v =>
      rw [hdocument] at h
      cases h
    | error stop =>
      rw [hdocument] at h
      cases stop with
      | longInteger j =>
        cases h
        rfl
      | fault f pos => cases h
  rw [document] at hstop
  split at hstop
  · cases hstop
  rcases bind_eq_error hstop with hvalue | ⟨⟨v, d⟩, -, hstop⟩
  · exact ((stopsAtRun limit _).value hvalue).of_suffix (List.drop_suffix ..)
  · dsimp only at hstop
    split at hstop
    · cases hstop
    · cases hstop

end Texts

end ScriptGate.Json
