import Mathlib.Data.List.Basic
import ScriptGate.Audit.Entry
import ScriptGate.Proofs.Json.Writing
import ScriptGate.Proofs.Text.Avoiding

/-!
# Reading the audit log

A line of the audit log can be taken apart again, whatever the values of its fields are. The time
ends at the first blank, the operation at the first bracket and a key at the first equals sign. A
value that is not quoted ends at the first blank; all others are strings that a JSON reader reads
back. Hence no value can end a line, begin a field or pass for another value, and the lines of a log
tell the entries that were written, one after the other.

## Main definitions

* `Audit.Entry.shown`, `Audit.Entry.shownLine`: the fields that an entry shows, and its line.
* `Audit.Told`: what a line tells.
* `Audit.readLine?`, `Audit.readLog?`: what a line and a log tell.
* `Audit.Entry.Clear`: an entry whose operation and keys hold no mark.

## Main results

* `Audit.Time.read?_text`: a time is read back.
* `Audit.readValue?_written`: a value is read back, quoted or not.
* `Audit.Entry.Clear.readLine?_body`: an entry is read back from its line.
-/

namespace ScriptGate

namespace Json

theorem val_of_mem_hex {width n : Nat} : ∀ p ∈ Text.hex width n, 0x20 ≤ p.val := by
  have hdigit : ∀ d < 16, 0x20 ≤ (Nat.digitChar d).toNat := by decide
  induction width generalizing n with
  | zero => exact fun p hp => absurd hp List.not_mem_nil
  | succ width ih =>
    intro p hp
    rcases List.mem_append.mp hp with hp | hp
    · exact ih p hp
    · rw [List.mem_singleton.mp hp]
      exact hdigit _ (Nat.mod_lt _ (by decide))

theorem val_of_controlEscape? {c : CodePoint} {e : Text} (h : controlEscape? c = some e) :
    ∀ p ∈ e, 0x20 ≤ p.val := by
  cases c with
  | surrogate k =>
    have hlarge : ¬0xD800 + k.val < 0x20 := by omega
    simp [controlEscape?, CodePoint.val, hlarge] at h
  | char c =>
    by_cases hshort : c ∈ shortEscaped
    · simp only [shortEscaped, List.mem_cons, List.not_mem_nil, or_false] at hshort
      rcases hshort with rfl | rfl | rfl | rfl | rfl | rfl | rfl <;> cases h <;> decide
    · rw [controlEscape?_of_not_mem hshort] at h
      split at h
      · cases h
        exact List.forall_mem_append.mpr ⟨by decide, val_of_mem_hex⟩
      · cases h

/-- **A quoted string holds no control.** -/
theorem val_of_mem_quote {t : Text} : ∀ p ∈ quote t, 0x20 ≤ p.val := by
  refine List.forall_mem_append.mpr
    ⟨List.forall_mem_cons.mpr ⟨by decide, fun p hp => ?_⟩, by decide⟩
  obtain ⟨c, -, hp⟩ := List.mem_flatMap.mp hp
  cases hescape : controlEscape? c with
  | some e =>
    rw [hescape] at hp
    exact val_of_controlEscape? hescape p hp
  | none =>
    rw [hescape] at hp
    rw [List.mem_singleton.mp hp]
    cases c with
    | char c => exact (of_controlEscape?_eq_none hescape).2.2
    | surrogate k => exact Nat.le_add_right_of_le (by decide)

theorem avoids_quote {c : Char} (hc : c.toNat < 0x20) (t : Text) : (quote t).Avoids c := fun h =>
  absurd (val_of_mem_quote _ h) (Nat.not_le.mpr hc)

end Json

namespace Audit

/-! ### What entries show -/

/-- The fields that an entry shows: those that have a value. -/
def Entry.shown (e : Entry) : List (Text × FieldValue) :=
  e.fields.filterMap fun f => f.2.map (f.1, ·)

/-- A line that shows the time, the operation and the fields that have a value. -/
def Entry.shownLine (e : Entry) (now : Time) : Text :=
  Text.join " " (now.text :: ("[" ++ e.operation ++ "]") ::
    e.shown.map fun f => f.1 ++ ("=" : Text) ++ f.2.written) ++ "\n"

theorem Entry.line_eq_shownLine : Entry.line = Entry.shownLine := by
  funext e now
  have hfields : e.fields.filterMap fieldText =
      e.shown.map fun f => f.1 ++ ("=" : Text) ++ f.2.written := by
    rw [Entry.shown, List.map_filterMap]
    simp only [Option.map_map]
    rfl
  rw [Entry.line, Entry.shownLine, hfields]

/-! ### Reading a line -/

/-- What stands before the first `mark`, and what stands after it. -/
def cutAt? {α : Type} [DecidableEq α] (mark : α) (l : List α) : Option (List α × List α) :=
  match l.dropWhile (· ≠ mark) with
  | [] => none
  | _ :: rest => some (l.takeWhile (· ≠ mark), rest)

theorem cutAt?_append {α : Type} [DecidableEq α] {mark : α} {before : List α}
    (h : mark ∉ before) (rest : List α) :
    cutAt? mark (before ++ mark :: rest) = some (before, rest) := by
  have hne : ∀ x ∈ before, decide (x ≠ mark) = true := fun x hx =>
    decide_eq_true fun heq => h (heq ▸ hx)
  rw [cutAt?, List.dropWhile_append_of_pos hne, List.takeWhile_append_of_pos hne]
  simp

/-- The time that characters tell: six numerals with marks between them and one after them. -/
def Time.read? (cs : List Char) : Option Time :=
  match (cs.splitOnP (!·.isDigit)).map Json.digitsValue with
  | [year, month, day, hour, minute, second, _] => some ⟨year, month, day, hour, minute, second⟩
  | _ => none

/-- The value at the front of characters, and what stands after it. It is a JSON string, or ends at
a blank. -/
def readValue? (cs : List Char) : Option (Text × List Char) :=
  match ['"'].isPrefixOf? cs with
  | some cs =>
    match Json.scanString 0 0 cs [] with
    | .ok (t, cursor) => some (t, cursor.rest)
    | .error _ => none
  | none => some (.ofChars (cs.takeWhile (· ≠ ' ')), cs.dropWhile (· ≠ ' '))

/-- Keys and values, each pair after a blank. Every pair takes at least one character, so the number
of characters is enough fuel. -/
def readPairs : (fuel : Nat) → List Char → Option (List (Text × Text))
  | _, [] => some []
  | 0, _ => none
  | fuel + 1, cs => do
    let cs ← [' '].isPrefixOf? cs
    let (key, cs) ← cutAt? '=' cs
    let (value, cs) ← readValue? cs
    let rest ← readPairs fuel cs
    some ((.ofChars key, value) :: rest)

/-- What a line of the log tells. -/
structure Told where
  time : Time
  operation : Text
  pairs : List (Text × Text)
  deriving DecidableEq, Repr

/-- What a line tells; its end is left out. -/
def readLine? (line : Text) : Option Told := do
  let (stamp, rest) ← cutAt? (.char ' ') line
  let time ← Time.read? (Text.toChars stamp)
  let rest ← [.char '['].isPrefixOf? rest
  let (operation, rest) ← cutAt? (.char ']') rest
  let pairs ← readPairs rest.length (Text.toChars rest)
  some ⟨time, operation, pairs⟩

/-- What the lines of a log tell, one after the other. Every line has to be ended. -/
def readLog? (log : Text) : Option (List Told) :=
  match log.getLast? with
  | none => some []
  | some c =>
    if c = .char '\n' then (log.dropLast.splitOn (.char '\n')).mapM readLine? else none

/-! ### Times -/

/-- The characters are digits and spell the number. -/
structure Spelled (n : Nat) (cs : List Char) : Prop where
  digits : ∀ c ∈ cs, c.isDigit
  value : Json.digitsValue cs = n

theorem spelled_ofNat (n : Nat) : Spelled n (Text.ofNat n).toChars := by
  rw [Json.toChars_ofNat]
  exact ⟨fun c hc => Nat.isDigit_of_mem_toDigits (by decide) (by decide) hc,
    Json.digitsValue_toDigits n⟩

theorem Spelled.zeros {n : Nat} {cs : List Char} (h : Spelled n cs) (k : Nat) :
    Spelled n (List.replicate k '0' ++ cs) := by
  refine ⟨fun c hc => ?_, ?_⟩
  · rcases List.mem_append.mp hc with hc | hc
    · rw [List.eq_of_mem_replicate hc]
      decide
    · exact h.digits c hc
  · rw [← h.value, Json.digitsValue, List.foldl_append, Json.digitsValue]
    congr 1
    induction k with
    | zero => rfl
    | succ k ih => exact ih

theorem spelled_padded (width n : Nat) : Spelled n (Text.padded width n).toChars := by
  have hzeros (k : Nat) : Text.toChars (List.replicate k (.char '0')) = List.replicate k '0' :=
    List.map_replicate
  rw [Text.padded, Text.toChars_append, hzeros]
  exact (spelled_ofNat n).zeros _

/-- A numeral is what stands before the first mark. -/
theorem Spelled.split {n : Nat} {cs : List Char} (h : Spelled n cs) {mark : Char}
    (hmark : mark.isDigit = false) (rest : List Char) :
    ((cs ++ mark :: rest).splitOnP (!·.isDigit)).map Json.digitsValue =
      n :: (rest.splitOnP (!·.isDigit)).map Json.digitsValue := by
  rw [List.splitOnP_append_cons_of_forall_mem (fun c hc => by simp [h.digits c hc]) mark
    (by simp [hmark]), List.map_cons, h.value]

theorem Time.toChars_text (t : Time) : t.text.toChars =
    (Text.ofNat t.year).toChars ++ '-' :: ((Text.padded 2 t.month).toChars ++ '-' ::
      ((Text.padded 2 t.day).toChars ++ 'T' :: ((Text.padded 2 t.hour).toChars ++ ':' ::
        ((Text.padded 2 t.minute).toChars ++ ':' ::
          ((Text.padded 2 t.second).toChars ++ 'Z' :: []))))) := by
  have hdash : Text.toChars "-" = ['-'] := rfl
  have hcolon : Text.toChars ":" = [':'] := rfl
  have hletter : Text.toChars "T" = ['T'] ∧ Text.toChars "Z" = ['Z'] := ⟨rfl, rfl⟩
  simp only [Time.text, Text.toChars_append, List.append_assoc, hdash, hcolon, hletter,
    List.singleton_append]

/-- **A time is read back.** -/
theorem Time.read?_text (t : Time) : Time.read? t.text.toChars = some t := by
  rw [Time.read?, Time.toChars_text, (spelled_ofNat _).split rfl, (spelled_padded _ _).split rfl,
    (spelled_padded _ _).split rfl, (spelled_padded _ _).split rfl, (spelled_padded _ _).split rfl,
    (spelled_padded _ _).split rfl]
  rfl

theorem Time.avoids_text {c : Char} (hc : c.isDigit = false) (hmarks : c ∉ ['-', 'T', ':', 'Z'])
    (t : Time) : t.text.Avoids c := by
  have hmark (d : Char) (hd : d ∈ ['-', 'T', ':', 'Z']) : Text.Avoids c [.char d] :=
    .cons (fun h => hmarks (h ▸ hd)) Text.avoids_nil
  have hpadded (n : Nat) := Text.avoids_padded hc 2 n
  exact .append (.append (.append (.append (.append (.append (.append (.append (.append (.append
    (.append (Text.avoids_ofNat hc _) (hmark '-' (by decide))) (hpadded _)) (hmark '-' (by decide)))
    (hpadded _)) (hmark 'T' (by decide))) (hpadded _)) (hmark ':' (by decide))) (hpadded _))
    (hmark ':' (by decide))) (hpadded _)) (hmark 'Z' (by decide))

theorem Time.plain_text (t : Time) : t.text.Plain := by
  have hpadded (n : Nat) : (Text.padded 2 n).Plain :=
    (Text.plain_iff.mpr ⟨List.replicate _ '0', List.map_replicate.symm⟩).append
      (Text.plain_ofString _)
  have hmark (s : String) := Text.plain_ofString s
  exact .append (.append (.append (.append (.append (.append (.append (.append (.append (.append
    (.append (hmark _) (hmark _)) (hpadded _)) (hmark _)) (hpadded _)) (hmark _)) (hpadded _))
    (hmark _)) (hpadded _)) (hmark _)) (hpadded _)) (hmark _)

/-! ### Values and pairs -/

/-- **A value is read back**, quoted or not, if a blank or nothing follows it. -/
theorem readValue?_written {v : FieldValue} (hv : v.plain.Plain) {rest : List Char}
    (hrest : rest.head?.all (· = ' ')) :
    readValue? (v.written.toChars ++ rest) = some (v.plain, rest) := by
  obtain ⟨cs, hcs⟩ := Text.plain_iff.mp hv
  rw [FieldValue.written, hcs]
  split
  case isTrue =>
    rw [Json.toChars_quote, readValue?]
    simp only [List.cons_append, List.append_assoc, List.nil_append, List.isPrefixOf?, BEq.rfl,
      if_true, Json.scanString_plainBody]
  case isFalse hquiet =>
    have hfree : ∀ c ∈ cs, c ≠ ' ' ∧ c ≠ '"' := by
      intro c hc
      have hc' : CodePoint.char c ∈ Text.ofChars cs := List.mem_map_of_mem hc
      constructor
      · rintro rfl
        exact hquiet (List.any_eq_true.mpr ⟨_, hc', by decide⟩)
      · rintro rfl
        exact hquiet (List.any_eq_true.mpr ⟨_, hc', by decide⟩)
    have hpositive : ∀ c ∈ cs, decide (c ≠ ' ') = true := fun c hc => decide_eq_true (hfree c hc).1
    have hopen : ['"'].isPrefixOf? (cs ++ rest) = none := by
      cases cs with
      | nil =>
        cases rest with
        | nil => rfl
        | cons c rest =>
          obtain rfl : c = ' ' := by simpa using hrest
          rfl
      | cons c cs =>
        have hc : ('"' == c) = false := by simpa using (hfree c (by simp)).2.symm
        simp [List.isPrefixOf?, hc]
    have hstop : rest.takeWhile (· ≠ ' ') = [] ∧ rest.dropWhile (· ≠ ' ') = rest := by
      cases rest with
      | nil => exact ⟨rfl, rfl⟩
      | cons c rest =>
        obtain rfl : c = ' ' := by simpa using hrest
        exact ⟨rfl, rfl⟩
    rw [Text.toChars_ofChars, readValue?, hopen]
    dsimp only
    rw [List.takeWhile_append_of_pos hpositive, List.dropWhile_append_of_pos hpositive, hstop.1,
      hstop.2, List.append_nil]

theorem plain_integer (n : Int) : (FieldValue.integer n).plain.Plain := Json.plain_ofInt n

theorem plain_written {v : FieldValue} (hv : v.plain.Plain) : v.written.Plain := by
  rw [FieldValue.written]
  split
  · exact Json.plain_quote hv
  · exact hv

/-- A value in an entry holds no control. -/
theorem avoids_written {c : Char} (hc : c ∈ ['\r', '\n']) (v : FieldValue) :
    v.written.Avoids c := by
  rw [FieldValue.written]
  split
  case isTrue =>
    refine Json.avoids_quote ?_ _
    rcases List.mem_pair.mp hc with rfl | rfl <;> decide
  case isFalse hquiet =>
    refine fun hmem => hquiet (List.any_eq_true.mpr ⟨_, hmem, ?_⟩)
    rcases List.mem_pair.mp hc with rfl | rfl <;> decide

/-- A field as it stands in a line, after a blank. -/
def pairText (f : Text × FieldValue) : Text := .char ' ' :: (f.1 ++ ("=" : Text) ++ f.2.written)

theorem toChars_pairText (f : Text × FieldValue) :
    (pairText f).toChars = ' ' :: (f.1.toChars ++ '=' :: f.2.written.toChars) := by
  have hequals : Text.toChars "=" = ['='] := rfl
  change ' ' :: Text.toChars (f.1 ++ ("=" : Text) ++ f.2.written) = _
  rw [Text.toChars_append, Text.toChars_append, hequals, List.append_assoc, List.singleton_append]

/-- **Pairs are read back.** -/
theorem readPairs_pairText {fs : List (Text × FieldValue)}
    (hfs : ∀ f ∈ fs, f.1.Plain ∧ f.1.Avoids '=' ∧ f.2.plain.Plain) {fuel : Nat}
    (hfuel : fs.length ≤ fuel) :
    readPairs fuel (Text.toChars (fs.flatMap pairText)) =
      some (fs.map fun f => (f.1, f.2.plain)) := by
  induction fs generalizing fuel with
  | nil => rw [List.flatMap_nil, Text.toChars, List.map_nil, readPairs, List.map_nil]
  | cons f fs ih =>
    obtain ⟨fuel, rfl⟩ := Nat.exists_eq_add_one_of_ne_zero (Nat.ne_zero_of_lt hfuel)
    obtain ⟨⟨hkey, hequals, hvalue⟩, hrest⟩ := List.forall_mem_cons.mp hfs
    obtain ⟨key, hkey⟩ := Text.plain_iff.mp hkey
    rw [hkey, Text.avoids_ofChars_iff] at hequals
    have hnext : (Text.toChars (fs.flatMap pairText)).head?.all (· = ' ') := by
      cases fs with
      | nil => rfl
      | cons g fs => rw [List.flatMap_cons, Text.toChars_append, toChars_pairText]; rfl
    have hih := ih hrest (Nat.le_of_succ_le_succ hfuel)
    simp only [List.flatMap_cons, Text.toChars_append, toChars_pairText, hkey, Text.toChars_ofChars,
      List.cons_append, List.append_assoc, readPairs, List.isPrefixOf?, BEq.rfl, if_true,
      Option.bind_eq_bind, Option.bind_some, cutAt?_append hequals, readValue?_written hvalue hnext,
      hih, List.map_cons]

theorem length_le_length_pairText (fs : List (Text × FieldValue)) :
    fs.length ≤ (fs.flatMap pairText).length := by
  induction fs with
  | nil => exact Nat.le_refl 0
  | cons f fs ih =>
    rw [List.flatMap_cons, List.length_append, List.length_cons]
    have hblank : 1 ≤ (pairText f).length := Nat.le_add_left 1 _
    omega

/-! ### Lines -/

namespace Entry

/-- The pairs of a key and a text that an entry shows. -/
def pairs (e : Entry) : List (Text × Text) := e.shown.map fun f => (f.1, f.2.plain)

/-- What the line of an entry tells. -/
def told (e : Entry) (now : Time) : Told := ⟨now, e.operation, e.pairs⟩

/-- The line of an entry without its end. -/
def body (e : Entry) (now : Time) : Text :=
  now.text ++ .char ' ' :: .char '[' :: (e.operation ++ .char ']' :: e.shown.flatMap pairText)

/-- The operation of an entry holds neither a closing bracket nor a line break, its keys hold no
delimiter, and all of it consists of characters. -/
structure Clear (e : Entry) : Prop where
  plain : e.operation.Plain
  operation : e.operation.Avoids ']' ∧ e.operation.Avoids '\r' ∧ e.operation.Avoids '\n'
  keys : ∀ f ∈ e.fields, f.1.Plain ∧ ∀ p ∈ delimiters, p ∉ f.1
  values : ∀ f ∈ e.fields, ∀ v, f.2 = some v → v.plain.Plain

/-- An entry whose operation and keys are given as strings. -/
theorem clear_of_names (operation : String) (names : List String)
    {fields : List (Text × Option FieldValue)}
    (hoperation : Text.Avoids ']' operation ∧ Text.Avoids '\r' operation ∧
      Text.Avoids '\n' operation)
    (hnames : fields.map Prod.fst = Text.ofStrings names)
    (hfree : ∀ name ∈ names, ∀ p ∈ delimiters, p ∉ Text.ofString name)
    (hvalues : ∀ f ∈ fields, ∀ v, f.2 = some v → v.plain.Plain) : Clear ⟨operation, fields⟩ where
  plain := Text.plain_ofString operation
  operation := hoperation
  keys f hf := by
    have hkey : f.1 ∈ Text.ofStrings names := hnames ▸ List.mem_map_of_mem hf
    obtain ⟨name, hname, heq⟩ := List.mem_map.mp hkey
    rw [← heq]
    exact ⟨Text.plain_ofString name, hfree name hname⟩
  values := hvalues

theorem join_cons (t : Text) (ts : List Text) :
    Text.join " " (t :: ts) = t ++ ts.flatMap (.char ' ' :: ·) := by
  induction ts generalizing t with
  | nil => simp [Text.join]
  | cons u ts ih =>
    rw [Text.join, List.intercalate_cons_cons, ← Text.join, ih, List.flatMap_cons]
    simp [Text.ofString, Text.ofChars]

theorem line_eq_body (e : Entry) (now : Time) : e.line now = e.body now ++ [.char '\n'] := by
  have hpair : pairText = fun f => .char ' ' :: (f.1 ++ ("=" : Text) ++ f.2.written) := rfl
  rw [line_eq_shownLine, shownLine, join_cons, List.flatMap_cons, List.flatMap_map, body, hpair]
  simp [Text.ofString, Text.ofChars]

variable {e : Entry}

theorem mem_shown {f : Text × FieldValue} : f ∈ e.shown ↔ (f.1, some f.2) ∈ e.fields := by
  rw [shown, List.mem_filterMap]
  constructor
  · rintro ⟨⟨key, value⟩, hmem, hvalue⟩
    obtain ⟨v, rfl, rfl⟩ := Option.map_eq_some_iff.mp hvalue
    exact hmem
  · exact fun hmem => ⟨_, hmem, rfl⟩

namespace Clear

variable (h : e.Clear)

include h

theorem readable {f : Text × FieldValue} (hf : f ∈ e.shown) :
    f.1.Plain ∧ f.1.Avoids '=' ∧ f.2.plain.Plain := by
  have hmem := mem_shown.mp hf
  exact ⟨(h.keys _ hmem).1, (h.keys _ hmem).2 _ (by decide), h.values _ hmem _ rfl⟩

/-- **An entry is read back from its line.** -/
theorem readLine?_body (now : Time) : readLine? (e.body now) = some (e.told now) := by
  have hblank : .char ' ' ∉ now.text := Time.avoids_text (by decide) (by decide) now
  have hbracket : .char ']' ∉ e.operation := h.operation.1
  have hpairs := readPairs_pairText (fun f hf => h.readable hf) (length_le_length_pairText e.shown)
  simp only [readLine?, body, cutAt?_append hblank, Time.read?_text, List.isPrefixOf?, BEq.rfl,
    if_true, cutAt?_append hbracket, hpairs, Option.bind_eq_bind, Option.bind_some]
  rfl

/-- The line of an entry has no break but its end. -/
theorem avoids_body {c : Char} (hc : c ∈ ['\r', '\n']) (now : Time) : (e.body now).Avoids c := by
  have hc' : c = '\r' ∨ c = '\n' := List.mem_pair.mp hc
  have htime : now.text.Avoids c := by
    rcases hc' with rfl | rfl
    · exact Time.avoids_text (by decide) (by decide) now
    · exact Time.avoids_text (by decide) (by decide) now
  have hmark (d : Char) (hd : d ∈ [' ', '[', ']', '=']) : c ≠ d := by
    rintro rfl
    rcases hc' with rfl | rfl <;> exact absurd hd (by decide)
  have hoperation : e.operation.Avoids c := by
    rcases hc' with rfl | rfl
    · exact h.operation.2.1
    · exact h.operation.2.2
  refine htime.append (.cons (hmark _ (by decide)) (.cons (hmark _ (by decide))
    (hoperation.append (.cons (hmark _ (by decide)) (Text.avoids_flatMap fun f hf => ?_)))))
  have hkey : f.1.Avoids c := by
    refine (h.keys _ (mem_shown.mp hf)).2 _ ?_
    rcases hc' with rfl | rfl <;> decide
  exact .cons (hmark _ (by decide))
    ((hkey.append (.cons (hmark _ (by decide)) Text.avoids_nil)).append (avoids_written hc f.2))

/-- **The line of an entry can be encoded.** -/
theorem plain_line (now : Time) : (e.line now).Plain := by
  have hpair : ∀ p ∈ e.shown.flatMap pairText, ∃ c, p = .char c := by
    intro p hp
    obtain ⟨f, hf, hp⟩ := List.mem_flatMap.mp hp
    obtain ⟨hkey, -, hvalue⟩ := h.readable hf
    exact (((Text.plain_ofChars [' ']).append (hkey.append (Text.plain_ofString "="))).append
      (plain_written hvalue)) p hp
  rw [e.line_eq_body]
  exact ((now.plain_text.append ((Text.plain_ofChars [' ', '[']).append (h.plain.append
    ((Text.plain_ofChars [']']).append hpair)))).append (Text.plain_ofChars ['\n']))

end Clear

end Entry

/-! ### Logs -/

theorem readLog?_concat (log : Text) : readLog? (log ++ [.char '\n']) =
    (log.splitOn (.char '\n')).mapM readLine? := by
  rw [readLog?, List.getLast?_concat, List.dropLast_concat]
  simp

/-- The lines of one log after those of another tell what both tell. -/
theorem readLog?_append {a b : Text} {ts us : List Told} (ha : readLog? a = some ts)
    (hb : readLog? b = some us) : readLog? (a ++ b) = some (ts ++ us) := by
  have hends {log : Text} {told : List Told} (h : readLog? log = some told) :
      log = [] ∧ told = [] ∨ ∃ lines, log = lines ++ [.char '\n'] ∧
        (lines.splitOn (.char '\n')).mapM readLine? = some told := by
    rcases List.eq_nil_or_concat log with rfl | ⟨lines, c, rfl⟩
    · cases h
      exact .inl ⟨rfl, rfl⟩
    · obtain rfl : c = .char '\n' := by
        rw [readLog?, List.concat_eq_append, List.getLast?_concat] at h
        exact Classical.byContradiction fun hc => by simp [hc] at h
      rw [List.concat_eq_append] at h ⊢
      rw [readLog?_concat] at h
      exact .inr ⟨lines, rfl, h⟩
  rcases hends ha with ⟨rfl, rfl⟩ | ⟨as, rfl, has⟩
  · exact hb
  rcases hends hb with ⟨rfl, rfl⟩ | ⟨bs, rfl, hbs⟩
  · rw [List.append_nil, List.append_nil, ha]
  · have hsplit : as ++ [.char '\n'] ++ (bs ++ [.char '\n']) =
        (as ++ .char '\n' :: bs) ++ [.char '\n'] := by simp
    rw [hsplit, readLog?_concat, List.splitOn_append_cons_self, List.mapM_append, has, hbs]
    rfl

theorem Entry.Clear.readLog?_line {e : Entry} (h : e.Clear) (now : Time) :
    readLog? (e.line now) = some [e.told now] := by
  have hline : .char '\n' ∉ e.body now := h.avoids_body (by decide) now
  rw [e.line_eq_body, readLog?_concat, List.splitOn_eq_singleton hline, List.mapM_cons,
    h.readLine?_body]
  rfl

/-- **The lines of a log tell its entries**, one after the other. -/
theorem readLog?_lines {es : List Entry} (h : ∀ e ∈ es, e.Clear) (times : List Time) :
    readLog? (List.zipWith Entry.line es times).flatten =
      some (List.zipWith Entry.told es times) := by
  induction es generalizing times with
  | nil => rfl
  | cons e es ih =>
    cases times with
    | nil => rfl
    | cons now times =>
      obtain ⟨he, hes⟩ := List.forall_mem_cons.mp h
      exact readLog?_append (he.readLog?_line now) (ih hes times)

/-- **No two entries share a line** that do not tell the same. -/
theorem Entry.Clear.told_eq {e d : Entry} (he : e.Clear) (hd : d.Clear) {now later : Time}
    (h : e.line now = d.line later) : e.told now = d.told later := by
  rw [e.line_eq_body, d.line_eq_body] at h
  have hbody := List.append_cancel_right h
  exact Option.some.inj (by rw [← he.readLine?_body, hbody, hd.readLine?_body])

end Audit

end ScriptGate
