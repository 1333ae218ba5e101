import ScriptGate.Proofs.Json.Token

/-!
# Reading written values

A sequence of characters reads as a value if the reader makes this value of it wherever it stands,
in front of anything that cannot continue a number. Such sequences are put together as the text of
an array or an object is, with blanks wherever a writer puts them, so that everything that is
written in this way is read back.

## Main definitions

* `Json.Reads`: characters that read as a value.
* `Json.ReadsItems`, `Json.ReadsMembers`: characters that read as the inside of an array or an
  object.

## Main results

* `Json.Reads.int`, `Json.Reads.string`, `Json.Reads.array`, `Json.Reads.object`: texts of values.
* `Json.Reads.readWithin`: a text that reads as a value is read as this value.
-/

namespace ScriptGate.Json

/-- Nothing but blanks. -/
def Blanks (bs : List Char) : Prop := ∀ b ∈ bs, isBlank b

/-- The text begins with a character that is no blank and closes nothing. -/
def Opens (cs : List Char) : Prop :=
  ∃ c rest, cs = c :: rest ∧ isBlank c = false ∧ c ≠ ']' ∧ c ≠ '}'

/-- The characters read as a value, wherever they stand. -/
structure Reads (limit : Option Nat) (v : Value) (cs : List Char) : Prop where
  opens : Opens cs
  read : ∀ (fuel pos : Nat) (rest : List Char), cs.length ≤ fuel → Ends rest →
    value limit fuel ⟨pos, cs ++ rest⟩ = .ok (v, ⟨pos + cs.length, rest⟩)

/-- The characters read as the items of an array, up to the closing bracket. -/
structure ReadsItems (limit : Option Nat) (vs : List Value) (cs : List Char) : Prop where
  opens : Opens cs
  read : ∀ (fuel pos : Nat) (rest : List Char), cs.length < fuel →
    items limit fuel ⟨pos, cs ++ ']' :: rest⟩ = .ok (vs, ⟨pos + cs.length + 1, rest⟩)

/-- The characters read as the members of an object, up to the closing brace. -/
structure ReadsMembers (limit : Option Nat) (ms : List (Text × Value)) (cs : List Char) : Prop where
  opens : Opens cs
  read : ∀ (fuel pos : Nat) (rest : List Char), cs.length < fuel →
    members limit fuel ⟨pos, cs ++ '}' :: rest⟩ = .ok (ms, ⟨pos + cs.length + 1, rest⟩)

/-! ### Blanks -/

section Blanks

variable {pos : Nat} {bs cs rest : List Char} {c : Char}

theorem blanks_nil : Blanks [] := by simp [Blanks]

theorem blanks_space : Blanks [' '] := by simp [Blanks, isBlank]

theorem skipBlanks_append (hb : Blanks bs) (hc : isBlank c = false) :
    Cursor.skipBlanks ⟨pos, bs ++ c :: rest⟩ = ⟨pos + bs.length, c :: rest⟩ := by
  have htake : (bs ++ c :: rest).takeWhile isBlank = bs := by
    rw [List.takeWhile_append_of_pos hb, List.takeWhile_cons_of_neg (by simp [hc]), List.append_nil]
  rw [Cursor.skipBlanks, htake, Cursor.skip, List.drop_left]

theorem skipBlanks_cons (hc : isBlank c = false) :
    Cursor.skipBlanks ⟨pos, c :: rest⟩ = ⟨pos, c :: rest⟩ :=
  skipBlanks_append blanks_nil hc

theorem skipBlanks_opens (hb : Blanks bs) (hcs : Opens cs) :
    Cursor.skipBlanks ⟨pos, bs ++ (cs ++ rest)⟩ = ⟨pos + bs.length, cs ++ rest⟩ := by
  obtain ⟨c, ds, rfl, hc, -⟩ := hcs
  exact skipBlanks_append hb hc

theorem skipBlanks_blanks (hb : Blanks bs) :
    Cursor.skipBlanks ⟨pos, bs⟩ = ⟨pos + bs.length, []⟩ := by
  have htake : (bs ++ []).takeWhile isBlank = bs ++ [].takeWhile isBlank :=
    List.takeWhile_append_of_pos hb
  rw [List.append_nil, List.takeWhile_nil, List.append_nil] at htake
  rw [Cursor.skipBlanks, htake, Cursor.skip, List.drop_length]

/-- A blank ends a number. -/
theorem ends_append (hb : Blanks bs) (hrest : Ends rest) : Ends (bs ++ rest) := by
  cases bs with
  | nil => exact hrest
  | cons b bs =>
    have hblank : isBlank b := hb b (List.mem_cons_self ..)
    simp only [isBlank, Bool.or_eq_true, decide_eq_true_eq] at hblank
    rcases hblank with ((rfl | rfl) | rfl) | rfl <;> simp [Ends] 

end Blanks

section Values

variable {limit : Option Nat} {v : Value} {vs : List Value} {ms : List (Text × Value)}
  {bs cs ds : List Char}

theorem Opens.append (h : Opens cs) : Opens (cs ++ ds) := by
  obtain ⟨c, rest, rfl, hc⟩ := h
  exact ⟨c, rest ++ ds, rfl, hc⟩

/-! ### Arrays -/

namespace ReadsItems

theorem last (h : Reads limit v cs) (hb : Blanks bs) : ReadsItems limit [v] (cs ++ bs) where
  opens := h.opens.append
  read fuel pos rest hfuel := by
    obtain ⟨fuel, rfl⟩ : ∃ k, fuel = k + 1 := ⟨fuel - 1, by omega⟩
    rw [List.length_append] at hfuel ⊢
    have hread := h.read fuel pos (bs ++ ']' :: rest) (by omega) (ends_append hb (by simp [Ends]))
    rw [items, List.append_assoc, hread]
    simp only [bind, Except.bind, skipBlanks_append hb (show isBlank ']' = false from rfl),
      Cursor.skip, Nat.add_assoc]
    rfl

theorem cons (h : Reads limit v cs) (hb : Blanks bs) (hrest : ReadsItems limit vs ds) :
    ReadsItems limit (v :: vs) (cs ++ ',' :: (bs ++ ds)) where
  opens := h.opens.append
  read fuel pos rest hfuel := by
    obtain ⟨fuel, rfl⟩ : ∃ k, fuel = k + 1 := ⟨fuel - 1, by omega⟩
    simp only [List.length_append, List.length_cons] at hfuel ⊢
    have hread := h.read fuel pos (',' :: (bs ++ (ds ++ ']' :: rest))) (by omega) (by simp [Ends])
    have hnext := hrest.read fuel (pos + cs.length + 1 + bs.length) rest (by omega)
    have hpos : pos + cs.length + 1 + bs.length + ds.length + 1 =
        pos + (cs.length + (bs.length + ds.length + 1)) + 1 := by omega
    rw [items, List.append_assoc, List.cons_append, List.append_assoc, hread]
    simp only [bind, Except.bind, skipBlanks_cons (show isBlank ',' = false from rfl), Cursor.skip,
      List.drop_succ_cons, List.drop_zero, skipBlanks_opens hb hrest.opens, hnext, hpos]
    rfl

end ReadsItems

namespace Reads

theorem array_nil : Reads limit (.array []) ['[', ']'] where
  opens := ⟨'[', [']'], rfl, by decide⟩
  read fuel pos rest hfuel _ := by
    obtain ⟨fuel, rfl⟩ : ∃ k, fuel = k + 1 := ⟨fuel - 1, by simp at hfuel; omega⟩
    rfl

/-- **The text of an array.** -/
theorem array (hb : Blanks bs) (h : ReadsItems limit vs cs) :
    Reads limit (.array vs) ('[' :: (bs ++ (cs ++ [']']))) where
  opens := ⟨'[', _, rfl, by decide⟩
  read fuel pos rest hfuel _ := by
    obtain ⟨fuel, rfl⟩ : ∃ k, fuel = k + 1 := ⟨fuel - 1, by simp at hfuel; omega⟩
    simp only [List.length_append, List.length_cons, List.length_nil] at hfuel ⊢
    have hread := h.read fuel (pos + 1 + bs.length) rest (by omega)
    have hskip : Cursor.skipBlanks ⟨pos + 1, bs ++ (cs ++ ']' :: rest)⟩ =
        ⟨pos + 1 + bs.length, cs ++ ']' :: rest⟩ := skipBlanks_opens hb h.opens
    have hhead : (cs ++ ']' :: rest).head? ≠ some ']' := by
      obtain ⟨c, ds, rfl, -, hc, -⟩ := h.opens
      simpa using hc
    have hpos : pos + 1 + bs.length + cs.length + 1 =
        pos + (bs.length + (cs.length + (0 + 1)) + 1) := by omega
    rw [List.cons_append, List.append_assoc, List.append_assoc, List.singleton_append, value]
    simp only [Cursor.skip, List.drop_succ_cons, List.drop_zero, hskip, hhead, if_false, hread,
      hpos]
    rfl

end Reads

/-! ### Objects -/

/-- The text of a name and the blank that stands before its value. -/
def nameText (name : List Char) : List Char := '"' :: (body name ++ ['"', ':', ' '])

theorem opens_nameText (name : List Char) : Opens (nameText name) := ⟨'"', _, rfl, by decide⟩

/-- What the reader of an object does after a member. -/
def afterMember (limit : Option Nat) (fuel : Nat) (name : Text) (v : Value) (c : Cursor) :
    Except Stop (List (Text × Value) × Cursor) := do
  let c := c.skipBlanks
  match c.rest with
  | '}' :: _ => pure ([(name, v)], c.skip 1)
  | ',' :: _ =>
    let (ms, c) ← members limit fuel (c.skip 1).skipBlanks
    pure ((name, v) :: ms, c)
  | _ => .error (.fault .noComma c.pos)

/-- A name and its value are read as a member. -/
theorem members_nameText {name rest : List Char} {fuel pos : Nat} (h : Reads limit v cs)
    (hends : Ends rest) (hfuel : cs.length ≤ fuel) :
    members limit (fuel + 1) ⟨pos, nameText name ++ (cs ++ rest)⟩ =
      afterMember limit fuel (Text.ofChars name) v
        ⟨pos + (nameText name).length + cs.length, rest⟩ := by
  have hname := scanString_body pos (pos + 1) name (':' :: ' ' :: (cs ++ rest))
  have hskip : Cursor.skipBlanks ⟨pos + 1 + (body name).length + 1 + 1, ' ' :: (cs ++ rest)⟩ =
      ⟨pos + 1 + (body name).length + 1 + 1 + 1, cs ++ rest⟩ :=
    skipBlanks_opens blanks_space h.opens
  have hread := h.read fuel (pos + 1 + (body name).length + 1 + 1 + 1) rest hfuel hends
  have hpos : pos + 1 + (body name).length + 1 + 1 + 1 + cs.length =
      pos + (nameText name).length + cs.length := by
    simp only [nameText, List.length_cons, List.length_append, List.length_nil]
    omega
  rw [hpos] at hread
  rw [members]
  simp only [nameText, List.cons_append, List.append_assoc, List.nil_append, hname, bind,
    Except.bind, skipBlanks_cons (show isBlank ':' = false from rfl), List.head?_cons, if_true,
    Cursor.skip, List.drop_succ_cons, List.drop_zero, hskip, hread]
  rfl

namespace ReadsMembers

theorem last {name : List Char} (h : Reads limit v cs) (hb : Blanks bs) :
    ReadsMembers limit [(Text.ofChars name, v)] (nameText name ++ (cs ++ bs)) where
  opens := (opens_nameText name).append
  read fuel pos rest hfuel := by
    obtain ⟨fuel, rfl⟩ : ∃ k, fuel = k + 1 := ⟨fuel - 1, by omega⟩
    simp only [List.length_append] at hfuel ⊢
    have hends : Ends (bs ++ '}' :: rest) := ends_append hb (by simp [Ends])
    have hpos : pos + (nameText name).length + cs.length + bs.length + 1 =
        pos + ((nameText name).length + (cs.length + bs.length)) + 1 := by omega
    rw [List.append_assoc, List.append_assoc, members_nameText h hends (by omega), afterMember,
      skipBlanks_append hb (show isBlank '}' = false from rfl)]
    simp only [Cursor.skip, List.drop_succ_cons, List.drop_zero, hpos]
    rfl

theorem cons {name : List Char} (h : Reads limit v cs) (hb : Blanks bs)
    (hrest : ReadsMembers limit ms ds) :
    ReadsMembers limit ((Text.ofChars name, v) :: ms) (nameText name ++ (cs ++ ',' :: (bs ++ ds)))
    where
  opens := (opens_nameText name).append
  read fuel pos rest hfuel := by
    obtain ⟨fuel, rfl⟩ : ∃ k, fuel = k + 1 := ⟨fuel - 1, by omega⟩
    simp only [List.length_append, List.length_cons] at hfuel ⊢
    have hends : Ends (',' :: (bs ++ (ds ++ '}' :: rest))) := by simp [Ends]
    have hnext := hrest.read fuel (pos + (nameText name).length + cs.length + 1 + bs.length) rest
      (by omega)
    have hpos : pos + (nameText name).length + cs.length + 1 + bs.length + ds.length + 1 =
        pos + ((nameText name).length + (cs.length + (bs.length + ds.length + 1))) + 1 := by omega
    rw [List.append_assoc, List.append_assoc, List.cons_append, List.append_assoc,
      members_nameText h hends (by omega), afterMember,
      skipBlanks_cons (show isBlank ',' = false from rfl)]
    simp only [bind, Except.bind, Cursor.skip, List.drop_succ_cons, List.drop_zero,
      skipBlanks_opens hb hrest.opens, hnext, hpos]
    rfl

end ReadsMembers

namespace Reads

/-- **The text of an object.** -/
theorem object (hb : Blanks bs) (h : ReadsMembers limit ms cs) :
    Reads limit (.ofMembers ms) ('{' :: (bs ++ (cs ++ ['}']))) where
  opens := ⟨'{', _, rfl, by decide⟩
  read fuel pos rest hfuel _ := by
    obtain ⟨fuel, rfl⟩ : ∃ k, fuel = k + 1 := ⟨fuel - 1, by simp at hfuel; omega⟩
    simp only [List.length_append, List.length_cons, List.length_nil] at hfuel ⊢
    have hread := h.read fuel (pos + 1 + bs.length) rest (by omega)
    have hskip : Cursor.skipBlanks ⟨pos + 1, bs ++ (cs ++ '}' :: rest)⟩ =
        ⟨pos + 1 + bs.length, cs ++ '}' :: rest⟩ := skipBlanks_opens hb h.opens
    have hhead : (cs ++ '}' :: rest).head? ≠ some '}' := by
      obtain ⟨c, ds, rfl, -, -, hc⟩ := h.opens
      simpa using hc
    have hpos : pos + 1 + bs.length + cs.length + 1 =
        pos + (bs.length + (cs.length + (0 + 1)) + 1) := by omega
    rw [List.cons_append, List.append_assoc, List.append_assoc, List.singleton_append, value]
    simp only [Cursor.skip, List.drop_succ_cons, List.drop_zero, hskip, hhead, if_false, hread,
      hpos]
    rfl

/-! ### Strings and numbers -/

/-- **The text of a string.** -/
theorem string (name : List Char) :
    Reads limit (.string (Text.ofChars name)) (quoteAscii (Text.ofChars name)).toChars where
  opens := ⟨'"', _, toChars_quoteAscii name, by decide⟩
  read fuel pos rest hfuel _ := by
    rw [toChars_quoteAscii] at hfuel ⊢
    simp only [List.cons_append, List.length_cons, List.length_append, List.length_nil] at hfuel ⊢
    obtain ⟨fuel, rfl⟩ : ∃ k, fuel = k + 1 := ⟨fuel - 1, by omega⟩
    have hpos : pos + 1 + (body name).length + 1 = pos + ((body name).length + (0 + 1) + 1) := by
      omega
    rw [List.append_assoc, List.singleton_append, value]
    simp only [scanString_body, hpos]
    rfl

end Reads

/-- The text begins with a digit, or with a minus sign and a digit. -/
def Numeric (cs : List Char) : Prop :=
  ∃ c ds, cs = c :: ds ∧ (c.isDigit ∨ c = '-' ∧ ∃ d es, ds = d :: es ∧ d.isDigit)

theorem numeric_ofInt (n : Int) : Numeric (Text.ofInt n).toChars := by
  cases n with
  | ofNat k =>
    obtain ⟨d, ds, hds, hd, -⟩ := toDigits_cons k
    exact ⟨d, ds, (toChars_ofNat k).trans hds, .inl hd⟩
  | negSucc k =>
    obtain ⟨d, ds, hds, hd, -⟩ := toDigits_cons (k + 1)
    exact ⟨'-', _, rfl, .inr ⟨rfl, d, ds, (toChars_ofNat (k + 1)).trans hds, hd⟩⟩

namespace Numeric

theorem append (h : Numeric cs) : Numeric (cs ++ ds) := by
  obtain ⟨c, rest, rfl, hc⟩ := h
  refine ⟨c, rest ++ ds, rfl, hc.imp_right ?_⟩
  rintro ⟨rfl, d, es, rfl, hd⟩
  exact ⟨rfl, d, es ++ ds, rfl, hd⟩

/-- The first character is no other than a digit or a minus sign. -/
theorem head_ne {c x : Char} (h : Numeric (c :: ds)) (hx : x.isDigit = false ∧ x ≠ '-') :
    c ≠ x := by
  rintro rfl
  obtain ⟨d, es, hcs, hd⟩ := h
  obtain ⟨rfl, rfl⟩ := List.cons.inj hcs
  rcases hd with hd | ⟨hd, -⟩
  · simp [hx.1] at hd
  · exact hx.2 hd

theorem opens (h : Numeric cs) : Opens cs := by
  obtain ⟨c, ds, rfl, -⟩ := id h
  have hblank : isBlank c = false := by
    simp [isBlank, h.head_ne (x := ' ') (by decide), h.head_ne (x := '\t') (by decide),
      h.head_ne (x := '\n') (by decide), h.head_ne (x := '\r') (by decide)]
  exact ⟨c, ds, rfl, hblank, h.head_ne (by decide), h.head_ne (by decide)⟩

theorem not_minus_letter {c : Char} (hc : c.isDigit = false) : ¬Numeric ('-' :: c :: ds) := by
  rintro ⟨_, _, hcs, hd | ⟨-, d, es, hes, hd⟩⟩
  · obtain ⟨rfl, -⟩ := List.cons.inj hcs
    cases hd
  · obtain ⟨-, rfl⟩ := List.cons.inj hcs
    obtain ⟨rfl, -⟩ := List.cons.inj hes
    simp [hc] at hd

/-- No word begins like a number. -/
theorem word?_eq_none (h : Numeric cs) {pos : Nat} : word? ⟨pos, cs⟩ = none := by
  have hwords : ∀ w ∈ words, ¬w.1.isPrefixOf cs := by
    intro w hw hprefix
    obtain ⟨rest, rfl⟩ := List.isPrefixOf_iff_prefix.mp hprefix
    simp only [words, List.mem_cons, List.not_mem_nil, or_false] at hw
    rcases hw with rfl | rfl | rfl | rfl | rfl | rfl
    · exact absurd rfl (h.head_ne (x := 'n') (by decide))
    · exact absurd rfl (h.head_ne (x := 't') (by decide))
    · exact absurd rfl (h.head_ne (x := 'f') (by decide))
    · exact absurd rfl (h.head_ne (x := 'N') (by decide))
    · exact absurd rfl (h.head_ne (x := 'I') (by decide))
    · exact not_minus_letter (by decide) h
  rw [word?, List.find?_eq_none.mpr hwords]
  rfl

theorem value_eq (h : Numeric cs) {fuel pos : Nat} :
    value limit (fuel + 1) ⟨pos, cs⟩ = number limit ⟨pos, cs⟩ := by
  rw [value]
  dsimp only
  split
  next => exact absurd rfl (h.head_ne (by decide))
  next => exact absurd rfl (h.head_ne (by decide))
  next => exact absurd rfl (h.head_ne (by decide))
  next => rw [h.word?_eq_none]

end Numeric

namespace Reads

/-- **The text of a whole number.** -/
theorem int {n : Int} (hn : fits limit n) : Reads limit (.int n) (Text.ofInt n).toChars where
  opens := (numeric_ofInt n).opens
  read fuel pos rest hfuel hends := by
    obtain ⟨fuel, rfl⟩ : ∃ k, fuel = k + 1 := by
      obtain ⟨c, ds, hcs, -⟩ := numeric_ofInt n
      exact ⟨fuel - 1, by rw [hcs, List.length_cons] at hfuel; omega⟩
    rw [(numeric_ofInt n).append.value_eq, number_ofInt hends hn, Text.length_toChars]

/-- **A text that reads as a value is read as this value**, also with blanks after it. -/
theorem readWithin_append (h : Reads limit v cs) (hmark : cs.head? ≠ some '\uFEFF')
    (hb : Blanks bs) : readWithin limit (cs ++ bs) = .ok v := by
  obtain ⟨c, ds, rfl, hc, -⟩ := id h.opens
  have hmark : (c :: ds ++ bs).head? ≠ some '\uFEFF' := hmark
  have hends : Ends (bs ++ []) := ends_append hb (show Ends [] from trivial)
  rw [List.append_nil] at hends
  have hread := h.read (2 * (c :: ds ++ bs).length + 2) 0 bs
    (by rw [List.length_append]; omega) hends
  rw [Json.readWithin, document, if_neg hmark, List.cons_append, skipBlanks_cons hc,
    ← List.cons_append, hread]
  simp only [bind, Except.bind, skipBlanks_blanks hb]
  rfl

theorem readWithin (h : Reads limit v cs) (hmark : cs.head? ≠ some '\uFEFF') :
    readWithin limit cs = .ok v := by
  have hread := h.readWithin_append hmark blanks_nil
  rwa [List.append_nil] at hread

end Reads

end Values

end ScriptGate.Json
