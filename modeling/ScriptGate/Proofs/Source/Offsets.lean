import ScriptGate.Ecma.Parser
import ScriptGate.Proofs.Source.Decoding
import ScriptGate.Proofs.Source.Units

/-!
# Byte offsets are converted exactly

A byte offset has a character offset if and only if it stands between characters, and then this is
the number of units of the characters before it. That every character is ASCII, or that the offset
was asked for before, makes no difference. The text of a node can be read if and only if both of its
ends stand between characters.

## Main definitions

* `OffsetUnit.count`: the number of units of characters, by their encoding.
* `Source.Memo.Sound`: a memo that holds nothing but offsets of the source.

## Main results

* `Source.offset_eq_ok_iff`: the offsets that a byte offset can have.
* `Source.offsetsVia_eq_map`: a memo changes no answer.
* `Source.slice_eq_ok_iff`: the texts that can be read between byte offsets.
* `Source.offset_exact`: byte offsets are converted exactly.
-/

namespace ScriptGate

/-! ### Counting units -/

namespace OffsetUnit

/-- The number of units of characters: of the characters themselves, or of their UTF-16 encoding. -/
def count : OffsetUnit → List Char → Nat
  | codepoint, cs => cs.length
  | utf16, cs => (Utf16.encode cs).length

theorem size_eq_count (u : OffsetUnit) (cs : List Char) : u.size cs = u.count cs := by
  cases u with
  | codepoint => exact size_codepoint cs
  | utf16 => exact (Utf16.length_encode cs).symm

/-- The character lies past the first plane. -/
def isAstral (c : Char) : Bool := 0x10000 ≤ c.toNat

/-- Characters past the first plane take two units of UTF-16, all others one. -/
theorem size_utf16_eq (cs : List Char) : utf16.size cs = cs.length + cs.countP isAstral := by
  induction cs with
  | nil => rfl
  | cons c cs ih =>
    have hwidth : utf16.width c = 1 + if isAstral c then 1 else 0 := by
      simp only [width, isAstral, decide_eq_true_eq]
      split <;> split <;> omega
    rw [size, ih, hwidth, List.countP_cons, List.length_cons]
    omega

theorem width_utf16_le (c : Char) : utf16.width c ≤ (Utf8.encodeChar c).length := by
  rw [width]
  split
  · exact Utf8.length_encodeChar_pos c
  next hplane =>
    rw [Utf8.encodeChar, if_neg (by omega), if_neg (by omega), if_neg hplane]
    simp

/-- No character takes more units of UTF-16 than bytes. -/
theorem size_utf16_le (cs : List Char) : utf16.size cs ≤ (Utf8.encodeChars cs).length := by
  induction cs with
  | nil => exact Nat.le_refl _
  | cons c cs ih =>
    have hc := width_utf16_le c
    rw [size, Utf8.encodeChars_cons, List.length_append]
    omega

end OffsetUnit

namespace Source

variable {s : Source} {a b k : Nat}

/-! ### Where offsets are -/

/-- **Decoding finds an offset at boundaries only**, and finds the size of what stands before. -/
theorem decodedOffset_eq_ok_iff (hb : b ≤ s.bytes.length) : s.decodedOffset b = .ok k ↔
    ∃ before after, s.chars = before ++ after ∧ b = (Utf8.encodeChars before).length ∧
      k = s.unit.size before := by
  constructor
  · intro h
    obtain ⟨before, hdecode, rfl⟩ := map_eq_ok h
    have hbytes := Utf8.decode_eq_ok_iff.mp hdecode
    have hall : Utf8.encodeChars s.chars = Utf8.encodeChars before ++ s.bytes.drop b := by
      rw [← hbytes, List.take_append_drop, s.bytes_eq]
    obtain ⟨after, hchars, -⟩ := Utf8.eq_append_of_encodeChars hall
    refine ⟨before, after, hchars, ?_, rfl⟩
    rw [← hbytes, List.length_take_of_le hb]
  · rintro ⟨before, after, hchars, rfl, rfl⟩
    rw [decodedOffset, take_bytes hchars, Utf8.decode_encodeChars]
    rfl

/-- Where every character takes one byte, every byte offset is a boundary. -/
theorem isBoundary_of_isAscii (h : s.isAscii) (hb : b ≤ s.bytes.length) : s.IsBoundary b := by
  have hlength : (Utf8.encodeChars s.chars).length = s.chars.length := by
    simpa [isAscii, s.bytes_eq] using h
  rw [s.bytes_eq] at hb
  have htake := Utf8.length_le_length_encodeChars (s.chars.take b)
  have hdrop := Utf8.length_le_length_encodeChars (s.chars.drop b)
  refine ⟨s.chars.take b, s.chars.drop b, (List.take_append_drop ..).symm, ?_⟩
  have hsum : (Utf8.encodeChars (s.chars.take b)).length +
      (Utf8.encodeChars (s.chars.drop b)).length = (Utf8.encodeChars s.chars).length := by
    rw [← List.length_append, ← Utf8.encodeChars_append, List.take_append_drop]
  rw [List.length_take] at htake
  rw [List.length_drop] at hdrop
  omega

/-- **The shortcut for ASCII gives the answers of decoding.** -/
theorem offset_eq_decodedOffset (hb : b ≤ s.bytes.length) : s.offset b = s.decodedOffset b := by
  by_cases hascii : s.isAscii
  · obtain ⟨before, after, hchars, rfl⟩ := isBoundary_of_isAscii hascii hb
    rw [offset_boundary hchars,
      (decodedOffset_eq_ok_iff hb).mpr ⟨before, after, hchars, rfl, rfl⟩]
  · rw [offset, if_neg hascii]

theorem offset_eq_ok_iff (hb : b ≤ s.bytes.length) : s.offset b = .ok k ↔
    ∃ before after, s.chars = before ++ after ∧ b = (Utf8.encodeChars before).length ∧
      k = s.unit.size before := by
  rw [offset_eq_decodedOffset hb, decodedOffset_eq_ok_iff hb]

/-- Inside a character there is no offset. -/
theorem offset_of_not_isBoundary (hb : b ≤ s.bytes.length) (h : ¬s.IsBoundary b) :
    ∃ e, s.offset b = .error e := by
  cases hoffset : s.offset b with
  | error e => exact ⟨e, rfl⟩
  | ok k =>
    obtain ⟨before, after, hchars, hlength, -⟩ := (offset_eq_ok_iff hb).mp hoffset
    exact absurd ⟨before, after, hchars, hlength⟩ h

/-- Text in front of a script moves its offsets by the size of the text. -/
theorem offset_append (cs : List Char) (h : s.IsBoundary b) (hk : s.offset b = .ok k) :
    (ofChars (cs ++ s.chars) s.unit).offset ((Utf8.encodeChars cs).length + b) =
      .ok (s.unit.size cs + k) := by
  obtain ⟨before, after, hchars, rfl⟩ := h
  obtain rfl : s.unit.size before = k := Except.ok.inj ((offset_boundary hchars).symm.trans hk)
  have hjoined : (ofChars (cs ++ s.chars) s.unit).chars = (cs ++ before) ++ after := by
    rw [ofChars, hchars, List.append_assoc]
  have hoffset := offset_boundary hjoined
  rwa [Utf8.encodeChars_append, List.length_append, OffsetUnit.size_append] at hoffset

/-! ### Offsets with a memo -/

/-- The memo holds nothing but offsets that decoding gives. -/
def Memo.Sound (s : Source) (memo : Memo) : Prop :=
  ∀ b k, memo.lookup b = some k → s.decodedOffset b = .ok k

/-- One answer is that of the source, and the memo stays sound, also if there is no offset. -/
theorem offsetVia_of_sound {memo : Memo} (h : memo.Sound s) (b : Nat) :
    (s.offsetVia memo b).1 = s.offset b ∧ Memo.Sound s (s.offsetVia memo b).2 := by
  rw [offsetVia, offset]
  split
  · exact ⟨rfl, h⟩
  cases hlookup : memo.lookup b with
  | some k => exact ⟨(h b k hlookup).symm, h⟩
  | none =>
    cases hdecode : s.decodedOffset b with
    | error e => exact ⟨rfl, h⟩
    | ok k =>
      refine ⟨rfl, fun a j hj => ?_⟩
      rw [List.lookup_cons] at hj
      split at hj
      next hab =>
        obtain rfl := Option.some.inj hj
        rw [beq_iff_eq.mp hab, hdecode]
      next => exact h a j hj

/-- **A memo changes no answer**, whatever was asked for before. -/
theorem offsetsVia_eq_map {memo : Memo} (h : memo.Sound s) (bs : List Nat) :
    s.offsetsVia memo bs = bs.map s.offset := by
  induction bs generalizing memo with
  | nil => rfl
  | cons b bs ih =>
    obtain ⟨hanswer, hsound⟩ := offsetVia_of_sound h b
    rw [offsetsVia, List.map_cons, ← hanswer, ← ih hsound]

theorem Memo.sound_nil (s : Source) : Memo.Sound s [] := by
  intro b k h
  cases h

/-! ### Text between byte offsets -/

/-- **Text can be read between boundaries only.** -/
theorem slice_eq_ok_iff {t : Text} (hab : a < b) (hb : b ≤ s.bytes.length) :
    s.slice a b = .ok t ↔ ∃ before between after, s.chars = before ++ between ++ after ∧
      a = (Utf8.encodeChars before).length ∧ b = (Utf8.encodeChars (before ++ between)).length ∧
      t = Text.ofChars between := by
  constructor
  · intro h
    obtain ⟨between, hdecode, rfl⟩ := map_eq_ok h
    have hbytes := Utf8.decode_eq_ok_iff.mp hdecode
    have hlength : (Utf8.encodeChars between).length = b - a := by
      rw [← hbytes, List.length_take_of_le]
      rw [List.length_drop]
      omega
    have hne : between ≠ [] := by
      rintro rfl
      rw [Utf8.encodeChars_nil, List.length_nil] at hlength
      omega
    have hall : Utf8.encodeChars s.chars = s.bytes.take a ++
        (Utf8.encodeChars between ++ (s.bytes.drop a).drop (b - a)) := by
      rw [← hbytes, List.take_append_drop, List.take_append_drop, s.bytes_eq]
    obtain ⟨before, rest, hchars, hfront⟩ := Utf8.eq_encodeChars_of_append hne hall
    have hstart : a = (Utf8.encodeChars before).length := by
      rw [← hfront, List.length_take_of_le (by omega)]
    rw [hchars, hfront, Utf8.encodeChars_append] at hall
    obtain ⟨after, rfl, -⟩ := Utf8.eq_append_of_encodeChars (List.append_cancel_left hall)
    refine ⟨before, between, after, by rw [hchars, List.append_assoc], hstart, ?_, rfl⟩
    rw [Utf8.encodeChars_append, List.length_append, hlength]
    omega
  · rintro ⟨before, between, after, hchars, rfl, rfl, rfl⟩
    exact slice_boundary hchars

/-- Text cannot be read if and only if an end of it stands inside a character. -/
theorem slice_eq_error_iff (hab : a < b) (hb : b ≤ s.bytes.length) :
    (∃ e, s.slice a b = .error e) ↔ ¬s.IsBoundary a ∨ ¬s.IsBoundary b := by
  cases hslice : s.slice a b with
  | ok t =>
    obtain ⟨before, between, after, hchars, ha, hb, -⟩ := (slice_eq_ok_iff hab hb).mp hslice
    have hstart : s.IsBoundary a := ⟨before, between ++ after, by simpa using hchars, ha⟩
    have hstop : s.IsBoundary b := ⟨before ++ between, after, hchars, hb⟩
    simp [hstart, hstop]
  | error e =>
    refine ⟨fun _ => ?_, fun _ => ⟨e, rfl⟩⟩
    refine Classical.byContradiction fun hboth => ?_
    rw [not_or, Classical.not_not, Classical.not_not] at hboth
    obtain ⟨t, ht⟩ := slice_of_isBoundary hboth.1 hboth.2
    cases hslice.symm.trans ht

/-! ### Exactness -/

/-- **Byte offsets are converted exactly.** Whatever was asked for before, the answer is the offset
alone, and the shortcut for ASCII gives what decoding gives. At a boundary the offset is the number
of units of the characters before it, and inside a character there is none. Offsets grow with the
byte offsets and add up over texts that follow each other; in UTF-16 they are larger than in code
points by the number of characters past the first plane, and never larger than the byte offset. The
text of a node can be read if and only if both ends are boundaries, and it is what stands between
them. -/
theorem offset_exact (s : Source) :
    (∀ bs, s.offsetsVia [] bs = bs.map s.offset) ∧
    (∀ b ≤ s.bytes.length, s.offset b = s.decodedOffset b ∧
      (∀ before after, s.chars = before ++ after → b = (Utf8.encodeChars before).length →
        s.offset b = .ok (s.unit.count before)) ∧
      (¬s.IsBoundary b → ∃ e, s.offset b = .error e)) ∧
    (∀ a b x y, s.IsBoundary a → s.IsBoundary b → a ≤ b → s.offset a = .ok x →
      s.offset b = .ok y → x ≤ y) ∧
    (∀ cs b k, s.IsBoundary b → s.offset b = .ok k →
      (ofChars (cs ++ s.chars) s.unit).offset ((Utf8.encodeChars cs).length + b) =
        .ok (s.unit.count cs + k)) ∧
    (∀ before after, s.chars = before ++ after → ∃ points units,
      (ofChars s.chars .codepoint).offset (Utf8.encodeChars before).length = .ok points ∧
      (ofChars s.chars .utf16).offset (Utf8.encodeChars before).length = .ok units ∧
      points ≤ units ∧ units ≤ (Utf8.encodeChars before).length ∧
      units - points = before.countP OffsetUnit.isAstral) ∧
    ∀ n : Node, n.start < n.stop → n.stop ≤ s.bytes.length →
      ((∃ e, s.text n = .error e) ↔ ¬s.IsBoundary n.start ∨ ¬s.IsBoundary n.stop) ∧
      ∀ before between after, s.chars = before ++ between ++ after →
        n.start = (Utf8.encodeChars before).length →
        n.stop = (Utf8.encodeChars (before ++ between)).length →
        s.text n = .ok (Text.ofChars between) := by
  refine ⟨offsetsVia_eq_map (Memo.sound_nil s), fun b hb => ⟨offset_eq_decodedOffset hb, ?_,
    offset_of_not_isBoundary hb⟩, fun a b x y => offset_mono, ?_, ?_, ?_⟩
  · rintro before after hchars rfl
    rw [offset_boundary hchars, OffsetUnit.size_eq_count]
  · intro cs b k hb hk
    rw [offset_append cs hb hk, OffsetUnit.size_eq_count]
  · intro before after hchars
    have hpoints : (ofChars s.chars .codepoint).offset (Utf8.encodeChars before).length =
        .ok (OffsetUnit.codepoint.size before) := offset_boundary hchars
    have hunits : (ofChars s.chars .utf16).offset (Utf8.encodeChars before).length =
        .ok (OffsetUnit.utf16.size before) := offset_boundary hchars
    refine ⟨_, _, hpoints, hunits, ?_⟩
    have hsize := OffsetUnit.size_utf16_eq before
    have hbytes := OffsetUnit.size_utf16_le before
    rw [OffsetUnit.size_codepoint]
    omega
  · intro n hlt hle
    refine ⟨slice_eq_error_iff hlt hle, fun before between after hchars hstart hstop => ?_⟩
    rw [text, hstart, hstop, slice_boundary hchars]

/-- A script of a character of two bytes and one of four, which is a pair in UTF-16. -/
def pairSource : Source := ofChars ['é', '😀'] .utf16

/-- The pair ends three units from the start. Inside it there is no offset, also when it is asked
for again, and no text that begins there. -/
theorem pairSource_offset_exact :
    pairSource.offset 6 = .ok 3 ∧ (∃ e, pairSource.offset 4 = .error e) ∧
    pairSource.offsetsVia [] [4, 6, 4, 6] =
      [pairSource.offset 4, .ok 3, pairSource.offset 4, .ok 3] ∧
    (∃ e, pairSource.text (Ecma.bare "identifier" 4 6 []) = .error e) ∧
    pairSource.text (Ecma.bare "identifier" 2 6 []) = .ok "😀" := by
  obtain ⟨hvia, hoffset, -, -, -, htext⟩ := offset_exact pairSource
  have hlength : pairSource.bytes.length = 6 := rfl
  have hend : pairSource.offset 6 = .ok 3 := (hoffset 6 (by omega)).2.1 ['é', '😀'] [] rfl rfl
  refine ⟨hend, (hoffset 4 (by omega)).2.2 (by decide), ?_, ?_, ?_⟩
  · rw [hvia, List.map_cons, List.map_cons, List.map_cons, List.map_cons, hend]
    rfl
  · exact (htext _ (by decide) (by decide)).1.mpr (.inl (by decide))
  · exact (htext _ (by decide) (by decide)).2 ['é'] ['😀'] [] rfl rfl rfl

end Source

end ScriptGate
