import ScriptGate.Proofs.Source.Boundary

/-!
# Slices in units

A place in a script is told in code points or in UTF-16 units, and a reader cuts the script there:
from the list of its characters, or from the list of its UTF-16 units, which are then decoded. The
text between two byte offsets is what is cut at their places, in either unit.

## Main definitions

* `Utf16.encode`, `Utf16.decode`: the units of characters, and the characters of units.
* `OffsetUnit.slice`: the characters between two places.

## Main results

* `Utf16.length_encode`: the size of a text in UTF-16 is the number of its units.
* `Utf16.decode_encode`: decoding undoes encoding.
* `Source.slice_eq`: the text between two byte offsets is the slice at their places.
-/

namespace ScriptGate

/-! ### UTF-16 -/

namespace Utf16

/-- The units of a character: a pair of surrogates past the first plane. -/
def encodeChar (c : Char) : List UInt16 :=
  if c.toNat < 0x10000 then [.ofNat c.toNat]
  else
    [.ofNat (0xD800 + (c.toNat - 0x10000) / 0x400), .ofNat (0xDC00 + (c.toNat - 0x10000) % 0x400)]

/-- The units of a sequence of characters. -/
def encode (cs : List Char) : List UInt16 := cs.flatMap encodeChar

/-- A unit that opens a pair. -/
def isHigh (u : UInt16) : Bool := 0xD800 ≤ u.toNat ∧ u.toNat < 0xDC00

/-- A unit that closes a pair. -/
def isLow (u : UInt16) : Bool := 0xDC00 ≤ u.toNat ∧ u.toNat < 0xE000

/-- The characters of a sequence of units; there are none if half a pair stands alone. -/
def decode : List UInt16 → Option (List Char)
  | [] => some []
  | u :: rest =>
    if isHigh u then
      match rest with
      | [] => none
      | v :: rest =>
        if isLow v then
          (decode rest).map
            (Char.ofNat (0x10000 + (u.toNat - 0xD800) * 0x400 + (v.toNat - 0xDC00)) :: ·)
        else none
    else if isLow u then none
    else (decode rest).map (Char.ofNat u.toNat :: ·)

@[simp] theorem encode_nil : encode [] = [] := rfl

@[simp] theorem encode_cons (c : Char) (cs : List Char) :
    encode (c :: cs) = encodeChar c ++ encode cs := rfl

@[simp] theorem encode_append (cs ds : List Char) : encode (cs ++ ds) = encode cs ++ encode ds :=
  List.flatMap_append

theorem length_encodeChar (c : Char) : (encodeChar c).length = OffsetUnit.utf16.width c := by
  rw [encodeChar, OffsetUnit.width]
  split
  · rfl
  · rfl

/-- **The size of a text in UTF-16 is the number of its units.** -/
theorem length_encode (cs : List Char) : (encode cs).length = OffsetUnit.utf16.size cs := by
  induction cs with
  | nil => rfl
  | cons c cs ih => rw [encode_cons, List.length_append, length_encodeChar, ih, OffsetUnit.size]

private theorem toNat_unit {n : Nat} (h : n < 0x10000) : (UInt16.ofNat n).toNat = n := by
  simp [UInt16.toNat_ofNat', Nat.mod_eq_of_lt h]

/-- A character of the first plane is no half of a pair. -/
private theorem decode_single {n : Nat} (hlt : n < 0x10000) (hn : n < 0xD800 ∨ 0xDFFF < n)
    (rest : List UInt16) :
    decode (.ofNat n :: rest) = (decode rest).map (Char.ofNat n :: ·) := by
  have hhigh : isHigh (.ofNat n) = false := by
    simp only [isHigh, toNat_unit hlt, decide_eq_false_iff_not]
    omega
  have hlow : isLow (.ofNat n) = false := by
    simp only [isLow, toNat_unit hlt, decide_eq_false_iff_not]
    omega
  rw [decode.eq_def]
  simp only [hhigh, hlow, toNat_unit hlt, Bool.false_eq_true, if_false]

private theorem decode_pair {h l : Nat} (hh : h < 0x400) (hl : l < 0x400) (rest : List UInt16) :
    decode (.ofNat (0xD800 + h) :: .ofNat (0xDC00 + l) :: rest) =
      (decode rest).map (Char.ofNat (0x10000 + h * 0x400 + l) :: ·) := by
  have hfirst : (UInt16.ofNat (0xD800 + h)).toNat = 0xD800 + h := toNat_unit (by omega)
  have hsecond : (UInt16.ofNat (0xDC00 + l)).toNat = 0xDC00 + l := toNat_unit (by omega)
  have hhigh : isHigh (.ofNat (0xD800 + h)) = true := by
    simp only [isHigh, hfirst, decide_eq_true_eq]
    omega
  have hlow : isLow (.ofNat (0xDC00 + l)) = true := by
    simp only [isLow, hsecond, decide_eq_true_eq]
    omega
  rw [decode, hhigh, if_pos rfl, hlow, if_pos rfl, hfirst, hsecond, Nat.add_sub_cancel_left,
    Nat.add_sub_cancel_left]

/-- One step undoes the encoding of one character. -/
theorem decode_encodeChar_append (c : Char) (rest : List UInt16) :
    decode (encodeChar c ++ rest) = (decode rest).map (c :: ·) := by
  have hc : c.toNat < 0xD800 ∨ 0xDFFF < c.toNat ∧ c.toNat < 0x110000 := c.valid
  rw [encodeChar]
  split
  case isTrue hlt =>
    rw [List.singleton_append, decode_single hlt (by omega), Char.ofNat_toNat]
  case isFalse hge =>
    have hjoin : 0x10000 + (c.toNat - 0x10000) / 0x400 * 0x400 + (c.toNat - 0x10000) % 0x400 =
        c.toNat := by omega
    rw [List.cons_append, List.singleton_append, decode_pair (by omega) (by omega), hjoin,
      Char.ofNat_toNat]

/-- **Decoding undoes encoding.** -/
theorem decode_encode (cs : List Char) : decode (encode cs) = some cs := by
  induction cs with
  | nil => rfl
  | cons c cs ih => rw [encode_cons, decode_encodeChar_append, ih, Option.map_some]

end Utf16

/-! ### Slices -/

namespace OffsetUnit

/-- The characters between two places that are told in the unit. Between the units of a pair there
is no place, and a slice that begins or ends there is none. -/
def slice : OffsetUnit → List Char → (start stop : Nat) → Option (List Char)
  | codepoint, cs, start, stop => some ((cs.drop start).take (stop - start))
  | utf16, cs, start, stop => Utf16.decode (((Utf16.encode cs).drop start).take (stop - start))

theorem size_codepoint (cs : List Char) : codepoint.size cs = cs.length := by
  induction cs with
  | nil => rfl
  | cons c cs ih => rw [size, ih, width, List.length_cons, Nat.add_comm]

theorem size_le (u : OffsetUnit) (cs : List Char) : u.size cs ≤ 2 * cs.length := by
  induction cs with
  | nil => exact Nat.le_refl _
  | cons c cs ih =>
    have hwidth : u.width c ≤ 2 := by
      cases u with
      | codepoint => simp [width]
      | utf16 => grind [width]
    rw [size, List.length_cons]
    omega

/-- What stands between two beginnings of a text is cut out at their sizes. -/
theorem slice_size (u : OffsetUnit) (before between after : List Char) :
    u.slice (before ++ between ++ after) (u.size before) (u.size (before ++ between)) =
      some between := by
  rw [size_append, List.append_assoc]
  cases u with
  | codepoint =>
    rw [slice, size_codepoint, size_codepoint, List.drop_left, Nat.add_sub_cancel_left,
      List.take_left]
  | utf16 =>
    rw [slice, ← Utf16.length_encode, ← Utf16.length_encode, Utf16.encode_append, List.drop_left,
      Nat.add_sub_cancel_left, Utf16.encode_append, List.take_left, Utf16.decode_encode]

end OffsetUnit

namespace Source

variable {s : Source} {a b : Nat}

theorem place_boundary {before after : List Char} (h : s.chars = before ++ after) :
    s.place (Utf8.encodeChars before).length = s.unit.size before := by
  rw [place, offset_boundary h]
  rfl

theorem place_le_size (h : s.IsBoundary a) : s.place a ≤ s.unit.size s.chars := by
  obtain ⟨before, after, hs, rfl⟩ := h
  rw [place_boundary hs, hs, OffsetUnit.size_append]
  omega

/-- Characters in between take up some of the script in either unit. -/
theorem place_lt (ha : s.IsBoundary a) (hb : s.IsBoundary b) (hab : a < b) :
    s.place a < s.place b := by
  obtain ⟨p, p', hp, rfl⟩ := ha
  obtain ⟨q, q', hq, rfl⟩ := hb
  obtain ⟨rest, rfl⟩ :=
    Utf8.prefix_of_length_encodeChars_le ⟨p', hp.symm⟩ ⟨q', hq.symm⟩ (Nat.le_of_lt hab)
  rw [place_boundary hp, place_boundary hq, OffsetUnit.size_append]
  cases rest with
  | nil => simp at hab
  | cons c rest =>
    have hwidth : 0 < s.unit.width c := by
      rw [OffsetUnit.width.eq_def]
      split
      · omega
      · split <;> omega
    rw [OffsetUnit.size]
    omega

/-- **The text between two byte offsets is the slice of the script at their places**, in the unit
of the source. -/
theorem slice_eq (ha : s.IsBoundary a) (hb : s.IsBoundary b) (hab : a ≤ b) :
    ∃ between, s.slice a b = .ok (Text.ofChars between) ∧
      s.unit.slice s.chars (s.place a) (s.place b) = some between := by
  obtain ⟨p, p', hp, rfl⟩ := ha
  obtain ⟨q, q', hq, rfl⟩ := hb
  obtain ⟨between, rfl⟩ :=
    Utf8.prefix_of_length_encodeChars_le ⟨p', hp.symm⟩ ⟨q', hq.symm⟩ hab
  refine ⟨between, slice_boundary hq, ?_⟩
  rw [place_boundary hp, place_boundary hq, hq, OffsetUnit.slice_size]

end Source

end ScriptGate
