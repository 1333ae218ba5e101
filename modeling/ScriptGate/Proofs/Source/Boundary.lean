import ScriptGate.Proofs.Text.RoundTrip
import ScriptGate.Source.Basic

/-!
# Byte offsets between characters

A byte offset is a boundary if it stands between two characters of the script or at one of its
ends. At a boundary the character offset is the size of the characters before it, on every path that
computes it, and between two boundaries the text of the script can be read.

## Main definitions

* `Source.IsBoundary`: a byte offset that stands between characters.

## Main results

* `Source.offset_boundary`: the character offset at a boundary.
* `Source.offset_mono`: character offsets are in the order of the byte offsets.
* `Source.slice_of_isBoundary`: the text between two boundaries can be read.
-/

namespace ScriptGate

/-! ### Sizes of character sequences -/

namespace OffsetUnit

theorem size_append (u : OffsetUnit) (cs ds : List Char) :
    u.size (cs ++ ds) = u.size cs + u.size ds := by
  induction cs with
  | nil => simp [size]
  | cons c cs ih => simp [size, ih, Nat.add_assoc]

end OffsetUnit

namespace Utf8

theorem length_encodeChar_pos (c : Char) : 0 < (encodeChar c).length := by
  obtain ⟨b, tail, hb, -⟩ := step_encodeChar c []
  simp [hb]

theorem length_le_length_encodeChars (cs : List Char) : cs.length ≤ (encodeChars cs).length := by
  induction cs with
  | nil => simp
  | cons c cs ih =>
    have hc := length_encodeChar_pos c
    simp only [encodeChars_cons, List.length_append, List.length_cons]
    omega

/-- A character of one byte is one unit of either kind. -/
theorem width_of_length_encodeChar (u : OffsetUnit) {c : Char} (h : (encodeChar c).length = 1) :
    u.width c = 1 := by
  have hc : c.toNat < 0x80 := by
    rw [encodeChar] at h
    split at h
    · assumption
    · split at h
      · simp at h
      · split at h <;> simp at h
  cases u with
  | codepoint => rfl
  | utf16 => simp only [OffsetUnit.width, if_pos (show c.toNat < 0x10000 by omega)]

/-- Where every character takes one byte, bytes and units of either kind count the same. -/
theorem size_of_length_encodeChars (u : OffsetUnit) {cs : List Char}
    (h : (encodeChars cs).length = cs.length) : u.size cs = (encodeChars cs).length := by
  induction cs with
  | nil => rfl
  | cons c cs ih =>
    have hc := length_encodeChar_pos c
    have hcs := length_le_length_encodeChars cs
    simp only [encodeChars_cons, List.length_append, List.length_cons] at h ⊢
    rw [OffsetUnit.size, ih (by omega), width_of_length_encodeChar u (by omega)]
    omega

/-- Of two beginnings of one sequence, the one with fewer bytes begins the other. -/
theorem prefix_of_length_encodeChars_le {cs ds all : List Char} (hc : cs <+: all) (hd : ds <+: all)
    (h : (encodeChars cs).length ≤ (encodeChars ds).length) : cs <+: ds := by
  rcases List.prefix_or_prefix_of_prefix hc hd with hcd | ⟨rest, rfl⟩
  · exact hcd
  · have hrest := length_le_length_encodeChars rest
    simp only [encodeChars_append, List.length_append] at h
    obtain rfl : rest = [] := List.length_eq_zero_iff.mp (by omega)
    simp

end Utf8

namespace Source

variable (s : Source)

/-- The byte offset stands between two characters of the script, or at one of its ends. -/
def IsBoundary (b : Nat) : Prop :=
  ∃ before after, s.chars = before ++ after ∧ b = (Utf8.encodeChars before).length

instance (b : Nat) : Decidable (s.IsBoundary b) :=
  decidable_of_iff
    (∃ k ∈ List.range (s.chars.length + 1), b = (Utf8.encodeChars (s.chars.take k)).length)
    ⟨fun ⟨k, _, hb⟩ => ⟨_, _, (List.take_append_drop k s.chars).symm, hb⟩,
      fun ⟨before, after, h, hb⟩ => ⟨before.length,
        List.mem_range.mpr (by rw [h, List.length_append]; omega), by simp [h, hb]⟩⟩

variable {s}

theorem take_bytes {before after : List Char} (h : s.chars = before ++ after) :
    s.bytes.take (Utf8.encodeChars before).length = Utf8.encodeChars before := by
  simp [s.bytes_eq, h]

/-- **The character offset at a boundary** is the size of the characters before it. Where all
characters are ASCII the offset is not computed, but it is the same. -/
theorem offset_boundary {before after : List Char} (h : s.chars = before ++ after) :
    s.offset (Utf8.encodeChars before).length = .ok (s.unit.size before) := by
  rw [offset]
  split
  case isTrue hascii =>
    have hlen : (Utf8.encodeChars s.chars).length = s.chars.length := by
      simpa [isAscii, s.bytes_eq] using hascii
    rw [h] at hlen
    have hbefore := Utf8.length_le_length_encodeChars before
    have hafter := Utf8.length_le_length_encodeChars after
    simp only [Utf8.encodeChars_append, List.length_append] at hlen
    rw [Utf8.size_of_length_encodeChars s.unit (by omega)]
  case isFalse =>
    rw [decodedOffset, take_bytes h, Utf8.decode_encodeChars]
    rfl

theorem offset_of_isBoundary {b : Nat} (h : s.IsBoundary b) : ∃ k, s.offset b = .ok k := by
  obtain ⟨before, after, hs, rfl⟩ := h
  exact ⟨_, offset_boundary hs⟩

/-- **Character offsets are in the order of the byte offsets**, at boundaries. -/
theorem offset_mono {a b x y : Nat} (ha : s.IsBoundary a) (hb : s.IsBoundary b) (hab : a ≤ b)
    (hx : s.offset a = .ok x) (hy : s.offset b = .ok y) : x ≤ y := by
  obtain ⟨p, p', hp, rfl⟩ := ha
  obtain ⟨q, q', hq, rfl⟩ := hb
  rw [offset_boundary hp] at hx
  rw [offset_boundary hq] at hy
  cases hx
  cases hy
  obtain ⟨rest, rfl⟩ :=
    Utf8.prefix_of_length_encodeChars_le ⟨p', hp.symm⟩ ⟨q', hq.symm⟩ hab
  rw [OffsetUnit.size_append]
  omega

/-- The character offset of a boundary. -/
def place (s : Source) (b : Nat) : Nat := (s.offset b).toOption.getD 0

theorem offset_eq_place {b : Nat} (h : s.IsBoundary b) : s.offset b = .ok (s.place b) := by
  obtain ⟨k, hk⟩ := offset_of_isBoundary h
  simp [place, hk, Except.toOption]

theorem place_mono {a b : Nat} (ha : s.IsBoundary a) (hb : s.IsBoundary b) (hab : a ≤ b) :
    s.place a ≤ s.place b :=
  offset_mono ha hb hab (offset_eq_place ha) (offset_eq_place hb)

/-- The text between two places of the script. -/
theorem slice_boundary {before between after : List Char}
    (h : s.chars = before ++ between ++ after) :
    s.slice (Utf8.encodeChars before).length (Utf8.encodeChars (before ++ between)).length =
      .ok (Text.ofChars between) := by
  have hbytes : s.bytes = Utf8.encodeChars before ++ (Utf8.encodeChars between ++
      Utf8.encodeChars after) := by simp [s.bytes_eq, h]
  rw [slice, hbytes, List.drop_left, Utf8.encodeChars_append, List.length_append,
    Nat.add_sub_cancel_left, List.take_left, Utf8.decode_encodeChars]
  rfl

/-- **The text between two boundaries can be read.** It is empty if they are in the wrong order. -/
theorem slice_of_isBoundary {a b : Nat} (ha : s.IsBoundary a) (hb : s.IsBoundary b) :
    ∃ t, s.slice a b = .ok t := by
  by_cases hab : a ≤ b
  · obtain ⟨p, p', hp, rfl⟩ := ha
    obtain ⟨q, q', hq, rfl⟩ := hb
    obtain ⟨rest, rfl⟩ :=
      Utf8.prefix_of_length_encodeChars_le ⟨p', hp.symm⟩ ⟨q', hq.symm⟩ hab
    exact ⟨_, slice_boundary hq⟩
  · refine ⟨[], ?_⟩
    rw [slice, Nat.sub_eq_zero_of_le (by omega), List.take_zero]
    rfl

end Source

end ScriptGate
