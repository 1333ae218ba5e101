import ScriptGate.Proofs.Text.Plain

/-!
# Texts without a character

A text can be taken apart at a character that stands nowhere else in it. Numerals consist of digits,
and in a quoted text everything that is not printable is written as an escape.

## Main definitions

* `Text.Avoids`: the text does not hold the character.

## Main results

* `Text.avoids_ofNat`, `Text.avoids_padded`, `Text.avoids_ofInt`: numerals avoid all but digits.
* `Text.avoids_quoted`: a quoted text is one line, whatever the text is.
-/

namespace ScriptGate.Text

/-- The character does not stand in the text. -/
def Avoids (c : Char) (t : Text) : Prop := .char c ∉ t

instance (c : Char) (t : Text) : Decidable (t.Avoids c) := inferInstanceAs (Decidable (_ ∉ _))

variable {c : Char} {s t : Text}

theorem Avoids.append (hs : s.Avoids c) (ht : t.Avoids c) : (s ++ t).Avoids c := fun h =>
  (List.mem_append.mp h).elim hs ht

theorem avoids_nil : Avoids c [] := List.not_mem_nil

theorem Avoids.cons {d : Char} (hd : c ≠ d) (ht : t.Avoids c) : Avoids c (.char d :: t) := fun h =>
  (List.mem_cons.mp h).elim (fun hc => hd (CodePoint.char.inj hc)) ht

theorem avoids_flatMap {α : Type} {l : List α} {f : α → Text} (h : ∀ a ∈ l, (f a).Avoids c) :
    Avoids c (l.flatMap f) := fun hmem =>
  have ⟨a, ha, hc⟩ := List.mem_flatMap.mp hmem
  h a ha hc

theorem avoids_ofChars_iff {cs : List Char} : (ofChars cs).Avoids c ↔ c ∉ cs := by
  simp [Avoids, ofChars]

/-! ### Numerals -/

theorem avoids_hex (hc : ∀ d < 16, Nat.digitChar d ≠ c) (width n : Nat) :
    (hex width n).Avoids c := by
  induction width generalizing n with
  | zero => exact avoids_nil
  | succ width ih =>
    refine (ih (n / 16)).append fun h => hc (n % 16) (Nat.mod_lt _ (by decide)) ?_
    exact (CodePoint.char.inj (List.mem_singleton.mp h)).symm

theorem avoids_ofNat (hc : c.isDigit = false) (n : Nat) : (ofNat n).Avoids c := by
  refine avoids_ofChars_iff.mpr fun h => ?_
  rw [Nat.toList_repr] at h
  have hdigit := Nat.isDigit_of_mem_toDigits (by decide) (by decide) h
  rw [hc] at hdigit
  cases hdigit

theorem avoids_padded (hc : c.isDigit = false) (width n : Nat) : (padded width n).Avoids c := by
  refine .append (fun h => ?_) (avoids_ofNat hc n)
  obtain rfl := CodePoint.char.inj (List.eq_of_mem_replicate h)
  cases hc

theorem avoids_ofInt (hc : c.isDigit = false) (hminus : c ≠ '-') (n : Int) :
    (ofInt n).Avoids c := by
  cases n with
  | ofNat k => exact avoids_ofNat hc k
  | negSucc k => exact .cons hminus (avoids_ofNat hc (k + 1))

/-! ### Quotations -/

theorem avoids_escape {q : Char} (hq : q ≠ '\n') (p : CodePoint) :
    Avoids '\n' (Quoted.escape q p) := by
  have hhex (width : Nat) : (hex width p.val).Avoids '\n' := avoids_hex (by decide) width p.val
  unfold Quoted.escape
  split
  · decide
  split
  · exact .cons (by decide) (.cons hq.symm avoids_nil)
  split
  · decide
  split
  · decide
  split
  · decide
  split
  case isTrue hfeed _ _ _ => exact fun h => hfeed (List.mem_singleton.mp h).symm
  split
  · exact .append (by decide) (hhex 2)
  split
  · exact .append (by decide) (hhex 4)
  · exact .append (by decide) (hhex 8)

/-- **A quoted text is one line**, whatever the text is. -/
theorem avoids_quoted (t : Text) : t.quoted.Avoids '\n' := by
  have hq : Quoted.quote t ≠ '\n' := by
    rw [Quoted.quote]
    split <;> decide
  exact .append (.cons hq.symm (avoids_flatMap fun p _ => avoids_escape hq p))
    (.cons hq.symm avoids_nil)

end ScriptGate.Text
