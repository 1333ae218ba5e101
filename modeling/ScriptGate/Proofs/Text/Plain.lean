import ScriptGate.Record.Reader
import ScriptGate.Text.Quoted

/-!
# Texts of characters

A text that holds no lone surrogate consists of characters, and can be encoded. What is cut out of
such texts, put together from them or quoted of them is such a text again.

## Main definitions

* `Text.Plain`: a text that consists of characters.

## Main results

* `Text.plain_iff`, `Text.plain_iff_not_isBroken`: it is one that can be encoded.
* `Text.Plain.quoted`: what is quoted of characters consists of characters.
-/

namespace ScriptGate

namespace Text

@[simp] theorem toChars_append (s t : Text) : toChars (s ++ t) = toChars s ++ toChars t :=
  List.map_append

@[simp] theorem length_toChars (t : Text) : (toChars t).length = t.length := List.length_map _

@[simp] theorem toChars_ofChars (cs : List Char) : toChars (ofChars cs) = cs := by
  rw [toChars, ofChars, List.map_map]
  exact List.map_id cs

/-- The text consists of characters. -/
def Plain (t : Text) : Prop := ∀ p ∈ t, ∃ c, p = .char c

variable {s t : Text}

theorem plain_ofChars (cs : List Char) : Plain (ofChars cs) := by
  intro p hp
  obtain ⟨c, -, rfl⟩ := List.mem_map.mp hp
  exact ⟨c, rfl⟩

theorem plain_ofString (s : String) : Plain (s : Text) := plain_ofChars _

theorem plain_iff : Plain t ↔ ∃ cs, t = ofChars cs := by
  refine ⟨fun h => ?_, fun ⟨cs, hcs⟩ => hcs ▸ plain_ofChars cs⟩
  induction t with
  | nil => exact ⟨[], rfl⟩
  | cons p t ih =>
    obtain ⟨⟨c, rfl⟩, ht⟩ := List.forall_mem_cons.mp h
    obtain ⟨cs, rfl⟩ := ih ht
    exact ⟨c :: cs, rfl⟩

/-- A text consists of characters if and only if it is not broken. -/
theorem plain_iff_not_isBroken : Plain t ↔ Record.isBroken t = false := by
  rw [Plain, Record.isBroken, List.any_eq_false]
  refine forall₂_congr fun p _ => ?_
  cases p with
  | char c => simp [Utf8.isSurrogate]
  | surrogate k => simp [Utf8.isSurrogate]

namespace Plain

theorem append (hs : Plain s) (ht : Plain t) : Plain (s ++ t) := fun p hp =>
  (List.mem_append.mp hp).elim (hs p) (ht p)

theorem sublist (h : s.Sublist t) (ht : Plain t) : Plain s := fun p hp => ht p (h.subset hp)

theorem flatMap {f : CodePoint → Text} (ht : Plain t) (hf : ∀ c, Plain (f (.char c))) :
    Plain (t.flatMap f) := by
  intro p hp
  obtain ⟨q, hq, hp⟩ := List.mem_flatMap.mp hp
  obtain ⟨c, rfl⟩ := ht q hq
  exact hf c p hp

end Plain

theorem plain_hex (width n : Nat) : Plain (hex width n) := by
  induction width generalizing n with
  | zero => simp [hex, Plain]
  | succ width ih => exact (ih (n / 16)).append (by simp [Plain])

/-- What is quoted of characters consists of characters. -/
theorem Plain.quoted (ht : Plain t) : Plain t.quoted := by
  have hescape (q c : Char) : Plain (Quoted.escape q (.char c)) := by
    unfold Quoted.escape
    split
    · exact plain_ofChars ['\\', '\\']
    split
    · exact plain_ofChars ['\\', q]
    split
    · exact plain_ofChars ['\\', 'n']
    split
    · exact plain_ofChars ['\\', 'r']
    split
    · exact plain_ofChars ['\\', 't']
    split
    · exact plain_ofChars [c]
    split
    · exact (plain_ofChars ['\\', 'x']).append (plain_hex _ _)
    split
    · exact (plain_ofChars ['\\', 'u']).append (plain_hex _ _)
    · exact (plain_ofChars ['\\', 'U']).append (plain_hex _ _)
  exact ((plain_ofChars [_]).append (ht.flatMap (hescape _))).append (plain_ofChars [_])

theorem strip_sublist (t : Text) : t.strip.Sublist t := by
  let stripped := CodePoint.isChar Blank.isStripped
  have hfront := List.dropWhile_sublist (l := t) stripped
  have hback := List.dropWhile_sublist (l := (t.dropWhile stripped).reverse) stripped
  have hreverse := hback.reverse
  rw [List.reverse_reverse] at hreverse
  exact hreverse.trans hfront

end Text

end ScriptGate
