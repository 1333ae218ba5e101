import Mathlib.Data.List.TakeDrop
import Mathlib.Data.Rat.Cast.Order
import ScriptGate.Proofs.Text.Plain

/-!
# Whole numbers in strings and among doubles

A string is a whole number if it spells one: blanks around it, a sign, digits in groups with single
underscores between them, and a fraction of zeros. A double is a whole number if its value is one.
Both are stated here without the functions that read them, and these functions accept exactly what
is stated.

## Main definitions

* `Numeral.Grouped`, `Numeral.Signed`, `Numeral.ZeroFraction`: the parts of a whole number.
* `Numeral.Spells`: the strings that spell a whole number.
* `Binary64.toRat?`: the value of a double.

## Main results

* `Numeral.integerOfText?_eq_some_iff`: a string is read as the number that it spells.
* `Binary64.toInt?_eq_some_iff`: a double is read as the integer that is its value.
-/

namespace ScriptGate

/-! ### Strings -/

namespace Numeral

/-- The characters are groups of digits, with a single underscore between neighbours. -/
def Grouped (cs : List Char) (ds : List Nat) : Prop :=
  ∃ groups : List (List Char), groups ≠ [] ∧ (∀ g ∈ groups, g ≠ []) ∧
    cs = List.intercalate ['_'] groups ∧ groups.flatten.map Digit.ascii? = ds.map some

/-- A sign, which may be left out, turns a natural number into an integer. -/
inductive Signed : List Char → Nat → Int → Prop
  | bare (n : Nat) : Signed [] n n
  | plus (n : Nat) : Signed ['+'] n n
  | minus (n : Nat) : Signed ['-'] n (-n)

/-- No fraction, or one of zeros. -/
inductive ZeroFraction : List Char → Prop
  | absent : ZeroFraction []
  | zeros (k : Nat) : ZeroFraction ('.' :: List.replicate (k + 1) '0')

/-- The characters spell a whole number. -/
inductive Spells : List Char → Int → Prop
  | mk {before sign digits fraction after : List Char} {ds : List Nat} {n : Int}
      (hbefore : ∀ c ∈ before, Blank.isSpace c = true) (hsign : Signed sign (value ds) n)
      (hdigits : Grouped digits ds) (hfraction : ZeroFraction fraction)
      (hafter : ∀ c ∈ after, Blank.isSpace c = true) :
      Spells (before ++ (sign ++ (digits ++ fraction)) ++ after) n

variable {cs rest : List Char} {ds : List Nat} {c : Char} {d : Nat} {n : Int}

theorem Grouped.of_digit (h : Digit.ascii? c = some d) : Grouped [c] [d] :=
  ⟨[[c]], by simp, by simp, by simp, by simp [h]⟩

/-- A digit in front begins a group of its own. -/
theorem Grouped.group (hc : Digit.ascii? c = some d) (h : Grouped rest ds) :
    Grouped (c :: '_' :: rest) (d :: ds) := by
  obtain ⟨groups, hne, hgroups, rfl, hds⟩ := h
  obtain ⟨g, gs, rfl⟩ := List.exists_cons_of_ne_nil hne
  refine ⟨[c] :: g :: gs, by simp, ?_, ?_, ?_⟩
  · simpa using hgroups
  · rw [List.intercalate_cons_cons]
    rfl
  · simpa [hc] using hds

/-- A digit in front joins the first group. -/
theorem Grouped.extend (hc : Digit.ascii? c = some d) (h : Grouped rest ds) :
    Grouped (c :: rest) (d :: ds) := by
  obtain ⟨groups, hne, hgroups, rfl, hds⟩ := h
  obtain ⟨g, gs, rfl⟩ := List.exists_cons_of_ne_nil hne
  refine ⟨(c :: g) :: gs, by simp, ?_, ?_, ?_⟩
  · simpa using (List.forall_mem_cons.mp hgroups).2
  · cases gs with
    | nil => simp
    | cons g' gs => rw [List.intercalate_cons_cons, List.intercalate_cons_cons]; rfl
  · simpa [hc] using hds

theorem grouped_of_grouped? (h : grouped? Digit.ascii? cs = some ds) : Grouped cs ds := by
  fun_induction grouped? Digit.ascii? cs generalizing ds with
  | case1 => cases h
  | case2 c =>
    obtain ⟨d, hd, rfl⟩ := Option.map_eq_some_iff.mp h
    exact .of_digit hd
  | case3 c rest ih =>
    obtain ⟨d, hd, h⟩ := Option.bind_eq_some_iff.mp h
    obtain ⟨es, hes, rfl⟩ := Option.map_eq_some_iff.mp h
    exact (ih hes).group hd
  | case4 c rest _ _ ih =>
    obtain ⟨d, hd, h⟩ := Option.bind_eq_some_iff.mp h
    obtain ⟨es, hes, rfl⟩ := Option.map_eq_some_iff.mp h
    exact (ih hes).extend hd

theorem grouped?_digit (hc : Digit.ascii? c = some d) : grouped? Digit.ascii? [c] = some [d] := by
  simp [grouped?, hc]

theorem grouped?_group (hc : Digit.ascii? c = some d) (h : grouped? Digit.ascii? rest = some ds) :
    grouped? Digit.ascii? (c :: '_' :: rest) = some (d :: ds) := by
  simp [grouped?, hc, h]

theorem grouped?_extend (hc : Digit.ascii? c = some d) (h : grouped? Digit.ascii? rest = some ds) :
    grouped? Digit.ascii? (c :: rest) = some (d :: ds) := by
  -- A numeral does not begin with an underscore, so that the digit does not end a group here.
  have hunder (tail : List Char) : rest ≠ '_' :: tail := by
    rintro rfl
    cases tail with
    | nil => simp [grouped?, Digit.ascii?] at h
    | cons x tail => by_cases hx : x = '_' <;> simp [grouped?, Digit.ascii?, hx] at h
  rw [grouped?, hc, h]
  · rfl
  · rintro rfl
    simp [grouped?] at h
  · exact hunder

/-- A group is read digit by digit, and what follows its last digit with that digit. -/
theorem grouped?_append {g tail : List Char} {es : List Nat} (hne : g ≠ [])
    (hg : g.map Digit.ascii? = es.map some)
    (htail : ∀ c d, Digit.ascii? c = some d →
      grouped? Digit.ascii? (c :: tail) = some (d :: ds)) :
    grouped? Digit.ascii? (g ++ tail) = some (es ++ ds) := by
  induction g generalizing es with
  | nil => exact absurd rfl hne
  | cons c g ih =>
    cases es with
    | nil => cases hg
    | cons e es =>
      obtain ⟨hc, hg⟩ := List.cons.inj hg
      by_cases hlast : g = []
      · subst hlast
        obtain rfl : es = [] := by simpa using hg.symm
        exact htail c e hc
      · exact grouped?_extend hc (ih hlast hg)

/-- **The reader of digits accepts exactly groups of digits.** -/
theorem grouped?_eq_some_iff : grouped? Digit.ascii? cs = some ds ↔ Grouped cs ds := by
  refine ⟨grouped_of_grouped?, ?_⟩
  rintro ⟨groups, hne, hgroups, rfl, hds⟩
  induction groups generalizing ds with
  | nil => exact absurd rfl hne
  | cons g gs ih =>
    obtain ⟨hg, hgs⟩ := List.forall_mem_cons.mp hgroups
    rw [List.flatten_cons, List.map_append] at hds
    obtain ⟨es, fs, rfl, hes, hfs⟩ := List.map_eq_append_iff.mp hds.symm
    cases gs with
    | nil =>
      obtain rfl : fs = [] := by simpa using hfs
      have hread : grouped? Digit.ascii? (g ++ []) = some (es ++ []) :=
        grouped?_append hg hes.symm fun c d => grouped?_digit
      simpa using hread
    | cons g' gs =>
      rw [List.intercalate_cons_cons, List.append_assoc]
      exact grouped?_append hg hes.symm fun c d hc => grouped?_group hc (ih (by simp) hgs hfs.symm)

theorem isDigit_of_ascii? (h : Digit.ascii? c = some d) : c.isDigit = true := by
  rw [Digit.ascii?] at h
  split at h
  next hc => exact hc
  next => cases h

/-- Groups of digits begin and end with a digit. -/
theorem Grouped.ends (h : Grouped cs ds) :
    (∃ c ∈ cs.head?, c.isDigit = true) ∧ ∃ c ∈ cs.getLast?, c.isDigit = true := by
  rw [← grouped?_eq_some_iff] at h
  fun_induction grouped? Digit.ascii? cs generalizing ds with
  | case1 => cases h
  | case2 c =>
    obtain ⟨d, hd, -⟩ := Option.map_eq_some_iff.mp h
    exact ⟨⟨c, rfl, isDigit_of_ascii? hd⟩, c, rfl, isDigit_of_ascii? hd⟩
  | case3 c rest ih =>
    obtain ⟨d, hd, h⟩ := Option.bind_eq_some_iff.mp h
    obtain ⟨es, hes, -⟩ := Option.map_eq_some_iff.mp h
    obtain ⟨-, x, hx, hdigit⟩ := ih hes
    refine ⟨⟨c, rfl, isDigit_of_ascii? hd⟩, x, ?_, hdigit⟩
    rw [List.getLast?_cons, List.getLast?_cons, Option.mem_def.mp hx]
    rfl
  | case4 c rest _ _ ih =>
    obtain ⟨d, hd, h⟩ := Option.bind_eq_some_iff.mp h
    obtain ⟨es, hes, -⟩ := Option.map_eq_some_iff.mp h
    obtain ⟨-, x, hx, hdigit⟩ := ih hes
    refine ⟨⟨c, rfl, isDigit_of_ascii? hd⟩, x, ?_, hdigit⟩
    rw [List.getLast?_cons, Option.mem_def.mp hx]
    rfl

theorem Grouped.not_mem_point (h : Grouped cs ds) : '.' ∉ cs := by
  rw [← grouped?_eq_some_iff] at h
  intro hpoint
  fun_induction grouped? Digit.ascii? cs generalizing ds with
  | case1 => cases h
  | case2 c =>
    obtain rfl := List.mem_singleton.mp hpoint
    cases h
  | case3 c rest ih =>
    obtain ⟨d, hd, h⟩ := Option.bind_eq_some_iff.mp h
    obtain ⟨es, hes, -⟩ := Option.map_eq_some_iff.mp h
    simp only [List.mem_cons, (by decide : '.' ≠ '_'), false_or] at hpoint
    rcases hpoint with rfl | hpoint
    · cases hd
    · exact ih hes hpoint
  | case4 c rest _ _ ih =>
    obtain ⟨d, hd, h⟩ := Option.bind_eq_some_iff.mp h
    obtain ⟨es, hes, -⟩ := Option.map_eq_some_iff.mp h
    rcases List.mem_cons.mp hpoint with rfl | hpoint
    · cases hd
    · exact ih hes hpoint

theorem splitSign_of_digit (h : ∃ c ∈ cs.head?, c.isDigit = true) : splitSign cs = (false, cs) := by
  obtain ⟨c, hc, hdigit⟩ := h
  obtain ⟨tail, rfl⟩ := List.head?_eq_some_iff.mp hc
  have hminus : c ≠ '-' := by rintro rfl; cases hdigit
  have hplus : c ≠ '+' := by rintro rfl; cases hdigit
  simp [splitSign, hminus, hplus]

/-- What is split off is a sign, and it is told how the sign counts. -/
theorem exists_sign (cs : List Char) : ∃ sign, cs = sign ++ (splitSign cs).2 ∧
    ∀ k : Nat, Signed sign k (if (splitSign cs).1 then -(k : Int) else k) := by
  unfold splitSign
  split
  next => exact ⟨['-'], rfl, .minus⟩
  next => exact ⟨['+'], rfl, .plus⟩
  next => exact ⟨[], rfl, .bare⟩

/-- **The reader of signed numerals accepts exactly a sign and groups of digits.** -/
theorem signed?_eq_some_iff : signed? Digit.ascii? none cs = some n ↔
    ∃ sign digits ds, cs = sign ++ digits ∧ Signed sign (value ds) n ∧ Grouped digits ds := by
  simp only [← grouped?_eq_some_iff]
  constructor
  · intro h
    obtain ⟨ds, hds, hn⟩ := Option.bind_eq_some_iff.mp h
    obtain ⟨sign, hcs, hsign⟩ := exists_sign cs
    exact ⟨sign, _, ds, hcs, Option.some.inj hn ▸ hsign _, hds⟩
  · rintro ⟨sign, digits, ds, rfl, hsign, hdigits⟩
    have hbare := splitSign_of_digit (grouped_of_grouped? hdigits).ends.1
    generalize hk : value ds = k at hsign
    cases hsign with
    | bare => simp [signed?, hbare, hdigits, hk]
    | plus => simp [signed?, splitSign, hdigits, hk]
    | minus => simp [signed?, splitSign, hdigits, hk]

/-! ### Fractions and blanks -/

theorem span_of_not_mem_point {w f : List Char} (hw : '.' ∉ w) (hf : ∀ c ∈ f.head?, c = '.') :
    (w ++ f).span (· ≠ '.') = (w, f) := by
  have hwhole : ∀ c ∈ w, decide (c ≠ '.') = true := fun c hc =>
    decide_eq_true fun h => hw (h ▸ hc)
  rw [List.span_eq_takeWhile_dropWhile, List.takeWhile_append_of_pos hwhole,
    List.dropWhile_append_of_pos hwhole]
  cases f with
  | nil => simp
  | cons c f => simp [hf c rfl]

theorem withoutZeros_append {w f : List Char} (hw : '.' ∉ w) (hf : ZeroFraction f) :
    Record.withoutZeros (w ++ f) = w := by
  cases hf with
  | absent =>
    rw [Record.withoutZeros, span_of_not_mem_point hw (by simp)]
    exact List.append_nil w
  | zeros k =>
    rw [Record.withoutZeros, span_of_not_mem_point hw (by simp)]
    simp

/-- What is left out at the end is a fraction of zeros. -/
theorem exists_zeroFraction (cs : List Char) :
    ∃ f, ZeroFraction f ∧ cs = Record.withoutZeros cs ++ f := by
  unfold Record.withoutZeros
  split
  next whole zeros hspan =>
    split
    next hzeros =>
      rw [List.span_eq_takeWhile_dropWhile] at hspan
      obtain ⟨hwhole, hrest⟩ := Prod.mk.inj hspan
      simp only [Bool.and_eq_true, Bool.not_eq_true', List.isEmpty_eq_false_iff,
        List.all_eq_true, decide_eq_true_eq] at hzeros
      obtain ⟨k, hk⟩ : ∃ k, zeros.length = k + 1 :=
        ⟨_, (Nat.succ_pred_eq_of_pos (List.length_pos_iff.mpr hzeros.1)).symm⟩
      refine ⟨'.' :: zeros, ?_, ?_⟩
      · rw [List.eq_replicate_iff.mpr ⟨hk, hzeros.2⟩]
        exact .zeros k
      · rw [← hwhole, ← hrest, List.takeWhile_append_dropWhile]
    next => exact ⟨[], .absent, (List.append_nil cs).symm⟩
  next => exact ⟨[], .absent, (List.append_nil cs).symm⟩

end Numeral

namespace Text

variable {p : CodePoint → Bool} {before t after : Text}

/-- What is dropped at the ends is of the class. -/
theorem exists_dropEnds (p : CodePoint → Bool) (t : Text) : ∃ before after,
    t = before ++ dropEnds p t ++ after ∧ (∀ c ∈ before, p c = true) ∧ ∀ c ∈ after, p c = true := by
  refine ⟨t.takeWhile p, ((t.dropWhile p).reverse.takeWhile p).reverse, ?_,
    List.all_eq_true.mp List.all_takeWhile,
    fun c hc => List.all_eq_true.mp List.all_takeWhile c (List.mem_reverse.mp hc)⟩
  rw [dropEnds, List.append_assoc, ← List.reverse_append, List.takeWhile_append_dropWhile,
    List.reverse_reverse, List.takeWhile_append_dropWhile]

/-- What is between code points of the class is kept if its own ends are of another. -/
theorem dropEnds_append (hbefore : ∀ c ∈ before, p c = true) (hafter : ∀ c ∈ after, p c = true)
    (hfirst : ∃ c ∈ t.head?, p c = false) (hlast : ∃ c ∈ t.getLast?, p c = false) :
    dropEnds p (before ++ t ++ after) = t := by
  obtain ⟨x, hx, hpx⟩ := hfirst
  obtain ⟨y, hy, hpy⟩ := hlast
  have hfront : (before ++ t ++ after).dropWhile p = t ++ after := by
    obtain ⟨tail, rfl⟩ := List.head?_eq_some_iff.mp hx
    rw [List.append_assoc, List.dropWhile_append_of_pos hbefore, List.cons_append,
      List.dropWhile_cons_of_neg (by simp [hpx])]
  have hback : (t ++ after).reverse.dropWhile p = t.reverse := by
    obtain ⟨init, rfl⟩ := List.getLast?_eq_some_iff.mp hy
    rw [List.reverse_append, List.dropWhile_append_of_pos fun c hc =>
      hafter c (List.mem_reverse.mp hc), List.reverse_append, List.reverse_singleton,
      List.singleton_append, List.dropWhile_cons_of_neg (by simp [hpy])]
  rw [dropEnds, hfront, hback, List.reverse_reverse]

theorem trim_ofChars {front middle back : List Char}
    (hfront : ∀ c ∈ front, Blank.isSpace c = true) (hback : ∀ c ∈ back, Blank.isSpace c = true)
    (hfirst : ∃ c ∈ middle.head?, Blank.isSpace c = false)
    (hlast : ∃ c ∈ middle.getLast?, Blank.isSpace c = false) :
    trim (ofChars (front ++ middle ++ back)) = ofChars middle := by
  obtain ⟨x, hx, hpx⟩ := hfirst
  obtain ⟨y, hy, hpy⟩ := hlast
  have hclass {l : List Char} (h : ∀ c ∈ l, Blank.isSpace c = true) :
      ∀ p ∈ ofChars l, CodePoint.isChar Blank.isSpace p = true := by
    intro p hp
    obtain ⟨c, hc, rfl⟩ := List.mem_map.mp hp
    exact h c hc
  rw [ofChars, List.map_append, List.map_append]
  refine dropEnds_append (hclass hfront) (hclass hback) ⟨.char x, ?_, hpx⟩ ⟨.char y, ?_, hpy⟩
  · rw [List.head?_map, Option.mem_def.mp hx]
    rfl
  · rw [List.getLast?_map, Option.mem_def.mp hy]
    rfl

end Text

namespace Numeral

variable {cs rest : List Char} {c : Char} {n : Int}

theorem isSpace_of_isDigit (h : c.isDigit = true) : Blank.isSpace c = false := by
  simp only [Char.isDigit, Bool.and_eq_true, decide_eq_true_eq, UInt32.le_iff_toNat_le] at h
  have hc : c.toNat = c.val.toNat := rfl
  have h0 : '0'.val.toNat = 48 := rfl
  have h9 : '9'.val.toNat = 57 := rfl
  simp [Blank.isSpace]
  omega

theorem Signed.head {sign : List Char} {k : Nat} (h : Signed sign k n)
    (hrest : ∃ c ∈ rest.head?, c.isDigit = true) :
    ∃ c ∈ (sign ++ rest).head?, Blank.isSpace c = false := by
  cases h with
  | bare =>
    obtain ⟨c, hc, hdigit⟩ := hrest
    exact ⟨c, hc, isSpace_of_isDigit hdigit⟩
  | plus => exact ⟨'+', rfl, rfl⟩
  | minus => exact ⟨'-', rfl, rfl⟩

theorem Signed.not_mem_point {sign : List Char} {k : Nat} (h : Signed sign k n) : '.' ∉ sign := by
  cases h <;> simp

theorem ZeroFraction.last {fraction : List Char} (h : ZeroFraction fraction)
    (hrest : ∃ c ∈ rest.getLast?, c.isDigit = true) :
    ∃ c ∈ (rest ++ fraction).getLast?, Blank.isSpace c = false := by
  cases h with
  | absent =>
    obtain ⟨c, hc, hdigit⟩ := hrest
    exact ⟨c, by simpa using hc, isSpace_of_isDigit hdigit⟩
  | zeros k => exact ⟨'0', by simp [List.replicate_succ', List.getLast?_cons], rfl⟩

/-- **A string is read as the whole number that it spells.** -/
theorem integerOfText?_eq_some_iff :
    Record.integerOfText? (Text.ofChars cs) = some n ↔ Spells cs n := by
  rw [Record.integerOfText?]
  constructor
  · intro h
    obtain ⟨before, after, hcs, hbefore, hafter⟩ :=
      Text.exists_dropEnds (CodePoint.isChar Blank.isSpace) (Text.ofChars cs)
    obtain ⟨front, back, rfl, hfront, rfl⟩ := List.map_eq_append_iff.mp hcs
    obtain ⟨front, middle, rfl, rfl, hmiddle⟩ := List.map_eq_append_iff.mp hfront
    rw [Text.trim, ← hmiddle, ← Text.ofChars, Text.toChars_ofChars] at h
    obtain ⟨fraction, hfraction, hsplit⟩ := exists_zeroFraction middle
    obtain ⟨sign, digits, ds, hnumeral, hsign, hdigits⟩ := signed?_eq_some_iff.mp h
    rw [hsplit, hnumeral, List.append_assoc sign]
    exact .mk (fun c hc => hbefore _ (List.mem_map_of_mem hc)) hsign hdigits hfraction
      fun c hc => hafter _ (List.mem_map_of_mem hc)
  · rintro ⟨hbefore, hsign, hdigits, hfraction, hafter⟩
    rename_i before sign digits fraction after ds
    obtain ⟨⟨x, hx, hxdigit⟩, y, hy, hydigit⟩ := hdigits.ends
    have hfirst : ∃ c ∈ (sign ++ (digits ++ fraction)).head?, Blank.isSpace c = false :=
      hsign.head ⟨x, by simp [Option.mem_def.mp hx], hxdigit⟩
    have hlast : ∃ c ∈ (sign ++ (digits ++ fraction)).getLast?, Blank.isSpace c = false := by
      rw [← List.append_assoc]
      exact hfraction.last ⟨y, by simp [Option.mem_def.mp hy], hydigit⟩
    have hpoint : '.' ∉ sign ++ digits := by
      simpa using ⟨hsign.not_mem_point, hdigits.not_mem_point⟩
    rw [Text.trim_ofChars hbefore hafter hfirst hlast, Text.toChars_ofChars, ← List.append_assoc,
      withoutZeros_append hpoint hfraction]
    exact signed?_eq_some_iff.mpr ⟨sign, digits, ds, rfl, hsign, hdigits⟩

end Numeral

/-! ### Doubles -/

namespace Binary64

/-- The value of a double; none if it is infinite or not a number. -/
def toRat? : Binary64 → Option ℚ
  | finite negative m e => some (if negative then -(m * 2 ^ e) else m * 2 ^ e)
  | _ => none

variable {x : Binary64} {n : Int}

theorem scaled_ofNat (m k : Nat) : ((m * Nat.pow 2 k : Nat) : ℚ) = m * 2 ^ Int.ofNat k := by
  simp

/-- A significand with a negative exponent is a whole number if and only if the power divides it. -/
theorem scaled_negSucc {m k j : Nat} :
    (j : ℚ) = m * 2 ^ Int.negSucc k ↔ m = j * Nat.pow 2 (k + 1) := by
  have hpow : (2 : ℚ) ^ (k + 1) ≠ 0 := pow_ne_zero _ two_ne_zero
  rw [zpow_negSucc, ← div_eq_mul_inv, eq_div_iff hpow]
  exact ⟨fun h => by exact_mod_cast h.symm, fun h => by exact_mod_cast h.symm⟩

/-- A finite double is read as an integer if its magnitude is a natural number. -/
theorem toInt?_finite {negative : Bool} {m : Nat} {e : Int} :
    (finite negative m e).toInt? = some n ↔
      ∃ j : Nat, (j : ℚ) = m * 2 ^ e ∧ (if negative then -(j : Int) else j) = n := by
  cases e with
  | ofNat k =>
    rw [toInt?, Option.some.injEq, ← scaled_ofNat]
    constructor
    · exact fun h => ⟨_, rfl, h⟩
    · rintro ⟨j, hj, hn⟩
      rwa [Nat.cast_injective hj] at hn
  | negSucc k =>
    have hpos : 0 < Nat.pow 2 (k + 1) := Nat.pow_pos (by decide)
    simp only [toInt?, scaled_negSucc]
    split
    next hmod =>
      rw [Option.some.injEq]
      constructor
      · exact fun h => ⟨_, (Nat.div_mul_cancel (Nat.dvd_of_mod_eq_zero hmod)).symm, h⟩
      · rintro ⟨j, rfl, hn⟩
        rwa [Nat.mul_div_cancel j hpos]
    next hmod =>
      refine ⟨fun h => (by cases h), ?_⟩
      rintro ⟨j, rfl, -⟩
      exact absurd (Nat.mul_mod_left j _) hmod

/-- **A double is read as the integer that is its value.** -/
theorem toInt?_eq_some_iff : x.toInt? = some n ↔ x.toRat? = some (n : ℚ) := by
  cases x with
  | nan => simp [toInt?, toRat?]
  | infinity negative => simp [toInt?, toRat?]
  | finite negative m e =>
    rw [toInt?_finite, toRat?, Option.some.injEq]
    -- The magnitude is not negative, so it is a natural number wherever it is an integer.
    have hnonneg : (0 : ℚ) ≤ m * 2 ^ e := mul_nonneg m.cast_nonneg (zpow_nonneg zero_le_two e)
    constructor
    · rintro ⟨j, hj, rfl⟩
      cases negative <;> simp [hj]
    · intro h
      cases negative with
      | false =>
        simp only [Bool.false_eq_true, if_false] at h ⊢
        have hn : 0 ≤ n := by rw [h] at hnonneg; exact_mod_cast hnonneg
        obtain ⟨j, rfl⟩ := Int.eq_ofNat_of_zero_le hn
        exact ⟨j, by simpa using h.symm, rfl⟩
      | true =>
        simp only [if_true] at h ⊢
        have hn : 0 ≤ -n := by
          have hneg : (m : ℚ) * 2 ^ e = ((-n : Int) : ℚ) := by rw [Int.cast_neg, ← h, neg_neg]
          rw [hneg] at hnonneg
          exact_mod_cast hnonneg
        obtain ⟨j, hj⟩ := Int.eq_ofNat_of_zero_le hn
        refine ⟨j, ?_, by omega⟩
        rw [← neg_neg ((m : ℚ) * 2 ^ e), h, ← Int.cast_neg, hj]
        simp

end Binary64

end ScriptGate
