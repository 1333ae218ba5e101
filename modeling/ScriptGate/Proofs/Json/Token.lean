import ScriptGate.Json.Reader
import ScriptGate.Json.Writer
import ScriptGate.Proofs.Text.Plain

/-!
# Strings and numbers of JSON text

A string that is written with escapes is read back: the escape of a character is read as the
character or, past the first plane, as the two halves of a pair, and the pairs are joined at the
end. A whole number is read back if nothing follows that would continue it.

## Main definitions

* `Json.escape`: how a code point is written in a string of printable characters.
* `Json.spread`: what the escape of a character is read as.
* `Json.Ends`: what may follow a number.

## Main results

* `Json.scanString_escape`: one escape is read.
* `Json.joinPairs_flatMap_spread`: joining pairs gives the characters back.
* `Json.scanString_body`, `Json.scanString_plainBody`: a string is read back.
* `Json.number_ofInt`: a whole number is read back.
-/

namespace ScriptGate

namespace Json

/-! ### Escapes -/

/-- How a code point is written in a string of printable characters. -/
def escape (c : CodePoint) : Text :=
  (controlEscape? c).getD (if c.val < 0x7F then [c] else unicodeEscape c.val)

theorem quoteAscii_eq (t : Text) :
    quoteAscii t = .char '"' :: t.flatMap escape ++ [.char '"'] := rfl

/-- What the escape of a character is read as: past the first plane, the halves of a pair. -/
def spread (c : Char) : Text :=
  if c.toNat < 0x10000 then [.char c]
  else
    [.ofNat (0xD800 + (c.toNat - 0x10000) / 0x400), .ofNat (0xDC00 + (c.toNat - 0x10000) % 0x400)]

section Scan

variable {begin pos : Nat} {tail : List Char} {acc : Text}

theorem hexValue?_digitChar : ∀ d < 16, hexValue? (Nat.digitChar d) = some d := by decide

/-- An escape by four digits is read as the code point with their number. -/
theorem scanString_hex {n : Nat} (hn : n < 0x10000) (ht : tail ≠ []) :
    scanString begin pos (("\\u" ++ Text.hex 4 n : Text).toChars ++ tail) acc =
      scanString begin (pos + 6) tail (.ofNat n :: acc) := by
  have hdigits : hex4? (Nat.digitChar (n / 16 / 16 / 16 % 16)) (Nat.digitChar (n / 16 / 16 % 16))
      (Nat.digitChar (n / 16 % 16)) (Nat.digitChar (n % 16)) = some n := by
    have hmod (m : Nat) := hexValue?_digitChar (m % 16) (Nat.mod_lt _ (by decide))
    simp only [hex4?, hmod, Option.bind_eq_bind, Option.bind_some, Option.pure_def]
    congr 1
    omega
  change scanString begin pos ('\\' :: 'u' :: Nat.digitChar (n / 16 / 16 / 16 % 16) ::
    Nat.digitChar (n / 16 / 16 % 16) :: Nat.digitChar (n / 16 % 16) :: Nat.digitChar (n % 16) ::
      tail) acc = _
  rw [scanString, hdigits, List.isEmpty_eq_false_iff.mpr ht]

/-- Any other character stands for itself. -/
theorem scanString_plain {c : Char} (hquote : c ≠ '"') (hslash : c ≠ '\\')
    (hcontrol : 0x20 ≤ c.toNat) :
    scanString begin pos (c :: tail) acc = scanString begin (pos + 1) tail (.char c :: acc) := by
  rw [scanString, if_neg (by omega)]
  all_goals simp_all

theorem ofNat_toNat (c : Char) : CodePoint.ofNat c.toNat = .char c := by
  have hc : c.toNat < 0xD800 ∨ 0xDFFF < c.toNat ∧ c.toNat < 0x110000 := c.valid
  rw [CodePoint.ofNat, Char.ofNat_toNat]
  split
  · rw [dif_neg (by omega)]
  · rfl

/-- The escape of a number past the controls is read as the character with this number. -/
theorem scanString_unicodeEscape {c : Char} (ht : tail ≠ []) :
    scanString begin pos ((unicodeEscape c.toNat).toChars ++ tail) acc =
      scanString begin (pos + (unicodeEscape c.toNat).length) tail ((spread c).reverse ++ acc) := by
  have hc : c.toNat < 0xD800 ∨ 0xDFFF < c.toNat ∧ c.toNat < 0x110000 := c.valid
  rw [unicodeEscape, spread]
  split
  case isTrue hlt =>
    rw [scanString_hex hlt ht, ofNat_toNat]
    rfl
  case isFalse hge =>
    dsimp only
    rw [List.append_assoc, Text.toChars_append, List.append_assoc,
      scanString_hex (by omega) (by simp [ht]), scanString_hex (by omega) ht]
    rfl

/-- The characters that are escaped by a letter or by themselves. -/
def shortEscaped : List Char := ['"', '\\', '\n', '\r', '\t', '\x08', '\x0c']

theorem controlEscape?_of_not_mem {c : Char} (h : c ∉ shortEscaped) :
    controlEscape? (.char c) =
      if c.toNat < 0x20 then some ("\\u" ++ Text.hex 4 c.toNat) else none := by
  simp only [shortEscaped, List.mem_cons, List.not_mem_nil, or_false, not_or] at h
  simp only [controlEscape?, CodePoint.char.injEq, h, if_false, CodePoint.val]
  rfl

/-- The escape of a quote, a backslash or a control is read as what it stands for. -/
theorem scanString_controlEscape {c : Char} {e : Text} (h : controlEscape? (.char c) = some e)
    (ht : tail ≠ []) : scanString begin pos (e.toChars ++ tail) acc =
      scanString begin (pos + e.length) tail (.char c :: acc) := by
  by_cases hshort : c ∈ shortEscaped
  · simp only [shortEscaped, List.mem_cons, List.not_mem_nil, or_false] at hshort
    rcases hshort with rfl | rfl | rfl | rfl | rfl | rfl | rfl <;> cases h <;> rfl
  · rw [controlEscape?_of_not_mem hshort] at h
    split at h
    · cases h
      rw [scanString_hex (by omega) ht, ofNat_toNat]
      rfl
    · cases h

/-- What is not escaped is none of these. -/
theorem of_controlEscape?_eq_none {c : Char} (h : controlEscape? (.char c) = none) :
    c ≠ '"' ∧ c ≠ '\\' ∧ 0x20 ≤ c.toNat := by
  by_cases hshort : c ∈ shortEscaped
  · simp only [shortEscaped, List.mem_cons, List.not_mem_nil, or_false] at hshort
    rcases hshort with rfl | rfl | rfl | rfl | rfl | rfl | rfl <;> cases h
  · have hcontrol := h
    rw [controlEscape?_of_not_mem hshort, ite_eq_right_iff] at hcontrol
    refine ⟨?_, ?_, Nat.le_of_not_lt fun hlt => by cases hcontrol hlt⟩
    · rintro rfl
      cases h
    · rintro rfl
      cases h

theorem spread_of_controlEscape? {c : Char} {e : Text} (h : controlEscape? (.char c) = some e) :
    spread c = [.char c] := by
  refine if_pos ?_
  by_cases hshort : c ∈ shortEscaped
  · simp only [shortEscaped, List.mem_cons, List.not_mem_nil, or_false] at hshort
    rcases hshort with rfl | rfl | rfl | rfl | rfl | rfl | rfl <;> decide
  · rw [controlEscape?_of_not_mem hshort] at h
    split at h
    · omega
    · cases h

/-- **One escape is read.** -/
theorem scanString_escape (c : Char) (ht : tail ≠ []) :
    scanString begin pos ((escape (.char c)).toChars ++ tail) acc =
      scanString begin (pos + (escape (.char c)).length) tail ((spread c).reverse ++ acc) := by
  rw [escape]
  cases hcontrol : controlEscape? (.char c) with
  | some e =>
    rw [Option.getD_some, spread_of_controlEscape? hcontrol, scanString_controlEscape hcontrol ht]
    rfl
  | none =>
    obtain ⟨hquote, hslash, hge⟩ := of_controlEscape?_eq_none hcontrol
    rw [Option.getD_none, CodePoint.val]
    split
    case isTrue hlt =>
      have hspread : spread c = [.char c] := if_pos (by omega)
      rw [hspread]
      exact scanString_plain hquote hslash hge
    case isFalse => exact scanString_unicodeEscape ht

end Scan

/-! ### Pairs -/

theorem joinPairs_char (c : Char) (t : Text) :
    joinPairs (.char c :: t) = .char c :: joinPairs t := by
  cases t with
  | nil => rfl
  | cons p t => simp [joinPairs, CodePoint.isHigh]

/-- A pair is joined to its character. -/
theorem joinPairs_pair {h l : Nat} (hh : h < 0x400) (hl : l < 0x400) (t : Text) :
    joinPairs (.ofNat (0xD800 + h) :: .ofNat (0xDC00 + l) :: t) =
      .char (Char.ofNat (0x10000 + h * 0x400 + l)) :: joinPairs t := by
  have hhigh : CodePoint.ofNat (0xD800 + h) = .surrogate ⟨h, by omega⟩ := by
    rw [CodePoint.ofNat, if_pos (by omega), dif_pos (by omega)]
    exact congrArg CodePoint.surrogate (Fin.ext (Nat.add_sub_cancel_left ..))
  have hlow : CodePoint.ofNat (0xDC00 + l) = .surrogate ⟨0x400 + l, by omega⟩ := by
    rw [CodePoint.ofNat, if_pos (by omega), dif_pos (by omega)]
    exact congrArg CodePoint.surrogate (Fin.ext (show 0xDC00 + l - 0xD800 = 0x400 + l by omega))
  have hpair : (CodePoint.surrogate ⟨h, by omega⟩).isHigh &&
      (CodePoint.surrogate ⟨0x400 + l, by omega⟩).isLow := by
    simpa [CodePoint.isHigh, CodePoint.isLow] using hh
  have hjoin : 0x10000 + (0xD800 + h - 0xD800) * 0x400 + (0xD800 + (0x400 + l) - 0xDC00) =
      0x10000 + h * 0x400 + l := by omega
  rw [hhigh, hlow, joinPairs, if_pos hpair, joinPair, CodePoint.val, CodePoint.val, hjoin]

theorem joinPairs_spread (c : Char) (t : Text) :
    joinPairs (spread c ++ t) = .char c :: joinPairs t := by
  have hc : c.toNat < 0xD800 ∨ 0xDFFF < c.toNat ∧ c.toNat < 0x110000 := c.valid
  rw [spread]
  split
  · exact joinPairs_char c t
  case isFalse hge =>
    have hjoin : 0x10000 + (c.toNat - 0x10000) / 0x400 * 0x400 + (c.toNat - 0x10000) % 0x400 =
        c.toNat := by omega
    rw [List.cons_append, List.singleton_append, joinPairs_pair (by omega) (by omega), hjoin,
      Char.ofNat_toNat]

/-- **Joining pairs gives the characters back.** -/
theorem joinPairs_flatMap_spread (cs : List Char) :
    joinPairs (cs.flatMap spread) = Text.ofChars cs := by
  induction cs with
  | nil => rfl
  | cons c cs ih =>
    rw [List.flatMap_cons, joinPairs_spread, ih]
    rfl

/-! ### Strings -/

/-- What stands between the quotes of a string. -/
def body (cs : List Char) : List Char := Text.toChars ((Text.ofChars cs).flatMap escape)

theorem body_cons (c : Char) (cs : List Char) :
    body (c :: cs) = (escape (.char c)).toChars ++ body cs := by
  rw [body, Text.ofChars, List.map_cons, List.flatMap_cons, Text.toChars_append, body, Text.ofChars]

theorem toChars_quoteAscii (cs : List Char) :
    (quoteAscii (Text.ofChars cs)).toChars = '"' :: body cs ++ ['"'] := by
  rw [quoteAscii_eq, Text.toChars_append]
  rfl

theorem scanString_body_acc (begin pos : Nat) (cs rest : List Char) (acc : Text) :
    scanString begin pos (body cs ++ '"' :: rest) acc =
      .ok (joinPairs (acc.reverse ++ cs.flatMap spread), ⟨pos + (body cs).length + 1, rest⟩) := by
  induction cs generalizing pos acc with
  | nil => rw [List.flatMap_nil, List.append_nil]; rfl
  | cons c cs ih =>
    rw [body_cons, List.append_assoc, scanString_escape c (by simp), ih]
    simp only [List.reverse_append, List.reverse_reverse, List.flatMap_cons, List.append_assoc,
      List.length_append, Text.length_toChars, Nat.add_assoc]

/-- **A string is read back.** -/
theorem scanString_body (begin pos : Nat) (cs rest : List Char) :
    scanString begin pos (body cs ++ '"' :: rest) [] =
      .ok (Text.ofChars cs, ⟨pos + (body cs).length + 1, rest⟩) := by
  rw [scanString_body_acc, List.reverse_nil, List.nil_append, joinPairs_flatMap_spread]

/-! ### Strings that keep their characters -/

/-- What stands between the quotes of a string in which only controls are escaped. -/
def plainBody (cs : List Char) : List Char :=
  Text.toChars ((Text.ofChars cs).flatMap fun c => (controlEscape? c).getD [c])

theorem toChars_quote (cs : List Char) :
    (quote (Text.ofChars cs)).toChars = '"' :: plainBody cs ++ ['"'] := by
  rw [quote, Text.toChars_append]
  rfl

theorem joinPairs_ofChars (cs : List Char) : joinPairs (Text.ofChars cs) = Text.ofChars cs := by
  induction cs with
  | nil => rfl
  | cons c cs ih =>
    change joinPairs (.char c :: Text.ofChars cs) = .char c :: Text.ofChars cs
    rw [joinPairs_char, ih]

theorem scanString_plainBody_acc (begin pos : Nat) (cs rest : List Char) (acc : Text) :
    scanString begin pos (plainBody cs ++ '"' :: rest) acc =
      .ok (joinPairs (acc.reverse ++ Text.ofChars cs),
        ⟨pos + (plainBody cs).length + 1, rest⟩) := by
  induction cs generalizing pos acc with
  | nil => rw [Text.ofChars, List.map_nil, List.append_nil]; rfl
  | cons c cs ih =>
    have hbody : plainBody (c :: cs) =
        ((controlEscape? (.char c)).getD [.char c]).toChars ++ plainBody cs := by
      rw [plainBody, Text.ofChars, List.map_cons, List.flatMap_cons, Text.toChars_append, plainBody,
        Text.ofChars]
    have hstep : scanString begin pos (plainBody (c :: cs) ++ '"' :: rest) acc =
        scanString begin (pos + ((controlEscape? (.char c)).getD [.char c]).length)
          (plainBody cs ++ '"' :: rest) (.char c :: acc) := by
      rw [hbody, List.append_assoc]
      cases hcontrol : controlEscape? (.char c) with
      | some e => exact scanString_controlEscape hcontrol (by simp)
      | none =>
        obtain ⟨hquote, hslash, hge⟩ := of_controlEscape?_eq_none hcontrol
        exact scanString_plain hquote hslash hge
    rw [hstep, ih, hbody]
    simp only [List.reverse_cons, List.append_assoc, List.singleton_append, Text.ofChars,
      List.map_cons, List.length_append, Text.length_toChars, Nat.add_assoc]

/-- **A string that keeps its characters is read back.** -/
theorem scanString_plainBody (begin pos : Nat) (cs rest : List Char) :
    scanString begin pos (plainBody cs ++ '"' :: rest) [] =
      .ok (Text.ofChars cs, ⟨pos + (plainBody cs).length + 1, rest⟩) := by
  rw [scanString_plainBody_acc, List.reverse_nil, List.nil_append, joinPairs_ofChars]

/-! ### Numbers -/

/-- What may follow a number: nothing that would continue it. -/
def Ends : List Char → Prop
  | [] => True
  | c :: _ => c.isDigit = false ∧ c ≠ '.' ∧ c ≠ 'e' ∧ c ≠ 'E'

/-- The number has no more digits than are allowed. -/
def fits (limit : Option Nat) (n : Int) : Bool :=
  limit.all ((Nat.toDigits 10 n.natAbs).length ≤ ·)

theorem toChars_ofNat (n : Nat) : (Text.ofNat n).toChars = Nat.toDigits 10 n := by
  rw [Text.ofNat, Text.ofString, Text.toChars_ofChars, Nat.toList_repr]

/-- A numeral begins with a digit, and only that of zero begins with a zero. -/
theorem toDigits_cons (n : Nat) :
    ∃ d ds, Nat.toDigits 10 n = d :: ds ∧ d.isDigit ∧ (0 < n → d ≠ '0') := by
  induction n using Nat.strongRecOn with
  | ind n ih =>
    by_cases hlt : n < 10
    · refine ⟨_, _, Nat.toDigits_of_lt_base hlt, by simpa [Nat.isDigit_digitChar] using hlt, ?_⟩
      intro hn
      simpa using Nat.ne_of_gt hn
    · obtain ⟨d, ds, hds, hdigit, hd⟩ := ih (n / 10) (by omega)
      refine ⟨d, ds ++ [Nat.digitChar (n % 10)], ?_, hdigit, fun _ => hd (by omega)⟩
      rw [Nat.toDigits_of_base_le (by decide) (by omega), hds]
      rfl

section Number

variable {rest : List Char}

theorem takeDigits_toDigits (n : Nat) (hends : Ends rest) :
    takeDigits (Nat.toDigits 10 n ++ rest) = Nat.toDigits 10 n := by
  have hrest : rest.takeWhile Char.isDigit = [] := by
    cases rest with
    | nil => rfl
    | cons c rest => simp [hends.1]
  rw [takeDigits, List.takeWhile_append_of_pos
    fun c hc => Nat.isDigit_of_mem_toDigits (by decide) (by decide) hc, hrest, List.append_nil]

theorem wholePart_toDigits (n : Nat) (hends : Ends rest) :
    wholePart (Nat.toDigits 10 n ++ rest) = some (Nat.toDigits 10 n) := by
  rcases Nat.eq_zero_or_pos n with rfl | hn
  · rfl
  · have htake := takeDigits_toDigits n hends
    obtain ⟨d, ds, hds, -, hd⟩ := toDigits_cons n
    rw [hds, List.cons_append] at htake ⊢
    rw [wholePart, htake]
    simpa using hd hn

theorem fractionPart_of_ends (hends : Ends rest) : fractionPart rest = none := by
  cases rest with
  | nil => rfl
  | cons c rest =>
    rw [fractionPart]
    simpa using hends.2.1

theorem exponentPart_of_ends (hends : Ends rest) : exponentPart rest = none := by
  cases rest with
  | nil => rfl
  | cons c rest => simp [exponentPart.eq_def, hends.2.2]

theorem digitsValue_toDigits (n : Nat) : digitsValue (Nat.toDigits 10 n) = n := by
  have hvalue (cs : List Char) : digitsValue cs = Nat.ofDigitChars 10 cs 0 := by
    rw [Nat.ofDigitChars_eq_foldl, digitsValue]
    simp only [Nat.mul_comm]
  rw [hvalue, Nat.ofDigitChars_toDigits (by decide) (by decide)]

theorem head?_toDigits {n : Nat} : (Nat.toDigits 10 n ++ rest).head? ≠ some '-' := by
  obtain ⟨d, ds, hds, hdigit, -⟩ := toDigits_cons n
  simp only [hds, List.cons_append, List.head?_cons, ne_eq, Option.some.injEq]
  rintro rfl
  cases hdigit

theorem number_toDigits {limit : Option Nat} {pos n : Nat} (hends : Ends rest)
    (hlimit : limit.any (· < (Nat.toDigits 10 n).length) = false) :
    number limit ⟨pos, Nat.toDigits 10 n ++ rest⟩ =
      .ok (.int n, ⟨pos + (Nat.toDigits 10 n).length, rest⟩) := by
  simp only [number, head?_toDigits, if_false, wholePart_toDigits n hends, Cursor.skip,
    List.drop_left, fractionPart_of_ends hends, exponentPart_of_ends hends, hlimit,
    Bool.false_eq_true, digitsValue_toDigits]

/-- A whole number with too many digits stops the reader. -/
theorem number_longInteger {limit : Option Nat} {pos n : Nat} (hends : Ends rest)
    (hlimit : limit.any (· < (Nat.toDigits 10 n).length)) :
    number limit ⟨pos, Nat.toDigits 10 n ++ rest⟩ =
      .error (.longInteger (Nat.toDigits 10 n).length) := by
  simp only [number, head?_toDigits, if_false, wholePart_toDigits n hends, Cursor.skip,
    List.drop_left, fractionPart_of_ends hends, exponentPart_of_ends hends, hlimit, if_true]

theorem number_minus_toDigits {limit : Option Nat} {pos n : Nat} (hends : Ends rest)
    (hlimit : limit.any (· < (Nat.toDigits 10 n).length) = false) :
    number limit ⟨pos, '-' :: (Nat.toDigits 10 n ++ rest)⟩ =
      .ok (.int (-n), ⟨pos + 1 + (Nat.toDigits 10 n).length, rest⟩) := by
  simp only [number, List.head?_cons, if_true, wholePart_toDigits n hends, Cursor.skip,
    List.drop_succ_cons, List.drop_zero, List.drop_left, fractionPart_of_ends hends,
    exponentPart_of_ends hends, hlimit, Bool.false_eq_true, if_false, digitsValue_toDigits]

/-- **A whole number is read back**, if it has no more digits than are allowed. -/
theorem number_ofInt {limit : Option Nat} {pos : Nat} {n : Int} (hends : Ends rest)
    (hfits : fits limit n) :
    number limit ⟨pos, (Text.ofInt n).toChars ++ rest⟩ =
      .ok (.int n, ⟨pos + (Text.ofInt n).length, rest⟩) := by
  have hlimit : limit.any (· < (Nat.toDigits 10 n.natAbs).length) = false := by
    cases limit with
    | none => rfl
    | some k => simpa [fits] using hfits
  have hlength (k : Nat) : (Text.ofNat k).length = (Nat.toDigits 10 k).length := by
    rw [← toChars_ofNat, Text.length_toChars]
  cases n with
  | ofNat k =>
    change number limit ⟨pos, (Text.ofNat k).toChars ++ rest⟩ =
      .ok (_, ⟨pos + (Text.ofNat k).length, _⟩)
    rw [toChars_ofNat, hlength]
    exact number_toDigits (n := k) hends hlimit
  | negSucc k =>
    change number limit ⟨pos, '-' :: ((Text.ofNat (k + 1)).toChars ++ rest)⟩ =
      .ok (_, ⟨pos + ((Text.ofNat (k + 1)).length + 1), _⟩)
    rw [toChars_ofNat, hlength, ← Nat.add_assoc, Nat.add_right_comm]
    exact number_minus_toDigits (n := k + 1) hends hlimit

end Number

end Json

end ScriptGate
