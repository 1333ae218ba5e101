import ScriptGate.Text.Utf8

/-!
# Decoding what was encoded

The bytes of a sequence of characters decode to these characters. Each character is first taken
alone, by the number of bytes that it takes, with arbitrary bytes after it.

## Main results

* `Utf8.step_encodeChar`: one step into the bytes of a character gives the character back.
* `Utf8.decode_encodeChars`: decoding undoes encoding.
* `Utf8.scalars_eq_ok_iff`: a text can be encoded if it consists of characters.
-/

namespace ScriptGate.Utf8

/-! ### Single bytes -/

private theorem toNat_ofNat_of_lt {n : Nat} (h : n < 256) : (UInt8.ofNat n).toNat = n := by
  simp [UInt8.toNat_ofNat', Nat.mod_eq_of_lt h]

private theorem tail?_ofNat {n : Nat} (h : n < 0x40) : tail? (.ofNat (0x80 + n)) = some n := by
  simp only [tail?, toNat_ofNat_of_lt (n := 0x80 + n) (by omega)]
  rw [if_pos (by omega), Nat.add_sub_cancel_left]

private theorem second?_ofNat {lo hi n : Nat} (h : n < 0x40) (hlo : lo ≤ 0x80 + n)
    (hhi : 0x80 + n ≤ hi) : second? lo hi (.ofNat (0x80 + n)) = some n := by
  simp only [second?, toNat_ofNat_of_lt (n := 0x80 + n) (by omega)]
  rw [if_pos ⟨hlo, hhi⟩, Nat.add_sub_cancel_left]

/-! ### Single characters, by their number of bytes -/

private theorem step_one {n : Nat} (h : n < 0x80) (rest : List UInt8) :
    step (.ofNat n) rest = .char (Char.ofNat n) 1 rest := by
  simp only [step, toNat_ofNat_of_lt (n := n) (by omega)]
  rw [if_pos h]

private theorem step_two {n : Nat} (hlo : 0x80 ≤ n) (hhi : n < 0x800) (rest : List UInt8) :
    step (.ofNat (0xC0 + n / 0x40)) (.ofNat (0x80 + n % 0x40) :: rest) =
      .char (Char.ofNat n) 2 rest := by
  simp only [step, toNat_ofNat_of_lt (n := 0xC0 + n / 0x40) (by omega),
    tail?_ofNat (n := n % 0x40) (by omega)]
  rw [if_neg (by omega), if_neg (by omega), if_pos (by omega)]
  congr 2
  omega

/-- The second byte of a character of three is never in the range of an overlong form or of a
surrogate, because the number of a character is not. -/
private theorem step_three {n : Nat} (hlo : 0x800 ≤ n) (hhi : n < 0x10000)
    (hs : n < 0xD800 ∨ 0xDFFF < n) (rest : List UInt8) :
    step (.ofNat (0xE0 + n / 0x1000))
        (.ofNat (0x80 + n / 0x40 % 0x40) :: .ofNat (0x80 + n % 0x40) :: rest) =
      .char (Char.ofNat n) 3 rest := by
  simp only [step, toNat_ofNat_of_lt (n := 0xE0 + n / 0x1000) (by omega)]
  rw [if_neg (by omega), if_neg (by omega), if_neg (by omega), if_pos (by omega)]
  simp only [step3]
  rw [second?_ofNat (by omega) (by split <;> omega) (by split <;> omega)]
  simp only [tail?_ofNat (n := n % 0x40) (by omega)]
  congr 2
  omega

private theorem step_four {n : Nat} (hlo : 0x10000 ≤ n) (hhi : n < 0x110000)
    (rest : List UInt8) :
    step (.ofNat (0xF0 + n / 0x40000))
        (.ofNat (0x80 + n / 0x1000 % 0x40) :: .ofNat (0x80 + n / 0x40 % 0x40) ::
          .ofNat (0x80 + n % 0x40) :: rest) =
      .char (Char.ofNat n) 4 rest := by
  simp only [step, toNat_ofNat_of_lt (n := 0xF0 + n / 0x40000) (by omega)]
  rw [if_neg (by omega), if_neg (by omega), if_neg (by omega), if_neg (by omega),
    if_pos (by omega)]
  simp only [step4]
  rw [second?_ofNat (by omega) (by split <;> omega) (by split <;> omega)]
  simp only [tail?_ofNat (n := n / 0x40 % 0x40) (by omega), tail?_ofNat (n := n % 0x40) (by omega)]
  congr 2
  omega

/-- **One step undoes the encoding of one character**, whatever bytes stand after it. -/
theorem step_encodeChar (c : Char) (rest : List UInt8) :
    ∃ b tail, encodeChar c = b :: tail ∧
      step b (tail ++ rest) = .char c (encodeChar c).length rest := by
  have hc : c.toNat < 0xD800 ∨ 0xDFFF < c.toNat ∧ c.toNat < 0x110000 := c.valid
  rw [encodeChar]
  by_cases h1 : c.toNat < 0x80
  · refine ⟨_, [], if_pos h1, ?_⟩
    simpa [h1, Char.ofNat_toNat] using step_one h1 rest
  by_cases h2 : c.toNat < 0x800
  · refine ⟨_, _, by rw [if_neg h1, if_pos h2], ?_⟩
    simpa [h1, h2, Char.ofNat_toNat] using step_two (by omega) h2 rest
  by_cases h3 : c.toNat < 0x10000
  · refine ⟨_, _, by rw [if_neg h1, if_neg h2, if_pos h3], ?_⟩
    simpa [h1, h2, h3, Char.ofNat_toNat] using step_three (by omega) h3 (by omega) rest
  · refine ⟨_, _, by rw [if_neg h1, if_neg h2, if_neg h3], ?_⟩
    simpa [h1, h2, h3, Char.ofNat_toNat] using step_four (n := c.toNat) (by omega) (by omega) rest

/-! ### Sequences of characters -/

@[simp] theorem encodeChars_nil : encodeChars [] = [] := rfl

@[simp] theorem encodeChars_cons (c : Char) (cs : List Char) :
    encodeChars (c :: cs) = encodeChar c ++ encodeChars cs := rfl

@[simp] theorem encodeChars_append (cs ds : List Char) :
    encodeChars (cs ++ ds) = encodeChars cs ++ encodeChars ds := List.flatMap_append

private theorem decodeFrom_encodeChars (cs : List Char) (fuel pos : Nat)
    (h : (encodeChars cs).length ≤ fuel) : decodeFrom fuel pos (encodeChars cs) = .ok cs := by
  induction cs generalizing fuel pos with
  | nil => simp [decodeFrom]
  | cons c cs ih =>
    obtain ⟨b, tail, hb, hstep⟩ := step_encodeChar c (encodeChars cs)
    rw [encodeChars_cons, hb, List.cons_append] at h ⊢
    obtain ⟨fuel, rfl⟩ : ∃ k, fuel = k + 1 := ⟨fuel - 1, by simp at h; omega⟩
    rw [decodeFrom, hstep]
    simp only [List.length_cons, List.length_append] at h
    simp [ih fuel _ (by omega), Except.map]

/-- **Decoding undoes encoding.** -/
theorem decode_encodeChars (cs : List Char) : decode (encodeChars cs) = .ok cs :=
  decodeFrom_encodeChars cs _ 0 (Nat.le_refl _)

/-! ### Texts that can be encoded -/

/-- The characters of a text are found if and only if it consists of them. -/
theorem scalars_eq_ok_iff {t : Text} {cs : List Char} {pos : Nat} :
    scalars pos t = .ok cs ↔ t = Text.ofChars cs := by
  induction t generalizing pos cs with
  | nil => cases cs <;> simp [scalars, Text.ofChars]
  | cons p t ih =>
    cases p with
    | surrogate k => cases cs <;> simp [scalars, Text.ofChars]
    | char c =>
      rw [scalars]
      cases hrest : scalars (pos + 1) t with
      | error e =>
        cases cs with
        | nil => simp [Except.map, Text.ofChars]
        | cons d ds =>
          have hne : t ≠ Text.ofChars ds := fun h => by simp [ih.mpr h] at hrest
          simpa [Except.map, Text.ofChars] using fun _ => hne
      | ok ds =>
        obtain rfl := ih.mp hrest
        cases cs with
        | nil => simp [Except.map, Text.ofChars]
        | cons e es => simp [Except.map, Text.ofChars, List.map_inj_right]

theorem scalars_ofChars (cs : List Char) (pos : Nat) : scalars pos (Text.ofChars cs) = .ok cs :=
  scalars_eq_ok_iff.mpr rfl

end ScriptGate.Utf8
