import ScriptGate.Proofs.Outcome
import ScriptGate.Proofs.Source.Boundary

/-!
# Decoding accepts nothing but encodings

Bytes decode to characters if and only if they are the bytes of these characters: overlong forms,
surrogates and characters that are cut short are refused. Only the first byte of a character begins
one, so that the bytes of some characters stand among the bytes of others only between characters.

## Main results

* `Utf8.bytes_of_step`: a step takes the bytes of the character that it gives.
* `Utf8.decode_eq_ok_iff`: decoding gives characters if and only if the bytes are theirs.
* `Utf8.eq_append_of_encodeChars`: what begins with the bytes of characters begins with them.
* `Utf8.eq_encodeChars_of_append`: where characters can be decoded, the bytes before them can be.
-/

namespace ScriptGate.Utf8

variable {b : UInt8} {rest after : List UInt8} {c : Char} {n m l : Nat}

/-! ### The bytes that a step takes -/

theorem tail?_eq_some (h : tail? b = some l) : l < 0x40 ∧ b = .ofNat (0x80 + l) := by
  rw [tail?] at h
  split at h
  case isTrue hb =>
    obtain rfl := Option.some.inj h
    refine ⟨by omega, ?_⟩
    rw [Nat.add_sub_cancel' hb.1, UInt8.ofNat_toNat]
  case isFalse => cases h

theorem second?_eq_some {lo hi : Nat} (hlo : 0x80 ≤ lo) (hhi : hi ≤ 0xBF)
    (h : second? lo hi b = some m) :
    m < 0x40 ∧ lo ≤ 0x80 + m ∧ 0x80 + m ≤ hi ∧ b = .ofNat (0x80 + m) := by
  rw [second?] at h
  split at h
  case isTrue hb =>
    obtain rfl := Option.some.inj h
    refine ⟨by omega, by omega, by omega, ?_⟩
    rw [Nat.add_sub_cancel' (by omega), UInt8.ofNat_toNat]
  case isFalse => cases h

/-- The bytes of the character with a given number. -/
theorem encodeChar_ofNat {v : Nat} (hv : v.isValidChar) : encodeChar (Char.ofNat v) =
    if v < 0x80 then [.ofNat v]
    else if v < 0x800 then [.ofNat (0xC0 + v / 0x40), .ofNat (0x80 + v % 0x40)]
    else if v < 0x10000 then
      [.ofNat (0xE0 + v / 0x1000), .ofNat (0x80 + v / 0x40 % 0x40), .ofNat (0x80 + v % 0x40)]
    else
      [.ofNat (0xF0 + v / 0x40000), .ofNat (0x80 + v / 0x1000 % 0x40),
        .ofNat (0x80 + v / 0x40 % 0x40), .ofNat (0x80 + v % 0x40)] := by
  have hnat : (Char.ofNat v).toNat = v := by
    rw [Char.ofNat, dif_pos hv]
    rfl
  rw [encodeChar, hnat]

/-- The bound on the second byte keeps the number from being overlong or that of a surrogate. -/
theorem bytes_of_step3 {lead lo hi : Nat} (hlead : lead < 0x10) (hlo : 0x80 ≤ lo) (hhi : hi ≤ 0xBF)
    (hlong : lead = 0 → 0xA0 ≤ lo) (hpair : lead = 0xD → hi ≤ 0x9F)
    (h : step3 lead lo hi rest = .char c n after) :
    .ofNat (0xE0 + lead) :: rest = encodeChar c ++ after := by
  fun_cases step3 lead lo hi rest with
  | case5 x m y rest hx l hy =>
    simp only [step3, hx, hy, Step.char.injEq] at h
    obtain ⟨rfl, -, rfl⟩ := h
    obtain ⟨hm, hmlo, hmhi, rfl⟩ := second?_eq_some hlo hhi hx
    obtain ⟨hl, rfl⟩ := tail?_eq_some hy
    generalize hv : lead * 0x1000 + m * 0x40 + l = v
    have hvalid : v.isValidChar := by
      simp only [Nat.isValidChar]
      omega
    rw [encodeChar_ofNat hvalid, if_neg (by omega), if_neg (by omega), if_pos (by omega),
      show v / 0x1000 = lead by omega, show v / 0x40 % 0x40 = m by omega,
      show v % 0x40 = l by omega]
    rfl
  | _ => simp_all [step3]

/-- The bound on the second byte keeps the number from being overlong or past the last. -/
theorem bytes_of_step4 {lead lo hi : Nat} (hlead : lead < 5) (hlo : 0x80 ≤ lo) (hhi : hi ≤ 0xBF)
    (hlong : lead = 0 → 0x90 ≤ lo) (hlast : lead = 4 → hi ≤ 0x8F)
    (h : step4 lead lo hi rest = .char c n after) :
    .ofNat (0xF0 + lead) :: rest = encodeChar c ++ after := by
  fun_cases step4 lead lo hi rest with
  | case7 x m y hx l z rest hy k hz =>
    simp only [step4, hx, hy, hz, Step.char.injEq] at h
    obtain ⟨rfl, -, rfl⟩ := h
    obtain ⟨hm, hmlo, hmhi, rfl⟩ := second?_eq_some hlo hhi hx
    obtain ⟨hl, rfl⟩ := tail?_eq_some hy
    obtain ⟨hk, rfl⟩ := tail?_eq_some hz
    generalize hv : lead * 0x40000 + m * 0x1000 + l * 0x40 + k = v
    have hvalid : v.isValidChar := by
      simp only [Nat.isValidChar]
      omega
    rw [encodeChar_ofNat hvalid, if_neg (by omega), if_neg (by omega), if_neg (by omega),
      show v / 0x40000 = lead by omega, show v / 0x1000 % 0x40 = m by omega,
      show v / 0x40 % 0x40 = l by omega, show v % 0x40 = k by omega]
    rfl
  | _ => simp_all [step4]

/-- **A step takes the bytes of the character that it gives.** -/
theorem bytes_of_step (h : step b rest = .char c n after) : b :: rest = encodeChar c ++ after := by
  have hb : b.toNat < 256 := b.toNat_lt
  unfold step at h
  dsimp only at h
  split at h
  case isTrue hone =>
    simp only [Step.char.injEq] at h
    obtain ⟨rfl, -, rfl⟩ := h
    rw [encodeChar_ofNat (.inl (by omega)), if_pos hone, UInt8.ofNat_toNat]
    rfl
  split at h
  · cases h
  split at h
  case isTrue htwo =>
    cases rest with
    | nil => cases h
    | cons x rest =>
      dsimp only at h
      cases hx : tail? x with
      | none => simp [hx] at h
      | some l =>
        simp only [hx, Step.char.injEq] at h
        obtain ⟨rfl, -, rfl⟩ := h
        obtain ⟨hl, rfl⟩ := tail?_eq_some hx
        rw [encodeChar_ofNat (.inl (by omega)), if_neg (by omega), if_pos (by omega),
          show ((b.toNat - 0xC0) * 0x40 + l) / 0x40 = b.toNat - 0xC0 by omega,
          show ((b.toNat - 0xC0) * 0x40 + l) % 0x40 = l by omega,
          Nat.add_sub_cancel' (by omega), UInt8.ofNat_toNat]
        rfl
  split at h
  case isTrue hthree =>
    have hbytes := bytes_of_step3 (by omega) (by split <;> omega) (by split <;> omega)
      (fun _ => by split <;> omega) (fun _ => by split <;> omega) h
    rwa [Nat.add_sub_cancel' (by omega), UInt8.ofNat_toNat] at hbytes
  split at h
  case isTrue hfour =>
    have hbytes := bytes_of_step4 (by omega) (by split <;> omega) (by split <;> omega)
      (fun _ => by split <;> omega) (fun _ => by split <;> omega) h
    rwa [Nat.add_sub_cancel' (by omega), UInt8.ofNat_toNat] at hbytes
  case isFalse => cases h

/-! ### Sequences of bytes -/

theorem bytes_of_decodeFrom {fuel pos : Nat} {bs : List UInt8} {cs : List Char}
    (hfuel : bs.length ≤ fuel) (h : decodeFrom fuel pos bs = .ok cs) : bs = encodeChars cs := by
  induction fuel generalizing pos bs cs with
  | zero =>
    obtain rfl := List.length_eq_zero_iff.mp (Nat.le_zero.mp hfuel)
    cases h
    rfl
  | succ fuel ih =>
    cases bs with
    | nil =>
      cases h
      rfl
    | cons b rest =>
      rw [decodeFrom] at h
      cases hstep : step b rest with
      | flaw n why =>
        rw [hstep] at h
        cases h
      | char c n after =>
        rw [hstep] at h
        obtain ⟨ds, hds, rfl⟩ := map_eq_ok h
        have hbytes := bytes_of_step hstep
        have hpos := length_encodeChar_pos c
        have hlength := congrArg List.length hbytes
        rw [List.length_append, List.length_cons] at hlength
        rw [List.length_cons] at hfuel
        rw [hbytes, encodeChars_cons, ih (by omega) hds]

/-- **Decoding gives characters if and only if the bytes are theirs.** -/
theorem decode_eq_ok_iff {bs : List UInt8} {cs : List Char} :
    decode bs = .ok cs ↔ bs = encodeChars cs :=
  ⟨bytes_of_decodeFrom (Nat.le_refl _), fun h => h ▸ decode_encodeChars cs⟩

/-! ### Characters among others -/

/-- What begins with the bytes of characters begins with these characters. -/
theorem eq_append_of_encodeChars {cs ds : List Char} {back : List UInt8}
    (h : encodeChars cs = encodeChars ds ++ back) :
    ∃ after, cs = ds ++ after ∧ back = encodeChars after := by
  induction ds generalizing cs with
  | nil => exact ⟨cs, rfl, h.symm⟩
  | cons d ds ih =>
    obtain ⟨y, others, hd, hstep⟩ := step_encodeChar d (encodeChars ds ++ back)
    cases cs with
    | nil => simp [hd] at h
    | cons c cs =>
      -- Both characters are what one step gives.
      obtain ⟨x, tail, hc, hother⟩ := step_encodeChar c (encodeChars cs)
      rw [encodeChars_cons, encodeChars_cons, hc, hd, List.append_assoc, List.cons_append,
        List.cons_append] at h
      obtain ⟨rfl, htail⟩ := List.cons.inj h
      rw [htail, hstep] at hother
      obtain ⟨rfl, -, hrest⟩ := Step.char.inj hother
      obtain ⟨after, rfl, hback⟩ := ih hrest.symm
      exact ⟨after, rfl, hback⟩

/-- The byte continues a character. -/
def Continues (b : UInt8) : Prop := 0x80 ≤ b.toNat ∧ b.toNat < 0xC0

/-- Only the first byte of a character begins one. -/
theorem encodeChar_eq_cons (c : Char) :
    ∃ b tail, encodeChar c = b :: tail ∧ ¬Continues b ∧ ∀ x ∈ tail, Continues x := by
  have hc : c.toNat < 0xD800 ∨ 0xDFFF < c.toNat ∧ c.toNat < 0x110000 := c.valid
  have hnat {n : Nat} (h : n < 256) : (UInt8.ofNat n).toNat = n := by
    simp [UInt8.toNat_ofNat', Nat.mod_eq_of_lt h]
  have htail (n : Nat) : Continues (.ofNat (0x80 + n % 0x40)) := by
    rw [Continues, hnat (by omega)]
    omega
  rw [encodeChar]
  split
  · exact ⟨_, _, rfl, by rw [Continues, hnat (by omega)]; omega, by simp⟩
  split
  · exact ⟨_, _, rfl, by rw [Continues, hnat (by omega)]; omega,
      List.forall_mem_singleton.mpr (htail _)⟩
  split
  · exact ⟨_, _, rfl, by rw [Continues, hnat (by omega)]; omega,
      List.forall_mem_cons.mpr ⟨htail _, List.forall_mem_singleton.mpr (htail _)⟩⟩
  · exact ⟨_, _, rfl, by rw [Continues, hnat (by omega)]; omega,
      List.forall_mem_cons.mpr ⟨htail _,
        List.forall_mem_cons.mpr ⟨htail _, List.forall_mem_singleton.mpr (htail _)⟩⟩⟩

/-- **Where characters can be decoded, the bytes before them can be**: the bytes of some characters
stand among those of others only between characters. -/
theorem eq_encodeChars_of_append {cs ds : List Char} {front back : List UInt8} (hne : ds ≠ [])
    (h : encodeChars cs = front ++ (encodeChars ds ++ back)) :
    ∃ before after, cs = before ++ after ∧ front = encodeChars before := by
  induction cs generalizing front with
  | nil =>
    obtain rfl : front = [] := (List.append_eq_nil_iff.mp h.symm).1
    exact ⟨[], [], rfl, rfl⟩
  | cons c cs ih =>
    rw [encodeChars_cons] at h
    rcases List.append_eq_append_iff.mp h with ⟨middle, hfront, hrest⟩ | ⟨middle, hc, hrest⟩
    · obtain ⟨before, after, rfl, rfl⟩ := ih hrest
      exact ⟨c :: before, after, rfl, by rw [hfront, encodeChars_cons]⟩
    · cases front with
      | nil => exact ⟨[], c :: cs, rfl, rfl⟩
      | cons x front =>
        cases middle with
        | nil =>
          rw [List.append_nil] at hc
          exact ⟨[c], cs, rfl, by rw [← hc, encodeChars_cons, encodeChars_nil, List.append_nil]⟩
        | cons y middle =>
          -- The byte after `front` would both continue `c` and begin the first of `ds`.
          obtain ⟨d, ds, rfl⟩ := List.exists_cons_of_ne_nil hne
          obtain ⟨first, tail, hfirst, -, htail⟩ := encodeChar_eq_cons c
          obtain ⟨lead, others, hlead, hbegins, -⟩ := encodeChar_eq_cons d
          rw [hfirst, List.cons_append] at hc
          rw [encodeChars_cons, hlead, List.cons_append, List.cons_append, List.cons_append]
            at hrest
          have hy : y ∈ tail := by
            rw [(List.cons.inj hc).2]
            exact List.mem_append_right _ (List.mem_cons_self ..)
          rw [(List.cons.inj hrest).1] at hbegins
          exact absurd (htail y hy) hbegins

end ScriptGate.Utf8
