import ScriptGate.Proofs.Json.Reading

/-!
# Values that are written and read back

A value on one line is a text of characters and reads as the value again, if its numbers do not have
too many digits, its strings consist of characters, and no name of a member comes twice.

## Main definitions

* `Json.Written`: a value that can be written on one line and read back.

## Main results

* `Json.Written.int`, `Json.Written.string`, `Json.Written.array`, `Json.Written.object`: values
  that can be written and read back.
* `Json.Written.readWithin`: what is written is read back.
-/

namespace ScriptGate.Json

variable {limit : Option Nat} {v : Value} {vs : List Value} {ms : List (Text × Value)}

/-! ### Characters -/

theorem plain_ofInt (n : Int) : (Text.ofInt n).Plain := by
  cases n with
  | ofNat k => exact Text.plain_ofString _
  | negSucc k => exact (Text.plain_ofChars ['-']).append (Text.plain_ofString _)

theorem plain_unicodeEscape (n : Nat) : (unicodeEscape n).Plain := by
  rw [unicodeEscape]
  split
  · exact (Text.plain_ofString _).append (Text.plain_hex _ _)
  · exact (((Text.plain_ofString _).append (Text.plain_hex _ _)).append
      (Text.plain_ofString _)).append (Text.plain_hex _ _)

theorem plain_of_controlEscape? {p : CodePoint} {t : Text} (h : controlEscape? p = some t) :
    t.Plain := by
  -- Seven of the escapes are fixed texts, and the last one holds a number.
  have hfixed (s : String) (h : some (s : Text) = some t) : t.Plain :=
    Option.some.inj h ▸ Text.plain_ofString s
  unfold controlEscape? at h
  iterate 7
    split at h
    · exact hfixed _ h
  split at h
  · exact Option.some.inj h ▸ (Text.plain_ofString "\\u").append (Text.plain_hex _ _)
  · exact nomatch h

theorem plain_escape (c : Char) : (escape (.char c)).Plain := by
  rw [escape]
  cases hescape : controlEscape? (.char c) with
  | some t => exact plain_of_controlEscape? hescape
  | none =>
    rw [Option.getD_none]
    split
    · exact Text.plain_ofChars [c]
    · exact plain_unicodeEscape _

theorem plain_quoteAscii {t : Text} (h : t.Plain) : (quoteAscii t).Plain :=
  ((Text.plain_ofChars ['"']).append (h.flatMap plain_escape)).append (Text.plain_ofChars ['"'])

theorem plain_quote {t : Text} (h : t.Plain) : (quote t).Plain := by
  have hmark := Text.plain_ofChars ['"']
  refine (hmark.append (h.flatMap fun c => ?_)).append hmark
  cases hescape : controlEscape? (.char c) with
  | some t => exact plain_of_controlEscape? hescape
  | none => exact Text.plain_ofChars [c]

theorem plain_writeItems (h : ∀ v ∈ vs, v.write.Plain) : (Value.writeItems vs).Plain := by
  induction vs with
  | nil => exact Text.plain_ofChars []
  | cons v vs ih =>
    obtain ⟨hv, hvs⟩ := List.forall_mem_cons.mp h
    cases vs with
    | nil => exact hv
    | cons w vs => exact (hv.append (Text.plain_ofString ", ")).append (ih hvs)

theorem plain_writeMembers (hnames : ∀ m ∈ ms, m.1.Plain) (h : ∀ m ∈ ms, m.2.write.Plain) :
    (Value.writeMembers ms).Plain := by
  induction ms with
  | nil => exact Text.plain_ofChars []
  | cons m ms ih =>
    obtain ⟨hname, hnames⟩ := List.forall_mem_cons.mp hnames
    obtain ⟨hm, hms⟩ := List.forall_mem_cons.mp h
    have hmember := ((plain_quoteAscii hname).append (Text.plain_ofString ": ")).append hm
    cases ms with
    | nil => exact hmember
    | cons k ms => exact (hmember.append (Text.plain_ofString ", ")).append (ih hnames hms)

/-! ### Items and members -/

theorem readsItems_writeItems (hne : vs ≠ []) (h : ∀ v ∈ vs, Reads limit v v.write.toChars) :
    ReadsItems limit vs (Value.writeItems vs).toChars := by
  induction vs with
  | nil => exact absurd rfl hne
  | cons v vs ih =>
    obtain ⟨hv, hvs⟩ := List.forall_mem_cons.mp h
    cases vs with
    | nil => simpa [Value.writeItems] using ReadsItems.last hv blanks_nil
    | cons w vs =>
      have hitems := ReadsItems.cons hv blanks_space (ih (by simp) hvs)
      rwa [Value.writeItems, Text.toChars_append, Text.toChars_append, List.append_assoc]
      simp

theorem toChars_nameText (name : List Char) :
    (quoteAscii (Text.ofChars name)).toChars ++ (": " : Text).toChars = nameText name := by
  rw [toChars_quoteAscii, nameText, List.cons_append, List.cons_append, List.append_assoc]
  rfl

theorem readsMembers_writeMembers (hne : ms ≠ []) (hnames : ∀ m ∈ ms, m.1.Plain)
    (h : ∀ m ∈ ms, Reads limit m.2 m.2.write.toChars) :
    ReadsMembers limit ms (Value.writeMembers ms).toChars := by
  induction ms with
  | nil => exact absurd rfl hne
  | cons m ms ih =>
    obtain ⟨name, v⟩ := m
    obtain ⟨hfirst, hrest⟩ := List.forall_mem_cons.mp hnames
    obtain ⟨hv, hms⟩ := List.forall_mem_cons.mp h
    obtain ⟨name, rfl⟩ := Text.plain_iff.mp hfirst
    have hname := toChars_nameText name
    cases ms with
    | nil =>
      rw [Value.writeMembers, Text.toChars_append, Text.toChars_append, hname]
      simpa using ReadsMembers.last hv blanks_nil
    | cons m ms =>
      have hmembers : ReadsMembers limit ((Text.ofChars name, v) :: m :: ms) _ :=
        .cons hv blanks_space (ih (by simp) hrest hms)
      rwa [Value.writeMembers, Text.toChars_append, Text.toChars_append, Text.toChars_append,
        Text.toChars_append, hname, List.append_assoc, List.append_assoc]
      simp

/-! ### Values -/

/-- The value can be written on one line and read back. -/
structure Written (limit : Option Nat) (v : Value) : Prop where
  plain : v.write.Plain
  reads : Reads limit v v.write.toChars

namespace Written

theorem int {n : Int} (hn : fits limit n) : Written limit (.int n) := ⟨plain_ofInt n, .int hn⟩

theorem string {t : Text} (ht : t.Plain) : Written limit (.string t) := by
  refine ⟨plain_quoteAscii ht, ?_⟩
  obtain ⟨cs, rfl⟩ := Text.plain_iff.mp ht
  exact .string cs

/-- **An array is written and read back**, if its items are. -/
theorem array (h : ∀ v ∈ vs, Written limit v) : Written limit (.array vs) := by
  constructor
  · exact ((Text.plain_ofString "[").append (plain_writeItems fun v hv => (h v hv).plain)).append
      (Text.plain_ofString "]")
  · by_cases hne : vs = []
    · subst hne
      exact .array_nil
    · have hitems := readsItems_writeItems hne fun v hv => (h v hv).reads
      rw [Value.write, Text.toChars_append, Text.toChars_append]
      exact .array blanks_nil hitems

/-- **An object is written and read back**, if its members are and no name comes twice. -/
theorem object (hne : ms ≠ []) (hnames : ∀ m ∈ ms, m.1.Plain)
    (hdistinct : Value.ofMembers ms = .object ms) (h : ∀ m ∈ ms, Written limit m.2) :
    Written limit (.object ms) := by
  constructor
  · exact ((Text.plain_ofString "\x7b").append
      (plain_writeMembers hnames fun m hm => (h m hm).plain)).append (Text.plain_ofString "\x7d")
  · have hmembers := readsMembers_writeMembers hne hnames fun m hm => (h m hm).reads
    rw [Value.write, Text.toChars_append, Text.toChars_append, ← hdistinct]
    exact .object blanks_nil hmembers

/-- **What is written is read back.** -/
theorem readWithin {chars : List Char} (h : Written limit (.array vs))
    (hchars : Value.write (.array vs) = Text.ofChars chars) :
    Json.readWithin limit chars = .ok (.array vs) := by
  have hreads := h.reads
  rw [hchars, Text.toChars_ofChars] at hreads
  -- The text starts with a bracket, and not with a mark that is refused.
  refine hreads.readWithin ?_
  cases chars with
  | nil => simp
  | cons c chars =>
    rw [Value.write] at hchars
    have hhead : some (CodePoint.char '[') = some (.char c) := congrArg List.head? hchars
    cases hhead
    simp

end Written

end ScriptGate.Json
