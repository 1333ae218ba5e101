import Mathlib.Algebra.Group.Nat.Defs
import ScriptGate.Proofs.Audit.Trail
import ScriptGate.Proofs.Command.Directories

/-!
# Entries with any fields

Whoever asks for an entry chooses its operation and its fields. An entry that is refused leaves the
texts of all files as they were. All others are written, and what stands in the log afterwards tells
the entries that were asked for: no value can end a line, begin a field or pass for another one.

## Main definitions

* `Audit.merged`: the fields that count of those that were given.

## Main results

* `Audit.FieldValue.isLong_integer_iff`: the whole numbers that cannot be written.
* `Command.audit_eq_ok`: entries are written where the log admits it.
* `Command.texts_of_audit_error`: an entry that is refused adds nothing.
* `Command.audit_decodes`: the log tells the entries that were asked for.
-/

namespace ScriptGate

namespace Audit

/-! ### Entries with any fields -/

theorem mem_of_mem_putField {f : Text × Option FieldValue} {name : Text} {v : Option FieldValue}
    {fields : List (Text × Option FieldValue)} (h : f ∈ putField name v fields) :
    f = (name, v) ∨ f ∈ fields := by
  induction fields with
  | nil => exact .inl (List.mem_singleton.mp h)
  | cons g fields ih =>
    rw [putField] at h
    split at h
    case isTrue hname =>
      rcases List.mem_cons.mp h with rfl | h
      · exact .inl (by rw [hname])
      · exact .inr (List.mem_cons_of_mem _ h)
    case isFalse =>
      rcases List.mem_cons.mp h with rfl | h
      · exact .inr (List.mem_cons_self ..)
      · exact (ih h).imp id (List.mem_cons_of_mem _)

theorem putField_of_not_mem {name : Text} {v : Option FieldValue}
    {fields : List (Text × Option FieldValue)} (h : name ∉ fields.map Prod.fst) :
    putField name v fields = fields ++ [(name, v)] := by
  induction fields with
  | nil => rfl
  | cons g fields ih =>
    obtain ⟨hname, hrest⟩ := not_or.mp fun hmem => h (List.mem_cons.mpr hmem)
    rw [putField, if_neg (Ne.symm hname), ih hrest, List.cons_append]

/-- Fields put into others, one after the other. -/
def putAll (fields acc : List (Text × Option FieldValue)) : List (Text × Option FieldValue) :=
  fields.foldl (fun acc f => putField f.1 f.2 acc) acc

theorem mem_of_mem_putAll {f : Text × Option FieldValue}
    {fields acc : List (Text × Option FieldValue)} (h : f ∈ putAll fields acc) :
    f ∈ fields ∨ f ∈ acc := by
  induction fields generalizing acc with
  | nil => exact .inr h
  | cons g fields ih =>
    rcases ih h with hf | hf
    · exact .inl (List.mem_cons_of_mem _ hf)
    · rcases mem_of_mem_putField hf with rfl | hf
      · exact .inl (List.mem_cons_self ..)
      · exact .inr hf

theorem putAll_of_nodup {fields acc : List (Text × Option FieldValue)}
    (h : ((acc ++ fields).map Prod.fst).Nodup) : putAll fields acc = acc ++ fields := by
  induction fields generalizing acc with
  | nil => exact (List.append_nil acc).symm
  | cons g fields ih =>
    have hnew : g.1 ∉ acc.map Prod.fst := by
      rw [List.map_append, List.nodup_append] at h
      exact fun hmem => h.2.2 _ hmem _ (List.mem_cons_self ..) rfl
    rw [List.append_cons] at h ⊢
    rw [← ih h, ← putField_of_not_mem hnew]
    rfl

/-- The fields that count: of those with one name the last value, at the place of the first. -/
def merged (fields : List (Text × Option FieldValue)) : List (Text × Option FieldValue) :=
  putAll fields []

theorem mem_of_mem_merged {f : Text × Option FieldValue}
    {fields : List (Text × Option FieldValue)} (h : f ∈ merged fields) : f ∈ fields :=
  (mem_of_mem_putAll h).resolve_right List.not_mem_nil

/-- Fields with different names all count. -/
theorem merged_of_nodup {fields : List (Text × Option FieldValue)}
    (h : (fields.map Prod.fst).Nodup) : merged fields = fields :=
  putAll_of_nodup h

theorem mem_keys_putField {key name : Text} {v : Option FieldValue}
    {fields : List (Text × Option FieldValue)} :
    key ∈ (putField name v fields).map Prod.fst ↔ key = name ∨ key ∈ fields.map Prod.fst := by
  induction fields with
  | nil => simp [putField]
  | cons g fields ih =>
    rw [putField]
    split
    case isTrue hname => simp [hname]
    case isFalse =>
      rw [List.map_cons, List.mem_cons, ih, List.map_cons, List.mem_cons]
      exact or_left_comm

theorem mem_keys_putAll {key : Text} {fields acc : List (Text × Option FieldValue)} :
    key ∈ (putAll fields acc).map Prod.fst ↔
      key ∈ fields.map Prod.fst ∨ key ∈ acc.map Prod.fst := by
  induction fields generalizing acc with
  | nil => simp [putAll]
  | cons g fields ih =>
    rw [putAll, List.foldl_cons, ← putAll, ih, mem_keys_putField, List.map_cons, List.mem_cons]
    exact or_left_comm.trans or_assoc.symm

/-- An entry can be made unless a field has a name that is taken. -/
theorem Entry.make_eq_ok {operation : Text} {fields : List (Text × Option FieldValue)}
    (h : ∀ f ∈ fields, f.1 ∉ reservedNames) :
    Entry.make operation fields = .ok ⟨operation, merged fields⟩ := by
  have hfind : (merged fields).find? (fun f => f.1 ∈ reservedNames) = none :=
    List.find?_eq_none.mpr fun f hf => by simpa using h f (mem_of_mem_merged hf)
  rw [Entry.make, ← putAll, ← merged, hfind]

/-- A field with a name that is taken is refused. -/
theorem Entry.make_eq_error {operation : Text} {fields : List (Text × Option FieldValue)}
    {f : Text × Option FieldValue} (hf : f ∈ fields) (hname : f.1 ∈ reservedNames) :
    ∃ name ∈ reservedNames, Entry.make operation fields = .error (.nameClash name) := by
  have hkey : f.1 ∈ (merged fields).map Prod.fst :=
    mem_keys_putAll.mpr (.inl (List.mem_map_of_mem hf))
  obtain ⟨g, hg, hgf⟩ := List.mem_map.mp hkey
  have hsome : ((merged fields).find? fun f => f.1 ∈ reservedNames).isSome :=
    List.find?_isSome.mpr ⟨g, hg, decide_eq_true (hgf ▸ hname)⟩
  obtain ⟨taken, htaken⟩ := Option.isSome_iff_exists.mp hsome
  have hreserved := List.find?_some htaken
  refine ⟨taken.1, of_decide_eq_true hreserved, ?_⟩
  rw [Entry.make, ← putAll, ← merged, htaken]

theorem Entry.Clear.merged {e : Entry} (h : e.Clear) :
    Entry.Clear ⟨e.operation, Audit.merged e.fields⟩ where
  operation := h.operation
  keys f hf := h.keys f (mem_of_mem_merged hf)
  plain := h.plain
  values f hf := h.values f (mem_of_mem_merged hf)

theorem Entry.hasLongInteger_merged {e : Entry} (h : e.hasLongInteger = false) :
    Entry.hasLongInteger ⟨e.operation, Audit.merged e.fields⟩ = false := by
  rw [hasLongInteger, List.any_eq_false] at h ⊢
  exact fun f hf => h f (mem_of_mem_merged hf)

/-! ### Numbers that cannot be written -/

/-- **A whole number cannot be written if it has too many digits**, and only then. -/
theorem FieldValue.isLong_integer_iff {n : Int} :
    (FieldValue.integer n).isLong ↔ 10 ^ Numeral.maxDigits ≤ n.natAbs := by
  have hlength : (Text.ofNat n.natAbs).length = (Nat.toDigits 10 n.natAbs).length := by
    rw [← Json.toChars_ofNat, Text.length_toChars]
  rw [isLong, decide_eq_true_iff, hlength, ← Nat.not_le,
    Nat.length_toDigits_le_iff (by decide) (by decide), Nat.not_lt]

end Audit

namespace Command

open Audit (Entry Time Told readLine? readLog?)

variable {σ : Type} {host : Host (StateM σ)} {view : σ → Folder} {log : Path}

/-! ### Entries that are written and entries that are refused -/

/-- **Entries are written** where the log admits it. -/
theorem audit_eq_ok (hkeeps : host.Keeps view) {s : σ} (h : (view s).Admits log) {es : List Entry}
    (hclear : ∀ e ∈ es, e.Clear) (hshort : ∀ e ∈ es, e.hasLongInteger = false) :
    ∃ s', (audit host log es).run s = (.ok (), s') := by
  induction es generalizing s with
  | nil => exact ⟨s, rfl⟩
  | cons e es ih =>
    obtain ⟨hfirst, hclear⟩ := List.forall_mem_cons.mp hclear
    obtain ⟨hprints, hshort⟩ := List.forall_mem_cons.mp hshort
    have hclock : (view (host.now s).2).Admits log := by rwa [hkeeps.now]
    obtain ⟨made, written, hmake, hwrite, hagain⟩ :=
      append_eq_ok hkeeps hclock (hfirst.plain_line (host.now s).1)
    obtain ⟨s', hs'⟩ := ih hagain hclear hshort
    exact ⟨s', by rw [audit_cons hprints, run_bind_of_ok hmake, run_bind_of_ok hwrite, hs']⟩

/-- An entry whose line cannot be encoded is refused. -/
theorem audit_of_unencodable (hkeeps : host.Keeps view) {s : σ} (hlog : (view s).Admits log)
    {e : Entry} (hshort : e.hasLongInteger = false) (hbroken : ∀ now, ¬(e.line now).Plain)
    (es : List Entry) :
    ∃ x s', (audit host log (e :: es)).run s =
      (.error (.file ⟨.unencodable x, log.chars⟩), s') := by
  have hclock : (view (host.now s).2).Admits log := by rwa [hkeeps.now]
  obtain ⟨made, s', x, hmake, hwrite⟩ := append_eq_error hkeeps hclock (hbroken (host.now s).1)
  exact ⟨x, s', by rw [audit_cons hshort, run_bind_of_ok hmake, run_bind_of_error hwrite]⟩

/-- **An entry that is refused adds nothing**, whatever the reason is. Directories may have been
made, and an empty file. -/
theorem texts_of_audit_error (hkeeps : host.Keeps view) {e : Entry} {crash : Crash} {s s' : σ}
    (h : (audit host log [e]).run s = (.error crash, s')) (p : Place) :
    (view s').textAt p = (view s).textAt p := by
  rw [← hkeeps.now s]
  cases hlong : e.hasLongInteger with
  | true =>
    obtain rfl : (host.now s).2 = s' := congrArg Prod.snd ((audit_of_long hlong [] s).symm.trans h)
    rfl
  | false =>
    rw [audit_cons hlong] at h
    have hwidens := (hkeeps.widens_makeFrom log.parent.slashes log.parent.parts.reverse).onFile
      (host.now s).2
    rw [← Host.makeAll] at hwidens
    rcases run_bind_eq_error h with h | ⟨_, made, hmake, h⟩
    · rw [h] at hwidens
      exact hwidens.textAt p
    rw [hmake] at hwidens
    rw [← hwidens.textAt p]
    rcases run_bind_eq_error h with h | ⟨_, written, -, h⟩
    · obtain ⟨error, hx⟩ := onFile_eq_error h
      have hsave := hkeeps.append log.chars (e.line (host.now s).1) made
      rw [hx] at hsave
      exact Folder.textAt_of_save_error hsave p
    · cases h

/-- **The audit log cannot be forged.** Let entries be asked for, one after the other, with
operations that hold neither a closing bracket nor a line break, with keys that hold no delimiter
and are not taken, and with any values but whole numbers of too many digits; all of this consists of
characters. Then every entry is made, with the fields that are asked for if no two share a key, and
written at the end of the log. Its line is ended by a line feed, has no other line break and is read
back as its time, its operation and the pairs of its keys and values. So two lines are equal only if
they tell the same, and a log that told entries before tells them still and then those that were
asked for. An entry with a key that is taken is not made; one with a number of too many digits is
refused before anything is done; and one whose line cannot be encoded is refused, and the texts of
all files are as they were. -/
theorem audit_decodes (hkeeps : host.Keeps view) {before : σ} (hlog : (view before).Admits log)
    {asked : List Entry} (hclear : ∀ a ∈ asked, a.Clear)
    (hnames : ∀ a ∈ asked, ∀ f ∈ a.fields, f.1 ∉ Audit.reservedNames)
    (hshort : ∀ a ∈ asked, a.hasLongInteger = false) :
    (∃ (es : List Entry) (times : List Time) (after : σ),
      List.Forall₂ (fun a e => Entry.make a.operation a.fields = .ok e ∧
        e.operation = a.operation ∧ ((a.fields.map Prod.fst).Nodup → e.fields = a.fields))
        asked es ∧
      (audit host log es).run before = (.ok (), after) ∧ times.length = es.length ∧
      Folder.Appended log.chars (List.zipWith Entry.line es times) (view before) (view after) ∧
      (∀ e ∈ es, ∀ now, ∃ body, e.line now = body ++ [.char '\n'] ∧ body.Avoids '\n' ∧
        body.Avoids '\r' ∧ readLine? body = some ⟨now, e.operation, e.pairs⟩) ∧
      (∀ e ∈ es, ∀ d ∈ es, ∀ now later, e.line now = d.line later →
        now = later ∧ e.operation = d.operation ∧ e.pairs = d.pairs) ∧
      ∀ p told, (view after).find log.chars = .ok p →
        readLog? ((view before).textAt p) = some told →
        readLog? ((view after).textAt p) = some (told ++ List.zipWith Entry.told es times)) ∧
    (∀ a : Entry, (∃ f ∈ a.fields, f.1 ∈ Audit.reservedNames) →
      ∃ name ∈ Audit.reservedNames, Entry.make a.operation a.fields = .error (.nameClash name)) ∧
    (∀ e : Entry, e.hasLongInteger → ∃ after,
      (audit host log [e]).run before = (.error (.entry .longInteger), after) ∧
        view after = view before) ∧
    ∀ e : Entry, e.hasLongInteger = false → (∀ now, ¬(e.line now).Plain) → ∃ x after,
      (audit host log [e]).run before = (.error (.file ⟨.unencodable x, log.chars⟩), after) ∧
        ∀ p, (view after).textAt p = (view before).textAt p := by
  refine ⟨?_, fun a ⟨f, hf, hname⟩ => Entry.make_eq_error hf hname,
    fun e hlong => ⟨_, audit_of_long hlong [] before, hkeeps.now before⟩,
    fun e hprints hbroken => ?_⟩
  · let made (a : Entry) : Entry := ⟨a.operation, Audit.merged a.fields⟩
    have hes : ∀ e ∈ asked.map made, e.Clear ∧ e.hasLongInteger = false := by
      intro e he
      obtain ⟨a, ha, rfl⟩ := List.mem_map.mp he
      exact ⟨(hclear a ha).merged, Entry.hasLongInteger_merged (hshort a ha)⟩
    obtain ⟨after, hrun⟩ := audit_eq_ok hkeeps hlog (fun e he => (hes e he).1)
      fun e he => (hes e he).2
    obtain ⟨times, hlength, happended⟩ := audit_appended hkeeps hrun
    refine ⟨asked.map made, times, after, ?_, hrun, hlength, happended, fun e he now => ?_,
      fun e he d hd now later hline => ?_, fun p told hp htold => ?_⟩
    · rw [List.forall₂_map_right_iff, List.forall₂_same]
      exact fun a ha => ⟨Entry.make_eq_ok (hnames a ha), rfl, Audit.merged_of_nodup⟩
    · have hclear := (hes e he).1
      exact ⟨e.body now, e.line_eq_body now, hclear.avoids_body (by decide) now,
        hclear.avoids_body (by decide) now, hclear.readLine?_body now⟩
    · exact Told.mk.inj ((hes e he).1.told_eq (hes d hd).1 hline)
    · rw [happended.text p hp]
      exact Audit.readLog?_append htold (Audit.readLog?_lines (fun e he => (hes e he).1) times)
  · obtain ⟨x, after, hrun⟩ := audit_of_unencodable hkeeps hlog hprints hbroken []
    exact ⟨x, after, hrun, texts_of_audit_error hkeeps hrun⟩

/-! ### Examples -/

/-- An entry with a value that looks like the end of its line and the begin of another field, with a
field that has no value and with a negative number. -/
def forgingEntry : Entry where
  operation := "VALIDATE"
  fields :=
    [("first", some (.text "x\" status=ok\n")), ("span", none), ("index", some (.integer (-3)))]

theorem forgingEntry_clear : forgingEntry.Clear := by
  refine Entry.clear_of_names "VALIDATE" ["first", "span", "index"] (by decide) rfl (by decide) ?_
  simp only [List.forall_mem_cons]
  refine ⟨?_, ?_, ?_, fun _ h => absurd h List.not_mem_nil⟩
  · rintro _ ⟨⟩
    exact Text.plain_ofString _
  · rintro _ ⟨⟩
  · rintro _ ⟨⟩
    exact Audit.plain_integer (-3)

/-- The entry is written twice into a new log, and the log tells it twice. -/
theorem forgingEntry_decodes :
    ∃ (times : List Time) (after : Folder) (p : Place), times.length = 2 ∧
      (audit noonHost (Path.ofChars begunPath) [forgingEntry, forgingEntry]).run (.empty []) =
        (.ok (), after) ∧ after.find (Path.ofChars begunPath).chars = .ok p ∧
      readLog? (after.textAt p) = some (times.map fun now =>
        ⟨now, "VALIDATE", [("first", "x\" status=ok\n"), ("index", "-3")]⟩) := by
  have hadmits : (id (Folder.empty [])).Admits (Path.ofChars begunPath) := ⟨_, _, rfl, rfl, rfl⟩
  have hclear : ∀ a ∈ [forgingEntry, forgingEntry], a.Clear := by simp [forgingEntry_clear]
  have hmake : Entry.make forgingEntry.operation forgingEntry.fields = .ok forgingEntry := by rfl
  obtain ⟨⟨es, times, after, hmade, hrun, hlength, happended, -, -, hread⟩, -⟩ :=
    audit_decodes (Folder.host_keeps ['x'] _) hadmits hclear (by decide) (by decide)
  rcases hmade with _ | ⟨⟨hfirst, -, -⟩, _ | ⟨⟨hsecond, -, -⟩, ⟨⟩⟩⟩
  obtain rfl := Except.ok.inj (hmake.symm.trans hfirst)
  obtain rfl := Except.ok.inj (hmake.symm.trans hsecond)
  obtain ⟨now, later, rfl⟩ := List.length_eq_two.mp hlength
  obtain ⟨p, hp⟩ := happended.found (List.cons_ne_nil _ _)
  exact ⟨[now, later], after, p, rfl, hrun, hp, hread p [] hp rfl⟩

/-- An entry with one field, which has a number. -/
def numberEntry (key : String) (n : Nat) : Entry := ⟨"X", [(key, some (.integer n))]⟩

/-- An entry whose operation is half of a pair. -/
def brokenEntry : Entry := ⟨[.surrogate ⟨0x3E, by decide⟩], []⟩

theorem brokenEntry_not_plain (now : Time) : ¬(brokenEntry.line now).Plain := by
  intro hplain
  rw [Entry.line_eq_body] at hplain
  obtain ⟨c, hc⟩ := hplain (.surrogate ⟨0x3E, by decide⟩) (by simp [Entry.body, brokenEntry])
  cases hc

theorem numberEntry_hasLongInteger (key : String) {n : Nat} (h : 10 ^ Numeral.maxDigits ≤ n) :
    (numberEntry key n).hasLongInteger := by
  have hlong : (Audit.FieldValue.integer n).isLong := Audit.FieldValue.isLong_integer_iff.mpr h
  simp [Entry.hasLongInteger, numberEntry, hlong]

theorem numberEntry_clear {key : String} (hkey : ∀ p ∈ Audit.delimiters, p ∉ Text.ofString key)
    (n : Nat) : (numberEntry key n).Clear := by
  refine Entry.clear_of_names "X" [key] (by decide) rfl (by simpa using hkey) ?_
  rintro f hf v hv
  rw [List.mem_singleton.mp hf] at hv
  cases hv
  exact Audit.plain_integer n

/-- **Entries that are refused**, though neither a blank, a bracket nor a line break stands in their
operations and no delimiter in their keys: one with a field that is named like the operation, one
whose operation is half of a pair, and one with the first number that has too many digits. The log
is as it was. -/
theorem entries_refused :
    ((numberEntry "operation" 1).Clear ∧
      Entry.make "X" (numberEntry "operation" 1).fields = .error (.nameClash "operation")) ∧
    ((∀ c ∈ [' ', '[', ']', '\r', '\n'], brokenEntry.operation.Avoids c) ∧
      Entry.make brokenEntry.operation brokenEntry.fields = .ok brokenEntry ∧
      ∃ x after, (audit noonHost (Path.ofChars begunPath) [brokenEntry]).run begunLog =
        (.error (.file ⟨.unencodable x, (Path.ofChars begunPath).chars⟩), after) ∧
          ∀ p, after.textAt p = begunLog.textAt p) ∧
    ∃ n : Nat, n = 10 ^ Numeral.maxDigits ∧ (numberEntry "n" n).Clear ∧
      Entry.make "X" (numberEntry "n" n).fields = .ok (numberEntry "n" n) ∧
      (audit noonHost (Path.ofChars begunPath) [numberEntry "n" n]).run begunLog =
        (.error (.entry .longInteger), begunLog) := by
  have hkeeps : noonHost.Keeps id := Folder.host_keeps _ _
  have hadmits : (id begunLog).Admits (Path.ofChars begunPath) := ⟨_, _, rfl, rfl, rfl⟩
  obtain ⟨x, after, hrun⟩ := audit_of_unencodable hkeeps hadmits rfl brokenEntry_not_plain []
  refine ⟨⟨numberEntry_clear (by decide) 1, by decide⟩,
    ⟨fun c _ => by simp [brokenEntry, Text.Avoids], rfl, x, after, hrun,
      texts_of_audit_error hkeeps hrun⟩, ?_⟩
  generalize hn : 10 ^ Numeral.maxDigits = n
  exact ⟨n, rfl, numberEntry_clear (by decide) n, rfl,
    audit_of_long (numberEntry_hasLongInteger "n" (Nat.le_of_eq hn)) [] begunLog⟩

end Command

end ScriptGate
