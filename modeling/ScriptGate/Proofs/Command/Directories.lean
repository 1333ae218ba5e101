import ScriptGate.Proofs.Command.Files
import ScriptGate.Proofs.Text.Plain
import ScriptGate.Proofs.Text.RoundTrip

/-!
# Making directories

What a host answers when it makes directories depends on its folder only. A directory that was made
is there, and making it again changes nothing. So a file that could be written once, after the
directories that it lies in were made, can be written again and again.

## Main definitions

* `Folder.makeOne`, `Folder.makeFrom`: what making directories does to a folder.
* `Folder.Admits`: a file can be written at a path, once its directories are made.

## Main results

* `Host.Keeps.tracks_makeFrom`: a host makes directories as its folder does.
* `Folder.isDirectory_of_makeFrom`: a directory that was made is there.
* `Folder.makeFrom_of_isDirectory`: making a directory that is there changes nothing.
* `Command.append_eq_ok`: a file is appended to, and can be appended to again.
* `Command.append_eq_error`: a text that cannot be encoded is refused.
-/

namespace ScriptGate

namespace Folder

/-! ### Directories that are there -/

section Directory

variable {f g : Folder} {path : List Char}

theorem isDirectory_iff : f.isDirectory path ↔ ∃ p, f.find path = .ok p ∧ f.isDirectoryAt p := by
  rw [isDirectory]
  cases f.find path with
  | ok p => simp
  | error e => simp

theorem Grows.isDirectory (hgrows : f.Grows g) (h : f.isDirectory path) : g.isDirectory path := by
  obtain ⟨p, hp, hdirectory⟩ := isDirectory_iff.mp h
  exact isDirectory_iff.mpr ⟨p, hgrows.find hp, hgrows.directories p hdirectory⟩

/-- A directory that was made is there. -/
theorem isDirectory_of_makeDirectory (h : f.makeDirectory path = .ok g) : g.isDirectory path := by
  obtain ⟨p, hp, hmake⟩ := bind_eq_ok h
  refine isDirectory_iff.mpr ⟨p, (widens_makeDirectory h).find hp, ?_⟩
  split at hmake
  · cases hmake
  · cases hmake
    simp [isDirectoryAt]

/-- A directory that is there cannot be made. -/
theorem makeDirectory_of_isDirectory (h : f.isDirectory path) :
    f.makeDirectory path = .error ⟨.alreadyExists, path⟩ := by
  obtain ⟨p, hp, hdirectory⟩ := isDirectory_iff.mp h
  rw [makeDirectory, hp]
  simp [bind, Except.bind, hdirectory]

end Directory

/-! ### Making directories in a folder -/

/-- Makes one directory, unless it is there. -/
def makeOne (f : Folder) (path : List Char) : Except FileError Unit × Folder :=
  match f.makeDirectory path with
  | .ok made => (.ok (), made)
  | .error e => (if e.fault ≠ .nullByte && f.isDirectory path then .ok () else .error e, f)

/-- Makes a directory after the directories that it lies in; its parts are given last first. -/
def makeFrom (slashes : Nat) : (parts : List (List Char)) → Folder → Except FileError Unit × Folder
  | [], f => f.makeOne (Path.mk slashes []).chars
  | part :: outer, f =>
    let path := (Path.mk slashes (part :: outer).reverse).chars
    match f.makeDirectory path with
    | .error ⟨.notFound, _⟩ =>
      match makeFrom slashes outer f with
      | (.ok _, g) => g.makeOne path
      | (.error e, g) => (.error e, g)
    | _ => f.makeOne path

variable {f g : Folder} {path : List Char} {slashes : Nat} {parts : List (List Char)}

theorem isDirectory_of_makeOne (h : f.makeOne path = (.ok (), g)) : g.isDirectory path := by
  rw [makeOne] at h
  cases hmake : f.makeDirectory path with
  | ok made =>
    rw [hmake] at h
    cases h
    exact isDirectory_of_makeDirectory hmake
  | error e =>
    rw [hmake] at h
    obtain ⟨hvalue, rfl⟩ := Prod.mk.inj h
    split at hvalue
    next hthere => exact (Bool.and_eq_true_iff.mp hthere).2
    · cases hvalue

theorem makeOne_of_isDirectory (h : f.isDirectory path) : f.makeOne path = (.ok (), f) := by
  rw [makeOne, makeDirectory_of_isDirectory h]
  simp [h]

/-- **A directory that was made is there.** -/
theorem isDirectory_of_makeFrom (h : makeFrom slashes parts f = (.ok (), g)) :
    g.isDirectory (Path.mk slashes parts.reverse).chars := by
  cases parts with
  | nil => exact isDirectory_of_makeOne h
  | cons part outer =>
    rw [makeFrom] at h
    split at h
    · split at h
      · exact isDirectory_of_makeOne h
      · cases h
    · exact isDirectory_of_makeOne h

/-- **Making a directory that is there changes nothing.** -/
theorem makeFrom_of_isDirectory (h : f.isDirectory (Path.mk slashes parts.reverse).chars) :
    makeFrom slashes parts f = (.ok (), f) := by
  cases parts with
  | nil => exact makeOne_of_isDirectory h
  | cons part outer =>
    rw [makeFrom, makeDirectory_of_isDirectory h]
    exact makeOne_of_isDirectory h

end Folder

/-! ### Hosts make directories as their folders do -/

/-- A change of a folder is made, or fails and leaves the folder as it is. -/
theorem Tracks.step_cases {σ : Type} {view : σ → Folder} {x : StateM σ (Except FileError Unit)}
    {change : Folder → Except FileError Folder} (hx : Tracks view x (Folder.step change)) (s : σ) :
    (∃ s', x s = (.ok (), s') ∧ change (view s) = .ok (view s')) ∨
      ∃ e s', x s = (.error e, s') ∧ change (view s) = .error e ∧ view s' = view s := by
  have hx := hx s
  rcases Folder.step_cases change (view s) with ⟨g, hchange, hstep⟩ | ⟨e, hchange, hstep⟩
  · obtain ⟨hresult, rfl⟩ := Prod.mk.inj (hstep.symm.trans hx)
    exact .inl ⟨(x s).2, Prod.ext hresult.symm rfl, hchange⟩
  · obtain ⟨hresult, hview⟩ := Prod.mk.inj (hstep.symm.trans hx)
    exact .inr ⟨e, (x s).2, Prod.ext hresult.symm rfl, hchange, hview.symm⟩

namespace Host.Keeps

variable {σ : Type} {host : Host (StateM σ)} {view : σ → Folder}

theorem tracks_allowExisting (hkeeps : host.Keeps view) (path : List Char) (e : FileError) :
    Tracks view (host.allowExisting path e) fun f =>
      (if e.fault ≠ .nullByte && f.isDirectory path then .ok () else .error e, f) := by
  intro s
  have hthere := hkeeps.isDirectory path s
  rcases hx : host.isDirectory path s with ⟨there, after⟩
  rw [hx] at hthere
  obtain ⟨rfl, hview⟩ := Prod.mk.inj hthere
  simp only [allowExisting, bind, StateT.bind, hx]
  split
  · exact Prod.ext rfl hview
  · exact Prod.ext rfl hview

/-- Making one directory. -/
theorem tracks_makeOne (hkeeps : host.Keeps view) (path : List Char) :
    Tracks view (do
      match ← host.makeDirectory path with
      | .ok _ => pure (.ok ())
      | .error e => host.allowExisting path e) fun f => f.makeOne path := by
  intro s
  rcases (hkeeps.makeDirectory path).step_cases s with
    ⟨after, hx, hmake⟩ | ⟨e, after, hx, hmake, hview⟩
  · simp only [bind, StateT.bind, hx, Folder.makeOne, hmake]
    rfl
  · simp only [bind, StateT.bind, hx, Folder.makeOne, hmake]
    rw [← hview]
    exact hkeeps.tracks_allowExisting path e after

/-- **A host makes directories as its folder does.** -/
theorem tracks_makeFrom (hkeeps : host.Keeps view) (slashes : Nat) (parts : List (List Char)) :
    Tracks view (host.makeFrom slashes parts) (Folder.makeFrom slashes parts) := by
  induction parts with
  | nil => exact hkeeps.tracks_makeOne _
  | cons part outer ih =>
    intro s
    rw [Host.makeFrom, Folder.makeFrom]
    generalize (Path.mk slashes (part :: outer).reverse).chars = path
    have hone := hkeeps.tracks_makeOne path s
    rcases (hkeeps.makeDirectory path).step_cases s with
      ⟨after, hx, hmake⟩ | ⟨⟨fault, q⟩, after, hx, hmake, hview⟩
    · simp only [bind, StateT.bind, hx, hmake] at hone ⊢
      exact hone
    by_cases hfault : fault = .notFound
    · -- The outer directories are made first, and then the directory itself.
      subst hfault
      rcases hy : host.makeFrom slashes outer after with ⟨result, mid⟩
      have houter := ih after
      rw [hy, hview] at houter
      simp only [bind, StateT.bind, hx, hmake, if_true, hy, houter]
      cases result with
      | ok _ => exact hkeeps.tracks_makeOne path mid
      | error e => rfl
    · simp only [bind, StateT.bind, hx, hmake, if_neg hfault] at hone ⊢
      rw [← hone]
      split
      next heq => exact absurd (FileError.mk.inj (Except.error.inj heq)).1 hfault
      · rfl

end Host.Keeps

/-! ### Files that can be written -/

/-- The directories of a file can be made, and then no directory stands in its place. -/
def Folder.Admits (f : Folder) (path : Path) : Prop :=
  ∃ g p, makeFrom path.slashes path.parent.parts.reverse f = (.ok (), g) ∧
    g.find path.chars = .ok p ∧ g.isDirectoryAt p = false

/-- A file that was written can be written again. -/
theorem Folder.admits_put {f g : Folder} {path : Path} {p : Place}
    (hmake : makeFrom path.slashes path.parent.parts.reverse f = (.ok (), g))
    (hp : g.find path.chars = .ok p) (hfile : g.isDirectoryAt p = false) (text : Text) :
    (g.put p text).Admits path := by
  have hthere := (Grows.put g p text).isDirectory (isDirectory_of_makeFrom hmake)
  exact ⟨g.put p text, p, makeFrom_of_isDirectory hthere, (Grows.put g p text).find hp, hfile⟩

namespace Command

variable {σ : Type} {host : Host (StateM σ)} {view : σ → Folder} {path : Path} {s : σ}

/-- Where a file admits it, its directories are made, and then it can be written. -/
theorem makeAll_of_admits (hkeeps : host.Keeps view) (h : (view s).Admits path) :
    ∃ made p, (onFile (host.makeAll path.parent)).run s = (.ok (), made) ∧
      (view made).find path.chars = .ok p ∧ (view made).isDirectoryAt p = false ∧
      ∀ text, ((view made).put p text).Admits path := by
  obtain ⟨g, p, hmake, hp, hfile⟩ := h
  have htracks := hkeeps.tracks_makeFrom path.slashes path.parent.parts.reverse s
  rw [hmake] at htracks
  obtain ⟨hmade, rfl⟩ := Prod.mk.inj htracks
  refine ⟨(host.makeAll path.parent s).2, p, ?_, hp, hfile, Folder.admits_put hmake hp hfile⟩
  rw [run_onFile, Host.makeAll]
  exact Prod.ext (congrArg (Except.mapError Crash.file) hmade.symm) rfl

/-- **A file that admits it is appended to**, after its directories are made, and still admits it
afterwards. -/
theorem append_eq_ok (hkeeps : host.Keeps view) (h : (view s).Admits path) {text : Text}
    (htext : text.Plain) :
    ∃ made s', (onFile (host.makeAll path.parent)).run s = (.ok (), made) ∧
      (onFile (host.append path.chars text)).run made = (.ok (), s') ∧ (view s').Admits path := by
  obtain ⟨made, p, hmake, hp, hfile, hagain⟩ := makeAll_of_admits hkeeps h
  obtain ⟨cs, hcs⟩ := Text.plain_iff.mp htext
  have happends := hkeeps.append path.chars text
  rw [Folder.save_of_scalars (Utf8.scalars_eq_ok_iff.mpr hcs)] at happends
  have hchange := Folder.change_of_find hp hfile fun old => id old ++ text
  rcases happends.step_cases made with ⟨s', hx, happend⟩ | ⟨e, _, -, he, -⟩
  · refine ⟨made, s', hmake, by rw [run_onFile, hx]; rfl, ?_⟩
    rw [← Except.ok.inj (hchange.symm.trans happend)]
    exact hagain _
  · cases hchange.symm.trans he

/-- **A text that cannot be encoded is refused**, after the directories of the file are made. -/
theorem append_eq_error (hkeeps : host.Keeps view) (h : (view s).Admits path) {text : Text}
    (htext : ¬text.Plain) :
    ∃ made s' e, (onFile (host.makeAll path.parent)).run s = (.ok (), made) ∧
      (onFile (host.append path.chars text)).run made =
        (.error (.file ⟨.unencodable e, path.chars⟩), s') := by
  obtain ⟨made, p, hmake, hp, hfile, -⟩ := makeAll_of_admits hkeeps h
  cases hscalars : Utf8.scalars 0 text with
  | ok cs => exact absurd (Text.plain_iff.mpr ⟨cs, Utf8.scalars_eq_ok_iff.mp hscalars⟩) htext
  | error e =>
    have hsave := hkeeps.append path.chars text made
    rw [Folder.save_of_unencodable hscalars, Folder.step, Folder.change_of_find hp hfile] at hsave
    refine ⟨made, (host.append path.chars text made).2, e, hmake, ?_⟩
    rw [run_onFile, ← congrArg Prod.fst hsave]
    rfl

end Command

end ScriptGate
