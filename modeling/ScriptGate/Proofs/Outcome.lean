import Mathlib.Data.List.Forall2

/-!
# Computations that may fail

The parts of a computation that succeeds succeed, and a list of computations succeeds if and only if
each of them does.

## Main results

* `bind_eq_ok`, `map_eq_ok`, `mapError_eq_ok`: the parts of a computation that succeeds.
* `bind_eq_error`, `map_eq_error`: the part of a computation that fails.
* `mapM_eq_ok`, `forall₂_of_mapM`: a list of computations that succeed.
* `mapM_eq_error`: the first one that fails is told.
-/

namespace ScriptGate

variable {α β ε ε' : Type}

section Parts

variable {x : Except ε α} {b : β}

/-- **The parts of a computation that succeeds succeed.** -/
theorem bind_eq_ok {f : α → Except ε β} (h : x >>= f = .ok b) :
    ∃ a, x = .ok a ∧ f a = .ok b := by
  cases x with
  | error e => cases h
  | ok a => exact ⟨a, rfl, h⟩

theorem map_eq_ok {f : α → β} (h : x.map f = .ok b) : ∃ a, x = .ok a ∧ f a = b := by
  cases x with
  | error e => cases h
  | ok a => exact ⟨a, rfl, Except.ok.inj h⟩

/-- A computation fails with the first of its parts that fails. -/
theorem bind_eq_error {f : α → Except ε β} {e : ε} (h : x >>= f = .error e) :
    x = .error e ∨ ∃ a, x = .ok a ∧ f a = .error e := by
  cases x with
  | error e' => exact .inl (congrArg Except.error (Except.error.inj h))
  | ok a => exact .inr ⟨a, rfl, h⟩

theorem map_eq_error {f : α → β} {e : ε} (h : x.map f = .error e) : x = .error e := by
  cases x with
  | error e' => exact congrArg Except.error (Except.error.inj h)
  | ok a => cases h

theorem mapError_eq_ok {f : ε → ε'} {a : α} (h : x.mapError f = .ok a) : x = .ok a := by
  cases x with
  | error e => cases h
  | ok b => exact congrArg Except.ok (Except.ok.inj h)

theorem eq_ok_of_toOption {a : α} (h : x.toOption = some a) : x = .ok a := by
  cases x with
  | error e => cases h
  | ok b => exact congrArg Except.ok (Option.some.inj h)

end Parts

/-! ### Lists -/

section Lists

variable {f : α → Except ε β} {l : List α}

theorem mapM_eq_ok {p : α → β → Prop} (h : ∀ a ∈ l, ∃ b, f a = .ok b ∧ p a b) :
    ∃ bs, l.mapM f = .ok bs ∧ List.Forall₂ (fun a b => f a = .ok b ∧ p a b) l bs := by
  induction l with
  | nil => exact ⟨[], rfl, .nil⟩
  | cons a l ih =>
    obtain ⟨⟨b, hb⟩, hl⟩ := List.forall_mem_cons.mp h
    obtain ⟨bs, hbs, hall⟩ := ih hl
    refine ⟨b :: bs, ?_, .cons hb hall⟩
    rw [List.mapM_cons, hb.1, hbs]
    rfl

theorem forall₂_of_mapM {bs : List β} (h : l.mapM f = .ok bs) :
    List.Forall₂ (fun a b => f a = .ok b) l bs := by
  induction l generalizing bs with
  | nil =>
    cases h
    exact .nil
  | cons a l ih =>
    rw [List.mapM_cons] at h
    obtain ⟨b, ha, h⟩ := bind_eq_ok h
    obtain ⟨cs, hl, hcons⟩ := bind_eq_ok h
    cases hcons
    exact .cons ha (ih hl)

/-- Whatever stands in the second of two related lists is related to something in the first. -/
theorem exists_of_mem_right {R : α → β → Prop} {bs : List β} {b : β} (h : List.Forall₂ R l bs)
    (hb : b ∈ bs) : ∃ a ∈ l, R a b := by
  induction h with
  | nil => cases hb
  | @cons a _ l bs ha _ ih =>
    rcases List.mem_cons.mp hb with rfl | hb
    · exact ⟨a, List.mem_cons_self .., ha⟩
    · obtain ⟨a', hmem, ha'⟩ := ih hb
      exact ⟨a', List.mem_cons_of_mem _ hmem, ha'⟩

theorem mapM_eq_error {before after : List α} {a : α} {bs : List β} {e : ε}
    (hbefore : before.mapM f = .ok bs) (ha : f a = .error e) :
    (before ++ a :: after).mapM f = .error e := by
  rw [List.mapM_append, hbefore, List.mapM_cons, ha]
  rfl

end Lists

end ScriptGate
