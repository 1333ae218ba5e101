import ScriptGate.Proofs.Syntax.Tree

/-!
# Error regions and where they stand

A region of a tree is a node where the script makes no sense: an error region, or a token that is
missing. A node can occur more than once in a tree, so regions are told apart by their addresses:
the numbers of the children that lead down to them. An outermost region is one above which there is
no other. Looking for regions goes down only where a tree is flagged as wrong. If the flags tell the
truth, what is found are the outermost regions, all of them and each of them once, in the order in
which a walk from the root meets them.

## Main definitions

* `Node.at?`: the node at an address.
* `Node.isRegion`, `Node.IsOutermost`: regions, and addresses of outermost ones.
* `Node.outermost`: the outermost regions with their addresses.
* `Node.Flagged`: a tree whose flags tell the truth.

## Main results

* `Node.mem_outermost`, `Node.pairwise_outermost`: every outermost region is listed, in the order of
  the addresses.
* `Node.exists_isOutermost`, `Node.IsOutermost.eq_of_initial`: every region is an outermost one or
  below one, and no outermost region is below another.
* `Node.errorRegions_of_flagged`: in a tree whose flags tell the truth, the outermost regions are
  found.
-/

namespace ScriptGate.Node

/-! ### Addresses -/

/-- The node at an address, which is the numbers of the children that lead down to it. -/
def at? (n : Node) : (address : List Nat) → Option Node
  | [] => some n
  | i :: address => n.children[i]?.bind fun c => c.at? address

variable {n m : Node} {a b : List Nat}

theorem at?_cons_eq_some {i : Nat} :
    n.at? (i :: a) = some m ↔ ∃ c, n.children[i]? = some c ∧ c.at? a = some m := by
  rw [at?, Option.bind_eq_some_iff]

/-- What holds of all nodes of a tree holds at every address. -/
theorem all_iff_at? {p : Node → Bool} : n.all p ↔ ∀ a m, n.at? a = some m → p m := by
  induction n using tree_induction with
  | step n ih =>
    rw [all_iff]
    constructor
    · rintro ⟨hn, hchildren⟩ a m hm
      cases a with
      | nil => exact Option.some.inj hm ▸ hn
      | cons i a =>
        obtain ⟨c, hc, hm⟩ := at?_cons_eq_some.mp hm
        have hmem := List.mem_of_getElem? hc
        exact (ih c hmem).mp (hchildren c hmem) a m hm
    · intro h
      refine ⟨h [] n rfl, fun c hmem => (ih c hmem).mpr fun a m hm => ?_⟩
      obtain ⟨i, hc⟩ := List.getElem?_of_mem hmem
      exact h (i :: a) m (at?_cons_eq_some.mpr ⟨c, hc, hm⟩)

/-! ### Outermost regions -/

/-- The node is an error region or a missing token. -/
def isRegion (n : Node) : Bool := n.isError || n.isMissing

/-- At the address stands a region, and at no address above it. -/
structure IsOutermost (root : Node) (a : List Nat) : Prop where
  region : ∃ n, root.at? a = some n ∧ n.isRegion
  clear : ∀ b, b <+: a → b ≠ a → ∀ n, root.at? b = some n → n.isRegion = false

theorem isOutermost_nil : n.IsOutermost [] ↔ n.isRegion := by
  constructor
  · rintro ⟨⟨m, hm, hregion⟩, -⟩
    exact Option.some.inj hm ▸ hregion
  · exact fun h => ⟨⟨n, rfl, h⟩, fun b hb hne => absurd (List.prefix_nil.mp hb) hne⟩

theorem isOutermost_cons {i : Nat} : n.IsOutermost (i :: a) ↔
    n.isRegion = false ∧ ∃ c, n.children[i]? = some c ∧ c.IsOutermost a := by
  constructor
  · rintro ⟨⟨m, hm, hregion⟩, hclear⟩
    obtain ⟨c, hc, hm⟩ := at?_cons_eq_some.mp hm
    refine ⟨hclear [] (List.nil_prefix ..) (List.cons_ne_nil i a).symm n rfl, c, hc,
      ⟨m, hm, hregion⟩, fun b hb hne k hk => ?_⟩
    exact hclear (i :: b) (List.cons_prefix_cons.mpr ⟨rfl, hb⟩) (by simpa using hne) k
      (at?_cons_eq_some.mpr ⟨c, hc, hk⟩)
  · rintro ⟨hn, c, hc, ⟨m, hm, hregion⟩, hclear⟩
    refine ⟨⟨m, at?_cons_eq_some.mpr ⟨c, hc, hm⟩, hregion⟩, fun b hb hne k hk => ?_⟩
    cases b with
    | nil => exact Option.some.inj hk ▸ hn
    | cons j b =>
      obtain ⟨rfl, hbegins⟩ := List.cons_prefix_cons.mp hb
      obtain ⟨d, hd, hk⟩ := at?_cons_eq_some.mp hk
      obtain rfl := Option.some.inj (hc.symm.trans hd)
      exact hclear b hbegins (by simpa using hne) k hk

/-- **Every region is an outermost one or below one.** -/
theorem exists_isOutermost (hm : n.at? a = some m) (hregion : m.isRegion) :
    ∃ b, b <+: a ∧ n.IsOutermost b := by
  induction a generalizing n with
  | nil =>
    obtain rfl := Option.some.inj hm
    exact ⟨[], List.nil_prefix .., isOutermost_nil.mpr hregion⟩
  | cons i a ih =>
    cases hn : n.isRegion with
    | true => exact ⟨[], List.nil_prefix .., isOutermost_nil.mpr hn⟩
    | false =>
      obtain ⟨c, hc, hm⟩ := at?_cons_eq_some.mp hm
      obtain ⟨b, hb, houter⟩ := ih hm
      exact ⟨i :: b, List.cons_prefix_cons.mpr ⟨rfl, hb⟩, isOutermost_cons.mpr ⟨hn, c, hc, houter⟩⟩

/-- No outermost region is below another. -/
theorem IsOutermost.eq_of_initial (ha : n.IsOutermost a) (hb : n.IsOutermost b) (h : a <+: b) :
    a = b := by
  obtain ⟨m, hm, hregion⟩ := ha.region
  refine Decidable.byContradiction fun hne => ?_
  rw [hb.clear a h hne m hm] at hregion
  cases hregion

/-! ### The list of outermost regions -/

mutual

/-- The outermost regions with their addresses, in the order in which a walk from the root meets
them. -/
def outermost (n : Node) : List (List Nat × Node) :=
  match n with
  | ⟨_, _, _, _, isError, isMissing, _, _, children⟩ =>
    if isError || isMissing then [([], n)] else outermostFrom 0 children

/-- The outermost regions of the nodes of a list, the first of which is child number `i`. -/
def outermostFrom : (i : Nat) → List Node → List (List Nat × Node)
  | _, [] => []
  | i, c :: rest => c.outermost.map (fun x => (i :: x.1, x.2)) ++ outermostFrom (i + 1) rest

end

theorem outermostFrom_eq (i : Nat) (ns : List Node) :
    outermostFrom i ns = (ns.zipIdx i).flatMap fun c => c.1.outermost.map fun x =>
      (c.2 :: x.1, x.2) := by
  induction ns generalizing i with
  | nil => rfl
  | cons n ns ih => rw [outermostFrom, ih, List.zipIdx_cons, List.flatMap_cons]

theorem outermost_eq (n : Node) : n.outermost = if n.isRegion then [([], n)] else
    n.children.zipIdx.flatMap fun c => c.1.outermost.map fun x => (c.2 :: x.1, x.2) := by
  cases n
  simp only [outermost, outermostFrom_eq, isRegion]
  rfl

theorem mem_outermost_of_children {x : List Nat × Node} (hn : n.isRegion = false) :
    x ∈ n.outermost ↔ ∃ i c a, n.children[i]? = some c ∧ (a, x.2) ∈ c.outermost ∧ x.1 = i :: a := by
  rw [outermost_eq, hn, if_neg Bool.false_ne_true, List.mem_flatMap]
  constructor
  · rintro ⟨⟨c, i⟩, hc, hx⟩
    obtain ⟨⟨a, m⟩, hm, rfl⟩ := List.mem_map.mp hx
    exact ⟨i, c, a, List.mem_zipIdx_iff_getElem?.mp hc, hm, rfl⟩
  · rintro ⟨i, c, a, hc, hm, hx⟩
    exact ⟨(c, i), List.mem_zipIdx_iff_getElem?.mpr hc,
      List.mem_map.mpr ⟨_, hm, Prod.ext hx.symm rfl⟩⟩

/-- **The list holds every outermost region**, with its address, and nothing else. -/
theorem mem_outermost : (a, m) ∈ n.outermost ↔ n.IsOutermost a ∧ n.at? a = some m := by
  induction n using tree_induction generalizing a m with
  | step n ih =>
    cases hn : n.isRegion with
    | true =>
      rw [outermost_eq, hn, if_pos rfl, List.mem_singleton, Prod.mk.injEq]
      constructor
      · rintro ⟨rfl, rfl⟩
        exact ⟨isOutermost_nil.mpr hn, rfl⟩
      · rintro ⟨houter, hm⟩
        cases a with
        | nil => exact ⟨rfl, (Option.some.inj hm).symm⟩
        | cons i a => simp [isOutermost_cons, hn] at houter
    | false =>
      rw [mem_outermost_of_children hn]
      constructor
      · rintro ⟨i, c, a, hc, hm, rfl⟩
        obtain ⟨houter, hm⟩ := (ih c (List.mem_of_getElem? hc)).mp hm
        exact ⟨isOutermost_cons.mpr ⟨hn, c, hc, houter⟩, at?_cons_eq_some.mpr ⟨c, hc, hm⟩⟩
      · rintro ⟨houter, hm⟩
        cases a with
        | nil => simp [isOutermost_nil, hn] at houter
        | cons i a =>
          obtain ⟨-, c, hc, houter⟩ := isOutermost_cons.mp houter
          obtain ⟨d, hd, hm⟩ := at?_cons_eq_some.mp hm
          obtain rfl := Option.some.inj (hc.symm.trans hd)
          exact ⟨i, c, a, hc, (ih c (List.mem_of_getElem? hc)).mpr ⟨houter, hm⟩, rfl⟩

theorem mem_map_fst_outermost : a ∈ n.outermost.map (·.1) ↔ n.IsOutermost a := by
  constructor
  · intro ha
    obtain ⟨x, hx, rfl⟩ := List.mem_map.mp ha
    exact (mem_outermost.mp hx).1
  · intro houter
    obtain ⟨m, hm, -⟩ := houter.region
    exact List.mem_map.mpr ⟨(a, m), mem_outermost.mpr ⟨houter, hm⟩, rfl⟩

/-- A list pairs its members with rising numbers. -/
theorem pairwise_zipIdx {α : Type} (l : List α) (i : Nat) :
    (l.zipIdx i).Pairwise fun x y => x.2 < y.2 := by
  induction l generalizing i with
  | nil => exact .nil
  | cons x l ih =>
    rw [List.zipIdx_cons]
    exact .cons (fun y hy => List.le_snd_of_mem_zipIdx hy) (ih (i + 1))

/-- **The list is in the order in which a walk from the root meets its nodes**: a node comes before
those below it, and what is below a child comes before what is below a later one. -/
theorem pairwise_outermost (n : Node) :
    n.outermost.Pairwise fun x y => List.Lex (· < ·) x.1 y.1 := by
  induction n using tree_induction with
  | step n ih =>
    rw [outermost_eq]
    split
    · exact List.pairwise_singleton ..
    · refine List.pairwise_flatMap.mpr ⟨fun c hc => ?_, ?_⟩
      · have hmem := List.mem_of_getElem? (List.mem_zipIdx_iff_getElem?.mp hc)
        exact List.pairwise_map.mpr ((ih c.1 hmem).imp fun h => .cons h)
      · refine (pairwise_zipIdx n.children 0).imp fun hlt x hx y hy => ?_
        obtain ⟨x, -, rfl⟩ := List.mem_map.mp hx
        obtain ⟨y, -, rfl⟩ := List.mem_map.mp hy
        exact .rel hlt

theorem map_snd_outermost (hn : n.isRegion = false) :
    n.outermost.map (·.2) = n.children.flatMap fun c => c.outermost.map (·.2) := by
  have hfrom (i : Nat) (ns : List Node) :
      (outermostFrom i ns).map (·.2) = ns.flatMap fun c => c.outermost.map (·.2) := by
    induction ns generalizing i with
    | nil => rfl
    | cons c ns ih =>
      rw [outermostFrom, List.map_append, List.map_map, ih, List.flatMap_cons]
      rfl
  rw [outermost_eq, hn, if_neg Bool.false_ne_true, ← outermostFrom_eq, hfrom]

/-! ### Flags -/

/-- Every node is flagged as wrong if and only if it is a region or one is below it. -/
def Flagged (root : Node) : Prop :=
  ∀ a n, root.at? a = some n → (n.hasError ↔ ∃ b m, n.at? b = some m ∧ m.isRegion)

/-- Whether the flags tell the truth can be found out. -/
theorem flagged_iff {root : Node} :
    root.Flagged ↔ root.all fun n => n.hasError == !n.all fun m => !m.isRegion := by
  rw [all_iff_at?]
  refine forall₃_congr fun a n _ => ?_
  have hregion : (∃ b m, n.at? b = some m ∧ m.isRegion) ↔ ¬n.all fun m => !m.isRegion := by
    simp [all_iff_at?]
  rw [hregion]
  cases n.hasError <;> simp

instance (root : Node) : Decidable root.Flagged := decidable_of_iff _ flagged_iff.symm

theorem Flagged.child {c : Node} (h : n.Flagged) (hc : c ∈ n.children) : c.Flagged := by
  intro a m hm
  obtain ⟨i, hi⟩ := List.getElem?_of_mem hc
  exact h (i :: a) m (at?_cons_eq_some.mpr ⟨c, hi, hm⟩)

/-- Without a flag there is no region. -/
theorem Flagged.outermost_eq_nil (h : n.Flagged) (hn : n.hasError = false) : n.outermost = [] := by
  refine List.eq_nil_iff_forall_not_mem.mpr fun ⟨a, m⟩ hx => ?_
  obtain ⟨houter, hm⟩ := mem_outermost.mp hx
  obtain ⟨k, hk, hregion⟩ := houter.region
  have herror := (h [] n rfl).mpr ⟨a, k, hk, hregion⟩
  rw [hn] at herror
  cases herror

theorem flatMap_filter_of_nil {α β : Type} {p : α → Bool} {f : α → List β} {l : List α}
    (h : ∀ x ∈ l, p x = false → f x = []) : (l.filter p).flatMap f = l.flatMap f := by
  induction l with
  | nil => rfl
  | cons x l ih =>
    obtain ⟨hx, hl⟩ := List.forall_mem_cons.mp h
    rw [List.filter_cons, List.flatMap_cons, ← ih hl]
    split
    · rw [List.flatMap_cons]
    next hp => rw [hx (by simpa using hp), List.nil_append]

/-- **In a tree whose flags tell the truth, the outermost regions are found.** -/
theorem errorRegions_of_flagged (h : n.Flagged) : n.errorRegions = n.outermost.map (·.2) := by
  induction n using tree_induction with
  | step n ih =>
    have hchildren : n.children.flatMap errorRegions =
        n.children.flatMap fun c => c.outermost.map (·.2) :=
      congrArg List.flatten (List.map_congr_left fun c hc => ih c hc (h.child hc))
    rw [errorRegions_eq, ← isRegion]
    cases hn : n.isRegion with
    | true => rw [outermost_eq, hn, if_pos rfl, if_pos rfl, List.map_singleton]
    | false =>
      rw [if_neg Bool.false_ne_true, map_snd_outermost hn, ← hchildren]
      refine flatMap_filter_of_nil fun c hc hflag => ?_
      have herror : c.hasError = false := (Bool.or_eq_false_iff.mp hflag).1
      rw [ih c hc (h.child hc), (h.child hc).outermost_eq_nil herror, List.map_nil]

end ScriptGate.Node
