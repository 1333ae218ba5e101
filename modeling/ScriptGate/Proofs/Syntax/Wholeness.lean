import ScriptGate.Proofs.Syntax.Shape

/-!
# Trees that are whole as far as a check looks

A check needs less than a well-shaped tree. It reads the parts of the constructs that it knows,
which have to be there, and it does not look below a construct that it does not know: there the tree
may be anything. What a check needs of a node is what any condition has to ask that passes from a
node to all that is looked at inside it. Being well-shaped is such a condition, and being whole is
the weakest.

## Main definitions

* `Node.complete`: a node that has the parts of its kind.
* `Check.opens`, `Node.follows`: the kinds of nodes that a check looks into, and their children that
  it may look at.
* `Node.whole`: a tree that is complete as far as a check looks.
* `Check.Suffices`: a condition that asks what a check needs.

## Main results

* `Check.suffices_wellShaped`, `Check.suffices_whole`: well-shaped constructs and whole trees have
  what a check needs.
-/

namespace ScriptGate

/-! ### What a check looks at -/

/-- The node has the parts of its kind, in one of the ways that its shape allows. A pair may lack
its key. -/
def Node.complete (n : Node) : Bool :=
  (Shape.ofKind? n.kind).all fun shape =>
    shape.orders.any fun order => order.all fun f => f = .key || (n.child? f).isSome

/-- The kinds of nodes that a check looks into: those with a rule, and those that only hold together
what a rule looks at. -/
def Check.opens (kind : String) : Bool :=
  (Form.ofKind? kind).isSome ||
    kind ∈ ["pair", "arguments", "computed_property_name", "template_substitution"]

/-- The child may be looked at: it is a construct, or it plays a part. Of an operator only the kind
is read. -/
def Node.follows (n c : Node) : Bool :=
  c.isNamed || (Shape.ofKind? n.kind).isSome && c.field.any (· ≠ .operator)

namespace Node

mutual

/-- The tree is complete as far as a check looks. -/
def whole (n : Node) : Bool :=
  match n with
  | ⟨kind, _, _, _, _, _, _, _, children⟩ =>
    n.complete && (!Check.opens kind || wholeAll n children)

/-- The trees of a list are complete, if they may be looked at as children of `n`. -/
def wholeAll (n : Node) : List Node → Bool
  | [] => true
  | c :: rest => (!n.follows c || c.whole) && wholeAll n rest

end

theorem wholeAll_iff {n : Node} {ns : List Node} :
    wholeAll n ns ↔ ∀ c ∈ ns, n.follows c → c.whole := by
  induction ns with
  | nil => simp [wholeAll]
  | cons c ns ih => cases hc : n.follows c <;> simp [wholeAll, ih, hc]

/-- A tree is whole if its root is complete, and if a check looks into the root only at whole
trees. -/
theorem whole_iff {n : Node} : n.whole ↔
    n.complete ∧ (Check.opens n.kind → ∀ c ∈ n.children, n.follows c → c.whole) := by
  cases ho : Check.opens n.kind <;> cases n <;> simp_all [whole, wholeAll_iff]

/-- If all nodes of a tree are complete, every one of them is the root of a whole tree. -/
theorem whole_of_all_complete {n : Node} (h : n.all complete) : n.whole := by
  induction n using tree_induction with
  | step n ih =>
    obtain ⟨hn, hchildren⟩ := all_iff.mp h
    exact whole_iff.mpr ⟨hn, fun _ c hc _ => ih c hc (hchildren c hc)⟩

end Node

namespace Check

/-! ### Conditions that suffice -/

/-- The condition asks of a node what a check needs: that the node is complete and stands between
characters with all that is inside it. It passes on to what a check may look at. -/
structure Suffices (src : Source) (P : Node → Prop) : Prop where
  placed : ∀ {n : Node}, P n → n.all src.places
  complete : ∀ {n : Node}, P n → n.complete
  child : ∀ {n c : Node}, P n → opens n.kind → c ∈ n.children → n.follows c → P c

theorem opens_of_form {kind : String} {form : Form} (h : Form.ofKind? kind = some form) :
    opens kind := by
  simp [opens, h]

namespace Suffices

variable {src : Source} {P : Node → Prop} {n c : Node} {f : Field} {shape : Shape}

theorem named (hP : Suffices src P) (h : P n) (ho : opens n.kind) (hc : c ∈ n.children)
    (hn : c.isNamed) : P c :=
  hP.child h ho hc (by simp [Node.follows, hn])

theorem part (hP : Suffices src P) (h : P n) (ho : opens n.kind) (hc : c ∈ n.parts) : P c := by
  obtain ⟨hmem, hn, -⟩ := Node.mem_parts.mp hc
  exact hP.named h ho hmem hn

theorem child? (hP : Suffices src P) (h : P n) (ho : opens n.kind)
    (hs : Shape.ofKind? n.kind = some shape) (hc : n.child? f = some c) (hf : f ≠ .operator) :
    P c := by
  obtain ⟨hmem, hfield⟩ := Node.child?_eq_some hc
  exact hP.child h ho hmem (by simp [Node.follows, hs, hfield, hf])

/-- A part that stands in every order of a shape is there. -/
theorem exists_child? (hP : Suffices src P) (h : P n) (hs : Shape.ofKind? n.kind = some shape)
    (hf : ∀ order ∈ shape.orders, f ∈ order) (hkey : f ≠ .key) : ∃ c, n.child? f = some c := by
  have hcomplete := hP.complete h
  simp only [Node.complete, hs, Option.all_some, List.any_eq_true, List.all_eq_true] at hcomplete
  obtain ⟨order, horder, hparts⟩ := hcomplete
  have hpart := hparts f (hf order horder)
  exact Option.isSome_iff_exists.mp (by simpa [hkey] using hpart)

theorem unwrap (hP : Suffices src P) (h : P n) : P n.unwrap := by
  refine Node.unwrap_induction (fun n c h hk hc hcontent => ?_) h
  rw [Node.isContent, Bool.and_eq_true] at hcontent
  exact hP.named h (by rw [hk]; decide) hc hcontent.1

end Suffices

/-- **Well-shaped constructs have what a check needs.** -/
theorem suffices_wellShaped (src : Source) : Suffices src (WellShaped src) where
  placed h := h.placed
  complete {n} h := by
    cases hs : Shape.ofKind? n.kind with
    | none => simp [Node.complete, hs]
    | some shape =>
      have hparts : ∀ f ∈ n.fields, f = .key ∨ (n.child? f).isSome := fun f hf =>
        .inr (Option.isSome_iff_exists.mpr (Node.child?_isSome_of_mem_fields hf))
      simpa [Node.complete, hs] using ⟨n.fields, h.fields_mem hs, hparts⟩
  child {n c} h _ hc hfollows := by
    refine h.child hc ?_
    cases hs : Shape.ofKind? n.kind with
    | none => simpa [Node.follows, hs] using hfollows
    | some shape =>
      -- A child that plays a part of a known shape is a construct, unless it is an operator.
      rcases h.child_cases hs hc with ⟨f, hf, hadmits⟩ | ⟨hf, -⟩
      · by_cases hoperator : f = .operator
        · simpa [Node.follows, hf, hoperator] using hfollows
        · cases f <;> simp_all [Field.admits]
      · simpa [Node.follows, hf] using hfollows

/-- **Whole trees whose nodes stand between characters have what a check needs.** -/
theorem suffices_whole (src : Source) :
    Suffices src fun n => n.whole ∧ n.all src.places where
  placed h := h.2
  complete h := (Node.whole_iff.mp h.1).1
  child h ho hc hfollows :=
    ⟨(Node.whole_iff.mp h.1).2 ho _ hc hfollows, (Node.all_iff.mp h.2).2 _ hc⟩

end Check

end ScriptGate
