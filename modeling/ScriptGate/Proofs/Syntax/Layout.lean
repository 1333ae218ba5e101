import ScriptGate.Proofs.Syntax.Shape

/-!
# Trees laid out in order

The nodes of a tree cover spans of the script. In a tree that is laid out in order, children stand
inside their parent, one after the other, and the parts of a construct in the order in which they
are written. Nothing else is asked: parts may be missing, and kinds may be anything. Nodes in a row
are what a walk over such a tree meets: they stand one after the other between two places.

## Main definitions

* `Node.Precedes`: one node ends before another begins.
* `Node.partOrders`, `Node.arranged`: the order of parts, and a node whose children stand in order.
* `Laid`: a tree that is laid out in order and whose nodes stand between characters.
* `InRow`, `InPart`: nodes that stand one after the other between two places, or inside a part.

## Main results

* `InRow.append`, `InRow.flatMap`: rows after each other, and rows inside the nodes of a row.
* `Laid.inRow_children`, `Laid.inRow_parts`: the children and the parts of a node stand in a row.
* `Laid.inRow_append`: so do rows inside two parts.
* `Laid.unwrap`: the expression inside parentheses stands inside them.
-/

namespace ScriptGate

namespace Node

/-- The first node ends before the second begins. -/
def Precedes (a b : Node) : Prop := a.stop ≤ b.start

instance : DecidableRel Precedes := fun a b => inferInstanceAs (Decidable (a.stop ≤ b.start))

/-- The orders in which the parts of constructs are written. -/
def partOrders : List (List Field) :=
  [[.object, .property], [.function, .arguments], [.left, .right],
   [.condition, .consequence, .alternative], [.parameter, .body], [.parameters, .body],
   [.key, .value]]

/-- The children stand inside the node, one after the other, and the parts in the order in which
they are written. -/
def arranged (n : Node) : Bool :=
  n.start ≤ n.stop ∧ (∀ c ∈ n.children, n.start ≤ c.start ∧ c.stop ≤ n.stop) ∧
    n.children.Pairwise Precedes ∧
    ∀ order ∈ partOrders, (order.filterMap n.child?).Pairwise Precedes

end Node

/-- A tree that is laid out in order and whose nodes stand between characters. -/
structure Laid (s : Source) (n : Node) : Prop where
  arranged : n.all Node.arranged
  placed : n.all s.places

instance (s : Source) (n : Node) : Decidable (Laid s n) :=
  decidable_of_iff (n.all Node.arranged ∧ n.all s.places)
    ⟨fun ⟨h1, h2⟩ => ⟨h1, h2⟩, fun h => ⟨h.arranged, h.placed⟩⟩

/-- Nodes that are laid out in order and stand one after the other between two places. -/
structure InRow (s : Source) (lo hi : Nat) (ns : List Node) : Prop where
  laid : ∀ n ∈ ns, Laid s n
  within : ∀ n ∈ ns, lo ≤ n.start ∧ n.stop ≤ hi
  ordered : ns.Pairwise Node.Precedes

/-! ### One node -/

namespace Laid

variable {s : Source} {n c : Node}

theorem child (h : Laid s n) (hc : c ∈ n.children) : Laid s c :=
  ⟨(Node.all_iff.mp h.arranged).2 c hc, (Node.all_iff.mp h.placed).2 c hc⟩

theorem child? {f : Field} (h : Laid s n) (hc : n.child? f = some c) : Laid s c :=
  h.child (Node.child?_eq_some hc).1

theorem node (h : Laid s n) :
    n.start ≤ n.stop ∧ (∀ c ∈ n.children, n.start ≤ c.start ∧ c.stop ≤ n.stop) ∧
      n.children.Pairwise Node.Precedes ∧
      ∀ order ∈ Node.partOrders, (order.filterMap n.child?).Pairwise Node.Precedes := by
  simpa only [Node.arranged, decide_eq_true_eq] using (Node.all_iff.mp h.arranged).1

theorem places (h : Laid s n) : s.places n := (Node.all_iff.mp h.placed).1

theorem isBoundary (h : Laid s n) : s.IsBoundary n.start ∧ s.IsBoundary n.stop :=
  Source.isBoundary_of_places h.places

/-- The children of a node stand in a row inside it. -/
theorem inRow_children (h : Laid s n) : InRow s n.start n.stop n.children :=
  ⟨fun _ hc => h.child hc, h.node.2.1, h.node.2.2.1⟩

/-- The parts of a construct stand in a row inside it, those that are there. -/
theorem inRow_parts (h : Laid s n) (order : List Field) (ho : order ∈ Node.partOrders) :
    InRow s n.start n.stop (order.filterMap n.child?) := by
  refine ⟨fun c hc => ?_, fun c hc => ?_, h.node.2.2.2 order ho⟩
  all_goals
    obtain ⟨f, -, hf⟩ := List.mem_filterMap.mp hc
  · exact h.child? hf
  · exact h.node.2.1 c (Node.child?_eq_some hf).1

/-- The expression inside parentheses stands inside them. -/
theorem unwrap (h : Laid s n) :
    Laid s n.unwrap ∧ n.start ≤ n.unwrap.start ∧ n.unwrap.stop ≤ n.stop := by
  refine Node.unwrap_induction
    (motive := fun c => Laid s c ∧ n.start ≤ c.start ∧ c.stop ≤ n.stop) ?_ ⟨h, by omega, by omega⟩
  rintro a c ⟨ha, hstart, hstop⟩ - hc -
  have hinside := ha.node.2.1 c hc
  exact ⟨ha.child hc, by omega, by omega⟩

end Laid

/-! ### Rows -/

namespace InRow

variable {s : Source} {lo mid hi lo' hi' : Nat} {xs ys : List Node} {n : Node}

@[simp] protected theorem nil : InRow s lo hi [] := ⟨by simp, by simp, .nil⟩

/-- A node alone is a row. -/
protected theorem singleton (h : Laid s n) : InRow s n.start n.stop [n] :=
  ⟨by simpa using h, by simp, List.pairwise_singleton _ _⟩

theorem mono (h : InRow s lo hi xs) (hlo : lo' ≤ lo) (hhi : hi ≤ hi') : InRow s lo' hi' xs := by
  refine ⟨h.laid, fun n hn => ?_, h.ordered⟩
  have hwithin := h.within n hn
  omega

protected theorem sublist (h : InRow s lo hi xs) (hsub : ys.Sublist xs) : InRow s lo hi ys :=
  ⟨fun n hn => h.laid n (hsub.subset hn), fun n hn => h.within n (hsub.subset hn),
    h.ordered.sublist hsub⟩

/-- Rows after each other. -/
theorem append (hx : InRow s lo mid xs) (hy : InRow s mid hi ys) (hlo : lo ≤ mid) (hhi : mid ≤ hi) :
    InRow s lo hi (xs ++ ys) := by
  refine ⟨fun n hn => ?_, fun n hn => ?_, List.pairwise_append.mpr ⟨hx.ordered, hy.ordered, ?_⟩⟩
  · rcases List.mem_append.mp hn with hn | hn
    · exact hx.laid n hn
    · exact hy.laid n hn
  · rcases List.mem_append.mp hn with hn | hn
    · have hwithin := hx.within n hn
      omega
    · have hwithin := hy.within n hn
      omega
  · intro a ha b hb
    exact Nat.le_trans (hx.within a ha).2 (hy.within b hb).1

/-- Rows inside the nodes of a row. -/
theorem flatMap {f : Node → List Node} (h : InRow s lo hi xs)
    (hf : ∀ n ∈ xs, InRow s n.start n.stop (f n)) : InRow s lo hi (xs.flatMap f) := by
  refine ⟨fun m hm => ?_, fun m hm => ?_, List.pairwise_flatMap.mpr ⟨?_, ?_⟩⟩
  · obtain ⟨n, hn, hm⟩ := List.mem_flatMap.mp hm
    exact (hf n hn).laid m hm
  · obtain ⟨n, hn, hm⟩ := List.mem_flatMap.mp hm
    have houter := h.within n hn
    have hinner := (hf n hn).within m hm
    omega
  · exact fun n hn => (hf n hn).ordered
  · refine h.ordered.imp_of_mem fun {a b} ha hb hab x hx y hy => ?_
    have hleft := (hf a ha).within x hx
    have hright := (hf b hb).within y hy
    exact Nat.le_trans hleft.2 (Nat.le_trans hab hright.1)

/-- After its first node, the rest of a row begins where that node ends. -/
theorem tail (h : InRow s lo hi (n :: xs)) : InRow s n.stop hi xs := by
  obtain ⟨hfirst, hrest⟩ := List.pairwise_cons.mp h.ordered
  refine ⟨fun m hm => h.laid m (.tail _ hm), fun m hm => ⟨hfirst m hm, ?_⟩, hrest⟩
  exact (h.within m (.tail _ hm)).2

end InRow

/-! ### Rows inside parts -/

/-- Nodes in a row inside a part of a construct; there are none if the part is missing. -/
def InPart (s : Source) (part : Option Node) (ns : List Node) : Prop :=
  match part with
  | none => ns = []
  | some c => InRow s c.start c.stop ns

namespace InPart

variable {s : Source} {n : Node} {part : Option Node}

@[simp] protected theorem nil : InPart s part [] := by
  cases part with
  | none => rfl
  | some c => exact InRow.nil

/-- The part itself. -/
theorem self {f : Field} (h : Laid s n) : InPart s (n.child? f) (n.child? f).toList := by
  cases hc : n.child? f with
  | none => rfl
  | some c => exact .singleton (h.child? hc)

end InPart

namespace Laid

variable {s : Source} {n : Node} {f g : Field} {xs ys : List Node}

/-- A row inside a part is a row inside the construct. -/
theorem inRow_of_inPart (h : Laid s n) (hx : InPart s (n.child? f) xs) :
    InRow s n.start n.stop xs := by
  cases hc : n.child? f with
  | none =>
    obtain rfl : xs = [] := by simpa [InPart, hc] using hx
    exact .nil
  | some c =>
    have hinside := h.node.2.1 c (Node.child?_eq_some hc).1
    have hrow : InRow s c.start c.stop xs := by simpa [InPart, hc] using hx
    exact hrow.mono hinside.1 hinside.2

/-- **Rows inside two parts that are written after each other** are together a row. -/
theorem inRow_append (h : Laid s n) (ho : [f, g] ∈ Node.partOrders)
    (hx : InPart s (n.child? f) xs) (hy : InPart s (n.child? g) ys) :
    InRow s n.start n.stop (xs ++ ys) := by
  cases hf : n.child? f with
  | none =>
    obtain rfl : xs = [] := by simpa [InPart, hf] using hx
    exact h.inRow_of_inPart hy
  | some a =>
    cases hg : n.child? g with
    | none =>
      obtain rfl : ys = [] := by simpa [InPart, hg] using hy
      simpa using h.inRow_of_inPart hx
    | some b =>
      have hrow := h.inRow_parts [f, g] ho
      simp only [List.filterMap_cons, hf, hg, List.filterMap_nil] at hrow
      have hab : a.stop ≤ b.start := (List.pairwise_cons.mp hrow.ordered).1 b (by simp)
      have ha := hrow.within a (by simp)
      have hb := hrow.within b (by simp)
      have hspan := (h.child? hf).node.1
      have hspan' := (h.child? hg).node.1
      have hleft : InRow s a.start a.stop xs := by simpa [InPart, hf] using hx
      have hright : InRow s b.start b.stop ys := by simpa [InPart, hg] using hy
      exact (hleft.mono ha.1 (Nat.le_refl _)).append (hright.mono hab hb.2) (by omega) (by omega)

end Laid

end ScriptGate
