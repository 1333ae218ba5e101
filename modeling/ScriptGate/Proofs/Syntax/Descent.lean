import ScriptGate.Proofs.Syntax.Layout

/-!
# Ways down a tree

A node of a tree is reached from the root by going down from child to child. The nodes that are left
behind on the way are those that enclose it. In a tree that is laid out in order and whose nodes all
cover some of the script, no node is found twice: the way to it, and with it the nodes that enclose
it, are determined.

## Main definitions

* `Node.Path`: the way from a node down to another, with the enclosing nodes from the outside in.
* `Node.height`: the number of levels below a node.
* `Node.covers`: a node that covers at least one byte.

## Main results

* `Node.Path.all`, `Node.Path.laid`: what holds of all nodes of a tree holds below each of them.
* `Node.Path.length_add_height_le`: every way down fits into the height.
* `Node.exists_path_unwrap`: only parentheses lie between an expression and what stands in them.
* `Node.Path.unique`: there is only one way to a node.
-/

namespace ScriptGate.Node

/-- The way from a node down to one that is inside it or the node itself. The list holds the nodes
on the way, from the outside in, without the node that is reached. -/
inductive Path : Node → List Node → Node → Prop
  | here {n : Node} : Path n [] n
  | down {n c m : Node} {above : List Node} (hc : c ∈ n.children) (h : Path c above m) :
      Path n (n :: above) m

mutual

/-- The number of levels below a node: none if it has no children. -/
def height (n : Node) : Nat :=
  match n with
  | ⟨_, _, _, _, _, _, _, _, children⟩ => heightOf children

/-- The number of levels that nodes take, with what is below them. -/
def heightOf : List Node → Nat
  | [] => 0
  | c :: rest => max (c.height + 1) (heightOf rest)

end

theorem heightOf_le_iff {ns : List Node} {k : Nat} : heightOf ns ≤ k ↔ ∀ c ∈ ns, c.height < k := by
  induction ns with
  | nil => simp [heightOf]
  | cons c ns ih =>
    rw [heightOf, Nat.max_le, ih, List.forall_mem_cons]
    rfl

theorem height_le_iff {n : Node} {k : Nat} : n.height ≤ k ↔ ∀ c ∈ n.children, c.height < k := by
  cases n
  rw [height]
  exact heightOf_le_iff

theorem height_lt_of_mem_children {n c : Node} (hc : c ∈ n.children) : c.height < n.height :=
  height_le_iff.mp (Nat.le_refl _) c hc

/-- The node covers some of the script. -/
def covers (n : Node) : Bool := n.start < n.stop

namespace Path

variable {n c m : Node} {above below : List Node}

theorem trans (h : Path n above c) (h' : Path c below m) : Path n (above ++ below) m := by
  induction h with
  | here => exact h'
  | down hc _ ih => exact .down hc (ih h')

theorem child (hc : c ∈ n.children) : Path n [n] c := .down hc .here

theorem child? {f : Field} (hc : n.child? f = some c) : Path n [n] c := child (child?_eq_some hc).1

theorem part (hc : c ∈ n.parts) : Path n [n] c := child (mem_parts.mp hc).1

/-! ### What holds below -/

theorem all {p : Node → Bool} (h : Path n above m) (hn : n.all p) : m.all p := by
  induction h with
  | here => exact hn
  | down hc _ ih => exact ih ((all_iff.mp hn).2 _ hc)

theorem laid {s : Source} (h : Path n above m) (hn : Laid s n) : Laid s m :=
  ⟨h.all hn.arranged, h.all hn.placed⟩

/-- What is inside a node stands inside its span. -/
theorem inside {s : Source} (h : Path n above m) (hn : Laid s n) :
    n.start ≤ m.start ∧ m.stop ≤ n.stop := by
  induction h with
  | here => exact ⟨Nat.le_refl _, Nat.le_refl _⟩
  | down hc _ ih =>
    have hchild := hn.node.2.1 _ hc
    have hbelow := ih (hn.child hc)
    omega

/-- Every way down fits into the height. -/
theorem length_add_height_le (h : Path n above m) : above.length + m.height ≤ n.height := by
  induction h with
  | here => exact Nat.le_of_eq (Nat.zero_add _)
  | down hc _ ih =>
    have hlt := height_lt_of_mem_children hc
    rw [List.length_cons]
    omega

/-! ### There is only one way to a node -/

theorem sizeOf_lt_of_mem_children (hc : c ∈ n.children) : sizeOf c < sizeOf n := by
  cases n
  dsimp only at hc
  have hlt := List.sizeOf_lt_of_mem hc
  simp only [Node.mk.sizeOf_spec]
  omega

theorem sizeOf_le (h : Path n above m) : sizeOf m ≤ sizeOf n := by
  induction h with
  | here => exact Nat.le_refl _
  | down hc _ ih => exact Nat.le_trans ih (Nat.le_of_lt (sizeOf_lt_of_mem_children hc))

/-- No node is inside one of its children. -/
theorem not_of_child (hc : c ∈ n.children) : ¬Path c above n := fun h => by
  have hle := h.sizeOf_le
  have hlt := sizeOf_lt_of_mem_children hc
  omega

/-- Two children that share a byte are the same child. -/
theorem eq_of_shared {s : Source} {d : Node} (hn : Laid s n) (hc : c ∈ n.children)
    (hd : d ∈ n.children) (hm : m.start < m.stop) (hcm : c.start ≤ m.start ∧ m.stop ≤ c.stop)
    (hdm : d.start ≤ m.start ∧ m.stop ≤ d.stop) : c = d := by
  have happart : n.children.Pairwise fun a b => a = b ∨ a.Precedes b ∨ b.Precedes a :=
    hn.node.2.2.1.imp fun h => .inr (.inl h)
  have hflip : n.children.Pairwise (flip fun a b => a = b ∨ a.Precedes b ∨ b.Precedes a) :=
    hn.node.2.2.1.imp fun h => .inr (.inr h)
  rcases happart.forall_of_forall_of_flip (fun a _ => .inl rfl) hflip hc hd with h | h | h
  · exact h
  · rw [Precedes] at h
    omega
  · rw [Precedes] at h
    omega

/-- **There is only one way to a node** in a tree that is laid out in order, if every node covers
some of the script. -/
theorem unique {s : Source} {above' : List Node} (h : Path n above m) (h' : Path n above' m)
    (hn : Laid s n) (hcov : n.all covers) : above = above' := by
  induction h generalizing above' with
  | here =>
    cases h' with
    | here => rfl
    | down hc h => exact absurd h (not_of_child hc)
  | @down n c m above hc h ih =>
    cases h' with
    | here => exact absurd h (not_of_child hc)
    | @down _ d _ _ hd hd' =>
      -- Both children hold the node that is reached, which covers some of the script.
      have hm : m.start < m.stop := by
        simpa [covers] using (all_iff.mp (h.all ((all_iff.mp hcov).2 c hc))).1
      obtain rfl := eq_of_shared hn hc hd hm (h.inside (hn.child hc)) (hd'.inside (hn.child hd))
      rw [ih hd' (hn.child hc) ((all_iff.mp hcov).2 c hc)]

end Path

/-- Only parentheses lie between an expression and what stands in its parentheses. -/
theorem exists_path_unwrap (n : Node) :
    ∃ above, n.Path above n.unwrap ∧ ∀ a ∈ above, a.kind = "parenthesized_expression" := by
  induction n using tree_induction with
  | step n ih =>
    rcases unwrap_cases n with hn | ⟨hk, c, hc, hn⟩
    · rw [hn]
      exact ⟨[], .here, by simp⟩
    · have hmem := (mem_contents.mp (hc ▸ List.mem_singleton_self c)).1
      obtain ⟨above, hpath, hkinds⟩ := ih c hmem
      rw [hn]
      exact ⟨n :: above, .down hmem hpath, List.forall_mem_cons.mpr ⟨hk, hkinds⟩⟩

end ScriptGate.Node
