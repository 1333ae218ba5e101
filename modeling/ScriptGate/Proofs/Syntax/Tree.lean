import ScriptGate.Syntax.Node

/-!
# Reading a tree

Laws of the functions that read a node. Stripping parentheses and splitting an operator chain are
recursions over a node and the list of its children; here each is told by one equation that mentions
nodes only.

## Main definitions

* `Node.all`: a condition holds at a node and at all nodes below it.
* `Node.contents`: what stands in parentheses.

## Main results

* `Node.tree_induction`: induction over a tree.
* `Node.unwrap_of_contents`, `Node.unwrap_cases`: parentheses are stripped level by level.
* `Node.operands_of_binary`: the operands of a chain are those of its left part and the right part.
* `Node.errorRegions_eq`: the error regions of a node are those of its children.
-/

namespace ScriptGate.Node

/-! ### Induction -/

/-- What holds of a node if it holds of its children holds of every node. -/
theorem tree_induction {motive : Node → Prop}
    (step : ∀ n : Node, (∀ c ∈ n.children, motive c) → motive n) (n : Node) : motive n := by
  refine @Node.rec motive (fun ns => ∀ c ∈ ns, motive c) ?_ ?_ ?_ n
  · intro kind start stop isNamed isError isMissing hasError field children ih
    exact step _ ih
  · simp
  · intro n ns hn hns
    exact List.forall_mem_cons.mpr ⟨hn, hns⟩

/-! ### Conditions on all nodes -/

mutual

/-- The condition holds at the node and at all nodes below it. -/
def all (p : Node → Bool) (n : Node) : Bool :=
  match n with
  | ⟨_, _, _, _, _, _, _, _, children⟩ => p n && allOf p children

/-- The condition holds at the nodes of a list and at all nodes below them. -/
def allOf (p : Node → Bool) : List Node → Bool
  | [] => true
  | c :: rest => c.all p && allOf p rest

end

theorem allOf_eq (p : Node → Bool) (ns : List Node) : allOf p ns = ns.all (all p) := by
  induction ns with
  | nil => rfl
  | cons n ns ih => simp [allOf, ih]

theorem all_iff {p : Node → Bool} {n : Node} :
    n.all p ↔ p n ∧ ∀ c ∈ n.children, c.all p := by
  cases n
  simp [all, allOf_eq]

/-! ### Parts -/

theorem child?_eq_some {n c : Node} {f : Field} (h : n.child? f = some c) :
    c ∈ n.children ∧ c.field = some f :=
  ⟨List.mem_of_find?_eq_some h, by simpa using List.find?_some h⟩

theorem mem_namedChildren {n c : Node} : c ∈ n.namedChildren ↔ c ∈ n.children ∧ c.isNamed := by
  simp [namedChildren]

theorem mem_parts {n c : Node} :
    c ∈ n.parts ↔ c ∈ n.children ∧ c.isNamed ∧ c.kind ∉ ignoredKinds := by
  simp [parts, namedChildren, and_comm]

theorem kind_ne_of_hasOptionalChain {n c : Node} (h : n.hasOptionalChain = false)
    (hc : c ∈ n.children) : c.kind ≠ "optional_chain" := by
  simp only [hasOptionalChain, List.any_eq_false, decide_eq_true_eq] at h
  exact h c hc

/-- The parts that the children play, in their order. -/
def fields (n : Node) : List Field := n.children.filterMap (·.field)

theorem child?_isSome_of_mem_fields {n : Node} {f : Field} (h : f ∈ n.fields) :
    ∃ c, n.child? f = some c := by
  obtain ⟨c, hc, hf⟩ := List.mem_filterMap.mp h
  exact Option.isSome_iff_exists.mp (List.find?_isSome.mpr ⟨c, hc, by simp [hf]⟩)

theorem child?_eq_none {n : Node} {f : Field} (h : f ∉ n.fields) : n.child? f = none := by
  refine List.find?_eq_none.mpr fun c hc hf => h ?_
  exact List.mem_filterMap.mpr ⟨c, hc, by simpa using hf⟩

/-- A part that only one child plays is played by every child that says so. -/
theorem child?_of_nodup_fields {n c : Node} {f : Field} (hn : n.fields.Nodup)
    (hc : c ∈ n.children) (hf : c.field = some f) : n.child? f = some c := by
  rw [fields] at hn
  rw [child?]
  generalize n.children = ns at hn hc ⊢
  induction ns with
  | nil => cases hc
  | cons d ds ih =>
    by_cases hd : d.field = some f
    · rcases List.mem_cons.mp hc with rfl | hc
      · simp [hf]
      · simp only [List.filterMap_cons, hd, List.nodup_cons] at hn
        exact absurd (List.mem_filterMap.mpr ⟨c, hc, hf⟩) hn.1
    · have hcd : c ∈ ds := (List.mem_cons.mp hc).resolve_left (by rintro rfl; exact hd hf)
      rw [List.find?_cons_of_neg (by simpa using hd)]
      refine ih ?_ hcd
      rw [List.filterMap_cons] at hn
      cases hfield : d.field with
      | none => simpa [hfield] using hn
      | some g => exact (List.nodup_cons.mp (by simpa [hfield] using hn)).2

/-! ### Parentheses -/

/-- What stands in parentheses: the named children that are not comments. -/
def contents (n : Node) : List Node := n.children.filter isContent

theorem mem_contents {n c : Node} : c ∈ n.contents ↔ c ∈ n.children ∧ c.isContent :=
  List.mem_filter

theorem unwrap_of_kind {n : Node} (h : n.kind ≠ "parenthesized_expression") : n.unwrap = n := by
  cases n
  simp_all [unwrap]

private theorem unwrapSole_of_filter {ns : List Node} {c : Node} (h : ns.filter isContent = [c]) :
    unwrapSole ns = some c.unwrap := by
  induction ns with
  | nil => simp at h
  | cons n ns ih =>
    by_cases hn : n.isContent
    · obtain ⟨rfl, hns⟩ : n = c ∧ ns.filter isContent = [] := by simpa [hn] using h
      have hany : ns.any isContent = false := by simpa using hns
      simp [unwrapSole, hn, hany]
    · simp only [unwrapSole, if_neg hn]
      exact ih (by simpa [hn] using h)

private theorem unwrapSole_of_not_filter {ns : List Node}
    (h : ∀ c, ns.filter isContent ≠ [c]) : unwrapSole ns = none := by
  induction ns with
  | nil => rfl
  | cons n ns ih =>
    by_cases hn : n.isContent
    · cases hany : ns.any isContent with
      | true => simp [unwrapSole, hn, hany]
      | false => exact absurd (by simpa [hn] using hany) (h n)
    · simp only [unwrapSole, if_neg hn]
      exact ih fun c => by simpa [hn] using h c

theorem unwrap_of_contents {n c : Node} (hn : n.kind = "parenthesized_expression")
    (hc : n.contents = [c]) : n.unwrap = c.unwrap := by
  cases n
  simp_all [unwrap, unwrapSole_of_filter hc]

theorem unwrap_of_not_contents {n : Node} (hc : ∀ c, n.contents ≠ [c]) : n.unwrap = n := by
  cases n
  simp [unwrap, unwrapSole_of_not_filter hc]

/-- Parentheses are stripped level by level, as long as exactly one expression stands in them. -/
theorem unwrap_cases (n : Node) :
    n.unwrap = n ∨ n.kind = "parenthesized_expression" ∧
      ∃ c, n.contents = [c] ∧ n.unwrap = c.unwrap := by
  by_cases hn : n.kind = "parenthesized_expression"
  · by_cases hc : ∃ c, n.contents = [c]
    · obtain ⟨c, hc⟩ := hc
      exact .inr ⟨hn, c, hc, unwrap_of_contents hn hc⟩
    · exact .inl (unwrap_of_not_contents fun c h => hc ⟨c, h⟩)
  · exact .inl (unwrap_of_kind hn)

/-- What holds of a node, and passes from parentheses to what stands in them, holds of the node
without its parentheses. -/
theorem unwrap_induction {motive : Node → Prop}
    (step : ∀ n c : Node, motive n → n.kind = "parenthesized_expression" → c ∈ n.children →
      c.isContent → motive c) {n : Node} (h : motive n) : motive n.unwrap := by
  induction n using tree_induction with
  | step n ih =>
    rcases unwrap_cases n with hn | ⟨hk, c, hc, hn⟩
    · rwa [hn]
    · have hmem := mem_contents.mp (hc ▸ List.mem_singleton_self c)
      rw [hn]
      exact ih c hmem.1 (step n c h hk hmem.1 hmem.2)

/-- Comments and a line for the system are no parts. What stands in parentheses without a comment
is their part, unless it is such a line. -/
theorem parts_of_contents {n c : Node} (hc : n.contents = [c])
    (hk : c.unwrap.kind ≠ "hash_bang_line") : n.parts = [c] := by
  have hkind : c.kind ≠ "hash_bang_line" := fun h => hk (by rw [unwrap_of_kind (by simp [h]), h])
  have hparts : n.parts = n.contents.filter fun c => c.kind ≠ "hash_bang_line" := by
    simp only [parts, namedChildren, contents, List.filter_filter]
    refine List.filter_congr fun c _ => ?_
    simp [isContent, ignoredKinds, Bool.and_comm, Bool.and_assoc]
  rw [hparts, hc]
  simp [hkind]

/-! ### Operator chains -/

private theorem leftOperands_eq (ns : List Node) :
    leftOperands ns = (ns.find? fun c => c.field = some .left).bind operands := by
  induction ns with
  | nil => rfl
  | cons n ns ih => by_cases hn : n.field = some .left <;> simp [leftOperands, hn, ih]

theorem operands_of_binary {n : Node} (h : n.kind = "binary_expression") :
    n.operands = ((n.child? .left).bind operands).map (· ++ [n.child? .right]) := by
  cases n
  simp_all [operands, child?, leftOperands_eq]

theorem operands_of_not_binary {n : Node} (h : n.kind ≠ "binary_expression") :
    n.operands = some [some n] := by
  cases n
  simp_all [operands]

/-! ### Error regions -/

theorem errorRegionsAll_eq (ns : List Node) :
    errorRegionsAll ns = (ns.filter fun c => c.hasError || c.isMissing).flatMap errorRegions := by
  induction ns with
  | nil => rfl
  | cons n ns ih =>
    rw [errorRegionsAll, List.filter_cons]
    split
    · rw [ih, List.flatMap_cons]
    · exact ih

/-- The error regions of a node are those of its children, unless it is one itself. -/
theorem errorRegions_eq (n : Node) : n.errorRegions = if n.isError || n.isMissing then [n] else
    (n.children.filter fun c => c.hasError || c.isMissing).flatMap errorRegions := by
  cases n
  simp only [errorRegions, errorRegionsAll_eq]

end ScriptGate.Node
