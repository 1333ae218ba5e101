import ScriptGate.Proofs.Syntax.Descent

/-!
# Trees without parentheses

Parentheses that hold exactly one expression can be left out of a tree: the expression takes their
place, and with it the part that they play. All other nodes keep their spans, so that the tree is
over the same script.

## Main definitions

* `Node.unparenthesized`: a tree without such parentheses.
* `Node.parenthesesPlaced`: parentheses stand only where an expression may stand.
* `Node.Bared`: a node whose children have lost their parentheses.

## Main results

* `Node.unparenthesized_of_contents`, `Node.unparenthesized_of_kept`: which nodes are left out.
* `Node.unparenthesized_eq`: a node is replaced by what stands in its parentheses.
* `Node.all_unparenthesized`: no parentheses are left that hold exactly one expression.
* `Node.Bared.child?`, `Node.Bared.parts`, `Node.Bared.unwrap`: reading a node whose children have
  lost their parentheses.
-/

namespace ScriptGate

namespace Node

/-! ### Leaving out parentheses -/

mutual

/-- The tree without the parentheses that hold exactly one expression, which takes their place. -/
def unparenthesized (n : Node) : Node :=
  match n with
  | ⟨kind, start, stop, isNamed, isError, isMissing, hasError, field, children⟩ =>
    let kept : Node := ⟨kind, start, stop, isNamed, isError, isMissing, hasError, field,
      unparenthesizedAll children⟩
    if kind = "parenthesized_expression" then
      ((unparenthesizedSole children).map fun c => { c with field := field }).getD kept
    else kept

/-- The only content among the children of parentheses, without parentheses. -/
def unparenthesizedSole : List Node → Option Node
  | [] => none
  | c :: rest =>
    if c.isContent then (if rest.any isContent then none else some c.unparenthesized)
    else unparenthesizedSole rest

/-- The nodes of a list, each without parentheses. -/
def unparenthesizedAll : List Node → List Node
  | [] => []
  | c :: rest => c.unparenthesized :: unparenthesizedAll rest

end

theorem unparenthesizedAll_eq (ns : List Node) :
    unparenthesizedAll ns = ns.map unparenthesized := by
  induction ns with
  | nil => rfl
  | cons n ns ih => rw [unparenthesizedAll, ih, List.map_cons]

private theorem unparenthesizedSole_eq (ns : List Node) :
    unparenthesizedSole ns = match ns.filter isContent with
      | [c] => some c.unparenthesized
      | _ => none := by
  induction ns with
  | nil => rfl
  | cons n ns ih =>
    rw [unparenthesizedSole]
    by_cases hn : n.isContent
    · rw [if_pos hn, List.filter_cons_of_pos hn]
      cases hrest : ns.filter isContent with
      | nil =>
        have hany : ns.any isContent = false := by simpa using hrest
        rw [hany]
        rfl
      | cons d ds =>
        have hd : d ∈ ns.filter isContent := hrest ▸ List.mem_cons_self ..
        have hany : ns.any isContent = true := List.any_eq_true.mpr ⟨d, List.mem_filter.mp hd⟩
        rw [hany]
        rfl
    · rw [if_neg hn, List.filter_cons_of_neg hn, ih]

/-- Parentheses around one expression are replaced by it. -/
theorem unparenthesized_of_contents {n c : Node} (hn : n.kind = "parenthesized_expression")
    (hc : n.contents = [c]) : n.unparenthesized = { c.unparenthesized with field := n.field } := by
  cases n with
  | mk kind start stop isNamed isError isMissing hasError field children =>
    have hsole : unparenthesizedSole children = some c.unparenthesized := by
      rw [unparenthesizedSole_eq, show children.filter isContent = [c] from hc]
    rw [unparenthesized, if_pos hn, hsole]
    rfl

/-- All other nodes are kept. -/
theorem unparenthesized_of_kept {n : Node}
    (h : n.kind = "parenthesized_expression" → ∀ c, n.contents ≠ [c]) :
    n.unparenthesized = { n with children := n.children.map unparenthesized } := by
  cases n with
  | mk kind start stop isNamed isError isMissing hasError field children =>
    rw [unparenthesized, unparenthesizedAll_eq]
    by_cases hk : kind = "parenthesized_expression"
    · have hsole : unparenthesizedSole children = none := by
        rw [unparenthesizedSole_eq]
        split
        next c hc => exact absurd hc (h hk c)
        · rfl
      rw [if_pos hk, hsole]
      rfl
    · rw [if_neg hk]

/-- A node is left out for the only expression in it, or it is kept. -/
theorem unparenthesized_cases (n : Node) :
    (∃ c, n.kind = "parenthesized_expression" ∧ n.contents = [c] ∧
        n.unparenthesized = { c.unparenthesized with field := n.field }) ∨
      (n.kind = "parenthesized_expression" → ∀ c, n.contents ≠ [c]) ∧
        n.unparenthesized = { n with children := n.children.map unparenthesized } := by
  by_cases hparens : n.kind = "parenthesized_expression" ∧ ∃ c, n.contents = [c]
  · obtain ⟨hk, c, hc⟩ := hparens
    exact .inl ⟨c, hk, hc, unparenthesized_of_contents hk hc⟩
  · have hkept : n.kind = "parenthesized_expression" → ∀ c, n.contents ≠ [c] :=
      fun hk c hc => hparens ⟨hk, c, hc⟩
    exact .inr ⟨hkept, unparenthesized_of_kept hkept⟩

theorem mem_children_of_contents {n c : Node} (hc : n.contents = [c]) :
    c ∈ n.children ∧ c.isContent :=
  mem_contents.mp (hc ▸ List.mem_singleton_self c)

/-- What is unwrapped does not consist of parentheses around one expression. -/
theorem contents_unwrap_ne {n : Node} (hk : n.unwrap.kind = "parenthesized_expression") (c : Node) :
    n.unwrap.contents ≠ [c] := by
  induction n using tree_induction with
  | step n ih =>
    rcases unparenthesized_cases n with ⟨d, hparens, hd, -⟩ | ⟨hkept, -⟩
    · rw [unwrap_of_contents hparens hd] at hk ⊢
      exact ih d (mem_children_of_contents hd).1 hk
    · by_cases hparens : n.kind = "parenthesized_expression"
      · rw [unwrap_of_not_contents (hkept hparens)]
        exact hkept hparens c
      · rw [unwrap_of_kind hparens] at hk
        exact absurd hk hparens

/-- **A node is replaced by what stands in its parentheses**, without the parentheses further down,
in the part that the node plays. -/
theorem unparenthesized_eq (n : Node) : n.unparenthesized =
    { n.unwrap with field := n.field, children := n.unwrap.children.map unparenthesized } := by
  induction n using tree_induction with
  | step n ih =>
    rcases unparenthesized_cases n with ⟨c, hk, hc, heq⟩ | ⟨hkept, heq⟩
    · rw [heq, unwrap_of_contents hk hc, ih c (mem_children_of_contents hc).1]
    · by_cases hk : n.kind = "parenthesized_expression"
      · rw [heq, unwrap_of_not_contents (hkept hk)]
      · rw [heq, unwrap_of_kind hk]

@[simp] theorem unparenthesized_field (n : Node) : n.unparenthesized.field = n.field := by
  rw [unparenthesized_eq]

/-- A tree does not get higher. -/
theorem height_unparenthesized_le (n : Node) : n.unparenthesized.height ≤ n.height := by
  induction n using tree_induction with
  | step n ih =>
    rw [height_le_iff]
    intro d hd
    rcases unparenthesized_cases n with ⟨c, -, hc, heq⟩ | ⟨-, heq⟩
    · have hmem := (mem_children_of_contents hc).1
      have hlt := height_lt_of_mem_children hmem
      rw [heq] at hd
      have hd := height_lt_of_mem_children (n := c.unparenthesized) hd
      have hle := ih c hmem
      omega
    · rw [heq] at hd
      obtain ⟨c, hc, rfl⟩ := List.mem_map.mp hd
      have hlt := height_lt_of_mem_children hc
      have hle := ih c hc
      omega

end Node

/-! ### Where parentheses stand -/

/-- A part that is an expression. -/
def Field.isExpression : Field → Bool
  | operator | property | arguments | parameter | parameters | key => false
  | _ => true

namespace Node

/-- Constructs whose children are members, parameters or pieces of text, but no expressions. -/
def memberListKinds : List String := ["object", "formal_parameters", "template_string"]

/-- Kinds of nodes that are no expressions, and that make a difference to what they stand in. -/
def markKinds : List String := ["comment", "hash_bang_line", "optional_chain"]

/-- The parentheses among the children of a node stand where an expression may stand. If the node
itself is parentheses, it is a construct, and what stands in it may be an expression. -/
def parenthesesPlaced (n : Node) : Bool :=
  (n.children.all fun c => c.kind ≠ "parenthesized_expression" ||
    n.kind ∉ memberListKinds && c.field.all Field.isExpression) &&
  (n.kind ≠ "parenthesized_expression" ||
    n.isNamed && n.contents.all fun c => c.kind ∉ markKinds)

section Placed

variable {n m c : Node}

/-- Parentheses below a node play the part of an expression, if they play a part, and are none of
the members of a list. -/
theorem parenthesesPlaced_child (h : n.parenthesesPlaced) (hc : c ∈ n.children)
    (hk : c.kind = "parenthesized_expression") :
    n.kind ∉ memberListKinds ∧ ∀ f, c.field = some f → f.isExpression := by
  simp only [parenthesesPlaced, Bool.and_eq_true, List.all_eq_true] at h
  simpa [hk, Option.all_eq_true] using h.1 c hc

theorem parenthesesPlaced_self (h : n.parenthesesPlaced)
    (hk : n.kind = "parenthesized_expression") :
    n.isNamed ∧ ∀ c ∈ n.contents, c.kind ∉ markKinds := by
  simp only [parenthesesPlaced, Bool.and_eq_true] at h
  simpa [hk] using h.2

theorem kind_ne_of_mem (h : n.all parenthesesPlaced) (hn : n.kind ∈ memberListKinds)
    (hc : c ∈ n.children) : c.kind ≠ "parenthesized_expression" :=
  fun hk => (parenthesesPlaced_child (all_iff.mp h).1 hc hk).1 hn

theorem kind_ne_of_child? {f : Field} (h : n.all parenthesesPlaced) (hc : n.child? f = some c)
    (hf : f.isExpression = false) : c.kind ≠ "parenthesized_expression" := by
  intro hk
  obtain ⟨hmem, hfield⟩ := child?_eq_some hc
  have hexpr := (parenthesesPlaced_child (all_iff.mp h).1 hmem hk).2 f hfield
  simp [hf] at hexpr

theorem all_child? {p : Node → Bool} {f : Field} (h : n.all p) (hc : n.child? f = some c) :
    c.all p :=
  (all_iff.mp h).2 c (child?_eq_some hc).1

theorem all_unwrap {p : Node → Bool} (h : n.all p) : n.unwrap.all p :=
  unwrap_induction (motive := fun n => n.all p) (fun _ c hn _ hc _ => (all_iff.mp hn).2 c hc) h

/-- The nodes that are no expressions stay what they are, and no other node becomes one. -/
theorem kind_unparenthesized_iff (h : n.all parenthesesPlaced) {kind : String}
    (hkind : kind ∈ markKinds) : n.unparenthesized.kind = kind ↔ n.kind = kind := by
  induction n using tree_induction with
  | step n ih =>
    rcases unparenthesized_cases n with ⟨c, hk, hc, heq⟩ | ⟨-, heq⟩
    · have hne : n.kind ≠ kind := by
        rintro rfl
        simp [hk, markKinds] at hkind
      have hcontent : c.kind ∉ markKinds :=
        (parenthesesPlaced_self (all_iff.mp h).1 hk).2 c (hc ▸ List.mem_singleton_self c)
      have hmem := (mem_children_of_contents hc).1
      rw [heq, show ({ c.unparenthesized with field := n.field } : Node).kind =
        c.unparenthesized.kind from rfl, ih c hmem ((all_iff.mp h).2 c hmem)]
      exact iff_of_false (fun he => hcontent (he ▸ hkind)) hne
    · rw [heq]

/-- A construct stays a construct, and a token a token. -/
theorem isNamed_unparenthesized (h : n.all parenthesesPlaced) :
    n.unparenthesized.isNamed = n.isNamed := by
  induction n using tree_induction with
  | step n ih =>
    rcases unparenthesized_cases n with ⟨c, hk, hc, heq⟩ | ⟨-, heq⟩
    · obtain ⟨hmem, hcontent⟩ := mem_children_of_contents hc
      have hc : c.isNamed := (Bool.and_eq_true_iff.mp hcontent).1
      rw [heq, (parenthesesPlaced_self (all_iff.mp h).1 hk).1, ← hc]
      exact ih c hmem ((all_iff.mp h).2 c hmem)
    · rw [heq]

theorem isContent_unparenthesized (h : n.all parenthesesPlaced) :
    n.unparenthesized.isContent = n.isContent := by
  rw [isContent, isContent, isNamed_unparenthesized h,
    decide_eq_decide.mpr (not_congr (kind_unparenthesized_iff h (by decide)))]

end Placed

/-! ### Nodes whose children have lost their parentheses -/

/-- The second node is the first one, but for its children, which have lost their parentheses, and
for the part that it plays. -/
structure Bared (n m : Node) : Prop where
  kind : m.kind = n.kind
  start : m.start = n.start
  stop : m.stop = n.stop
  children : m.children = n.children.map unparenthesized

theorem bared_unparenthesized (n : Node) : n.unwrap.Bared n.unparenthesized := by
  rw [unparenthesized_eq]
  exact ⟨rfl, rfl, rfl, rfl⟩

theorem bared_of_kind {n : Node} (hk : n.kind ≠ "parenthesized_expression") :
    n.Bared n.unparenthesized := by
  have h := bared_unparenthesized n
  rwa [unwrap_of_kind hk] at h

namespace Bared

variable {n m : Node} (h : n.Bared m)

include h

theorem child? (f : Field) : m.child? f = (n.child? f).map unparenthesized := by
  rw [Node.child?, h.children, List.find?_map]
  simp only [Function.comp_def, unparenthesized_field]
  rfl

variable (hp : n.all parenthesesPlaced)

include hp

theorem filter {p : Node → Bool}
    (hkept : ∀ c : Node, c.all parenthesesPlaced → p c.unparenthesized = p c) :
    m.children.filter p = (n.children.filter p).map unparenthesized := by
  rw [h.children, List.filter_map]
  exact congrArg _ (List.filter_congr fun c hc => hkept c ((all_iff.mp hp).2 c hc))

theorem namedChildren : m.namedChildren = n.namedChildren.map unparenthesized :=
  h.filter hp fun _ => isNamed_unparenthesized

theorem contents : m.contents = n.contents.map unparenthesized :=
  h.filter hp fun _ => isContent_unparenthesized

theorem parts : m.parts = n.parts.map unparenthesized := by
  rw [Node.parts, h.namedChildren hp, List.filter_map]
  refine congrArg _ (List.filter_congr fun c hc => ?_)
  have hpc := (all_iff.mp hp).2 c (mem_namedChildren.mp hc).1
  have hcomment : c.unparenthesized.kind = "comment" ↔ c.kind = "comment" :=
    kind_unparenthesized_iff hpc (by decide)
  have hline : c.unparenthesized.kind = "hash_bang_line" ↔ c.kind = "hash_bang_line" :=
    kind_unparenthesized_iff hpc (by decide)
  simp [ignoredKinds, hcomment, hline]

theorem hasOptionalChain : m.hasOptionalChain = n.hasOptionalChain := by
  have hmark (c : Node) (hc : c ∈ n.children) :
      c.unparenthesized.kind = "optional_chain" ↔ c.kind = "optional_chain" :=
    kind_unparenthesized_iff ((all_iff.mp hp).2 c hc) (by decide)
  rw [Bool.eq_iff_iff]
  simp only [Node.hasOptionalChain, h.children, List.any_map, List.any_eq_true, Function.comp_apply,
    decide_eq_true_eq]
  exact exists_congr fun c => and_congr_right fun hc => hmark c hc

end Bared

/-- No parentheses are left to be stripped. -/
theorem unwrap_unparenthesized {n : Node} (hp : n.all parenthesesPlaced) :
    n.unparenthesized.unwrap = n.unparenthesized := by
  have hbared := bared_unparenthesized n
  by_cases hk : n.unwrap.kind = "parenthesized_expression"
  · refine unwrap_of_not_contents fun c hc => ?_
    rw [hbared.contents (all_unwrap hp)] at hc
    obtain ⟨d, hd, -⟩ := List.map_eq_singleton_iff.mp hc
    exact contents_unwrap_ne hk d hd
  · exact unwrap_of_kind (hbared.kind ▸ hk)

/-- **No parentheses are left that hold exactly one expression**, at any level. -/
theorem all_unparenthesized {n : Node} (hp : n.all parenthesesPlaced) :
    n.unparenthesized.all fun m =>
      m.kind ≠ "parenthesized_expression" || m.contents.length ≠ 1 := by
  induction n using tree_induction with
  | step n ih =>
    rcases unparenthesized_cases n with ⟨c, hk, hc, heq⟩ | ⟨hkept, heq⟩
    · have hmem := (mem_children_of_contents hc).1
      rw [heq, all_iff]
      exact all_iff.mp (ih c hmem ((all_iff.mp hp).2 c hmem))
    · have hbared : n.Bared n.unparenthesized := by
        rw [heq]
        exact ⟨rfl, rfl, rfl, rfl⟩
      rw [all_iff, hbared.contents hp, hbared.kind, hbared.children]
      constructor
      · by_cases hk : n.kind = "parenthesized_expression"
        · have hlen : n.contents.length ≠ 1 :=
            fun hlen => (List.length_eq_one_iff.mp hlen).elim (hkept hk)
          simp [hlen]
        · simp [hk]
      · intro d hd
        obtain ⟨c, hc, rfl⟩ := List.mem_map.mp hd
        exact ih c hc ((all_iff.mp hp).2 c hc)

end Node

end ScriptGate
