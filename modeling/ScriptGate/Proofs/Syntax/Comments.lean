import ScriptGate.Proofs.Syntax.Tree

/-!
# Trees without comments

Comments may stand between any two tokens, so they may be children of any node. Without them, and
without what is inside them, a tree has the same nodes otherwise, with the same spans and parts.
Whatever reads a node reads the same of a node whose comments are left out: comments are no content,
and they are not found as a part either, as long as none of them plays one.

## Main definitions

* `Node.isComment`: a comment; `Node.commentLoose`: a node that is not a comment with a part.
* `Node.uncommented`: a tree without its comments.

## Main results

* `Node.uncommented_eq`: which children are left, and that nothing else changes.
* `Node.all_uncommented`: no comments are left, at any level.
* `Node.child?_uncommented`, `Node.parts_uncommented`, `Node.unwrap_uncommented`,
  `Node.operands_uncommented`: reading a node whose comments are left out.
-/

namespace ScriptGate.Node

/-- The node is a comment. -/
def isComment (n : Node) : Bool := n.kind = "comment"

/-- If the node is a comment, it plays no part. -/
def commentLoose (n : Node) : Bool := !n.isComment || n.field.isNone

/-! ### Leaving out comments -/

mutual

/-- The tree without the comments below its root, and without all that is inside them. -/
def uncommented (n : Node) : Node :=
  match n with
  | ⟨kind, start, stop, isNamed, isError, isMissing, hasError, field, children⟩ =>
    ⟨kind, start, stop, isNamed, isError, isMissing, hasError, field, uncommentedAll children⟩

/-- The nodes of a list that are not comments, each without comments. -/
def uncommentedAll : List Node → List Node
  | [] => []
  | c :: rest => if c.isComment then uncommentedAll rest else c.uncommented :: uncommentedAll rest

end

theorem uncommentedAll_eq (ns : List Node) :
    uncommentedAll ns = (ns.filter (!·.isComment)).map uncommented := by
  induction ns with
  | nil => rfl
  | cons c ns ih => by_cases hc : c.isComment <;> simp [uncommentedAll, hc, ih]

/-- **Only comments are left out**: a node stays as it is but for its children, of which those that
are not comments are left. -/
theorem uncommented_eq (n : Node) : n.uncommented =
    { n with children := (n.children.filter (!·.isComment)).map uncommented } := by
  cases n
  rw [uncommented, uncommentedAll_eq]

section Reading

variable (n : Node)

@[simp] theorem uncommented_kind : n.uncommented.kind = n.kind := by rw [uncommented_eq]

@[simp] theorem uncommented_start : n.uncommented.start = n.start := by rw [uncommented_eq]

@[simp] theorem uncommented_stop : n.uncommented.stop = n.stop := by rw [uncommented_eq]

@[simp] theorem uncommented_isNamed : n.uncommented.isNamed = n.isNamed := by rw [uncommented_eq]

@[simp] theorem uncommented_field : n.uncommented.field = n.field := by rw [uncommented_eq]

@[simp] theorem isComment_uncommented : n.uncommented.isComment = n.isComment := by
  rw [isComment, isComment, uncommented_kind]

/-- **No comments are left**, at any level below the root. -/
theorem all_uncommented {n : Node} (hn : n.isComment = false) :
    n.uncommented.all (!·.isComment) := by
  induction n using tree_induction with
  | step n ih =>
    rw [all_iff, isComment_uncommented, hn]
    refine ⟨rfl, ?_⟩
    rw [uncommented_eq]
    intro d hd
    obtain ⟨c, hc, rfl⟩ := List.mem_map.mp hd
    obtain ⟨hmem, hcomment⟩ := List.mem_filter.mp hc
    exact ih c hmem (by simpa using hcomment)

/-! ### Reading a node -/

/-- Children that are chosen by a test which no comment passes are the same, without comments. -/
theorem filter_uncommented {p : Node → Bool} (hkept : ∀ c : Node, p c.uncommented = p c)
    (hcomment : ∀ c ∈ n.children, c.isComment → p c = false) :
    n.uncommented.children.filter p = (n.children.filter p).map uncommented := by
  have htest (c : Node) (hc : c ∈ n.children) : (p c.uncommented && !c.isComment) = p c := by
    rw [hkept]
    cases hp : p c with
    | false => rfl
    | true =>
      have hnot : ¬c.isComment := fun h => by simp [hcomment c hc h] at hp
      simp [hnot]
  rw [uncommented_eq, List.filter_map, List.filter_filter]
  exact congrArg _ (List.filter_congr htest)

theorem contents_uncommented : n.uncommented.contents = n.contents.map uncommented := by
  refine n.filter_uncommented (fun c => ?_) fun c _ hc => ?_
  · rw [isContent, isContent, uncommented_isNamed, uncommented_kind]
  · simp_all [isComment, isContent]

/-- The parts of a node are chosen among its children by one test. -/
theorem parts_eq_filter :
    n.parts = n.children.filter fun c => c.isNamed && c.kind ∉ ignoredKinds := by
  rw [parts, namedChildren, List.filter_filter]
  exact List.filter_congr fun c _ => Bool.and_comm ..

theorem parts_uncommented : n.uncommented.parts = n.parts.map uncommented := by
  rw [parts_eq_filter, parts_eq_filter]
  refine n.filter_uncommented (fun c => ?_) fun c _ hc => ?_
  · rw [uncommented_isNamed, uncommented_kind]
  · simp_all [isComment, ignoredKinds]

/-- The constructs of one kind among the children, if this is not the kind of comments. -/
theorem namedChildren_uncommented {kind : String} (hkind : kind ≠ "comment") :
    n.uncommented.namedChildren.filter (fun c => c.kind = kind) =
      (n.namedChildren.filter fun c => c.kind = kind).map uncommented := by
  rw [namedChildren, namedChildren, List.filter_filter, List.filter_filter]
  refine n.filter_uncommented (fun c => ?_) fun c _ hc => ?_
  · rw [uncommented_isNamed, uncommented_kind]
  · have hk : c.kind = "comment" := by simpa [isComment] using hc
    simp [hk, hkind.symm]

theorem hasOptionalChain_uncommented :
    n.uncommented.hasOptionalChain = n.hasOptionalChain := by
  have hfilter : n.uncommented.children.filter (fun c => c.kind = "optional_chain") =
      (n.children.filter fun c => c.kind = "optional_chain").map uncommented := by
    refine n.filter_uncommented (fun c => ?_) fun c _ hc => ?_
    · rw [uncommented_kind]
    · simp_all [isComment]
  have hlength := congrArg List.length hfilter
  rw [List.length_map, ← List.countP_eq_length_filter, ← List.countP_eq_length_filter] at hlength
  rw [hasOptionalChain, hasOptionalChain, Bool.eq_iff_iff, List.any_eq_true, List.any_eq_true,
    ← List.countP_pos_iff, ← List.countP_pos_iff, hlength]

theorem child?_uncommented {n : Node} (hn : n.all commentLoose) (f : Field) :
    n.uncommented.child? f = (n.child? f).map uncommented := by
  rw [child?, child?, ← List.head?_filter, ← List.head?_filter, ← List.head?_map]
  refine congrArg _ (n.filter_uncommented (fun c => ?_) fun c hc hcomment => ?_)
  · rw [uncommented_field]
  · have hloose := (all_iff.mp ((all_iff.mp hn).2 c hc)).1
    simp_all [commentLoose]

/-! ### Parentheses and operator chains -/

/-- Parentheses are stripped in the same way, whatever comments stand in them. -/
theorem unwrap_uncommented : n.uncommented.unwrap = n.unwrap.uncommented := by
  induction n using tree_induction with
  | step n ih =>
    have hcontents := n.contents_uncommented
    by_cases hk : n.kind = "parenthesized_expression"
    · by_cases hc : ∃ c, n.contents = [c]
      · obtain ⟨c, hc⟩ := hc
        have hmem : c ∈ n.children := (mem_contents.mp (hc ▸ List.mem_singleton_self c)).1
        rw [hc, List.map_singleton] at hcontents
        rw [unwrap_of_contents (n.uncommented_kind.trans hk) hcontents, unwrap_of_contents hk hc,
          ih c hmem]
      · rw [unwrap_of_not_contents fun c h => hc ⟨c, h⟩]
        refine unwrap_of_not_contents fun d hd => ?_
        rw [hcontents] at hd
        obtain ⟨c, hcs, -⟩ := List.map_eq_singleton_iff.mp hd
        exact hc ⟨c, hcs⟩
    · rw [unwrap_of_kind hk, unwrap_of_kind (by rwa [uncommented_kind])]

theorem operands_uncommented {n : Node} (hn : n.all commentLoose) :
    n.uncommented.operands = n.operands.map (List.map (Option.map uncommented)) := by
  induction n using tree_induction with
  | step n ih =>
    by_cases hk : n.kind = "binary_expression"
    · rw [operands_of_binary hk, operands_of_binary (n.uncommented_kind.trans hk),
        child?_uncommented hn, child?_uncommented hn]
      cases hleft : n.child? .left with
      | none => rfl
      | some l =>
        have hmem := (child?_eq_some hleft).1
        rw [Option.map_some, Option.bind_some, Option.bind_some,
          ih l hmem ((all_iff.mp hn).2 l hmem)]
        cases l.operands with
        | none => rfl
        | some ops => simp
    · rw [operands_of_not_binary hk, operands_of_not_binary (by rwa [uncommented_kind])]
      rfl

end Reading

end ScriptGate.Node
