import ScriptGate.Check.Walk
import ScriptGate.Proofs.Source.Boundary
import ScriptGate.Proofs.Syntax.Tree

/-!
# Well-shaped trees

What the grammar of scripts promises about a tree. A construct that the checker looks into has
exactly the parts that its kind has, in the order in which they are written, and next to them only
tokens, comments and the few kinds of children that play no part. Nothing is asked of the children
of a construct that the checker does not look into, and of blocks and lists, whose children are all
looked at. All byte offsets stand between characters.

## Main definitions

* `Shape`: the orders of parts and the other children that a kind of construct may have.
* `Node.shaped`: a node has the shape of its kind.
* `WellShaped`: a construct whose nodes all have the shapes of their kinds and stand between
  characters of the script.

## Main results

* `WellShaped.child`, `WellShaped.part`, `WellShaped.unwrap`: what is inside is well-shaped.
* `WellShaped.text`: the text of a well-shaped construct can be read.
* `WellShaped.exists_child?`, `WellShaped.admits`: the parts of a construct are there and are what
  they should be.
* `WellShaped.named_child_cases`: what else may stand inside a construct.
-/

namespace ScriptGate

/-! ### Kinds of nodes -/

namespace Node

/-- Comments, which may stand anywhere. -/
def commentKinds : List String := ["comment", "html_comment", "hash_bang_line"]

/-- The pieces of a literal. -/
def fragmentKinds : List String :=
  ["string_fragment", "escape_sequence", "html_character_reference", "regex_pattern", "regex_flags"]

/-- Names of members, written after a dot or before a colon. -/
def propertyKinds : List String := ["property_identifier", "private_property_identifier"]

/-- What may stand before the colon of a pair. -/
def keyKinds : List String := propertyKinds ++ ["string", "number", "computed_property_name"]

/-- Constructs that hold nothing but tokens and comments. -/
def leafKinds : List String :=
  commentKinds ++ fragmentKinds ++ propertyKinds ++
    ["identifier", "shorthand_property_identifier", "number", "true", "false", "null", "undefined"]

end Node

/-- What may play a part: an operator is a token, all else is a construct, and of some parts the
kind is known. -/
def Field.admits (f : Field) (c : Node) : Bool :=
  match f with
  | operator => !c.isNamed
  | property => c.isNamed && c.kind ∈ Node.propertyKinds
  | key => c.isNamed && c.kind ∈ Node.keyKinds
  | parameters => c.isNamed && c.kind = "formal_parameters"
  | _ => c.isNamed

/-! ### Shapes -/

/-- The children of a construct: the orders in which its parts may stand, and the kinds of children
that play no part. -/
structure Shape where
  orders : List (List Field)
  loose : List String
  deriving DecidableEq

namespace Shape

/-- A construct of pieces of the given kinds. -/
def pieces (kinds : List String) : Shape := ⟨[[]], kinds⟩

/-- The constructs whose children are not arbitrary, and their shapes. -/
def table : List (String × Shape) :=
  Node.leafKinds.map (·, pieces []) ++
    Check.functionKinds.map (·, ⟨[[.parameter, .body], [.parameters, .body]], ["identifier"]⟩) ++
    [("string", pieces Node.fragmentKinds),
     ("regex", pieces Node.fragmentKinds),
     ("template_string", pieces ("template_substitution" :: Node.fragmentKinds)),
     ("unary_expression", ⟨[[.operator, .argument]], []⟩),
     ("binary_expression", ⟨[[.left, .operator, .right], [.left, .right]], []⟩),
     ("ternary_expression", ⟨[[.condition, .consequence, .alternative]], []⟩),
     ("member_expression", ⟨[[.object, .property]], ["optional_chain"]⟩),
     ("call_expression", ⟨[[.function, .arguments]], ["optional_chain"]⟩),
     ("pair", ⟨[[.key, .value]], []⟩)]

/-- The shape of a kind of construct; `none` for those whose children are arbitrary. -/
def ofKind? (kind : String) : Option Shape := table.lookup kind

/-- The node has the children of the shape. Tokens and comments are no part of it. -/
def fits (shape : Shape) (n : Node) : Bool :=
  n.fields ∈ shape.orders && n.children.all fun c =>
    match c.field with
    | some f => f.admits c
    | none => !c.isNamed || c.kind ∈ Node.commentKinds || c.kind ∈ shape.loose

end Shape

namespace Node

/-- The node has the shape of its kind. A token is punctuation or a keyword, which is written
without an underscore, and holds nothing. -/
def shaped (n : Node) : Bool :=
  if n.isNamed then (Shape.ofKind? n.kind).all fun shape => shape.fits n
  else n.children.isEmpty && '_' ∉ n.kind.toList

end Node

/-- The node begins and ends between characters of the script. -/
def Source.places (s : Source) (n : Node) : Bool := s.IsBoundary n.start ∧ s.IsBoundary n.stop

/-- A construct whose nodes all have the shapes of their kinds and stand between characters. -/
structure WellShaped (s : Source) (n : Node) : Prop where
  named : n.isNamed
  shaped : n.all Node.shaped
  placed : n.all s.places

instance (s : Source) (n : Node) : Decidable (WellShaped s n) :=
  decidable_of_iff (n.isNamed ∧ n.all Node.shaped ∧ n.all s.places)
    ⟨fun ⟨h1, h2, h3⟩ => ⟨h1, h2, h3⟩, fun h => ⟨h.named, h.shaped, h.placed⟩⟩

/-! ### The shapes of constructs with parts -/

section Parts

variable {n : Node}

theorem shape_member (hk : n.kind = "member_expression") :
    Shape.ofKind? n.kind = some ⟨[[.object, .property]], ["optional_chain"]⟩ := by
  rw [hk]
  rfl

theorem shape_call (hk : n.kind = "call_expression") :
    Shape.ofKind? n.kind = some ⟨[[.function, .arguments]], ["optional_chain"]⟩ := by
  rw [hk]
  rfl

theorem shape_function (hk : n.kind ∈ Check.functionKinds) :
    Shape.ofKind? n.kind =
      some ⟨[[.parameter, .body], [.parameters, .body]], ["identifier"]⟩ := by
  simp only [Check.functionKinds, List.mem_cons, List.not_mem_nil, or_false] at hk
  rcases hk with hk | hk | hk <;> rw [hk] <;> rfl

theorem shape_pair (hk : n.kind = "pair") :
    Shape.ofKind? n.kind = some ⟨[[.key, .value]], []⟩ := by
  rw [hk]
  rfl

theorem shape_unary (hk : n.kind = "unary_expression") :
    Shape.ofKind? n.kind = some ⟨[[.operator, .argument]], []⟩ := by
  rw [hk]
  rfl

theorem shape_binary (hk : n.kind = "binary_expression") :
    Shape.ofKind? n.kind = some ⟨[[.left, .operator, .right], [.left, .right]], []⟩ := by
  rw [hk]
  rfl

theorem shape_ternary (hk : n.kind = "ternary_expression") :
    Shape.ofKind? n.kind = some ⟨[[.condition, .consequence, .alternative]], []⟩ := by
  rw [hk]
  rfl

end Parts

/-! ### What is inside a well-shaped construct -/

namespace Source

variable {s : Source} {n : Node}

theorem isBoundary_of_places (h : s.places n) : s.IsBoundary n.start ∧ s.IsBoundary n.stop := by
  simpa [places] using h

theorem text_of_places (h : s.places n) : ∃ t, s.text n = .ok t :=
  slice_of_isBoundary (isBoundary_of_places h).1 (isBoundary_of_places h).2

theorem span_of_places (h : s.places n) : s.span n = .ok (s.place n.start, s.place n.stop) := by
  rw [span, offset_eq_place (isBoundary_of_places h).1, offset_eq_place (isBoundary_of_places h).2]
  rfl

end Source

namespace WellShaped

variable {s : Source} {n c : Node}

theorem child (h : WellShaped s n) (hc : c ∈ n.children) (hn : c.isNamed) : WellShaped s c :=
  ⟨hn, (Node.all_iff.mp h.shaped).2 c hc, (Node.all_iff.mp h.placed).2 c hc⟩

theorem part (h : WellShaped s n) (hc : c ∈ n.parts) : WellShaped s c := by
  obtain ⟨hmem, hn, -⟩ := Node.mem_parts.mp hc
  exact h.child hmem hn

theorem content (h : WellShaped s n) (hc : c ∈ n.children) (hn : c.isContent) :
    WellShaped s c := by
  rw [Node.isContent, Bool.and_eq_true] at hn
  exact h.child hc hn.1

theorem unwrap (h : WellShaped s n) : WellShaped s n.unwrap :=
  Node.unwrap_induction (fun _ _ h _ hc hn => h.content hc hn) h

theorem text (h : WellShaped s n) : ∃ t, s.text n = .ok t :=
  Source.text_of_places (Node.all_iff.mp h.placed).1

/-- A token inside a construct holds nothing. -/
theorem token (h : WellShaped s n) (hc : c ∈ n.children) (hn : c.isNamed = false) :
    c.children = [] ∧ '_' ∉ c.kind.toList := by
  have hs := (Node.all_iff.mp ((Node.all_iff.mp h.shaped).2 c hc)).1
  simpa [Node.shaped, hn] using hs

variable {shape : Shape}

theorem fits (h : WellShaped s n) (hs : Shape.ofKind? n.kind = some shape) : shape.fits n := by
  have hn := (Node.all_iff.mp h.shaped).1
  simpa [Node.shaped, h.named, hs] using hn

theorem fields_mem (h : WellShaped s n) (hs : Shape.ofKind? n.kind = some shape) :
    n.fields ∈ shape.orders := by
  have hn := h.fits hs
  rw [Shape.fits, Bool.and_eq_true] at hn
  simpa using hn.1

/-- A child plays a part that it may play, or it is a token, a comment or a loose child. -/
theorem child_cases (h : WellShaped s n) (hs : Shape.ofKind? n.kind = some shape)
    (hc : c ∈ n.children) :
    (∃ f, c.field = some f ∧ f.admits c) ∨ c.field = none ∧
      (c.isNamed = false ∨ c.kind ∈ Node.commentKinds ∨ c.kind ∈ shape.loose) := by
  have hn := h.fits hs
  rw [Shape.fits, Bool.and_eq_true, List.all_eq_true] at hn
  have hchild := hn.2 c hc
  cases hf : c.field with
  | some f => exact .inl ⟨f, rfl, by simpa [hf] using hchild⟩
  | none => exact .inr ⟨rfl, by simpa [hf, or_assoc] using hchild⟩

/-- The parts of a construct are what they should be. -/
theorem admits (h : WellShaped s n) (hs : Shape.ofKind? n.kind = some shape) {f : Field}
    (hc : n.child? f = some c) : f.admits c := by
  obtain ⟨hmem, hf⟩ := Node.child?_eq_some hc
  rcases h.child_cases hs hmem with ⟨g, hg, hadmits⟩ | ⟨hnone, -⟩
  · rw [hf] at hg
    cases hg
    exact hadmits
  · rw [hf] at hnone
    cases hnone

theorem child? (h : WellShaped s n) (hs : Shape.ofKind? n.kind = some shape) {f : Field}
    (hc : n.child? f = some c) (hf : f ≠ .operator) : WellShaped s c := by
  refine h.child (Node.child?_eq_some hc).1 ?_
  have hadmits := h.admits hs hc
  cases f <;> simp_all [Field.admits]

/-- A part that stands in every order of a shape is there. -/
theorem exists_child? (h : WellShaped s n) (hs : Shape.ofKind? n.kind = some shape) {f : Field}
    (hf : ∀ order ∈ shape.orders, f ∈ order) : ∃ c, n.child? f = some c :=
  Node.child?_isSome_of_mem_fields (hf _ (h.fields_mem hs))

/-- No part of a construct is played twice. -/
theorem nodup_fields (h : WellShaped s n) (hs : Shape.ofKind? n.kind = some shape) :
    n.fields.Nodup := by
  have hall : ∀ entry ∈ Shape.table, ∀ order ∈ entry.2.orders, order.Nodup := by decide
  obtain ⟨before, after, htable, -⟩ := List.lookup_eq_some_iff.mp hs
  exact hall (n.kind, shape) (by simp [htable]) _ (h.fields_mem hs)

/-- A construct inside a construct is one of its parts, a comment or a loose child. -/
theorem named_child_cases (h : WellShaped s n) (hs : Shape.ofKind? n.kind = some shape)
    (hc : c ∈ n.children) (hn : c.isNamed) :
    (∃ f, n.child? f = some c ∧ f ≠ .operator ∧ ∃ order ∈ shape.orders, f ∈ order) ∨
      c.kind ∈ Node.commentKinds ∨ c.field = none ∧ c.kind ∈ shape.loose := by
  rcases h.child_cases hs hc with ⟨f, hf, hadmits⟩ | ⟨hnone, hcases⟩
  · refine .inl ⟨f, Node.child?_of_nodup_fields (h.nodup_fields hs) hc hf, ?_, n.fields,
      h.fields_mem hs, List.mem_filterMap.mpr ⟨c, hc, hf⟩⟩
    rintro rfl
    simp [Field.admits, hn] at hadmits
  · rcases hcases with htoken | hcomment | hloose
    · simp [hn] at htoken
    · exact .inr (.inl hcomment)
    · exact .inr (.inr ⟨hnone, hloose⟩)

/-- Inside a construct of pieces, only pieces and comments are constructs. -/
theorem piece_cases {kinds : List String} (h : WellShaped s n)
    (hs : Shape.ofKind? n.kind = some (.pieces kinds)) (hc : c ∈ n.children) (hn : c.isNamed) :
    c.kind ∈ Node.commentKinds ∨ c.kind ∈ kinds := by
  rcases h.named_child_cases hs hc hn with ⟨f, -, -, order, horder, hf⟩ | hcomment | ⟨-, hloose⟩
  · obtain rfl : order = [] := by simpa [Shape.pieces] using horder
    cases hf
  · exact .inl hcomment
  · exact .inr hloose

/-- Only comments stand inside a leaf. -/
theorem comment_of_leaf (h : WellShaped s n) (hk : n.kind ∈ Node.leafKinds) (hc : c ∈ n.children)
    (hn : c.isNamed) : c.kind ∈ Node.commentKinds := by
  have hall : ∀ kind ∈ Node.leafKinds, Shape.ofKind? kind = some (.pieces []) := by decide
  exact (h.piece_cases (hall n.kind hk) hc hn).resolve_right List.not_mem_nil

end WellShaped

/-- A child that is a construct is a part or a comment. -/
theorem Node.part_or_comment {n c : Node} (hc : c ∈ n.children) (hn : c.isNamed) :
    c ∈ n.parts ∨ c.kind ∈ commentKinds := by
  by_cases hk : c.kind ∈ ignoredKinds
  · have hall : ∀ kind ∈ ignoredKinds, kind ∈ commentKinds := by decide
    exact .inr (hall _ hk)
  · exact .inl (mem_parts.mpr ⟨hc, hn, hk⟩)

end ScriptGate
