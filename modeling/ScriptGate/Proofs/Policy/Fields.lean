import ScriptGate.Policy.File
import ScriptGate.Proofs.Record.Fields

/-!
# The fields of a policy file

The members of a policy file are read field by field, and every field is told apart from the others.
What is wrong with one of them is an error under its name, whatever the others are; a name that is
of no field is an error of its own. An object therefore has a policy exactly if it has no unknown
name and no invalid field.

## Main definitions

* `Policy.Shape`, `Policy.fields`: the types of fields, and the fields of a policy file.
* `Policy.Shape.Holds`: what a JSON value holds for a field of a type.
* `Policy.Acceptable`, `Policy.Describes`: objects with a policy, and the policy of an object.
* `Policy.Refuses`: the errors with which an object is refused.

## Main results

* `Policy.errors_ofMembers`: the errors of an object are those of its fields and unknown names.
* `Policy.exists_valid`, `Policy.acceptable_of_valid`: an object has a policy if and only if it is
  acceptable.
* `Policy.describes_of_valid`: this policy is the one that it describes.
* `Policy.refuses_blocks`: an object that is not acceptable is refused for what is wrong with it.
-/

namespace ScriptGate.Policy

open Record
open Json.Value (last? settle)

/-! ### Fields -/

/-- The types of the fields of a policy file. -/
inductive Shape where
  | set
  | table
  | optionalTable
  | unit
  | depth

namespace Shape

/-- What a field of the type is in a policy. -/
def Content : Shape → Type
  | set => List Text
  | table => NameTable
  | optionalTable => Option NameTable
  | unit => OffsetUnit
  | depth => { n : Nat // 1 ≤ n }

/-- The reader of a field of the type. -/
def read : (s : Shape) → Reader s.Content
  | set => Record.set
  | table => Record.table
  | optionalTable => nullable Record.table
  | unit => Record.unit
  | depth => atLeast 1

/-- What a JSON value holds for a field of the type. -/
def Holds : (s : Shape) → Json.Value → s.Content → Prop
  | set => HoldsSet
  | table => HoldsTable
  | optionalTable => HoldsNullable HoldsTable
  | unit => HoldsUnit
  | depth => fun v n => HoldsInteger v n.1

/-- A value that is read from a file is read as what it holds. -/
theorem reads_settle (s : Shape) (v : Json.Value) : Reads s.read v.settle (s.Holds v.settle) := by
  have hnames : ∀ ms, v.settle = .object ms → (ms.map (·.1)).Nodup := fun _ =>
    Json.Value.nodup_of_settle
  cases s with
  | set => exact reads_set _
  | table => exact reads_table hnames
  | optionalTable => exact reads_nullable (reads_table hnames)
  | unit => exact reads_unit _
  | depth => exact reads_atLeast 1 _

end Shape

/-- A field of a policy file. -/
structure Field where
  name : String
  shape : Shape
  get : Policy → shape.Content

/-- The fields of a policy file, in order. -/
def fields : List Field :=
  [⟨"safe_identifiers", .set, safeIdentifiers⟩,
   ⟨"safe_namespaces", .set, safeNamespaces⟩,
   ⟨"static_property_whitelist", .table, staticProperties⟩,
   ⟨"instance_method_whitelist", .set, instanceMethods⟩,
   ⟨"instance_property_whitelist", .set, instanceProperties⟩,
   ⟨"allowed_unary_operators", .set, unaryOperators⟩,
   ⟨"namespace_method_whitelist", .optionalTable, namespaceMethods⟩,
   ⟨"offset_unit", .unit, offsetUnit⟩,
   ⟨"max_depth", .depth, fun p => ⟨p.maxDepth, p.maxDepth_pos⟩⟩]

theorem map_name_fields : fields.map (·.name) = fieldNames := rfl

variable {rs ns : List (Text × Json.Value)} {f : Field} {p : Policy}

namespace Field

/-- What a file gives for a field: the last value that is written under its name. -/
def value? (f : Field) (rs : List (Text × Json.Value)) : Option Json.Value :=
  (last? f.name rs).map settle

/-- What a file gives for a field, if it gives anything, holds something of its type. -/
def Valid (f : Field) (rs : List (Text × Json.Value)) : Prop :=
  ∀ v, f.value? rs = some v → ∃ a, f.shape.Holds v a

/-- The field among the members of an object. -/
def read (f : Field) (ns : List (Text × Json.Value)) : Validated f.shape.Content :=
  fieldOr ns f.name (f.get standard) f.shape.read

end Field

/-- The members are those of an object that has a policy: their names are those of fields, and every
field is valid. -/
def Acceptable (rs : List (Text × Json.Value)) : Prop :=
  (∀ name ∈ rs.map (·.1), name ∈ Text.ofStrings fieldNames) ∧ ∀ f ∈ fields, f.Valid rs

/-- Every field of the policy is what the file gives for it, or as in the standard policy if the
file gives nothing. -/
def Describes (rs : List (Text × Json.Value)) (p : Policy) : Prop :=
  ∀ f ∈ fields, (∀ v, f.value? rs = some v → f.shape.Holds v (f.get p)) ∧
    (f.value? rs = none → f.get p = f.get standard)

/-! ### One object -/

/-- An object that has a policy gives every field of it, and has no unknown name. -/
theorem ofMembers_eq_valid (h : ofMembers ns = .valid p) :
    (∀ f ∈ fields, f.read ns = .valid (f.get p)) ∧ onlyNames ns fieldNames = .valid () := by
  rw [ofMembers, unlessBroken] at h
  split at h
  next => cases h
  next =>
    simp only [Validated.seqLeft_eq, Validated.seq_eq, Validated.functor_map_eq,
      Validated.combine_eq_valid, Validated.map_eq_valid] at h
    -- The fields stand one inside the other, the first of them innermost.
    obtain ⟨_, _, ⟨_, _, ⟨_, _, ⟨_, _, ⟨_, _, ⟨_, _, ⟨_, _, ⟨_, _, ⟨_, _, ⟨_, h1, rfl⟩, h2, rfl⟩,
      h3, rfl⟩, h4, rfl⟩, h5, rfl⟩, h6, rfl⟩, h7, rfl⟩, h8, rfl⟩, h9, rfl⟩, hnames, rfl⟩ := h
    refine ⟨?_, hnames⟩
    simp only [fields, List.forall_mem_cons, List.not_mem_nil, false_imp_iff, implies_true,
      and_true]
    exact ⟨h1, h2, h3, h4, h5, h6, h7, h8, h9⟩

/-- The errors of an object, under the names of its fields and under its unknown names. -/
def blocks (ns : List (Text × Json.Value)) : List (Text × List FieldError) :=
  fields.map (fun f => ((f.name : Text), (f.read ns).errors)) ++
    ((ns.map (·.1)).filter (· ∉ Text.ofStrings fieldNames)).map
      fun name => (name, [⟨[.name name], .unknownName⟩])

/-- **The errors of an object are those of its fields and its unknown names, in this order.** -/
theorem errors_ofMembers (h : ∀ m ∈ ns, isBroken m.1 = false) :
    (ofMembers ns).errors = (blocks ns).flatMap (·.2) := by
  have hbroken : ns.any (fun m => isBroken m.1) = false := List.any_eq_false.mpr fun m hm => by
    simp [h m hm]
  have hunknown : (onlyNames ns fieldNames).errors =
      (((ns.map (·.1)).filter (· ∉ Text.ofStrings fieldNames)).map
        fun name => (name, ([⟨[.name name], .unknownName⟩] : List FieldError))).flatMap (·.2) := by
    rw [errors_onlyNames, List.map_eq_flatMap, List.flatMap_map, List.filter_map, List.flatMap_map]
    rfl
  rw [ofMembers, unlessBroken, hbroken, blocks, List.flatMap_append, ← hunknown]
  simp only [Bool.false_eq_true, if_false, Validated.seqLeft_eq, Validated.seq_eq,
    Validated.functor_map_eq, Validated.errors_combine, Validated.errors_map, fields, Field.read,
    List.map_cons, List.map_nil, List.flatMap_cons, List.flatMap_nil, List.append_nil,
    List.append_assoc]
  rfl

theorem honest_ofMembers (hfields : ∀ f ∈ fields, (f.read ns).Honest) : (ofMembers ns).Honest := by
  simp only [fields, List.forall_mem_cons, List.not_mem_nil, false_imp_iff, implies_true,
    and_true] at hfields
  obtain ⟨h1, h2, h3, h4, h5, h6, h7, h8, h9⟩ := hfields
  rw [ofMembers, Validated.seqLeft_eq]
  refine .ite (Validated.honest_wrong _) (.combine ?_ (honest_onlyNames ns fieldNames))
  exact (((((((h1.map.combine h2).combine h3).combine h4).combine h5).combine h6).combine
    h7).combine h8).combine h9

/-! ### The fields of a file -/

/-- Of an object with the members `rs`, the members `ns` are read. -/
def Settles (rs ns : List (Text × Json.Value)) : Prop := settle (.object rs) = .object ns

namespace Settles

theorem get? (h : Settles rs ns) (name : Text) :
    Json.Value.get? name ns = (last? name rs).map settle := by
  obtain ⟨ns', hns, hget, -⟩ := Json.Value.settle_object rs
  cases hns.symm.trans h
  exact hget name

theorem names (h : Settles rs ns) : ns.map (·.1) = (rs.map (·.1)).eraseDups := by
  obtain ⟨ns', hns, -, hnames⟩ := Json.Value.settle_object rs
  cases hns.symm.trans h
  exact hnames

theorem mem_names (h : Settles rs ns) {m : Text × Json.Value} (hm : m ∈ ns) :
    m.1 ∈ rs.map (·.1) := by
  rw [← List.mem_eraseDups, ← h.names]
  exact List.mem_map_of_mem hm

end Settles

namespace Field

theorem read_of_some {v : Json.Value} (h : Settles rs ns) (hv : f.value? rs = some v) :
    f.read ns = (f.shape.read v).under (.name f.name) :=
  fieldOr_of_some ((h.get? f.name).trans hv)

theorem read_of_none (h : Settles rs ns) (hv : f.value? rs = none) :
    f.read ns = .valid (f.get standard) :=
  fieldOr_of_none ((h.get? f.name).trans hv)

theorem reads_of_some {v : Json.Value} (hv : f.value? rs = some v) :
    Reads f.shape.read v (f.shape.Holds v) := by
  obtain ⟨raw, -, rfl⟩ := Option.map_eq_some_iff.mp hv
  exact f.shape.reads_settle raw

theorem honest_read (h : Settles rs ns) : (f.read ns).Honest :=
  honest_fieldOr fun _ hv => (reads_of_some ((h.get? f.name).symm.trans hv)).honest

/-- Errors are told against the invalid fields, and only against these. -/
theorem errors_read_eq_nil_iff (h : Settles rs ns) : (f.read ns).errors = [] ↔ f.Valid rs := by
  cases hv : f.value? rs with
  | none =>
    rw [read_of_none h hv]
    refine ⟨fun _ v hsome => ?_, fun _ => rfl⟩
    rw [hv] at hsome
    cases hsome
  | some v =>
    rw [read_of_some h hv, Validated.errors_under, List.map_eq_nil_iff,
      (reads_of_some hv).errors_eq_nil_iff]
    refine ⟨fun hheld w hw => ?_, fun hvalid => hvalid v hv⟩
    obtain rfl := Option.some.inj (hv.symm.trans hw)
    exact hheld

end Field

/-- The error is told under the name. -/
def isUnder (name : Text) (e : FieldError) : Bool := e.place.head? = some (.name name)

theorem isUnder_unique {a b : Text} {e : FieldError} (ha : isUnder a e = true)
    (hb : isUnder b e = true) : a = b := by
  simp only [isUnder, decide_eq_true_eq] at ha hb
  simpa using ha.symm.trans hb

theorem isUnder_of_blocks (h : Settles rs ns) {b : Text × List FieldError} (hb : b ∈ blocks ns)
    {e : FieldError} (he : e ∈ b.2) : isUnder b.1 e = true := by
  rcases List.mem_append.mp hb with hb | hb
  · obtain ⟨f, -, rfl⟩ := List.mem_map.mp hb
    dsimp only at he ⊢
    cases hv : f.value? rs with
    | none => simp [Field.read_of_none h hv, Validated.errors] at he
    | some v =>
      rw [Field.read_of_some h hv, Validated.errors_under] at he
      obtain ⟨e, -, rfl⟩ := List.mem_map.mp he
      simp [isUnder]
  · obtain ⟨name, -, rfl⟩ := List.mem_map.mp hb
    obtain rfl := List.mem_singleton.mp he
    simp [isUnder]

/-- The unknown names of an object, in the order in which they are first written. -/
def unknownNames (rs : List (Text × Json.Value)) : List Text :=
  (rs.map (·.1)).eraseDups.filter (· ∉ Text.ofStrings fieldNames)

theorem map_fst_blocks (h : Settles rs ns) :
    (blocks ns).map (·.1) = Text.ofStrings fieldNames ++ unknownNames rs := by
  rw [blocks, List.map_append, List.map_map, List.map_map, unknownNames, ← h.names,
    ← map_name_fields, Text.ofStrings, List.map_map]
  congr 1
  exact List.map_id _

section Blocks

variable {bs : List (Text × List FieldError)}

/-- Where every block has its own name, the errors under a name are its block. -/
theorem filter_flatMap (hnames : (bs.map (·.1)).Nodup)
    (hunder : ∀ b ∈ bs, ∀ e ∈ b.2, isUnder b.1 e = true) {b : Text × List FieldError}
    (hb : b ∈ bs) : (bs.flatMap (·.2)).filter (isUnder b.1) = b.2 := by
  induction bs with
  | nil => cases hb
  | cons c bs ih =>
    obtain ⟨hc, hbs⟩ := List.forall_mem_cons.mp hunder
    rw [List.map_cons, List.nodup_cons] at hnames
    rw [List.flatMap_cons, List.filter_append]
    -- Names differ, so every error of another block is under another name.
    rcases List.mem_cons.mp hb with rfl | hb
    · have hrest : (bs.flatMap (·.2)).filter (isUnder b.1) = [] := by
        rw [List.filter_eq_nil_iff]
        intro e he hunder
        obtain ⟨d, hd, he⟩ := List.mem_flatMap.mp he
        exact hnames.1 (isUnder_unique hunder (hbs d hd e he) ▸ List.mem_map_of_mem hd)
      rw [hrest, List.append_nil, List.filter_eq_self.mpr hc]
    · have hfirst : c.2.filter (isUnder b.1) = [] := by
        rw [List.filter_eq_nil_iff]
        intro e he hunder
        exact hnames.1 (isUnder_unique hunder (hc e he) ▸ List.mem_map_of_mem hb)
      rw [hfirst, List.nil_append, ih hnames.2 hbs hb]

end Blocks

theorem nodup_blocks (h : Settles rs ns) : ((blocks ns).map (·.1)).Nodup := by
  have hfields : (Text.ofStrings fieldNames).Nodup := by decide +kernel
  have hunknown : (unknownNames rs).Nodup := by
    rw [unknownNames, ← h.names]
    exact (Json.Value.nodup_of_settle h).filter _
  rw [map_fst_blocks h]
  refine hfields.append hunknown fun name hfield hother => ?_
  simp only [unknownNames, List.mem_filter, decide_eq_true_eq] at hother
  exact hother.2 hfield

/-- The errors with which an object is refused: there is one at least, none under the name of a
valid field, one at least under that of an invalid field, and exactly one for an unknown name. Those
of the fields come first, in the order of the fields, and then those of unknown names, in the order
in which they are first written. -/
structure Refuses (rs : List (Text × Json.Value)) (errors : List FieldError) : Prop where
  ne_nil : errors ≠ []
  valid : ∀ f ∈ fields, f.Valid rs → errors.filter (isUnder f.name) = []
  invalid : ∀ f ∈ fields, ¬f.Valid rs → errors.filter (isUnder f.name) ≠ []
  unknown : ∀ name ∈ rs.map (·.1), name ∉ Text.ofStrings fieldNames →
    errors.filter (isUnder name) = [⟨[.name name], .unknownName⟩]
  ordered : errors = (Text.ofStrings fieldNames ++ unknownNames rs).flatMap fun name =>
    errors.filter (isUnder name)

theorem mem_unknownNames {name : Text} :
    name ∈ unknownNames rs ↔ name ∈ rs.map (·.1) ∧ name ∉ Text.ofStrings fieldNames := by
  rw [unknownNames, List.mem_filter, List.mem_eraseDups, decide_eq_true_eq]

/-- The blocks of an object are empty if and only if it is acceptable. -/
theorem flatMap_blocks_eq_nil_iff (h : Settles rs ns) :
    (blocks ns).flatMap (·.2) = [] ↔ Acceptable rs := by
  rw [blocks, List.flatMap_append, List.append_eq_nil_iff, and_comm, Acceptable]
  refine and_congr ?_ ?_
  · rw [h.names, ← unknownNames, List.flatMap_map, List.flatMap_eq_nil_iff]
    constructor
    · intro hnone name hname
      by_contra hunknown
      cases hnone name (mem_unknownNames.mpr ⟨hname, hunknown⟩)
    · intro hknown name hname
      obtain ⟨hwritten, hunknown⟩ := mem_unknownNames.mp hname
      exact absurd (hknown name hwritten) hunknown
  · rw [List.flatMap_map, List.flatMap_eq_nil_iff]
    exact forall₂_congr fun f _ => Field.errors_read_eq_nil_iff h

/-- **An object that is not acceptable is refused for what is wrong with it.** -/
theorem refuses_blocks (h : Settles rs ns) (hrefused : ¬Acceptable rs) :
    Refuses rs ((blocks ns).flatMap (·.2)) := by
  have hfilter {b : Text × List FieldError} (hb : b ∈ blocks ns) :
      ((blocks ns).flatMap (·.2)).filter (isUnder b.1) = b.2 :=
    filter_flatMap (nodup_blocks h) (fun _ hb _ => isUnder_of_blocks h hb) hb
  have hfield {f : Field} (hf : f ∈ fields) :
      ((blocks ns).flatMap (·.2)).filter (isUnder f.name) = (f.read ns).errors :=
    hfilter (List.mem_append_left _ (List.mem_map_of_mem hf))
  refine ⟨fun hnil => hrefused ((flatMap_blocks_eq_nil_iff h).mp hnil), fun f hf hvalid => ?_,
    fun f hf hinvalid => ?_, fun name hname hunknown => ?_, ?_⟩
  · rw [hfield hf]
    exact (Field.errors_read_eq_nil_iff h).mpr hvalid
  · rw [hfield hf]
    exact fun hnil => hinvalid ((Field.errors_read_eq_nil_iff h).mp hnil)
  · have hmem : (name, [⟨[.name name], .unknownName⟩]) ∈ blocks ns := by
      refine List.mem_append_right _ (List.mem_map_of_mem ?_)
      rw [h.names]
      exact mem_unknownNames.mpr ⟨hname, hunknown⟩
    exact hfilter hmem
  · rw [← map_fst_blocks h, List.flatMap_map]
    exact List.flatMap_congr fun b hb => (hfilter hb).symm

/-! ### Acceptable objects -/

/-- An object that has a policy is acceptable. -/
theorem acceptable_of_valid (hns : Settles rs ns) (h : ofMembers ns = .valid p) :
    Acceptable rs := by
  obtain ⟨hfields, hnames⟩ := ofMembers_eq_valid h
  constructor
  · intro name hname
    have hnone := errors_onlyNames ns fieldNames
    rw [hnames, eq_comm] at hnone
    have hknown := List.filter_eq_nil_iff.mp (List.map_eq_nil_iff.mp hnone)
    rw [← List.mem_eraseDups, ← hns.names] at hname
    obtain ⟨m, hm, rfl⟩ := List.mem_map.mp hname
    simpa using hknown m hm
  · intro f hf
    rw [← Field.errors_read_eq_nil_iff hns, hfields f hf]
    rfl

/-- An acceptable object has a policy. -/
theorem exists_valid (hns : Settles rs ns) (h : Acceptable rs) : ∃ p, ofMembers ns = .valid p := by
  -- The names of fields are not broken, so this is not what is told of the object.
  have hplain : ∀ m ∈ ns, isBroken m.1 = false := by
    intro m hm
    obtain ⟨name, -, hname⟩ := List.mem_map.mp (h.1 m.1 (hns.mem_names hm))
    exact Text.plain_iff_not_isBroken.mp (hname ▸ Text.plain_ofString name)
  refine honest_ofMembers (fun f _ => Field.honest_read hns) ?_
  rw [errors_ofMembers hplain]
  exact (flatMap_blocks_eq_nil_iff hns).mpr h

/-- The policy of an object is the one that it describes. -/
theorem describes_of_valid (hns : Settles rs ns) (h : ofMembers ns = .valid p) :
    Describes rs p := by
  intro f hf
  have hread := (ofMembers_eq_valid h).1 f hf
  constructor
  · intro v hv
    rw [Field.read_of_some hns hv, Validated.under_eq_valid] at hread
    exact (Field.reads_of_some hv).sound _ hread
  · intro hv
    rw [Field.read_of_none hns hv] at hread
    exact (Validated.valid.inj hread).symm

end ScriptGate.Policy
