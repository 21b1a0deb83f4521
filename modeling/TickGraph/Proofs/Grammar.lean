import TickGraph.Node.Wire
import TickGraph.Proofs.Letters
import TickGraph.Proofs.WholeNumber

namespace TickGraph

theorem Json.mem_of_lookup {fields : Json.Fields} {name : Text} {d : Json}
    (held : fields.lookup name = some d) : (name, d) ∈ fields := by
  obtain ⟨front, back, split, _⟩ := List.lookup_eq_some_iff.mp held
  rw [split]
  exact List.mem_append_right _ (List.mem_cons_self ..)

/-- Induction over graphs: an object comes after what stands in its fields, and after the items of the
lists that stand there. -/
@[induction_eliminator]
theorem Json.induction {motive : Json → Prop}
    (scalar : ∀ d, (∀ fields, d ≠ .obj fields) → motive d)
    (obj : ∀ fields : Json.Fields, (∀ name d, fields.lookup name = some d → motive d) →
      (∀ name items, fields.lookup name = some (.arr items) → ∀ d ∈ items, motive d) →
        motive (.obj fields)) (d : Json) : motive d := by
  -- A list is no graph, so the hypothesis about a list has to be about its items.
  let Both (d : Json) : Prop := motive d ∧ ∀ items, d = .arr items → ∀ item ∈ items, motive item
  have leaf (d : Json) (plain : ∀ fields, d ≠ .obj fields) (empty : ∀ items, d ≠ .arr items) :
      Both d := ⟨scalar d plain, fun items same => absurd same (empty items)⟩
  have both : Both d := by
    refine @Json.rec Both (fun items => ∀ item ∈ items, Both item)
      (fun fields => ∀ entry ∈ fields, Both entry.2) (fun entry => Both entry.2)
      ?_ ?_ ?_ ?_ ?_ ?_ ?_ ?_ ?_ ?_ ?_ ?_ d
    · exact leaf _ (fun _ => nofun) fun _ => nofun
    · exact fun b => leaf _ (fun _ => nofun) fun _ => nofun
    · exact fun n => leaf _ (fun _ => nofun) fun _ => nofun
    · exact fun x => leaf _ (fun _ => nofun) fun _ => nofun
    · exact fun s => leaf _ (fun _ => nofun) fun _ => nofun
    · intro items each
      refine ⟨scalar _ fun _ => nofun, ?_⟩
      intro others same item member
      cases same
      exact (each item member).1
    · intro fields each
      refine ⟨obj fields ?_ ?_, fun _ => nofun⟩
      · intro name d held
        exact (each _ (Json.mem_of_lookup held)).1
      · intro name items held
        exact (each _ (Json.mem_of_lookup held)).2 items rfl
    · exact fun _ => nofun
    · intro head tail atHead atTail item member
      rcases List.mem_cons.mp member with same | later
      · rw [same]; exact atHead
      · exact atTail item later
    · exact fun _ => nofun
    · intro head tail atHead atTail entry member
      rcases List.mem_cons.mp member with same | later
      · rw [same]; exact atHead
      · exact atTail entry later
    · exact fun _ _ held => held
  exact both.1

theorem Operator.tag_injective {op other : Operator} (same : op.tag = other.tag) : op = other := by
  have found := Operator.ofTag?_tag op
  rw [same, Operator.ofTag?_tag] at found
  exact (Option.some.inj found).symm

/-- What a node holds beside its children: the further operands of a variadic operator, or the content
of a leaf. -/
def Category.extra? : Category → Option Field
  | .multi => some .others
  | .logical => some .others
  | .reference => some .tag
  | .literal => some .value
  | _ => none

/-- All fields that a node has to hold, in the order in which they are read. -/
def Category.required (category : Category) : List Field :=
  category.fields ++ category.extra?.toList

/-- The content of a reference: an integer, or a double that is one. -/
inductive Json.IsTag : Json → Prop
  | int (n : Int) : IsTag (.int n)
  | float {x : Float} {n : Int} (whole : Double.toRat? x = some (n : ℚ)) : IsTag (.float x)

/-- The content of a literal: a double, or an integer that does not round to `2^1024`. -/
inductive Json.IsLiteral : Json → Prop
  | int {n : Int} (fits : n.natAbs < 2 ^ 1024 - 2 ^ 970) : IsLiteral (.int n)
  | float (x : Float) : IsLiteral (.float x)

/-- The grammar of graphs. A tag without an evaluation may have anything beside it. -/
inductive Json.WellFormed : Json → Prop
  | foreign {fields : Json.Fields} {tag : Text}
      (type : fields.lookup Json.typeKey = some (.str tag))
      (unsupported : ∀ op : Operator, op.tag = tag → op.supported = false) :
      WellFormed (.obj fields)
  | node {fields : Json.Fields} {op : Operator}
      (type : fields.lookup Json.typeKey = some (.str op.tag)) (supported : op.supported = true)
      (present : ∀ field ∈ op.category.fields, (fields.lookup field.key).isSome)
      (children : ∀ field ∈ op.category.fields, ∀ d, fields.lookup field.key = some d →
        WellFormed d)
      (list : op.category = .multi ∨ op.category = .logical →
        ∃ items, fields.lookup Field.others.key = some (.arr items))
      (others : op.category = .multi ∨ op.category = .logical →
        ∀ items, fields.lookup Field.others.key = some (.arr items) → ∀ d ∈ items, WellFormed d)
      (tag : op.category = .reference → ∃ d, fields.lookup Field.tag.key = some d ∧ d.IsTag)
      (value : op.category = .literal → ∃ d, fields.lookup Field.value.key = some d ∧ d.IsLiteral) :
      WellFormed (.obj fields)

/-- The rules for a required field, each with what is wrong where it fails. -/
inductive Json.Fields.Violates (fields : Json.Fields) : Field → Violation → Prop
  | missing {field : Field} (absent : fields.lookup field.key = none) :
      Violates fields field (.missing field)
  | notList {d : Json} (held : fields.lookup Field.others.key = some d)
      (other : ∀ items, d ≠ .arr items) : Violates fields .others (.othersNotList d.kind)
  | notNumber {d : Json} (held : fields.lookup Field.value.key = some d)
      (int : ∀ n, d ≠ .int n) (float : ∀ x, d ≠ .float x) :
      Violates fields .value (.valueNotNumber d.kind)
  | tooLarge {n : Int} (held : fields.lookup Field.value.key = some (.int n))
      (large : 2 ^ 1024 - 2 ^ 970 ≤ n.natAbs) : Violates fields .value (.valueOutOfRange n)
  | notInteger {d : Json} (held : fields.lookup Field.tag.key = some d) (other : ¬ d.IsTag) :
      Violates fields .tag (.tagNotInteger d.kind)

/-- The rules for a single node. A tag without an evaluation requires no fields. -/
inductive Json.Violates : Json → Violation → Prop
  | notObject {d : Json} (other : ∀ fields, d ≠ .obj fields) : Violates d (.notObject d.kind)
  | untyped {fields : Json.Fields} (other : ∀ tag, fields.lookup Json.typeKey ≠ some (.str tag)) :
      Violates (.obj fields) .typeNotString
  | field {fields : Json.Fields} {op : Operator} {field : Field} {violation : Violation}
      (type : fields.lookup Json.typeKey = some (.str op.tag)) (required : field ∈ op.category.required)
      (violates : fields.Violates field violation) : Violates (.obj fields) violation

/-- The values that stand one step below a node and have to be graphs. -/
inductive Json.Operand : Json → Step → Json → Prop
  | child {fields : Json.Fields} {op : Operator} {field : Field} {d : Json}
      (type : fields.lookup Json.typeKey = some (.str op.tag)) (listed : field ∈ op.category.fields)
      (held : fields.lookup field.key = some d) : Operand (.obj fields) (.field field) d
  | other {fields : Json.Fields} {op : Operator} {items : List Json} {i : Nat} {d : Json}
      (type : fields.lookup Json.typeKey = some (.str op.tag))
      (listed : op.category.extra? = some .others)
      (held : fields.lookup Field.others.key = some (.arr items)) (item : items[i]? = some d) :
      Operand (.obj fields) (.other i) d

/-- A violation, and the way from the root to the node where it is. -/
structure Fault where
  steps : List Step
  violation : Violation

/-- The same fault, seen from one step further up. -/
def Fault.below (fault : Fault) (step : Step) : Fault :=
  ⟨step :: fault.steps, fault.violation⟩

/-- The faults of a graph: the rules that fail at its root, and the faults of its operands. -/
inductive Json.HasFault : Json → Fault → Prop
  | here {d : Json} {violation : Violation} (violates : d.Violates violation) :
      HasFault d ⟨[], violation⟩
  | inside {d child : Json} {step : Step} {fault : Fault} (operand : d.Operand step child)
      (held : HasFault child fault) : HasFault d (fault.below step)

theorem Category.extra?_eq_some_iff {category : Category} {field : Field} :
    category.extra? = some field ↔
      (category = .multi ∨ category = .logical) ∧ field = .others ∨
        category = .reference ∧ field = .tag ∨ category = .literal ∧ field = .value := by
  cases category <;> simp [Category.extra?, eq_comm]

theorem Category.mem_required_iff {category : Category} {field : Field} :
    field ∈ category.required ↔ field ∈ category.fields ∨ category.extra? = some field := by
  simp [Category.required]

/-- Whether a field holds one operand. -/
def Field.isChild : Field → Bool
  | .others => false
  | .value => false
  | .tag => false
  | _ => true

theorem Category.isChild_of_mem_fields {category : Category} {field : Field}
    (listed : field ∈ category.fields) : field.isChild = true := by
  have all : ∀ field ∈ category.fields, field.isChild = true := by
    cases category <;> simp [Category.fields, Field.isChild]
  exact all field listed

theorem Operator.required_of_unsupported {op : Operator} (unsupported : op.supported = false) :
    op.category.required = [] := by
  have statement : op.category = .statement := by simpa [Operator.supported] using unsupported
  rw [statement]
  rfl

/-- A graph has one type. -/
theorem Operator.eq_of_typed {fields : Json.Fields} {op other : Operator}
    (type : fields.lookup Json.typeKey = some (.str op.tag))
    (typed : fields.lookup Json.typeKey = some (.str other.tag)) : other = op := by
  have same := type.symm.trans typed
  exact (Operator.tag_injective (Text.coe_inj.mp (Json.str.inj (Option.some.inj same)))).symm

section Fields

variable {fields : Json.Fields} {violation : Violation}

theorem Json.Fields.not_violates_child {field : Field} (child : field.isChild = true)
    (present : (fields.lookup field.key).isSome) : ¬ fields.Violates field violation := by
  intro violates
  cases violates with
  | missing absent =>
    rw [absent] at present
    cases present
  | _ => cases child

theorem Json.Fields.not_violates_others {items : List Json}
    (held : fields.lookup Field.others.key = some (.arr items)) :
    ¬ fields.Violates .others violation := by
  intro violates
  cases violates with
  | missing absent => cases absent.symm.trans held
  | notList present other =>
    cases present.symm.trans held
    exact other items rfl

theorem Json.Fields.not_violates_tag {d : Json} (held : fields.lookup Field.tag.key = some d)
    (good : d.IsTag) : ¬ fields.Violates .tag violation := by
  intro violates
  cases violates with
  | missing absent => cases absent.symm.trans held
  | notInteger present other =>
    cases present.symm.trans held
    exact other good

theorem Json.Fields.not_violates_value {d : Json}
    (held : fields.lookup Field.value.key = some d) (good : d.IsLiteral) :
    ¬ fields.Violates .value violation := by
  intro violates
  cases violates with
  | missing absent => cases absent.symm.trans held
  | notNumber present int float =>
    cases present.symm.trans held
    cases good with
    | int fits => exact int _ rfl
    | float x => exact float x rfl
  | tooLarge present large =>
    cases present.symm.trans held
    cases good with
    | int fits => exact absurd fits (Nat.not_lt.mpr large)

end Fields

/-- What the `type` of an object can be. -/
inductive Json.Fields.TypeCase (fields : Json.Fields) : Prop
  | untyped (other : ∀ tag, fields.lookup Json.typeKey ≠ some (.str tag))
  | foreign (tag : Text) (type : fields.lookup Json.typeKey = some (.str tag))
      (unsupported : ∀ op : Operator, op.tag = tag → op.supported = false)
  | node (op : Operator) (type : fields.lookup Json.typeKey = some (.str op.tag))
      (supported : op.supported = true)

theorem Json.Fields.typeCase (fields : Json.Fields) : fields.TypeCase := by
  by_cases typed : ∃ tag, fields.lookup Json.typeKey = some (.str tag)
  · obtain ⟨tag, type⟩ := typed
    by_cases supported : ∃ op : Operator, op.tag = tag ∧ op.supported = true
    · obtain ⟨op, rfl, supported⟩ := supported
      exact .node op type supported
    · refine .foreign tag type fun op same => ?_
      exact Bool.eq_false_iff.mpr fun good => supported ⟨op, same, good⟩
  · exact .untyped fun tag type => typed ⟨tag, type⟩

/-- A type that is no supported tag requires nothing, so such a node breaks no rule. -/
theorem Json.not_hasFault_of_foreign {fields : Json.Fields} {tag : Text}
    (type : fields.lookup Json.typeKey = some (.str tag))
    (unsupported : ∀ op : Operator, op.tag = tag → op.supported = false) (fault : Fault) :
    ¬ (Json.obj fields).HasFault fault := by
  have nothing {op : Operator} (typed : fields.lookup Json.typeKey = some (.str op.tag)) :
      op.category.required = [] := by
    refine Operator.required_of_unsupported (unsupported op ?_)
    cases typed.symm.trans type
    rfl
  intro faulty
  cases faulty with
  | here violates =>
    cases violates with
    | notObject other => exact other fields rfl
    | untyped other => exact other tag type
    | field typed required violates =>
      rw [nothing typed] at required
      cases required
  | inside operand held =>
    cases operand with
    | child typed listed present =>
      have required := Category.mem_required_iff.mpr (Or.inl listed)
      rw [nothing typed] at required
      cases required
    | other typed listed present item =>
      have required := Category.mem_required_iff.mpr (Or.inr listed)
      rw [nothing typed] at required
      cases required

theorem Json.WellFormed.not_hasFault {d : Json} (wellFormed : d.WellFormed) (fault : Fault) :
    ¬ d.HasFault fault := by
  induction wellFormed generalizing fault with
  | foreign type unsupported => exact Json.not_hasFault_of_foreign type unsupported fault
  | @node fields op type supported present children list others tag value ihChildren ihOthers =>
    intro faulty
    cases faulty with
    | here violates =>
      cases violates with
      | notObject other => exact other fields rfl
      | untyped other => exact other op.tag type
      | @field _ _ field _ typed required violates =>
        cases Operator.eq_of_typed type typed
        rcases Category.mem_required_iff.mp required with listed | extra
        · have child := Category.isChild_of_mem_fields listed
          exact Json.Fields.not_violates_child child (present field listed) violates
        · rcases Category.extra?_eq_some_iff.mp extra with
            ⟨variadic, rfl⟩ | ⟨reference, rfl⟩ | ⟨literal, rfl⟩
          · obtain ⟨items, held⟩ := list variadic
            exact Json.Fields.not_violates_others held violates
          · obtain ⟨d, held, good⟩ := tag reference
            exact Json.Fields.not_violates_tag held good violates
          · obtain ⟨d, held, good⟩ := value literal
            exact Json.Fields.not_violates_value held good violates
    | inside operand held =>
      cases operand with
      | @child _ _ field _ typed listed there =>
        cases Operator.eq_of_typed type typed
        exact ihChildren field listed _ there _ held
      | @other _ _ items i _ typed listed there item =>
        cases Operator.eq_of_typed type typed
        have variadic : op.category = .multi ∨ op.category = .logical := by
          simpa using Category.extra?_eq_some_iff.mp listed
        exact ihOthers variadic items there _ (List.mem_of_getElem? item) _ held

/-- A supported node without faults has all that it requires. -/
theorem Json.wellFormed_of_typed {fields : Json.Fields} {op : Operator}
    (type : fields.lookup Json.typeKey = some (.str op.tag)) (supported : op.supported = true)
    (clean : ∀ fault, ¬ (Json.obj fields).HasFault fault)
    (children : ∀ field ∈ op.category.fields, ∀ d, fields.lookup field.key = some d →
      d.WellFormed)
    (others : op.category.extra? = some .others →
      ∀ items, fields.lookup Field.others.key = some (.arr items) → ∀ d ∈ items, d.WellFormed) :
    (Json.obj fields).WellFormed := by
  have obeys {field : Field} (required : field ∈ op.category.required) (violation : Violation) :
      ¬ fields.Violates field violation := fun violates =>
    clean _ (.here (.field type required violates))
  have present {field : Field} (required : field ∈ op.category.required) :
      ∃ d, fields.lookup field.key = some d := by
    cases held : fields.lookup field.key with
    | none => exact absurd (.missing held) (obeys required _)
    | some d => exact ⟨d, rfl⟩
  have holds {field : Field} (extra : op.category.extra? = some field) :
      field ∈ op.category.required := Category.mem_required_iff.mpr (Or.inr extra)
  have extra (field : Field) := @Category.extra?_eq_some_iff op.category field
  refine .node type supported ?_ children ?_ ?_ ?_ ?_
  · intro field listed
    obtain ⟨d, held⟩ := present (Category.mem_required_iff.mpr (Or.inl listed))
    rw [held]
    rfl
  · intro variadic
    have required := holds ((extra .others).mpr (Or.inl ⟨variadic, rfl⟩))
    obtain ⟨d, held⟩ := present required
    by_cases list : ∃ items, d = .arr items
    · obtain ⟨items, same⟩ := list
      exact ⟨items, by rw [← same]; exact held⟩
    · have other : ∀ items, d ≠ .arr items := fun items same => list ⟨items, same⟩
      exact absurd (.notList held other) (obeys required _)
  · intro variadic
    exact others ((extra .others).mpr (Or.inl ⟨variadic, rfl⟩))
  · intro reference
    have required := holds ((extra .tag).mpr (Or.inr (Or.inl ⟨reference, rfl⟩)))
    obtain ⟨d, held⟩ := present required
    by_cases good : d.IsTag
    · exact ⟨d, held, good⟩
    · exact absurd (.notInteger held good) (obeys required _)
  · intro literal
    have required := holds ((extra .value).mpr (Or.inr (Or.inr ⟨literal, rfl⟩)))
    obtain ⟨d, held⟩ := present required
    refine ⟨d, held, ?_⟩
    by_cases int : ∃ n, d = .int n
    · obtain ⟨n, rfl⟩ := int
      refine .int (Nat.lt_of_not_le ?_)
      intro large
      exact obeys required _ (.tooLarge held large)
    · by_cases float : ∃ x, d = .float x
      · obtain ⟨x, rfl⟩ := float
        exact .float x
      · have noInt : ∀ n, d ≠ .int n := fun n same => int ⟨n, same⟩
        have noFloat : ∀ x, d ≠ .float x := fun x same => float ⟨x, same⟩
        exact absurd (.notNumber held noInt noFloat) (obeys required _)

/-- A graph is well formed exactly if no rule fails in it. -/
theorem Json.wellFormed_iff (d : Json) : d.WellFormed ↔ ∀ fault, ¬ d.HasFault fault := by
  refine ⟨fun wellFormed => wellFormed.not_hasFault, ?_⟩
  induction d with
  | scalar d plain =>
    intro clean
    exact absurd (.here (.notObject plain)) (clean _)
  | obj fields children items =>
    intro clean
    cases fields.typeCase with
    | untyped other => exact absurd (.here (.untyped other)) (clean _)
    | foreign tag type unsupported => exact .foreign type unsupported
    | node op type supported =>
      refine Json.wellFormed_of_typed type supported clean ?_ ?_
      · intro field listed d held
        refine children _ d held fun fault faulty => ?_
        exact clean _ (.inside (.child type listed held) faulty)
      · intro listed list held d member
        obtain ⟨i, item⟩ := List.getElem?_of_mem member
        refine items _ list held d member fun fault faulty => ?_
        exact clean _ (.inside (.other type listed held item) faulty)

end TickGraph
