import TickGraph.Proofs.WrittenTree

namespace TickGraph

/-- A literal as a double. -/
def Json.canonicalLiteral : Json → Json
  | .int n => .float (Float.ofInt n)
  | d => d

/-- A tag as an integer, if it is one. -/
def Json.canonicalTag : Json → Json
  | .float x =>
    match Double.toRat? x with
    | some q => if q.den = 1 then .int q.num else .float x
    | none => .float x
  | d => d

mutual

/-- A graph with the required fields alone, in the order in which they are read. What has no evaluation
stays as it is. -/
def Json.canonical : Json → Json
  | .obj fields =>
    match fields.lookup Json.typeKey with
    | some (.str tag) =>
      match Operator.ofTag? tag with
      | some op =>
        if op.supported then
          .obj ((Json.typeKey, .str tag) :: op.category.required.filterMap fun field =>
            (Json.canonicalField field fields).map fun d => (field.key, d))
        else .obj fields
      | none => .obj fields
    | _ => .obj fields
  | d => d

/-- What stands under a field in the canonical form. -/
def Json.canonicalField (field : Field) : Json.Fields → Option Json
  | [] => none
  | (name, d) :: rest =>
    if name = field.key then
      some <|
        match field with
        | .others =>
          match d with
          | .arr items => .arr (Json.canonicalItems items)
          | d => d
        | .value => d.canonicalLiteral
        | .tag => d.canonicalTag
        | _ => d.canonical
    else Json.canonicalField field rest

def Json.canonicalItems : List Json → List Json
  | [] => []
  | d :: rest => d.canonical :: Json.canonicalItems rest

end

theorem Json.canonicalItems_eq_map (items : List Json) :
    Json.canonicalItems items = items.map Json.canonical := by
  induction items with
  | nil => rfl
  | cons d rest ih => rw [Json.canonicalItems, ih, List.map_cons]

theorem Node.toJsons_eq_map (nodes : List Node) : Node.toJsons nodes = nodes.map Node.toJson := by
  induction nodes with
  | nil => rfl
  | cons node rest ih => rw [Node.toJsons, ih, List.map_cons]

/-- The canonical form of what stands under a field. -/
def Field.canonical (field : Field) (d : Json) : Json :=
  match field with
  | .others =>
    match d with
    | .arr items => .arr (items.map Json.canonical)
    | d => d
  | .value => d.canonicalLiteral
  | .tag => d.canonicalTag
  | _ => d.canonical

theorem Json.canonicalField_eq (field : Field) (fields : Json.Fields) :
    Json.canonicalField field fields = (fields.lookup field.key).map field.canonical := by
  induction fields with
  | nil => rfl
  | cons entry rest ih =>
    obtain ⟨name, d⟩ := entry
    unfold Json.canonicalField
    by_cases here : name = field.key
    · cases field <;> simp [here, Field.canonical]
      cases d <;> simp [Json.canonicalItems_eq_map]
    · have other : (field.key == name) = false := beq_eq_false_iff_ne.mpr (Ne.symm here)
      simp only [here, if_false, List.lookup_cons, other]
      exact ih

section Supported

variable {fields : Json.Fields} {op : Operator}

theorem Json.canonical_of_typed (type : fields.lookup Json.typeKey = some (.str op.tag))
    (supported : op.supported = true) :
    (Json.obj fields).canonical =
      .obj ((Json.typeKey, .str op.tag) :: op.category.required.filterMap fun field =>
        (fields.lookup field.key).map fun d => (field.key, field.canonical d)) := by
  simp only [Json.canonical, type, Operator.ofTag?_tag, supported, if_true,
    Json.canonicalField_eq, Option.map_map, Function.comp_def]

theorem Json.canonical_of_foreign {tag : Text} (type : fields.lookup Json.typeKey = some (.str tag))
    (unsupported : ∀ op : Operator, op.tag = tag → op.supported = false) :
    (Json.obj fields).canonical = .obj fields := by
  simp only [Json.canonical, type]
  cases named : Operator.ofTag? tag with
  | none => rfl
  | some op => simp [unsupported op (Operator.tag_of_ofTag? named)]

end Supported

theorem Json.canonicalLiteral_of_ok {d : Json} {x : Float} (content : literalValue d = .ok x) :
    d.canonicalLiteral = .float x := by
  cases d with
  | int n =>
    rw [literalValue_int] at content
    split at content
    · cases content
      rfl
    · cases content
  | float y =>
    cases content
    rfl
  | _ => cases content

theorem Json.canonicalTag_of_ok {d : Json} {n : Int} (content : referenceTag d = .ok n) :
    d.canonicalTag = .int n := by
  cases d with
  | int m =>
    cases content
    rfl
  | float x =>
    have whole := referenceTag_float_of_ok content
    simp [Json.canonicalTag, whole]
  | _ => cases content

/-- The nodes of a list are written one by one. -/
theorem Node.toJsons_of_each {items : List Json} {nodes : List Node}
    (length : items.length = nodes.length)
    (each : ∀ (i : Nat) (d : Json) (node : Node), items[i]? = some d → nodes[i]? = some node →
      node.toJson = d.canonical) :
    Node.toJsons nodes = items.map Json.canonical := by
  rw [Node.toJsons_eq_map]
  refine List.ext_getElem (by simp [length]) ?_
  intro i left right
  rw [List.length_map] at left right
  rw [List.getElem_map, List.getElem_map]
  exact each i _ _ (List.getElem?_eq_getElem right) (List.getElem?_eq_getElem left)

theorem Node.toJson_unsupported {fields : Json.Fields} {tag : Text}
    (type : fields.lookup Json.typeKey = some (.str tag)) :
    (Node.unsupported tag fields).toJson = .obj fields := by
  cases fields with
  | nil => cases type
  | cons entry rest => simp only [Node.toJson]

/-- A tree is written in the canonical form of any graph that writes it. -/
theorem Json.Writes.toJson {d : Json} {root : Node} (writes : d.Writes root) :
    root.toJson = d.canonical := by
  induction writes with
  | number type held content =>
    have required : Operator.literal.category.required = [.value] := rfl
    rw [Json.canonical_of_typed type rfl, required]
    simp [held, Node.toJson, Field.canonical, Json.canonicalLiteral_of_ok content]
  | reference type held content =>
    have required : Operator.reference.category.required = [.tag] := rfl
    rw [Json.canonical_of_typed type rfl, required]
    simp [held, Node.toJson, Field.canonical, Json.canonicalTag_of_ok content]
  | @variadic _ op _ _ _ _ _ _ type heldA _ heldB _ list length _ ihA ihB ihEach =>
    have required : (Operator.variadic op).category.required = [.a, .b, .others] := by
      cases op <;> rfl
    rw [Json.canonical_of_typed type (by cases op <;> rfl), required]
    simp [heldA, heldB, list, Node.toJson, Field.canonical, ihA, ihB, Operator.tag,
      Node.toJsons_of_each length ihEach]
  | @unary _ op _ _ type held _ ih =>
    have required : (Operator.unary op).category.required = [.v] := rfl
    rw [Json.canonical_of_typed type rfl, required]
    simp [held, Node.toJson, Field.canonical, ih, Operator.tag]
  | @comparison _ op _ _ _ _ type heldLeft _ heldRight _ ihLeft ihRight =>
    have required : (Operator.comparison op).category.required = [.left, .right] := rfl
    rw [Json.canonical_of_typed type rfl, required]
    simp [heldLeft, heldRight, Node.toJson, Field.canonical, ihLeft, ihRight, Operator.tag]
  | conditional type heldExpr _ heldIf _ heldElse _ ihExpr ihIf ihElse =>
    have required : Operator.conditional.category.required = [.expr, .ifNode, .elseNode] := rfl
    rw [Json.canonical_of_typed type rfl, required]
    simp [heldExpr, heldIf, heldElse, Node.toJson, Field.canonical, ihExpr, ihIf, ihElse]
  | unsupported type foreign =>
    rw [Json.canonical_of_foreign type foreign, Node.toJson_unsupported type]

/-- A tree that was read is written in a graph that writes it again. -/
theorem Json.Writes.again {d : Json} {root : Node} (writes : d.Writes root) :
    root.toJson.Writes root := by
  induction writes with
  | number type held content =>
    simp only [Node.toJson]
    exact .number rfl rfl rfl
  | reference type held content =>
    simp only [Node.toJson]
    exact .reference rfl rfl rfl
  | @variadic _ op _ _ _ _ _ others type _ _ _ _ _ length _ ihA ihB ihEach =>
    simp only [Node.toJson]
    refine .variadic rfl rfl ihA rfl ihB rfl (by simp [Node.toJsons_eq_map]) ?_
    intro i d node item present
    rw [Node.toJsons_eq_map, List.getElem?_map, present] at item
    cases item
    obtain ⟨bound, _⟩ := List.getElem?_eq_some_iff.mp present
    exact ihEach i _ node (List.getElem?_eq_getElem (length ▸ bound)) present
  | unary type held writes ih =>
    simp only [Node.toJson]
    exact .unary rfl rfl ih
  | comparison type _ _ _ _ ihLeft ihRight =>
    simp only [Node.toJson]
    exact .comparison rfl rfl ihLeft rfl ihRight
  | conditional type _ _ _ _ _ _ ihExpr ihIf ihElse =>
    simp only [Node.toJson]
    exact .conditional rfl rfl ihExpr rfl ihIf rfl ihElse
  | unsupported type foreign =>
    rw [Node.toJson_unsupported type]
    exact .unsupported type foreign

/-- A tree that was read from a graph is written as the canonical form of the graph. From this it is
read again at any place, to the last leaf, so there is nothing left to change in a canonical form. -/
theorem Node.toJson_of_read {d : Json} {path : Path} {root : Node}
    (success : Node.read d path = .ok root) :
    root.toJson = d.canonical ∧ (∀ other, Node.read root.toJson other = .ok root) ∧
      d.canonical.canonical = d.canonical := by
  have writes := Node.read_eq_ok_iff.mp success
  refine ⟨writes.toJson, writes.again.read, ?_⟩
  calc
    d.canonical.canonical = root.toJson.canonical := by rw [writes.toJson]
    _ = root.toJson := writes.again.toJson.symm
    _ = d.canonical := writes.toJson

/-- An integer, a double as a tag and further fields do not come back; a statement and the sign of a
zero do. -/
theorem Node.toJson_of_read_further_fields :
    let statement : Json.Fields := [("steps", .null), ("type", .str "block")]
    let zero : Json := .obj [("type", .str "number"), ("value", .float (-0))]
    let d : Json := .obj [("note", .null), ("type", .str "sub"),
      ("others", .arr [.obj statement, zero]),
      ("b", .obj [("type", .str "number"), ("value", .int 3), ("unit", .str "m")]),
      ("a", .obj [("type", .str "value"), ("tag", .float 7)])]
    let root : Node :=
      .variadic .sub (.reference 7) (.number 3) [.unsupported "block" statement, .number (-0)]
    d.canonical = .obj [("type", .str "sub"),
        ("a", .obj [("type", .str "value"), ("tag", .int 7)]),
        ("b", .obj [("type", .str "number"), ("value", .float 3)]),
        ("others", .arr [.obj statement, zero])] ∧
      ∀ path, Node.read d.canonical path = .ok root := by
  intro statement zero d root
  have literal : literalValue (.int 3) = .ok 3 := by
    rw [literalValue_int, if_pos (by decide +kernel)]
    rfl
  have writes : d.Writes root := by
    refine .variadic rfl rfl (.reference rfl rfl rfl) rfl (.number rfl rfl literal) rfl rfl ?_
    intro i d node item present
    rcases i with _ | _ | i
    · cases item
      cases present
      exact (@Node.read_eq_ok_iff _ Path.graph _).mp rfl
    · cases item
      cases present
      exact .number rfl rfl rfl
    · cases item
  obtain ⟨written, again, _⟩ := Node.toJson_of_read (writes.read Path.graph)
  rw [← written]
  exact ⟨rfl, again⟩

end TickGraph
