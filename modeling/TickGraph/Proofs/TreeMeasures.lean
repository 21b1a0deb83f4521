import Mathlib.Data.Set.Card
import Mathlib.Order.Bounds.Basic
import TickGraph.Proofs.ReadingOrder

namespace TickGraph

/-- The nodes on a way from the root of a tree to a leaf. -/
inductive Node.Chain : Node → List Node → Prop
  | leaf {node : Node} (childless : node.children = []) : Chain node [node]
  | cons {node child : Node} {rest : List Node} (member : child ∈ node.children)
      (below : Chain child rest) : Chain node (node :: rest)

section Size

theorem Node.length_preorder (node : Node) : node.preorder.length = node.count := by
  induction node using Node.child_induction with
  | each node ih =>
    rw [node.preorder_eq_children, node.count_eq_children, List.length_cons, Nat.add_comm]
    congr 1
    generalize node.children = children at ih
    induction children with
    | nil => rfl
    | cons child rest later =>
      rw [List.flatMap_cons, List.length_append, List.foldr_cons, ih child (List.mem_cons_self ..),
        later fun other member => ih other (List.mem_cons_of_mem _ member)]

/-- A fold that nothing makes smaller is at least what it is made of. -/
theorem le_foldr_of_mem {measure : Node → Nat} {combine : Node → Nat → Nat}
    (larger : ∀ node rest, measure node ≤ combine node rest ∧ rest ≤ combine node rest) {child : Node}
    {children : List Node} (member : child ∈ children) : measure child ≤ children.foldr combine 0 := by
  induction children with
  | nil => cases member
  | cons first rest ih =>
    rw [List.foldr_cons]
    rcases List.mem_cons.mp member with rfl | later
    · exact (larger ..).1
    · exact (ih later).trans (larger ..).2

theorem Node.count_lt_of_mem {node child : Node} (member : child ∈ node.children) :
    child.count < node.count := by
  have below : child.count ≤ node.children.foldr (fun node total => node.count + total) 0 :=
    le_foldr_of_mem (fun node total => ⟨Nat.le_add_right .., Nat.le_add_left ..⟩) member
  rw [node.count_eq_children]
  omega

end Size

section Depth

variable {node child : Node}

theorem Node.depth_lt_of_mem (member : child ∈ node.children) : child.depth < node.depth := by
  have below : child.depth ≤ node.children.foldr (fun node deepest => max node.depth deepest) 0 :=
    le_foldr_of_mem (fun node deepest => ⟨Nat.le_max_left .., Nat.le_max_right ..⟩) member
  rw [node.depth_eq_children]
  omega

/-- A node with operands is one level deeper than one of them. -/
theorem Node.exists_deepest (composite : node.children ≠ []) :
    ∃ child ∈ node.children, node.depth = 1 + child.depth := by
  rw [node.depth_eq_children]
  generalize node.children = children at composite
  induction children with
  | nil => exact absurd rfl composite
  | cons first rest ih =>
    rw [List.foldr_cons]
    by_cases last : rest = []
    · subst last
      exact ⟨first, List.mem_cons_self .., by simp⟩
    · obtain ⟨child, member, deepest⟩ := ih last
      rcases Nat.le_total (rest.foldr (fun node deepest => max node.depth deepest) 0) first.depth with
        less | more
      · exact ⟨first, List.mem_cons_self .., by omega⟩
      · exact ⟨child, List.mem_cons_of_mem _ member, by omega⟩

theorem Node.depth_of_childless (childless : node.children = []) : node.depth = 1 := by
  rw [node.depth_eq_children, childless, List.foldr_nil]

theorem Node.depth_pos (node : Node) : 1 ≤ node.depth := by
  rw [node.depth_eq_children]
  omega

theorem Node.depth_le_count (node : Node) : node.depth ≤ node.count := by
  induction node using Node.child_induction with
  | each node ih =>
    by_cases childless : node.children = []
    · rw [Node.depth_of_childless childless, node.count_eq_children]
      omega
    · obtain ⟨child, member, deepest⟩ := Node.exists_deepest childless
      have below := ih child member
      have smaller := Node.count_lt_of_mem member
      omega

theorem Node.Chain.length_le {chain : List Node} (down : node.Chain chain) :
    chain.length ≤ node.depth := by
  induction down with
  | leaf childless => exact (Node.depth_of_childless childless).ge
  | cons member below ih =>
    have less := Node.depth_lt_of_mem member
    rw [List.length_cons]
    omega

theorem Node.exists_chain (node : Node) : ∃ chain, node.Chain chain ∧ chain.length = node.depth := by
  induction node using Node.child_induction with
  | each node ih =>
    by_cases childless : node.children = []
    · exact ⟨[node], .leaf childless, (Node.depth_of_childless childless).symm⟩
    · obtain ⟨child, member, deepest⟩ := Node.exists_deepest childless
      obtain ⟨chain, down, length⟩ := ih child member
      refine ⟨node :: chain, .cons member down, ?_⟩
      rw [List.length_cons, length, deepest, Nat.add_comm]

end Depth

/-- The references are the tags of the reference leaves among the nodes, in their order. -/
theorem Node.map_references (node : Node) :
    node.references.map Node.reference = node.preorder.filter fun node => node.tag?.isSome := by
  unfold Node.references
  induction node.preorder with
  | nil => rfl
  | cons node rest ih =>
    cases node with
    | reference tag => exact congrArg (Node.reference tag :: ·) ih
    | _ => exact ih

section Reached

variable {d : Json} {root : Node} {path : Path}

/-- A tree has as many nodes as the graph has paths that can be reached. -/
theorem Json.Writes.ncard_reached (writes : d.Writes root) :
    {steps | ∃ value, d.Reaches steps value}.ncard = root.count := by
  let reached := (root.located Path.graph).map fun place => place.1.steps
  have along {place : Path × Node} (member : place ∈ root.located Path.graph) :
      root.at? place.1.steps = some place.2 ∧ place.1 = Path.graph.along place.1.steps := by
    obtain ⟨steps, present, same⟩ := Node.mem_located.mp member
    rw [same]
    exact ⟨present, rfl⟩
  -- The walk comes to no path twice, and a path has one list of steps.
  have distinct : reached.Nodup := by
    refine List.Nodup.map_on ?_ (List.Nodup.of_map Prod.fst (root.nodup_located Path.graph))
    intro place member other among same
    obtain ⟨present, path⟩ := along member
    obtain ⟨there, again⟩ := along among
    have paths : place.1 = other.1 := by rw [path, again, same]
    rw [same] at present
    exact Prod.ext paths (Option.some.inj (present.symm.trans there))
  have members : {steps | ∃ value, d.Reaches steps value} = {steps | steps ∈ reached} := by
    ext steps
    rw [Set.mem_ofPred_eq, Set.mem_ofPred_eq, List.mem_map]
    constructor
    · rintro ⟨value, reach⟩
      obtain ⟨node, present, -⟩ := writes.of_reaches reach
      exact ⟨_, Node.mem_located.mpr ⟨steps, present, rfl⟩, rfl⟩
    · rintro ⟨place, member, rfl⟩
      obtain ⟨value, reach, -⟩ := writes.reaches (along member).1
      exact ⟨value, reach⟩
  rw [members, ← List.coe_toFinset, Set.ncard_coe_finset, List.toFinset_card_of_nodup distinct,
    List.length_map, ← root.length_preorder, ← root.map_located Path.graph, List.length_map]

/-- What is the same at a mapping and at its node is the same along a reading. -/
theorem Visited.map_eq {α : Type} {visits : List (Path × Json)} {places : List (Path × Node)}
    {f : Path × Json → α} {g : Path × Node → α}
    (among : List.Forall₂ (Visited d path) visits places)
    (same : ∀ visit place, Visited d path visit place → f visit = g place) :
    visits.map f = places.map g := by
  rw [← List.forall₂_eq_eq_eq, List.forall₂_map_left_iff, List.forall₂_map_right_iff]
  exact among.imp same

theorem Visited.reaches_of_mem {visits : List (Path × Json)} {places : List (Path × Node)}
    (among : List.Forall₂ (Visited d path) visits places) {visit : Path × Json}
    (member : visit ∈ visits) : ∃ steps, visit.1 = path.along steps ∧ d.Reaches steps visit.2 := by
  induction among with
  | nil => cases member
  | cons visited _ ih =>
    rcases List.mem_cons.mp member with rfl | later
    · exact visited.reach
    · exact ih later

/-- A reading comes to the mappings that can be reached, to each once, in the order in which the tree
lists its nodes. -/
theorem Json.Writes.visits (writes : d.Writes root) (path : Path) :
    ∃ visits, Node.visit d path = ⟨visits, .ok root⟩ ∧ (visits.map Prod.fst).Nodup ∧
      (∀ steps value, (path.along steps, value) ∈ visits ↔ d.Reaches steps value) ∧
      visits.map (fun visit => Node.read visit.2 visit.1) = root.preorder.map .ok := by
  obtain ⟨visits, run, among⟩ := writes.visitedInOrder path
  have places : visits.map Prod.fst = (root.located path).map Prod.fst :=
    Visited.map_eq among fun visit place visited => visited.same
  refine ⟨visits, run, places ▸ root.nodup_located path, fun steps value => ⟨?_, ?_⟩, ?_⟩
  · intro member
    obtain ⟨others, same, reach⟩ := Visited.reaches_of_mem among member
    rw [Path.along_injective same]
    exact reach
  · intro reach
    obtain ⟨node, present, -⟩ := writes.of_reaches reach
    have place : path.along steps ∈ (root.located path).map Prod.fst :=
      List.mem_map.mpr ⟨_, Node.mem_located.mpr ⟨steps, present, rfl⟩, rfl⟩
    rw [← places] at place
    obtain ⟨⟨_, found⟩, member, rfl⟩ := List.mem_map.mp place
    obtain ⟨others, same, there⟩ := Visited.reaches_of_mem among member
    rw [Path.along_injective same] at reach
    cases reach.at?.symm.trans there.at?
    exact member
  · rw [← root.map_located path, List.map_map]
    exact Visited.map_eq among fun visit place visited => visited.writes.read visit.1

end Reached

section Unsupported

variable {d value : Json} {steps inner : List Step}

theorem Json.Reaches.split (reach : d.Reaches (steps ++ inner) value) :
    ∃ middle, d.Reaches steps middle ∧ middle.Reaches inner value := by
  induction steps generalizing d with
  | nil => exact ⟨d, .here, reach⟩
  | cons step rest ih =>
    cases reach with
    | down operand below =>
      obtain ⟨middle, above, further⟩ := ih below
      exact ⟨middle, .down operand above, further⟩

theorem Json.Writes.unsupported_of_foreign {fields : Json.Fields} {tag : Text} {node : Node}
    (writes : (Json.obj fields).Writes node) (type : fields.lookup Json.typeKey = some (.str tag))
    (foreign : ∀ op : Operator, op.tag = tag → op.supported = false) :
    node = .unsupported tag fields := by
  have again := Json.Writes.unsupported type foreign
  have read := (writes.read Path.graph).symm.trans (again.read Path.graph)
  exact Except.ok.inj read

end Unsupported

/-- The measures of a tree that was read. There are as many nodes as places that can be reached through
operands, the reading comes to these places in the order in which the tree lists its nodes, the depth is
the length of a longest way down to a leaf, and the references are the reference leaves in their order.
Where a mapping has a type without evaluation there is a leaf, and nothing below it can be reached. -/
theorem Node.measures_of_read {d : Json} {path : Path} {root : Node}
    (parsed : Node.read d path = .ok root) :
    (root.count = root.preorder.length ∧
      {steps | ∃ value, d.Reaches steps value}.ncard = root.count) ∧
    ((∀ (e : Json) (place : Path), (Node.visit e place).outcome = Node.read e place) ∧
      ∃ visits, Node.visit d path = ⟨visits, .ok root⟩ ∧ (visits.map Prod.fst).Nodup ∧
        (∀ steps value, (path.along steps, value) ∈ visits ↔ d.Reaches steps value) ∧
        visits.map (fun visit => Node.read visit.2 visit.1) = root.preorder.map .ok) ∧
    (IsGreatest {length | ∃ chain, root.Chain chain ∧ chain.length = length} root.depth ∧
      1 ≤ root.depth ∧ root.depth ≤ root.count) ∧
    root.references.map Node.reference = root.preorder.filter (fun node => node.tag?.isSome) ∧
    ∀ (steps : List Step) (fields : Json.Fields) (tag : Text),
      d.Reaches steps (.obj fields) → fields.lookup Json.typeKey = some (.str tag) →
      (∀ op : Operator, op.tag = tag → op.supported = false) →
      root.at? steps = some (.unsupported tag fields) ∧
        ∀ inner value, d.Reaches (steps ++ inner) value → inner = [] := by
  have writes : d.Writes root := Node.read_eq_ok_iff.mp parsed
  have longest :
      root.depth ∈ upperBounds {length | ∃ chain, root.Chain chain ∧ chain.length = length} := by
    rintro _ ⟨chain, down, rfl⟩
    exact down.length_le
  refine ⟨⟨root.length_preorder.symm, writes.ncard_reached⟩,
    ⟨Node.outcome_visit, writes.visits path⟩,
    ⟨⟨root.exists_chain, longest⟩, root.depth_pos, root.depth_le_count⟩, root.map_references, ?_⟩
  intro steps fields tag reach type foreign
  constructor
  · obtain ⟨node, present, written⟩ := writes.of_reaches reach
    rw [present, written.unsupported_of_foreign type foreign]
  · intro inner value below
    obtain ⟨middle, above, further⟩ := below.split
    cases reach.at?.symm.trans above.at?
    exact further.of_foreign type foreign

/-- Six places: the reference to 9 is inside a statement, where it is a field and no operand. -/
theorem Node.measures_with_statement :
    let leaf (tag : Int) : Json := .obj [("type", .str "value"), ("tag", .int tag)]
    let statement : Json.Fields := [("type", .str "set"), ("node", leaf 9), ("value", leaf 3)]
    let d : Json := .obj [("type", .str "add"), ("a", leaf 3), ("b", .obj statement),
      ("others", .arr [leaf 3, .obj [("type", .str "sin"), ("v", leaf 5)]])]
    let root : Node := .variadic .add (.reference 3) (.unsupported "set" statement)
      [.reference 3, .unary .sin (.reference 5)]
    Node.read d Path.graph = .ok root ∧ root.count = 6 ∧ root.preorder.length = 6 ∧
      {steps | ∃ value, d.Reaches steps value}.ncard = 6 ∧ root.depth = 3 ∧
      root.references = [3, 3, 5] ∧
      ∀ inner value, d.Reaches (.field .b :: inner) value → inner = [] := by
  intro leaf statement d root
  have parsed : Node.read d Path.graph = .ok root := rfl
  have foreign : ∀ op : Operator, op.tag = ("set" : Text) → op.supported = false := by
    intro op named
    have same : op = .statement .set := Operator.tag_injective (Text.coe_inj.mp named)
    rw [same]
    rfl
  have operand : d.Operand (.field .b) (.obj statement) :=
    @Json.Operand.child _ (.variadic .add) .b _ rfl (by decide) rfl
  obtain ⟨⟨size, places⟩, _, _, _, closed⟩ := Node.measures_of_read parsed
  obtain ⟨_, leaves⟩ := closed [.field .b] statement "set" (.down operand .here) rfl foreign
  exact ⟨parsed, rfl, size.symm, places, rfl, rfl, leaves⟩

end TickGraph
