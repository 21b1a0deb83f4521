import Mathlib.Data.List.Basic
import Mathlib.Data.List.Flatten
import TickGraph.Compiled

namespace TickGraph

/-- Induction over trees, with one hypothesis for each of the further operands. -/
@[induction_eliminator]
theorem Node.induction {motive : Node → Prop} (number : ∀ x, motive (.number x))
    (reference : ∀ tag, motive (.reference tag))
    (variadic : ∀ op a b others, motive a → motive b → (∀ other ∈ others, motive other) →
      motive (.variadic op a b others))
    (unary : ∀ op v, motive v → motive (.unary op v))
    (comparison : ∀ op left right, motive left → motive right →
      motive (.comparison op left right))
    (conditional : ∀ expr ifNode elseNode, motive expr → motive ifNode → motive elseNode →
      motive (.conditional expr ifNode elseNode))
    (unsupported : ∀ tag raw, motive (.unsupported tag raw)) (node : Node) : motive node := by
  refine @Node.rec motive (fun nodes => ∀ node ∈ nodes, motive node)
    number reference variadic unary comparison conditional unsupported ?_ ?_ node
  · intro other member
    cases member
  · intro head tail atHead atTail other member
    rcases List.mem_cons.mp member with same | later
    · subst other; exact atHead
    · exact atTail other later

section References

variable (op : VariadicOp) (a b : Node) (others : List Node)

@[simp] theorem Node.references_number (x : Float) : (Node.number x).references = [] := rfl

@[simp] theorem Node.references_reference (tag : Int) :
    (Node.reference tag).references = [tag] := rfl

@[simp] theorem Node.references_variadic :
    (Node.variadic op a b others).references =
      a.references ++ (b.references ++ others.flatMap Node.references) := by
  simp only [Node.references, Node.preorder, Node.preorders_eq_flatMap,
    List.filterMap_cons, Node.tag?, List.filterMap_append, List.filterMap_flatMap]
  rfl

@[simp] theorem Node.references_unary (op : UnaryOp) (v : Node) :
    (Node.unary op v).references = v.references := rfl

@[simp] theorem Node.references_comparison (op : ComparisonOp) :
    (Node.comparison op a b).references = a.references ++ b.references := by
  simp only [Node.references, Node.preorder, List.filterMap_cons, Node.tag?, List.filterMap_append]

@[simp] theorem Node.references_conditional (expr : Node) :
    (Node.conditional expr a b).references =
      expr.references ++ (a.references ++ b.references) := by
  simp only [Node.references, Node.preorder, List.filterMap_cons, Node.tag?, List.filterMap_append]

@[simp] theorem Node.references_unsupported (tag : Text) (raw : Json.Fields) :
    (Node.unsupported tag raw).references = [] := rfl

end References

mutual

/-- The number that a tree stands for when every reference leaf has one. The operands of a variadic
operator are folded from the left, a comparison is one or zero, and a condition fails if it is a
zero of either sign. -/
def Node.meaning (leaf : Int → Float) : Node → Float
  | .number x => x
  | .reference tag => leaf tag
  | .variadic op a b others =>
    (Node.meanings leaf others).foldl op.apply (op.apply (a.meaning leaf) (b.meaning leaf))
  | .unary op v => op.apply (v.meaning leaf)
  | .comparison op left right => if op.holds (left.meaning leaf) (right.meaning leaf) then 1 else 0
  | .conditional expr ifNode elseNode =>
    if expr.meaning leaf == 0 then elseNode.meaning leaf else ifNode.meaning leaf
  | .unsupported _ _ => 0

def Node.meanings (leaf : Int → Float) : List Node → List Float
  | [] => []
  | node :: rest => node.meaning leaf :: Node.meanings leaf rest

end

mutual

/-- The reference leaves from left to right, without those in branches that are not selected. -/
def Node.live (leaf : Int → Float) : Node → List Int
  | .number _ => []
  | .reference tag => [tag]
  | .variadic _ a b others => a.live leaf ++ (b.live leaf ++ Node.lives leaf others)
  | .unary _ v => v.live leaf
  | .comparison _ left right => left.live leaf ++ right.live leaf
  | .conditional expr ifNode elseNode =>
    expr.live leaf ++
      (if expr.meaning leaf == 0 then elseNode.live leaf else ifNode.live leaf)
  | .unsupported _ _ => []

def Node.lives (leaf : Int → Float) : List Node → List Int
  | [] => []
  | node :: rest => node.live leaf ++ Node.lives leaf rest

end

theorem Node.meanings_eq_map (leaf : Int → Float) (nodes : List Node) :
    Node.meanings leaf nodes = nodes.map (Node.meaning leaf) := by
  induction nodes with
  | nil => rfl
  | cons node rest ih => rw [Node.meanings, ih, List.map_cons]

theorem Node.lives_eq_flatMap (leaf : Int → Float) (nodes : List Node) :
    Node.lives leaf nodes = nodes.flatMap (Node.live leaf) := by
  induction nodes with
  | nil => rfl
  | cons node rest ih => rw [Node.lives, ih, List.flatMap_cons]

/-- Leaving branches out deletes leaves, and does nothing else to their order. -/
theorem Node.live_sublist (leaf : Int → Float) (node : Node) :
    (node.live leaf).Sublist node.references := by
  induction node with
  | number x => exact .slnil
  | reference tag => exact .refl _
  | variadic op a b others iha ihb ihs =>
    rw [Node.live, Node.lives_eq_flatMap, Node.references_variadic]
    exact iha.append (ihb.append (List.Sublist.flatMap_right others ihs))
  | unary op v ih => exact ih
  | comparison op left right ihl ihr =>
    rw [Node.live, Node.references_comparison]
    exact ihl.append ihr
  | conditional expr ifNode elseNode ihe ihi ihs =>
    rw [Node.live, Node.references_conditional]
    refine ihe.append ?_
    split
    · exact ihs.trans (List.sublist_append_right _ _)
    · exact ihi.trans (List.sublist_append_left _ _)
  | unsupported tag raw => exact .slnil

theorem Node.meanings_congr {leaf other : Int → Float} {nodes : List Node}
    (each : ∀ node ∈ nodes, (∀ tag ∈ node.live leaf, other tag = leaf tag) →
      node.meaning other = node.meaning leaf ∧ node.live other = node.live leaf)
    (agree : ∀ tag ∈ Node.lives leaf nodes, other tag = leaf tag) :
    Node.meanings other nodes = Node.meanings leaf nodes ∧
      Node.lives other nodes = Node.lives leaf nodes := by
  have operands : ∀ node ∈ nodes,
      node.meaning other = node.meaning leaf ∧ node.live other = node.live leaf := by
    intro node member
    refine each node member ?_
    intro tag live
    rw [Node.lives_eq_flatMap] at agree
    exact agree tag (List.mem_flatMap.mpr ⟨node, member, live⟩)
  constructor
  · rw [Node.meanings_eq_map, Node.meanings_eq_map]
    exact List.map_congr_left fun node member => (operands node member).1
  · rw [Node.lives_eq_flatMap, Node.lives_eq_flatMap]
    exact List.flatMap_congr fun node member => (operands node member).2

/-- Leaves that are not live do not matter, neither for the meaning nor for what is live. -/
theorem Node.meaning_congr {leaf other : Int → Float} (node : Node)
    (agree : ∀ tag ∈ node.live leaf, other tag = leaf tag) :
    node.meaning other = node.meaning leaf ∧ node.live other = node.live leaf := by
  induction node with
  | number x => exact ⟨rfl, rfl⟩
  | reference tag => exact ⟨agree tag (List.mem_singleton_self tag), rfl⟩
  | variadic op a b others iha ihb ihs =>
    rw [Node.live] at agree
    obtain ⟨first, firstLive⟩ := iha fun tag live => agree tag (List.mem_append_left _ live)
    obtain ⟨second, secondLive⟩ := ihb fun tag live =>
      agree tag (List.mem_append_right _ (List.mem_append_left _ live))
    obtain ⟨further, furtherLive⟩ := Node.meanings_congr ihs fun tag live =>
      agree tag (List.mem_append_right _ (List.mem_append_right _ live))
    simp only [Node.meaning, Node.live, first, firstLive, second, secondLive, further,
      furtherLive, and_self]
  | unary op v ih =>
    obtain ⟨value, live⟩ := ih agree
    exact ⟨by rw [Node.meaning, value, Node.meaning], live⟩
  | comparison op left right ihl ihr =>
    rw [Node.live] at agree
    obtain ⟨first, firstLive⟩ := ihl fun tag live => agree tag (List.mem_append_left _ live)
    obtain ⟨second, secondLive⟩ := ihr fun tag live => agree tag (List.mem_append_right _ live)
    simp only [Node.meaning, Node.live, first, firstLive, second, secondLive, and_self]
  | conditional expr ifNode elseNode ihe ihi ihs =>
    rw [Node.live] at agree
    obtain ⟨test, testLive⟩ := ihe fun tag live => agree tag (List.mem_append_left _ live)
    -- The condition has the same value on both sides, so the same branch is selected.
    by_cases zero : (expr.meaning leaf == 0) = true
    · rw [if_pos zero] at agree
      obtain ⟨branch, branchLive⟩ := ihs fun tag live => agree tag (List.mem_append_right _ live)
      simp only [Node.meaning, Node.live, test, testLive, zero, if_true, branch, branchLive,
        and_self]
    · rw [if_neg zero] at agree
      obtain ⟨branch, branchLive⟩ := ihi fun tag live => agree tag (List.mem_append_right _ live)
      simp only [Node.meaning, Node.live, test, testLive, zero, Bool.false_eq_true, if_false,
        branch, branchLive, and_self]
  | unsupported tag raw => exact ⟨rfl, rfl⟩

/-- The double that a number counts as. -/
def Number.double : Number → Float
  | .int n => Float.ofInt n
  | .float x => x

theorem Number.double_of_toDouble {number : Number} {x : Float} (fits : number.toDouble = .ok x) :
    x = number.double := by
  cases number with
  | float y => exact (Except.ok.inj fits).symm
  | int n =>
    by_cases below : n.natAbs < Number.doubleLimit
    · rw [Number.toDouble, if_pos below] at fits
      exact (Except.ok.inj fits).symm
    · rw [Number.toDouble, if_neg below] at fits
      simp at fits

/-- The handle that a lookup gives, if it gives one. -/
def Entry.handle? {H : Type} : Entry H → Option H
  | .missing => none
  | .valueless => none
  | .handle h => some h

variable {H : Type}

/-- The handle under a tag. Nodes that produce no value have none, and where there is no lookup no
tag has one. -/
def World.handle? (world : World H) (tag : Int) : Option H :=
  world.lookup.bind fun lookup => (lookup tag).handle?

/-- The present value behind a handle. An absent value counts as zero. -/
def World.value (world : World H) (handle : H) : Float :=
  match world.read handle with
  | none => 0
  | some number => number.double

/-- The value behind a handle is absent or has a double. -/
def World.Convertible (world : World H) (handle : H) : Prop :=
  ∀ number, world.read handle = some number → ∃ x, number.toDouble = .ok x

theorem World.scalar_of_convertible {world : World H} {handle : H}
    (fits : world.Convertible handle) :
    Number.scalar (world.read handle) = .ok (world.value handle) := by
  unfold World.value
  cases found : world.read handle with
  | none => rfl
  | some number =>
    obtain ⟨x, converted⟩ := fits number found
    rw [Number.scalar, converted, Number.double_of_toDouble converted]

/-- Where every number of a table has a double, all that the table gives can be converted. -/
theorem World.convertible_ofEntries {entries : List (Int × Option Number)}
    (fits : ∀ entry ∈ entries, ∀ number, entry.2 = some number → ∃ x, number.toDouble = .ok x)
    (handle : Int) : (World.ofEntries entries).Convertible handle := by
  intro number found
  have present : entries.reverse.lookup handle = some (some number) := by
    simpa only [World.ofEntries, World.ofTable, Option.join_eq_some_iff] using found
  obtain ⟨front, back, split, _⟩ := List.lookup_eq_some_iff.mp present
  have member : (handle, some number) ∈ entries := by
    rw [← List.mem_reverse, split]
    exact List.mem_append_right _ (List.mem_cons_self ..)
  exact fits _ member number rfl

/-- The handle that a leaf reads in a call that is made now. In compile mode it is the one that was
under its tag before, while the expression was compiled. -/
def ReferenceMode.handle? (mode : ReferenceMode) (before now : World H) (tag : Int) : Option H :=
  match mode with
  | .compile => before.handle? tag
  | .tick => now.handle? tag

/-- The number of a leaf in a call that is made now: zero if there is nothing to read. -/
def ReferenceMode.leaf (mode : ReferenceMode) (before now : World H) (tag : Int) : Float :=
  match mode.handle? before now tag with
  | none => 0
  | some handle => now.value handle

end TickGraph
