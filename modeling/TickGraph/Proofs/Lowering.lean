import TickGraph.Proofs.Meaning

namespace TickGraph

mutual

/-- All nodes of a tree in pre-order, each with its place. -/
def Node.located : Node → Path → List (Path × Node)
  | .number x, path => [(path, .number x)]
  | .reference tag, path => [(path, .reference tag)]
  | .variadic op a b others, path =>
    (path, .variadic op a b others) :: (a.located (path.field .a) ++
      (b.located (path.field .b) ++ Node.locatedFrom others 0 path))
  | .unary op v, path => (path, .unary op v) :: v.located (path.field .v)
  | .comparison op left right, path =>
    (path, .comparison op left right) :: (left.located (path.field .left) ++
      right.located (path.field .right))
  | .conditional expr ifNode elseNode, path =>
    (path, .conditional expr ifNode elseNode) :: (expr.located (path.field .expr) ++
      (ifNode.located (path.field .ifNode) ++ elseNode.located (path.field .elseNode)))
  | .unsupported tag raw, path => [(path, .unsupported tag raw)]

def Node.locatedFrom : List Node → Nat → Path → List (Path × Node)
  | [], _, _ => []
  | node :: rest, i, path => node.located (path.other i) ++ Node.locatedFrom rest (i + 1) path

end

theorem Node.map_locatedFrom {nodes : List Node}
    (each : ∀ node ∈ nodes, ∀ path, (node.located path).map Prod.snd = node.preorder) (i : Nat)
    (path : Path) :
    (Node.locatedFrom nodes i path).map Prod.snd = nodes.flatMap Node.preorder := by
  induction nodes generalizing i with
  | nil => rfl
  | cons node rest ih =>
    rw [Node.locatedFrom, List.map_append, each node (List.mem_cons_self ..),
      ih (fun other later => each other (List.mem_cons_of_mem _ later)), List.flatMap_cons]

theorem Node.map_located (node : Node) (path : Path) :
    (node.located path).map Prod.snd = node.preorder := by
  induction node generalizing path with
  | number x => rfl
  | reference tag => rfl
  | variadic op a b others iha ihb ihs =>
    simp only [Node.located, Node.preorder, List.map_cons, List.map_append, iha, ihb,
      Node.map_locatedFrom ihs, Node.preorders_eq_flatMap]
  | unary op v ih => simp only [Node.located, Node.preorder, List.map_cons, ih]
  | comparison op left right ihl ihr =>
    simp only [Node.located, Node.preorder, List.map_cons, List.map_append, ihl, ihr]
  | conditional expr ifNode elseNode ihe ihi ihs =>
    simp only [Node.located, Node.preorder, List.map_cons, List.map_append, ihe, ihi, ihs]
  | unsupported tag raw => rfl

variable {H : Type}

/-- The code of a reference leaf that is compiled now. -/
def ReferenceMode.leafCode (mode : ReferenceMode) (world : World H) (tag : Int) : Code H :=
  match mode with
  | .tick => .deferred tag
  | .compile =>
    match world.handle? tag with
    | none => .constant 0
    | some handle => .captured tag handle

mutual

/-- The code of a tree whose reference leaves have the given codes. -/
def Node.lower (leaf : Int → Code H) : Node → Code H
  | .number x => .constant x
  | .reference tag => leaf tag
  | .variadic op a b others => .variadic op (a.lower leaf) (b.lower leaf) (Node.lowers leaf others)
  | .unary op v => .unary op (v.lower leaf)
  | .comparison op left right => .comparison op (left.lower leaf) (right.lower leaf)
  | .conditional expr ifNode elseNode =>
    .conditional (expr.lower leaf) (ifNode.lower leaf) (elseNode.lower leaf)
  | .unsupported _ _ => .constant 0

def Node.lowers (leaf : Int → Code H) : List Node → List (Code H)
  | [] => []
  | node :: rest => node.lower leaf :: Node.lowers leaf rest

end

/-- What compiling does at one node: it looks a reference up, and reports what becomes zero. -/
def Code.visit (config : Config) (world : World H) (place : Path × Node) :
    Traced UnsupportedOperator Unit :=
  match place.2 with
  | .reference tag =>
    match config.mode with
    | .tick => pure ()
    | .compile => do
      match ← world.find tag with
      | some _ => pure ()
      | none => Traced.emit (.notice (.unresolved place.1 tag))
  | .unsupported tag _ =>
    if config.strict then Traced.ofExcept (.error ⟨place.1, tag⟩)
    else Traced.emit (.notice (.unsupported place.1 tag))
  | _ => pure ()

/-- What a lookup consults and reports. -/
def World.findEvents (world : World H) (tag : Int) : List Event :=
  match world.lookup with
  | none => []
  | some lookup =>
    match lookup tag with
    | .valueless => [.lookup tag, .notice (.valueless tag)]
    | _ => [.lookup tag]

theorem World.find_eq {ε : Type} (world : World H) (tag : Int) :
    (world.find tag : Traced ε (Option H)) = ⟨world.findEvents tag, .ok (world.handle? tag)⟩ := by
  unfold World.find World.findEvents World.handle?
  cases world.lookup with
  | none => rfl
  | some lookup => cases found : lookup tag <;> simp [found, Entry.handle?]

theorem Code.ofNode_reference (config : Config) (world : World H) (tag : Int) (path : Path) :
    Code.ofNode config world (.reference tag) path = (do
      Code.visit config world (path, .reference tag)
      pure (config.mode.leafCode world tag)) := by
  unfold Code.ofNode Code.visit ReferenceMode.leafCode
  cases config.mode with
  | tick => rfl
  | compile =>
    simp only [World.find_eq, bind_assoc]
    cases world.handle? tag <;> rfl

theorem Code.ofNodes_eq {config : Config} {world : World H} {nodes : List Node}
    (each : ∀ node ∈ nodes, ∀ path, Code.ofNode config world node path = (do
      forM (node.located path) (Code.visit config world)
      pure (node.lower (config.mode.leafCode world)))) (i : Nat) (path : Path) :
    Code.ofNodes config world nodes i path = (do
      forM (Node.locatedFrom nodes i path) (Code.visit config world)
      pure (Node.lowers (config.mode.leafCode world) nodes)) := by
  induction nodes generalizing i with
  | nil => rfl
  | cons node rest ih =>
    simp only [Code.ofNodes, Node.locatedFrom, Node.lowers, each node (List.mem_cons_self ..),
      ih (fun other later => each other (List.mem_cons_of_mem _ later)), List.forM_append,
      bind_assoc, pure_bind]

/-- Compiling visits every node in pre-order, and gives the code that the leaves determine. -/
theorem Code.ofNode_eq (config : Config) (world : World H) (node : Node) (path : Path) :
    Code.ofNode config world node path = (do
      forM (node.located path) (Code.visit config world)
      pure (node.lower (config.mode.leafCode world))) := by
  induction node generalizing path with
  | number x => rfl
  | reference tag =>
    rw [Code.ofNode_reference]
    simp only [Node.located, Node.lower, List.forM_cons, List.forM_nil, bind_assoc, pure_bind]
  | variadic op a b others iha ihb ihs =>
    simp only [Code.ofNode, Node.located, Node.lower, iha, ihb, Code.ofNodes_eq ihs,
      List.forM_cons, List.forM_append, bind_assoc, pure_bind, Code.visit]
  | unary op v ih =>
    simp only [Code.ofNode, Node.located, Node.lower, ih, List.forM_cons, bind_assoc, pure_bind,
      Code.visit]
  | comparison op left right ihl ihr =>
    simp only [Code.ofNode, Node.located, Node.lower, ihl, ihr, List.forM_cons, List.forM_append,
      bind_assoc, pure_bind, Code.visit]
  | conditional expr ifNode elseNode ihe ihi ihs =>
    simp only [Code.ofNode, Node.located, Node.lower, ihe, ihi, ihs, List.forM_cons,
      List.forM_append, bind_assoc, pure_bind, Code.visit]
  | unsupported tag raw =>
    unfold Code.ofNode
    simp only [Node.located, Node.lower, List.forM_cons, List.forM_nil, Code.visit]
    split
    · rfl
    · simp only [bind_assoc, pure_bind]

section Walks

variable {ε α : Type} {f : α → Traced ε Unit} {xs : List α}

/-- A walk without failures has the events of its visits, one after the other. -/
theorem Traced.forM_of_ok (each : ∀ x ∈ xs, (f x).outcome = .ok ()) :
    forM xs f = ⟨xs.flatMap fun x => (f x).events, .ok ()⟩ := by
  induction xs with
  | nil => rfl
  | cons x rest ih =>
    rw [List.forM_cons, Traced.bind_of_ok _ (each x (List.mem_cons_self ..)),
      ih fun y later => each y (List.mem_cons_of_mem _ later), List.flatMap_cons]

/-- A walk ends at the first visit that fails. -/
theorem Traced.forM_of_error {before after : List α} {x : α} {error : ε}
    (good : ∀ y ∈ before, (f y).outcome = .ok ()) (failed : (f x).outcome = .error error) :
    forM (before ++ x :: after) f =
      ⟨(before.flatMap fun y => (f y).events) ++ (f x).events, .error error⟩ := by
  rw [List.forM_append, Traced.forM_of_ok good, Traced.ok_bind, List.forM_cons,
    Traced.bind_of_error _ failed]

theorem Traced.outcome_of_forM (success : (forM xs f).outcome = .ok ()) :
    ∀ x ∈ xs, (f x).outcome = .ok () := by
  induction xs with
  | nil => intro x member; cases member
  | cons x rest ih =>
    rw [List.forM_cons] at success
    cases first : (f x).outcome with
    | error e =>
      rw [Traced.bind_of_error _ first] at success
      cases success
    | ok u =>
      rw [Traced.bind_of_ok _ first] at success
      intro y member
      rcases List.mem_cons.mp member with same | later
      · subst y; exact first
      · exact ih success y later

theorem Traced.mem_bind {β : Type} {event : Event} {run : Traced ε α} {next : α → Traced ε β}
    (member : event ∈ (run >>= next).events) :
    event ∈ run.events ∨ ∃ a, run.outcome = .ok a ∧ event ∈ (next a).events := by
  cases first : run.outcome with
  | error e =>
    rw [Traced.bind_of_error _ first] at member
    exact Or.inl member
  | ok a =>
    rw [Traced.bind_of_ok _ first] at member
    rcases List.mem_append.mp member with here | later
    · exact Or.inl here
    · exact Or.inr ⟨a, rfl, later⟩

/-- Also a walk that fails has no events but those of its visits. -/
theorem Traced.mem_forM {event : Event} (member : event ∈ (forM xs f).events) :
    ∃ x ∈ xs, event ∈ (f x).events := by
  induction xs with
  | nil => cases member
  | cons x rest ih =>
    rw [List.forM_cons] at member
    rcases Traced.mem_bind member with here | ⟨_, _, later⟩
    · exact ⟨x, List.mem_cons_self .., here⟩
    · obtain ⟨y, found, inside⟩ := ih later
      exact ⟨y, List.mem_cons_of_mem _ found, inside⟩

end Walks

/-- A configuration takes every tree, but a strict one none that has an unsupported node. -/
def Config.Admits (config : Config) (root : Node) : Prop :=
  config.strict = true → ∀ tag raw, Node.unsupported tag raw ∉ root.preorder

theorem Code.visit_outcome_iff (config : Config) (world : World H) (path : Path) (node : Node) :
    (Code.visit config world (path, node)).outcome = .ok () ↔
      (config.strict = true → ∀ tag raw, Node.unsupported tag raw ≠ node) := by
  unfold Code.visit
  cases node with
  | reference tag =>
    cases config.mode with
    | tick => simp [Pure.pure, Traced.ofExcept]
    | compile =>
      simp only [World.find_eq]
      cases world.handle? tag <;> simp [Bind.bind, Traced.bind, Pure.pure, Traced.ofExcept, Traced.emit]
  | unsupported tag raw => cases config.strict <;> simp [Traced.ofExcept, Traced.emit]
  | number x => simp [Pure.pure, Traced.ofExcept]
  | variadic op a b others => simp [Pure.pure, Traced.ofExcept]
  | unary op v => simp [Pure.pure, Traced.ofExcept]
  | comparison op left right => simp [Pure.pure, Traced.ofExcept]
  | conditional expr ifNode elseNode => simp [Pure.pure, Traced.ofExcept]

theorem Config.admits_iff_visits (config : Config) (world : World H) (root : Node) (path : Path) :
    config.Admits root ↔
      ∀ place ∈ root.located path, (Code.visit config world place).outcome = .ok () := by
  unfold Config.Admits
  rw [← Node.map_located root path]
  constructor
  · intro admitted place member
    obtain ⟨at_, node⟩ := place
    rw [Code.visit_outcome_iff]
    intro strict tag raw same
    subst node
    exact admitted strict tag raw (List.mem_map_of_mem member)
  · intro visits strict tag raw member
    obtain ⟨⟨at_, node⟩, found, same⟩ := List.mem_map.mp member
    exact (Code.visit_outcome_iff config world at_ node).mp (visits _ found) strict tag raw same.symm

theorem compile_of_fault {config : Config} {world : World H} {source : Source}
    {fault : MalformedGraph} (unread : source.root = .error fault) :
    compile config world source = ⟨[], .error (.malformed fault)⟩ := by
  unfold compile
  rw [unread]
  rfl

theorem compile_of_read {config : Config} {world : World H} {source : Source} {root : Node}
    (read : source.root = .ok root) :
    compile config world source = (do
      let code ← (Code.ofNode config world root Path.graph).mapError CompileError.unsupported
      Traced.emit (.notice (.compiled root))
      pure ⟨root, code⟩) := by
  unfold compile
  rw [read]
  rfl

theorem compile_of_walk_error {config : Config} {world : World H} {source : Source} {root : Node}
    {error : UnsupportedOperator} (read : source.root = .ok root)
    (walk : (forM (root.located Path.graph) (Code.visit config world)).outcome = .error error) :
    compile config world source =
      ⟨(forM (root.located Path.graph) (Code.visit config world)).events,
        .error (.unsupported error)⟩ := by
  rw [compile_of_read read, Code.ofNode_eq, Traced.bind_of_error _ walk]
  rfl

/-- The events of a walk over a whole tree. -/
def Config.walkEvents (config : Config) (world : World H) (root : Node) (path : Path) :
    List Event :=
  (root.located path).flatMap fun place => (Code.visit config world place).events

theorem Code.ofNode_of_admits {config : Config} {world : World H} {node : Node} (path : Path)
    (admitted : config.Admits node) :
    Code.ofNode config world node path =
      ⟨config.walkEvents world node path, .ok (node.lower (config.mode.leafCode world))⟩ := by
  have visits := (config.admits_iff_visits world node path).mp admitted
  rw [Code.ofNode_eq, Traced.forM_of_ok visits, Traced.bind_of_ok _ rfl]
  exact congrArg (fun events => Traced.mk events _) (List.append_nil _)

/-- A tree that is admitted compiles. Its code depends on what stands under the tags it refers to
and on nothing else of the outside. -/
theorem compile_of_admits {config : Config} {world : World H} {source : Source} {root : Node}
    (read : source.root = .ok root) (admitted : config.Admits root) :
    compile config world source =
      ⟨config.walkEvents world root Path.graph ++ [.notice (.compiled root)],
        .ok ⟨root, root.lower (config.mode.leafCode world)⟩⟩ := by
  rw [compile_of_read read, Code.ofNode_of_admits _ admitted]
  rfl

/-- What compiles was read and admitted. -/
theorem admits_of_compile {config : Config} {world : World H} {source : Source}
    {expression : Compiled H} (success : (compile config world source).outcome = .ok expression) :
    source.root = .ok expression.root ∧ config.Admits expression.root := by
  cases read : source.root with
  | error fault =>
    rw [compile_of_fault read] at success
    cases success
  | ok root =>
    have admitted : config.Admits root := by
      rw [config.admits_iff_visits world root Path.graph]
      apply Traced.outcome_of_forM
      cases walk : (forM (root.located Path.graph) (Code.visit config world)).outcome with
      | ok u => rfl
      | error error =>
        rw [compile_of_walk_error read walk] at success
        cases success
    rw [compile_of_admits read admitted] at success
    cases success
    exact ⟨rfl, admitted⟩

theorem code_of_compile {config : Config} {world : World H} {source : Source}
    {expression : Compiled H} (success : (compile config world source).outcome = .ok expression) :
    expression.code = expression.root.lower (config.mode.leafCode world) := by
  obtain ⟨read, admitted⟩ := admits_of_compile success
  rw [compile_of_admits read admitted] at success
  rw [← Except.ok.inj success]

end TickGraph
