import TickGraph.Proofs.Lowering

namespace TickGraph

variable {H : Type}

/-- The lookup that a call makes for one leaf: none in compile mode. -/
def ReferenceMode.findEvents (mode : ReferenceMode) (now : World H) (tag : Int) : List Event :=
  match mode with
  | .compile => []
  | .tick => now.findEvents tag

/-- What a call that is made now consults for one leaf. -/
def ReferenceMode.leafEvents (mode : ReferenceMode) (before now : World H) (tag : Int) :
    List Event :=
  mode.findEvents now tag ++ (mode.handle? before now tag).toList.map fun _ => .read tag

/-- What a leaf gives in a call that is made now: zero if there is nothing to read, and an error if
what it reads has no double. -/
def ReferenceMode.scalar (mode : ReferenceMode) (before now : World H) (tag : Int) :
    Except OutOfRange Float :=
  match mode.handle? before now tag with
  | none => .ok 0
  | some handle => Number.scalar (now.read handle)

theorem ReferenceMode.run_leafCode (mode : ReferenceMode) (before now : World H) (tag : Int) :
    (mode.leafCode before tag).run now =
      ⟨mode.leafEvents before now tag, mode.scalar before now tag⟩ := by
  unfold ReferenceMode.leafCode ReferenceMode.leafEvents ReferenceMode.scalar
  cases mode with
  | compile =>
    simp only [ReferenceMode.handle?]
    cases before.handle? tag <;> rfl
  | tick =>
    simp only [ReferenceMode.handle?, Code.run, World.resolveScalar, World.find_eq, Traced.ok_bind]
    cases now.handle? tag <;> rfl

theorem World.eq_value_of_scalar {world : World H} {handle : H} {x : Float}
    (fits : Number.scalar (world.read handle) = .ok x) : x = world.value handle := by
  unfold World.value
  cases found : world.read handle with
  | none =>
    rw [found] at fits
    exact (Except.ok.inj fits).symm
  | some number =>
    rw [found] at fits
    exact Number.double_of_toDouble fits

/-- A leaf that gives a number gives its own. -/
theorem ReferenceMode.eq_leaf_of_scalar {mode : ReferenceMode} {before now : World H} {tag : Int}
    {x : Float} (gives : mode.scalar before now tag = .ok x) : x = mode.leaf before now tag := by
  unfold ReferenceMode.scalar at gives
  unfold ReferenceMode.leaf
  cases found : mode.handle? before now tag with
  | none =>
    rw [found] at gives
    exact (Except.ok.inj gives).symm
  | some handle =>
    rw [found] at gives
    exact World.eq_value_of_scalar gives

theorem ReferenceMode.scalar_of_convertible {mode : ReferenceMode} {before now : World H}
    {tag : Int}
    (fits : ∀ handle, mode.handle? before now tag = some handle → now.Convertible handle) :
    mode.scalar before now tag = .ok (mode.leaf before now tag) := by
  unfold ReferenceMode.scalar ReferenceMode.leaf
  cases found : mode.handle? before now tag with
  | none => rfl
  | some handle => exact World.scalar_of_convertible (fits handle found)

theorem ReferenceMode.mem_leafEvents {mode : ReferenceMode} {before now : World H} {tag : Int}
    {event : Event} (member : event ∈ mode.leafEvents before now tag) :
    event ∈ mode.findEvents now tag ∨ event = .read tag := by
  rcases List.mem_append.mp member with finding | reading
  · exact Or.inl finding
  · obtain ⟨handle, _, same⟩ := List.mem_map.mp reading
    exact Or.inr same.symm

variable {leaf : Int → Float} {code : Int → Code H} {now : World H}

/-- Runs code for what it consults and for whether it fails. -/
def Code.probe (now : World H) (code : Code H) : Traced OutOfRange Unit := do
  let _ ← code.run now
  pure ()

theorem Code.probe_of_run {one : Code H} {events : List Event} {outcome : Except OutOfRange Float}
    (run : one.run now = ⟨events, outcome⟩) :
    one.probe now = ⟨events, outcome.map fun _ => ()⟩ := by
  unfold Code.probe
  rw [run]
  cases outcome with
  | error error => rfl
  | ok x => exact congrArg (fun all => Traced.mk all (Except.ok ())) (List.append_nil events)

theorem Code.run_eq_probe {one : Code H} {y : Float}
    (gives : ∀ x, (one.run now).outcome = .ok x → x = y) :
    one.run now = (do
      one.probe now
      pure y) := by
  cases outcome : (one.run now).outcome with
  | error error =>
    have failed : (one.probe now).outcome = .error error := by
      rw [Code.probe_of_run rfl, outcome]
      rfl
    rw [Traced.bind_of_error _ failed, Code.probe_of_run rfl, ← outcome]
  | ok x =>
    have done : (one.probe now).outcome = .ok () := by
      rw [Code.probe_of_run rfl, outcome]
      rfl
    rw [Traced.bind_of_ok _ done, Code.probe_of_run rfl, Traced.pure_eq, List.append_nil,
      ← gives x outcome, ← outcome]

theorem Code.runs_lowers {nodes : List Node}
    (each : ∀ node ∈ nodes, (∀ tag ∈ node.live leaf, ∀ x,
        ((code tag).run now).outcome = .ok x → x = leaf tag) →
      (node.lower code).run now = (do
        forM (node.live leaf) fun tag => (code tag).probe now
        pure (node.meaning leaf)))
    (leaves : ∀ tag ∈ Node.lives leaf nodes, ∀ x,
      ((code tag).run now).outcome = .ok x → x = leaf tag) :
    Code.runs now (Node.lowers code nodes) = (do
      forM (Node.lives leaf nodes) fun tag => (code tag).probe now
      pure (Node.meanings leaf nodes)) := by
  induction nodes with
  | nil => rfl
  | cons node rest ih =>
    rw [Node.lives] at leaves
    have first := each node (List.mem_cons_self ..) fun tag live =>
      leaves tag (List.mem_append_left _ live)
    have others := ih (fun other later => each other (List.mem_cons_of_mem _ later))
      fun tag live => leaves tag (List.mem_append_right _ live)
    simp only [Node.lowers, Code.runs, first, others, Node.lives, Node.meanings, List.forM_append,
      bind_assoc, pure_bind]

/-- Running the code of a tree is a walk over its live leaves, which ends at the first that fails.
If none does, the result is the meaning of the tree. -/
theorem Code.run_lower (node : Node)
    (leaves : ∀ tag ∈ node.live leaf, ∀ x, ((code tag).run now).outcome = .ok x → x = leaf tag) :
    (node.lower code).run now = (do
      forM (node.live leaf) fun tag => (code tag).probe now
      pure (node.meaning leaf)) := by
  induction node with
  | number x => rfl
  | reference tag =>
    have gives := leaves tag (List.mem_singleton_self tag)
    simp only [Node.lower, Node.live, Node.meaning, List.forM_cons, List.forM_nil, bind_assoc,
      pure_bind]
    exact Code.run_eq_probe gives
  | variadic op a b others iha ihb ihs =>
    rw [Node.live] at leaves
    have first := iha fun tag live => leaves tag (List.mem_append_left _ live)
    have second := ihb fun tag live =>
      leaves tag (List.mem_append_right _ (List.mem_append_left _ live))
    have further := Code.runs_lowers ihs fun tag live =>
      leaves tag (List.mem_append_right _ (List.mem_append_right _ live))
    simp only [Node.lower, Code.run, first, second, further, Node.live, Node.meaning,
      List.forM_append, bind_assoc, pure_bind, foldOperands]
  | unary op v ih =>
    simp only [Node.lower, Code.run, ih leaves, Node.live, Node.meaning, bind_assoc, pure_bind]
  | comparison op left right ihl ihr =>
    rw [Node.live] at leaves
    have first := ihl fun tag live => leaves tag (List.mem_append_left _ live)
    have second := ihr fun tag live => leaves tag (List.mem_append_right _ live)
    simp only [Node.lower, Code.run, first, second, Node.live, Node.meaning, List.forM_append,
      bind_assoc, pure_bind, Double.flag]
  | conditional expr ifNode elseNode ihe ihi ihs =>
    rw [Node.live] at leaves
    have test := ihe fun tag live => leaves tag (List.mem_append_left _ live)
    -- The leaves of one branch are known to be good, and that branch is the one that runs.
    by_cases zero : (expr.meaning leaf == 0) = true
    · rw [if_pos zero] at leaves
      have branch := ihs fun tag live => leaves tag (List.mem_append_right _ live)
      simp only [Node.lower, Code.run, test, bind_assoc, pure_bind, Double.truthy, bne, zero,
        Bool.not_true, Bool.false_eq_true, if_false, if_true, branch, Node.live, Node.meaning,
        List.forM_append]
    · rw [if_neg zero] at leaves
      have branch := ihi fun tag live => leaves tag (List.mem_append_right _ live)
      simp only [Node.lower, Code.run, test, bind_assoc, pure_bind, Double.truthy, bne, zero,
        Bool.not_false, if_false, if_true, Bool.false_eq_true, branch, Node.live, Node.meaning,
        List.forM_append]
  | unsupported tag raw => rfl

/-- A call of what was compiled visits the live leaves of its tree in order, up to the first whose
value has no double. -/
theorem Compiled.call_eq {config : Config} {before : World H} {source : Source}
    {expression : Compiled H} (success : (compile config before source).outcome = .ok expression)
    (now : World H) :
    expression.call now = (do
      forM (expression.root.live (config.mode.leaf before now)) fun tag =>
        (config.mode.leafCode before tag).probe now
      pure (expression.root.meaning (config.mode.leaf before now))) := by
  rw [Compiled.call, code_of_compile success]
  refine Code.run_lower expression.root ?_
  intro tag _ x gives
  rw [ReferenceMode.run_leafCode] at gives
  exact ReferenceMode.eq_leaf_of_scalar gives

/-- Whether or not a call succeeds, it consults nothing but for the live leaves of its tree. -/
theorem Compiled.mem_call_events {config : Config} {before now : World H} {source : Source}
    {expression : Compiled H} (success : (compile config before source).outcome = .ok expression)
    {event : Event} (member : event ∈ (expression.call now).events) :
    ∃ tag ∈ expression.root.live (config.mode.leaf before now),
      event ∈ config.mode.leafEvents before now tag := by
  rw [Compiled.call_eq success] at member
  rcases Traced.mem_bind member with walked | ⟨_, _, none⟩
  · obtain ⟨tag, live, consulted⟩ := Traced.mem_forM walked
    rw [Code.probe_of_run (ReferenceMode.run_leafCode ..)] at consulted
    exact ⟨tag, live, consulted⟩
  · cases none

theorem Compiled.call_of_compile {config : Config} {before now : World H} {source : Source}
    {expression : Compiled H} (success : (compile config before source).outcome = .ok expression)
    (fits : ∀ tag ∈ expression.root.live (config.mode.leaf before now), ∀ handle,
      config.mode.handle? before now tag = some handle → now.Convertible handle) :
    expression.call now =
      ⟨(expression.root.live (config.mode.leaf before now)).flatMap
        (config.mode.leafEvents before now),
        .ok (expression.root.meaning (config.mode.leaf before now))⟩ := by
  have probes : ∀ tag ∈ expression.root.live (config.mode.leaf before now),
      (config.mode.leafCode before tag).probe now =
        ⟨config.mode.leafEvents before now tag, .ok ()⟩ := by
    intro tag live
    have gives := ReferenceMode.scalar_of_convertible (fits tag live)
    rw [Code.probe_of_run (ReferenceMode.run_leafCode ..), gives]
    rfl
  rw [Compiled.call_eq success,
    Traced.forM_of_ok fun tag live => congrArg Traced.outcome (probes tag live),
    List.flatMap_congr fun tag live => congrArg Traced.events (probes tag live), Traced.ok_bind,
    Traced.pure_eq, List.append_nil]

/-- Every tree that the configuration admits compiles, and from then on a call at any time gives the
meaning of the tree at that time. The outside may have changed in every way since, as long as the
values that can be read now have doubles. -/
theorem compile_call_meaning {config : Config} {before : World H} {source : Source} {root : Node}
    (read : source.root = .ok root) (admitted : config.Admits root) :
    ∃ expression, (compile config before source).outcome = .ok expression ∧
      expression.root = root ∧
      ∀ now : World H,
        (∀ tag ∈ root.references, ∀ handle, config.mode.handle? before now tag = some handle →
          now.Convertible handle) →
        (expression.call now).outcome = .ok (root.meaning (config.mode.leaf before now)) := by
  have success := congrArg Traced.outcome (@compile_of_admits _ _ before _ _ read admitted)
  refine ⟨_, success, rfl, ?_⟩
  intro now fits
  rw [Compiled.call_of_compile success]
  intro tag live handle found
  exact fits tag ((root.live_sublist _).subset live) handle found

/-- Tag 3 has no node while the expression is compiled, so its later value does not count. -/
theorem compile_call_meaning_late_node :
    let root : Node := .conditional (.reference 1)
      (.variadic .sub (.reference 1) (.number 2) [.reference 2, .reference 3])
      (.unsupported "set" [])
    let before := World.ofEntries [(1, some (.float 5)), (2, none)]
    let now := World.ofEntries [(1, some (.float 7)), (2, none), (3, some (.float 9))]
    ∃ expression, (compile Config.standard before (.tree root)).outcome = .ok expression ∧
      (expression.call now).outcome = .ok 5 := by
  intro root before now
  have read : (Source.tree root).root = .ok root := rfl
  have admitted : Config.standard.Admits root := fun strict => by cases strict
  obtain ⟨expression, success, _, calls⟩ := @compile_call_meaning _ _ before _ _ read admitted
  refine ⟨expression, success, ?_⟩
  have fits : ∀ tag ∈ root.references, ∀ handle,
      Config.standard.mode.handle? before now tag = some handle → now.Convertible handle := by
    intro tag _ handle _
    exact World.convertible_ofEntries (by simp [Number.toDouble]) handle
  have value : root.meaning (Config.standard.mode.leaf before now) = 5 := by decide +kernel
  rw [calls now fits, value]

end TickGraph
