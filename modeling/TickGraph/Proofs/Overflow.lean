import TickGraph.Evaluation
import TickGraph.Proofs.Footprint

namespace TickGraph

section Cut

variable {α : Type} {bad : α → Bool} {front back : List α} {x : α}

/-- A list up to the first bad element, with that element. If there is none it is the whole list. -/
def cutAfter (bad : α → Bool) (xs : List α) : List α :=
  xs.take (xs.findIdx bad + 1)

/-- A list has no bad elements, or there is a first one. -/
theorem clean_or_first (bad : α → Bool) (xs : List α) :
    (∀ x ∈ xs, bad x = false) ∨
      ∃ front x back, xs = front ++ x :: back ∧ (∀ y ∈ front, bad y = false) ∧ bad x = true := by
  cases found : xs.find? bad with
  | none =>
    left
    simpa using found
  | some x =>
    obtain ⟨isBad, front, back, split, clean⟩ := List.find?_eq_some_iff_append.mp found
    exact Or.inr ⟨front, x, back, split, by simpa using clean, isBad⟩

theorem cutAfter_of_clean {xs : List α} (clean : ∀ x ∈ xs, bad x = false) :
    cutAfter bad xs = xs := by
  refine List.take_of_length_le ?_
  rw [List.findIdx_eq_length_of_false clean]
  exact Nat.le_succ _

theorem cutAfter_of_first (clean : ∀ y ∈ front, bad y = false) (isBad : bad x = true) :
    cutAfter bad (front ++ x :: back) = front ++ [x] := by
  have index : (front ++ x :: back).findIdx bad = front.length := by
    rw [List.findIdx_append, List.findIdx_eq_length_of_false clean]
    simp [List.findIdx_cons, isBad]
  rw [cutAfter, index, List.take_append, List.take_of_length_le (Nat.le_succ _)]
  simp

theorem cutAfter_congr {other : α → Bool} {xs : List α} (agree : ∀ x ∈ xs, bad x = other x) :
    cutAfter bad xs = cutAfter other xs := by
  rcases clean_or_first other xs with clean | ⟨front, x, back, rfl, clean, isBad⟩
  · rw [cutAfter_of_clean clean,
      cutAfter_of_clean fun x member => (agree x member).trans (clean x member)]
  · have before : ∀ y ∈ front, bad y = false := fun y member =>
      (agree y (List.mem_append_left _ member)).trans (clean y member)
    have here : bad x = true :=
      (agree x (List.mem_append_right _ (List.mem_cons_self ..))).trans isBad
    rw [cutAfter_of_first clean isBad, cutAfter_of_first before here]

/-- It makes no difference whether a list is filtered before it is cut or afterwards, if the bad
elements are kept. -/
theorem filter_cutAfter {keep : α → Bool} (kept : ∀ x, bad x = true → keep x = true) (xs : List α) :
    (cutAfter bad xs).filter keep = cutAfter bad (xs.filter keep) := by
  rcases clean_or_first bad xs with clean | ⟨front, x, back, rfl, clean, isBad⟩
  · rw [cutAfter_of_clean clean,
      cutAfter_of_clean fun x member => clean x (List.mem_of_mem_filter member)]
  · rw [cutAfter_of_first clean isBad, List.filter_append, List.filter_append,
      List.filter_cons_of_pos (kept x isBad), List.filter_cons_of_pos (kept x isBad),
      cutAfter_of_first (fun y member => clean y (List.mem_of_mem_filter member)) isBad]
    rfl

theorem any_cutAfter (xs : List α) : (cutAfter bad xs).any bad = xs.any bad := by
  rcases clean_or_first bad xs with clean | ⟨front, x, back, rfl, clean, isBad⟩
  · rw [cutAfter_of_clean clean]
  · rw [cutAfter_of_first clean isBad]
    simp [isBad]

end Cut

/-- Whether a number is an integer that no double can hold. -/
def Number.overflows : Number → Bool
  | .int n => decide (Number.doubleLimit ≤ n.natAbs)
  | .float _ => false

variable {H : Type}

/-- The number that a leaf reads now, if there is one. -/
def ReferenceMode.number? (mode : ReferenceMode) (before now : World H) (tag : Int) :
    Option Number :=
  (mode.handle? before now tag).bind now.read

/-- Whether a leaf reads a number now that no double can hold. -/
def ReferenceMode.overflows (mode : ReferenceMode) (before now : World H) (tag : Int) : Bool :=
  (mode.number? before now tag).any Number.overflows

theorem ReferenceMode.overflows_iff {mode : ReferenceMode} {before now : World H} {tag : Int} :
    mode.overflows before now tag = true ↔
      ∃ handle n, mode.handle? before now tag = some handle ∧ now.read handle = some (.int n) ∧
        Number.doubleLimit ≤ n.natAbs := by
  unfold ReferenceMode.overflows ReferenceMode.number?
  cases mode.handle? before now tag with
  | none => simp
  | some handle =>
    cases found : now.read handle with
    | none => simp [found]
    | some number => cases number <;> simp [found, Number.overflows]

theorem ReferenceMode.isSome_of_overflows {mode : ReferenceMode} {before now : World H} {tag : Int}
    (exceeds : mode.overflows before now tag = true) :
    (mode.handle? before now tag).isSome = true := by
  obtain ⟨handle, _, found, _⟩ := ReferenceMode.overflows_iff.mp exceeds
  rw [found]
  rfl

theorem ReferenceMode.leaf_eq (mode : ReferenceMode) (before now : World H) (tag : Int) :
    mode.leaf before now tag = (mode.number? before now tag).elim 0 Number.double := by
  unfold ReferenceMode.leaf ReferenceMode.number? World.value
  cases mode.handle? before now tag with
  | none => rfl
  | some handle => cases found : now.read handle <;> simp [found]

theorem Number.toDouble_eq (number : Number) :
    number.toDouble =
      if number.overflows then .error .outOfRange else .ok number.double := by
  cases number with
  | float x => rfl
  | int n =>
    by_cases fits : n.natAbs < Number.doubleLimit
    · simp [Number.overflows, Number.toDouble, Number.double, fits]
    · simp [Number.overflows, Number.toDouble, fits, Nat.le_of_not_lt fits]

theorem ReferenceMode.scalar_eq (mode : ReferenceMode) (before now : World H) (tag : Int) :
    mode.scalar before now tag =
      if mode.overflows before now tag then .error .outOfRange
      else .ok (mode.leaf before now tag) := by
  rw [mode.leaf_eq]
  unfold ReferenceMode.scalar ReferenceMode.overflows ReferenceMode.number?
  cases mode.handle? before now tag with
  | none => rfl
  | some handle =>
    cases found : now.read handle with
    | none => simp [found, Number.scalar]
    | some number => simp [found, Number.scalar, Number.toDouble_eq]

theorem ReferenceMode.probe_leafCode (mode : ReferenceMode) (before now : World H) (tag : Int) :
    (mode.leafCode before tag).probe now =
      ⟨mode.leafEvents before now tag,
        if mode.overflows before now tag then .error .outOfRange else .ok ()⟩ := by
  rw [Code.probe_of_run (ReferenceMode.run_leafCode ..), ReferenceMode.scalar_eq]
  split <;> rfl

section Calls

variable {config : Config} {before : World H} {source : Source} {expression : Compiled H}
  (success : (compile config before source).outcome = .ok expression)

include success

/-- A call consults the live leaves up to the first that overflows, and fails if there is one. What
the leaves that overflow would give does not matter, nor do the leaves that would be live then. -/
theorem Compiled.call_cut {now : World H} {leaf : Int → Float}
    (agree : ∀ tag ∈ expression.root.live leaf, config.mode.overflows before now tag = false →
      leaf tag = config.mode.leaf before now tag) :
    expression.call now =
      ⟨(cutAfter (config.mode.overflows before now) (expression.root.live leaf)).flatMap
          (config.mode.leafEvents before now),
        if (expression.root.live leaf).any (config.mode.overflows before now) then
          .error .outOfRange
        else .ok (expression.root.meaning leaf)⟩ := by
  have run : expression.call now = (do
      forM (expression.root.live leaf) fun tag => (config.mode.leafCode before tag).probe now
      pure (expression.root.meaning leaf)) := by
    rw [Compiled.call, code_of_compile success]
    refine Code.run_lower expression.root ?_
    intro tag live x gives
    rw [ReferenceMode.run_leafCode, ReferenceMode.scalar_eq] at gives
    split at gives
    · cases gives
    · rename_i fits
      rw [agree tag live (by simpa using fits)]
      exact (Except.ok.inj gives).symm
  have probes := config.mode.probe_leafCode before now
  rw [run]
  rcases clean_or_first (config.mode.overflows before now) (expression.root.live leaf) with
    clean | ⟨front, tag, back, split, clean, exceeds⟩
  · have good : ∀ tag ∈ expression.root.live leaf,
        ((config.mode.leafCode before tag).probe now).outcome = .ok () := by
      intro tag live
      simp [probes, clean tag live]
    have none : (expression.root.live leaf).any (config.mode.overflows before now) = false := by
      simpa using clean
    rw [Traced.forM_of_ok good, cutAfter_of_clean clean, none]
    simp [probes, Traced.pure_eq]
  · have good : ∀ tag ∈ front,
        ((config.mode.leafCode before tag).probe now).outcome = .ok () := by
      intro tag member
      simp [probes, clean tag member]
    have failed : ((config.mode.leafCode before tag).probe now).outcome = .error .outOfRange := by
      simp [probes, exceeds]
    rw [split, Traced.forM_of_error good failed, cutAfter_of_first clean exceeds]
    simp [probes, exceeds, Traced.bind_of_error]

theorem Compiled.lookups_call_cut {now : World H} {leaf : Int → Float}
    (agree : ∀ tag ∈ expression.root.live leaf, config.mode.overflows before now tag = false →
      leaf tag = config.mode.leaf before now tag) :
    (expression.call now).lookups =
      if config.mode = .tick ∧ now.lookup.isSome then
        cutAfter (config.mode.overflows before now) (expression.root.live leaf)
      else [] := by
  cases mode : config.mode with
  | compile => exact Compiled.lookups_call_eq_nil success mode now
  | tick =>
    rw [Compiled.call_cut success agree, Traced.lookups, List.filterMap_flatMap, mode]
    cases lookup : now.lookup with
    | none =>
      have silent : ∀ tag, ReferenceMode.tick.leafEvents before now tag = [] := by
        intro tag
        simp [ReferenceMode.leafEvents, ReferenceMode.findEvents, World.findEvents,
          ReferenceMode.handle?, World.handle?, lookup]
      simp [silent]
    | some find =>
      have each : ∀ tag, (ReferenceMode.tick.leafEvents before now tag).filterMap Event.lookup? =
          [tag] := fun tag => ReferenceMode.lookups_leafEvents _ _ (by simp [lookup]) tag
      simp only [each, List.flatMap_singleton', Option.isSome_some, and_self, if_true]

theorem Compiled.reads_call_cut {now : World H} {leaf : Int → Float}
    (agree : ∀ tag ∈ expression.root.live leaf, config.mode.overflows before now tag = false →
      leaf tag = config.mode.leaf before now tag) :
    (expression.call now).reads =
      cutAfter (config.mode.overflows before now) ((expression.root.live leaf).filter fun tag =>
        (config.mode.handle? before now tag).isSome) := by
  rw [Compiled.call_cut success agree, Traced.reads, List.filterMap_flatMap,
    ← filter_cutAfter fun _ => ReferenceMode.isSome_of_overflows]
  simp only [ReferenceMode.reads_leafEvents]
  exact flatMap_ite_singleton _ _

/-- A call fails if one of the values that it reads overflows, and for no other reason. -/
theorem Compiled.call_error_iff {now : World H} :
    (∃ error, (expression.call now).outcome = .error error) ↔
      ∃ tag ∈ (expression.call now).reads, config.mode.overflows before now tag = true := by
  let leaf := config.mode.leaf before now
  let exceeds := config.mode.overflows before now
  have call := @Compiled.call_cut _ _ _ _ _ success now leaf fun _ _ _ => rfl
  have among : (expression.call now).reads.any exceeds =
      (expression.root.live leaf).any exceeds := by
    have reads := @Compiled.reads_call_cut _ _ _ _ _ success now leaf fun _ _ _ => rfl
    have kept : (fun tag => (config.mode.handle? before now tag).isSome && exceeds tag) =
        exceeds := by
      funext tag
      cases bad : exceeds tag with
      | false => exact Bool.and_false _
      | true => rw [ReferenceMode.isSome_of_overflows bad, Bool.true_and]
    rw [reads, any_cutAfter, List.any_filter, kept]
  rw [← List.any_eq_true, among, call]
  split
  · rename_i fails
    exact ⟨fun _ => fails, fun _ => ⟨_, rfl⟩⟩
  · rename_i fits
    constructor
    · rintro ⟨_, failed⟩
      cases failed
    · exact fun fails => absurd fails fits

end Calls

section Handles

variable {leaf other : Int → Code H}

theorem Node.lowers_congr {nodes : List Node}
    (each : ∀ node ∈ nodes, node.lower other = node.lower leaf) :
    Node.lowers other nodes = Node.lowers leaf nodes := by
  induction nodes with
  | nil => rfl
  | cons node rest ih =>
    rw [Node.lowers, Node.lowers, each node (List.mem_cons_self ..),
      ih fun further later => each further (List.mem_cons_of_mem _ later)]

/-- The code of a tree depends on the codes of its references only. -/
theorem Node.lower_congr {node : Node} (agree : ∀ tag ∈ node.references, other tag = leaf tag) :
    node.lower other = node.lower leaf := by
  induction node with
  | number x => rfl
  | reference tag => exact agree tag (List.mem_singleton_self tag)
  | variadic op a b others iha ihb ihs =>
    simp only [Node.references_variadic, List.mem_append, List.mem_flatMap] at agree
    have first := iha fun tag member => agree tag (Or.inl member)
    have second := ihb fun tag member => agree tag (Or.inr (Or.inl member))
    have further := Node.lowers_congr fun node member => ihs node member fun tag inside =>
      agree tag (Or.inr (Or.inr ⟨node, member, inside⟩))
    rw [Node.lower, Node.lower, first, second, further]
  | unary op v ih => rw [Node.lower, Node.lower, ih agree]
  | comparison op left right ihl ihr =>
    simp only [Node.references_comparison, List.mem_append] at agree
    rw [Node.lower, Node.lower, ihl fun tag member => agree tag (Or.inl member),
      ihr fun tag member => agree tag (Or.inr member)]
  | conditional expr ifNode elseNode ihe ihi ihs =>
    simp only [Node.references_conditional, List.mem_append] at agree
    rw [Node.lower, Node.lower, ihe fun tag member => agree tag (Or.inl member),
      ihi fun tag member => agree tag (Or.inr (Or.inl member)),
      ihs fun tag member => agree tag (Or.inr (Or.inr member))]
  | unsupported tag raw => rfl

/-- Of the outside in which a leaf is compiled its code takes nothing but what is captured. -/
theorem ReferenceMode.leafCode_congr {mode : ReferenceMode} {before earlier : World H} {tag : Int}
    (captured : mode = .compile → earlier.handle? tag = before.handle? tag) :
    mode.leafCode earlier tag = mode.leafCode before tag := by
  cases mode with
  | tick => rfl
  | compile => simp only [ReferenceMode.leafCode, captured rfl]

/-- Expressions of the same tree that captured the same handles have the same code. -/
theorem Compiled.code_congr {config : Config} {before earlier : World H} {source origin : Source}
    {expression other : Compiled H}
    (success : (compile config before source).outcome = .ok expression)
    (again : (compile config earlier origin).outcome = .ok other)
    (same : other.root = expression.root)
    (captured : config.mode = .compile → ∀ tag ∈ expression.root.references,
      earlier.handle? tag = before.handle? tag) : other.code = expression.code := by
  rw [code_of_compile success, code_of_compile again, same]
  refine Node.lower_congr fun tag member => ?_
  exact ReferenceMode.leafCode_congr fun once => captured once tag member

end Handles

/-- A series of evaluations answers each of its tables alone. The answer to a table depends on the
tree and on the handles that the first table gave. -/
theorem Recording.exists_answer {config : Config} {root : Node} (admitted : config.Admits root)
    (handles : Int → Option Int) :
    ∃ answer : List (Int × Option Number) → Traced OutOfRange Float, ∀ source first later,
      source.root = .ok root →
      (config.mode = .compile → ∀ tag ∈ root.references,
        (World.ofEntries first).handle? tag = handles tag) →
      (Recording.make config source first later).ticks = (first :: later).map answer := by
  let before : World Int := ⟨some fun tag => (handles tag).elim .missing .handle, fun _ => none⟩
  have given : ∀ tag, before.handle? tag = handles tag := by
    intro tag
    change ((handles tag).elim Entry.missing Entry.handle).handle? = handles tag
    cases handles tag <;> rfl
  let code := root.lower (config.mode.leafCode before)
  refine ⟨fun table => code.run (World.ofEntries table), fun source first later read captured => ?_⟩
  have leaves : ∀ tag ∈ root.references,
      config.mode.leafCode (World.ofEntries first) tag = config.mode.leafCode before tag :=
    fun tag member => ReferenceMode.leafCode_congr fun once =>
      (captured once tag member).trans (given tag).symm
  have compiled := @compile_of_admits _ config (World.ofEntries first) _ _ read admitted
  unfold Recording.make
  simp only [compiled, Compiled.call, Node.lower_congr leaves]
  rfl

/-- A call fails exactly if a value that it reads is an integer outside the range of doubles.
Whatever number such a value is taken for, the call consults what lies on the way of the meaning up
to the first such value and nothing after it; without one on that way it gives the meaning, whatever
stands in other branches. The answer depends on the tree, the configuration, the captured handles
and the present values alone, so in a series of evaluations every table has its answer, whichever
tables come before or after it and whether or not these fail. -/
theorem Compiled.call_overflow {config : Config} {before : World H} {source : Source}
    {expression : Compiled H} (success : (compile config before source).outcome = .ok expression) :
    (∀ (now : World H) (leaf : Int → Float),
      let exceeds := config.mode.overflows before now
      let live := expression.root.live leaf
      (∀ tag ∈ live, exceeds tag = false → leaf tag = config.mode.leaf before now tag) →
      (expression.call now).outcome =
        (if live.any exceeds then .error .outOfRange else .ok (expression.root.meaning leaf)) ∧
      (expression.call now).lookups =
        (if config.mode = .tick ∧ now.lookup.isSome then cutAfter exceeds live else []) ∧
      (expression.call now).reads =
        cutAfter exceeds (live.filter fun tag => (config.mode.handle? before now tag).isSome)) ∧
    (∀ now : World H, (∃ error, (expression.call now).outcome = .error error) ↔
      ∃ tag ∈ (expression.call now).reads, ∃ handle n,
        config.mode.handle? before now tag = some handle ∧ now.read handle = some (.int n) ∧
          Number.doubleLimit ≤ n.natAbs) ∧
    (∀ (earlier : World H) (origin : Source) (other : Compiled H),
      (compile config earlier origin).outcome = .ok other → other.root = expression.root →
      (config.mode = .compile → ∀ tag ∈ expression.root.references,
        earlier.handle? tag = before.handle? tag) →
      ∀ now again : World H, again.lookup.isSome = now.lookup.isSome →
        (∀ tag ∈ expression.root.references,
          config.mode.found before again tag = config.mode.found before now tag) →
        (other.call again).outcome = (expression.call now).outcome ∧
          (other.call again).accesses = (expression.call now).accesses) ∧
    ∀ handles : Int → Option Int,
      ∃ answer : List (Int × Option Number) → Traced OutOfRange Float, ∀ origin first later,
        origin.root = .ok expression.root →
        (config.mode = .compile → ∀ tag ∈ expression.root.references,
          (World.ofEntries first).handle? tag = handles tag) →
        (Recording.make config origin first later).ticks = (first :: later).map answer := by
  obtain ⟨_, admitted⟩ := admits_of_compile success
  refine ⟨?_, ?_, ?_, Recording.exists_answer admitted⟩
  · intro now leaf exceeds live agree
    have call := Compiled.call_cut success agree
    exact ⟨congrArg Traced.outcome call, Compiled.lookups_call_cut success agree,
      Compiled.reads_call_cut success agree⟩
  · intro now
    simp only [Compiled.call_error_iff success, ReferenceMode.overflows_iff]
  · intro earlier origin other compiled same captured now again kind agree
    have code : other.call again = expression.call again := by
      rw [Compiled.call, Compiled.call, Compiled.code_congr success compiled same captured]
    have alike := Compiled.call_alike success kind fun tag consults =>
      agree tag ((expression.root.live_sublist _).subset
        (Compiled.live_of_consults success consults))
    rw [code]
    exact ⟨alike.outcome, alike.accesses⟩

/-- The values under tags 3 and 4 have no doubles, and the first of them is read. In the other table
the value under tag 5 has none, but that branch is not selected. -/
theorem Compiled.call_overflow_second_operand :
    let root : Node := .conditional (.reference 1)
      (.variadic .add (.reference 2) (.reference 3) [.reference 4, .reference 2]) (.reference 5)
    let large : Number := .int (-Int.ofNat Number.doubleLimit)
    let first : List (Int × Option Number) :=
      [(1, some (.float 2)), (2, none), (3, some (.int 4)), (4, none), (5, some large)]
    let failing : List (Int × Option Number) :=
      [(1, some (.int (-1))), (3, some large), (4, some large), (5, none)]
    ∃ expression,
      (compile Config.standard (World.ofEntries first) (.tree root)).outcome = .ok expression ∧
      (expression.call (World.ofEntries failing)).outcome = .error .outOfRange ∧
      (expression.call (World.ofEntries failing)).reads = [1, 2, 3] ∧
      (expression.call (World.ofEntries first)).outcome = .ok 4 ∧
      ∃ answer, ∀ later, (Recording.make Config.standard (.tree root) first later).ticks =
        (first :: later).map answer := by
  intro root large first failing
  let before := World.ofEntries first
  have read : (Source.tree root).root = .ok root := rfl
  have admitted : Config.standard.Admits root := fun strict => by cases strict
  have success := congrArg Traced.outcome (@compile_of_admits _ _ before _ _ read admitted)
  obtain ⟨calls, _, _, series⟩ := Compiled.call_overflow success
  obtain ⟨failed, _, reads⟩ := calls (World.ofEntries failing)
    (ReferenceMode.compile.leaf before (World.ofEntries failing)) fun _ _ _ => rfl
  obtain ⟨done, _⟩ := calls before (ReferenceMode.compile.leaf before before) fun _ _ _ => rfl
  obtain ⟨answer, answers⟩ := series before.handle?
  refine ⟨_, success, failed.trans ?_, reads.trans ?_, done.trans ?_, answer, ?_⟩
  · decide +kernel
  · decide +kernel
  · decide +kernel
  · exact fun later => answers (.tree root) first later read fun _ _ _ => rfl

end TickGraph
