import TickGraph.Proofs.AccessTrace

namespace TickGraph

/-- Lookups and reads are accesses, notices are not. -/
def Event.isAccess : Event → Bool
  | .notice _ => false
  | _ => true

namespace Traced

variable {ε α β : Type}

/-- The lookups and reads of a run, in the order in which they were made. -/
def accesses (run : Traced ε α) : List Event :=
  run.events.filter Event.isAccess

/-- Whether a run looks a tag up or reads what was found under it. -/
def Consults (run : Traced ε α) (tag : Int) : Prop :=
  tag ∈ run.lookups ∨ tag ∈ run.reads

/-- Two runs end alike and consult the same in the same order. They may report different things. -/
structure Alike (run other : Traced ε α) : Prop where
  outcome : other.outcome = run.outcome
  accesses : other.accesses = run.accesses

theorem Alike.refl (run : Traced ε α) : run.Alike run :=
  ⟨rfl, rfl⟩

/-- Two sequences are alike if their first runs are and then their second ones. What each part does
in the first sequence lies within what all of it does. -/
theorem Alike.bind {run other : Traced ε α} {next last : α → Traced ε β} {seen : List Event}
    (within : (run >>= next).events ⊆ seen) (first : run.events ⊆ seen → run.Alike other)
    (second : ∀ a, (next a).events ⊆ seen → (next a).Alike (last a)) :
    (run >>= next).Alike (other >>= last) := by
  cases outcome : run.outcome with
  | error e =>
    rw [Traced.bind_of_error _ outcome] at within ⊢
    obtain ⟨same, accesses⟩ := first within
    rw [Traced.bind_of_error _ (same.trans outcome)]
    exact ⟨rfl, accesses⟩
  | ok a =>
    rw [Traced.bind_of_ok _ outcome] at within ⊢
    obtain ⟨here, there⟩ := List.append_subset.mp within
    obtain ⟨same, accesses⟩ := first here
    obtain ⟨sameNext, accessesNext⟩ := second a there
    rw [Traced.bind_of_ok _ (same.trans outcome)]
    refine ⟨sameNext, ?_⟩
    unfold Traced.accesses at accesses accessesNext ⊢
    rw [List.filter_append, List.filter_append, accesses, accessesNext]

theorem consults_of_mem_accesses {run : Traced ε α} {tag : Int}
    (member : Event.lookup tag ∈ run.events ∨ Event.read tag ∈ run.events) : run.Consults tag := by
  rcases member with looked | read
  · exact Or.inl (List.mem_filterMap.mpr ⟨_, looked, rfl⟩)
  · exact Or.inr (List.mem_filterMap.mpr ⟨_, read, rfl⟩)

theorem Consults.mem_events {run : Traced ε α} {tag : Int} (consults : run.Consults tag) :
    Event.lookup tag ∈ run.events ∨ Event.read tag ∈ run.events := by
  rcases consults with looked | read
  · obtain ⟨event, member, same⟩ := List.mem_filterMap.mp looked
    cases event with
    | lookup other => cases same; exact Or.inl member
    | _ => cases same
  · obtain ⟨event, member, same⟩ := List.mem_filterMap.mp read
    cases event with
    | read other => cases same; exact Or.inr member
    | _ => cases same

end Traced

variable {H : Type}

section Trees

variable {code : Int → Code H} {now other : World H} {seen : List Event}

theorem Code.runs_lowers_alike {nodes : List Node}
    (each : ∀ node ∈ nodes, ((node.lower code).run now).events ⊆ seen →
      ((node.lower code).run now).Alike ((node.lower code).run other))
    (within : (Code.runs now (Node.lowers code nodes)).events ⊆ seen) :
    (Code.runs now (Node.lowers code nodes)).Alike (Code.runs other (Node.lowers code nodes)) := by
  induction nodes with
  | nil => exact .refl _
  | cons node rest ih =>
    have tail := ih fun later member => each later (List.mem_cons_of_mem _ member)
    rw [Node.lowers, Code.runs] at within ⊢
    rw [Code.runs]
    refine .bind within (each node (List.mem_cons_self ..)) ?_
    intro x deeper
    exact .bind deeper tail fun _ _ => .refl _

/-- The two runs of a tree stay in step, leaf by leaf: a leaf that the first run visits is alike in
both, so both go on with the same number and select the same branches. -/
theorem Code.run_lower_alike
    (leaves : ∀ tag, ((code tag).run now).events ⊆ seen →
      ((code tag).run now).Alike ((code tag).run other))
    (node : Node) (within : ((node.lower code).run now).events ⊆ seen) :
    ((node.lower code).run now).Alike ((node.lower code).run other) := by
  induction node with
  | number x => exact .refl _
  | reference tag => exact leaves tag within
  | variadic op a b others iha ihb ihs =>
    rw [Node.lower, Code.run] at within ⊢
    rw [Code.run]
    refine .bind within iha ?_
    intro x afterFirst
    refine .bind afterFirst ihb ?_
    intro y afterSecond
    exact .bind afterSecond (Code.runs_lowers_alike ihs) fun _ _ => .refl _
  | unary op v ih =>
    rw [Node.lower, Code.run] at within ⊢
    rw [Code.run]
    exact .bind within ih fun _ _ => .refl _
  | comparison op left right ihl ihr =>
    rw [Node.lower, Code.run] at within ⊢
    rw [Code.run]
    refine .bind within ihl ?_
    intro x afterFirst
    exact .bind afterFirst ihr fun _ _ => .refl _
  | conditional expr ifNode elseNode ihe ihi ihs =>
    rw [Node.lower, Code.run] at within ⊢
    rw [Code.run]
    refine .bind within ihe ?_
    intro x afterTest
    by_cases selected : Double.truthy x = true
    · rw [if_pos selected] at afterTest ⊢
      rw [if_pos selected]
      exact ihi afterTest
    · rw [if_neg selected] at afterTest ⊢
      rw [if_neg selected]
      exact ihs afterTest
  | unsupported tag raw => exact .refl _

end Trees

/-- What a leaf finds in a call that is made now: no handle, or one with its present value, which may
be absent. -/
def ReferenceMode.found (mode : ReferenceMode) (before now : World H) (tag : Int) :
    Option (Option Number) :=
  (mode.handle? before now tag).map now.read

theorem ReferenceMode.scalar_eq_found (mode : ReferenceMode) (before now : World H) (tag : Int) :
    mode.scalar before now tag = (mode.found before now tag).elim (.ok 0) Number.scalar := by
  unfold ReferenceMode.scalar ReferenceMode.found
  cases mode.handle? before now tag <;> rfl

theorem World.accesses_findEvents (world : World H) (tag : Int) :
    (world.findEvents tag).filter Event.isAccess =
      if world.lookup.isSome then [.lookup tag] else [] := by
  unfold World.findEvents
  cases world.lookup with
  | none => rfl
  | some lookup => cases found : lookup tag <;> simp only [found] <;> rfl

theorem ReferenceMode.accesses_leafEvents (mode : ReferenceMode) (before now : World H)
    (tag : Int) :
    (mode.leafEvents before now tag).filter Event.isAccess =
      (if mode = .tick ∧ now.lookup.isSome then [.lookup tag] else []) ++
        if (mode.found before now tag).isSome then [.read tag] else [] := by
  have reading : ∀ handle : Option H,
      (handle.toList.map fun _ => Event.read tag).filter Event.isAccess =
        if (handle.map now.read).isSome then [.read tag] else [] := by
    intro handle
    cases handle <;> rfl
  rw [ReferenceMode.leafEvents, List.filter_append, reading, ReferenceMode.found]
  cases mode with
  | compile => rfl
  | tick => rw [ReferenceMode.findEvents, World.accesses_findEvents]; simp

theorem ReferenceMode.consulted_of_mem {mode : ReferenceMode} {before now : World H}
    {tag other : Int}
    (member : Event.lookup other ∈ mode.leafEvents before now tag ∨
      Event.read other ∈ mode.leafEvents before now tag) : other = tag := by
  have access : ∀ event ∈ mode.leafEvents before now tag, event.isAccess = true →
      event = .lookup tag ∨ event = .read tag := by
    intro event inside isAccess
    have kept := List.mem_filter.mpr ⟨inside, isAccess⟩
    rw [ReferenceMode.accesses_leafEvents] at kept
    rcases List.mem_append.mp kept with looked | read
    · split at looked
      · exact Or.inl (List.mem_singleton.mp looked)
      · cases looked
    · split at read
      · exact Or.inr (List.mem_singleton.mp read)
      · cases read
  rcases member with looked | read
  · rcases access _ looked rfl with same | same <;> cases same
    rfl
  · rcases access _ read rfl with same | same <;> cases same
    rfl

/-- A leaf that consults nothing finds nothing, and it would find nothing in another state of the
outside either. -/
theorem ReferenceMode.found_of_silent {mode : ReferenceMode} {before now other : World H}
    {tag : Int} (kind : other.lookup.isSome = now.lookup.isSome)
    (silent : (mode.leafEvents before now tag).filter Event.isAccess = []) :
    mode.found before other tag = mode.found before now tag := by
  rw [ReferenceMode.accesses_leafEvents] at silent
  obtain ⟨unlooked, unread⟩ := List.append_eq_nil_iff.mp silent
  have nothing : mode.found before now tag = none := by
    cases found : mode.found before now tag with
    | none => rfl
    | some value => simp [found] at unread
  rw [nothing]
  cases mode with
  | compile =>
    have absent : before.handle? tag = none := Option.map_eq_none_iff.mp nothing
    simp only [ReferenceMode.found, ReferenceMode.handle?, absent, Option.map_none]
  | tick =>
    have without : now.lookup.isSome = false := by
      cases present : now.lookup.isSome with
      | false => rfl
      | true => simp [present] at unlooked
    have elsewhere : other.lookup = none := Option.isNone_iff_eq_none.mp (by
      rw [← Option.not_isSome, kind, without]
      rfl)
    simp only [ReferenceMode.found, ReferenceMode.handle?, World.handle?, elsewhere,
      Option.bind_none, Option.map_none]

theorem ReferenceMode.run_leafCode_alike {mode : ReferenceMode} {before now other : World H}
    {tag : Int} (kind : other.lookup.isSome = now.lookup.isSome)
    (same : mode.found before other tag = mode.found before now tag) :
    ((mode.leafCode before tag).run now).Alike ((mode.leafCode before tag).run other) := by
  rw [ReferenceMode.run_leafCode, ReferenceMode.run_leafCode]
  constructor
  · rw [ReferenceMode.scalar_eq_found, ReferenceMode.scalar_eq_found, same]
  · simp only [Traced.accesses, ReferenceMode.accesses_leafEvents, same, kind]

section Calls

variable {config : Config} {before : World H} {source : Source} {expression : Compiled H}
  (success : (compile config before source).outcome = .ok expression)

include success

/-- Two calls are alike if their leaves find the same wherever the first call consults one. -/
theorem Compiled.call_alike {now other : World H} (kind : other.lookup.isSome = now.lookup.isSome)
    (agree : ∀ tag, (expression.call now).Consults tag →
      config.mode.found before other tag = config.mode.found before now tag) :
    (expression.call now).Alike (expression.call other) := by
  rw [Compiled.call, code_of_compile success] at agree ⊢
  rw [Compiled.call, code_of_compile success]
  refine Code.run_lower_alike ?_ expression.root (List.Subset.refl _)
  intro tag within
  refine ReferenceMode.run_leafCode_alike kind ?_
  rw [ReferenceMode.run_leafCode] at within
  cases accesses : (config.mode.leafEvents before now tag).filter Event.isAccess with
  | nil => exact ReferenceMode.found_of_silent kind accesses
  | cons event rest =>
    have first : event ∈ (config.mode.leafEvents before now tag).filter Event.isAccess := by
      rw [accesses]
      exact List.mem_cons_self ..
    obtain ⟨inside, isAccess⟩ := List.mem_filter.mp first
    apply agree
    apply Traced.consults_of_mem_accesses
    cases event with
    | notice n => cases isAccess
    | lookup t =>
      rw [← ReferenceMode.consulted_of_mem (Or.inl inside)]
      exact Or.inl (within inside)
    | read t =>
      rw [← ReferenceMode.consulted_of_mem (Or.inr inside)]
      exact Or.inr (within inside)

/-- A call consults only live leaves, also if it fails. -/
theorem Compiled.live_of_consults {now : World H} {tag : Int}
    (consults : (expression.call now).Consults tag) :
    tag ∈ expression.root.live (config.mode.leaf before now) := by
  have consulted : ∃ leaf ∈ expression.root.live (config.mode.leaf before now),
      Event.lookup tag ∈ config.mode.leafEvents before now leaf ∨
        Event.read tag ∈ config.mode.leafEvents before now leaf := by
    rcases consults.mem_events with looked | read
    · obtain ⟨leaf, live, inside⟩ := Compiled.mem_call_events success looked
      exact ⟨leaf, live, Or.inl inside⟩
    · obtain ⟨leaf, live, inside⟩ := Compiled.mem_call_events success read
      exact ⟨leaf, live, Or.inr inside⟩
  obtain ⟨leaf, live, inside⟩ := consulted
  rw [ReferenceMode.consulted_of_mem inside]
  exact live

/-- Compiling consults references of the tree only. -/
theorem mem_references_of_compile {tag : Int}
    (consults : (compile config before source).Consults tag) : tag ∈ expression.root.references := by
  rcases consults with looked | read
  · rw [lookups_compile_eq success] at looked
    split at looked
    · exact looked
    · cases looked
  · rw [reads_compile success] at read
    cases read

end Calls

/-- What a call consults is all that it depends on. A call in another state of the outside gives the
same value or the same error, and consults the same tags in the same order, if each tag that the
first call looks up, or whose captured handle it reads, is found there as it was. So it does if this
holds of the live leaves: branches that are not selected and the insides of unsupported nodes have no
influence. And only references of the tree are ever looked up or read. -/
theorem Compiled.call_footprint {config : Config} {before : World H} {source : Source}
    {expression : Compiled H} (success : (compile config before source).outcome = .ok expression) :
    (∀ now other : World H, other.lookup.isSome = now.lookup.isSome →
      (∀ tag, (expression.call now).Consults tag →
        config.mode.found before other tag = config.mode.found before now tag) →
      (expression.call other).outcome = (expression.call now).outcome ∧
        (expression.call other).accesses = (expression.call now).accesses) ∧
    (∀ now other : World H, other.lookup.isSome = now.lookup.isSome →
      (∀ tag ∈ expression.root.live (config.mode.leaf before now),
        config.mode.found before other tag = config.mode.found before now tag) →
      (expression.call other).outcome = (expression.call now).outcome ∧
        (expression.call other).accesses = (expression.call now).accesses) ∧
    (∀ tag, (compile config before source).Consults tag → tag ∈ expression.references) ∧
    ∀ now tag, (expression.call now).Consults tag → tag ∈ expression.references := by
  refine ⟨?_, ?_, ?_, ?_⟩
  · intro now other kind agree
    obtain ⟨outcome, accesses⟩ := Compiled.call_alike success kind agree
    exact ⟨outcome, accesses⟩
  · intro now other kind agree
    obtain ⟨outcome, accesses⟩ := Compiled.call_alike success kind fun tag consults =>
      agree tag (Compiled.live_of_consults success consults)
    exact ⟨outcome, accesses⟩
  · intro tag consults
    exact mem_ascending.mpr (mem_references_of_compile success consults)
  · intro now tag consults
    have live := Compiled.live_of_consults success consults
    exact mem_ascending.mpr ((expression.root.live_sublist _).subset live)

/-- The value under tag 3 has no double, and in the other state of the outside it is gone. -/
theorem Compiled.call_footprint_other_branch :
    let root : Node := .conditional (.reference 1) (.variadic .add (.reference 2) (.number 1) [])
      (.reference 3)
    let config : Config := ⟨.tick, false⟩
    let now := World.ofEntries
      [(1, some (.float 5)), (2, none), (3, some (.int (Int.ofNat Number.doubleLimit)))]
    let other := World.ofEntries [(2, none), (1, some (.float 5))]
    ∃ expression, (compile config now (.tree root)).outcome = .ok expression ∧
      other.lookup.isSome = now.lookup.isSome ∧
      (∀ tag ∈ root.live (config.mode.leaf now now),
        config.mode.found now other tag = config.mode.found now now tag) ∧
      (expression.call other).outcome = (expression.call now).outcome ∧
      (expression.call now).outcome = .ok 1 ∧ (expression.call now).lookups = [1, 2] := by
  intro root config now other
  have read : (Source.tree root).root = .ok root := rfl
  have admitted : config.Admits root := fun strict => by cases strict
  have success := congrArg Traced.outcome (@compile_of_admits _ _ now _ _ read admitted)
  have live : root.live (config.mode.leaf now now) = [1, 2] := by decide +kernel
  have agree : ∀ tag ∈ root.live (config.mode.leaf now now),
      config.mode.found now other tag = config.mode.found now now tag := by
    intro tag member
    rw [live] at member
    rcases List.mem_cons.mp member with same | later
    · subst same; rfl
    · rw [List.mem_singleton.mp later]; rfl
  obtain ⟨_, alike, _⟩ := Compiled.call_footprint success
  refine ⟨_, success, rfl, agree, (alike now other rfl agree).1, ?_, ?_⟩
  · decide +kernel
  · decide +kernel

end TickGraph
