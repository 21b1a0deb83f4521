import TickGraph.Proofs.CallMeaning

namespace TickGraph

variable {H : Type}

theorem World.lookups_findEvents (world : World H) (tag : Int) :
    (world.findEvents tag).filterMap Event.lookup? =
      if world.lookup.isSome then [tag] else [] := by
  unfold World.findEvents
  cases world.lookup with
  | none => rfl
  | some lookup => cases found : lookup tag <;> simp [found, Event.lookup?]

/-- What the events of a lookup are, whatever it finds. -/
theorem World.mem_findEvents {world : World H} {tag : Int} {event : Event}
    (member : event ∈ world.findEvents tag) :
    event = .lookup tag ∨ event = .notice (.valueless tag) := by
  unfold World.findEvents at member
  cases kind : world.lookup with
  | none =>
    rw [kind] at member
    cases member
  | some lookup =>
    rw [kind] at member
    cases found : lookup tag with
    | valueless => simpa [found] using member
    | missing => exact Or.inl (by simpa [found] using member)
    | handle h => exact Or.inl (by simpa [found] using member)

section Silent

variable {α : Type} {pick : Event → Option α} (lookup : ∀ tag, pick (.lookup tag) = none)
  (valueless : ∀ tag, pick (.notice (.valueless tag)) = none)

include lookup valueless

theorem World.filterMap_findEvents (world : World H) (tag : Int) :
    (world.findEvents tag).filterMap pick = [] := by
  rw [List.filterMap_eq_nil_iff]
  intro event member
  rcases World.mem_findEvents member with same | same <;> subst same
  · exact lookup tag
  · exact valueless tag

end Silent

theorem World.reads_findEvents (world : World H) (tag : Int) :
    (world.findEvents tag).filterMap Event.read? = [] :=
  world.filterMap_findEvents (fun _ => rfl) (fun _ => rfl) tag

/-- What can be picked from the visit of a leaf comes from its lookup, if not from its report. -/
theorem Code.filterMap_visit_reference {α : Type} {config : Config} (world : World H) (path : Path)
    (tag : Int) {pick : Event → Option α}
    (silent : pick (.notice (.unresolved path tag)) = none) :
    (Code.visit config world (path, .reference tag)).events.filterMap pick =
      match config.mode with
      | .compile => (world.findEvents tag).filterMap pick
      | .tick => [] := by
  unfold Code.visit
  cases config.mode with
  | tick => rfl
  | compile =>
    simp only [World.find_eq]
    cases world.handle? tag with
    | none => simp [Traced.emit, silent]
    | some handle => simp [Traced.pure_eq]

theorem Code.filterMap_visit_unsupported {α : Type} {config : Config} (world : World H)
    (path : Path) (tag : Text) (raw : Json.Fields) {pick : Event → Option α}
    (silent : pick (.notice (.unsupported path tag)) = none) :
    (Code.visit config world (path, .unsupported tag raw)).events.filterMap pick = [] := by
  unfold Code.visit
  cases config.strict with
  | true => rfl
  | false => simp [Traced.emit, silent]

/-- A visit is silent for what shows neither lookups nor the reports about leaves. -/
theorem Code.filterMap_visit {α : Type} {pick : Event → Option α}
    (lookup : ∀ tag, pick (.lookup tag) = none)
    (valueless : ∀ tag, pick (.notice (.valueless tag)) = none)
    (unresolved : ∀ path tag, pick (.notice (.unresolved path tag)) = none)
    (unsupported : ∀ path tag, pick (.notice (.unsupported path tag)) = none)
    (config : Config) (world : World H) (place : Path × Node) :
    (Code.visit config world place).events.filterMap pick = [] := by
  obtain ⟨path, node⟩ := place
  cases node with
  | reference tag =>
    rw [Code.filterMap_visit_reference world path tag (unresolved path tag)]
    cases config.mode with
    | tick => rfl
    | compile => exact world.filterMap_findEvents lookup valueless tag
  | unsupported tag raw =>
    exact Code.filterMap_visit_unsupported world path tag raw (unsupported path tag)
  | _ => rfl

theorem Code.reads_visit (config : Config) (world : World H) (place : Path × Node) :
    (Code.visit config world place).reads = [] :=
  Code.filterMap_visit (fun _ => rfl) (fun _ => rfl) (fun _ _ => rfl) (fun _ _ => rfl) config world
    place

/-- In compile mode a visit looks its reference up, if there is a lookup at all. -/
theorem Code.lookups_visit (config : Config) (world : World H) (place : Path × Node) :
    (Code.visit config world place).lookups =
      if config.mode = .compile ∧ world.lookup.isSome then place.2.tag?.toList else [] := by
  obtain ⟨path, node⟩ := place
  cases node with
  | reference tag =>
    rw [Traced.lookups, Code.filterMap_visit_reference world path tag rfl]
    cases config.mode with
    | tick => rfl
    | compile =>
      rw [World.lookups_findEvents]
      cases world.lookup <;> rfl
  | unsupported tag raw =>
    rw [Traced.lookups, Code.filterMap_visit_unsupported world path tag raw rfl]
    exact (ite_self _).symm
  | _ => exact (ite_self _).symm

theorem Code.lookups_visits (config : Config) (world : World H) (places : List (Path × Node)) :
    (places.flatMap fun place => (Code.visit config world place).events).filterMap Event.lookup? =
      if config.mode = .compile ∧ world.lookup.isSome then
        places.filterMap fun place => place.2.tag?
      else [] := by
  have visits : ∀ place ∈ places,
      (Code.visit config world place).events.filterMap Event.lookup? =
        if config.mode = .compile ∧ world.lookup.isSome then place.2.tag?.toList else [] :=
    fun place _ => Code.lookups_visit config world place
  rw [List.filterMap_flatMap, List.flatMap_congr visits]
  split
  · rw [List.filterMap_eq_flatMap_toList]
  · exact List.flatMap_eq_nil_iff.mpr fun _ _ => rfl

theorem Config.lookups_walkEvents (config : Config) (world : World H) (root : Node) (path : Path) :
    (config.walkEvents world root path).filterMap Event.lookup? =
      if config.mode = .compile ∧ world.lookup.isSome then root.references else [] := by
  have leaves : (root.located path).filterMap (fun place => place.2.tag?) = root.references := by
    rw [Node.references, ← root.map_located path, List.filterMap_map]
    rfl
  rw [Config.walkEvents, Code.lookups_visits, leaves]

/-- Compiling reads nothing. -/
theorem Code.reads_visits (config : Config) (world : World H) (places : List (Path × Node)) :
    (places.flatMap fun place => (Code.visit config world place).events).filterMap Event.read? =
      [] := by
  rw [List.filterMap_flatMap, List.flatMap_eq_nil_iff]
  exact fun place _ => Code.reads_visit config world place

theorem Config.reads_walkEvents (config : Config) (world : World H) (root : Node) (path : Path) :
    (config.walkEvents world root path).filterMap Event.read? = [] :=
  Code.reads_visits config world (root.located path)

theorem ReferenceMode.lookups_leafEvents (mode : ReferenceMode) (before : World H) {now : World H}
    (recorded : now.lookup.isSome) (tag : Int) :
    (mode.leafEvents before now tag).filterMap Event.lookup? =
      match mode with
      | .compile => []
      | .tick => [tag] := by
  have reading : ∀ found : Option H,
      (found.toList.map fun _ => Event.read tag).filterMap Event.lookup? = [] := by
    intro found
    cases found <;> rfl
  rw [ReferenceMode.leafEvents, List.filterMap_append, reading, List.append_nil]
  cases mode with
  | compile => rfl
  | tick => rw [ReferenceMode.findEvents, World.lookups_findEvents, if_pos recorded]

theorem ReferenceMode.reads_leafEvents (mode : ReferenceMode) (before now : World H) (tag : Int) :
    (mode.leafEvents before now tag).filterMap Event.read? =
      if (mode.handle? before now tag).isSome then [tag] else [] := by
  have finding : (mode.findEvents now tag).filterMap Event.read? = [] := by
    cases mode with
    | compile => rfl
    | tick => exact now.reads_findEvents tag
  rw [ReferenceMode.leafEvents, List.filterMap_append, finding, List.nil_append]
  cases mode.handle? before now tag <;> rfl

theorem flatMap_ite_singleton {α : Type} (keep : α → Bool) (xs : List α) :
    (xs.flatMap fun x => if keep x then [x] else []) = xs.filter keep := by
  induction xs with
  | nil => rfl
  | cons x rest ih =>
    rw [List.flatMap_cons, ih, List.filter_cons]
    cases keep x <;> rfl

/-- What compiled in compile mode never looks anything up again, not even in a call that fails. -/
theorem Compiled.lookups_call_eq_nil {config : Config} {before : World H} {source : Source}
    {expression : Compiled H} (success : (compile config before source).outcome = .ok expression)
    (once : config.mode = .compile) (now : World H) : (expression.call now).lookups = [] := by
  rw [Traced.lookups, List.filterMap_eq_nil_iff]
  intro event member
  obtain ⟨tag, _, consulted⟩ := Compiled.mem_call_events success member
  rcases ReferenceMode.mem_leafEvents consulted with finding | reading
  · rw [once] at finding
    cases finding
  · subst event; rfl

/-- A compilation looks up all references in compile mode, if there is a lookup at all. -/
theorem lookups_compile_eq {config : Config} {before : World H} {source : Source}
    {expression : Compiled H} (success : (compile config before source).outcome = .ok expression) :
    (compile config before source).lookups =
      if config.mode = .compile ∧ before.lookup.isSome then expression.root.references else [] := by
  obtain ⟨read, admitted⟩ := admits_of_compile success
  rw [compile_of_admits read admitted, Traced.lookups, List.filterMap_append,
    Config.lookups_walkEvents]
  exact List.append_nil _

theorem lookups_compile {config : Config} {before : World H} {source : Source}
    {expression : Compiled H} (success : (compile config before source).outcome = .ok expression)
    (recorded : before.lookup.isSome) :
    (compile config before source).lookups =
      match config.mode with
      | .compile => expression.root.references
      | .tick => [] := by
  rw [lookups_compile_eq success, recorded]
  cases config.mode <;> rfl

theorem reads_compile {config : Config} {before : World H} {source : Source}
    {expression : Compiled H} (success : (compile config before source).outcome = .ok expression) :
    (compile config before source).reads = [] := by
  obtain ⟨read, admitted⟩ := admits_of_compile success
  rw [compile_of_admits read admitted, Traced.reads, List.filterMap_append,
    Config.reads_walkEvents]
  rfl

theorem Compiled.lookups_call_tick {config : Config} {before now : World H} {source : Source}
    {expression : Compiled H} (success : (compile config before source).outcome = .ok expression)
    (late : config.mode = .tick) (recorded : now.lookup.isSome)
    (fits : ∀ tag ∈ expression.root.live (config.mode.leaf before now), ∀ handle,
      config.mode.handle? before now tag = some handle → now.Convertible handle) :
    (expression.call now).lookups = expression.root.live (config.mode.leaf before now) := by
  rw [Compiled.call_of_compile success fits, Traced.lookups, List.filterMap_flatMap]
  simp only [ReferenceMode.lookups_leafEvents _ _ recorded, late]
  exact List.flatMap_singleton' _

theorem Compiled.reads_call {config : Config} {before now : World H} {source : Source}
    {expression : Compiled H} (success : (compile config before source).outcome = .ok expression)
    (fits : ∀ tag ∈ expression.root.live (config.mode.leaf before now), ∀ handle,
      config.mode.handle? before now tag = some handle → now.Convertible handle) :
    (expression.call now).reads =
      (expression.root.live (config.mode.leaf before now)).filter
        fun tag => (config.mode.handle? before now tag).isSome := by
  rw [Compiled.call_of_compile success fits, Traced.reads, List.filterMap_flatMap]
  simp only [ReferenceMode.reads_leafEvents]
  exact flatMap_ite_singleton _ _

/-- What a compilation and the calls of its expression consult, exactly and in order. In compile mode
all references are looked up once, and a call reads those live leaves that had a handle then; in tick
mode a call looks up its live leaves and reads those that have a handle now. Compiling reads nothing.
It is enough that the values which the call comes to have doubles. -/
theorem compile_call_trace {config : Config} {before : World H} {source : Source}
    {expression : Compiled H} (success : (compile config before source).outcome = .ok expression)
    (recorded : before.lookup.isSome) :
    source.root = .ok expression.root ∧ (compile config before source).reads = [] ∧
    (config.mode = .compile →
      (compile config before source).lookups = expression.root.references ∧
      ∀ now : World H, (expression.call now).lookups = [] ∧
        ((∀ tag ∈ expression.root.live (ReferenceMode.compile.leaf before now), ∀ handle,
            before.handle? tag = some handle → now.Convertible handle) →
          (expression.call now).reads =
            (expression.root.live (ReferenceMode.compile.leaf before now)).filter
              fun tag => (before.handle? tag).isSome)) ∧
    (config.mode = .tick →
      (compile config before source).lookups = [] ∧
      ∀ now : World H, now.lookup.isSome →
        (∀ tag ∈ expression.root.live (ReferenceMode.tick.leaf before now), ∀ handle,
          now.handle? tag = some handle → now.Convertible handle) →
        (expression.call now).lookups =
          expression.root.live (ReferenceMode.tick.leaf before now) ∧
        (expression.call now).reads =
          (expression.root.live (ReferenceMode.tick.leaf before now)).filter
            fun tag => (now.handle? tag).isSome) := by
  have looked := lookups_compile success recorded
  refine ⟨(admits_of_compile success).1, reads_compile success, ?_, ?_⟩
  · intro once
    rw [once] at looked
    refine ⟨looked, ?_⟩
    intro now
    refine ⟨Compiled.lookups_call_eq_nil success once now, ?_⟩
    intro fits
    have reads := @Compiled.reads_call H config before now source expression success
    rw [once] at reads
    exact reads fits
  · intro late
    rw [late] at looked
    refine ⟨looked, ?_⟩
    intro now present fits
    have lookups := Compiled.lookups_call_tick success late present
    have reads := @Compiled.reads_call H config before now source expression success
    rw [late] at lookups reads
    exact ⟨lookups fits, reads fits⟩

/-- The branch that is not selected is looked up once and never read, and tag 2 has no handle. -/
theorem compile_call_trace_conditional :
    let root : Node := .conditional (.reference 1)
      (.variadic .and (.reference 2) (.reference 1) [.reference 3]) (.reference 4)
    let before := World.ofEntries [(1, some (.float 5)), (3, none), (4, some (.float 6))]
    let now := World.ofEntries [(1, some (.float (-1))), (2, some (.float 0))]
    ∃ expression, (compile Config.standard before (.tree root)).outcome = .ok expression ∧
      before.lookup.isSome ∧
      (compile Config.standard before (.tree root)).lookups = [1, 2, 1, 3, 4] ∧
      (expression.call now).lookups = [] ∧ (expression.call now).reads = [1, 1, 3] := by
  intro root before now
  have read : (Source.tree root).root = .ok root := rfl
  have admitted : Config.standard.Admits root := fun strict => by cases strict
  have success := congrArg Traced.outcome (@compile_of_admits _ _ before _ _ read admitted)
  have fits : ∀ tag ∈ root.live (ReferenceMode.compile.leaf before now), ∀ handle,
      before.handle? tag = some handle → now.Convertible handle := by
    intro tag _ handle _
    exact World.convertible_ofEntries (by simp [Number.toDouble]) handle
  obtain ⟨_, _, once, _⟩ := compile_call_trace success rfl
  obtain ⟨looked, calls⟩ := once rfl
  obtain ⟨unlooked, reads⟩ := calls now
  refine ⟨_, success, rfl, looked.trans (by decide +kernel), unlooked, (reads fits).trans ?_⟩
  decide +kernel

end TickGraph
