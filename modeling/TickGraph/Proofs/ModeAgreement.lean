import TickGraph.Proofs.CommandOutcome
import TickGraph.Proofs.Overflow

namespace TickGraph

def Notice.isUnresolved : Notice → Bool
  | .unresolved _ _ => true
  | _ => false

section Notices

variable {H : Type} {world : World H}
  (silent : ∀ tag, (world.findEvents tag).filterMap Event.notice? = [])

include silent

/-- Where lookups report nothing, a visit reports the same in both modes apart from unresolved
references. -/
theorem Code.notices_visit_tick (strict : Bool) (place : Path × Node) :
    (Code.visit ⟨.tick, strict⟩ world place).notices =
      (Code.visit ⟨.compile, strict⟩ world place).notices.filter fun notice =>
        !notice.isUnresolved := by
  obtain ⟨path, node⟩ := place
  cases node with
  | reference tag =>
    have late : (Code.visit ⟨.tick, strict⟩ world (path, .reference tag)).notices = [] := rfl
    rw [late]
    unfold Code.visit Traced.notices
    simp only [World.find_eq, Traced.ok_bind, List.filterMap_append, silent, List.nil_append]
    cases world.handle? tag <;> rfl
  | unsupported tag raw => cases strict <;> rfl
  | _ => rfl

theorem Code.notices_visits_tick (strict : Bool) (places : List (Path × Node)) :
    (places.flatMap fun place => (Code.visit ⟨.tick, strict⟩ world place).events).filterMap
        Event.notice? =
      ((places.flatMap fun place => (Code.visit ⟨.compile, strict⟩ world place).events).filterMap
        Event.notice?).filter fun notice => !notice.isUnresolved := by
  rw [List.filterMap_flatMap, List.filterMap_flatMap, List.filter_flatMap]
  exact List.flatMap_congr fun place _ => Code.notices_visit_tick silent strict place

theorem notices_compile_tick (strict : Bool) (source : Source) :
    (compile ⟨.tick, strict⟩ world source).notices =
      (compile ⟨.compile, strict⟩ world source).notices.filter fun notice =>
        !notice.isUnresolved := by
  rcases Config.source_cases ⟨.compile, strict⟩ source with ⟨fault, unread⟩ |
    ⟨root, before, error, read, refuses, first⟩ | ⟨root, read, admitted⟩
  · rw [compile_of_fault unread, compile_of_fault unread]
    rfl
  · have refusing : Config.strict ⟨.tick, strict⟩ = true := refuses
    rw [compile_of_first read refuses first, compile_of_first read refusing first]
    exact Code.notices_visits_tick silent strict before
  · have taken : Config.Admits ⟨.tick, strict⟩ root := admitted
    rw [compile_of_admits read admitted, compile_of_admits read taken]
    have visits := Code.notices_visits_tick silent strict (root.located Path.graph)
    unfold Traced.notices Config.walkEvents
    rw [List.filterMap_append, List.filterMap_append, List.filter_append, visits]
    rfl

end Notices

/-- An evaluation that looks its references up in every tick ends like one that looks them up once:
with the same exit code, output, error text and saved file, for all parameters and all files. It
reports the same, except that it warns of no unresolved references. -/
theorem evaluateCommand_per_tick_references (file : File) (options : EvaluateOptions) :
    let late := evaluateCommand file { options with perTickReferences := true }
    let once := evaluateCommand file { options with perTickReferences := false }
    late.exitCode = once.exitCode ∧ late.printed = once.printed ∧
      late.complaint = once.complaint ∧ late.saved = once.saved ∧
      late.notices = once.notices.filter fun notice => !notice.isUnresolved := by
  intro late once
  let tick : EvaluateOptions := { options with perTickReferences := true }
  let compiling : EvaluateOptions := { options with perTickReferences := false }
  cases accepted : evaluateInputs file options with
  | error error =>
    have lateEnd : late = _ := @evaluateCommand_of_rejected file tick error accepted
    have onceEnd : once = _ := @evaluateCommand_of_rejected file compiling error accepted
    rw [lateEnd, onceEnd]
    exact ⟨rfl, rfl, rfl, rfl, rfl⟩
  | ok inputs =>
    obtain ⟨given, valid, holds⟩ := of_evaluateInputs accepted
    have tickValid : tick.Valid given := ⟨valid.ticks, valid.read⟩
    have compilingValid : compiling.Valid given := ⟨valid.ticks, valid.read⟩
    have notices := notices_compile_tick
      (notices_findEvents_tickWorld (Binding.latest given) 0) options.strict (.wire inputs.graph)
    cases compiled : (compiling.compilation given inputs.graph).outcome with
    | error error =>
      have alike := root_compile_eq options.strict .compile .tick
        (tickWorld (Binding.latest given) 0) (tickWorld (Binding.latest given) 0)
        (.wire inputs.graph)
      have failed : (tick.compilation given inputs.graph).outcome = .error error :=
        Except.map_eq_error_iff.mp (alike.trans (congrArg (Except.map Compiled.root) compiled))
      have lateEnd : late = _ := evaluateCommand_of_error tickValid holds failed
      have onceEnd : once = _ := evaluateCommand_of_error compilingValid holds compiled
      rw [lateEnd, onceEnd]
      exact ⟨rfl, rfl, rfl, rfl, notices⟩
    | ok expression =>
      obtain ⟨read, admitted⟩ := admits_of_compile compiled
      have lateEnd : late = _ := evaluateCommand_of_admits tickValid holds read admitted
      have onceEnd : once = _ := evaluateCommand_of_admits compilingValid holds read admitted
      rw [lateEnd, onceEnd]
      exact ⟨rfl, rfl, rfl, rfl, notices⟩

section Tables

variable {first later entries : List (Int × Option Number)} {tag : Int}

/-- A table has a handle for every tag that has an entry. -/
theorem World.handle?_ofEntries (entries : List (Int × Option Number)) (tag : Int) :
    (World.ofEntries entries).handle? tag =
      if tag ∈ entries.map Prod.fst then some tag else none := by
  have stands : (entries.reverse.lookup tag).isSome = true ↔ tag ∈ entries.map Prod.fst := by
    rw [List.lookup_isSome_iff]
    simp
  simp only [World.handle?, World.ofEntries, World.ofTable, Option.bind_some, stands]
  split <;> rfl

theorem World.read_ofEntries_of_absent (absent : tag ∉ entries.map Prod.fst) :
    (World.ofEntries entries).read tag = none := by
  have missing : entries.reverse.lookup tag = none := by
    rw [List.lookup_eq_none_iff]
    intro entry member
    have apart : tag ≠ entry.1 := fun same =>
      absent (same ▸ List.mem_map_of_mem (List.mem_reverse.mp member))
    simpa using apart
  simp [World.ofEntries, World.ofTable, missing]

/-- A reference reads the same in both modes, unless its tag came after the compilation. If the tag
is gone, one mode reads an absent value and the other has nothing to read. -/
theorem ReferenceMode.number?_ofEntries
    (kept : tag ∈ later.map Prod.fst → tag ∈ first.map Prod.fst) :
    ReferenceMode.compile.number? (World.ofEntries first) (World.ofEntries later) tag =
      ReferenceMode.tick.number? (World.ofEntries first) (World.ofEntries later) tag := by
  simp only [ReferenceMode.number?, ReferenceMode.handle?, World.handle?_ofEntries]
  by_cases present : tag ∈ later.map Prod.fst
  · rw [if_pos present, if_pos (kept present)]
  · rw [if_neg present]
    split
    · exact World.read_ofEntries_of_absent present
    · rfl

theorem ReferenceMode.overflows_ofEntries
    (kept : tag ∈ later.map Prod.fst → tag ∈ first.map Prod.fst) :
    ReferenceMode.compile.overflows (World.ofEntries first) (World.ofEntries later) tag =
      ReferenceMode.tick.overflows (World.ofEntries first) (World.ofEntries later) tag :=
  congrArg (Option.any Number.overflows) (ReferenceMode.number?_ofEntries kept)

theorem ReferenceMode.leaf_ofEntries
    (kept : tag ∈ later.map Prod.fst → tag ∈ first.map Prod.fst) :
    ReferenceMode.compile.leaf (World.ofEntries first) (World.ofEntries later) tag =
      ReferenceMode.tick.leaf (World.ofEntries first) (World.ofEntries later) tag := by
  rw [ReferenceMode.leaf_eq, ReferenceMode.leaf_eq, ReferenceMode.number?_ofEntries kept]

/-- What is looked up now is what was found while compiling and is still there. -/
theorem ReferenceMode.isSome_handle?_ofEntries
    (kept : tag ∈ later.map Prod.fst → tag ∈ first.map Prod.fst) :
    (ReferenceMode.tick.handle? (World.ofEntries first) (World.ofEntries later) tag).isSome =
      (decide (tag ∈ later.map Prod.fst) && (ReferenceMode.compile.handle? (World.ofEntries first)
        (World.ofEntries later) tag).isSome) := by
  simp only [ReferenceMode.handle?, World.handle?_ofEntries]
  by_cases present : tag ∈ later.map Prod.fst
  · rw [if_pos present, if_pos (kept present), decide_eq_true present]
    rfl
  · rw [if_neg present, decide_eq_false present]
    rfl

theorem ReferenceMode.mem_of_overflows_ofEntries
    (exceeds : ReferenceMode.tick.overflows (World.ofEntries first) (World.ofEntries later) tag =
      true) : tag ∈ later.map Prod.fst := by
  have found := ReferenceMode.isSome_of_overflows exceeds
  rw [ReferenceMode.handle?, World.handle?_ofEntries] at found
  simpa using found

end Tables

/-- Tables in which no referenced tag is new since the expression was compiled are answered alike,
whether the references were looked up then or are looked up now: with the same value or the same
error. Of what the first one reads, the second one reads what still has an entry. -/
theorem compile_call_modes {source : Source} {root : Node} (read : source.root = .ok root)
    {first later : List (Int × Option Number)}
    (kept : ∀ tag ∈ root.references, tag ∈ later.map Prod.fst → tag ∈ first.map Prod.fst) :
    ∃ once late : Compiled Int,
      (compile ⟨.compile, false⟩ (World.ofEntries first) source).outcome = .ok once ∧
      (compile ⟨.tick, false⟩ (World.ofEntries first) source).outcome = .ok late ∧
      (once.call (World.ofEntries later)).outcome = (late.call (World.ofEntries later)).outcome ∧
      (late.call (World.ofEntries later)).reads =
        (once.call (World.ofEntries later)).reads.filter fun tag =>
          decide (tag ∈ later.map Prod.fst) := by
  let before := World.ofEntries first
  let now := World.ofEntries later
  let leaf := ReferenceMode.tick.leaf before now
  let exceeds := ReferenceMode.tick.overflows before now
  have among : ∀ tag ∈ root.live leaf, tag ∈ later.map Prod.fst → tag ∈ first.map Prod.fst :=
    fun tag live => kept tag ((root.live_sublist leaf).subset live)
  have lax : ∀ mode : ReferenceMode, Config.Admits ⟨mode, false⟩ root :=
    fun _ strict => by cases strict
  have onceMade :=
    congrArg Traced.outcome (@compile_of_admits _ _ before _ _ read (lax .compile))
  have lateMade := congrArg Traced.outcome (@compile_of_admits _ _ before _ _ read (lax .tick))
  have overflows : ∀ tag ∈ root.live leaf,
      ReferenceMode.compile.overflows before now tag = exceeds tag :=
    fun tag live => ReferenceMode.overflows_ofEntries (among tag live)
  have leaves : ∀ tag ∈ root.live leaf, ReferenceMode.compile.overflows before now tag = false →
      leaf tag = ReferenceMode.compile.leaf before now tag :=
    fun tag live _ => (ReferenceMode.leaf_ofEntries (among tag live)).symm
  have own : ∀ tag ∈ root.live leaf, exceeds tag = false →
      leaf tag = ReferenceMode.tick.leaf before now tag := fun _ _ _ => rfl
  refine ⟨_, _, onceMade, lateMade, ?_, ?_⟩
  · have fails : (root.live leaf).any (ReferenceMode.compile.overflows before now) =
        (root.live leaf).any exceeds := by
      rw [List.any_eq, List.any_eq, decide_eq_decide]
      exact exists_congr fun tag => and_congr_right fun live => by rw [overflows tag live]
    rw [Compiled.call_cut onceMade leaves, Compiled.call_cut lateMade own]
    simp only [fails, exceeds]
  · rw [Compiled.reads_call_cut lateMade own, Compiled.reads_call_cut onceMade leaves,
      cutAfter_congr fun tag member => overflows tag (List.mem_of_mem_filter member),
      filter_cutAfter fun tag bad =>
        decide_eq_true (ReferenceMode.mem_of_overflows_ofEntries bad), List.filter_filter]
    refine congrArg (cutAfter exceeds) (List.filter_congr fun tag live => ?_)
    exact ReferenceMode.isSome_handle?_ofEntries (among tag live)

/-- Tag 1 is gone, tag 2 has no value, tag 3 never had an entry, and what stands under tag 4 has no
double. -/
theorem compile_call_modes_table_without_first :
    let root : Node := .variadic .add (.reference 1) (.reference 2)
      [.reference 3, .reference 4, .reference 1]
    let first : List (Int × Option Number) := [(1, some (.float 5)), (2, none), (4, some (.int 1))]
    let later : List (Int × Option Number) :=
      [(2, none), (4, some (.int (Int.ofNat Number.doubleLimit)))]
    ∃ once late : Compiled Int,
      (compile ⟨.compile, false⟩ (World.ofEntries first) (.tree root)).outcome = .ok once ∧
      (compile ⟨.tick, false⟩ (World.ofEntries first) (.tree root)).outcome = .ok late ∧
      (once.call (World.ofEntries later)).reads = [1, 2, 4] ∧
      (late.call (World.ofEntries later)).reads = [2, 4] ∧
      (once.call (World.ofEntries later)).outcome = .error .outOfRange ∧
      (late.call (World.ofEntries later)).outcome = .error .outOfRange := by
  intro root first later
  have read : (Source.tree root).root = .ok root := rfl
  have kept : ∀ tag ∈ root.references, tag ∈ later.map Prod.fst → tag ∈ first.map Prod.fst := by
    decide +kernel
  obtain ⟨once, late, onceMade, lateMade, alike, reads⟩ := compile_call_modes read kept
  have code : once.code = root.lower (ReferenceMode.compile.leafCode (World.ofEntries first)) := by
    cases onceMade
    rfl
  have consulted : (once.call (World.ofEntries later)).reads = [1, 2, 4] := by
    rw [Compiled.call, code]
    decide +kernel
  have failed : (once.call (World.ofEntries later)).outcome = .error .outOfRange := by
    rw [Compiled.call, code]
    decide +kernel
  refine ⟨once, late, onceMade, lateMade, consulted, ?_, failed, alike.symm.trans failed⟩
  rw [reads, consulted]
  decide +kernel

end TickGraph
