import TickGraph.Proofs.CommandOutcome

namespace TickGraph

def tickLine (k : Nat) (x : Float) : String :=
  "tick " ++ toString (k + 1) ++ ": " ++ Double.text x ++ "\n"

theorem tickLines_map_range' (f : Nat → Float) (k count : Nat) :
    tickLines k ((List.range' k count).map f) =
      (List.range' k count).map fun i => tickLine i (f i) := by
  induction count generalizing k with
  | zero => rfl
  | succ count ih => rw [List.range'_succ, List.map_cons, List.map_cons, tickLines, ih]; rfl

namespace Binding

variable {given ones swapped : List Binding} {k : Nat}

/-- Each tag that is bound is bound to its value in tick `k` alone, and no other tag is bound. -/
def Single (given : List Binding) (k : Nat) (ones : List Binding) : Prop :=
  ∀ tag, (last? ones tag).map values = (last? given tag).map fun binding => [binding.valueAt k]

theorem valueAt_of_values {binding : Binding} {x : Float} (single : binding.values = [x])
    (j : Nat) : binding.valueAt j = x := by
  have member := binding.valueAt_mem j
  rw [single] at member
  exact List.mem_singleton.mp member

theorem Single.numberAt_eq (single : Single given k ones) (j : Nat) :
    numberAt ones j = numberAt given k := by
  funext tag
  have alone := single tag
  unfold numberAt
  cases bound : last? given tag with
  | none =>
    rw [bound] at alone
    rw [Option.map_eq_none_iff.mp alone]
    rfl
  | some binding =>
    rw [bound] at alone
    obtain ⟨other, found, value⟩ := Option.map_eq_some_iff.mp alone
    rw [found]
    exact valueAt_of_values value j

/-- The values of a tick can be written as bindings. -/
theorem exists_texts_single {texts : List String} (read : texts.mapM Binding.read = .ok given)
    (k : Nat) :
    ∃ (singles : List String) (ones : List Binding),
      singles.mapM Binding.read = .ok ones ∧ Single given k ones := by
  obtain ⟨singles, alone⟩ := exists_singles read k
  refine ⟨singles, _, alone, ?_⟩
  intro tag
  have tags : ∀ binding, (inTick k binding).tag = binding.tag := fun _ => rfl
  rw [last?_map tags, Option.map_map]
  rfl

section Order

variable (same : ∀ tag, last? swapped tag = last? given tag)

include same

theorem numberAt_congr (k : Nat) : numberAt swapped k = numberAt given k := by
  funext tag
  rw [numberAt, same, numberAt]

theorem tickWorld_congr (k : Nat) :
    tickWorld (latest swapped) k = tickWorld (latest given) k := by
  refine World.ofTable_congr fun tag => ?_
  rw [lookup_tickTable, lookup_tickTable, find?_latest, find?_latest, same]

end Order

end Binding

theorem EvaluateOptions.printed_report (options : EvaluateOptions) (f : Nat → Float) (count : Nat)
    (notices : List Notice) :
    (options.report ((List.range count).map f) notices).printed =
      String.join ((List.range count).map fun k => tickLine k (f k)) ++
        savedLine options.target? := by
  rw [List.range_eq_range', ← tickLines_map_range']
  rfl

section Runs

variable {file : File} {options : EvaluateOptions} {given swapped : List Binding} {graph : Json}
  {root : Node} (holds : file.Holds graph) (tree : Node.read graph Path.graph = .ok root)
  (admitted : options.config.Admits root) (bound : options.bindings.mapM Binding.read = .ok given)

include holds tree admitted bound

theorem evaluateCommand_lines {count : Nat} (positive : 1 ≤ count) :
    let run := evaluateCommand file { options with ticks := count }
    run.exitCode = 0 ∧ run.printed =
      String.join ((List.range count).map fun k => tickLine k (root.valueAt given k)) ++
        savedLine options.target? := by
  intro run
  let counted : EvaluateOptions := { options with ticks := count }
  have valid : counted.Valid given := ⟨Int.ofNat_le.mpr positive, bound⟩
  have done : run = _ := evaluateCommand_of_admits valid holds tree admitted
  rw [done]
  exact ⟨rfl, counted.printed_report (root.valueAt given) count _⟩

/-- The lines of a shorter run come first in a longer one. -/
theorem evaluateCommand_prefix {fewer more : Nat} (positive : 1 ≤ fewer) (enough : fewer ≤ more) :
    ∃ lines rest,
      (evaluateCommand file { options with ticks := fewer }).printed =
        lines ++ savedLine options.target? ∧
      (evaluateCommand file { options with ticks := more }).printed =
        lines ++ rest ++ savedLine options.target? := by
  obtain ⟨further, rfl⟩ := Nat.exists_eq_add_of_le enough
  obtain ⟨_, short⟩ := evaluateCommand_lines holds tree admitted bound positive
  have longer : 1 ≤ fewer + further := Nat.le_add_right_of_le positive
  obtain ⟨_, long⟩ := evaluateCommand_lines holds tree admitted bound longer
  rw [List.range_add, List.map_append, String.join_append] at long
  exact ⟨_, _, short, long⟩

/-- Of the bindings only the last one of each tag counts, whatever the order of the tags. -/
theorem evaluateCommand_order {others : List String}
    (again : others.mapM Binding.read = .ok swapped)
    (same : ∀ tag, Binding.last? swapped tag = Binding.last? given tag) {count : Nat}
    (positive : 1 ≤ count) :
    evaluateCommand file { options with bindings := others, ticks := count } =
      evaluateCommand file { options with ticks := count } := by
  let counted : EvaluateOptions := { options with ticks := count }
  let reordered : EvaluateOptions := { options with bindings := others, ticks := count }
  have valid : counted.Valid given := ⟨Int.ofNat_le.mpr positive, bound⟩
  have alsoValid : reordered.Valid swapped := ⟨Int.ofNat_le.mpr positive, again⟩
  have first : evaluateCommand file counted = _ :=
    evaluateCommand_of_admits valid holds tree admitted
  have second : evaluateCommand file reordered = _ :=
    evaluateCommand_of_admits alsoValid holds tree admitted
  have values : root.valueAt swapped = root.valueAt given := by
    funext k
    rw [Node.valueAt, Binding.numberAt_congr same, Node.valueAt]
  have compiled : reordered.compilation swapped graph = counted.compilation given graph := by
    unfold EvaluateOptions.compilation
    rw [Binding.tickWorld_congr same]
    rfl
  rw [values, compiled] at second
  exact second.trans first.symm

end Runs

/-- A file that evaluates at all evaluates with all bindings, in both modes and for any number of
ticks, and prints one line for each tick. Line `k` shows what a run of one tick shows in which every
bound tag has the one value that the last of its bindings has in tick `k`; there is always such a run.
So a shorter run prints the first lines of a longer one, and the order in which different tags are
bound makes no difference. No tag is registered twice, and no list is read beyond its end. -/
theorem evaluateCommand_single_ticks {file : File} {before options : EvaluateOptions}
    {given : List Binding} (success : (evaluateCommand file before).exitCode = 0)
    (strict : options.strict = before.strict)
    (read : options.bindings.mapM Binding.read = .ok given) :
    ∃ graph root, file.Holds graph ∧ Node.read graph Path.graph = .ok root ∧
      (∀ count : Nat, 1 ≤ count →
        let run := evaluateCommand file { options with ticks := count }
        run.exitCode = 0 ∧ run.printed =
          String.join ((List.range count).map fun k => tickLine k (root.valueAt given k)) ++
            savedLine options.target?) ∧
      (∀ k singles ones, singles.mapM Binding.read = .ok ones → Binding.Single given k ones →
        let run := evaluateCommand file { options with bindings := singles, ticks := 1 }
        run.exitCode = 0 ∧
          run.printed = tickLine 0 (root.valueAt given k) ++ savedLine options.target?) ∧
      (∀ k, ∃ (singles : List String) (ones : List Binding),
        singles.mapM Binding.read = .ok ones ∧ Binding.Single given k ones) ∧
      (∀ fewer more : Nat, 1 ≤ fewer → fewer ≤ more → ∃ lines rest,
        (evaluateCommand file { options with ticks := fewer }).printed =
          lines ++ savedLine options.target? ∧
        (evaluateCommand file { options with ticks := more }).printed =
          lines ++ rest ++ savedLine options.target?) ∧
      (∀ others swapped, others.mapM Binding.read = .ok swapped →
        (∀ tag, Binding.last? swapped tag = Binding.last? given tag) →
        ∀ count : Nat, 1 ≤ count →
          evaluateCommand file { options with bindings := others, ticks := count } =
            evaluateCommand file { options with ticks := count }) ∧
      (∃ registry, Binding.register (Binding.latest given) = .ok registry) ∧
      ∀ binding ∈ given, ∀ k,
        binding.values[min k (binding.values.length - 1)]? = some (binding.valueAt k) := by
  obtain ⟨_, graph, root, _, holds, reads, fits⟩ := evaluateCommand_succeeds_iff.mp success
  have admitted : options.config.Admits root := fun refuses => fits (strict.symm.trans refuses)
  refine ⟨graph, root, holds, reads, ?_, ?_, ?_, ?_, ?_, ?_, ?_⟩
  · intro count positive
    exact evaluateCommand_lines holds reads admitted read positive
  · intro k singles ones alone single
    let narrow : EvaluateOptions := { options with bindings := singles }
    obtain ⟨good, printed⟩ :=
      @evaluateCommand_lines file narrow ones graph root holds reads admitted alone 1 le_rfl
    refine ⟨good, printed.trans ?_⟩
    have value : root.valueAt ones 0 = root.valueAt given k := by
      rw [Node.valueAt, single.numberAt_eq, Node.valueAt]
    rw [List.range_one, List.map_singleton, String.join_cons, String.join_nil, String.append_empty,
      value]
    rfl
  · exact Binding.exists_texts_single read
  · intro fewer more positive enough
    exact evaluateCommand_prefix holds reads admitted read positive enough
  · intro others swapped again same count positive
    exact evaluateCommand_order holds reads admitted read again same positive
  · obtain ⟨registry, registered, _⟩ := register_latest given
    exact ⟨registry, registered⟩
  · exact fun binding _ k => binding.getElem?_values k

/-- The first binding of tag 1 counts for nothing, and the last one of it is used up in tick 3. -/
theorem evaluateCommand_single_ticks_repeated_tag :
    let file : File :=
      ⟨"graph.json", some "\x7b\"graph\": \x7b\"type\": \"value\", \"tag\": 1\x7d\x7d"⟩
    let unbound : EvaluateOptions := ⟨[], 1, false, false, none⟩
    let options : EvaluateOptions := ⟨["1=0.5,2", "2=10", "1=3,4,5"], 1, false, true, none⟩
    let run := evaluateCommand file { options with ticks := 4 }
    (evaluateCommand file unbound).exitCode = 0 ∧ options.strict = unbound.strict ∧
    run.printed = "tick 1: 3.0\ntick 2: 4.0\ntick 3: 5.0\ntick 4: 5.0\n" ∧
    ∃ (given : List Binding) (root : Node), options.bindings.mapM Binding.read = .ok given ∧
      run.printed =
        String.join ((List.range 4).map fun k => tickLine k (root.valueAt given k)) ++
          savedLine none ∧
      ∃ (singles : List String) (ones : List Binding),
        singles.mapM Binding.read = .ok ones ∧ Binding.Single given 3 ones ∧
        (evaluateCommand file { options with bindings := singles, ticks := 1 }).printed =
          tickLine 0 (root.valueAt given 3) ++ savedLine none := by
  intro file unbound options run
  have success : (evaluateCommand file unbound).exitCode = 0 := by decide +kernel
  have bound : (evaluateCommand file options).exitCode = 0 := by decide +kernel
  have printed : run.printed = "tick 1: 3.0\ntick 2: 4.0\ntick 3: 5.0\ntick 4: 5.0\n" := by
    decide +kernel
  obtain ⟨given, _, _, valid, _⟩ := evaluateCommand_succeeds_iff.mp bound
  obtain ⟨_, root, _, _, lines, alike, singly, _⟩ :=
    @evaluateCommand_single_ticks file unbound options given success rfl valid.read
  obtain ⟨singles, ones, read, single⟩ := singly 3
  exact ⟨success, rfl, printed, given, root, valid.read, (lines 4 (by decide)).2, singles, ones,
    read, single, (alike 3 singles ones read single).2⟩

end TickGraph
