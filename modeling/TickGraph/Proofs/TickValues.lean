import TickGraph.Proofs.BindingTable
import TickGraph.Proofs.CompileOutcome

namespace TickGraph

/-- The number that a tree stands for in tick `k`, when its references read bound tags. -/
def Node.valueAt (root : Node) (given : List Binding) (k : Nat) : Float :=
  root.meaning (Binding.numberAt given k)

/-- Every bound tag produces a value, so lookups report nothing. -/
theorem notices_findEvents_tickWorld (kept : List Binding) (k : Nat) (tag : Int) :
    ((tickWorld kept k).findEvents tag).filterMap Event.notice? = [] := by
  simp only [World.findEvents, World.ofTable]
  split
  · rename_i valueless
    split at valueless <;> cases valueless
  · rfl

/-- A tick that ends well is followed by the others. -/
theorem TickRun.make_succ_of_ok {kept : List Binding} {k : Nat} {registry : Registry Float}
    {node next : ExpressionNode Int} {events : List Event} {x : Float}
    (evaluated : node.evaluate (World.ofRegistry (Binding.setAll kept k registry)) =
      ⟨next, events, .ok x⟩) (count : Nat) :
    let rest := TickRun.make kept count (k + 1) (Binding.setAll kept k registry) next
    TickRun.make kept (count + 1) k registry node =
      ⟨next.value :: rest.values, events ++ rest.events, rest.failure⟩ := by
  intro rest
  rw [TickRun.make, evaluated]

/-- A tick that fails is the last one. -/
theorem TickRun.make_succ_of_error {kept : List Binding} {k : Nat} {registry : Registry Float}
    {node next : ExpressionNode Int} {events : List Event} {failure : Failure}
    (evaluated : node.evaluate (World.ofRegistry (Binding.setAll kept k registry)) =
      ⟨next, events, .error failure⟩) (count : Nat) :
    TickRun.make kept (count + 1) k registry node = ⟨[], events, some failure⟩ := by
  rw [TickRun.make, evaluated]

variable {given : List Binding} {config : Config} {source : Source} {expression : Compiled Int}
  {j k : Nat}

section Compiled

variable
  (success : (compile config (tickWorld (Binding.latest given) j) source).outcome = .ok expression)

include success

theorem Compiled.call_tickWorld (k : Nat) :
    (expression.call (tickWorld (Binding.latest given) k)).outcome =
      .ok (expression.root.valueAt given k) := by
  rw [Compiled.call_of_compile success]
  · rw [leaf_tickWorld]
    rfl
  · intro tag _ handle _
    exact convertible_tickWorld _ k handle

theorem Compiled.notices_call_tickWorld (k : Nat) :
    (expression.call (tickWorld (Binding.latest given) k)).events.filterMap Event.notice? = [] := by
  refine List.filterMap_eq_nil_iff.mpr ?_
  intro event member
  obtain ⟨tag, _, consulted⟩ := Compiled.mem_call_events success member
  rcases ReferenceMode.mem_leafEvents consulted with finding | reading
  · have silent : (config.mode.findEvents (tickWorld (Binding.latest given) k) tag).filterMap
        Event.notice? = [] := by
      cases config.mode with
      | compile => rfl
      | tick => exact notices_findEvents_tickWorld _ k tag
    exact List.filterMap_eq_nil_iff.mp silent event finding
  · rw [reading]
    rfl

/-- The ticks behind the one in which the expression was compiled. What the nodes hold from the tick
before has no influence. -/
theorem TickRun.make_of_compiled (count k : Nat) {registry : Registry Float}
    (tags : registry.tags = (Binding.latest given).map Binding.tag) (x : Float) :
    let run := TickRun.make (Binding.latest given) count k registry ⟨config, .compiled expression, x⟩
    run.values = (List.range' k count).map (expression.root.valueAt given) ∧ run.failure = none ∧
      run.events.filterMap Event.notice? = [] := by
  induction count generalizing k registry x with
  | zero => exact ⟨rfl, rfl, rfl⟩
  | succ count ih =>
    have outside := ofRegistry_setAll (Binding.nodup_latest given) tags k
    have evaluated : ExpressionNode.evaluate ⟨config, .compiled expression, x⟩
        (tickWorld (Binding.latest given) k) = _ :=
      ExpressionNode.evaluate_of_ok rfl (Compiled.call_tickWorld success k)
    rw [← outside] at evaluated
    have still := (Binding.tags_setAll (Binding.latest given) k registry).trans tags
    obtain ⟨values, failure, notices⟩ := ih (k + 1) still (expression.root.valueAt given k)
    have silent := Compiled.notices_call_tickWorld success k
    rw [TickRun.make_succ_of_ok evaluated, List.range'_succ]
    refine ⟨congrArg _ values, failure, ?_⟩
    rw [List.filterMap_append, notices, List.append_nil, outside]
    exact silent

end Compiled

section Runs

variable {registry : Registry Float}
  (tags : registry.tags = (Binding.latest given).map Binding.tag)

include tags

/-- A run that compiles its expression has a value for every tick, and reports what the compilation
reports. -/
theorem TickRun.make_of_success
    (success : (compile config (tickWorld (Binding.latest given) k) source).outcome =
      .ok expression) (count : Nat) :
    let run := TickRun.make (Binding.latest given) (count + 1) k registry
      (ExpressionNode.create config source)
    run.values = (List.range' k (count + 1)).map (expression.root.valueAt given) ∧
      run.failure = none ∧
      run.events.filterMap Event.notice? =
        (compile config (tickWorld (Binding.latest given) k) source).notices := by
  have outside := ofRegistry_setAll (Binding.nodup_latest given) tags k
  have made : (ExpressionNode.create config source).compile (tickWorld (Binding.latest given) k) =
      _ := ExpressionNode.compile_of_success rfl success
  have evaluated := ExpressionNode.evaluate_of_ok (congrArg Pass.outcome made)
    (Compiled.call_tickWorld success k)
  rw [← outside] at evaluated
  have still := (Binding.tags_setAll (Binding.latest given) k registry).trans tags
  obtain ⟨values, failure, notices⟩ :=
    TickRun.make_of_compiled success count (k + 1) still (expression.root.valueAt given k)
  have silent := Compiled.notices_call_tickWorld success k
  rw [TickRun.make_succ_of_ok evaluated, List.range'_succ]
  refine ⟨congrArg _ values, failure, ?_⟩
  rw [outside, made, List.filterMap_append, List.filterMap_append, silent, List.append_nil]
  exact (congrArg _ notices).trans (List.append_nil _)

/-- A run whose expression does not compile ends in its first tick. -/
theorem TickRun.make_of_error {error : CompileError}
    (failed : (compile config (tickWorld (Binding.latest given) k) source).outcome = .error error)
    (count : Nat) :
    TickRun.make (Binding.latest given) (count + 1) k registry
        (ExpressionNode.create config source) =
      ⟨[], (compile config (tickWorld (Binding.latest given) k) source).events,
        some (Failure.ofCompile error)⟩ := by
  have outside := ofRegistry_setAll (Binding.nodup_latest given) tags k
  have refused : (ExpressionNode.create config source).compile
      (tickWorld (Binding.latest given) k) = _ := ExpressionNode.compile_of_failure rfl failed
  have evaluated := ExpressionNode.evaluate_of_error (congrArg Pass.outcome refused)
  rw [← outside] at evaluated
  rw [TickRun.make_succ_of_error evaluated, outside, refused]
  rfl

end Runs

end TickGraph
