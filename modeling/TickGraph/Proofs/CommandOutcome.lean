import TickGraph.Command
import TickGraph.Proofs.BindingText
import TickGraph.Proofs.TickValues

namespace TickGraph

/-- The text of a file is a payload with this graph. -/
def File.Holds (file : File) (graph : Json) : Prop :=
  ∃ text payload, file.text = some text ∧ Json.read? text = some payload ∧
    payloadGraph payload = .ok graph

/-- There is a tick to evaluate, and all bindings are read. -/
structure EvaluateOptions.Valid (options : EvaluateOptions) (given : List Binding) : Prop where
  ticks : 1 ≤ options.ticks
  read : options.bindings.mapM Binding.read = .ok given

/-- What is printed when the results are saved. -/
def savedLine (target : Option String) : String :=
  target.elim "" fun name => "\nResults saved to " ++ name ++ "\n"

/-- What an evaluation leaves behind that has a value for every tick. -/
def EvaluateOptions.report (options : EvaluateOptions) (values : List Float)
    (notices : List Notice) : Report :=
  .success (String.join (tickLines 0 values) ++ savedLine options.target?) notices
    (options.target?.map fun _ => savedText values)

/-- The compilation in the first tick. -/
def EvaluateOptions.compilation (options : EvaluateOptions) (given : List Binding) (graph : Json) :
    Traced CompileError (Compiled Int) :=
  compile options.config (tickWorld (Binding.latest given) 0) (.wire graph)

theorem Except.mapError_eq_ok_iff {ε δ α : Type} {f : ε → δ} {run : Except ε α} {x : α} :
    run.mapError f = .ok x ↔ run = .ok x := by
  cases run <;> simp [Except.mapError]

theorem File.content_eq_ok_iff {file : File} {text : String} :
    file.content = .ok text ↔ file.text = some text := by
  unfold File.content
  cases file.text <;> simp

theorem File.json_eq_ok_iff {file : File} {text : String} {payload : Json} :
    file.json text = .ok payload ↔ Json.read? text = some payload := by
  unfold File.json Json.read?
  cases Json.read text with
  | ok d => simp [Except.toOption]
  | error broken => cases broken <;> simp [Except.toOption]

theorem Binding.readAll_eq_ok_iff {texts : List String} {kept : List Binding} :
    Binding.readAll texts = .ok kept ↔
      ∃ given, texts.mapM Binding.read = .ok given ∧ kept = Binding.latest given := by
  unfold Binding.readAll
  cases texts.mapM Binding.read with
  | error error => exact ⟨nofun, fun ⟨_, absent, _⟩ => nomatch absent⟩
  | ok given =>
    constructor
    · intro same
      exact ⟨given, rfl, (Except.ok.inj same).symm⟩
    · rintro ⟨_, same, latest⟩
      cases same
      exact congrArg Except.ok latest.symm

theorem EvaluateOptions.checkTicks_eq_ok_iff {options : EvaluateOptions} :
    options.checkTicks = .ok () ↔ 1 ≤ options.ticks := by
  unfold checkTicks
  split
  · rename_i few
    exact ⟨nofun, fun enough => absurd few (Int.not_lt.mpr enough)⟩
  · rename_i enough
    exact ⟨fun _ => Int.not_lt.mp enough, fun _ => rfl⟩

theorem CommandError.exitCode_ne_zero (error : CommandError) : error.exitCode ≠ 0 := by
  cases error <;> exact nofun

variable {file : File} {options : EvaluateOptions} {given : List Binding} {graph : Json}
  {root : Node}

theorem EvaluateOptions.Valid.exists_succ (valid : options.Valid given) :
    ∃ count, options.ticks.toNat = count + 1 := by
  have ticks := valid.ticks
  exact ⟨options.ticks.toNat - 1, by omega⟩

/-- What an evaluation starts from if nothing is wrong with the parameters and the file. Nothing can
go wrong with the registration. -/
theorem exists_evaluateInputs (valid : options.Valid given) (holds : file.Holds graph) :
    ∃ registry, evaluateInputs file options = .ok ⟨graph, Binding.latest given, registry⟩ ∧
      registry.tags = (Binding.latest given).map Binding.tag := by
  obtain ⟨text, payload, present, parsed, content⟩ := holds
  obtain ⟨registry, registered, tags⟩ := register_latest given
  refine ⟨registry, ?_, tags⟩
  have ticks := EvaluateOptions.checkTicks_eq_ok_iff.mpr valid.ticks
  have bindings := Binding.readAll_eq_ok_iff.mpr ⟨given, valid.read, rfl⟩
  unfold evaluateInputs
  rw [File.content_eq_ok_iff.mpr present, ticks, bindings]
  simp only [Except.mapError, bind, Except.bind, registered, File.json_eq_ok_iff.mpr parsed,
    content]
  rfl

/-- An evaluation starts with good parameters and a good file. -/
theorem of_evaluateInputs {inputs : EvaluateInputs}
    (accepted : evaluateInputs file options = .ok inputs) :
    ∃ given, options.Valid given ∧ file.Holds inputs.graph := by
  unfold evaluateInputs at accepted
  obtain ⟨text, present, accepted⟩ := Except.bind_eq_ok_iff.mp accepted
  obtain ⟨_, ticks, accepted⟩ := Except.bind_eq_ok_iff.mp accepted
  obtain ⟨kept, bindings, accepted⟩ := Except.bind_eq_ok_iff.mp accepted
  obtain ⟨_, _, accepted⟩ := Except.bind_eq_ok_iff.mp accepted
  obtain ⟨payload, parsed, accepted⟩ := Except.bind_eq_ok_iff.mp accepted
  obtain ⟨graph, content, accepted⟩ := Except.bind_eq_ok_iff.mp accepted
  cases accepted
  obtain ⟨given, read, _⟩ := Binding.readAll_eq_ok_iff.mp (Except.mapError_eq_ok_iff.mp bindings)
  exact ⟨given, ⟨EvaluateOptions.checkTicks_eq_ok_iff.mp ticks, read⟩, text, payload,
    File.content_eq_ok_iff.mp present, File.json_eq_ok_iff.mp parsed,
    Except.mapError_eq_ok_iff.mp content⟩

theorem evaluateCommand_of_rejected {error : CommandError}
    (rejected : evaluateInputs file options = .error error) :
    evaluateCommand file options = .ofError "" [] error := by
  unfold evaluateCommand
  rw [rejected]

section Accepted

variable (valid : options.Valid given) (holds : file.Holds graph)

include valid holds

/-- A graph that does not compile ends the run before the first line. -/
theorem evaluateCommand_of_error {error : CompileError}
    (failed : (options.compilation given graph).outcome = .error error) :
    evaluateCommand file options =
      .ofError "" (options.compilation given graph).notices
        (.evaluation (Failure.ofCompile error)) := by
  obtain ⟨registry, accepted, tags⟩ := exists_evaluateInputs valid holds
  obtain ⟨count, positive⟩ := valid.exists_succ
  unfold evaluateCommand
  rw [accepted]
  simp only [positive, TickRun.make_of_error tags failed]
  rfl

/-- A graph that compiles has a value in every tick, and all of them are printed. -/
theorem evaluateCommand_of_success {expression : Compiled Int}
    (success : (options.compilation given graph).outcome = .ok expression) :
    evaluateCommand file options =
      options.report ((List.range options.ticks.toNat).map (expression.root.valueAt given))
        (options.compilation given graph).notices := by
  obtain ⟨registry, accepted, tags⟩ := exists_evaluateInputs valid holds
  obtain ⟨count, positive⟩ := valid.exists_succ
  obtain ⟨values, failure, notices⟩ := TickRun.make_of_success tags success count
  unfold evaluateCommand
  rw [accepted]
  simp only [positive, values, failure, notices, List.range_eq_range']
  unfold EvaluateOptions.report savedLine
  cases options.target? with
  | none =>
    simp only [Option.elim_none, Option.map_none, String.append_empty]
    rfl
  | some name =>
    simp only [Option.elim_some, Option.map_some, String.append_assoc]
    rfl

theorem evaluateCommand_of_admits (read : Node.read graph Path.graph = .ok root)
    (admitted : options.config.Admits root) :
    evaluateCommand file options =
      options.report ((List.range options.ticks.toNat).map (root.valueAt given))
        (options.compilation given graph).notices := by
  have made : (Source.wire graph).root = .ok root := read
  have compiled : options.compilation given graph = _ := compile_of_admits made admitted
  exact evaluateCommand_of_success valid holds (congrArg Traced.outcome compiled)

end Accepted

/-- An evaluation fails without a line, or its parameters, its file and its graph are all good. -/
theorem evaluateCommand_cases (file : File) (options : EvaluateOptions) :
    (∃ notices error, evaluateCommand file options = .ofError "" notices error) ∨
    ∃ given graph root, options.Valid given ∧ file.Holds graph ∧
      Node.read graph Path.graph = .ok root ∧ options.config.Admits root := by
  cases accepted : evaluateInputs file options with
  | error error => exact Or.inl ⟨[], error, evaluateCommand_of_rejected accepted⟩
  | ok inputs =>
    obtain ⟨given, valid, holds⟩ := of_evaluateInputs accepted
    cases compiled : (options.compilation given inputs.graph).outcome with
    | error error => exact Or.inl ⟨_, _, evaluateCommand_of_error valid holds compiled⟩
    | ok expression =>
      obtain ⟨read, admitted⟩ := admits_of_compile compiled
      exact Or.inr ⟨given, inputs.graph, expression.root, valid, holds, read, admitted⟩

theorem evaluateCommand_succeeds_iff :
    (evaluateCommand file options).exitCode = 0 ↔
      ∃ given graph root, options.Valid given ∧ file.Holds graph ∧
        Node.read graph Path.graph = .ok root ∧ options.config.Admits root := by
  constructor
  · intro success
    rcases evaluateCommand_cases file options with ⟨notices, error, failed⟩ | good
    · rw [failed] at success
      exact absurd success error.exitCode_ne_zero
    · exact good
  · rintro ⟨given, graph, root, valid, holds, read, admitted⟩
    rw [evaluateCommand_of_admits valid holds read admitted]
    rfl

end TickGraph
