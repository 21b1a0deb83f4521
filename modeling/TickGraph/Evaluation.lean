import TickGraph.Failure

namespace TickGraph

/-- Registers values under their tags. A value is converted before its tag is looked at. -/
def register (values : List (Int × Number)) : Except Failure (Registry Float) :=
  values.foldlM (fun registry entry => do
    let x ← entry.2.toDouble.mapError Failure.ofRange
    (registry.add entry.1 x).mapError Failure.registry) Registry.empty

/-- The outside that a registry of values makes. -/
def World.ofRegistry (registry : Registry Float) : World Int :=
  World.ofTable (registry.entries.map fun entry => (entry.1, some (.float entry.2)))

/-- Compiles and evaluates once. Without values there is nothing to look references up in. -/
def evaluateOnce (config : Config) (source : Source) (values : Option (List (Int × Number))) :
    Traced Failure Float := do
  let registry ← Traced.ofExcept (values.mapM register)
  let world : World Int :=
    match registry with
    | none => ⟨none, fun _ => none⟩
    | some registry => World.ofRegistry registry
  let expression ← (compile config world source).mapError Failure.ofCompile
  (expression.call world).mapError Failure.ofRange

/-- A series of evaluations of one expression, each with a table of its own. -/
structure Recording where
  compilation : Traced CompileError (Compiled Int)
  ticks : List (Traced OutOfRange Float)

/-- Compiles while the first table is in force, then evaluates once for every table. Each table is
written entry by entry. -/
def Recording.make (config : Config) (source : Source) (first : List (Int × Option Number))
    (later : List (List (Int × Option Number))) : Recording :=
  let compilation := compile config (World.ofEntries first) source
  match compilation.outcome with
  | .error _ => ⟨compilation, []⟩
  | .ok expression =>
    ⟨compilation, (first :: later).map fun table => expression.call (World.ofEntries table)⟩

end TickGraph
