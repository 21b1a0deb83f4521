import TickGraph.Json.Reader
import TickGraph.TickRun

namespace TickGraph

/-- A file by name, with its text if it exists. Each line break in the text is one character. -/
structure File where
  name : String
  text : Option String
deriving Inhabited

structure EvaluateOptions where
  bindings : List String
  ticks : Int
  strict : Bool
  perTickReferences : Bool
  output : Option String
deriving Inhabited

inductive Command where
  | version
  | describe (file : File)
  | evaluate (file : File) (options : EvaluateOptions)
deriving Inhabited

/-- What ends a command. The last two kinds break it off: nothing is said about them. -/
inductive CommandError where
  | fileMissing (name : String)
  | ticksBelowOne
  | binding (error : InvalidBinding)
  | notJson (name : String) (reason : Json.Reason) (place : Json.Place)
  | payload (error : InvalidPayload)
  | evaluation (failure : Failure)
  | integerTooLong (digits : Nat)
  | notEncodable (line : Text)
deriving DecidableEq, Inhabited

def CommandError.message? : CommandError → Option Text
  | .fileMissing name =>
    some ("Invalid value for 'GRAPH_FILE': File '" ++ name ++ "' does not exist.")
  | .ticksBelowOne => some "Invalid value for --ticks: must be at least 1"
  | .binding error => some error.message
  | .notJson name reason place =>
    some (name ++ " is not valid JSON: " ++ reason.text ++ ": " ++ place.text)
  | .payload error => some error.message
  | .evaluation failure => some failure.message
  | .integerTooLong _ => none
  | .notEncodable _ => none

/-- Bad parameters end with `2`, and everything that is wrong with the graph ends with `1`. -/
def CommandError.exitCode : CommandError → Nat
  | .fileMissing _ => 2
  | .ticksBelowOne => 2
  | .binding _ => 2
  | _ => 1

/-- What is said about an error. Halves of characters are shown by their numbers. -/
def CommandError.complaint (error : CommandError) : String :=
  match error.message? with
  | some message => "Error: " ++ message.escaped
  | none => ""

/-- All that a command leaves behind. -/
structure Report where
  exitCode : Nat
  printed : String
  complaint : String
  notices : List Notice
  saved : Option String
deriving Inhabited

def Report.success (printed : String) (notices : List Notice) (saved : Option String) : Report :=
  ⟨0, printed, "", notices, saved⟩

def Report.ofError (printed : String) (notices : List Notice) (error : CommandError) : Report :=
  ⟨error.exitCode, printed, error.complaint, notices, none⟩

/-- The text of a file that has to exist. -/
def File.content (file : File) : Except CommandError String :=
  match file.text with
  | some text => .ok text
  | none => .error (.fileMissing file.name)

def File.json (file : File) (text : String) : Except CommandError Json :=
  match Json.read text with
  | .ok d => .ok d
  | .error (.malformed reason position) =>
    .error (.notJson file.name reason (.of text.toList position))
  | .error (.integerTooLong digits) => .error (.integerTooLong digits)

/-- The file that the results go to. An empty name is none. -/
def EvaluateOptions.target? (options : EvaluateOptions) : Option String :=
  options.output.filter (· ≠ "")

def EvaluateOptions.config (options : EvaluateOptions) : Config :=
  ⟨if options.perTickReferences then .tick else .compile, options.strict⟩

/-- What an evaluation starts from: a graph, one binding for each bound tag, and the nodes of these
tags. -/
structure EvaluateInputs where
  graph : Json
  bindings : List Binding
  registry : Registry Float

def EvaluateOptions.checkTicks (options : EvaluateOptions) : Except CommandError Unit :=
  if options.ticks < 1 then .error .ticksBelowOne else .ok ()

/-- The checks come in the order of the parameters: the file, the ticks and the bindings. Then the
file is read. -/
def evaluateInputs (file : File) (options : EvaluateOptions) :
    Except CommandError EvaluateInputs := do
  let text ← file.content
  options.checkTicks
  let bindings ← (Binding.readAll options.bindings).mapError CommandError.binding
  let registry ← (Binding.register bindings).mapError CommandError.evaluation
  let payload ← file.json text
  let graph ← (payloadGraph payload).mapError fun error => .evaluation (.payload error)
  pure ⟨graph, bindings, registry⟩

/-- Evaluates a graph once for each tick. -/
def evaluateCommand (file : File) (options : EvaluateOptions) : Report :=
  match evaluateInputs file options with
  | .error error => Report.ofError "" [] error
  | .ok inputs =>
    let node := ExpressionNode.create options.config (.wire inputs.graph)
    let run := TickRun.make inputs.bindings options.ticks.toNat 0 inputs.registry node
    let printed := String.join (tickLines 0 run.values)
    let notices := run.events.filterMap Event.notice?
    match run.failure with
    | some failure => Report.ofError printed notices (.evaluation failure)
    | none =>
      match options.target? with
      | none => Report.success printed notices none
      | some name =>
        Report.success (printed ++ "\nResults saved to " ++ name ++ "\n") notices
          (some (savedText run.values))

/-- The tags in ascending order, or a word if there are none. -/
def referenceList (root : Node) : String :=
  match ascending root.references with
  | [] => "none"
  | tags => String.intercalate ", " (tags.map toString)

/-- What is said about an expression, line by line. -/
def description (root : Node) : List Text :=
  ["Formula:    " ++ root.formula, "Nodes:      " ++ toString root.count,
    "Depth:      " ++ toString root.depth, "References: " ++ referenceList root]

/-- Prints lines. The first one that has no encoding breaks it off, behind what was printed so far. -/
def printLines (printed : String) : List Text → Report
  | [] => .success printed [] none
  | line :: rest =>
    match line.string? with
    | some s => printLines (printed ++ s ++ "\n") rest
    | none => .ofError printed [] (.notEncodable line)

def describedRoot (file : File) : Except CommandError Node := do
  let text ← file.content
  let payload ← file.json text
  let graph ← (payloadGraph payload).mapError CommandError.payload
  (Node.read graph Path.graph).mapError fun fault => .evaluation (.malformed fault)

/-- Shows the formula, the size and the references of a graph. -/
def describeCommand (file : File) : Report :=
  match describedRoot file with
  | .error error => Report.ofError "" [] error
  | .ok root => printLines "" (description root)

def Command.run : Command → Report
  | .version => Report.success "animatedexpr, version 0.1.0\n" [] none
  | .describe file => describeCommand file
  | .evaluate file options => evaluateCommand file options

/-- The notices that are shown; those of the lowest level only on demand. -/
def Report.shown (report : Report) (verbose : Bool) : List Notice :=
  report.notices.filter fun notice => verbose || notice.level != .debug

end TickGraph
