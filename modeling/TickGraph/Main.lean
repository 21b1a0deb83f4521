import TickGraph.Command

namespace TickGraph

/-- What the arguments ask for, apart from the file's text. -/
structure Arguments where
  verbose : Bool
  version : Bool
  word : Option String
  file : Option String
  options : EvaluateOptions

def Arguments.start : Arguments :=
  ⟨false, false, none, none, ⟨[], 1, false, false, none⟩⟩

/-- Takes a word that is no option: first the command, then the file. -/
def Arguments.word? (arguments : Arguments) (word : String) : Option Arguments :=
  match arguments.word, arguments.file with
  | none, _ => some { arguments with word := some word }
  | some _, none => some { arguments with file := some word }
  | some _, some _ => none

/-- Takes an option that stands alone. -/
def Arguments.flag? (arguments : Arguments) (word : String) : Option Arguments :=
  if word = "--verbose" ∨ word = "-v" then some { arguments with verbose := true }
  else if word = "--version" then some { arguments with version := true }
  else if word = "--strict" then
    some { arguments with options := { arguments.options with strict := true } }
  else if word = "--per-tick-references" then
    some { arguments with options := { arguments.options with perTickReferences := true } }
  else none

/-- Takes an option with the value behind it. -/
def Arguments.valued? (arguments : Arguments) (option value : String) : Option Arguments :=
  if option = "--bind" ∨ option = "-b" then
    some { arguments with
      options := { arguments.options with bindings := arguments.options.bindings ++ [value] } }
  else if option = "--ticks" ∨ option = "-n" then
    (Numeral.int? value.toList).map fun ticks =>
      { arguments with options := { arguments.options with ticks := ticks } }
  else if option = "--output" ∨ option = "-o" then
    some { arguments with options := { arguments.options with output := some value } }
  else none

def Arguments.ofWords (arguments : Arguments) : List String → Option Arguments
  | [] => some arguments
  | [word] =>
    match arguments.flag? word with
    | some next => some next
    | none => if word.startsWith "-" then none else arguments.word? word
  | word :: value :: rest =>
    match arguments.flag? word with
    | some next => next.ofWords (value :: rest)
    | none =>
      match arguments.valued? word value with
      | some next => next.ofWords rest
      | none =>
        if word.startsWith "-" then none
        else (arguments.word? word).bind fun next => next.ofWords (value :: rest)

def Arguments.command? (arguments : Arguments) (text : Option String) : Option Command :=
  if arguments.version then some .version
  else
    match arguments.word, arguments.file with
    | some "describe", some name => some (.describe ⟨name, text⟩)
    | some "evaluate", some name => some (.evaluate ⟨name, text⟩ arguments.options)
    | _, _ => none

def usage : String :=
  "Usage: animatedexpr [--version] [-v] evaluate|describe GRAPH_FILE [-b TAG=V1,V2,...] " ++
    "[-n TICKS] [-o FILE] [--strict] [--per-tick-references]"

/-- A text with one character for each line break. -/
def plainBreaks : List Char → List Char
  | '\r' :: '\n' :: rest => '\n' :: plainBreaks rest
  | '\r' :: rest => '\n' :: plainBreaks rest
  | c :: rest => c :: plainBreaks rest
  | [] => []

/-- The text of a file, if there is such a file. -/
def readText (name : Option String) : IO (Option String) := do
  match name with
  | none => pure none
  | some name =>
    try
      let text ← IO.FS.readFile name
      pure (some (String.ofList (plainBreaks text.toList)))
    catch _ => pure none

/-- Prints a report and saves what it wants saved. -/
def Arguments.publish (arguments : Arguments) (report : Report) : IO Unit := do
  for notice in report.shown arguments.verbose do
    IO.eprintln (notice.level.name ++ " - " ++ notice.text.escaped)
  match report.saved, arguments.options.target? with
  | some text, some name => IO.FS.writeFile name text
  | _, _ => pure ()
  IO.print report.printed
  if report.complaint.length ≠ 0 then IO.eprintln report.complaint

end TickGraph

open TickGraph in
def main (words : List String) : IO UInt32 := do
  match Arguments.start.ofWords words with
  | none =>
    IO.eprintln usage
    pure 2
  | some arguments =>
    let text ← readText arguments.file
    match arguments.command? text with
    | none =>
      IO.eprintln usage
      pure 2
    | some command =>
      let report := command.run
      arguments.publish report
      pure report.exitCode.toUInt32
