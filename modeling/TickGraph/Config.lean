import TickGraph.Text.Blank

namespace TickGraph

/-- When a reference is looked up: once, while compiling, or again in every evaluation. -/
inductive ReferenceMode where
  | compile
  | tick
deriving DecidableEq, Inhabited, Repr

def ReferenceMode.all : List ReferenceMode :=
  [.compile, .tick]

def ReferenceMode.name : ReferenceMode → String
  | .compile => "compile"
  | .tick => "tick"

/-- A strict configuration refuses tags that have no evaluation, instead of taking them as zero. -/
structure Config where
  mode : ReferenceMode := .compile
  strict : Bool := false
deriving DecidableEq, Inhabited, Repr

def Config.standard : Config :=
  ⟨.compile, false⟩

/-- A setting without the white space around it, in lower case. -/
def normalized (setting : String) : String :=
  String.ofList ((trimChars isBlank setting.toList).map lowerToAscii)

def ReferenceMode.ofSetting? (setting : String) : Option ReferenceMode :=
  ReferenceMode.all.find? fun mode => mode.name == normalized setting

/-- The words that switch a setting on. -/
def isOn (setting : String) : Bool :=
  ["1", "true", "yes", "on"].contains (normalized setting)

/-- A mode that is none, as it was written. -/
structure InvalidMode where
  setting : String
deriving DecidableEq, Inhabited

def InvalidMode.message (error : InvalidMode) : String :=
  "Invalid ANIMATEDEXPR_REFERENCE_MODE '" ++ error.setting ++ "'. Valid: [" ++
    String.intercalate ", " (ReferenceMode.all.map fun mode => "'" ++ mode.name ++ "'") ++ "]"

/-- The configuration for two settings that may be absent. -/
def Config.ofSettings (mode strict : Option String) : Except InvalidMode Config :=
  let strict := isOn (strict.getD "")
  match mode with
  | none => .ok ⟨.compile, strict⟩
  | some setting =>
    match ReferenceMode.ofSetting? setting with
    | some mode => .ok ⟨mode, strict⟩
    | none => .error ⟨setting⟩

end TickGraph
