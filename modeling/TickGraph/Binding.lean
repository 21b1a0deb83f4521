import TickGraph.Text.Numeral

namespace TickGraph

/-- A tag and its values; there is at least one. -/
structure Binding where
  tag : Int
  first : Float
  later : List Float
deriving Inhabited

def Binding.values (binding : Binding) : List Float :=
  binding.first :: binding.later

theorem Binding.min_lt_length (binding : Binding) (k : Nat) :
    min k (binding.values.length - 1) < binding.values.length := by
  have nonempty : 0 < binding.values.length := Nat.succ_pos _
  omega

/-- The value in tick `k`, counted from zero. After its last value a binding stays. -/
def Binding.valueAt (binding : Binding) (k : Nat) : Float :=
  binding.values.get ⟨min k (binding.values.length - 1), binding.min_lt_length k⟩

theorem Binding.getElem?_values (binding : Binding) (k : Nat) :
    binding.values[min k (binding.values.length - 1)]? = some (binding.valueAt k) :=
  List.getElem?_eq_getElem (binding.min_lt_length k)

/-- The pieces of a text between commas; there is at least one. -/
def pieces : List Char → List Char × List (List Char)
  | [] => ([], [])
  | c :: rest =>
    let (piece, more) := pieces rest
    if c = ',' then ([], piece :: more) else (c :: piece, more)

/-- Reads a binding: a tag, the first equality sign and the values behind it. -/
def Binding.read? (text : String) : Option Binding := do
  let chars := text.toList
  match chars.dropWhile (· ≠ '=') with
  | '=' :: c :: rest =>
    let tag ← Numeral.int? (chars.takeWhile (· ≠ '='))
    let (piece, more) := pieces (c :: rest)
    let first ← Numeral.double? piece
    let later ← more.mapM Numeral.double?
    some ⟨tag, first, later⟩
  | _ => none

/-- A text that is no binding. -/
structure InvalidBinding where
  text : String
deriving DecidableEq, Inhabited

def InvalidBinding.message (error : InvalidBinding) : String :=
  "Invalid value for --bind: '" ++ error.text ++ "' (expected TAG=VALUE or TAG=V1,V2,...)"

def Binding.read (text : String) : Except InvalidBinding Binding :=
  match Binding.read? text with
  | some binding => .ok binding
  | none => .error ⟨text⟩

/-- Writes a binding into a list. A tag that is there already keeps its place and takes the new
values. -/
def Binding.put (binding : Binding) : List Binding → List Binding
  | [] => [binding]
  | other :: rest =>
    if other.tag = binding.tag then binding :: rest else other :: binding.put rest

/-- Reads all bindings, and keeps the last one of each tag. -/
def Binding.readAll (texts : List String) : Except InvalidBinding (List Binding) :=
  (texts.mapM Binding.read).map fun bindings =>
    bindings.foldl (fun kept binding => binding.put kept) []

end TickGraph
