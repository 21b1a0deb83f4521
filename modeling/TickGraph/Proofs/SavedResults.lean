import TickGraph.Proofs.CommandOutcome
import TickGraph.Proofs.JsonReading
import TickGraph.Proofs.NumberText
import TickGraph.Proofs.PathText

namespace TickGraph

/-- The values of the ticks that an evaluation came through. -/
def evaluateResults (file : File) (options : EvaluateOptions) : List Float :=
  match evaluateInputs file options with
  | .error _ => []
  | .ok inputs =>
    (TickRun.make inputs.bindings options.ticks.toNat 0 inputs.registry
      (ExpressionNode.create options.config (.wire inputs.graph))).values

/-- A result as it is handed to the encoder, with nothing in place of NaN and the infinities. -/
def savedEntry (x : Float) : Option Float :=
  if x.isFinite then some x else none

/-- The encoder on one entry. -/
def encodeEntry : Option Float → Option String
  | none => some "null"
  | some x => if x.isFinite then some (Double.text x) else none

/-- The encoder on a list under one name, each entry on a line. There is at least one tick. -/
def encodeResults (entries : List (Option Float)) : Option String :=
  (entries.mapM encodeEntry).map fun texts =>
    "\x7b\n  \"results\": [\n    " ++ String.intercalate ",\n    " texts ++ "\n  ]\n\x7d"

/-- What the reader makes of an entry. -/
def savedJson (x : Float) : Json :=
  (savedEntry x).elim .null .float

/-- What stands in front of the first result. -/
def savedFront : List Char :=
  "\x7b\n  \"results\": [\n    ".toList

/-- What stands between two results. -/
def savedSeparator : List Char :=
  ",\n    ".toList

/-- What stands below the last result. -/
def savedClose : List Char :=
  "\n  ]\n\x7d".toList

/-- The lines of the ticks, from the texts of the results. -/
def resultLines (words : List String) : List String :=
  words.mapIdx fun k word => "tick " ++ toString (k + 1) ++ ": " ++ word ++ "\n"

/-- The printed text of a result, and what is saved of it. -/
inductive SavedAs : String → Json → Prop
  | nothing {word : String} (special : word ∈ Double.specialWords) : SavedAs word .null
  | number {word : String} {x : Float} (ordinary : word ∉ Double.specialWords)
      (printed : Double.text x = word) : SavedAs word (.float x)

section Encoding

variable {x : Float} {values : List Float}

theorem encodeEntry_savedEntry (x : Float) : encodeEntry (savedEntry x) = some (savedNumber x) := by
  unfold savedEntry savedNumber
  cases finite : x.isFinite <;> simp [encodeEntry, finite]

/-- The encoder takes whatever results there are. -/
theorem encodeResults_savedEntry (values : List Float) :
    encodeResults (values.map savedEntry) = some (savedText values) := by
  have written : (values.map savedEntry).mapM encodeEntry = some (values.map savedNumber) := by
    rw [Option.mapM_eq_some_iff, List.map_map, List.map_map]
    exact List.map_congr_left fun x _ => encodeEntry_savedEntry x
  rw [encodeResults, written]
  rfl

theorem savedAs_savedJson (x : Float) : SavedAs (Double.text x) (savedJson x) := by
  unfold savedJson savedEntry
  cases finite : x.isFinite with
  | true =>
    refine .number ?_ rfl
    rw [Double.text_mem_specialWords_iff, finite]
    exact nofun
  | false => exact .nothing (Double.text_mem_specialWords_iff.mpr finite)

theorem toList_savedText (values : List Float) :
    (savedText values).toList = savedFront ++
      (savedSeparator.intercalate (values.map fun x => (savedNumber x).toList) ++ savedClose) := by
  unfold savedText
  rw [String.toList_append, String.toList_append, String.toList_intercalate, List.map_map,
    List.append_assoc]
  rfl

/-- The file as characters: the first result, and a separator before each other one. -/
theorem toList_savedText_cons (x : Float) (rest : List Float) :
    (savedText (x :: rest)).toList = savedFront ++ ((savedNumber x).toList ++
      ((rest.map fun y => (savedNumber y).toList).flatMap (savedSeparator ++ ·) ++ savedClose)) := by
  rw [toList_savedText, List.map_cons, List.intercalate_cons_eq, List.append_assoc]

theorem isUpper_of_all {text : List Char} (all : (text.all fun c => !c.isUpper) = true) {c : Char}
    (member : c ∈ text) : c.isUpper = false := by
  simpa using List.all_eq_true.mp all c member

/-- What digits and the other characters of numbers have in common. -/
theorem of_isNumeral {p : Char → Bool} {c : Char} (digits : c.isDigit = true → p c = true)
    (others : ['-', '+', '.', 'e', 'i', 'n', 'f', 'a'].all p = true) (numeral : isNumeral c = true) :
    p c = true := by
  rw [isNumeral, Bool.or_eq_true] at numeral
  rcases numeral with digit | other
  · exact digits digit
  · exact List.all_eq_true.mp others c (List.contains_iff_mem.mp other)

theorem isUpper_of_isNumeral {c : Char} (numeral : isNumeral c = true) : c.isUpper = false := by
  have lower : (!c.isUpper) = true := by
    refine of_isNumeral (p := fun c => !c.isUpper) (fun digit => ?_) rfl numeral
    simp only [Char.isDigit, Bool.and_eq_true, decide_eq_true_eq] at digit
    have plain : c.isUpper = false :=
      decide_eq_false fun upper => absurd (UInt32.le_trans upper.1 digit.2) (by decide)
    rw [plain, Bool.not_false]
  simpa using lower

theorem isUpper_of_mem_savedNumber {c : Char} (member : c ∈ (savedNumber x).toList) :
    c.isUpper = false := by
  unfold savedNumber at member
  split at member
  · exact isUpper_of_isNumeral (Numerals.ofDouble x c member)
  · exact isUpper_of_all rfl member

/-- No capital letter stands in the file. -/
theorem isUpper_of_mem_savedText {c : Char} (member : c ∈ (savedText values).toList) :
    c.isUpper = false := by
  cases values with
  | nil => exact isUpper_of_all rfl member
  | cons x rest =>
    rw [toList_savedText_cons] at member
    simp only [List.mem_append, List.mem_flatMap, List.mem_map] at member
    rcases member with front | first | ⟨word, ⟨y, _, rfl⟩, separator | later⟩ | close
    · exact isUpper_of_all rfl front
    · exact isUpper_of_mem_savedNumber first
    · exact isUpper_of_all rfl separator
    · exact isUpper_of_mem_savedNumber later
    · exact isUpper_of_all rfl close

end Encoding

section Reading

variable {x : Float} {rest : List Float}

theorem isWordChar_of_isNumeral {c : Char} (numeral : isNumeral c = true) :
    Json.isWordChar c = true := by
  refine of_isNumeral (fun digit => ?_) rfl numeral
  simp [Json.isWordChar, Char.isAlphanum, digit]

/-- A result is read back from what is saved of it. -/
theorem wordOf_savedNumber
    (reads : x.isFinite = true → Json.ofWord (Double.text x).toList = some (.float x)) :
    Json.WordOf (savedNumber x).toList (savedJson x) := by
  unfold savedNumber savedJson savedEntry
  cases finite : x.isFinite with
  | true =>
    exact ⟨Double.text_ne_empty x, fun c member =>
      isWordChar_of_isNumeral (Numerals.ofDouble x c member), reads finite⟩
  | false =>
    change Json.WordOf "null".toList .null
    have letters : "null".toList.all Json.isWordChar = true := rfl
    exact ⟨by decide, List.all_eq_true.mp letters, rfl⟩

/-- The whole file, from the first bracket to the last one. -/
theorem reads_savedText (reads : ∀ y ∈ x :: rest, y.isFinite = true →
      Json.ofWord (Double.text y).toList = some (.float y)) :
    Json.Reads (savedText (x :: rest)).toList (.atValue [])
      (.complete (.obj [("results", .arr ((x :: rest).map savedJson))]) []) := by
  obtain ⟨first, others⟩ := List.forall_mem_cons.mp reads
  have words : List.Forall₂ Json.WordOf (rest.map fun y => (savedNumber y).toList)
      (rest.map savedJson) := by
    rw [List.forall₂_map_left_iff, List.forall₂_map_right_iff, List.forall₂_same]
    exact fun y member => wordOf_savedNumber (others y member)
  have blank : "\n    ".toList.all Json.isBlank = true := rfl
  have last : "\n  ".toList.all Json.isBlank = true := rfl
  have opened : Json.Reads savedFront (.atValue []) (.atFirstItem [.object [] "results"]) :=
    fun start => ⟨start + 21, rfl⟩
  have items := Json.Reads.list (List.all_eq_true.mp blank) (List.all_eq_true.mp last)
    (wordOf_savedNumber first) words (.first [.object [] "results"])
  have closed : Json.Reads "\n\x7d".toList
      (.complete (.arr ((x :: rest).map savedJson)) [.object [] "results"])
      (.complete (.obj [("results", .arr ((x :: rest).map savedJson))]) []) :=
    fun start => ⟨start + 2, rfl⟩
  have whole := opened.append (items.append closed)
  simp only [List.append_assoc] at whole
  rw [toList_savedText_cons]
  exact whole

/-- The saved file is read back as the list of its results under one name. -/
theorem read?_savedText {values : List Float} (nonempty : values ≠ [])
    (reads : ∀ x ∈ values, x.isFinite = true →
      Json.ofWord (Double.text x).toList = some (.float x)) :
    Json.read? (savedText values) = some (.obj [("results", .arr (values.map savedJson))]) := by
  obtain ⟨x, rest, rfl⟩ := List.exists_cons_of_ne_nil nonempty
  have first (further : List Char) : (savedFront ++ further).head? = some '\x7b' := rfl
  refine Json.read?_of_reads ?_ (reads_savedText reads)
  rw [toList_savedText_cons, first]
  decide

end Reading

section Runs

variable {file : File} {options : EvaluateOptions} {values : List Float}

/-- The results are the values of the tree, tick by tick. -/
theorem evaluateResults_of_admits {given : List Binding} {graph : Json} {root : Node}
    (valid : options.Valid given) (holds : file.Holds graph)
    (read : Node.read graph Path.graph = .ok root) (admitted : options.config.Admits root) :
    evaluateResults file options = (List.range options.ticks.toNat).map (root.valueAt given) := by
  obtain ⟨registry, accepted, tags⟩ := exists_evaluateInputs valid holds
  obtain ⟨count, positive⟩ := valid.exists_succ
  have made : (Source.wire graph).root = .ok root := read
  have compiled : options.compilation given graph = _ := compile_of_admits made admitted
  obtain ⟨values, _⟩ := TickRun.make_of_success tags (congrArg Traced.outcome compiled) count
  unfold evaluateResults
  rw [accepted]
  simp only [positive, values, List.range_eq_range']

/-- A run that succeeds has a result for every tick, and reports its results. -/
theorem evaluateCommand_results (success : (evaluateCommand file options).exitCode = 0) :
    ((evaluateResults file options).length : Int) = options.ticks ∧ 1 ≤ options.ticks ∧
      ∃ notices, evaluateCommand file options =
        options.report (evaluateResults file options) notices := by
  obtain ⟨given, graph, root, valid, holds, read, admitted⟩ := evaluateCommand_succeeds_iff.mp success
  rw [evaluateResults_of_admits valid holds read admitted,
    evaluateCommand_of_admits valid holds read admitted, List.length_map, List.length_range]
  have ticks := valid.ticks
  exact ⟨by omega, ticks, _, rfl⟩

/-- Whether the results are to be saved makes no difference to how a run ends. -/
theorem exitCode_evaluateCommand_output (file : File) (options : EvaluateOptions)
    (output : Option String) :
    (evaluateCommand file { options with output := output }).exitCode =
      (evaluateCommand file options).exitCode := by
  unfold evaluateCommand
  have inputs : evaluateInputs file { options with output := output } = evaluateInputs file options :=
    rfl
  have config : EvaluateOptions.config { options with output := output } = options.config := rfl
  rw [inputs, config]
  cases evaluateInputs file options with
  | error error => rfl
  | ok inputs =>
    dsimp only
    cases (TickRun.make inputs.bindings options.ticks.toNat 0 inputs.registry
        (ExpressionNode.create options.config (.wire inputs.graph))).failure with
    | some failure => rfl
    | none =>
      cases options.target? <;>
        cases (EvaluateOptions.target? { options with output := output }) <;> rfl

theorem tickLines_eq_mapIdx (k : Nat) (values : List Float) :
    tickLines k values = (values.map Double.text).mapIdx fun i word =>
      "tick " ++ toString (k + i + 1) ++ ": " ++ word ++ "\n" := by
  induction values generalizing k with
  | nil => rfl
  | cons x rest ih =>
    rw [tickLines, ih, List.map_cons, List.mapIdx_cons]
    simp only [Nat.add_zero, Nat.add_assoc, Nat.add_comm 1]

theorem tickLines_eq_resultLines (values : List Float) :
    tickLines 0 values = resultLines (values.map Double.text) := by
  simp only [tickLines_eq_mapIdx, Nat.zero_add, resultLines]

/-- What an evaluation saves and what it prints are of the same results. There is a line and an entry
for each tick, in the order of the ticks; where a line shows a word for NaN or an infinity the entry is
empty, and else it is the number that the line shows, as long as numbers are read back from their texts.
The encoder that refuses NaN and the infinities never refuses the results, and none of the words that it
would have for them stands in the file. -/
theorem evaluateCommand_saved_as_printed {name : String} (target : options.target? = some name)
    (success : (evaluateCommand file options).exitCode = 0) :
    let results := evaluateResults file options
    let words := results.map Double.text
    ∃ text, (results.length : Int) = options.ticks ∧
      (evaluateCommand file options).printed =
        String.join (resultLines words) ++ ("\nResults saved to " ++ name ++ "\n") ∧
      (evaluateCommand file options).saved = some text ∧
      encodeResults (results.map savedEntry) = some text ∧
      (∀ output, (evaluateCommand file { options with output := output }).exitCode = 0) ∧
      ¬ "NaN".toList <:+: text.toList ∧ ¬ "Infinity".toList <:+: text.toList ∧
      ((∀ x ∈ results, x.isFinite = true →
          Json.ofWord (Double.text x).toList = some (.float x)) →
        ∃ entries, Json.read? text = some (.obj [("results", .arr entries)]) ∧
          List.Forall₂ SavedAs words entries) := by
  intro results words
  obtain ⟨length, ticks, notices, report⟩ := evaluateCommand_results success
  have nonempty : results ≠ [] := by
    intro empty
    change (results.length : Int) = options.ticks at length
    rw [empty, List.length_nil] at length
    omega
  have unsaid {c : Char} (capital : c.isUpper = true) : c ∉ (savedText results).toList := by
    intro member
    rw [isUpper_of_mem_savedText member] at capital
    cases capital
  refine ⟨savedText results, length, ?_, ?_, encodeResults_savedEntry _, ?_, ?_, ?_, ?_⟩
  · rw [report, EvaluateOptions.report, tickLines_eq_resultLines, target]
    rfl
  · rw [report, EvaluateOptions.report, target]
    rfl
  · intro output
    rw [exitCode_evaluateCommand_output, success]
  · exact fun inside => unsaid rfl (inside.subset (List.mem_cons_self ..))
  · exact fun inside => unsaid rfl (inside.subset (List.mem_cons_self ..))
  · intro reads
    refine ⟨_, read?_savedText nonempty reads, ?_⟩
    rw [List.forall₂_map_left_iff, List.forall₂_map_right_iff, List.forall₂_same]
    exact fun x _ => savedAs_savedJson x

/-- Results of all kinds: NaN, a number, an infinity. -/
theorem evaluateCommand_saved_as_printed_not_finite :
    let file : File :=
      ⟨"graph.json", some "\x7b\"graph\": \x7b\"type\": \"value\", \"tag\": 1\x7d\x7d"⟩
    let options : EvaluateOptions := ⟨["1=nan,2.5,-inf"], 3, false, false, some "out.json"⟩
    ∃ text entries, (evaluateCommand file options).printed =
        "tick 1: nan\ntick 2: 2.5\ntick 3: -inf\n\nResults saved to out.json\n" ∧
      (evaluateCommand file options).saved = some text ∧ ¬ "NaN".toList <:+: text.toList ∧
      Json.read? text = some (.obj [("results", .arr entries)]) ∧
      List.Forall₂ SavedAs ["nan", "2.5", "-inf"] entries := by
  intro file options
  have success : (evaluateCommand file options).exitCode = 0 := by decide +kernel
  have results : evaluateResults file options =
      [Double.notANumber, 2.5, -Double.positiveInfinity] := by decide +kernel
  have words : (evaluateResults file options).map Double.text = ["nan", "2.5", "-inf"] := by
    decide +kernel
  obtain ⟨text, _, printed, saved, _, _, unsaid, _, decoded⟩ :=
    @evaluateCommand_saved_as_printed file options "out.json" rfl success
  have finite : ∀ x ∈ [Double.notANumber, 2.5, -Double.positiveInfinity],
      x.isFinite = true → x = 2.5 := by decide +kernel
  have shown : Double.text 2.5 = "2.5" := by decide +kernel
  have word : Json.ofWord "2.5".toList = some (.float (Double.ofDecimal false 25 (-1))) := rfl
  have number : Double.ofDecimal false 25 (-1) = 2.5 := by decide +kernel
  have reads : ∀ x ∈ evaluateResults file options, x.isFinite = true →
      Json.ofWord (Double.text x).toList = some (.float x) := by
    rw [results]
    intro x member ordinary
    obtain rfl := finite x member ordinary
    rw [shown, word, number]
  obtain ⟨entries, read, agree⟩ := decoded reads
  rw [words] at agree printed
  exact ⟨text, entries, printed.trans (by decide), saved, unsaid, read, agree⟩

end Runs

end TickGraph
