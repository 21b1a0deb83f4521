import Mathlib
import TickGraph.Proofs.Acceptance
import TickGraph.Proofs.Places

namespace TickGraph

/-- The signs that stand between the words of a formula. -/
def formulaSigns : List Letter :=
  [.char '(', .char ')', .char ',', .char '?']

/-- A word of a formula. -/
def Signless (word : List Letter) : Prop :=
  ∀ c ∈ word, c ∉ formulaSigns

/-- The characters of the text of a number. -/
def isNumeral (c : Char) : Bool :=
  c.isDigit || ['-', '+', '.', 'e', 'i', 'n', 'f', 'a'].contains c

def Numerals (word : List Char) : Prop :=
  ∀ c ∈ word, isNumeral c = true

mutual

/-- A tree without the fields that its unsupported nodes came with. -/
def Node.bare : Node → Node
  | .number x => .number x
  | .reference tag => .reference tag
  | .variadic op a b others => .variadic op a.bare b.bare (Node.bares others)
  | .unary op v => .unary op v.bare
  | .comparison op left right => .comparison op left.bare right.bare
  | .conditional expr ifNode elseNode => .conditional expr.bare ifNode.bare elseNode.bare
  | .unsupported tag _ => .unsupported tag []

def Node.bares : List Node → List Node
  | [] => []
  | node :: rest => node.bare :: Node.bares rest

end

/-- The formulas of operands, one behind the other. -/
def formulaList (nodes : List Node) : List Letter :=
  [.char ',', .char ' '].intercalate (nodes.map fun node => node.formula.letters)

/-- The word in front of a formula and what stands behind it. -/
inductive Node.Spelled : Node → List Letter → List Letter → Prop
  | number (x : Float) : Spelled (.number x) (Double.text x : Text).letters []
  | reference (tag : Int) :
      Spelled (.reference tag) (("value#" ++ toString tag : String) : Text).letters []
  | unsupported (tag : Text) (raw : Json.Fields) :
      Spelled (.unsupported tag raw) tag.letters [.char '?']
  | operator {node : Node} {op : Operator} (named : node.operator? = some op)
      (operands : node.children ≠ []) :
      Spelled node (op.tag : Text).letters (.char '(' :: (formulaList node.children ++ [.char ')']))

theorem Node.bares_eq_map (nodes : List Node) : Node.bares nodes = nodes.map Node.bare := by
  induction nodes with
  | nil => rfl
  | cons node rest ih => rw [Node.bares, ih, List.map_cons]

/-- A tree is given by its operator and its operands. -/
theorem Node.bare_eq_of_children {left right : Node} {op : Operator}
    (named : left.operator? = some op) (other : right.operator? = some op)
    (operands : left.children ≠ [])
    (children : left.children.map Node.bare = right.children.map Node.bare) :
    left.bare = right.bare := by
  cases left <;> cases named <;> cases right <;> cases other <;>
    simp_all [Node.children, Node.bare, Node.bares_eq_map]

namespace Numerals

variable {word further : List Char} {c : Char}

theorem of_all (all : word.all isNumeral = true) : Numerals word :=
  List.all_eq_true.mp all

theorem append (front : Numerals word) (back : Numerals further) : Numerals (word ++ further) :=
  List.forall_mem_append.mpr ⟨front, back⟩

theorem cons (first : isNumeral c = true) (rest : Numerals word) : Numerals (c :: word) :=
  List.forall_mem_cons.mpr ⟨first, rest⟩

theorem toDigits (n : Nat) : Numerals (Nat.toDigits 10 n) := by
  intro c member
  have digit := Nat.isDigit_of_mem_toDigits (by decide) (by decide) member
  rw [isNumeral, digit, Bool.true_or]

theorem zeros (count : Int) : Numerals (Double.zeros count) := by
  intro c member
  rw [List.eq_of_mem_replicate member]
  decide

theorem pointed (digits : Numerals word) (point : Int) : Numerals (Double.pointed word point) := by
  unfold Double.pointed
  split
  · exact .cons (by decide) (.cons (by decide) ((zeros _).append digits))
  split
  · exact (digits.append (zeros _)).append (.of_all rfl)
  · refine .append (fun c member => digits c (List.mem_of_mem_take member)) (.cons (by decide) ?_)
    exact fun c member => digits c (List.mem_of_mem_drop member)

theorem withExponent (digits : Numerals word) (exponent : Int) (width : Nat) :
    Numerals (Double.withExponent word exponent width) := by
  have fraction : Numerals (if word.length ≤ 1 then [] else '.' :: word.drop 1) := by
    split
    · exact List.forall_mem_nil _
    · exact .cons (by decide) fun c member => digits c (List.mem_of_mem_drop member)
  have first : Numerals (word.take 1) := fun c member => digits c (List.mem_of_mem_take member)
  refine (first.append fraction).append (.cons (by decide) (.cons ?_ ((zeros _).append (toDigits _))))
  split <;> decide

theorem write (layout : Double.Layout) (number : Double.Decimal) : Numerals (layout.write number) := by
  unfold Double.Layout.write
  dsimp only
  split
  · exact (toDigits _).pointed _
  · exact (toDigits _).withExponent _ _

theorem minus (sign : Float.Model.UnpackedFloat.Sign) : Numerals (Double.minus sign).toList := by
  cases sign <;> exact .of_all rfl

theorem ofDouble (x : Float) : Numerals (Double.text x).toList := by
  unfold Double.text
  split
  · exact .of_all rfl
  · rw [String.toList_append]
    exact (minus _).append (.of_all rfl)
  · rw [String.toList_append]
    exact (minus _).append (.of_all rfl)
  · rw [String.toList_append, String.toList_ofList]
    exact (minus _).append (write _ _)

theorem ofInt (n : Int) : Numerals (toString n).toList := by
  cases n with
  | ofNat n =>
    have digits : (toString (Int.ofNat n)).toList = Nat.toDigits 10 n := Nat.toList_repr
    rw [digits]
    exact toDigits n
  | negSucc n =>
    have digits : (toString (Int.negSucc n)).toList = '-' :: Nat.toDigits 10 (n + 1) := by
      change ("-" ++ (n + 1).repr).toList = _
      rw [String.toList_append, Nat.toList_repr]
      rfl
    rw [digits]
    exact .cons (by decide) (toDigits _)

theorem notMem (numerals : Numerals word) (other : isNumeral c = false) : c ∉ word := by
  intro member
  rw [numerals c member] at other
  cases other

theorem signless (numerals : Numerals word) : Signless (word.map .char) := by
  have signs : ∀ c, Letter.char c ∈ formulaSigns → isNumeral c = false := by
    intro c sign
    simp only [formulaSigns, List.mem_cons, Letter.char.injEq, List.not_mem_nil, or_false] at sign
    rcases sign with rfl | rfl | rfl | rfl <;> rfl
  intro letter member sign
  obtain ⟨c, inside, rfl⟩ := List.mem_map.mp member
  exact numerals.notMem (signs c sign) inside

end Numerals

theorem Signless.of_all {word : List Letter}
    (all : (word.all fun c => !formulaSigns.contains c) = true) : Signless word := by
  intro c member
  simpa using List.all_eq_true.mp all c member

theorem Operator.signless_tag (op : Operator) : Signless (op.tag : Text).letters := by
  have all : (Operator.all.all fun op => (op.tag : Text).letters.all fun c =>
    !formulaSigns.contains c) = true := rfl
  exact .of_all (List.all_eq_true.mp all op op.mem_all)

/-- A text that is cut at its first sign. There is one such place. -/
theorem cut_unique {word other tail further : List Letter} (clean : Signless word)
    (cleanOther : Signless other) (ends : ∀ c, tail.head? = some c → c ∈ formulaSigns)
    (endsOther : ∀ c, further.head? = some c → c ∈ formulaSigns)
    (same : word ++ tail = other ++ further) : word = other ∧ tail = further := by
  induction word generalizing other with
  | nil =>
    cases other with
    | nil => exact ⟨rfl, same⟩
    | cons c rest =>
      have head : tail.head? = some c := by rw [← List.nil_append tail, same]; rfl
      exact absurd (ends c head) (cleanOther c (List.mem_cons_self ..))
  | cons c rest ih =>
    cases other with
    | nil =>
      have head : further.head? = some c := by rw [← List.nil_append further, ← same]; rfl
      exact absurd (endsOther c head) (clean c (List.mem_cons_self ..))
    | cons d others =>
      obtain ⟨first, later⟩ := List.cons.inj same
      obtain ⟨words, tails⟩ := ih (fun c member => clean c (List.mem_cons_of_mem _ member))
        (fun c member => cleanOther c (List.mem_cons_of_mem _ member)) later
      exact ⟨by rw [first, words], tails⟩

/-- What can follow the formula of an operand. -/
def EndsOperand (rest : List Letter) : Prop :=
  ∀ c, rest.head? = some c → c = .char ',' ∨ c = .char ')'

/-- No sign stands in a tag that has no evaluation. -/
def Node.PlainTags (node : Node) : Prop :=
  ∀ tag raw, Node.unsupported tag raw ∈ node.preorder → Signless tag.letters

/-- Literals of two trees have different texts if they are different doubles. -/
def Node.DistinctLiterals (left right : Node) : Prop :=
  ∀ x y, Node.number x ∈ left.preorder → Node.number y ∈ right.preorder →
    Double.text x = Double.text y → x = y

theorem Node.mem_preorder_of_child {node child found : Node} (member : child ∈ node.children)
    (inside : found ∈ child.preorder) : found ∈ node.preorder := by
  rw [Node.preorder_eq_children]
  exact List.mem_cons_of_mem _ (List.mem_flatMap.mpr ⟨child, member, inside⟩)

theorem letters_applied (name : String) (nodes : List Node) :
    (applied name (nodes.map Node.formula)).letters =
      (name : Text).letters ++ .char '(' :: (formulaList nodes ++ [.char ')']) := by
  simp [applied, formulaList, Text.letters_append, Text.letters_intercalate, Text.letters_coe,
    List.map_map, Function.comp_def]

theorem Node.exists_spelled (node : Node) :
    ∃ word tail, node.Spelled word tail ∧ node.formula.letters = word ++ tail := by
  cases node with
  | number x => exact ⟨_, _, .number x, (List.append_nil _).symm⟩
  | reference tag => exact ⟨_, _, .reference tag, (List.append_nil _).symm⟩
  | unsupported tag raw => exact ⟨_, _, .unsupported tag raw, Text.letters_append ..⟩
  | variadic op a b others =>
    refine ⟨_, _, .operator rfl (List.cons_ne_nil _ _), ?_⟩
    rw [Node.formula, Node.formulas_eq_map]
    exact letters_applied _ (a :: b :: others)
  | unary op v =>
    refine ⟨_, _, .operator rfl (List.cons_ne_nil _ _), ?_⟩
    rw [Node.formula]
    exact letters_applied _ [v]
  | comparison op left right =>
    refine ⟨_, _, .operator rfl (List.cons_ne_nil _ _), ?_⟩
    rw [Node.formula]
    exact letters_applied _ [left, right]
  | conditional expr ifNode elseNode =>
    refine ⟨_, _, .operator rfl (List.cons_ne_nil _ _), ?_⟩
    rw [Node.formula]
    exact letters_applied _ [expr, ifNode, elseNode]

/-- Wherever the two formulas stand, what follows them can be told from them, and they are equal only for
trees that are alike. -/
def Node.Separates (left right : Node) : Prop :=
  ∀ rest further, EndsOperand rest → EndsOperand further →
    left.formula.letters ++ rest = right.formula.letters ++ further →
      left.bare = right.bare ∧ rest = further

theorem EndsOperand.cons {c : Letter} {rest : List Letter} (sign : c = .char ',' ∨ c = .char ')') :
    EndsOperand (c :: rest) := by
  intro d head
  cases head
  exact sign

theorem EndsOperand.ne_cons {c : Letter} {rest further : List Letter} (ends : EndsOperand rest)
    (other : c ≠ .char ',' ∧ c ≠ .char ')') : rest ≠ c :: further := by
  rintro rfl
  exact (ends c rfl).elim other.1 other.2

/-- Operands are read off the list of their formulas one by one, up to the closing bracket. -/
theorem formulaList_unique {lefts rights : List Node} {rest further : List Letter}
    (each : ∀ left ∈ lefts, ∀ right ∈ rights, left.Separates right)
    (operands : lefts ≠ []) (others : rights ≠ [])
    (same : formulaList lefts ++ .char ')' :: rest = formulaList rights ++ .char ')' :: further) :
    lefts.map Node.bare = rights.map Node.bare ∧ rest = further := by
  have single (node : Node) : formulaList [node] = node.formula.letters := by simp [formulaList]
  have several (node second : Node) (nodes : List Node) : formulaList (node :: second :: nodes) =
      node.formula.letters ++ .char ',' :: .char ' ' :: formulaList (second :: nodes) := by
    simp [formulaList]
  induction lefts generalizing rights with
  | nil => exact absurd rfl operands
  | cons left lefts ih =>
    cases rights with
    | nil => exact absurd rfl others
    | cons right rights =>
      have first := each left (List.mem_cons_self ..) right (List.mem_cons_self ..)
      cases lefts with
      | nil =>
        cases rights with
        | nil =>
          rw [single, single] at same
          obtain ⟨bare, tail⟩ := first _ _ (.cons (Or.inr rfl)) (.cons (Or.inr rfl)) same
          exact ⟨by rw [List.map_singleton, List.map_singleton, bare], (List.cons.inj tail).2⟩
        | cons second rights =>
          rw [single, several, List.append_assoc] at same
          obtain ⟨_, tail⟩ := first _ _ (.cons (Or.inr rfl)) (.cons (Or.inl rfl)) same
          cases (List.cons.inj tail).1
      | cons next lefts =>
        cases rights with
        | nil =>
          rw [single, several, List.append_assoc] at same
          obtain ⟨_, tail⟩ := first _ _ (.cons (Or.inl rfl)) (.cons (Or.inr rfl)) same
          cases (List.cons.inj tail).1
        | cons second rights =>
          rw [several, several, List.append_assoc, List.append_assoc] at same
          obtain ⟨bare, tail⟩ := first _ _ (.cons (Or.inl rfl)) (.cons (Or.inl rfl)) same
          have later := (List.cons.inj (List.cons.inj tail).2).2
          obtain ⟨bares, ends⟩ := ih (fun l inside r member => each l (List.mem_cons_of_mem _ inside)
            r (List.mem_cons_of_mem _ member)) (List.cons_ne_nil _ _) (List.cons_ne_nil _ _) later
          exact ⟨by rw [List.map_cons, bare, bares, ← List.map_cons], ends⟩

section Spelled

variable {node : Node} {word tail rest : List Letter}

theorem Node.Spelled.signless (spelled : node.Spelled word tail) (plain : node.PlainTags) :
    Signless word := by
  cases spelled with
  | number x =>
    rw [Text.letters_coe]
    exact (Numerals.ofDouble x).signless
  | reference tag =>
    rw [Text.letters_coe, String.toList_append, List.map_append]
    exact List.forall_mem_append.mpr ⟨Signless.of_all rfl, (Numerals.ofInt tag).signless⟩
  | unsupported tag raw => exact plain tag raw (by simp [Node.preorder])
  | operator named operands => exact Operator.signless_tag _

theorem Node.Spelled.ends (spelled : node.Spelled word tail) (ends : EndsOperand rest) :
    ∀ c, (tail ++ rest).head? = some c → c ∈ formulaSigns := by
  have after : ∀ c, rest.head? = some c → c ∈ formulaSigns := by
    intro c head
    rcases ends c head with rfl | rfl <;> decide
  intro c head
  cases spelled with
  | number x => exact after c head
  | reference tag => exact after c head
  | unsupported tag raw =>
    cases head
    decide
  | operator named operands =>
    cases head
    decide

/-- Two nodes that are spelled alike, up to what follows them, are the same leaf or have the same operator
over operands that are spelled alike. -/
theorem Node.Spelled.leaf_or_operator {left right : Node} {word tail behind rest further : List Letter}
    (spelled : left.Spelled word tail) (spelledOther : right.Spelled word behind)
    (literals : left.DistinctLiterals right) (ends : EndsOperand rest)
    (endsOther : EndsOperand further) (same : tail ++ rest = behind ++ further) :
    (left.bare = right.bare ∧ rest = further) ∨
    ∃ op, left.operator? = some op ∧ right.operator? = some op ∧
      left.children ≠ [] ∧ right.children ≠ [] ∧
      formulaList left.children ++ .char ')' :: rest =
        formulaList right.children ++ .char ')' :: further := by
  have hash (tag : Int) : '#' ∈ ("value#" ++ toString tag).toList := by simp
  have noNumber (x : Float) (tag : Int) : Double.text x ≠ "value#" ++ toString tag := by
    intro words
    have sign := hash tag
    rw [← words] at sign
    exact (Numerals.ofDouble x).notMem (by decide) sign
  have equal {s t : String} (letters : (s : Text).letters = (t : Text).letters) : s = t :=
    Text.coe_inj.mp (Text.letters_inj.mp letters)
  have bracket : Letter.char '(' ≠ .char ',' ∧ Letter.char '(' ≠ .char ')' := by decide
  have question : Letter.char '?' ≠ .char ',' ∧ Letter.char '?' ≠ .char ')' := by decide
  generalize named : word = other at spelledOther
  -- The first sign behind the word gives the kind of the node, up to the two kinds of leaves that have
  -- nothing behind it.
  cases spelled with
  | number x =>
    cases spelledOther with
    | number y =>
      have value := literals x y (by simp [Node.preorder]) (by simp [Node.preorder])
        (equal named)
      exact Or.inl ⟨by rw [value], same⟩
    | reference tag => exact absurd (equal named) (noNumber x tag)
    | unsupported tag raw => exact absurd same (ends.ne_cons question)
    | operator op operands => exact absurd same (ends.ne_cons bracket)
  | reference tag =>
    cases spelledOther with
    | number y => exact absurd (equal named.symm) (noNumber y tag)
    | reference tag' =>
      have tags := (String.append_right_inj "value#").mp (equal named)
      exact Or.inl ⟨by rw [Int.repr_inj.mp tags], same⟩
    | unsupported tag raw => exact absurd same (ends.ne_cons question)
    | operator op operands => exact absurd same (ends.ne_cons bracket)
  | unsupported tag raw =>
    cases spelledOther with
    | number y => exact absurd same.symm (endsOther.ne_cons question)
    | reference tag => exact absurd same.symm (endsOther.ne_cons question)
    | unsupported tag' raw' =>
      have tags := Text.letters_inj.mp named
      exact Or.inl ⟨by rw [Node.bare, Node.bare, tags], (List.cons.inj same).2⟩
    | operator op operands => cases (List.cons.inj same).1
  | @operator _ op known operands =>
    cases spelledOther with
    | number y => exact absurd same.symm (endsOther.ne_cons bracket)
    | reference tag => exact absurd same.symm (endsOther.ne_cons bracket)
    | unsupported tag raw => cases (List.cons.inj same).1
    | operator known' operands' =>
      cases Operator.tag_injective (equal named)
      exact Or.inr ⟨op, known, known', operands, operands', by simpa using same⟩

end Spelled

/-- The formula of a tree is told apart from the formula of any other one. -/
theorem Node.separates {left right : Node} (literals : left.DistinctLiterals right)
    (plain : left.PlainTags) (plainOther : right.PlainTags) : left.Separates right := by
  induction left using Node.child_induction generalizing right with
  | each left ih =>
    intro rest further ends endsOther same
    obtain ⟨word, tail, spelled, text⟩ := left.exists_spelled
    obtain ⟨other, behind, spelledOther, textOther⟩ := right.exists_spelled
    rw [text, textOther, List.append_assoc, List.append_assoc] at same
    obtain ⟨rfl, tails⟩ := cut_unique (spelled.signless plain) (spelledOther.signless plainOther)
      (spelled.ends ends) (spelledOther.ends endsOther) same
    rcases spelled.leaf_or_operator spelledOther literals ends endsOther tails with
      leaf | ⟨op, named, named', operands, operands', lists⟩
    · exact leaf
    have each : ∀ l ∈ left.children, ∀ r ∈ right.children, l.Separates r := by
      intro l inside r member
      refine ih l inside ?_ ?_ ?_
      · exact fun x y atLeft atRight => literals x y (Node.mem_preorder_of_child inside atLeft)
          (Node.mem_preorder_of_child member atRight)
      · exact fun tag raw below => plain tag raw (Node.mem_preorder_of_child inside below)
      · exact fun tag raw below => plainOther tag raw (Node.mem_preorder_of_child member below)
    obtain ⟨bares, tails⟩ := formulaList_unique each operands operands' lists
    exact ⟨Node.bare_eq_of_children named named' operands bares, tails⟩

end TickGraph
