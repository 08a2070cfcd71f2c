import StaticReflection.Proofs.Parser.Operands

namespace StaticReflection

open Parse ParseState Grammar

/-! Literals joined by binary operators are grouped as the table of precedences says. -/

/-- The token of an integer literal. -/
structure Literal where
  mark : Mark
  number : mark.kind = .integerLiteral

/-- The token of an operator that takes an expression on each side. -/
structure Operator where
  mark : Mark
  precedence : Nat
  associativity : Associativity
  binds : binaryPrecedence? mark.kind = some (precedence, associativity)
  expression : mark.kind ≠ .instanceofKw

/-- Operators of one precedence group to one side. -/
theorem Operator.associativity_eq {op other : Operator}
    (level : op.precedence = other.precedence) : op.associativity = other.associativity := by
  have side {kind : TokenKind} {precedence : Nat} {associativity : Associativity}
      (binds : binaryPrecedence? kind = some (precedence, associativity)) :
      associativity = if precedence = 6 ∨ precedence = 20 then .right else .left := by
    unfold binaryPrecedence? at binds
    split at binds <;> cases binds <;> rfl
  rw [side op.binds, side other.binds, level]

inductive OperatorTree where
  | literal (value : Literal)
  | binary (left : OperatorTree) (op : Operator) (right : OperatorTree)

namespace OperatorTree

def inOrder : OperatorTree → List Mark
  | .literal value => [value.mark]
  | .binary left op right => left.inOrder ++ op.mark :: right.inOrder

/-- The precedence of the outermost operator. -/
def precedence? : OperatorTree → Option Nat
  | .literal _ => none
  | .binary _ op _ => some op.precedence

@[simp] theorem precedence?_binary (left right : OperatorTree) (op : Operator) :
    (binary left op right).precedence? = some op.precedence := rfl

/-- Every operator binds less tightly than those of its operands, or as tightly as one on
the side to which it groups. -/
def Grouped : OperatorTree → Prop
  | .literal _ => True
  | .binary left op right => left.Grouped ∧ right.Grouped ∧
      (∀ p ∈ left.precedence?,
        op.precedence < p ∨ p = op.precedence ∧ op.associativity = .left) ∧
      ∀ p ∈ right.precedence?,
        op.precedence < p ∨ p = op.precedence ∧ op.associativity = .right

end OperatorTree

/-! The order of the tokens and the grouping leave only one tree. -/

theorem Literal.ext_mark {value other : Literal} (same : value.mark = other.mark) :
    value = other := by
  cases value
  cases other
  cases same
  rfl

theorem Operator.ext_mark {op other : Operator} (same : op.mark = other.mark) :
    op = other := by
  obtain ⟨mark, precedence, associativity, binds, _⟩ := op
  obtain ⟨_, _, _, otherBinds, _⟩ := other
  cases same
  cases binds.symm.trans otherBinds
  rfl

theorem Operator.mark_ne_literal (op : Operator) (value : Literal) :
    op.mark ≠ value.mark := by
  intro same
  have binds := op.binds
  rw [same, value.number] at binds
  cases binds

namespace OperatorTree

/-- The outermost operator binds least tightly. -/
theorem Grouped.exists_le {tree : OperatorTree} {op : Operator} (grouped : tree.Grouped)
    (among : op.mark ∈ tree.inOrder) : ∃ p ∈ tree.precedence?, p ≤ op.precedence := by
  induction tree with
  | literal value => exact absurd (List.mem_singleton.mp among) (op.mark_ne_literal value)
  | binary left root right ihLeft ihRight =>
      obtain ⟨groupedLeft, groupedRight, leftAbove, rightAbove⟩ := grouped
      refine ⟨root.precedence, rfl, ?_⟩
      obtain among | among := List.mem_append.mp among
      · obtain ⟨p, root, below⟩ := ihLeft groupedLeft among
        have := leftAbove p root
        omega
      · obtain same | among := List.mem_cons.mp among
        · exact Nat.le_of_eq (congrArg Operator.precedence (Operator.ext_mark same).symm)
        · obtain ⟨p, root, below⟩ := ihRight groupedRight among
          have := rightAbove p root
          omega

/-- No operator stands in the left operand of one that stands in its right operand. -/
theorem Grouped.not_crossed {left right left' right' : OperatorTree} {op op' : Operator}
    (grouped : (binary left op right).Grouped) (grouped' : (binary left' op' right').Grouped)
    (inLeft : op'.mark ∈ left.inOrder) (inRight : op.mark ∈ right'.inOrder) : False := by
  obtain ⟨groupedLeft, _, leftAbove, _⟩ := grouped
  obtain ⟨_, groupedRight, _, rightAbove⟩ := grouped'
  obtain ⟨p, rootLeft, belowLeft⟩ := groupedLeft.exists_le inLeft
  obtain ⟨q, rootRight, belowRight⟩ := groupedRight.exists_le inRight
  have above := leftAbove p rootLeft
  have above' := rightAbove q rootRight
  have level : op.precedence = op'.precedence := by omega
  have same := Operator.associativity_eq level
  grind

theorem inOrder_length_pos (tree : OperatorTree) : 0 < tree.inOrder.length := by
  cases tree with
  | literal => exact Nat.one_pos
  | binary left op right =>
      rw [inOrder, List.length_append, List.length_cons]
      omega

theorem literal_inOrder_ne_binary (value : Literal) (left right : OperatorTree) (op : Operator) :
    (literal value).inOrder ≠ (binary left op right).inOrder := by
  intro same
  have lengths := congrArg List.length same
  have := left.inOrder_length_pos
  simp only [inOrder, List.length_append, List.length_cons, List.length_nil] at lengths
  omega

/-- If the root of one tree stood before that of the other, each would be an operand's. -/
theorem Grouped.same_root {left right left' right' : OperatorTree} {op op' : Operator}
    {between : List Mark} (grouped : (binary left op right).Grouped)
    (grouped' : (binary left' op' right').Grouped)
    (before : left.inOrder = left'.inOrder ++ between)
    (after : op'.mark :: right'.inOrder = between ++ op.mark :: right.inOrder) :
    left.inOrder = left'.inOrder ∧ op = op' ∧ right.inOrder = right'.inOrder := by
  cases between with
  | nil =>
      obtain ⟨root, rest⟩ := List.cons.inj after
      exact ⟨before.trans (List.append_nil _), Operator.ext_mark root.symm, rest.symm⟩
  | cons mark between =>
      obtain ⟨rfl, rest⟩ := List.cons.inj after
      refine (grouped.not_crossed grouped' ?_ ?_).elim
      · simp [before]
      · simp [rest]

theorem Grouped.unique {tree other : OperatorTree} (grouped : tree.Grouped)
    (groupedOther : other.Grouped) (same : tree.inOrder = other.inOrder) : tree = other := by
  induction tree generalizing other with
  | literal value =>
      cases other with
      | literal value' =>
          exact congrArg literal (Literal.ext_mark (List.cons.inj same).1)
      | binary left op right => exact absurd same (literal_inOrder_ne_binary _ _ _ _)
  | binary left op right ihLeft ihRight =>
      cases other with
      | literal value => exact absurd same.symm (literal_inOrder_ne_binary _ _ _ _)
      | binary left' op' right' =>
          have parts : left.inOrder = left'.inOrder ∧ op = op' ∧
              right.inOrder = right'.inOrder := by
            obtain ⟨between, before, after⟩ | ⟨between, before, after⟩ :=
              List.append_eq_append_iff.mp same
            · obtain ⟨sameLeft, root, sameRight⟩ := groupedOther.same_root grouped before after
              exact ⟨sameLeft.symm, root.symm, sameRight.symm⟩
            · exact grouped.same_root groupedOther before after
          obtain ⟨sameLeft, rfl, sameRight⟩ := parts
          rw [ihLeft grouped.1 groupedOther.1 sameLeft,
            ihRight grouped.2.1 groupedOther.2.1 sameRight]

end OperatorTree

/-- A node of the arena stands for a tree. -/
inductive Arena.Shows (arena : Arena) : OperatorTree → NodeId → Prop
  | literal {value : Literal} {id : NodeId}
      (found : arena.node? id = some (numberNode value.mark.value)) :
      arena.Shows (.literal value) id
  | binary {left right : OperatorTree} {op : Operator} {id leftId rightId : NodeId}
      (found : arena.node? id = some (.binary op.mark.kind leftId rightId))
      (shownLeft : arena.Shows left leftId) (shownRight : arena.Shows right rightId) :
      arena.Shows (.binary left op right) id

theorem Arena.Shows.mono {arena larger : Arena} {tree : OperatorTree} {id : NodeId}
    (shown : arena.Shows tree id) (grows : arena.Extends larger) : larger.Shows tree id := by
  induction shown with
  | literal found => exact .literal (grows _ _ found)
  | binary found _ _ left right => exact .binary (grows _ _ found) left right

/-- Operators with their right operands. -/
abbrev Operations := List (Operator × Literal)

def Operations.marks (rest : Operations) : List Mark :=
  rest.flatMap fun (op, value) => [op.mark, value.mark]

/-- What climbing makes of operators that follow `before`: it takes those that bind tightly
enough, and leaves one that does not. -/
structure Climbed (minPrecedence : Nat) (before : List Mark) (rest taken left : Operations)
    (tree : OperatorTree) : Prop where
  split : rest = taken ++ left
  inOrder : tree.inOrder = before ++ taken.marks
  grouped : tree.Grouped
  above : ∀ p ∈ tree.precedence?, minPrecedence ≤ p
  below : ∀ next ∈ left.head?, next.1.precedence < minPrecedence

@[simp] theorem Operations.marks_nil : Operations.marks [] = [] := rfl

@[simp] theorem Operations.marks_cons (op : Operator) (value : Literal) (rest : Operations) :
    Operations.marks ((op, value) :: rest) = op.mark :: value.mark :: rest.marks := rfl

@[simp] theorem Operations.marks_append (first second : Operations) :
    Operations.marks (first ++ second) = first.marks ++ second.marks :=
  List.flatMap_append

theorem Operator.endsAt (op : Operator) {minPrecedence : Nat}
    (loose : op.precedence < minPrecedence) : EndsAt minPrecedence op.mark.kind where
  operand := endsOperand_of_binaryPrecedence? op.binds
  ternary is := by
    have binds := op.binds
    rw [is] at binds
    cases binds
  binary binds := by
    rw [op.binds] at binds
    cases binds
    exact loose

/-- The right operand takes the operators that bind more tightly, or as tightly as one that
groups to the right. -/
theorem rightOperand_eq (nested : Nested) (op : Operator) :
    ∃ bound, rightOperand nested op.mark.kind op.precedence op.associativity = nested bound ∧
      (∀ p, bound ≤ p → op.precedence < p ∨ p = op.precedence ∧ op.associativity = .right) ∧
      ∀ next : Operator, next.precedence < bound → next.precedence < op.precedence ∨
        op.precedence = next.precedence ∧ next.associativity = .left := by
  cases side : op.associativity with
  | left =>
      refine ⟨op.precedence + 1, if_neg op.expression, fun p bound => .inl bound, ?_⟩
      intro next loose
      by_cases level : op.precedence = next.precedence
      · exact .inr ⟨level, Operator.associativity_eq level ▸ side⟩
      · exact .inl (by omega)
  | right =>
      refine ⟨op.precedence, rfl, fun p bound => ?_, fun next loose => .inl loose⟩
      by_cases level : p = op.precedence
      · exact .inr ⟨level, rfl⟩
      · exact .inl (by omega)

section Climbing

variable {nested : Nested} {depth count : Nat} {stop : Mark} {after : List Mark}

/-- Nested expressions group their operators, of which there are fewer than `count`. -/
def Climbs (nested : Nested) (depth count : Nat) (stop : Mark) (after : List Mark) : Prop :=
  ∀ (minPrecedence : Nat) {s : ParseState} {first : Literal} {rest : Operations},
    rest.length < count → s.At depth (first.mark :: rest.marks ++ stop :: after) →
    ∃ taken left tree, Climbed minPrecedence [first.mark] rest taken left tree ∧
      (nested minPrecedence).Yields s (first.mark :: taken.marks)
        fun id arena => arena.Shows tree id

/-- The loop: the tree so far becomes the left operand of the next operator. -/
theorem binaryTail_climbs (inner : Climbs nested depth count stop after)
    (ends : EndsAt 0 stop.kind) (minPrecedence pos : Nat) {tree : OperatorTree} {id : NodeId}
    {rest : Operations} {s : ParseState} (here : s.At depth (rest.marks ++ stop :: after))
    (few : rest.length ≤ count) (shown : s.arena.Shows tree id) (grouped : tree.Grouped)
    (above : ∀ p ∈ tree.precedence?, minPrecedence ≤ p)
    (follows : ∀ next ∈ rest.head?, ∀ p ∈ tree.precedence?, next.1.precedence < p ∨
      p = next.1.precedence ∧ next.1.associativity = .left) :
    ∃ taken left larger, Climbed minPrecedence tree.inOrder rest taken left larger ∧
      (binaryTail nested minPrecedence pos id).Yields s taken.marks
        fun id arena => arena.Shows larger id := by
  generalize total : rest.length = size
  induction size using Nat.strongRecOn generalizing rest tree id s with
  | ind size ih =>
  cases rest with
  | nil =>
      have stopped : Climbed minPrecedence tree.inOrder [] [] [] tree :=
        ⟨rfl, by simp, grouped, above, by simp⟩
      exact ⟨[], [], tree, stopped, .binaryTailEnds here (ends.mono (Nat.zero_le _)) shown⟩
  | cons operation rest =>
      obtain ⟨op, value⟩ := operation
      by_cases loose : op.precedence < minPrecedence
      · have stopped : Climbed minPrecedence tree.inOrder ((op, value) :: rest) []
            ((op, value) :: rest) tree :=
          ⟨rfl, by simp, grouped, above, by simpa using loose⟩
        exact ⟨[], _, tree, stopped, .binaryTailEnds here (op.endsAt loose) shown⟩
      · obtain ⟨bound, operand, rightAbove, nextBelow⟩ := rightOperand_eq nested op
        obtain ⟨inside, left, right, climbed, yields⟩ :=
          inner bound (Nat.lt_of_succ_le few) (At.after here (Yields.advance_passes here (by simp)))
        obtain rfl := climbed.split
        have step : (binaryStep nested minPrecedence pos id).Yields s
            (op.mark :: value.mark :: inside.marks) _ :=
          .binaryStep here op.binds (Nat.not_lt.mp loose) (operand ▸ yields) (by simp)
        have here' : s.At depth ((op.mark :: value.mark :: inside.marks) ++
            (left.marks ++ stop :: after)) := by simpa using here
        have there := here'.after step.passes
        obtain ⟨_, rightId, before, grows, shownRight, found⟩ := step.outcome
        have whole : OperatorTree.Grouped (.binary tree op right) :=
          ⟨grouped, climbed.grouped, follows _ rfl, fun p is => rightAbove p (climbed.above p is)⟩
        have fewer : left.length < size := by
          simp only [List.length_cons, List.length_append] at total
          omega
        have next : ∀ next ∈ left.head?, ∀ p ∈ (OperatorTree.binary tree op right).precedence?,
            next.1.precedence < p ∨ p = next.1.precedence ∧ next.1.associativity = .left := by
          rintro next among _ ⟨⟩
          exact nextBelow next.1 (climbed.below next among)
        obtain ⟨taken, rest, larger, grown, tail⟩ := ih left.length fewer there (by omega)
          (.binary found (shown.mono step.passes.arena) (shownRight.mono grows)) whole
          (by simpa using Nat.not_lt.mp loose) next rfl
        obtain rfl := grown.split
        refine ⟨(op, value) :: inside ++ taken, rest, larger, ?_, ?_⟩
        · refine ⟨by simp, ?_, grown.grouped, grown.above, grown.below⟩
          simp [grown.inOrder, OperatorTree.inOrder, climbed.inOrder]
        · have again := step.mono fun _ _ outcome => outcome.1
          have loop : (binaryTail nested minPrecedence pos id).Yields s _ _ :=
            .more again (List.cons_ne_nil _ _) tail
          simpa using loop

/-- What stands after the first literal ends it. -/
theorem exists_next (rest : Operations) (ends : EndsAt 0 stop.kind) :
    ∃ next others, rest.marks ++ stop :: after = next :: others ∧
      endsOperand next.kind = true := by
  cases rest with
  | nil => exact ⟨stop, after, rfl, ends.operand⟩
  | cons operation rest =>
      exact ⟨_, _, rfl, endsOperand_of_binaryPrecedence? operation.1.binds⟩

theorem literal_shown {s : ParseState} {value : Literal} {next : Mark}
    (here : s.At depth (value.mark :: next :: after)) (ends : endsOperand next.kind = true) :
    (unaryExpression nested).Yields s [value.mark]
      fun id arena => arena.Shows (.literal value) id := by
  have starts : startsPrimary s.cursor.kind = true := by
    rw [here.kind, value.number]
    rfl
  refine .operand here starts ends (.position (.kind here ?_))
  rw [value.number]
  refine (Yields.literal here).mono fun id arena found => .literal ?_
  rw [found, here.value]

/-- Every operator on the right opens an expression inside the one of its left operand. -/
theorem expressionWithin_climbs (ends : EndsAt 0 stop.kind) (room : Nat)
    (fits : count ≤ room) (within : depth + count ≤ maxDepth) :
    Climbs (expressionWithin room) depth count stop after := by
  induction room generalizing depth count with
  | zero =>
      intro _ _ _ rest few
      omega
  | succ room ih =>
      intro minPrecedence s first rest few here
      have inner : Climbs (expressionWithin room) (depth + 1) (count - 1) stop after :=
        ih (by omega) (by omega)
      have opened := here.opened
      obtain ⟨next, others, follows, endsLiteral⟩ := exists_next rest ends
      have front := opened
      rw [List.cons_append, follows] at front
      have unary : (unaryExpression (expressionWithin room)).Yields
          { s with depth := s.depth + 1 } [first.mark] _ :=
        literal_shown front endsLiteral
      obtain ⟨taken, left, tree, climbed, tail⟩ := binaryTail_climbs inner ends minPrecedence
        s.cursor.current.span.start (At.after opened unary.passes) (by omega) unary.outcome
        trivial (by simp [OperatorTree.precedence?]) (by simp [OperatorTree.precedence?])
      refine ⟨taken, left, tree, climbed, .opened ?_ (.climb unary tail)⟩
      have := here.depth
      omega

end Climbing

/-- Literals joined by operators, up to a token that ends an expression, are parsed without
a report to a tree whose in-order traversal they are, and in which every operator binds
less tightly than those of its operands, or as tightly on the side to which it groups.
There is only one such tree. -/
theorem operators_grouped {s : ParseState} {depth : Nat} (first : Literal) (rest : Operations)
    {stop : Mark} {after : List Mark} (within : depth + rest.length < maxDepth)
    (ends : EndsAt 0 stop.kind)
    (here : s.At depth (first.mark :: rest.marks ++ stop :: after)) :
    ∃ tree : OperatorTree, tree.inOrder = first.mark :: rest.marks ∧ tree.Grouped ∧
      (∀ other : OperatorTree, other.inOrder = first.mark :: rest.marks → other.Grouped →
        other = tree) ∧
      expression.Yields s (first.mark :: rest.marks) fun id arena => arena.Shows tree id := by
  have climbs : Climbs (expressionWithin (maxDepth + 1)) depth (rest.length + 1) stop after :=
    expressionWithin_climbs ends (maxDepth + 1) (by omega) (by omega)
  obtain ⟨taken, left, tree, climbed, yields⟩ := climbs 0 (Nat.lt_succ_self _) here
  obtain rfl : left = [] := by
    cases left with
    | nil => rfl
    | cons next _ => exact absurd (climbed.below next rfl) (Nat.not_lt_zero _)
  obtain rfl : rest = taken := by simpa using climbed.split
  refine ⟨tree, climbed.inOrder, climbed.grouped, fun other inOrder grouped => ?_, yields⟩
  exact grouped.unique climbed.grouped (inOrder.trans climbed.inOrder.symm)

def Literal.of (digits : String) : Literal :=
  ⟨⟨.integerLiteral, digits, []⟩, rfl⟩

def Operator.minus : Operator :=
  ⟨⟨.minus, "", []⟩, 16, .left, rfl, by decide⟩

def Operator.power : Operator :=
  ⟨⟨.asteriskAsterisk, "", []⟩, 20, .right, rfl, by decide⟩

/-- The difference of `9 - 2 ** 3 ** 2` and `1`. -/
def OperatorTree.differences : OperatorTree :=
  let powers := binary (literal (.of "2")) .power
    (binary (literal (.of "3")) .power (literal (.of "2")))
  binary (binary (literal (.of "9")) .minus powers) .minus (literal (.of "1"))

theorem differences_grouped :
    expression.Yields (.ofText "<?php 9 - 2 ** 3 ** 2 - 1;".toList)
      OperatorTree.differences.inOrder fun id arena => arena.Shows .differences id := by
  let rest : Operations :=
    [(.minus, .of "2"), (.power, .of "3"), (.power, .of "2"), (.minus, .of "1")]
  have ends : EndsAt 0 .semicolon := ⟨rfl, by decide, by rintro _ _ ⟨⟩⟩
  have here : ParseState.At (.ofText "<?php 9 - 2 ** 3 ** 2 - 1;".toList) 0
      ((Literal.of "9").mark :: rest.marks ++ [⟨.semicolon, "", []⟩, ⟨.endOfFile, "", []⟩]) :=
    ⟨by decide, by unfold ParseState.Sound; decide +kernel, rfl⟩
  obtain ⟨tree, inOrder, _, unique, yields⟩ :=
    operators_grouped (.of "9") rest (by decide) ends here
  have grouped : OperatorTree.differences.Grouped := by
    simp [OperatorTree.Grouped, OperatorTree.differences, OperatorTree.precedence?,
      Operator.minus, Operator.power]
  rw [unique .differences rfl grouped, inOrder]
  exact yields

end StaticReflection
