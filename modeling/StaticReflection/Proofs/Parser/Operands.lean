import StaticReflection.Proofs.Parser.ExpressionProgress
import StaticReflection.Proofs.Parser.TokenRuns

namespace StaticReflection

open Parse ParseState

/-! Operands, the expressions around them, and the tokens at which they end. -/

namespace Grammar

/-- Nothing more of an operand follows at such a token, and it is assigned nothing. -/
def endsOperand (kind : TokenKind) : Bool :=
  match kind with
  | .openBracket | .arrow | .questionArrow | .colonColon | .openParen | .plusPlus
  | .minusMinus | .equals => false
  | _ => !kind.isCompoundAssignment

/-- An operand followed by such a token is the last one of operators that bind at least
as tightly as given. -/
structure EndsAt (minPrecedence : Nat) (kind : TokenKind) : Prop where
  operand : endsOperand kind = true
  ternary : kind ≠ .question
  binary : ∀ {precedence associativity},
    binaryPrecedence? kind = some (precedence, associativity) → precedence < minPrecedence

/-- Such a token begins a primary expression that is no variable. -/
def startsPrimary : TokenKind → Bool
  | .integerLiteral | .stringLiteral | .identifier | .openBracket | .arrayKw | .openParen => true
  | _ => false

/-- A primary expression, or a variable that is named by another one, begins here. -/
def startsOperand (kind : TokenKind) : Bool :=
  startsPrimary kind || kind == .dollar

theorem startsOperand_of_startsPrimary {kind : TokenKind} (starts : startsPrimary kind = true) :
    startsOperand kind = true := by
  rw [startsOperand, starts, Bool.true_or]

theorem EndsAt.mono {fewer more : Nat} {kind : TokenKind} (ends : EndsAt fewer kind)
    (less : fewer ≤ more) : EndsAt more kind :=
  ⟨ends.operand, ends.ternary, fun binds => Nat.lt_of_lt_of_le (ends.binary binds) less⟩

theorem endsOperand_of_binaryPrecedence? {kind : TokenKind} {precedence : Nat}
    {associativity : Associativity}
    (binds : binaryPrecedence? kind = some (precedence, associativity)) :
    endsOperand kind = true := by
  cases kind <;> first | rfl | cases binds

end Grammar

namespace Parse.Yields

open Grammar

variable {s : ParseState} {depth : Nat} {mark next : Mark} {first second after : List Mark}
  {nested : Nested} {P Q : NodeId → Arena → Prop}

theorem suffixesEnd {start : NodeId} {pos : Nat} (here : s.At depth (mark :: after))
    (ends : endsOperand mark.kind = true) (outcome : Q start s.arena) :
    (suffixes nested start pos).Yields s [] Q := by
  refine .done (.kind here ?_)
  split
  case h_8 => exact .pure ⟨rfl, outcome⟩
  all_goals
    rename_i is
    rw [is] at ends
    cases ends

/-- The only suffix. -/
theorem suffixesOne {start : NodeId} {pos : Nat}
    (step : (suffix nested pos start).Yields s first fun out arena => out.2 = true ∧ Q out.1 arena)
    (nonempty : first ≠ []) (here : s.At depth (first ++ mark :: after))
    (ends : endsOperand mark.kind = true) : (suffixes nested start pos).Yields s first Q := by
  rw [← List.append_nil first]
  exact .more (step.mono fun _ _ outcome => outcome.1) nonempty
    (.suffixesEnd (here.after step.passes) ends step.outcome.2)

theorem assignmentEnds {target : NodeId} {pos : Nat} (here : s.At depth (mark :: after))
    (ends : endsOperand mark.kind = true) (outcome : Q target s.arena) :
    (assignmentTail nested target pos).Yields s [] Q := by
  have other : (mark.kind == .equals || mark.kind.isCompoundAssignment) = false := by
    revert ends
    cases mark.kind <;> decide
  refine .kind here (.look rfl ?_)
  rw [other]
  exact .pure outcome

/-- A token that begins an operand is no operator and no word with an operand. -/
theorem unaryOfOperand (starts : startsOperand s.cursor.kind = true)
    (base : (operand nested).Yields s first Q) : (unaryExpression nested).Yields s first Q := by
  have unattributed : (s.cursor.kind == .attributeStart) = false := by
    revert starts
    cases s.cursor.kind <;> decide
  have unsigned : operatorPrecedence? s.cursor.kind = none ∧
      keywordPrecedence? s.cursor.kind = none := by
    revert starts
    cases s.cursor.kind <;> decide
  have unstatic : isStaticClosure s.cursor = false := by
    unfold isStaticClosure
    revert starts
    cases s.cursor.kind <;> first | exact fun _ => rfl | exact nofun
  refine .look (congrArg (·, s) unattributed) ?_
  unfold bareExpression
  refine .look (congrArg (·, s) (rfl : s.cursor.kind = _)) ?_
  rw [unsigned.1, unsigned.2]
  refine .position (.look (congrArg (·, s) (rfl : s.cursor.kind = _)) ?_)
  split
  case h_8 => exact .ahead? unstatic base
  all_goals
    rename_i is
    rw [is] at starts
    cases starts

theorem unaryOperator {precedence : Nat} {ahead : List Mark} (here : s.At depth (mark :: ahead))
    (binds : operatorPrecedence? mark.kind = some precedence)
    (right : (nested precedence).Yields (Parse.advance.next s) first P)
    (more : ahead ≠ []) :
    (unaryExpression nested).Yields s (mark :: first) fun id arena =>
      ∃ operand before, before.Extends arena ∧ P operand before ∧
        arena.node? id = some (.unary mark.kind operand) := by
  have unattributed : (mark.kind == .attributeStart) = false := by
    apply beq_eq_false_iff_ne.mpr
    intro is
    rw [is] at binds
    cases binds
  refine .at? here ?_
  rw [unattributed]
  refine .kind here ?_
  rw [binds]
  refine .position (.kind here (.advance here more fun _ _ => .andThen right ?_))
  intro operand t passes shown
  exact .adds fun id arena grows found => ⟨operand, t.arena, grows, shown, found⟩

/-- A primary expression with its suffixes. -/
theorem suffixed (here : s.At depth (first ++ (second ++ mark :: after)))
    (starts : startsPrimary s.cursor.kind = true) (ends : endsOperand mark.kind = true)
    (base : (plainPrimary nested).Yields s first P)
    (tail : ∀ start t, s.Passes first t → P start t.arena →
      (suffixes nested start s.cursor.current.span.start).Yields t second Q) :
    (unaryExpression nested).Yields s (first ++ second) Q := by
  have undollared : s.cursor.kind ≠ .dollar := by
    revert starts
    cases s.cursor.kind <;> decide
  refine .unaryOfOperand (startsOperand_of_startsPrimary starts) (.position ?_)
  have whole : (primary nested).Yields s first P :=
    .look (dollarSigns_idle undollared) (.look rfl (base.andThen fun _ _ _ => .pure))
  refine whole.bind fun start t passes outcome => ?_
  have there := here.after passes
  refine .andThen (tail start t passes outcome) fun target u more outcome => ?_
  exact .assignmentEnds (At.after there more) ends outcome

theorem operand (here : s.At depth (first ++ mark :: after))
    (starts : startsPrimary s.cursor.kind = true) (ends : endsOperand mark.kind = true)
    (base : (plainPrimary nested).Yields s first Q) :
    (unaryExpression nested).Yields s first Q := by
  have whole : (unaryExpression nested).Yields s (first ++ []) Q :=
    .suffixed here starts ends base fun _ _ passes outcome =>
      .suffixesEnd (here.after passes) ends outcome
  simpa using whole

theorem binaryTailEnds {minPrecedence pos : Nat} {left : NodeId}
    (here : s.At depth (mark :: after)) (ends : EndsAt minPrecedence mark.kind)
    (outcome : Q left s.arena) :
    (binaryTail nested minPrecedence pos left).Yields s [] Q := by
  refine .done (.kind here ?_)
  rw [beq_eq_false_iff_ne.mpr ends.ternary, if_neg Bool.false_ne_true]
  split
  · exact .pure ⟨rfl, outcome⟩
  · rename_i binds
    rw [if_pos (ends.binary binds)]
    exact .pure ⟨rfl, outcome⟩

/-- The only operator. -/
theorem binaryTailOne {minPrecedence pos : Nat} {left : NodeId}
    (step : (Grammar.binaryStep nested minPrecedence pos left).Yields s first
      fun out arena => out.2 = true ∧ Q out.1 arena)
    (nonempty : first ≠ []) (here : s.At depth (first ++ mark :: after))
    (ends : EndsAt minPrecedence mark.kind) :
    (binaryTail nested minPrecedence pos left).Yields s first Q := by
  rw [← List.append_nil first]
  exact .more (step.mono fun _ _ outcome => outcome.1) nonempty
    (.binaryTailEnds (here.after step.passes) ends step.outcome.2)

/-- An operator with its right operand. -/
theorem binaryStep {minPrecedence pos precedence : Nat} {associativity : Associativity}
    {left : NodeId} {ahead : List Mark} (here : s.At depth (mark :: ahead))
    (binds : binaryPrecedence? mark.kind = some (precedence, associativity))
    (above : minPrecedence ≤ precedence)
    (right : (rightOperand nested mark.kind precedence associativity).Yields
      (Parse.advance.next s) first P) (more : ahead ≠ []) :
    (Grammar.binaryStep nested minPrecedence pos left).Yields s (mark :: first)
      fun out arena => out.2 = true ∧ ∃ right before, before.Extends arena ∧ P right before ∧
        arena.node? out.1 = some (.binary mark.kind left right) := by
  have ternary : (mark.kind == .question) = false := by
    apply beq_eq_false_iff_ne.mpr
    intro is
    rw [is] at binds
    cases binds
  refine .kind here ?_
  rw [ternary, if_neg Bool.false_ne_true, binds]
  dsimp only
  rw [if_neg (Nat.not_lt.mpr above)]
  refine .advance here more fun _ _ => .andThen right fun right u _ shown => ?_
  refine .andThen (.addNode _ _) fun node v added found => .pure ⟨rfl, ?_⟩
  exact ⟨right, u.arena, added.arena, shown, found⟩

/-- A ternary, of which the condition stands before the question mark. -/
theorem ternaryStep {pos : Nat} {condition : NodeId} {ahead : List Mark}
    (here : s.At depth (mark :: ahead)) (asks : mark.kind = .question)
    (tail : (ternaryTail nested condition pos).Yields (Parse.advance.next s) first Q)
    (more : ahead ≠ []) :
    (Grammar.binaryStep nested 0 pos condition).Yields s (mark :: first)
      fun out arena => out.2 = true ∧ Q out.1 arena := by
  refine .kind here ?_
  rw [asks, beq_self_eq_true, if_pos rfl, if_neg (Nat.not_lt_zero _)]
  refine .advance here more fun _ _ => .andThen tail fun ternary _ _ outcome => ?_
  exact .pure ⟨rfl, outcome⟩

/-- An expression opens and closes. -/
theorem opened {room minPrecedence : Nat} (shallow : s.depth < maxDepth)
    (climbs : (climb (expressionWithin room) minPrecedence).Yields
      { s with depth := s.depth + 1 } first Q) :
    (expressionWithin (room + 1) minPrecedence).Yields s first Q := by
  have opens := expressionWithin_of_depth_lt shallow room minPrecedence
  obtain ⟨passes, outcome⟩ := climbs
  constructor
  · rw [Parse.next, opens]
    exact { passes with depth := congrArg (· - 1) passes.depth }
  · rw [Parse.result, Parse.next, opens]
    exact outcome

theorem literal {node : Token → Node} (here : s.At depth (mark :: next :: after)) :
    (Grammar.literal node).Yields s [mark] fun id arena =>
      arena.node? id = some (node s.cursor.current) := by
  exact .look rfl (.advance here (by simp) fun _ _ => .addNode _ _)

theorem climb {minPrecedence : Nat} (unary : (unaryExpression nested).Yields s first P)
    (tail : (binaryTail nested minPrecedence s.cursor.current.span.start
      ((unaryExpression nested).result s)).Yields ((unaryExpression nested).next s) second Q) :
    (Grammar.climb nested minPrecedence).Yields s (first ++ second) Q :=
  ⟨unary.passes.trans tail.passes, tail.outcome⟩

end Parse.Yields

end StaticReflection
