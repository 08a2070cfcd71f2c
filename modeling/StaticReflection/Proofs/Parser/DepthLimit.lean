import StaticReflection.Proofs.Parser.Arenas
import StaticReflection.Proofs.Parser.Composition
import StaticReflection.Proofs.Parser.UnlimitedSigns

namespace StaticReflection

open Parse Grammar

/-! How many operators stand one before another. Those before their operands are counted as
they are read, and signs before variables are not. -/

/-- With these nodes at hand, what the parser gives is one of them, a node that is no operator
before an operand, a nested expression, or one of these behind a sign or an operator. -/
inductive Parse.Gives (nested : Nested) :
    {α : Type} → List NodeId → (α → NodeId) → Parse α → Prop
  | pure {α : Type} {held : List NodeId} {out : α → NodeId} (value : α)
      (known : out value ∈ held) : Gives nested held out (Pure.pure value)
  | addNode {held : List NodeId} (node : Node) (pos : Nat) (plain : node.isUnary = false) :
      Gives nested held id (Parse.addNode node pos)
  | missingNode {held : List NodeId} : Gives nested held id Parse.missingNode
  | inner {held : List NodeId} (precedence : Nat) : Gives nested held id (nested precedence)
  | sign {held : List NodeId} {operand : NodeId} (pos : Nat) (known : operand ∈ held) :
      Gives nested held id (Parse.addNode (.unary .dollar operand) pos)
  | operator {held : List NodeId} (precedence : Nat) :
      Gives nested held id (unaryOperand nested precedence)
  | after {α β : Type} {held : List NodeId} {out : β → NodeId} {parse : Parse α}
      {rest : α → Parse β} (first : parse.Composed nested)
      (second : ∀ value, Gives nested held out (rest value)) :
      Gives nested held out (parse >>= rest)
  | bind {α β : Type} {held : List NodeId} {out : α → NodeId} {result : β → NodeId}
      {parse : Parse α} {rest : α → Parse β} (first : Gives nested held out parse)
      (second : ∀ value, Gives nested (out value :: held) result (rest value)) :
      Gives nested held result (parse >>= rest)

variable {nested : Nested} {α σ : Type} {held : List NodeId} {out : α → NodeId}

namespace Parse.Gives

theorem ite {condition : Prop} [Decidable condition] {whenTrue whenFalse : Parse α}
    (yes : whenTrue.Gives nested held out) (no : whenFalse.Gives nested held out) :
    (if condition then whenTrue else whenFalse).Gives nested held out := by
  split
  · exact yes
  · exact no

/-- Two ways that join again. -/
theorem join {condition : Prop} [Decidable condition] {whenTrue whenFalse : Parse σ}
    {rest : σ → Parse α} (yes : whenTrue.Composed nested) (no : whenFalse.Composed nested)
    (second : ∀ value, (rest value).Gives nested held out) :
    (if condition then whenTrue >>= rest else whenFalse >>= rest).Gives nested held out :=
  .ite (.after yes second) (.after no second)

theorem when {condition : Prop} [Decidable condition] {whenTrue : Parse Unit}
    {rest : Unit → Parse α} (yes : whenTrue.Composed nested)
    (second : (rest ()).Gives nested held out) :
    (if condition then whenTrue >>= rest else rest ()).Gives nested held out :=
  .ite (.after yes fun _ => second) second

/-- What a parser gives as one component of a pair. -/
theorem paired {parse : Parse NodeId} (more : Bool) (gives : parse.Gives nested held id) :
    (parse >>= fun node => Pure.pure (node, more)).Gives nested held Prod.fst :=
  .bind gives fun _ => .pure _ (.head _)

theorem repeatUpTo {step : NodeId → Parse (NodeId × Bool)}
    (steps : ∀ state held, state ∈ held → (step state).Gives nested held Prod.fst) (bound : Nat)
    {state : NodeId} (known : state ∈ held) :
    (repeatUpTo step bound state).Gives nested held id := by
  induction bound generalizing held state with
  | zero => exact .after .stall fun _ => .pure _ known
  | succ bound ih =>
      refine .after (.looks _) fun before => .bind (steps state held known) fun out => ?_
      refine .ite (.pure _ (.head _)) (.after (.looks _) fun now => .ite (ih (.head _)) ?_)
      exact .after .stall fun _ => .pure _ (.head _)

theorem untilDone {step : NodeId → Parse (NodeId × Bool)}
    (steps : ∀ state held, state ∈ held → (step state).Gives nested held Prod.fst)
    {start : NodeId} (known : start ∈ held) : (untilDone start step).Gives nested held id :=
  .after (.looks _) fun _ => .repeatUpTo steps _ known

end Parse.Gives

namespace Grammar

/-! What the productions of expressions give. -/

theorem variableNode_gives : variableNode.Gives nested held id :=
  .after position_composed fun _ => .after value_composed fun _ => .after .advance fun _ =>
    .addNode _ _ rfl

theorem missingExpression_gives : missingExpression.Gives nested held id := by
  refine .after (reportExpected_composed _) fun _ => .bind .missingNode fun missing => ?_
  exact .after kind_composed fun _ => .when .advance (.pure _ (.head _))

theorem literal_gives {node : Token → Node} (plain : ∀ token, (node token).isUnary = false) :
    (literal node).Gives nested held id :=
  .after current_composed fun token => .after .advance fun _ => .addNode _ _ (plain token)

theorem isUnary_numberNode (digits : String) : (numberNode digits).isUnary = false := by
  unfold numberNode
  split <;> rfl

theorem exprThrough_gives {close : TokenKind} : (exprThrough nested close).Gives nested held id :=
  .bind (.inner 0) fun _ => .after expect_composed fun _ => .pure _ (.head _)

theorem call_gives (callee : NodeId) (pos : Nat) : (call nested callee pos).Gives nested held id :=
  .after arguments_composed fun _ => .addNode _ _ rfl

theorem staticMember_gives (owner : NodeId) (pos : Nat) :
    (staticMember nested owner pos).Gives nested held id := by
  refine .after kind_composed fun kind => ?_
  split
  · exact .after value_composed fun _ => .after .advance fun _ => .addNode _ _ rfl
  · exact .after .advance fun _ => .addNode _ _ rfl
  · refine .after .advance fun _ => .after exprThrough_composed fun _ => ?_
    exact .after arguments_composed fun _ => .addNode _ _ rfl
  · refine .after (ahead?_composed _) fun _ => .ite ?_ ?_
    · refine .after position_composed fun _ => .after value_composed fun _ => ?_
      refine .after .advance fun _ => .after (at?_composed _) fun _ => .ite ?_ (.addNode _ _ rfl)
      refine .after (.addNode _ _ rfl) fun _ => ?_
      exact .after arguments_composed fun _ => .addNode _ _ rfl
    · exact .after (reportExpected_composed _) fun _ => .missingNode

theorem memberAccess_gives (pos : Nat) (object : NodeId) :
    (memberAccess nested pos object).Gives nested held id := by
  refine .after (at?_composed _) fun _ => .after .advance fun _ => ?_
  refine .after memberName_composed fun _ => .after (at?_composed _) fun _ => ?_
  refine .ite ?_ (.addNode _ _ rfl)
  exact .after arguments_composed fun _ => .addNode _ _ rfl

theorem suffix_gives (pos : Nat) (object : NodeId) (held : List NodeId) (known : object ∈ held) :
    (suffix nested pos object).Gives nested held Prod.fst := by
  refine .after kind_composed fun kind => ?_
  split
  · refine .after .advance fun _ => .after optionalThrough_composed fun _ => ?_
    exact .paired _ (.addNode _ _ rfl)
  · exact .paired _ (memberAccess_gives _ _)
  · exact .paired _ (memberAccess_gives _ _)
  · exact .after .advance fun _ => .paired _ (staticMember_gives _ _)
  · exact .paired _ (call_gives _ _)
  · exact .after kind_composed fun _ => .after .advance fun _ => .paired _ (.addNode _ _ rfl)
  · exact .after kind_composed fun _ => .after .advance fun _ => .paired _ (.addNode _ _ rfl)
  · exact .pure _ known

theorem suffixes_gives {start : NodeId} (pos : Nat) (known : start ∈ held) :
    (suffixes nested start pos).Gives nested held id :=
  .untilDone (suffix_gives pos) known

theorem arrayElements_gives (pos : Nat) (close : TokenKind) (bracketed : Bool) :
    (arrayElements nested pos close bracketed).Gives nested held id :=
  .after (.untilDone (arraySlot_composed close) _) fun _ => .after expect_composed fun _ =>
    .addNode _ _ rfl

theorem nameExpression_gives : (nameExpression nested).Gives nested held id := by
  refine .after position_composed fun pos => .after value_composed fun name => ?_
  refine .after .advance fun _ => .after kind_composed fun kind => ?_
  split
  · exact .after (.addNode _ _ rfl) fun _ => call_gives _ _
  · exact .addNode _ _ rfl
  · exact .addNode _ _ rfl

theorem wordArray_gives (pos : Nat) : (wordArray nested pos).Gives nested held id := by
  refine .after (ahead?_composed _) fun _ => .ite ?_ missingExpression_gives
  exact .after .advance fun _ => .after .advance fun _ => arrayElements_gives _ _ _

theorem wordCall_gives (pos : Nat) : (wordCall nested pos).Gives nested held id :=
  .after value_composed fun _ => .after .advance fun _ => .after (.addNode _ _ rfl) fun _ =>
    call_gives _ _

theorem plainPrimary_gives : (plainPrimary nested).Gives nested held id := by
  refine .after position_composed fun pos => .after kind_composed fun current => ?_
  split
  · exact variableNode_gives
  · exact literal_gives fun token => isUnary_numberNode token.value
  · exact literal_gives fun _ => rfl
  · exact literal_gives fun _ => rfl
  · exact literal_gives fun _ => rfl
  · exact .after .advance fun _ => arrayElements_gives _ _ _
  · exact wordArray_gives pos
  · exact wordArray_gives pos
  · exact .after .advance fun _ => exprThrough_gives
  · exact wordCall_gives pos
  · exact wordCall_gives pos
  · exact wordCall_gives pos
  · exact nameExpression_gives
  · exact nameExpression_gives
  · exact nameExpression_gives
  · exact nameExpression_gives
  · exact nameExpression_gives
  · exact .ite (.after .advance fun _ => .addNode _ _ rfl) missingExpression_gives

theorem signs_gives (signs : List Nat) {base : NodeId} (known : base ∈ held) :
    (signs.foldlM (fun operand pos => addNode (.unary .dollar operand) pos) base).Gives
      nested held id := by
  induction signs generalizing held base with
  | nil => exact .pure _ known
  | cons pos signs ih => exact .bind (.sign pos known) fun _ => ih (.head _)

theorem primary_gives : (primary nested).Gives nested held id := by
  refine .after dollarSigns_composed fun signs => .after acceptIf_composed fun _ => .ite ?_ ?_
  · exact .bind exprThrough_gives fun _ => signs_gives signs (.head _)
  · exact .bind plainPrimary_gives fun _ => signs_gives signs (.head _)

theorem newExpression_gives : (newExpression nested).Gives nested held id := by
  refine .after position_composed fun pos => .after .advance fun _ => ?_
  refine .after kind_composed fun kind => ?_
  split
  · refine .after position_composed fun classPos => .after .advance fun _ => ?_
    refine .after optionalArguments_composed fun list => ?_
    refine .after (classTail_composed (.inner 0) _ _ _ _) fun decl => ?_
    exact .after (.addNode _ _ rfl) fun _ => .addNode _ _ rfl
  · refine .after objectClass_composed fun owner => ?_
    exact .after optionalArguments_composed fun list => .addNode _ _ rfl

theorem closure_gives : (closure nested).Gives nested held id := by
  refine .after position_composed fun pos => .after accept_composed fun isStatic => ?_
  refine .after (at?_composed _) fun isArrow => .after .advance fun _ => ?_
  refine .after accept_composed fun _ => .after (parameterList_composed (.inner 0)) fun _ => ?_
  refine .after acceptIf_composed fun _ => .when capturedVariables_composed ?_
  refine .after typeAfter_composed fun _ => .after (closureBody_composed isArrow) fun _ => ?_
  exact .addNode _ _ rfl

theorem matchExpression_gives : (matchExpression nested).Gives nested held id := by
  refine .after position_composed fun pos => .after .advance fun _ => ?_
  refine .after expect_composed fun _ => .after exprThrough_composed fun subject => ?_
  refine .after expect_composed fun _ => .after (.untilDone (fun arms => ?_) _) fun _ => ?_
  · refine .bind kind_composed fun kind => ?_
    split
    · exact .pure _
    · exact .pure _
    · refine .bind position_composed fun armPos => .bind armConditions_composed fun _ => ?_
      refine .bind expect_composed fun _ => .bind (.inner 0) fun body => ?_
      exact .bind (.addNode _ _ rfl) fun arm => .bind accept_composed fun _ => .pure _
  · exact .after expect_composed fun _ => .addNode _ _ rfl

theorem yieldExpression_gives : (yieldExpression nested).Gives nested held id := by
  refine .after position_composed fun pos => .after .advance fun _ => ?_
  refine .after (at?_composed _) fun _ => .after value_composed fun _ => .ite ?_ ?_
  · exact .after .advance fun _ => .after (.inner _) fun _ => .addNode _ _ rfl
  refine .after kind_composed fun _ => .ite (.addNode _ _ rfl) (.after (.inner _) fun _ => ?_)
  refine .after accept_composed fun _ => .ite ?_ (.addNode _ _ rfl)
  exact .after (.inner _) fun _ => .addNode _ _ rfl

theorem assignmentTail_gives {target : NodeId} (pos : Nat) (known : target ∈ held) :
    (assignmentTail nested target pos).Gives nested held id := by
  refine .after kind_composed fun op => .after .get fun s => .ite ?_ (.pure _ known)
  refine .after .advance fun _ => .after acceptIf_composed fun _ => ?_
  exact .after (.inner _) fun _ => .addNode _ _ rfl

theorem keywordOperand_gives (precedence : Nat) :
    (keywordOperand nested precedence).Gives nested held id :=
  .after position_composed fun _ => .after kind_composed fun _ => .after .advance fun _ =>
    .after (.inner _) fun _ => .addNode _ _ rfl

theorem castExpression_gives : (castExpression nested).Gives nested held id :=
  .after position_composed fun _ => .after value_composed fun _ => .after .advance fun _ =>
    .after (.inner _) fun _ => .addNode _ _ rfl

theorem exitExpression_gives : (exitExpression nested).Gives nested held id := by
  refine .after position_composed fun pos => .after kind_composed fun _ => ?_
  refine .after .advance fun _ => ?_
  refine .after accept_composed fun _ => .join optionalThrough_composed (.pure _) fun _ => ?_
  exact .addNode _ _ rfl

/-- What is behind an object, and an assignment to it. -/
theorem assigned_gives {start : NodeId} (pos : Nat) (known : start ∈ held) :
    (suffixes nested start pos >>= fun target => assignmentTail nested target pos).Gives
      nested held id :=
  .bind (suffixes_gives pos known) fun _ => assignmentTail_gives pos (.head _)

theorem operand_gives : (operand nested).Gives nested held id :=
  .after position_composed fun pos => .bind primary_gives fun _ => assigned_gives pos (.head _)

theorem plainExpression_gives : (plainExpression nested).Gives nested held id := by
  refine .after position_composed fun pos => .after kind_composed fun kind => ?_
  split
  · exact castExpression_gives
  · exact yieldExpression_gives
  · exact exitExpression_gives
  · exact .bind newExpression_gives fun _ => assigned_gives pos (.head _)
  · exact closure_gives
  · exact closure_gives
  · exact .bind matchExpression_gives fun _ => suffixes_gives pos (.head _)
  · exact .after (ahead?_composed _) fun _ => .ite closure_gives operand_gives

theorem bareExpression_gives : (bareExpression nested).Gives nested held id := by
  refine .after kind_composed fun first => ?_
  split
  · exact .operator _
  · split
    · exact keywordOperand_gives _
    · exact plainExpression_gives

theorem unaryExpression_gives : (unaryExpression nested).Gives nested held id :=
  .after (at?_composed _) fun _ =>
    .ite (.after skipAttributes_composed fun _ => bareExpression_gives) bareExpression_gives

theorem ternaryTail_gives (condition : NodeId) (pos : Nat) :
    (ternaryTail nested condition pos).Gives nested held id := by
  refine .after (at?_composed _) fun _ => .join (.pure _) (.map (.inner 0) _) fun _ => ?_
  exact .after expect_composed fun _ => .after (.inner _) fun _ => .addNode _ _ rfl

theorem binaryStep_gives (minPrecedence pos : Nat) (left : NodeId) (held : List NodeId)
    (known : left ∈ held) :
    (binaryStep nested minPrecedence pos left).Gives nested held Prod.fst := by
  refine .after kind_composed fun op => .ite (.ite (.pure _ known) ?_) ?_
  · exact .after .advance fun _ => .paired _ (ternaryTail_gives _ _)
  · split
    · exact .pure _ known
    · refine .ite (.pure _ known) (.after .advance fun _ => ?_)
      exact .after (rightOperand_composed _ _ _) fun _ => .paired _ (.addNode _ _ rfl)

theorem climb_gives (minPrecedence : Nat) : (climb nested minPrecedence).Gives nested held id :=
  .after position_composed fun pos => .bind unaryExpression_gives fun _ =>
    .untilDone (binaryStep_gives minPrecedence pos) (.head _)

end Grammar

/-! The operators in an arena. -/

namespace Arena

variable {arena : Arena} {node : Node} {span : Span} {id : NodeId} {bound : Nat}

/-- The node is there, and the operators from it on, one before another, are no more than the
bound. Signs are not counted. -/
inductive Within (arena : Arena) : Nat → NodeId → Prop
  | plain {bound : Nat} {id : NodeId} {node : Node} (found : arena.node? id = some node)
      (plain : node.isUnary = false) : Within arena bound id
  | sign {bound : Nat} {id operand : NodeId}
      (found : arena.node? id = some (.unary .dollar operand))
      (rest : Within arena bound operand) : Within arena bound id
  | operator {bound : Nat} {id operand : NodeId} {op : TokenKind}
      (found : arena.node? id = some (.unary op operand)) (rest : Within arena bound operand) :
      Within arena (bound + 1) id

theorem lasting_within (bound : Nat) : Lasting fun id arena => arena.Within bound id := by
  intro id arena larger grows within
  induction within with
  | plain found plain => exact .plain (grows _ _ found) plain
  | sign found _ ih => exact .sign (grows _ _ found) ih
  | operator found _ ih => exact .operator (grows _ _ found) ih

theorem Within.mono {more : Nat} (within : arena.Within bound id) (smaller : bound ≤ more) :
    arena.Within more id := by
  induction within generalizing more with
  | plain found plain => exact .plain found plain
  | sign found _ ih => exact .sign found (ih smaller)
  | operator found _ ih =>
      obtain ⟨fewer, rfl⟩ := Nat.exists_eq_add_of_lt smaller
      exact .operator found (ih (by omega))

/-- No chain of operators has more of them than the bound. -/
theorem Within.count (within : arena.Within bound id) {ops : List TokenKind}
    (chain : arena.UnaryChain id ops) : (ops.filter (· ≠ .dollar)).length ≤ bound := by
  induction within generalizing ops with
  | plain found plain =>
      cases chain with
      | nil => exact Nat.zero_le _
      | cons again rest =>
          cases found.symm.trans again
          exact absurd plain nofun
  | sign found _ ih =>
      cases chain with
      | nil => exact Nat.zero_le _
      | cons again rest =>
          cases found.symm.trans again
          rw [List.filter_cons_of_neg (by decide)]
          exact ih rest
  | operator found _ ih =>
      cases chain with
      | nil => exact Nat.zero_le _
      | cons again rest =>
          cases found.symm.trans again
          have fewer := ih rest
          rw [List.filter_cons]
          split
          · exact Nat.succ_le_succ fewer
          · exact Nat.le_succ_of_le fewer

theorem within_add (span : Span) (bound : Nat) (plain : node.isUnary = false) :
    (arena.add node span).Within bound arena.size :=
  .plain (node?_add_size _ _ _) plain

theorem Within.add_sign (within : arena.Within bound id) (span : Span) :
    (arena.add (.unary .dollar id) span).Within bound arena.size :=
  .sign (node?_add_size _ _ _) (lasting_within _ _ _ _ (extends_add _ _ _) within)

theorem Within.add_operator (within : arena.Within bound id) (op : TokenKind) (span : Span) :
    (arena.add (.unary op id) span).Within (bound + 1) arena.size :=
  .operator (node?_add_size _ _ _) (lasting_within _ _ _ _ (extends_add _ _ _) within)

/-- No more operators stand one before another than expressions may be nested. -/
def Capped (arena : Arena) : Prop :=
  ∀ id node, arena.node? id = some node → arena.Within maxDepth id

theorem capped_empty : Capped {} :=
  fun _ _ found => by simp [node?] at found

theorem Capped.add (capped : arena.Capped)
    (within : (arena.add node span).Within maxDepth arena.size) :
    (arena.add node span).Capped := by
  intro id other found
  by_cases new : id = arena.size
  · exact new ▸ within
  · rw [node?_add, if_neg new] at found
    exact lasting_within _ _ _ _ (extends_add _ _ _) (capped id other found)

end Arena

/-- What parsing keeps: the number of open expressions, the nodes that are there, and the bound
on the operators of all nodes. -/
structure ParseState.Kept (s t : ParseState) : Prop where
  depth : t.depth = s.depth
  grows : s.arena.Extends t.arena
  capped : t.arena.Capped

namespace ParseState

variable {s t u : ParseState} {bound : Nat}

theorem Kept.refl (capped : s.arena.Capped) : s.Kept s :=
  ⟨rfl, .refl _, capped⟩

theorem Kept.trans (one : s.Kept t) (two : t.Kept u) : s.Kept u where
  depth := two.depth.trans one.depth
  grows := one.grows.trans two.grows
  capped := two.capped

theorem Kept.within (kept : s.Kept t) {id : NodeId} (within : s.arena.Within bound id) :
    t.arena.Within bound id :=
  Arena.lasting_within _ _ _ _ kept.grows within

/-- A node is added that has no more operators before it than there may be. -/
theorem Kept.add {node : Node} {span : Span} (capped : s.arena.Capped) (low : bound ≤ maxDepth)
    (within : (s.arena.add node span).Within bound s.arena.size)
    (added : t.arena = s.arena.add node span) (depth : t.depth = s.depth) : s.Kept t where
  depth := depth
  grows := added ▸ Arena.extends_add _ _ _
  capped := added ▸ capped.add (within.mono low)

end ParseState

namespace Parse

def StaysCapped (parse : Parse α) : Prop :=
  ∀ s : ParseState, s.arena.Capped → s.Kept (parse.next s)

/-- The parser gives a node with no more than `bound` operators, and keeps what is to be kept. -/
def GivesWithin (parse : Parse α) (out : α → NodeId) (bound : Nat) (s : ParseState) : Prop :=
  s.Kept (parse.next s) ∧ (parse.next s).arena.Within bound (out (parse.result s))

/-- An expression has no more operators before it than expressions may still be opened. -/
def Limited (parse : Parse NodeId) : Prop :=
  ∀ s : ParseState, s.arena.Capped → parse.GivesWithin id (maxDepth - s.depth) s

variable {s : ParseState} {bound : Nat}

theorem addNode_plain {node : Node} (pos : Nat) (capped : s.arena.Capped)
    (low : bound ≤ maxDepth) (plain : node.isUnary = false) :
    (addNode node pos).GivesWithin id bound s :=
  have within := Arena.within_add _ _ plain
  ⟨.add capped low within rfl rfl, within⟩

theorem missingNode_plain (capped : s.arena.Capped) (low : bound ≤ maxDepth) :
    missingNode.GivesWithin id bound s :=
  have within := Arena.within_add _ _ (rfl : Node.isUnary .missing = false)
  ⟨.add capped low within rfl rfl, within⟩

theorem GivesWithin.after {parse : Parse σ} {rest : σ → Parse α} (kept : s.Kept (parse.next s))
    (second : (rest (parse.result s)).GivesWithin out bound (parse.next s)) :
    (parse >>= rest).GivesWithin out bound s :=
  ⟨kept.trans second.1, second.2⟩

/-- What changes neither the arena nor the number of open expressions. -/
theorem staysCapped_of_arena {parse : Parse α} (arena : ∀ s, (parse.next s).arena = s.arena)
    (depth : ∀ s, (parse.next s).depth = s.depth) : parse.StaysCapped := fun s capped =>
  { depth := depth s
    grows := fun _ _ found => (arena s).symm ▸ found
    capped := (arena s).symm ▸ capped }

theorem report_staysCapped (message : String) : (report message).StaysCapped := by
  refine staysCapped_of_arena (fun s => ?_) fun s => ?_ <;>
    · unfold report
      rw [next_modify]
      dsimp only
      split <;> rfl

theorem advance_staysCapped : advance.StaysCapped :=
  staysCapped_of_arena (fun _ => rfl) fun _ => rfl

theorem Composed.staysCapped {parse : Parse α} (composed : parse.Composed nested)
    (inner : ∀ precedence, (nested precedence).Limited) : parse.StaysCapped := by
  induction composed with
  | pure value => exact staysCapped_of_arena (fun _ => rfl) fun _ => rfl
  | bind _ _ first second =>
      intro s capped
      have one := first s capped
      exact one.trans (second _ _ one.capped)
  | get => exact staysCapped_of_arena (fun _ => rfl) fun _ => rfl
  | advance => exact advance_staysCapped
  | report message => exact report_staysCapped message
  | stall => exact staysCapped_of_arena (fun _ => rfl) fun _ => rfl
  | halt => exact staysCapped_of_arena (fun _ => rfl) fun _ => rfl
  | missingNode => exact fun s capped => (missingNode_plain capped (Nat.le_refl _)).1
  | addNode node pos plain =>
      exact fun s capped => (addNode_plain pos capped (Nat.le_refl _) plain).1
  | inner precedence => exact fun s capped => (inner precedence s capped).1

/-- While an expression is open, one operator more than nested expressions have is allowed. -/
theorem within_room (opened : 0 < s.depth) : maxDepth - s.depth + 1 ≤ maxDepth := by
  unfold maxDepth
  omega

theorem unaryOperand_givesWithin (inner : ∀ precedence, (nested precedence).Limited)
    (precedence : Nat) (opened : 0 < s.depth) (capped : s.arena.Capped) :
    (unaryOperand nested precedence).GivesWithin id (maxDepth - s.depth + 1) s := by
  have passed := advance_staysCapped s capped
  obtain ⟨kept, within⟩ := inner precedence _ passed.capped
  rw [passed.depth] at within
  have whole := within.add_operator s.cursor.kind
  refine ⟨passed.trans (kept.trans ?_), whole _⟩
  exact .add kept.capped (within_room opened) (whole _) rfl rfl

theorem Gives.givesWithin {parse : Parse α} (gives : parse.Gives nested held out)
    (inner : ∀ precedence, (nested precedence).Limited) (opened : 0 < s.depth)
    (capped : s.arena.Capped)
    (known : ∀ id ∈ held, s.arena.Within (maxDepth - s.depth + 1) id) :
    parse.GivesWithin out (maxDepth - s.depth + 1) s := by
  induction gives generalizing s with
  | pure value member => exact ⟨.refl capped, known _ member⟩
  | addNode node pos plain => exact addNode_plain pos capped (within_room opened) plain
  | missingNode => exact missingNode_plain capped (within_room opened)
  | inner precedence =>
      obtain ⟨kept, within⟩ := inner precedence s capped
      exact ⟨kept, within.mono (Nat.le_succ _)⟩
  | sign pos member =>
      have within := (known _ member).add_sign
      exact ⟨.add capped (within_room opened) (within _) rfl rfl, within _⟩
  | operator precedence => exact unaryOperand_givesWithin inner precedence opened capped
  | after first _ ih =>
      have kept := first.staysCapped inner s capped
      refine .after kept ?_
      rw [← kept.depth] at opened known ⊢
      exact ih _ opened kept.capped fun id member => kept.within (known id member)
  | bind _ _ first second =>
      obtain ⟨kept, within⟩ := first opened capped known
      refine .after kept ?_
      rw [← kept.depth] at opened known within ⊢
      refine second _ opened kept.capped fun id member => ?_
      obtain rfl | member := List.mem_cons.mp member
      · exact within
      · exact kept.within (known id member)

end Parse

namespace Grammar

theorem passExpression_givesWithin {s : ParseState} {bound : Nat} (capped : s.arena.Capped)
    (low : bound ≤ maxDepth) : passExpression.GivesWithin id bound s := by
  obtain ⟨kept, within⟩ := missingNode_plain capped low
  unfold passExpression GivesWithin
  simp only [next_bind, result_bind, next_at?]
  split
  · have passed := advance_staysCapped _ kept.capped
    exact ⟨kept.trans passed, passed.within within⟩
  · exact ⟨kept, within⟩

theorem expressionWithin_limited (room precedence : Nat) :
    (expressionWithin room precedence).Limited := by
  induction room generalizing precedence with
  | zero =>
      intro s capped
      have stalled : s.Kept (stall.next s) := ⟨rfl, .refl _, capped⟩
      obtain ⟨kept, within⟩ := missingNode_plain stalled.capped (Nat.sub_le _ s.depth)
      exact ⟨stalled.trans kept, within⟩
  | succ room ih =>
      intro s capped
      by_cases shallow : s.depth < maxDepth
      · let t : ParseState := { s with depth := s.depth + 1 }
        have gives : (climb (expressionWithin room) precedence).Gives _ [] id :=
          climb_gives precedence
        obtain ⟨kept, within⟩ := gives.givesWithin (s := t) ih (Nat.succ_pos _) capped nofun
        have opens : expressionWithin (room + 1) precedence s =
            ((climb (expressionWithin room) precedence).result t,
              closeExpression.next ((climb (expressionWithin room) precedence).next t)) :=
          expressionWithin_of_depth_lt shallow room precedence
        have spare : maxDepth - t.depth + 1 = maxDepth - s.depth := by
          change maxDepth - (s.depth + 1) + 1 = _
          omega
        unfold GivesWithin
        rw [Parse.next, Parse.result, opens, ← spare]
        generalize (climb _ precedence).next t = u at *
        generalize (climb _ precedence).result t = node at *
        exact ⟨⟨congrArg (· - 1) kept.depth, kept.grows, kept.capped⟩, within⟩
      · have reported := report_staysCapped "Maximum nesting depth exceeded" s capped
        have passed : GivesWithin (report "Maximum nesting depth exceeded" >>= fun _ =>
            passExpression) id (maxDepth - s.depth) s :=
          .after reported (passExpression_givesWithin reported.capped (Nat.sub_le _ _))
        unfold GivesWithin Parse.next Parse.result
        rw [expressionWithin_of_depth_ge shallow]
        exact passed

end Grammar

theorem capped_parseFile (path : String) (text : Text) :
    (parseFile path text).arena.Capped := by
  have kept := fileStatements_composed.staysCapped (expressionWithin_limited _) (.ofText text)
    Arena.capped_empty
  exact kept.capped.add (Arena.within_add _ _ rfl)

/-- Operators before operands are no more than expressions may be nested, but neither the signs
before a variable nor the parentheses around a type are counted: with any number of them a file
is accepted, and each sign is one more node. -/
theorem only_operators_limited (path : String) :
    (∀ (text : Text) (id : NodeId) (ops : List TokenKind),
      (parseFile path text).arena.UnaryChain id ops →
        (ops.filter (· ≠ .dollar)).length ≤ maxDepth) ∧
    (∀ (word : Word) (count : Nat),
      let file := parseFile path (signedDefinition word (count + 1))
      file.diagnostics = [] ∧
        ∃ id, file.arena.UnaryChain id (List.replicate (count + 1) .dollar)) ∧
    ∀ (name : ConstantName) (count : Nat),
      (parseFile path (typedFunction name count)).diagnostics = [] := by
  refine ⟨fun text id ops chain => ?_, parseFile_signedDefinition path,
    parseFile_typedFunction path⟩
  cases chain with
  | nil => exact Nat.zero_le _
  | cons found rest => exact (capped_parseFile path text _ _ found).count (.cons found rest)

theorem three_hundred_signs_and_parentheses :
    let word : Word := ⟨['a'], by decide, by decide⟩
    let name : ConstantName := ⟨⟨⟨['A'], by decide, by decide⟩, by decide⟩, by decide⟩
    maxDepth < 300 ∧ (parseFile "a.php" (signedDefinition word 300)).diagnostics = [] ∧
      (∃ id, (parseFile "a.php" (signedDefinition word 300)).arena.UnaryChain id
          (List.replicate 300 .dollar) ∧
        ((List.replicate 300 TokenKind.dollar).filter (· ≠ .dollar)).length ≤ maxDepth) ∧
      (parseFile "a.php" (typedFunction name 300)).diagnostics = [] := by
  intro word name
  obtain ⟨limited, signs, parentheses⟩ := only_operators_limited "a.php"
  obtain ⟨clean, id, chain⟩ := signs word 299
  exact ⟨by decide, clean, ⟨id, chain, limited _ id _ chain⟩, parentheses name _⟩

end StaticReflection
