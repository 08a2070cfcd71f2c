import StaticReflection.Proofs.Parser.ProductionProgress

namespace StaticReflection.Grammar

open Parse

variable {room : Nat}

/-! Expressions move onward, given that those nested in them do, and so do expressions
nested to any depth. -/

section Nested

variable {nested : Nested} (inner : ∀ precedence, (nested precedence).MovesOn room)
include inner

theorem exprThrough_movesOn {close : TokenKind} :
    (exprThrough nested close).MovesOn room :=
  .bind (inner 0) fun _ => .bind expect_movesOn fun _ => pure_movesOn

theorem optionalThrough_movesOn {close : TokenKind} :
    (optionalThrough nested close).MovesOn room := by
  unfold optionalThrough
  refine .still (at?_still _) fun _ => ?_
  refine .join (fun _ => pure_movesOn) (fun _ => .map (inner 0)) fun _ => ?_
  exact .bind expect_movesOn fun _ => pure_movesOn

theorem classReference_movesOn : (classReference nested).MovesOn room := by
  unfold classReference
  refine .still (ahead?_still _) fun _ => .ite (fun _ => ?_) fun _ => inner _
  refine .still position_still fun _ => .still value_still fun _ => ?_
  exact .bind advance_movesOn fun _ => (addNode_still _ _).movesOn

theorem argument_movesOn : (argument nested).MovesOn room := by
  unfold argument
  refine .still position_still fun pos => .bind accept_movesOn fun spread => ?_
  refine .still (ahead?_still _) fun named => .ite (fun _ => ?_) fun _ => ?_
  · refine .still value_still fun _ => .bind advance_movesOn fun _ => ?_
    refine .bind advance_movesOn fun _ => .still (pure_still _) fun _ => ?_
    exact .bind (inner 0) fun _ => (addNode_still _ _).movesOn
  · refine .still (pure_still _) fun _ => ?_
    exact .bind (inner 0) fun _ => (addNode_still _ _).movesOn

theorem arguments_consumes : (arguments nested).ConsumesAt room (· = .openParen) := by
  unfold arguments
  refine .first (expect_consumes nofun) fun _ => .ite (fun _ => pure_movesOn) fun _ => ?_
  refine .still (ahead?_still _) fun _ => .ite (fun _ => ?_) fun _ => ?_
  · refine .bind advance_movesOn fun _ => .bind advance_movesOn fun _ => pure_movesOn
  · refine .bind (untilDone_movesOn fun list => .kind fun kind => ?_) fun _ => ?_
    · split
      · exact .last
      · exact .last
      · refine .bind (argument_movesOn inner) fun _ => .accept nofun pure_movesOn .last
    · exact .bind expect_movesOn fun _ => pure_movesOn

theorem arguments_movesOn : (arguments nested).MovesOn room :=
  (arguments_consumes inner).movesOn

theorem call_consumes (callee : NodeId) (pos : Nat) :
    (call nested callee pos).ConsumesAt room (· = .openParen) :=
  .first (arguments_consumes inner) fun _ => (addNode_still _ _).movesOn

omit inner in
theorem variableNode_movesOn : variableNode.MovesOn room :=
  .still position_still fun _ => .still value_still fun _ =>
    .bind advance_movesOn fun _ => (addNode_still _ _).movesOn

theorem memberName_movesOn : (memberName nested).MovesOn room := by
  unfold memberName
  refine .still position_still fun pos => .still kind_still fun kind => ?_
  split
  · exact variableNode_movesOn
  · exact .bind advance_movesOn fun _ => exprThrough_movesOn inner
  · refine .bind word?_movesOn fun name => ?_
    cases name with
    | none => exact missingNode_still.movesOn
    | some name => exact (addNode_still _ _).movesOn

theorem staticMember_movesOn (owner : NodeId) (pos : Nat) :
    (staticMember nested owner pos).MovesOn room := by
  unfold staticMember
  refine .still kind_still fun kind => ?_
  split
  · refine .still value_still fun _ => .bind advance_movesOn fun _ => ?_
    exact (addNode_still _ _).movesOn
  · exact .bind advance_movesOn fun _ => (addNode_still _ _).movesOn
  · refine .bind advance_movesOn fun _ => .bind (exprThrough_movesOn inner) fun _ => ?_
    exact .bind (arguments_movesOn inner) fun _ => (addNode_still _ _).movesOn
  · refine .still (ahead?_still _) fun _ => .ite (fun _ => ?_) fun _ => ?_
    · refine .still position_still fun _ => .still value_still fun _ => ?_
      refine .bind advance_movesOn fun _ => .still (at?_still _) fun _ => .ite (fun _ =>
        ?_) fun _ => ?_
      · refine .still (addNode_still _ _) fun _ => .bind (arguments_movesOn inner) fun _ => ?_
        exact (addNode_still _ _).movesOn
      · exact (addNode_still _ _).movesOn
    · exact .still (reportExpected_still _) fun _ => missingNode_still.movesOn

theorem memberAccess_consumes (pos : Nat) (object : NodeId) :
    (memberAccess nested pos object).ConsumesAt room (· ≠ .endOfFile) := by
  refine .still (at?_still _) fun nullsafe => .advance (fun ended => ended rfl) ?_
  refine .bind (memberName_movesOn inner) fun name => .still (at?_still _) fun called => ?_
  refine .ite (fun _ => ?_) fun _ => (addNode_still _ _).movesOn
  exact .bind (arguments_movesOn inner) fun _ => (addNode_still _ _).movesOn

theorem suffix_steps (pos : Nat) : Steps room (suffix nested pos) := by
  intro object
  unfold suffix
  have access (here : TokenKind) (inside : here ≠ .endOfFile) :
      (memberAccess nested pos object).ConsumesAt room fun kind => True ∧ kind = here :=
    (memberAccess_consumes inner pos object).atKind fun _ kind => kind.2 ▸ inside
  refine .kind fun kind => ?_
  split
  · refine .advance (by simp) (.bind (optionalThrough_movesOn inner) fun _ => ?_)
    exact .still (addNode_still _ _) fun _ => pure_movesOn
  · exact .first (access _ (by decide)) fun _ => pure_movesOn
  · exact .first (access _ (by decide)) fun _ => pure_movesOn
  · exact .advance (by simp) (.bind (staticMember_movesOn inner _ _) fun _ => pure_movesOn)
  · refine .first ((call_consumes inner _ _).atKind fun _ kind => kind.2) fun _ => pure_movesOn
  · refine .still kind_still fun _ => .advance (by simp) ?_
    exact .still (addNode_still _ _) fun _ => pure_movesOn
  · refine .still kind_still fun _ => .advance (by simp) ?_
    exact .still (addNode_still _ _) fun _ => pure_movesOn
  · exact .last

theorem suffixes_movesOn (start : NodeId) (pos : Nat) :
    (suffixes nested start pos).MovesOn room :=
  untilDone_movesOn (suffix_steps inner pos)

theorem arrayEntry_movesOn : (arrayEntry nested).MovesOn room := by
  unfold arrayEntry
  refine .bind accept_movesOn fun spread => .ite (fun _ => ?_) fun _ => ?_
  · exact .bind (inner 0) fun _ => pure_movesOn
  refine .bind accept_movesOn fun byRef => .ite (fun _ => ?_) fun _ => ?_
  · exact .bind (inner 0) fun _ => pure_movesOn
  refine .bind (inner 0) fun first => .bind accept_movesOn fun keyed => ?_
  refine .ite (fun _ => ?_) fun _ => pure_movesOn
  exact .bind accept_movesOn fun _ => .bind (inner 0) fun _ => pure_movesOn

theorem arrayElement_movesOn : (arrayElement nested).MovesOn room :=
  .still position_still fun _ => .bind (arrayEntry_movesOn inner) fun _ =>
    (addNode_still _ _).movesOn

theorem arraySlot_steps (close : TokenKind) : Steps room (arraySlot nested close) := by
  intro items
  refine .still kind_still fun kind => .ite (fun _ => .last) fun _ => ?_
  refine .accept nofun pure_movesOn (.bind (arrayElement_movesOn inner) fun _ => ?_)
  exact .accept nofun pure_movesOn .last

theorem arrayElements_movesOn (pos : Nat) {close : TokenKind} (bracketed : Bool) :
    (arrayElements nested pos close bracketed).MovesOn room := by
  unfold arrayElements
  refine .bind (untilDone_movesOn (arraySlot_steps inner close)) fun _ => ?_
  exact .bind expect_movesOn fun _ => (addNode_still _ _).movesOn

omit inner in
theorem missingExpression_movesOn : missingExpression.MovesOn room := by
  unfold missingExpression
  refine .still (reportExpected_still _) fun _ => .still missingNode_still fun _ => ?_
  refine .still kind_still fun kind => ?_
  exact .when (fun _ => advance_movesOn) pure_movesOn

omit inner in
theorem literal_movesOn (node : Token → Node) : (literal node).MovesOn room :=
  .still current_still fun _ => .bind advance_movesOn fun _ => (addNode_still _ _).movesOn

theorem nameExpression_consumes : (nameExpression nested).ConsumesAt room (· ≠ .endOfFile) := by
  unfold nameExpression
  refine .still position_still fun pos => .still value_still fun name => ?_
  refine .advance (fun ended => ended rfl) (.still kind_still fun kind => ?_)
  split
  · exact .still (addNode_still _ _) fun callee => (call_consumes inner callee pos).movesOn
  · exact (addNode_still _ _).movesOn
  · exact (addNode_still _ _).movesOn

theorem wordArray_movesOn (pos : Nat) : (wordArray nested pos).MovesOn room := by
  unfold wordArray
  refine .still (ahead?_still _) fun _ => .ite (fun _ => ?_) fun _ => missingExpression_movesOn
  refine .bind advance_movesOn fun _ => .bind advance_movesOn fun _ => ?_
  exact arrayElements_movesOn inner pos false

theorem wordCall_movesOn (pos : Nat) : (wordCall nested pos).MovesOn room :=
  .still value_still fun _ => .bind advance_movesOn fun _ => .still (addNode_still _ _) fun _ =>
    (call_consumes inner _ pos).movesOn

/-- A name as an expression is consumed. -/
theorem plainPrimary_consumes : (plainPrimary nested).ConsumesAt room fun kind =>
    kind = .identifier ∨ kind = .qualifiedName := by
  unfold plainPrimary
  have named (kind : TokenKind) (inside : kind ≠ .endOfFile) :
      (nameExpression nested).ConsumesAt room fun here =>
        (here = .identifier ∨ here = .qualifiedName) ∧ here = kind :=
    (nameExpression_consumes inner).atKind fun _ here => here.2 ▸ inside
  refine .still position_still fun pos => .kind fun kind => ?_
  split
  · exact .elsewhere variableNode_movesOn (by simp)
  · exact .elsewhere (literal_movesOn _) (by simp)
  · exact .elsewhere (literal_movesOn _) (by simp)
  · exact .elsewhere (literal_movesOn _) (by simp)
  · exact .elsewhere (literal_movesOn _) (by simp)
  · exact .advance (by simp) (arrayElements_movesOn inner pos true)
  · exact .elsewhere (wordArray_movesOn inner pos) (by simp)
  · exact .elsewhere (wordArray_movesOn inner pos) (by simp)
  · exact .advance (by simp) (exprThrough_movesOn inner)
  · exact .elsewhere (wordCall_movesOn inner pos) (by simp)
  · exact .elsewhere (wordCall_movesOn inner pos) (by simp)
  · exact .elsewhere (wordCall_movesOn inner pos) (by simp)
  · exact named _ nofun
  · exact named _ nofun
  · exact named _ nofun
  · exact named _ nofun
  · exact named _ nofun
  · refine .ite (fun _ => ?_) fun _ => ?_
    · exact .advance (by simp) (addNode_still _ _).movesOn
    · exact .elsewhere missingExpression_movesOn (by grind)

omit inner in
theorem dollarSigns_consumes : dollarSigns.ConsumesAt room (· = .dollar) := by
  refine untilDone_consumes (fun positions => ?_) ?_
  · exact .still position_still fun _ => .accept nofun pure_movesOn .last
  · refine .still position_still fun _ => .accept nofun pure_movesOn ?_
    exact .pure fun _ _ here => absurd here.1 here.2

omit inner in
theorem dollarSigns_idle {s : ParseState} (other : s.cursor.kind ≠ .dollar) :
    dollarSigns s = ([], s) := by
  refine untilDone_of_done ?_
  rw [position_bind, bind_of (accept_of_ne other)]
  rfl

omit inner in
theorem variables_movesOn (signs : List Nat) (base : NodeId) :
    Parse.MovesOn room
      (signs.foldlM (fun operand pos => addNode (.unary .dollar operand) pos) base) := by
  induction signs generalizing base with
  | nil => exact pure_movesOn
  | cons pos signs ih => exact .still (addNode_still _ _) fun operand => ih operand

theorem primary_consumes : (primary nested).ConsumesAt room fun kind =>
    kind = .identifier ∨ kind = .qualifiedName := by
  unfold primary
  refine .orIdle dollarSigns_consumes (fun _ => dollarSigns_idle) fun signs => ?_
  cases signs with
  | nil =>
      change (plainPrimary nested >>= fun base => pure base).ConsumesAt room _
      exact .first ((plainPrimary_consumes inner).atKind fun _ here => here.1) fun _ => pure_movesOn
  | cons pos signs =>
      refine .elsewhere (.bind acceptIf_movesOn fun _ => ?_) (by simp)
      refine .join (fun _ => exprThrough_movesOn inner) (fun _ => ?_) fun base => ?_
      · exact (plainPrimary_consumes inner).movesOn
      · exact variables_movesOn (pos :: signs) base

theorem propertyAccess_consumes (pos : Nat) (object : NodeId) :
    (propertyAccess nested pos object).ConsumesAt room (· ≠ .endOfFile) := by
  refine .still (at?_still _) fun nullsafe => .advance (fun ended => ended rfl) ?_
  exact .bind (memberName_movesOn inner) fun name => (addNode_still _ _).movesOn

theorem classVariable_movesOn : (classVariable nested).MovesOn room := by
  unfold classVariable
  refine .still position_still fun pos => .bind variableNode_movesOn fun start => ?_
  refine untilDone_movesOn fun object => ?_
  have access (here : TokenKind) (inside : here ≠ .endOfFile) :
      (propertyAccess nested pos object).ConsumesAt room fun kind => True ∧ kind = here :=
    (propertyAccess_consumes inner pos object).atKind fun _ kind => kind.2 ▸ inside
  refine .ahead? (L := (· = .colonColon)) ?_ ?_ (.kind fun kind => ?_)
  · intro cursor static
    simp only [isStaticProperty, Bool.and_eq_true, beq_iff_eq] at static
    exact static.1
  · refine .advance (by simp) (.still value_still fun _ => .bind advance_movesOn fun _ => ?_)
    exact .still (addNode_still _ _) fun _ => pure_movesOn
  · split
    · exact .first (access _ nofun) fun _ => pure_movesOn
    · exact .first (access _ nofun) fun _ => pure_movesOn
    · refine .advance (by simp) (.bind (exprThrough_movesOn inner) fun _ => ?_)
      exact .still (addNode_still _ _) fun _ => pure_movesOn
    · exact .last

theorem optionalArguments_movesOn : (optionalArguments nested).MovesOn room := by
  unfold optionalArguments
  refine .still (at?_still _) fun _ => .ite (fun _ => ?_) fun _ => pure_movesOn
  exact .bind (arguments_movesOn inner) fun _ => pure_movesOn

theorem objectClass_movesOn : (objectClass nested).MovesOn room := by
  unfold objectClass
  refine .still kind_still fun kind => ?_
  split
  · exact .bind advance_movesOn fun _ => exprThrough_movesOn inner
  · exact classVariable_movesOn inner
  · exact classReference_movesOn inner

theorem newExpression_movesOn : (newExpression nested).MovesOn room := by
  unfold newExpression
  refine .still position_still fun pos => .bind advance_movesOn fun _ => ?_
  refine .still kind_still fun kind => ?_
  split
  · refine .still position_still fun classPos => .bind advance_movesOn fun _ => ?_
    refine .bind (optionalArguments_movesOn inner) fun list => ?_
    refine .bind (classTail_movesOn (inner 0) _ _ _ _) fun decl => ?_
    exact .still (addNode_still _ _) fun _ => (addNode_still _ _).movesOn
  · refine .bind (objectClass_movesOn inner) fun owner => ?_
    exact .bind (optionalArguments_movesOn inner) fun list => (addNode_still _ _).movesOn

omit inner in
theorem capturedVariables_movesOn : capturedVariables.MovesOn room := by
  unfold capturedVariables
  refine .bind expect_movesOn fun _ => .bind (untilDone_movesOn fun _ => .kind fun kind =>
    ?_) fun _ => ?_
  · split
    · exact .last
    · exact .last
    · refine .bind accept_movesOn fun _ => .bind expect_movesOn fun _ => ?_
      exact .accept nofun pure_movesOn .last
  · exact .bind expect_movesOn fun _ => pure_movesOn

theorem closureBody_movesOn (isArrow : Bool) : (closureBody nested isArrow).MovesOn room := by
  unfold closureBody
  refine .ite (fun _ => ?_) fun _ => .still (at?_still _) fun _ => .ite (fun _ => ?_) fun _ => ?_
  · exact .bind expect_movesOn fun _ => .bind (inner _) fun _ => pure_movesOn
  · exact .bind (functionBody_movesOn (inner 0)) fun _ => pure_movesOn
  · exact .bind expect_movesOn fun _ => pure_movesOn

theorem closure_movesOn : (closure nested).MovesOn room := by
  unfold closure
  refine .still position_still fun pos => .bind accept_movesOn fun isStatic => ?_
  refine .still (at?_still _) fun isArrow => .bind advance_movesOn fun _ => ?_
  refine .bind accept_movesOn fun _ => .bind (parameterList_movesOn (inner 0)) fun parameters => ?_
  refine .bind acceptIf_movesOn fun captures => .when (fun _ => capturedVariables_movesOn) ?_
  refine .bind typeAfter_movesOn fun returnType => ?_
  exact .bind (closureBody_movesOn inner isArrow) fun _ => (addNode_still _ _).movesOn

theorem armConditions_movesOn : (armConditions nested).MovesOn room := by
  unfold armConditions
  refine .bind accept_movesOn fun _ => .ite (fun _ => pure_movesOn) fun _ => ?_
  refine untilDone_movesOn fun conditions => .bind (inner 0) fun _ => ?_
  exact .accept nofun (.still (at?_still _) fun _ => pure_movesOn) .last

theorem matchExpression_movesOn : (matchExpression nested).MovesOn room := by
  unfold matchExpression
  refine .still position_still fun pos => .bind advance_movesOn fun _ => ?_
  refine .bind expect_movesOn fun _ => .bind (exprThrough_movesOn inner) fun subject => ?_
  refine .bind expect_movesOn fun _ => .bind (untilDone_movesOn fun arms => .kind fun kind =>
    ?_) fun _ => ?_
  · split
    · exact .last
    · exact .last
    · refine .still position_still fun armPos => .bind (armConditions_movesOn inner) fun _ => ?_
      refine .bind expect_movesOn fun _ => .bind (inner 0) fun body => ?_
      exact .still (addNode_still _ _) fun arm => .accept nofun pure_movesOn .last
  · exact .bind expect_movesOn fun _ => (addNode_still _ _).movesOn

theorem yieldExpression_movesOn : (yieldExpression nested).MovesOn room := by
  unfold yieldExpression
  refine .still position_still fun pos => .bind advance_movesOn fun _ => ?_
  refine .still (at?_still _) fun _ => .still value_still fun _ => .ite (fun _ => ?_) fun _ => ?_
  · exact .bind advance_movesOn fun _ => .bind (inner _) fun _ => (addNode_still _ _).movesOn
  · refine .still kind_still fun _ => .ite (fun _ => (addNode_still _ _).movesOn) fun _ => ?_
    refine .bind (inner _) fun _ => .bind accept_movesOn fun _ => .ite (fun _ => ?_) fun _ => ?_
    · exact .bind (inner _) fun _ => (addNode_still _ _).movesOn
    · exact (addNode_still _ _).movesOn

theorem assignmentTail_movesOn (target : NodeId) (pos : Nat) :
    (assignmentTail nested target pos).MovesOn room := by
  unfold assignmentTail
  refine .still kind_still fun op => .still get_still fun _ => .ite (fun _ => ?_) fun _ =>
    pure_movesOn
  refine .bind advance_movesOn fun _ => .bind acceptIf_movesOn fun _ => ?_
  exact .bind (inner _) fun _ => (addNode_still _ _).movesOn

theorem keywordOperand_movesOn (precedence : Nat) :
    (keywordOperand nested precedence).MovesOn room :=
  .still position_still fun _ => .still kind_still fun _ => .bind advance_movesOn fun _ =>
    .bind (inner _) fun _ => (addNode_still _ _).movesOn

theorem unaryOperand_movesOn (precedence : Nat) :
    (unaryOperand nested precedence).MovesOn room :=
  .still position_still fun _ => .still kind_still fun _ => .bind advance_movesOn fun _ =>
    .bind (inner _) fun _ => (addNode_still _ _).movesOn

theorem exitExpression_movesOn : (exitExpression nested).MovesOn room := by
  unfold exitExpression
  refine .still position_still fun pos => .still kind_still fun _ =>
    .bind advance_movesOn fun _ => ?_
  refine .bind accept_movesOn fun _ => ?_
  refine .join (fun _ => optionalThrough_movesOn inner) (fun _ => pure_movesOn) fun _ => ?_
  exact (addNode_still _ _).movesOn

theorem operand_consumes : (operand nested).ConsumesAt room fun kind =>
    kind = .identifier ∨ kind = .qualifiedName :=
  .still position_still fun pos => .first (primary_consumes inner) fun start =>
    .bind (suffixes_movesOn inner start pos) fun whole => assignmentTail_movesOn inner whole pos

theorem castExpression_movesOn : (castExpression nested).MovesOn room :=
  .still position_still fun _ => .still value_still fun _ => .bind advance_movesOn fun _ =>
    .bind (inner _) fun _ => (addNode_still _ _).movesOn

theorem plainExpression_consumes : (plainExpression nested).ConsumesAt room fun kind =>
    kind = .identifier ∨ kind = .qualifiedName := by
  unfold plainExpression
  refine .still position_still fun pos => .kind fun kind => ?_
  split
  · exact .elsewhere (castExpression_movesOn inner) (by simp)
  · exact .elsewhere (yieldExpression_movesOn inner) (by simp)
  · exact .elsewhere (exitExpression_movesOn inner) (by simp)
  · refine .elsewhere (.bind (newExpression_movesOn inner) fun object => ?_) (by simp)
    exact .bind (suffixes_movesOn inner object pos) fun whole =>
      assignmentTail_movesOn inner whole pos
  · exact .elsewhere (closure_movesOn inner) (by simp)
  · exact .elsewhere (closure_movesOn inner) (by simp)
  · refine .elsewhere (.bind (matchExpression_movesOn inner) fun result => ?_) (by simp)
    exact suffixes_movesOn inner result pos
  · refine .ahead? (L := (· = .staticKw)) ?_ ?_ ?_
    · intro cursor static
      simp only [isStaticClosure, Bool.and_eq_true, beq_iff_eq] at static
      exact static.1
    · exact .elsewhere (closure_movesOn inner) (by grind)
    · exact (operand_consumes inner).atKind fun _ here => here.1

theorem bareExpression_consumes : (bareExpression nested).ConsumesAt room fun kind =>
    kind = .identifier ∨ kind = .qualifiedName := by
  unfold bareExpression
  refine .kind fun kind => ?_
  split
  · refine .elsewhere (unaryOperand_movesOn inner _) ?_
    rintro here ⟨rfl | rfl, rfl⟩ <;> contradiction
  split
  · refine .elsewhere (keywordOperand_movesOn inner _) ?_
    rintro here ⟨rfl | rfl, rfl⟩ <;> contradiction
  · exact (plainExpression_consumes inner).atKind fun _ here => here.1

theorem unaryExpression_consumes : (unaryExpression nested).ConsumesAt room fun kind =>
    kind = .identifier ∨ kind = .qualifiedName := by
  unfold unaryExpression
  refine .at? ?_ ((bareExpression_consumes inner).atKind fun _ here => here.1)
  refine .first (skipAttributes_consumes.atKind fun _ here => here.2) fun _ => ?_
  exact (bareExpression_consumes inner).movesOn

theorem ternaryTail_movesOn (condition : NodeId) (pos : Nat) :
    (ternaryTail nested condition pos).MovesOn room := by
  unfold ternaryTail
  refine .still (at?_still _) fun _ => ?_
  refine .join (fun _ => pure_movesOn) (fun _ => .map (inner 0)) fun _ => ?_
  exact .bind expect_movesOn fun _ => .bind (inner _) fun _ => (addNode_still _ _).movesOn

theorem rightOperand_movesOn (op : TokenKind) (precedence : Nat)
    (associativity : Associativity) :
    (rightOperand nested op precedence associativity).MovesOn room := by
  cases associativity with
  | right => exact inner _
  | left => exact .ite (fun _ => classReference_movesOn inner) fun _ => inner _

theorem binaryStep_steps (minPrecedence pos : Nat) :
    Steps room (binaryStep nested minPrecedence pos) := by
  intro left
  refine .kind fun op => .ite (fun ternary => ?_) fun _ => ?_
  · refine .ite (fun _ => .last) fun _ => .advance ?_ ?_
    · rintro ⟨_, rfl⟩
      cases ternary
    · exact .bind (ternaryTail_movesOn inner _ _) fun _ => pure_movesOn
  · split
    · exact .last
    · rename_i precedence associativity binds
      refine .ite (fun _ => .last) fun _ => .advance ?_ ?_
      · rintro ⟨_, rfl⟩
        cases binds
      · refine .bind (rightOperand_movesOn inner _ _ _) fun _ => ?_
        exact .still (addNode_still _ _) fun _ => pure_movesOn

theorem binaryTail_movesOn (minPrecedence pos : Nat) (start : NodeId) :
    (binaryTail nested minPrecedence pos start).MovesOn room :=
  untilDone_movesOn (binaryStep_steps inner minPrecedence pos)

theorem climb_consumes (minPrecedence : Nat) :
    (climb nested minPrecedence).ConsumesAt room fun kind =>
      kind = .identifier ∨ kind = .qualifiedName :=
  .still position_still fun pos => .first (unaryExpression_consumes inner) fun left =>
    binaryTail_movesOn inner minPrecedence pos left

end Nested

/-! The depth that is accepted ends before the room for nested expressions does. -/

theorem expressionWithin_of_depth_lt {s : ParseState} (shallow : s.depth < maxDepth)
    (room precedence : Nat) :
    expressionWithin (room + 1) precedence s =
      (climb (expressionWithin room) precedence >>= fun whole => closeExpression >>= fun _ =>
        pure whole) { s with depth := s.depth + 1 } := by
  have opened : openExpression s = (true, { s with depth := s.depth + 1 }) := by
    change (if s.depth < maxDepth then _ else _ : Parse Bool) s = _
    rw [if_pos shallow]
    rfl
  rw [expressionWithin, bind_of opened]
  rfl

theorem expressionWithin_of_depth_ge {s : ParseState} (deep : ¬ s.depth < maxDepth)
    (room precedence : Nat) :
    expressionWithin (room + 1) precedence s =
      (report "Maximum nesting depth exceeded" >>= fun _ => passExpression) s := by
  have refused : openExpression s =
      (false, (report "Maximum nesting depth exceeded").next s) := by
    change (if s.depth < maxDepth then _ else _ : Parse Bool) s = _
    rw [if_neg deep]
    rfl
  rw [expressionWithin, bind_of refused]
  rfl

theorem passExpression_consumes {room : Nat} :
    passExpression.ConsumesAt room (· ≠ .endOfFile) := by
  unfold passExpression
  refine .still missingNode_still fun missing => .at? ?_ ?_
  · exact .pure fun _ _ here => absurd here.2 here.1
  · exact .advance (fun here => here.1 rfl) pure_movesOn

/-- The last of all the expressions that fit finds the depth used up. -/
theorem expressionWithin_consumes (room precedence : Nat) :
    (expressionWithin room precedence).ConsumesAt room fun kind =>
      kind = .identifier ∨ kind = .qualifiedName := by
  induction room generalizing precedence with
  | zero =>
      intro s ready
      exact absurd ready.deep (Nat.not_lt.mpr ready.bounded)
  | succ room ih =>
      intro s ready
      by_cases shallow : s.depth < maxDepth
      · have opened : ParseState.Ready room { s with depth := s.depth + 1 } :=
          ⟨ready.closed, shallow, by have := ready.deep; change _ < s.depth + 1 + room; omega⟩
        obtain ⟨onward, consumed⟩ :=
          climb_consumes (fun precedence => (ih precedence).movesOn) precedence _ opened
        simp only [next, expressionWithin_of_depth_lt shallow]
        refine ⟨⟨onward.closed, onward.left, ?_, onward.stalled⟩, consumed⟩
        exact congrArg (· - 1) onward.depth
      · have passed : (report "Maximum nesting depth exceeded" >>= fun _ =>
            passExpression).ConsumesAt (room + 1) (· ≠ .endOfFile) :=
          .still (report_still _) fun _ => passExpression_consumes
        simp only [next, expressionWithin_of_depth_ge shallow]
        refine ⟨(passed s ready).1, fun named => (passed s ready).2 ?_⟩
        rintro ended
        rw [ended] at named
        simp at named

theorem expression_consumes : expression.ConsumesAt (maxDepth + 1) fun kind =>
    kind = .identifier ∨ kind = .qualifiedName :=
  expressionWithin_consumes (maxDepth + 1) 0

end StaticReflection.Grammar
