import StaticReflection.Proofs.Parser.CommonDeclarations

namespace StaticReflection.Grammar

open Parse

variable {fork : Fork} {room : Nat} {halts : Prop}

/-! Expressions are parsed alike as long as the word that ends the code is not consumed. -/

theorem variableNode_agrees : variableNode.Agrees fork room halts :=
  .look position_looks fun _ => .look value_looks fun _ => .bind advance_agrees fun _ =>
    addNode_agrees

theorem missingExpression_agrees : missingExpression.Agrees fork room halts := by
  unfold missingExpression
  refine .bind reportExpected_agrees fun _ => .bind missingNode_agrees fun missing => ?_
  exact .look kind_looks fun kind => .when advance_agrees .pure

theorem missingExpression_spends : missingExpression.Spends room := by
  unfold missingExpression
  refine .still (reportExpected_still _) fun _ => .still missingNode_still fun missing => ?_
  intro s ready halts quiet
  have next : (Parse.kind >>= fun kind => if (!closesExpression kind) = true then
      advance >>= fun _ => pure missing else pure missing).next s = advance.next s := by
    rw [next_bind, result_kind, Cursor.kind, halts.1]
    rfl
  exact next ▸ advance_spends s ready halts quiet

theorem literal_agrees {node : Token → Node} : (literal node).Agrees fork room halts :=
  .look current_looks fun _ => .bind advance_agrees fun _ => addNode_agrees

theorem dollarSigns_agrees : dollarSigns.Agrees fork room halts :=
  untilDone_agrees fun _ => .look position_looks fun _ => .accept fun _ =>
    .ite (fun _ => .pure) fun _ => .pure

theorem variables_agrees (signs : List Nat) (base : NodeId) :
    (signs.foldlM (fun operand pos => addNode (.unary .dollar operand) pos) base).Agrees
      fork room halts := by
  induction signs generalizing base with
  | nil => exact .pure
  | cons pos signs ih => exact .bind addNode_agrees ih

theorem capturedVariables_agrees : capturedVariables.Agrees fork room halts := by
  unfold capturedVariables
  refine .bind expect_agrees fun _ => .bind (untilDone_agrees fun _ => ?_) fun _ => ?_
  · refine .look kind_looks fun kind => ?_
    split
    · exact .pure
    · exact .pure
    · exact .accept fun _ => .bind expect_agrees fun _ => .accept fun _ => .pure
  · exact .bind expect_agrees fun _ => .pure

/-- Nested expressions are parsed alike, and consume the word that ends the code. -/
structure Nested.Agrees (fork : Fork) (room : Nat) (halts : Prop) (nested : Nested) : Prop where
  same : ∀ precedence, (nested precedence).Agrees fork room halts
  spends : ∀ precedence, (nested precedence).Spends room

section Nested

variable {nested : Nested} (inner : nested.Agrees fork room halts)
include inner

theorem exprThrough_agrees {close : TokenKind} :
    (exprThrough nested close).Agrees fork room halts :=
  .bind (inner.same 0) fun _ => .bind expect_agrees fun _ => .pure

theorem optionalThrough_agrees {close : TokenKind} :
    (optionalThrough nested close).Agrees fork room halts := by
  unfold optionalThrough
  refine .look (at?_looks _) fun _ => .join .pure (.map (inner.same 0)) fun _ => ?_
  exact .bind expect_agrees fun _ => .pure

theorem classReference_agrees : (classReference nested).Agrees fork room halts := by
  unfold classReference
  refine .look (ahead?_looks fun _ _ => rfl) fun _ => .ite (fun _ => ?_) fun _ => inner.same _
  refine .look position_looks fun _ => .look value_looks fun _ => ?_
  exact .bind advance_agrees fun _ => addNode_agrees

theorem argument_agrees : (argument nested).Agrees fork room halts := by
  unfold argument
  have added {node : Node} {pos : Nat} : (addNode node pos).Agrees fork room halts :=
    addNode_agrees
  have given (pos : Nat) (spread : Bool) (name : Option String) : (do
      let value ← anyExpr nested
      addNode (.argument name value spread) pos).Agrees fork room halts :=
    .bind (inner.same 0) fun _ => added
  have named (pos : Nat) (spread : Bool) (name : String) : (do
      advance
      let name ← pure (some name)
      let value ← anyExpr nested
      addNode (.argument name value spread) pos).Agrees fork room halts :=
    .bind advance_agrees fun _ => .bind .pure (given pos spread)
  refine .look position_looks fun pos => .accept fun spread => ?_
  refine .aheadSpent ⟨fun token next => token.kind.isWord && next == .colon, fun _ => rfl⟩
    (fun label => ?_) fun label => ?_
  · refine .ite (fun _ => .still value_still fun name => ?_) fun _ => ?_
    · exact .first advance_spends fun _ => named pos spread name
    · exact .still (pure_still _) fun _ => .first (inner.spends 0) fun _ => added
  · refine .ite (fun _ => .look value_looks fun name => ?_) fun _ => .bind .pure (given pos spread)
    exact .bind advance_agrees fun _ => named pos spread name

theorem arguments_agrees : (arguments nested).Agrees fork room halts := by
  unfold arguments
  refine .bind expect_agrees fun _ => .ite (fun _ => .pure) fun _ => ?_
  refine .aheadOther ⟨fun token next => token.kind == .dotDotDot && next == .closeParen,
    fun _ => rfl⟩ (fun cursor halts => ?_) fun _ => ?_
  · rw [isCallableMark, Cursor.kind, halts.1]
    rfl
  refine .ite (fun _ => .bind advance_agrees fun _ => .bind advance_agrees fun _ =>
    .pure) fun _ => ?_
  refine .bind (untilDone_agrees fun list => .look kind_looks fun kind => ?_) fun _ => ?_
  · split
    · exact .pure
    · exact .pure
    · exact .bind (argument_agrees inner) fun _ => .accept fun _ => .pure
  · exact .bind expect_agrees fun _ => .pure

theorem call_agrees (callee : NodeId) (pos : Nat) :
    (call nested callee pos).Agrees fork room halts :=
  .bind (arguments_agrees inner) fun _ => addNode_agrees

theorem memberName_agrees : (memberName nested).Agrees fork room halts := by
  unfold memberName
  refine .look position_looks fun pos => .look kind_looks fun kind => ?_
  split
  · exact variableNode_agrees
  · exact .bind advance_agrees fun _ => exprThrough_agrees inner
  · refine .bind word?_agrees fun name => ?_
    cases name with
    | none => exact missingNode_agrees
    | some name => exact addNode_agrees

theorem staticMember_agrees (owner : NodeId) (pos : Nat) :
    (staticMember nested owner pos).Agrees fork room halts := by
  unfold staticMember
  refine .look kind_looks fun kind => ?_
  split
  · exact .look value_looks fun _ => .bind advance_agrees fun _ => addNode_agrees
  · exact .bind advance_agrees fun _ => addNode_agrees
  · refine .bind advance_agrees fun _ => .bind (exprThrough_agrees inner) fun _ => ?_
    exact .bind (arguments_agrees inner) fun _ => addNode_agrees
  · refine .look (ahead?_looks fun _ _ => rfl) fun _ => .ite (fun _ => ?_) fun _ => ?_
    · refine .look position_looks fun _ => .look value_looks fun _ => ?_
      refine .bind advance_agrees fun _ => .look (at?_looks _) fun _ => .ite (fun _ =>
        ?_) fun _ => ?_
      · exact .bind addNode_agrees fun _ => .bind (arguments_agrees inner) fun _ => addNode_agrees
      · exact addNode_agrees
    · exact .bind reportExpected_agrees fun _ => missingNode_agrees

theorem memberAccess_agrees (pos : Nat) (object : NodeId) :
    (memberAccess nested pos object).Agrees fork room halts := by
  unfold memberAccess
  refine .look (at?_looks _) fun _ => .bind advance_agrees fun _ => ?_
  refine .bind (memberName_agrees inner) fun _ => .look (at?_looks _) fun _ => ?_
  refine .ite (fun _ => ?_) fun _ => addNode_agrees
  exact .bind (arguments_agrees inner) fun _ => addNode_agrees

theorem suffix_agrees (pos : Nat) (object : NodeId) :
    (suffix nested pos object).Agrees fork room halts := by
  unfold suffix
  refine .look kind_looks fun kind => ?_
  split
  · refine .bind advance_agrees fun _ => .bind (optionalThrough_agrees inner) fun _ => ?_
    exact .bind addNode_agrees fun _ => .pure
  · exact .bind (memberAccess_agrees inner _ _) fun _ => .pure
  · exact .bind (memberAccess_agrees inner _ _) fun _ => .pure
  · exact .bind advance_agrees fun _ => .bind (staticMember_agrees inner _ _) fun _ => .pure
  · exact .bind (call_agrees inner _ _) fun _ => .pure
  · exact .look kind_looks fun _ => .bind advance_agrees fun _ => .bind addNode_agrees fun _ =>
      .pure
  · exact .look kind_looks fun _ => .bind advance_agrees fun _ => .bind addNode_agrees fun _ =>
      .pure
  · exact .pure

theorem suffixes_agrees (start : NodeId) (pos : Nat) :
    (suffixes nested start pos).Agrees fork room halts :=
  untilDone_agrees (suffix_agrees inner pos)

theorem arrayEntry_agrees : (arrayEntry nested).Agrees fork room halts := by
  unfold arrayEntry
  refine .accept fun _ => .ite (fun _ => .bind (inner.same 0) fun _ => .pure) fun _ => ?_
  refine .accept fun _ => .ite (fun _ => .bind (inner.same 0) fun _ => .pure) fun _ => ?_
  refine .bind (inner.same 0) fun _ => .accept fun _ => .ite (fun _ => ?_) fun _ => .pure
  exact .accept fun _ => .bind (inner.same 0) fun _ => .pure

theorem arrayElement_agrees : (arrayElement nested).Agrees fork room halts :=
  .look position_looks fun _ => .bind (arrayEntry_agrees inner) fun _ => addNode_agrees

theorem arraySlot_agrees (close : TokenKind) (items : List (Option NodeId)) :
    (arraySlot nested close items).Agrees fork room halts := by
  unfold arraySlot
  refine .look kind_looks fun kind => .ite (fun _ => .pure) fun _ => ?_
  refine .accept fun _ => .ite (fun _ => .pure) fun _ => ?_
  exact .bind (arrayElement_agrees inner) fun _ => .accept fun _ => .pure

theorem arrayElements_agrees (pos : Nat) (close : TokenKind) (bracketed : Bool) :
    (arrayElements nested pos close bracketed).Agrees fork room halts :=
  .bind (untilDone_agrees (arraySlot_agrees inner close)) fun _ =>
    .bind expect_agrees fun _ => addNode_agrees

theorem nameExpression_agrees : (nameExpression nested).Agrees fork room halts := by
  unfold nameExpression
  refine .look position_looks fun pos => .look value_looks fun name => ?_
  refine .bind advance_agrees fun _ => .look kind_looks fun kind => ?_
  split
  · exact .bind addNode_agrees fun _ => call_agrees inner _ _
  · exact addNode_agrees
  · exact addNode_agrees

theorem wordArray_agrees (pos : Nat) : (wordArray nested pos).Agrees fork room halts := by
  unfold wordArray
  have elements : (advance >>= fun _ =>
      arrayElements nested pos .closeParen false).Agrees fork room halts :=
    .bind advance_agrees fun _ => arrayElements_agrees inner _ _ _
  refine .aheadSpent ⟨fun _ next => next == .openParen, fun _ => rfl⟩ (fun _ => ?_) fun _ => ?_
  · exact .ite (fun _ => .first advance_spends fun _ => elements)
      fun _ => missingExpression_spends
  · exact .ite (fun _ => .bind advance_agrees fun _ => elements)
      fun _ => missingExpression_agrees

theorem wordCall_agrees (pos : Nat) : (wordCall nested pos).Agrees fork room halts :=
  .look value_looks fun _ => .bind advance_agrees fun _ =>
    .bind addNode_agrees fun _ => call_agrees inner _ _

theorem plainPrimary_agrees : (plainPrimary nested).Agrees fork room halts := by
  unfold plainPrimary
  refine .look position_looks fun pos => .look kind_looks fun current => ?_
  split
  · exact variableNode_agrees
  · exact literal_agrees
  · exact literal_agrees
  · exact literal_agrees
  · exact literal_agrees
  · exact .bind advance_agrees fun _ => arrayElements_agrees inner _ _ _
  · exact wordArray_agrees inner pos
  · exact wordArray_agrees inner pos
  · exact .bind advance_agrees fun _ => exprThrough_agrees inner
  · exact wordCall_agrees inner pos
  · exact wordCall_agrees inner pos
  · exact wordCall_agrees inner pos
  · exact nameExpression_agrees inner
  · exact nameExpression_agrees inner
  · exact nameExpression_agrees inner
  · exact nameExpression_agrees inner
  · exact nameExpression_agrees inner
  · refine .ite (fun _ => ?_) fun _ => missingExpression_agrees
    exact .bind advance_agrees fun _ => addNode_agrees

theorem primary_agrees : (primary nested).Agrees fork room halts := by
  unfold primary
  refine .bind dollarSigns_agrees fun signs => .bind acceptIf_agrees fun _ => ?_
  exact .join (exprThrough_agrees inner) (plainPrimary_agrees inner) (variables_agrees signs)

theorem propertyAccess_agrees (pos : Nat) (object : NodeId) :
    (propertyAccess nested pos object).Agrees fork room halts :=
  .look (at?_looks _) fun _ => .bind advance_agrees fun _ =>
    .bind (memberName_agrees inner) fun _ => addNode_agrees

theorem classVariable_agrees : (classVariable nested).Agrees fork room halts := by
  unfold classVariable
  refine .look position_looks fun pos => .bind variableNode_agrees fun start => ?_
  refine untilDone_agrees fun object => ?_
  refine .aheadOther ⟨fun token next => token.kind == .colonColon && next == .variableName,
    fun _ => rfl⟩ (fun cursor halts => ?_) fun _ => .ite (fun _ => ?_) fun _ => ?_
  · rw [isStaticProperty, Cursor.kind, halts.1]
    rfl
  · refine .bind advance_agrees fun _ => .look value_looks fun _ => ?_
    exact .bind advance_agrees fun _ => .bind addNode_agrees fun _ => .pure
  · refine .look kind_looks fun kind => ?_
    split
    · exact .bind (propertyAccess_agrees inner _ _) fun _ => .pure
    · exact .bind (propertyAccess_agrees inner _ _) fun _ => .pure
    · refine .bind advance_agrees fun _ => .bind (exprThrough_agrees inner) fun _ => ?_
      exact .bind addNode_agrees fun _ => .pure
    · exact .pure

theorem optionalArguments_agrees : (optionalArguments nested).Agrees fork room halts := by
  unfold optionalArguments
  refine .look (at?_looks _) fun _ => .ite (fun _ => ?_) fun _ => .pure
  exact .bind (arguments_agrees inner) fun _ => .pure

theorem objectClass_agrees : (objectClass nested).Agrees fork room halts := by
  unfold objectClass
  refine .look kind_looks fun kind => ?_
  split
  · exact .bind advance_agrees fun _ => exprThrough_agrees inner
  · exact classVariable_agrees inner
  · exact classReference_agrees inner

theorem newExpression_agrees : (newExpression nested).Agrees fork room halts := by
  unfold newExpression
  refine .look position_looks fun pos => .bind advance_agrees fun _ =>
    .look kind_looks fun kind => ?_
  split
  · refine .look position_looks fun classPos => .bind advance_agrees fun _ => ?_
    refine .bind (optionalArguments_agrees inner) fun list => ?_
    refine .bind (classTail_agrees (inner.same 0) _ _ _ _) fun decl => ?_
    exact .bind addNode_agrees fun _ => addNode_agrees
  · refine .bind (objectClass_agrees inner) fun owner => ?_
    exact .bind (optionalArguments_agrees inner) fun list => addNode_agrees

theorem closureBody_agrees (isArrow : Bool) :
    (closureBody nested isArrow).Agrees fork room halts := by
  unfold closureBody
  refine .ite (fun _ => ?_) fun _ => .look (at?_looks _) fun _ => .ite (fun _ => ?_) fun _ => ?_
  · exact .bind expect_agrees fun _ => .bind (inner.same _) fun _ => .pure
  · exact .bind (functionBody_agrees (inner.same 0)) fun _ => .pure
  · exact .bind expect_agrees fun _ => .pure

theorem closure_agrees : (closure nested).Agrees fork room halts := by
  unfold closure
  refine .look position_looks fun pos => .accept fun isStatic =>
    .look (at?_looks _) fun isArrow => ?_
  refine .bind advance_agrees fun _ => .accept fun _ => ?_
  refine .bind (parameterList_agrees (inner.same 0)) fun parameters => ?_
  refine .bind acceptIf_agrees fun captures => .when capturedVariables_agrees ?_
  refine .bind typeAfter_agrees fun returnType => ?_
  exact .bind (closureBody_agrees inner isArrow) fun _ => addNode_agrees

theorem armConditions_agrees : (armConditions nested).Agrees fork room halts := by
  unfold armConditions
  refine .accept fun _ => .ite (fun _ => .pure) fun _ => untilDone_agrees fun conditions => ?_
  refine .bind (inner.same 0) fun _ => .accept fun _ => .ite (fun _ => ?_) fun _ => .pure
  exact .look (at?_looks _) fun _ => .pure

theorem matchExpression_agrees : (matchExpression nested).Agrees fork room halts := by
  unfold matchExpression
  refine .look position_looks fun pos => .bind advance_agrees fun _ =>
    .bind expect_agrees fun _ => ?_
  refine .bind (exprThrough_agrees inner) fun subject => .bind expect_agrees fun _ => ?_
  refine .bind (untilDone_agrees fun arms => .look kind_looks fun kind => ?_) fun _ => ?_
  · split
    · exact .pure
    · exact .pure
    · refine .look position_looks fun armPos => .bind (armConditions_agrees inner) fun _ => ?_
      refine .bind expect_agrees fun _ => .bind (inner.same 0) fun body => ?_
      exact .bind addNode_agrees fun arm => .accept fun _ => .pure
  · exact .bind expect_agrees fun _ => addNode_agrees

theorem yieldExpression_agrees : (yieldExpression nested).Agrees fork room halts := by
  unfold yieldExpression
  refine .look position_looks fun pos => .bind advance_agrees fun _ => ?_
  refine .look (at?_looks _) fun _ => .look value_looks fun _ => .ite (fun _ => ?_) fun _ => ?_
  · exact .bind advance_agrees fun _ => .bind (inner.same _) fun _ => addNode_agrees
  refine .look kind_looks fun _ => .ite (fun _ => addNode_agrees) fun _ => ?_
  refine .bind (inner.same _) fun _ => .accept fun _ => .ite (fun _ => ?_) fun _ => addNode_agrees
  exact .bind (inner.same _) fun _ => addNode_agrees

theorem assignmentTail_agrees (target : NodeId) (pos : Nat) :
    (assignmentTail nested target pos).Agrees fork room halts := by
  unfold assignmentTail
  refine .look kind_looks fun op => .get (fun _ _ => rfl) fun s =>
    .ite (fun _ => ?_) fun _ => .pure
  refine .bind advance_agrees fun _ => .bind acceptIf_agrees fun _ => ?_
  exact .bind (inner.same _) fun _ => addNode_agrees

theorem keywordOperand_agrees (precedence : Nat) :
    (keywordOperand nested precedence).Agrees fork room halts :=
  .look position_looks fun _ => .look kind_looks fun _ => .bind advance_agrees fun _ =>
    .bind (inner.same _) fun _ => addNode_agrees

theorem unaryOperand_agrees (precedence : Nat) :
    (unaryOperand nested precedence).Agrees fork room halts :=
  .look position_looks fun _ => .look kind_looks fun _ => .bind advance_agrees fun _ =>
    .bind (inner.same _) fun _ => addNode_agrees

theorem castExpression_agrees : (castExpression nested).Agrees fork room halts :=
  .look position_looks fun _ => .look value_looks fun _ => .bind advance_agrees fun _ =>
    .bind (inner.same _) fun _ => addNode_agrees

theorem exitExpression_agrees : (exitExpression nested).Agrees fork room halts := by
  unfold exitExpression
  refine .look position_looks fun pos => .look kind_looks fun _ => .bind advance_agrees fun _ => ?_
  exact .accept fun _ => .join (optionalThrough_agrees inner) .pure fun _ => addNode_agrees

theorem operand_agrees : (operand nested).Agrees fork room halts :=
  .look position_looks fun pos => .bind (primary_agrees inner) fun start =>
    .bind (suffixes_agrees inner start pos) fun whole => assignmentTail_agrees inner whole pos

theorem plainExpression_agrees : (plainExpression nested).Agrees fork room halts := by
  unfold plainExpression
  refine .look position_looks fun pos => .look kind_looks fun kind => ?_
  split
  · exact castExpression_agrees inner
  · exact yieldExpression_agrees inner
  · exact exitExpression_agrees inner
  · refine .bind (newExpression_agrees inner) fun object => ?_
    exact .bind (suffixes_agrees inner object pos) fun whole =>
      assignmentTail_agrees inner whole pos
  · exact closure_agrees inner
  · exact closure_agrees inner
  · exact .bind (matchExpression_agrees inner) fun result => suffixes_agrees inner result pos
  · refine .aheadOther ⟨fun token next => token.kind == .staticKw &&
      (next == .functionKw || next == .fnKw), fun _ => rfl⟩ (fun cursor halts => ?_) fun _ => ?_
    · rw [isStaticClosure, Cursor.kind, halts.1]
      rfl
    · exact .ite (fun _ => closure_agrees inner) fun _ => operand_agrees inner

theorem bareExpression_agrees : (bareExpression nested).Agrees fork room halts := by
  unfold bareExpression
  refine .look kind_looks fun first => ?_
  split
  · exact unaryOperand_agrees inner _
  split
  · exact keywordOperand_agrees inner _
  · exact plainExpression_agrees inner

theorem unaryExpression_agrees : (unaryExpression nested).Agrees fork room halts :=
  .look (at?_looks _) fun _ => .when skipAttributes_agrees (bareExpression_agrees inner)

theorem ternaryTail_agrees (condition : NodeId) (pos : Nat) :
    (ternaryTail nested condition pos).Agrees fork room halts := by
  unfold ternaryTail
  refine .look (at?_looks _) fun _ => .join .pure (.map (inner.same 0)) fun _ => ?_
  exact .bind expect_agrees fun _ => .bind (inner.same _) fun _ => addNode_agrees

theorem rightOperand_agrees (op : TokenKind) (precedence : Nat) (associativity : Associativity) :
    (rightOperand nested op precedence associativity).Agrees fork room halts := by
  cases associativity with
  | right => exact inner.same _
  | left => exact .ite (fun _ => classReference_agrees inner) fun _ => inner.same _

theorem binaryStep_agrees (minPrecedence pos : Nat) (left : NodeId) :
    (binaryStep nested minPrecedence pos left).Agrees fork room halts := by
  unfold binaryStep
  refine .look kind_looks fun op => .ite (fun _ => .ite (fun _ => .pure) fun _ => ?_) fun _ => ?_
  · exact .bind advance_agrees fun _ => .bind (ternaryTail_agrees inner _ _) fun _ => .pure
  · split
    · exact .pure
    · refine .ite (fun _ => .pure) fun _ => .bind advance_agrees fun _ => ?_
      refine .bind (rightOperand_agrees inner _ _ _) fun _ => ?_
      exact .bind addNode_agrees fun _ => .pure

theorem climb_agrees (minPrecedence : Nat) :
    (climb nested minPrecedence).Agrees fork room halts :=
  .look position_looks fun pos => .bind (unaryExpression_agrees inner) fun _ =>
    untilDone_agrees (binaryStep_agrees inner minPrecedence pos)

end Nested

theorem passExpression_agrees : passExpression.Agrees fork room halts := by
  unfold passExpression
  refine .bind missingNode_agrees fun missing => .look (at?_looks _) fun _ => ?_
  exact .when advance_agrees .pure

/-- One expression deeper there is room for one less. -/
theorem paired_opened {s t : ParseState} (paired : s.Paired fork (room + 1) t)
    (shallow : s.depth < maxDepth) :
    ParseState.Paired fork room { s with depth := s.depth + 1 }
      { t with depth := t.depth + 1 } := by
  obtain ⟨⟨shared, ahead, rfl⟩, ready, within⟩ := paired
  have deep := ready.deep
  refine ⟨⟨shared, ahead, rfl⟩, ⟨ready.closed, shallow, ?_⟩, ?_⟩
  · change _ < s.depth + 1 + room
    omega
  · exact ⟨within.tokens, within.reported, within.scanned⟩

theorem paired_closed {s t : ParseState} (paired : s.Paired fork room t)
    (ready : ParseState.Ready (room + 1) { s with depth := s.depth - 1 }) :
    ParseState.Paired fork (room + 1) { s with depth := s.depth - 1 }
      { t with depth := t.depth - 1 } := by
  obtain ⟨⟨shared, ahead, rfl⟩, -, within⟩ := paired
  exact ⟨⟨shared, ahead, rfl⟩, ready, within.tokens, within.reported, within.scanned⟩

/-- An expression is the same as long as those inside it are. -/
theorem expressionWithin_succ_agrees {precedence : Nat}
    (inner : (climb (expressionWithin room) precedence).Agrees fork room halts) :
    (expressionWithin (room + 1) precedence).Agrees fork (room + 1) halts := by
  have passed : (report "Maximum nesting depth exceeded" >>= fun _ => passExpression).Agrees
      fork (room + 1) halts := .bind report_agrees fun _ => passExpression_agrees
  refine ⟨fun s => ?_, fun s => ?_, fun {s t} paired live => ?_⟩
  · by_cases shallow : s.depth < maxDepth
    · simp only [next, expressionWithin_of_depth_lt shallow]
      exact inner.suffix { s with depth := s.depth + 1 }
    · simp only [next, expressionWithin_of_depth_ge shallow]
      exact passed.suffix s
  · by_cases shallow : s.depth < maxDepth
    · simp only [next, expressionWithin_of_depth_lt shallow]
      exact inner.halted { s with depth := s.depth + 1 }
    · simp only [next, expressionWithin_of_depth_ge shallow]
      exact passed.halted s
  · have along : t.depth = s.depth := by
      obtain ⟨shared, -, rfl⟩ := paired.shared
      rfl
    have ready := (expressionWithin_consumes (room + 1) precedence s paired.ready).1.ready
      paired.ready
    by_cases shallow : s.depth < maxDepth
    · have opened : t.depth < maxDepth := along ▸ shallow
      simp only [next, result, expressionWithin_of_depth_lt shallow,
        expressionWithin_of_depth_lt opened] at live ready ⊢
      obtain ⟨same, after⟩ := inner.same (paired_opened paired shallow) live
      exact ⟨same, paired_closed after ready⟩
    · have refused : ¬ t.depth < maxDepth := along ▸ shallow
      simp only [next, result, expressionWithin_of_depth_ge shallow,
        expressionWithin_of_depth_ge refused] at live ⊢
      exact passed.same paired live

theorem expressionWithin_agrees (room : Nat) : (expressionWithin room).Agrees fork room halts := by
  -- An expression is parsed alike at each precedence; it consumes the word because it always
  -- consumes a name.
  have spends {room : Nat}
      (same : ∀ precedence, (expressionWithin room precedence).Agrees fork room halts) :
      (expressionWithin room).Agrees fork room halts :=
    ⟨same, fun precedence =>
      .of_consumes (expressionWithin_consumes room precedence) (.inl rfl) (same precedence)⟩
  induction room with
  | zero => exact spends fun _ => .bind stall_agrees fun _ => missingNode_agrees
  | succ room ih => exact spends fun _ => expressionWithin_succ_agrees (climb_agrees ih _)

theorem expression_agrees : expression.Agrees fork (maxDepth + 1) halts :=
  (expressionWithin_agrees (maxDepth + 1)).same 0

end StaticReflection.Grammar
