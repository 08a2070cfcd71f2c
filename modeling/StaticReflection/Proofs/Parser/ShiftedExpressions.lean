import StaticReflection.Proofs.Parser.ShiftedDeclarations

namespace StaticReflection.Grammar

open Parse

/-! Expressions are parsed in the same way wherever they stand. -/

variable {n : Nat}

theorem variableNode_echoes : Echoes n (· + n) variableNode variableNode :=
  .position fun _ _ => .same value_echoes fun _ => .same advance_echoes fun _ => addNode_echoes

theorem missingExpression_echoes : Echoes n (· + n) missingExpression missingExpression := by
  unfold missingExpression
  refine .same reportExpected_echoes fun _ => .bind missingNode_echoes fun missing => ?_
  exact .same kind_echoes fun kind => .when advance_echoes .pure

/-- A literal, of which the node holds no other nodes. -/
theorem literal_echoes {node : Token → Node}
    (same : ∀ token span doc problems, node { token with span, doc, problems } =
      (node token).map (· + n)) :
    Echoes n (· + n) (literal node) (literal node) := by
  refine .current fun token span doc problems => .same advance_echoes fun _ => ?_
  rw [same token span doc problems]
  exact addNode_echoes

theorem numberNode_map (digits : String) : (numberNode digits).map (· + n) = numberNode digits := by
  unfold numberNode
  split <;> rfl

/-- As many signs are passed, at other places. -/
theorem dollarSigns_echo (s t : ParseState) (echo : s.Echo n t) :
    (dollarSigns.result s).length = (dollarSigns.result t).length ∧
      (dollarSigns.next s).Echo n (dollarSigns.next t) := by
  refine untilDone_related_echo
    (R := fun (signs others : List Nat) => signs.length = others.length)
    (fun signs others same s t echo => ?_) rfl echo
  have accepts : EchoesAlike n (accept .dollar) (accept .dollar) := accept_echoes
  obtain ⟨found, after⟩ := accepts s t echo
  simp only [result_bind, result_position, next_bind, next_position, found, id]
  cases (accept .dollar).result s with
  | true => exact ⟨congrArg (· + 1) same, rfl, after⟩
  | false => exact ⟨same, rfl, after⟩

theorem variables_echoes {signs others : List Nat} (same : signs.length = others.length)
    (base : NodeId) : Echoes n (· + n)
      (signs.foldlM (fun operand pos => addNode (.unary .dollar operand) pos) base)
      (others.foldlM (fun operand pos => addNode (.unary .dollar operand) pos) (base + n)) := by
  induction signs generalizing others base with
  | nil =>
      obtain rfl := List.length_eq_zero_iff.mp same.symm
      exact .pure
  | cons pos signs ih =>
      obtain ⟨otherPos, others, rfl⟩ := List.exists_cons_of_length_eq_add_one same.symm
      exact .bind addNode_echoes fun operand => ih (Nat.succ.inj same) operand

theorem capturedVariables_echoes : EchoesAlike n capturedVariables capturedVariables := by
  unfold capturedVariables
  refine .same expect_echoes fun _ => .same (untilDone_echoes id fun _ => ?_) fun _ => ?_
  · refine .same kind_echoes fun kind => ?_
    split
    · exact .pure
    · exact .pure
    · refine .same accept_echoes fun _ => .same expect_echoes fun _ => ?_
      exact .same accept_echoes fun _ => .pure
  · exact .same expect_echoes fun _ => .pure

theorem isAssignable_map (f : NodeId → NodeId) (node : Node) :
    (node.map f).isAssignable = node.isAssignable := by
  cases node with
  | unary op operand => cases op <;> rfl
  | _ => rfl

section Nested

variable {nested : Nested}
  (inner : ∀ precedence, Echoes n (· + n) (nested precedence) (nested precedence))
include inner

theorem exprThrough_echoes {close : TokenKind} :
    Echoes n (· + n) (exprThrough nested close) (exprThrough nested close) :=
  .bind (inner 0) fun _ => .same expect_echoes fun _ => .pure

theorem optionalThrough_echoes {close : TokenKind} :
    Echoes n (Option.map (· + n)) (optionalThrough nested close)
      (optionalThrough nested close) := by
  unfold optionalThrough
  refine .same at?_echoes fun _ => .join .none (.some (inner 0)) fun _ => ?_
  exact .same expect_echoes fun _ => .pure

theorem classReference_echoes :
    Echoes n (· + n) (classReference nested) (classReference nested) := by
  unfold classReference
  refine .same (ahead?_echoes fun _ => rfl) fun _ => .ite (fun _ => ?_) fun _ => inner _
  refine .position fun _ _ => .same value_echoes fun _ => ?_
  exact .same advance_echoes fun _ => addNode_echoes

theorem argument_echoes : Echoes n (· + n) (argument nested) (argument nested) := by
  unfold argument
  have given (pos otherPos : Nat) (spread : Bool) (name : Option String) : Echoes n (· + n)
      (anyExpr nested >>= fun value => addNode (.argument name value spread) pos)
      (anyExpr nested >>= fun value => addNode (.argument name value spread) otherPos) :=
    .bind (inner 0) fun _ => addNode_echoes
  refine .position fun pos otherPos => .same accept_echoes fun spread => ?_
  refine .same (ahead?_echoes fun cursor => by simp [isNamedArgument]) fun label => ?_
  refine .ite (fun _ => ?_) fun _ => .same .pure (given pos otherPos spread)
  refine .same value_echoes fun name => .same advance_echoes fun _ => ?_
  exact .same advance_echoes fun _ => .same .pure (given pos otherPos spread)

theorem arguments_echoes :
    Echoes n (Prod.map (List.map (· + n)) id) (arguments nested) (arguments nested) := by
  unfold arguments
  refine .same expect_echoes fun _ => .ite (fun _ => .pure) fun _ => ?_
  refine .same (ahead?_echoes fun cursor => by simp [isCallableMark]) fun _ => ?_
  refine .ite (fun _ => .same advance_echoes fun _ => .same advance_echoes fun _ => .pure)
    fun _ => ?_
  refine .bind (untilDone_echoes (List.map (· + n)) fun list => ?_) fun list => ?_
  · refine .same kind_echoes fun kind => ?_
    split
    · exact .pure
    · exact .pure
    · exact .bind (argument_echoes inner) fun _ => .same accept_echoes fun _ => .pureOf (by simp)
  · exact .same expect_echoes fun _ => .pure

theorem call_echoes (callee : NodeId) (pos otherPos : Nat) :
    Echoes n (· + n) (call nested callee pos) (call nested (callee + n) otherPos) :=
  .bind (arguments_echoes inner) fun _ => addNode_echoes

theorem memberName_echoes : Echoes n (· + n) (memberName nested) (memberName nested) := by
  unfold memberName
  refine .position fun pos otherPos => .same kind_echoes fun kind => ?_
  split
  · exact variableNode_echoes
  · exact .same advance_echoes fun _ => exprThrough_echoes inner
  · refine .same word?_echoes fun name => ?_
    cases name with
    | none => exact missingNode_echoes
    | some name => exact addNode_echoes

theorem staticMember_echoes (owner : NodeId) (pos otherPos : Nat) :
    Echoes n (· + n) (staticMember nested owner pos)
      (staticMember nested (owner + n) otherPos) := by
  unfold staticMember
  refine .same kind_echoes fun kind => ?_
  split
  · exact .same value_echoes fun _ => .same advance_echoes fun _ => addNode_echoes
  · exact .same advance_echoes fun _ => addNode_echoes
  · refine .same advance_echoes fun _ => .bind (exprThrough_echoes inner) fun _ => ?_
    exact .bind (arguments_echoes inner) fun _ => addNode_echoes
  · refine .same (ahead?_echoes fun _ => rfl) fun _ => .ite (fun _ => ?_) fun _ => ?_
    · refine .position fun _ _ => .same value_echoes fun _ => .same advance_echoes fun _ => ?_
      refine .same at?_echoes fun _ => .ite (fun _ => ?_) fun _ => ?_
      · exact .bind addNode_echoes fun _ => .bind (arguments_echoes inner) fun _ => addNode_echoes
      · exact addNode_echoes
    · exact .same reportExpected_echoes fun _ => missingNode_echoes

theorem memberAccess_echoes (pos otherPos : Nat) (object : NodeId) :
    Echoes n (· + n) (memberAccess nested pos object)
      (memberAccess nested otherPos (object + n)) := by
  unfold memberAccess
  refine .same at?_echoes fun _ => .same advance_echoes fun _ => ?_
  refine .bind (memberName_echoes inner) fun _ => .same at?_echoes fun _ => ?_
  refine .ite (fun _ => ?_) fun _ => addNode_echoes
  exact .bind (arguments_echoes inner) fun _ => addNode_echoes

theorem suffix_echoes (pos otherPos : Nat) (object : NodeId) :
    Echoes n (Prod.map (· + n) id) (suffix nested pos object)
      (suffix nested otherPos (object + n)) := by
  unfold suffix
  refine .same kind_echoes fun kind => ?_
  split
  · refine .same advance_echoes fun _ => .bind (optionalThrough_echoes inner) fun _ => ?_
    exact .bind addNode_echoes fun _ => .pure
  · exact .bind (memberAccess_echoes inner _ _ _) fun _ => .pure
  · exact .bind (memberAccess_echoes inner _ _ _) fun _ => .pure
  · exact .same advance_echoes fun _ => .bind (staticMember_echoes inner _ _ _) fun _ => .pure
  · exact .bind (call_echoes inner _ _ _) fun _ => .pure
  · exact .same kind_echoes fun _ => .same advance_echoes fun _ =>
      .bind addNode_echoes fun _ => .pure
  · exact .same kind_echoes fun _ => .same advance_echoes fun _ =>
      .bind addNode_echoes fun _ => .pure
  · exact .pure

theorem suffixes_echoes (start : NodeId) (pos otherPos : Nat) :
    Echoes n (· + n) (suffixes nested start pos) (suffixes nested (start + n) otherPos) :=
  untilDone_echoes (· + n) (suffix_echoes inner pos otherPos)

theorem arrayEntry_echoes :
    Echoes n (ArrayElement.map (· + n)) (arrayEntry nested) (arrayEntry nested) := by
  unfold arrayEntry
  refine .same accept_echoes fun _ => .ite (fun _ => .bind (inner 0) fun _ => .pure) fun _ => ?_
  refine .same accept_echoes fun _ => .ite (fun _ => .bind (inner 0) fun _ => .pure) fun _ => ?_
  refine .bind (inner 0) fun _ => .same accept_echoes fun _ => .ite (fun _ => ?_) fun _ => .pure
  exact .same accept_echoes fun _ => .bind (inner 0) fun _ => .pure

theorem arrayElement_echoes : Echoes n (· + n) (arrayElement nested) (arrayElement nested) :=
  .position fun _ _ => .bind (arrayEntry_echoes inner) fun _ => addNode_echoes

theorem arraySlot_echoes (close : TokenKind) (items : List (Option NodeId)) :
    Echoes n (Prod.map (List.map (Option.map (· + n))) id) (arraySlot nested close items)
      (arraySlot nested close (items.map (Option.map (· + n)))) := by
  unfold arraySlot
  refine .same kind_echoes fun kind => .ite (fun _ => .pure) fun _ => ?_
  refine .same accept_echoes fun _ => .ite (fun _ => .pureOf (by simp)) fun _ => ?_
  exact .bind (arrayElement_echoes inner) fun _ => .same accept_echoes fun _ => .pureOf (by simp)

theorem arrayElements_echoes (pos otherPos : Nat) (close : TokenKind) (bracketed : Bool) :
    Echoes n (· + n) (arrayElements nested pos close bracketed)
      (arrayElements nested otherPos close bracketed) :=
  .bind (untilDone_echoes (List.map (Option.map (· + n))) (arraySlot_echoes inner close)) fun _ =>
    .same expect_echoes fun _ => addNode_echoes

theorem nameExpression_echoes :
    Echoes n (· + n) (nameExpression nested) (nameExpression nested) := by
  unfold nameExpression
  refine .position fun pos otherPos => .same value_echoes fun name => ?_
  refine .same advance_echoes fun _ => .same kind_echoes fun kind => ?_
  split
  · exact .bind addNode_echoes fun _ => call_echoes inner _ _ _
  · exact addNode_echoes
  · exact addNode_echoes

theorem wordArray_echoes (pos otherPos : Nat) :
    Echoes n (· + n) (wordArray nested pos) (wordArray nested otherPos) := by
  unfold wordArray
  refine .same (ahead?_echoes fun cursor => by simp) fun _ => .ite (fun _ => ?_) fun _ => ?_
  · exact .same advance_echoes fun _ => .same advance_echoes fun _ =>
      arrayElements_echoes inner _ _ _ _
  · exact missingExpression_echoes

theorem wordCall_echoes (pos otherPos : Nat) :
    Echoes n (· + n) (wordCall nested pos) (wordCall nested otherPos) :=
  .same value_echoes fun _ => .same advance_echoes fun _ =>
    .bind addNode_echoes fun _ => call_echoes inner _ _ _

theorem plainPrimary_echoes : Echoes n (· + n) (plainPrimary nested) (plainPrimary nested) := by
  unfold plainPrimary
  refine .position fun pos otherPos => .same kind_echoes fun current => ?_
  split
  · exact variableNode_echoes
  · exact literal_echoes fun token _ _ _ => (numberNode_map token.value).symm
  · exact literal_echoes fun _ _ _ _ => rfl
  · exact literal_echoes fun _ _ _ _ => rfl
  · exact literal_echoes fun _ _ _ _ => rfl
  · exact .same advance_echoes fun _ => arrayElements_echoes inner _ _ _ _
  · exact wordArray_echoes inner _ _
  · exact wordArray_echoes inner _ _
  · exact .same advance_echoes fun _ => exprThrough_echoes inner
  · exact wordCall_echoes inner _ _
  · exact wordCall_echoes inner _ _
  · exact wordCall_echoes inner _ _
  · exact nameExpression_echoes inner
  · exact nameExpression_echoes inner
  · exact nameExpression_echoes inner
  · exact nameExpression_echoes inner
  · exact nameExpression_echoes inner
  · refine .ite (fun _ => ?_) fun _ => missingExpression_echoes
    exact .same advance_echoes fun _ => addNode_echoes

theorem primary_echoes : Echoes n (· + n) (primary nested) (primary nested) := by
  unfold primary
  refine .related (R := fun (signs others : List Nat) => signs.length = others.length)
    dollarSigns_echo fun signs others same => ?_
  have empty : others.isEmpty = signs.isEmpty := by
    rw [Bool.eq_iff_iff, List.isEmpty_iff_length_eq_zero, List.isEmpty_iff_length_eq_zero, same]
  rw [empty]
  refine .same acceptIf_echoes fun _ => ?_
  exact .join (exprThrough_echoes inner) (plainPrimary_echoes inner) (variables_echoes same)

theorem propertyAccess_echoes (pos otherPos : Nat) (object : NodeId) :
    Echoes n (· + n) (propertyAccess nested pos object)
      (propertyAccess nested otherPos (object + n)) :=
  .same at?_echoes fun _ => .same advance_echoes fun _ =>
    .bind (memberName_echoes inner) fun _ => addNode_echoes

theorem classVariable_echoes :
    Echoes n (· + n) (classVariable nested) (classVariable nested) := by
  unfold classVariable
  refine .position fun pos otherPos => .bind variableNode_echoes fun start => ?_
  refine untilDone_echoes (· + n) fun object => ?_
  refine .same (ahead?_echoes fun cursor => by simp [isStaticProperty]) fun _ => ?_
  refine .ite (fun _ => ?_) fun _ => ?_
  · refine .same advance_echoes fun _ => .same value_echoes fun _ => ?_
    exact .same advance_echoes fun _ => .bind addNode_echoes fun _ => .pure
  · refine .same kind_echoes fun kind => ?_
    split
    · exact .bind (propertyAccess_echoes inner _ _ _) fun _ => .pure
    · exact .bind (propertyAccess_echoes inner _ _ _) fun _ => .pure
    · refine .same advance_echoes fun _ => .bind (exprThrough_echoes inner) fun _ => ?_
      exact .bind addNode_echoes fun _ => .pure
    · exact .pure

theorem optionalArguments_echoes :
    Echoes n (List.map (· + n)) (optionalArguments nested) (optionalArguments nested) := by
  unfold optionalArguments
  refine .same at?_echoes fun _ => .ite (fun _ => ?_) fun _ => .pure
  exact .bind (arguments_echoes inner) fun _ => .pure

theorem objectClass_echoes : Echoes n (· + n) (objectClass nested) (objectClass nested) := by
  unfold objectClass
  refine .same kind_echoes fun kind => ?_
  split
  · exact .same advance_echoes fun _ => exprThrough_echoes inner
  · exact classVariable_echoes inner
  · exact classReference_echoes inner

theorem newExpression_echoes :
    Echoes n (· + n) (newExpression nested) (newExpression nested) := by
  unfold newExpression
  refine .position fun pos otherPos => .same advance_echoes fun _ => ?_
  refine .same kind_echoes fun kind => ?_
  split
  · refine .position fun classPos otherClassPos => .same advance_echoes fun _ => ?_
    refine .bind (optionalArguments_echoes inner) fun list => ?_
    refine .bind (classTail_echoes (inner 0) _ _ _ _) fun decl => ?_
    exact .bind addNode_echoes fun _ => addNode_echoes
  · refine .bind (objectClass_echoes inner) fun owner => ?_
    exact .bind (optionalArguments_echoes inner) fun list => addNode_echoes

theorem closureBody_echoes (isArrow : Bool) :
    EchoesAlike n (closureBody nested isArrow) (closureBody nested isArrow) := by
  unfold closureBody
  refine .ite (fun _ => ?_) fun _ => .same at?_echoes fun _ => .ite (fun _ => ?_) fun _ => ?_
  · exact .same expect_echoes fun _ => .bind (inner _) fun _ => .pure
  · exact .bind (functionBody_echoes (inner 0)) fun _ => .pure
  · exact .same expect_echoes fun _ => .pure

theorem closure_echoes : Echoes n (· + n) (closure nested) (closure nested) := by
  unfold closure
  refine .position fun pos otherPos => .same accept_echoes fun isStatic => ?_
  refine .same at?_echoes fun isArrow => .same advance_echoes fun _ => ?_
  refine .same accept_echoes fun _ => ?_
  refine .bind (parameterList_echoes (inner 0)) fun parameters => ?_
  refine .same acceptIf_echoes fun captures => .when capturedVariables_echoes ?_
  refine .bind typeAfter_echoes fun returnType => ?_
  exact .same (closureBody_echoes inner isArrow) fun _ => addNode_echoes

theorem armConditions_echoes :
    Echoes n (List.map (· + n)) (armConditions nested) (armConditions nested) := by
  unfold armConditions
  refine .same accept_echoes fun _ => .ite (fun _ => .pure) fun _ => ?_
  refine untilDone_echoes (List.map (· + n)) fun conditions => .bind (inner 0) fun _ => ?_
  refine .same accept_echoes fun _ => .ite (fun _ => ?_) fun _ => .pureOf (by simp)
  exact .same at?_echoes fun _ => .pureOf (by simp)

theorem matchExpression_echoes :
    Echoes n (· + n) (matchExpression nested) (matchExpression nested) := by
  unfold matchExpression
  refine .position fun pos otherPos => .same advance_echoes fun _ => .same expect_echoes fun _ => ?_
  refine .bind (exprThrough_echoes inner) fun subject => .same expect_echoes fun _ => ?_
  refine .bind (untilDone_echoes (List.map (· + n)) fun arms => ?_) fun _ => ?_
  · refine .same kind_echoes fun kind => ?_
    split
    · exact .pure
    · exact .pure
    · refine .position fun armPos otherArmPos => .bind (armConditions_echoes inner) fun _ => ?_
      refine .same expect_echoes fun _ => .bind (inner 0) fun body => ?_
      exact .bind addNode_echoes fun arm => .same accept_echoes fun _ => .pureOf (by simp)
  · exact .same expect_echoes fun _ => addNode_echoes

theorem yieldExpression_echoes :
    Echoes n (· + n) (yieldExpression nested) (yieldExpression nested) := by
  unfold yieldExpression
  refine .position fun pos otherPos => .same advance_echoes fun _ => ?_
  refine .same at?_echoes fun _ => .same value_echoes fun _ => .ite (fun _ => ?_) fun _ => ?_
  · exact .same advance_echoes fun _ => .bind (inner _) fun _ => addNode_echoes
  refine .same kind_echoes fun _ => .ite (fun _ => addNode_echoes) fun _ => ?_
  refine .bind (inner _) fun _ => .same accept_echoes fun _ => ?_
  refine .ite (fun _ => ?_) fun _ => addNode_echoes
  exact .bind (inner _) fun _ => addNode_echoes

theorem assignmentTail_echoes (target : NodeId) (pos otherPos : Nat) :
    Echoes n (· + n) (assignmentTail nested target pos)
      (assignmentTail nested (target + n) otherPos) := by
  unfold assignmentTail
  refine .same kind_echoes fun op => .get fun s t echo => ?_
  have assignable : (t.arena.node? (target + n)).any Node.isAssignable =
      (s.arena.node? target).any Node.isAssignable := by
    rw [echo.arena.nodes]
    cases s.arena.node? target with
    | none => rfl
    | some node => exact isAssignable_map _ node
  rw [assignable]
  refine .ite (fun _ => ?_) fun _ => .pure
  refine .same advance_echoes fun _ => .same acceptIf_echoes fun _ => ?_
  exact .bind (inner _) fun _ => addNode_echoes

theorem keywordOperand_echoes (precedence : Nat) :
    Echoes n (· + n) (keywordOperand nested precedence) (keywordOperand nested precedence) :=
  .position fun _ _ => .same kind_echoes fun _ => .same advance_echoes fun _ =>
    .bind (inner _) fun _ => addNode_echoes

theorem unaryOperand_echoes (precedence : Nat) :
    Echoes n (· + n) (unaryOperand nested precedence) (unaryOperand nested precedence) :=
  .position fun _ _ => .same kind_echoes fun _ => .same advance_echoes fun _ =>
    .bind (inner _) fun _ => addNode_echoes

theorem castExpression_echoes :
    Echoes n (· + n) (castExpression nested) (castExpression nested) :=
  .position fun _ _ => .same value_echoes fun _ => .same advance_echoes fun _ =>
    .bind (inner _) fun _ => addNode_echoes

theorem exitExpression_echoes :
    Echoes n (· + n) (exitExpression nested) (exitExpression nested) := by
  unfold exitExpression
  refine .position fun pos otherPos => .same kind_echoes fun _ => .same advance_echoes fun _ => ?_
  refine .same accept_echoes fun _ => ?_
  exact .join (optionalThrough_echoes inner) .none fun _ => addNode_echoes

theorem operand_echoes : Echoes n (· + n) (operand nested) (operand nested) :=
  .position fun pos otherPos => .bind (primary_echoes inner) fun start =>
    .bind (suffixes_echoes inner start pos otherPos) fun whole =>
      assignmentTail_echoes inner whole pos otherPos

theorem plainExpression_echoes :
    Echoes n (· + n) (plainExpression nested) (plainExpression nested) := by
  unfold plainExpression
  refine .position fun pos otherPos => .same kind_echoes fun kind => ?_
  split
  · exact castExpression_echoes inner
  · exact yieldExpression_echoes inner
  · exact exitExpression_echoes inner
  · refine .bind (newExpression_echoes inner) fun object => ?_
    exact .bind (suffixes_echoes inner object pos otherPos) fun whole =>
      assignmentTail_echoes inner whole pos otherPos
  · exact closure_echoes inner
  · exact closure_echoes inner
  · exact .bind (matchExpression_echoes inner) fun result =>
      suffixes_echoes inner result pos otherPos
  · refine .same (ahead?_echoes fun cursor => by simp [isStaticClosure]) fun _ => ?_
    exact .ite (fun _ => closure_echoes inner) fun _ => operand_echoes inner

theorem bareExpression_echoes :
    Echoes n (· + n) (bareExpression nested) (bareExpression nested) := by
  unfold bareExpression
  refine .same kind_echoes fun first => ?_
  split
  · exact unaryOperand_echoes inner _
  split
  · exact keywordOperand_echoes inner _
  · exact plainExpression_echoes inner

theorem unaryExpression_echoes :
    Echoes n (· + n) (unaryExpression nested) (unaryExpression nested) :=
  .same at?_echoes fun _ => .when skipAttributes_echoes (bareExpression_echoes inner)

theorem ternaryTail_echoes (condition : NodeId) (pos otherPos : Nat) :
    Echoes n (· + n) (ternaryTail nested condition pos)
      (ternaryTail nested (condition + n) otherPos) := by
  unfold ternaryTail
  refine .same at?_echoes fun _ => .join .none (.some (inner 0)) fun _ => ?_
  exact .same expect_echoes fun _ => .bind (inner _) fun _ => addNode_echoes

theorem rightOperand_echoes (op : TokenKind) (precedence : Nat) (associativity : Associativity) :
    Echoes n (· + n) (rightOperand nested op precedence associativity)
      (rightOperand nested op precedence associativity) := by
  cases associativity with
  | right => exact inner _
  | left => exact .ite (fun _ => classReference_echoes inner) fun _ => inner _

theorem binaryStep_echoes (minPrecedence pos otherPos : Nat) (left : NodeId) :
    Echoes n (Prod.map (· + n) id) (binaryStep nested minPrecedence pos left)
      (binaryStep nested minPrecedence otherPos (left + n)) := by
  unfold binaryStep
  refine .same kind_echoes fun op => .ite (fun _ => .ite (fun _ => .pure) fun _ => ?_) fun _ => ?_
  · exact .same advance_echoes fun _ => .bind (ternaryTail_echoes inner _ _ _) fun _ => .pure
  · split
    · exact .pure
    · refine .ite (fun _ => .pure) fun _ => .same advance_echoes fun _ => ?_
      refine .bind (rightOperand_echoes inner _ _ _) fun _ => ?_
      exact .bind addNode_echoes fun _ => .pure

theorem climb_echoes (minPrecedence : Nat) :
    Echoes n (· + n) (climb nested minPrecedence) (climb nested minPrecedence) :=
  .position fun pos otherPos => .bind (unaryExpression_echoes inner) fun _ =>
    untilDone_echoes (· + n) (binaryStep_echoes inner minPrecedence pos otherPos)

end Nested

theorem passExpression_echoes : Echoes n (· + n) passExpression passExpression := by
  unfold passExpression
  refine .bind missingNode_echoes fun missing => .same at?_echoes fun _ => ?_
  exact .when advance_echoes .pure

theorem openExpression_echoes : EchoesAlike n openExpression openExpression := by
  unfold openExpression
  refine .get fun s t echo => ?_
  rw [echo.depth]
  refine .ite (fun _ => .same (fun s t echo => ?_) fun _ => .pure) fun _ => ?_
  · exact ⟨rfl, echo.cursor, echo.arena, echo.halted, congrArg (· + 1) echo.depth⟩
  · exact .same report_echoes fun _ => .pure

theorem closeExpression_echoes : EchoesAlike n closeExpression closeExpression := fun _ _ echo =>
  ⟨rfl, echo.cursor, echo.arena, echo.halted, congrArg (· - 1) echo.depth⟩

theorem expressionWithin_echoes (room precedence : Nat) :
    Echoes n (· + n) (expressionWithin room precedence) (expressionWithin room precedence) := by
  induction room generalizing precedence with
  | zero => exact .same stall_echoes fun _ => missingNode_echoes
  | succ room ih =>
      refine .same openExpression_echoes fun _ => .ite (fun _ => ?_) fun _ => passExpression_echoes
      exact .bind (climb_echoes ih precedence) fun _ => .same closeExpression_echoes fun _ => .pure

theorem expression_echoes : Echoes n (· + n) expression expression :=
  expressionWithin_echoes (maxDepth + 1) 0

end StaticReflection.Grammar
