import StaticReflection.Proofs.Parser.DeclarationNodes

namespace StaticReflection.Grammar

open Parse

variable {limit pos : Nat} {kept : Shelf}

/-! What expressions leave on the shelf, given that those nested in them leave their nodes. -/

theorem variableNode_turns : variableNode.Turns limit kept fun id => .node id :: kept :=
  .fromHere fun _ => .look next_value fun _ => .bind (advance_begins []) fun _ =>
    addNode_begun nofun

theorem missingExpression_turns :
    missingExpression.Turns limit kept fun id => .node id :: kept := by
  unfold missingExpression
  refine .bind (reportExpected_turns _) fun _ => .bind missingNode_turns fun _ => ?_
  exact .look next_kind fun _ => .when (fun _ => advance_turns) (.pure rfl)

theorem literal_turns {node : Token → Node} (leaf : ∀ token, (node token).children = [])
    (present : ∀ token, node token ≠ .missing) :
    (literal node).Turns limit kept fun id => .node id :: kept := by
  have opened : literal node = (do
      let pos ← position
      let token ← current
      advance
      addNode (node token) pos) := rfl
  rw [opened]
  refine .fromHere fun pos => .look next_current fun token => ?_
  refine .bind (advance_begins []) fun _ => ?_
  rw [← leaf token]
  exact addNode_begun (present token)

theorem dollarSigns_turns :
    dollarSigns.Turns limit kept fun signs => signs.map Held.mark ++ kept := by
  refine untilDone_turns (fun signs : List Nat => signs.map Held.mark ++ kept) fun signs => ?_
  refine .bind position_turns fun pos => .bind accept_turns fun _ => ?_
  exact .ite (fun _ => .pure rfl) fun _ => .drop (.pure rfl)

theorem variables_turns (signs : List Nat) (base : NodeId) :
    Turns (signs.foldlM (fun operand pos => addNode (.unary .dollar operand) pos) base) limit
      (.node base :: (signs.map Held.mark ++ kept)) fun id => .node id :: kept := by
  induction signs generalizing base with
  | nil => exact .pure rfl
  | cons pos signs ih => exact .bind (.settle (addNode_over nofun)) fun operand => ih operand

theorem capturedVariables_turns : capturedVariables.Turns limit kept fun _ => kept := by
  unfold capturedVariables
  refine .bind expect_turns fun _ => .bind (untilDone_turns (fun _ => kept) fun _ => ?_) fun _ =>
    .bind expect_turns fun _ => .pure rfl
  refine .look next_kind fun kind => ?_
  split
  · exact .pure rfl
  · exact .pure rfl
  · refine .bind accept_turns fun _ => .bind expect_turns fun _ => ?_
    exact .bind accept_turns fun _ => .pure rfl

section Nested

variable {nested : Nested}
  (inner : ∀ precedence kept, (nested precedence).Turns limit kept fun id => .node id :: kept)
include inner

theorem exprThrough_turns {close : TokenKind} :
    (exprThrough nested close).Turns limit kept fun id => .node id :: kept :=
  .bind (inner 0 _) fun _ => .bind expect_turns fun _ => .pure rfl

theorem optionalThrough_turns {close : TokenKind} :
    (optionalThrough nested close).Turns limit kept fun inner => nodes inner.toList kept := by
  unfold optionalThrough
  refine .look (next_at? _) fun _ => ?_
  refine .join (fun inner => nodes inner.toList kept) (fun _ => .pure rfl)
    (fun _ => .map (inner 0 _))
    fun _ => ?_
  exact .bind expect_turns fun _ => .pure rfl

theorem classReference_turns :
    (classReference nested).Turns limit kept fun id => .node id :: kept := by
  unfold classReference
  refine .look (next_ahead? _) fun _ => .ite (fun _ => .fromHere fun pos => ?_) fun _ => inner _ _
  exact .look next_value fun _ => .bind (advance_begins []) fun _ => addNode_begun nofun

theorem argument_turns : (argument nested).Turns limit kept fun id => .node id :: kept := by
  unfold argument
  refine .fromHere fun pos => .bind accept_turns fun spread => ?_
  refine .look (next_ahead? _) fun named => .ite (fun _ => ?_) fun _ => ?_
  · refine .look next_value fun name => .bind advance_turns fun _ => .bind advance_turns fun _ => ?_
    exact .look (next_pure _) fun _ => .bind (inner 0 _) fun _ => addNode_over nofun
  · exact .look (next_pure _) fun _ => .bind (inner 0 _) fun _ => addNode_over nofun

theorem arguments_turns : (arguments nested).Turns limit kept fun out => nodes out.1 kept := by
  unfold arguments
  refine .bind expect_turns fun _ => .ite (fun _ => .pure rfl) fun _ => ?_
  refine .look (next_ahead? _) fun _ => .ite (fun _ => ?_) fun _ => ?_
  · exact .bind advance_turns fun _ => .bind advance_turns fun _ => .pure rfl
  refine .bind (untilDone_turns (fun list => nodes list kept) fun list => ?_) fun list =>
    .bind expect_turns fun _ => .pure rfl
  refine .look next_kind fun kind => ?_
  split
  · exact .pure rfl
  · exact .pure rfl
  · exact .bind (argument_turns inner) fun _ => .bind accept_turns fun _ => .pure (by simp)

theorem call_turns (callee : NodeId) (pos : Nat) :
    (call nested callee pos).Turns limit (.node callee :: .mark pos :: kept)
      fun id => .node id :: .mark pos :: kept :=
  .bind (arguments_turns inner) fun _ => addNode_over nofun

theorem memberName_turns : (memberName nested).Turns limit kept fun id => .node id :: kept := by
  unfold memberName
  refine .fromHere fun pos => .look next_kind fun kind => ?_
  split
  · exact variableNode_turns
  · exact .bind advance_turns fun _ => exprThrough_turns inner
  · refine .bind word?_begins fun name => ?_
    cases name with
    | none => exact missingNode_turns
    | some name => exact addNode_begun nofun

theorem staticMember_turns (owner : NodeId) (pos : Nat) :
    (staticMember nested owner pos).Turns limit (.node owner :: .mark pos :: kept)
      fun id => .node id :: .mark pos :: kept := by
  unfold staticMember
  refine .look next_kind fun kind => ?_
  split
  · exact .look next_value fun _ => .bind advance_turns fun _ => addNode_over nofun
  · exact .bind advance_turns fun _ => addNode_over nofun
  · refine .bind advance_turns fun _ => .bind (exprThrough_turns inner) fun name => ?_
    exact .bind (arguments_turns inner) fun _ => addNode_over nofun
  · refine .look (next_ahead? _) fun _ => .ite (fun _ => ?_) fun _ => ?_
    · refine .bind position_turns fun namePos => .look next_value fun _ => ?_
      refine .bind (advance_begins []) fun _ => .look (next_at? _) fun _ => ?_
      refine .ite (fun _ => ?_) fun _ => .drop (addNode_over nofun)
      refine .bind (.settle (addNode_begun nofun)) fun name => ?_
      exact .bind (arguments_turns inner) fun _ => addNode_over nofun
    · exact .bind (reportExpected_turns _) fun _ => .settle missingNode_turns

theorem memberAccess_turns (pos : Nat) (object : NodeId) :
    (memberAccess nested pos object).Turns limit (.node object :: .mark pos :: kept)
      fun id => .node id :: .mark pos :: kept := by
  unfold memberAccess
  refine .look (next_at? _) fun nullsafe => .bind advance_turns fun _ => ?_
  refine .bind (memberName_turns inner) fun name => .look (next_at? _) fun _ => ?_
  refine .ite (fun _ => ?_) fun _ => addNode_over nofun
  exact .bind (arguments_turns inner) fun _ => addNode_over nofun

theorem suffix_turns (pos : Nat) (object : NodeId) :
    (suffix nested pos object).Turns limit (.node object :: .mark pos :: kept)
      fun out => .node out.1 :: .mark pos :: kept := by
  unfold suffix
  refine .look next_kind fun kind => ?_
  split
  · refine .bind advance_turns fun _ => .bind (optionalThrough_turns inner) fun dim => ?_
    exact .bind (addNode_over nofun) fun _ => .pure rfl
  · exact .bind (memberAccess_turns inner pos object) fun _ => .pure rfl
  · exact .bind (memberAccess_turns inner pos object) fun _ => .pure rfl
  · refine .bind advance_turns fun _ => ?_
    exact .bind (staticMember_turns inner object pos) fun _ => .pure rfl
  · exact .bind (call_turns inner object pos) fun _ => .pure rfl
  · refine .look next_kind fun _ => .bind advance_turns fun _ => ?_
    exact .bind (addNode_over nofun) fun _ => .pure rfl
  · refine .look next_kind fun _ => .bind advance_turns fun _ => ?_
    exact .bind (addNode_over nofun) fun _ => .pure rfl
  · exact .pure rfl

theorem suffixes_turns (start : NodeId) (pos : Nat) :
    (suffixes nested start pos).Turns limit (.node start :: .mark pos :: kept)
      fun id => .node id :: .mark pos :: kept :=
  untilDone_turns (fun id => .node id :: .mark pos :: kept) (suffix_turns inner pos)

theorem arrayEntry_turns : (arrayEntry nested).Turns limit kept
    fun element => nodes (Node.arrayItem element).children kept := by
  unfold arrayEntry
  refine .bind accept_turns fun spread =>
    .ite (fun _ => .bind (inner 0 _) fun _ => .pure rfl) fun _ => ?_
  refine .bind accept_turns fun byRef =>
    .ite (fun _ => .bind (inner 0 _) fun _ => .pure rfl) fun _ => ?_
  refine .bind (inner 0 _) fun first => .bind accept_turns fun keyed => ?_
  refine .ite (fun _ => ?_) fun _ => .pure rfl
  exact .bind accept_turns fun _ => .bind (inner 0 _) fun _ => .pure rfl

theorem arrayElement_turns :
    (arrayElement nested).Turns limit kept fun id => .node id :: kept :=
  .fromHere fun _ => .bind (arrayEntry_turns inner) fun _ => addNode_over (by simp [Node.children])

theorem arraySlot_turns (close : TokenKind) (items : List (Option NodeId)) :
    (arraySlot nested close items).Turns limit (nodes (items.filterMap id) kept)
      fun out => nodes (out.1.filterMap id) kept := by
  unfold arraySlot
  refine .look next_kind fun kind => .ite (fun _ => .pure rfl) fun _ => ?_
  refine .bind accept_turns fun _ => .ite (fun _ => .pure (by simp)) fun _ => ?_
  refine .bind (arrayElement_turns inner) fun item => ?_
  exact .bind accept_turns fun _ => .pure (by simp)

theorem arrayElements_turns (pos : Nat) (close : TokenKind) (bracketed : Bool) :
    (arrayElements nested pos close bracketed).Turns limit (.begun pos :: kept)
      fun id => .node id :: .mark pos :: kept := by
  unfold arrayElements
  refine .bind (untilDone_turns (fun items : List (Option NodeId) =>
    nodes (items.filterMap id) (.begun pos :: kept)) (arraySlot_turns inner close)) fun items => ?_
  exact .bind expect_turns fun _ => addNode_begun nofun

theorem nameExpression_turns :
    (nameExpression nested).Turns limit kept fun id => .node id :: kept := by
  unfold nameExpression
  refine .fromHere fun pos => .look next_value fun name => .bind (advance_begins []) fun _ => ?_
  refine .look next_kind fun kind => ?_
  split
  · exact .bind (addNode_begun nofun) fun callee => call_turns inner callee pos
  · exact addNode_begun nofun
  · exact addNode_begun nofun

theorem wordArray_turns (pos : Nat) : (wordArray nested pos).Turns limit (.mark pos :: kept)
    fun id => .node id :: .mark pos :: kept := by
  unfold wordArray
  refine .look (next_ahead? _) fun _ => .ite (fun _ => ?_) fun _ => missingExpression_turns
  refine .bind (advance_begins []) fun _ => .bind advance_turns fun _ => ?_
  exact arrayElements_turns inner pos _ _

theorem wordCall_turns (pos : Nat) : (wordCall nested pos).Turns limit (.mark pos :: kept)
    fun id => .node id :: .mark pos :: kept :=
  .look next_value fun _ => .bind (advance_begins []) fun _ =>
    .bind (addNode_begun nofun) fun callee => call_turns inner callee pos

theorem plainPrimary_turns :
    (plainPrimary nested).Turns limit kept fun id => .node id :: kept := by
  unfold plainPrimary
  refine .fromHere fun pos => .look next_kind fun kind => ?_
  split
  · exact variableNode_turns
  · refine literal_turns (fun token => ?_) fun token => ?_ <;> (unfold numberNode; split)
    · rfl
    · rfl
    · exact nofun
    · exact nofun
  · exact literal_turns (fun _ => rfl) fun _ => nofun
  · exact literal_turns (fun _ => rfl) fun _ => nofun
  · exact literal_turns (fun _ => rfl) fun _ => nofun
  · exact .bind (advance_begins []) fun _ => arrayElements_turns inner pos _ _
  · exact wordArray_turns inner pos
  · exact wordArray_turns inner pos
  · exact .bind advance_turns fun _ => exprThrough_turns inner
  · exact wordCall_turns inner pos
  · exact wordCall_turns inner pos
  · exact wordCall_turns inner pos
  · exact nameExpression_turns inner
  · exact nameExpression_turns inner
  · exact nameExpression_turns inner
  · exact nameExpression_turns inner
  · exact nameExpression_turns inner
  · refine .ite (fun _ => ?_) fun _ => missingExpression_turns
    exact .bind (advance_begins []) fun _ => addNode_begun nofun

theorem primary_turns : (primary nested).Turns limit kept fun id => .node id :: kept := by
  unfold primary
  refine .bind dollarSigns_turns fun signs => .bind acceptIf_turns fun _ => ?_
  exact .join (fun base => .node base :: (signs.map Held.mark ++ kept))
    (fun _ => exprThrough_turns inner) (fun _ => plainPrimary_turns inner)
    fun base => variables_turns signs base

theorem propertyAccess_turns (pos : Nat) (object : NodeId) :
    (propertyAccess nested pos object).Turns limit (.node object :: .mark pos :: kept)
      fun id => .node id :: .mark pos :: kept :=
  .look (next_at? _) fun _ => .bind advance_turns fun _ =>
    .bind (memberName_turns inner) fun _ => addNode_over nofun

theorem classVariable_turns :
    (classVariable nested).Turns limit kept fun id => .node id :: kept := by
  unfold classVariable
  refine .fromHere fun pos => .bind variableNode_turns fun start => ?_
  refine untilDone_turns (fun id => .node id :: .mark pos :: kept) fun object => ?_
  refine .look (next_ahead? _) fun _ => .ite (fun _ => ?_) fun _ => .look next_kind fun kind => ?_
  · refine .bind advance_turns fun _ => .look next_value fun _ => .bind advance_turns fun _ => ?_
    exact .bind (addNode_over nofun) fun _ => .pure rfl
  · split
    · exact .bind (propertyAccess_turns inner pos object) fun _ => .pure rfl
    · exact .bind (propertyAccess_turns inner pos object) fun _ => .pure rfl
    · refine .bind advance_turns fun _ => .bind (exprThrough_turns inner) fun dim => ?_
      exact .bind (addNode_over nofun) fun _ => .pure rfl
    · exact .pure rfl

theorem optionalArguments_turns :
    (optionalArguments nested).Turns limit kept fun list => nodes list kept := by
  unfold optionalArguments
  refine .look (next_at? _) fun _ => .ite (fun _ => ?_) fun _ => .pure rfl
  exact .bind (arguments_turns inner) fun _ => .pure rfl

theorem objectClass_turns : (objectClass nested).Turns limit kept fun id => .node id :: kept := by
  unfold objectClass
  refine .look next_kind fun kind => ?_
  split
  · exact .bind advance_turns fun _ => exprThrough_turns inner
  · exact classVariable_turns inner
  · exact classReference_turns inner

theorem newExpression_turns :
    (newExpression nested).Turns limit kept fun id => .node id :: kept := by
  unfold newExpression
  refine .fromHere fun pos => .bind (advance_begins []) fun _ => .look next_kind fun kind => ?_
  split
  · refine .bind position_turns fun classPos => .bind (advance_begins []) fun _ => ?_
    refine .bind (optionalArguments_turns inner) fun list => ?_
    refine .bind (classTail_turns (inner 0) _ _ _ _) fun decl => ?_
    exact .bind (addNode_beneath list nofun) fun owner => addNode_begun nofun
  · refine .bind (objectClass_turns inner) fun owner => ?_
    exact .bind (optionalArguments_turns inner) fun list => addNode_begun nofun

theorem closureBody_turns (isArrow : Bool) :
    (closureBody nested isArrow).Turns limit kept fun _ => kept := by
  unfold closureBody
  refine .ite (fun _ => ?_) fun _ => .look (next_at? _) fun _ => .ite (fun _ => ?_) fun _ => ?_
  · exact .bind expect_turns fun _ => .bind (inner _ _) fun _ => .drop (.pure rfl)
  · exact .bind (functionBody_turns (inner 0)) fun _ => .dropAll (.pure rfl)
  · exact .bind expect_turns fun _ => .pure rfl

theorem closure_turns : (closure nested).Turns limit kept fun id => .node id :: kept := by
  unfold closure
  refine .fromHere fun pos => .bind accept_turns fun isStatic =>
    .look (next_at? _) fun isArrow => ?_
  refine .bind (advance_begins []) fun _ => .bind accept_turns fun _ => ?_
  refine .bind (parameterList_turns (inner 0)) fun parameters => .bind acceptIf_turns fun _ => ?_
  refine .when (fun _ => capturedVariables_turns) (.bind typeAfter_turns fun returnType => ?_)
  rw [← nodes_append]
  exact .bind (closureBody_turns inner isArrow) fun _ => addNode_begun nofun

theorem armConditions_turns :
    (armConditions nested).Turns limit kept fun conditions => nodes conditions kept := by
  unfold armConditions
  refine .bind accept_turns fun _ => .ite (fun _ => .pure rfl) fun _ => ?_
  refine untilDone_turns (fun conditions => nodes conditions kept) fun conditions => ?_
  refine .bind (inner 0 _) fun _ => .bind accept_turns fun _ => .ite (fun _ => ?_) fun _ => ?_
  · exact .look (next_at? _) fun _ => .pure (by simp)
  · exact .pure (by simp)

theorem matchExpression_turns :
    (matchExpression nested).Turns limit kept fun id => .node id :: kept := by
  unfold matchExpression
  refine .fromHere fun pos => .bind (advance_begins []) fun _ => .bind expect_turns fun _ => ?_
  refine .bind (exprThrough_turns inner) fun subject => .bind expect_turns fun _ => ?_
  refine .bind (untilDone_turns (fun arms => nodes arms (.node subject :: .begun pos :: kept))
    fun arms => .look next_kind fun kind => ?_) fun arms => .bind expect_turns fun _ =>
      addNode_begun nofun
  split
  · exact .pure rfl
  · exact .pure rfl
  · refine .bind position_turns fun armPos => .bind (armConditions_turns inner) fun conditions => ?_
    refine .bind expect_turns fun _ => .bind (inner 0 _) fun body => ?_
    rw [← nodes_nil (.node body :: _), ← nodes_cons, ← nodes_append]
    refine .bind (.settle (addNode_over (by simp [Node.children]))) fun arm => ?_
    exact .bind accept_turns fun _ => .pure (by simp)

theorem yieldExpression_turns :
    (yieldExpression nested).Turns limit kept fun id => .node id :: kept := by
  unfold yieldExpression
  refine .fromHere fun pos => .bind (advance_begins []) fun _ => ?_
  refine .look (next_at? _) fun _ => .look next_value fun _ => .ite (fun _ => ?_) fun _ => ?_
  · exact .bind advance_turns fun _ => .bind (inner _ _) fun _ => addNode_begun nofun
  refine .look next_kind fun _ => .ite (fun _ => addNode_begun nofun) fun _ => ?_
  refine .bind (inner _ _) fun first => .bind accept_turns fun _ => .ite (fun _ => ?_) fun _ => ?_
  · exact .bind (inner _ _) fun _ => addNode_begun nofun
  · exact addNode_begun nofun

theorem assignmentTail_turns (target : NodeId) (pos : Nat) :
    (assignmentTail nested target pos).Turns limit (.node target :: .mark pos :: kept)
      fun id => .node id :: .mark pos :: kept := by
  unfold assignmentTail
  refine .look next_kind fun op => .look next_get fun _ => .ite (fun _ => ?_) fun _ => .pure rfl
  refine .bind advance_turns fun _ => .bind acceptIf_turns fun _ => ?_
  exact .bind (inner _ _) fun _ => addNode_over nofun

theorem keywordOperand_turns (precedence : Nat) :
    (keywordOperand nested precedence).Turns limit kept fun id => .node id :: kept :=
  .fromHere fun _ => .look next_kind fun _ => .bind advance_turns fun _ =>
    .bind (inner _ _) fun _ => addNode_over nofun

theorem unaryOperand_turns (precedence : Nat) :
    (unaryOperand nested precedence).Turns limit kept fun id => .node id :: kept :=
  .fromHere fun _ => .look next_kind fun _ => .bind advance_turns fun _ =>
    .bind (inner _ _) fun _ => addNode_over nofun

theorem castExpression_turns :
    (castExpression nested).Turns limit kept fun id => .node id :: kept :=
  .fromHere fun _ => .look next_value fun _ => .bind advance_turns fun _ =>
    .bind (inner _ _) fun _ => addNode_over nofun

theorem exitExpression_turns :
    (exitExpression nested).Turns limit kept fun id => .node id :: kept := by
  unfold exitExpression
  refine .fromHere fun pos => .look next_kind fun keyword => .bind (advance_begins []) fun _ => ?_
  refine .bind accept_turns fun _ => ?_
  exact .join (fun operand => nodes operand.toList (.begun pos :: kept))
    (fun _ => optionalThrough_turns inner) (fun _ => .pure rfl) fun _ => addNode_begun nofun

theorem operand_turns : (operand nested).Turns limit kept fun id => .node id :: kept :=
  .fromHere fun pos => .bind (primary_turns inner) fun start =>
    .bind (suffixes_turns inner start pos) fun whole => assignmentTail_turns inner whole pos

theorem plainExpression_turns :
    (plainExpression nested).Turns limit kept fun id => .node id :: kept := by
  unfold plainExpression
  refine .fromHere fun pos => .look next_kind fun kind => ?_
  split
  · exact castExpression_turns inner
  · exact yieldExpression_turns inner
  · exact exitExpression_turns inner
  · refine .bind (newExpression_turns inner) fun object => ?_
    exact .bind (suffixes_turns inner object pos) fun whole => assignmentTail_turns inner whole pos
  · exact closure_turns inner
  · exact closure_turns inner
  · exact .bind (matchExpression_turns inner) fun result => suffixes_turns inner result pos
  · exact .look (next_ahead? _) fun _ =>
      .ite (fun _ => closure_turns inner) fun _ => operand_turns inner

theorem bareExpression_turns :
    (bareExpression nested).Turns limit kept fun id => .node id :: kept := by
  unfold bareExpression
  refine .look next_kind fun kind => ?_
  split
  · exact unaryOperand_turns inner _
  · split
    · exact keywordOperand_turns inner _
    · exact plainExpression_turns inner

theorem unaryExpression_turns :
    (unaryExpression nested).Turns limit kept fun id => .node id :: kept :=
  .look (next_at? _) fun _ => .when (fun _ => skipAttributes_turns) (bareExpression_turns inner)

theorem ternaryTail_turns (condition : NodeId) (pos : Nat) :
    (ternaryTail nested condition pos).Turns limit (.node condition :: .mark pos :: kept)
      fun id => .node id :: .mark pos :: kept := by
  unfold ternaryTail
  refine .look (next_at? _) fun _ => ?_
  refine .join (fun whenTrue => nodes whenTrue.toList (.node condition :: .mark pos :: kept))
    (fun _ => .pure rfl) (fun _ => .map (inner 0 _)) fun whenTrue => ?_
  refine .bind expect_turns fun _ => .bind (inner _ _) fun whenFalse => ?_
  cases whenTrue with
  | none => exact addNode_over nofun
  | some whenTrue => exact addNode_over nofun

theorem rightOperand_turns (op : TokenKind) (precedence : Nat)
    (associativity : Associativity) :
    (rightOperand nested op precedence associativity).Turns limit kept
      fun id => .node id :: kept := by
  cases associativity with
  | right => exact inner _ _
  | left => exact .ite (fun _ => classReference_turns inner) fun _ => inner _ _

theorem binaryStep_turns (minPrecedence pos : Nat) (left : NodeId) :
    (binaryStep nested minPrecedence pos left).Turns limit (.node left :: .mark pos :: kept)
      fun out => .node out.1 :: .mark pos :: kept := by
  unfold binaryStep
  refine .look next_kind fun op => .ite (fun _ => .ite (fun _ => .pure rfl) fun _ => ?_) fun _ => ?_
  · exact .bind advance_turns fun _ => .bind (ternaryTail_turns inner left pos) fun _ => .pure rfl
  split
  · exact .pure rfl
  · refine .ite (fun _ => .pure rfl) fun _ => .bind advance_turns fun _ => ?_
    refine .bind (rightOperand_turns inner _ _ _) fun _ => ?_
    exact .bind (addNode_over nofun) fun _ => .pure rfl

theorem binaryTail_turns (minPrecedence pos : Nat) (start : NodeId) :
    (binaryTail nested minPrecedence pos start).Turns limit (.node start :: .mark pos :: kept)
      fun id => .node id :: .mark pos :: kept :=
  untilDone_turns (fun id => .node id :: .mark pos :: kept)
    (binaryStep_turns inner minPrecedence pos)

theorem climb_turns (minPrecedence : Nat) :
    (climb nested minPrecedence).Turns limit kept fun id => .node id :: kept :=
  .fromHere fun pos => .bind (unaryExpression_turns inner) fun left =>
    binaryTail_turns inner minPrecedence pos left

end Nested

theorem openExpression_turns : openExpression.Turns limit kept
    fun opened => if opened then kept else .fault :: kept := by
  unfold openExpression
  refine .look next_get fun s => .ite (fun _ => ?_) fun _ =>
    .bind (report_turns _) fun _ => .pure rfl
  exact fun _ _ holds => holds.congr rfl rfl fun clean => ⟨clean.reported, clean.stalled⟩

theorem passExpression_turns :
    passExpression.Turns limit (.fault :: kept) fun id => .node id :: kept := by
  unfold passExpression
  refine .bind missingNode_turns fun missing => .look (next_at? _) fun _ => ?_
  exact .when (fun _ => advance_turns) (.pure rfl)

theorem expressionWithin_turns (room precedence : Nat) (kept : Shelf) :
    (expressionWithin room precedence).Turns limit kept fun id => .node id :: kept := by
  induction room generalizing precedence kept with
  | zero => exact .bind stall_turns fun _ => missingNode_turns
  | succ room ih =>
      unfold expressionWithin
      refine .bind openExpression_turns fun opened => .ite (fun yes => ?_) fun no => ?_
      · rw [if_pos yes]
        refine .bind (climb_turns ih precedence) fun whole => ?_
        exact fun _ _ holds => holds.congr rfl rfl fun clean => ⟨clean.reported, clean.stalled⟩
      · rw [if_neg no]
        exact passExpression_turns

theorem expression_turns (kept : Shelf) :
    expression.Turns limit kept fun id => .node id :: kept :=
  expressionWithin_turns _ _ _

end StaticReflection.Grammar
