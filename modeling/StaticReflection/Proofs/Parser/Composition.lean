import StaticReflection.Proofs.Parser.Steps

namespace StaticReflection

open Parse Grammar

/-! What parsers are made of. A property of the elementary parsers that carries over to one
parser after another is one of all productions. -/

/-- Whether the node is an operator before its operand. -/
def Node.isUnary : Node → Bool
  | .unary .. => true
  | _ => false

/-- The parser is made of elementary ones and of those of nested expressions. It adds no operator
before an operand. -/
inductive Parse.Composed (nested : Nested) : {α : Type} → Parse α → Prop
  | pure {α : Type} (value : α) : Composed nested (Pure.pure value : Parse α)
  | bind {α β : Type} {parse : Parse α} {rest : α → Parse β} (first : Composed nested parse)
      (second : ∀ value, Composed nested (rest value)) : Composed nested (parse >>= rest)
  | get : Composed nested (MonadState.get : Parse ParseState)
  | advance : Composed nested Parse.advance
  | report (message : String) : Composed nested (Parse.report message)
  | stall : Composed nested Parse.stall
  | halt : Composed nested (modify fun state => { state with halted := true } : Parse Unit)
  | missingNode : Composed nested Parse.missingNode
  | addNode (node : Node) (pos : Nat) (plain : node.isUnary = false) :
      Composed nested (Parse.addNode node pos)
  | inner (precedence : Nat) : Composed nested (nested precedence)

variable {nested : Nested} {α β σ : Type}

namespace Parse

namespace Composed

theorem map {parse : Parse α} (composed : parse.Composed nested) (f : α → β) :
    (f <$> parse).Composed nested :=
  .bind composed fun value => .pure (f value)

theorem ite {condition : Prop} [Decidable condition] {whenTrue whenFalse : Parse α}
    (yes : whenTrue.Composed nested) (no : whenFalse.Composed nested) :
    (if condition then whenTrue else whenFalse).Composed nested := by
  split
  · exact yes
  · exact no

/-- Two ways that join again. -/
theorem join {condition : Prop} [Decidable condition] {whenTrue whenFalse : Parse α}
    {rest : α → Parse β} (yes : whenTrue.Composed nested) (no : whenFalse.Composed nested)
    (second : ∀ value, (rest value).Composed nested) :
    (if condition then whenTrue >>= rest else whenFalse >>= rest).Composed nested :=
  .ite (.bind yes second) (.bind no second)

theorem when {condition : Prop} [Decidable condition] {whenTrue : Parse Unit}
    {rest : Unit → Parse β} (yes : whenTrue.Composed nested)
    (second : (rest ()).Composed nested) :
    (if condition then whenTrue >>= rest else rest ()).Composed nested :=
  .ite (.bind yes fun _ => second) second

theorem looks (look : ParseState → α) :
    (MonadState.get >>= fun state => Pure.pure (look state) : Parse α).Composed nested :=
  .bind .get fun state => .pure (look state)

theorem repeatUpTo {step : σ → Parse (σ × Bool)}
    (steps : ∀ state, (step state).Composed nested) (bound : Nat) (state : σ) :
    (repeatUpTo step bound state).Composed nested := by
  induction bound generalizing state with
  | zero => exact .bind .stall fun _ => .pure _
  | succ bound ih =>
      refine .bind (.looks _) fun before => .bind (steps state) fun out => ?_
      refine .ite (.pure _) (.bind (.looks _) fun now => .ite (ih _) ?_)
      exact .bind .stall fun _ => .pure _

theorem untilDone {step : σ → Parse (σ × Bool)}
    (steps : ∀ state, (step state).Composed nested) (start : σ) :
    (untilDone start step).Composed nested :=
  .bind (.looks _) fun _ => .repeatUpTo steps _ _

end Composed

theorem kind_composed : kind.Composed nested := .looks _

theorem position_composed : position.Composed nested := .looks _

theorem value_composed : value.Composed nested := .looks _

theorem doc_composed : doc.Composed nested := .looks _

theorem current_composed : current.Composed nested := .looks _

theorem at?_composed (kind : TokenKind) : (at? kind).Composed nested := .looks _

theorem ahead?_composed (test : Cursor → Bool) : (ahead? test).Composed nested := .looks _

theorem found_composed : found.Composed nested :=
  .bind current_composed fun _ => .ite (.pure _) (.pure _)

theorem reportExpected_composed (what : String) : (reportExpected what).Composed nested :=
  .bind found_composed fun _ => .report _

theorem accept_composed {kind : TokenKind} : (accept kind).Composed nested :=
  .bind (at?_composed _) fun _ => .ite (.bind .advance fun _ => .pure _) (.pure _)

theorem acceptIf_composed {condition : Bool} {kind : TokenKind} :
    (acceptIf condition kind).Composed nested :=
  .ite accept_composed (.pure _)

theorem expect_composed {kind : TokenKind} : (expect kind).Composed nested :=
  .bind accept_composed fun _ => .ite (.pure _) (.bind (reportExpected_composed _) fun _ => .pure _)

theorem acceptAll_composed {kind : TokenKind} : (acceptAll kind).Composed nested :=
  .untilDone (fun _ => .bind accept_composed fun _ => .ite (.pure _) (.pure _)) _

theorem word?_composed : word?.Composed nested := by
  refine .bind (ahead?_composed _) fun _ => .ite ?_ ?_
  · exact .bind current_composed fun _ => .bind .advance fun _ => .pure _
  · exact .bind (reportExpected_composed _) fun _ => .pure _

theorem skipAttributes_composed : skipAttributes.Composed nested := by
  refine .bind (.untilDone (fun depth => .bind kind_composed fun kind => ?_) _) fun _ => .pure _
  split
  · exact .pure _
  · exact .bind .advance fun _ => .pure _
  · exact .ite (.pure _) (.bind .advance fun _ => .pure _)
  · exact .ite (.pure _) (.bind .advance fun _ => .pure _)
  · exact .ite (.pure _) (.bind .advance fun _ => .pure _)

theorem docAcrossAttributes_composed : docAcrossAttributes.Composed nested := by
  refine .bind doc_composed fun _ => .bind (at?_composed _) fun _ => .ite ?_ (.pure _)
  exact .bind skipAttributes_composed fun _ => .bind doc_composed fun _ => .pure _

theorem skipBlock_composed : skipBlock.Composed nested := by
  refine .bind (.untilDone (fun depth => .bind kind_composed fun kind => ?_) _) fun _ => .pure _
  split
  · exact .bind (.report _) fun _ => .pure _
  · exact .bind .advance fun _ => .pure _
  · exact .bind .advance fun _ => .pure _
  · exact .bind .advance fun _ => .pure _

end Parse

namespace Grammar

/-! Types. -/

theorem namedType_composed : namedType.Composed nested := by
  refine .bind position_composed fun pos => .bind kind_composed fun kind => .ite ?_ ?_
  · exact .bind value_composed fun name => .bind .advance fun _ => .addNode _ _ rfl
  · exact .bind (reportExpected_composed _) fun _ => .missingNode

theorem intersectionType_composed : intersectionType.Composed nested := by
  refine .bind position_composed fun pos => .bind namedType_composed fun first => ?_
  refine .bind (ahead?_composed _) fun _ => .ite (.pure _) ?_
  refine .bind (.untilDone (fun types => ?_) _) ?_
  · refine .bind (ahead?_composed _) fun _ => .ite ?_ (.pure _)
    exact .bind .advance fun _ => .bind namedType_composed fun _ => .pure _
  · exact fun _ => .addNode _ _ rfl

theorem closeParens_composed (count : Nat) : (closeParens count).Composed nested := by
  induction count with
  | zero => exact .pure _
  | succ count ih => exact .bind expect_composed fun _ => ih

theorem unionMember_composed : unionMember.Composed nested :=
  .bind acceptAll_composed fun parens => .bind intersectionType_composed fun _ =>
    .bind (closeParens_composed parens) fun _ => .pure _

theorem type_composed : type.Composed nested := by
  refine .bind position_composed fun pos => .bind accept_composed fun _ => .ite ?_ ?_
  · exact .bind namedType_composed fun _ => .addNode _ _ rfl
  refine .bind unionMember_composed fun first => .bind (at?_composed _) fun _ => .ite (.pure _) ?_
  refine .bind (.untilDone (fun types => ?_) _) fun _ => .addNode _ _ rfl
  refine .bind accept_composed fun _ => .ite ?_ (.pure _)
  exact .bind unionMember_composed fun _ => .pure _

theorem typeAfter_composed {mark : TokenKind} : (typeAfter mark).Composed nested :=
  .bind accept_composed fun _ => .ite (.bind type_composed fun _ => .pure _) (.pure _)

/-! Declarations. -/

theorem memberModifiers_composed : memberModifiers.Composed nested := by
  refine .untilDone (fun modifiers => .bind kind_composed fun kind => ?_) _
  split
  · exact .pure _
  · refine .when (.report _) (.bind .advance fun _ => ?_)
    refine .bind (at?_composed _) fun _ => .bind (ahead?_composed _) fun _ => .ite ?_ (.pure _)
    exact .bind .advance fun _ => .bind .advance fun _ => .bind .advance fun _ => .pure _

theorem parameterType_composed : parameterType.Composed nested := by
  refine .bind kind_composed fun kind => ?_
  split
  · exact .pure _
  · exact .pure _
  · exact .pure _
  · exact .bind type_composed fun _ => .pure _

theorem nameList_composed : nameList.Composed nested := by
  refine .untilDone (fun names => .bind (ahead?_composed _) fun _ => .ite ?_ ?_) _
  · refine .bind value_composed fun _ => .bind .advance fun _ => ?_
    exact .bind accept_composed fun _ => .pure _
  · exact .bind (reportExpected_composed _) fun _ => .pure _

theorem namesAfter_composed {keyword : TokenKind} : (namesAfter keyword).Composed nested :=
  .bind accept_composed fun _ => .ite nameList_composed (.pure _)

theorem blockOrSemicolon_composed : blockOrSemicolon.Composed nested :=
  .bind (at?_composed _) fun _ =>
    .ite skipBlock_composed (.bind expect_composed fun _ => .pure _)

theorem traitUse_composed : traitUse.Composed nested :=
  .bind position_composed fun _ => .bind .advance fun _ => .bind nameList_composed fun _ =>
    .bind blockOrSemicolon_composed fun _ => .addNode _ _ rfl

section Declarations

variable {expr : Parse NodeId} (inner : expr.Composed nested)
include inner

theorem initializer_composed : (initializer expr).Composed nested :=
  .bind accept_composed fun _ => .ite (.bind inner fun _ => .pure _) (.pure _)

theorem parameter_composed : (parameter expr).Composed nested := by
  refine .bind docAcrossAttributes_composed fun doc => .bind position_composed fun pos => ?_
  refine .bind memberModifiers_composed fun modifiers => .bind parameterType_composed fun type => ?_
  refine .bind accept_composed fun byRef => .bind accept_composed fun variadic => ?_
  refine .bind value_composed fun name => .bind expect_composed fun named => ?_
  refine .bind (initializer_composed inner) fun default => .bind (at?_composed _) fun hooks => ?_
  exact .when skipBlock_composed (.addNode _ _ rfl)

theorem parameterList_composed : (parameterList expr).Composed nested := by
  refine .bind expect_composed fun _ => .ite (.pure _) (.bind (.untilDone (fun list => ?_) _) ?_)
  · refine .bind kind_composed fun kind => ?_
    split
    · exact .pure _
    · exact .pure _
    · exact .bind (parameter_composed inner) fun _ => .bind accept_composed fun _ => .pure _
  · exact fun _ => .bind expect_composed fun _ => .pure _

theorem staticVariables_composed (known : List StaticVariable) :
    (staticVariables expr known).Composed nested := by
  refine .bind (.untilDone (fun statics => ?_) _) fun _ => .bind accept_composed fun _ => .pure _
  refine .bind (at?_composed _) fun _ => .ite ?_ (.pure _)
  refine .bind value_composed fun name => .bind .advance fun _ => ?_
  exact .bind (initializer_composed inner) fun _ => .bind accept_composed fun _ => .pure _

theorem bodyStep_composed (scan : BodyScan) : (bodyStep expr scan).Composed nested := by
  refine .bind kind_composed fun kind => ?_
  dsimp only
  split
  · exact .bind (.report _) fun _ => .pure _
  · exact .bind .advance fun _ => .pure _
  · exact .bind .advance fun _ => .pure _
  · exact .bind .advance fun _ => .pure _
  · exact .bind .advance fun _ => .pure _
  · refine .bind (ahead?_composed _) fun _ => .bind .advance fun _ => .ite ?_ (.pure _)
    exact .bind (staticVariables_composed inner _) fun _ => .pure _
  · exact .bind .advance fun _ => .pure _
  · exact .bind .advance fun _ => .pure _

theorem functionBody_composed : (functionBody expr).Composed nested :=
  .untilDone (bodyStep_composed inner) _

theorem functionDecl_composed (modifiers : WrittenModifiers) (doc : Option String) :
    (functionDecl expr modifiers doc).Composed nested := by
  refine .bind expect_composed fun _ => .bind accept_composed fun _ => ?_
  refine .bind word?_composed fun _ => .bind (parameterList_composed inner) fun _ => ?_
  refine .bind typeAfter_composed fun _ => .bind (at?_composed _) fun _ => .ite ?_ ?_
  · exact .bind (functionBody_composed inner) fun _ => .pure _
  · exact .bind expect_composed fun _ => .pure _

theorem constDeclarators_composed : (constDeclarators expr).Composed nested := by
  refine .untilDone (fun declarators => .bind position_composed fun pos => ?_) _
  refine .bind word?_composed fun name => ?_
  cases name with
  | none => exact .pure _
  | some name =>
      refine .bind expect_composed fun _ => .join inner .missingNode fun value => ?_
      exact .bind (.addNode _ _ rfl) fun _ => .bind accept_composed fun _ => .pure _

theorem classConst_composed (pos : Nat) (modifiers : WrittenModifiers) (doc : Option String) :
    (classConst expr pos modifiers doc).Composed nested := by
  refine .bind .advance fun _ => .bind (ahead?_composed _) fun _ => ?_
  refine .join (.pure _) (.map type_composed _) fun type => ?_
  refine .bind (constDeclarators_composed inner) fun _ => .bind expect_composed fun _ => ?_
  exact .addNode _ _ rfl

theorem propertyDeclarators_composed : (propertyDeclarators expr).Composed nested := by
  refine .untilDone (fun declarators => .bind position_composed fun pos => ?_) _
  refine .bind value_composed fun name => .bind expect_composed fun _ => .ite ?_ (.pure _)
  refine .bind (initializer_composed inner) fun _ => .bind (.addNode _ _ rfl) fun _ => ?_
  exact .bind accept_composed fun _ => .pure _

theorem property_composed (pos : Nat) (modifiers : WrittenModifiers) (doc : Option String) :
    (property expr pos modifiers doc).Composed nested := by
  refine .bind (at?_composed _) fun _ => .join (.pure _) (.map type_composed _) fun type => ?_
  refine .bind (propertyDeclarators_composed inner) fun _ => ?_
  exact .bind blockOrSemicolon_composed fun _ => .addNode _ _ rfl

theorem enumCase_composed (doc : Option String) : (enumCase expr doc).Composed nested := by
  refine .bind position_composed fun pos => .bind .advance fun _ => ?_
  refine .bind word?_composed fun name => ?_
  cases name with
  | none => exact .pure _
  | some name =>
      refine .bind (initializer_composed inner) fun _ => .bind expect_composed fun _ => ?_
      exact .bind (.addNode _ _ rfl) fun _ => .pure _

theorem modifiedMember_composed (doc : Option String) :
    (modifiedMember expr doc).Composed nested := by
  refine .bind position_composed fun pos => .bind memberModifiers_composed fun modifiers => ?_
  refine .bind kind_composed fun kind => ?_
  split
  · exact .bind (classConst_composed inner _ _ _) fun _ => .pure _
  · refine .bind position_composed fun _ => .bind doc_composed fun _ => ?_
    exact .bind (functionDecl_composed inner _ _) fun _ => .bind (.addNode _ _ rfl) fun _ => .pure _
  · refine .ite (.bind (property_composed inner _ _ _) fun _ => .pure _) ?_
    refine .bind found_composed fun _ => .bind (.report _) fun _ => ?_
    exact .bind .advance fun _ => .pure _

theorem classMembers_composed : (classMembers expr).Composed nested := by
  refine .untilDone (fun members => .bind kind_composed fun kind => ?_) _
  split
  · exact .pure _
  · exact .pure _
  · exact .bind .advance fun _ => .pure _
  · refine .bind docAcrossAttributes_composed fun doc => .bind kind_composed fun kind => ?_
    dsimp only
    split
    · exact .bind (.map traitUse_composed _) fun _ => .pure _
    · exact .bind (enumCase_composed inner doc) fun _ => .pure _
    · exact .bind (modifiedMember_composed inner doc) fun _ => .pure _

theorem classTail_composed (kind : ClassKind) (name : String) (modifiers : WrittenModifiers)
    (doc : Option String) : (classTail expr kind name modifiers doc).Composed nested := by
  refine .join typeAfter_composed (.pure _) fun backingType => ?_
  refine .bind namesAfter_composed fun parents => .when (.report _) ?_
  refine .bind namesAfter_composed fun interfaces => .bind expect_composed fun _ => ?_
  exact .bind (classMembers_composed inner) fun _ => .bind expect_composed fun _ => .pure _

end Declarations

/-! Expressions, up to those that begin with an operator. -/

theorem variableNode_composed : variableNode.Composed nested :=
  .bind position_composed fun _ => .bind value_composed fun _ => .bind .advance fun _ =>
    .addNode _ _ rfl

theorem dollarSigns_composed : dollarSigns.Composed nested :=
  .untilDone (fun _ => .bind position_composed fun _ => .bind accept_composed fun _ =>
    .ite (.pure _) (.pure _)) _

theorem capturedVariables_composed : capturedVariables.Composed nested := by
  refine .bind expect_composed fun _ => .bind (.untilDone (fun _ => ?_) _) fun _ => ?_
  · refine .bind kind_composed fun kind => ?_
    split
    · exact .pure _
    · exact .pure _
    · refine .bind accept_composed fun _ => .bind expect_composed fun _ => ?_
      exact .bind accept_composed fun _ => .pure _
  · exact .bind expect_composed fun _ => .pure _

theorem exprThrough_composed {close : TokenKind} : (exprThrough nested close).Composed nested :=
  .bind (.inner 0) fun _ => .bind expect_composed fun _ => .pure _

theorem optionalThrough_composed {close : TokenKind} :
    (optionalThrough nested close).Composed nested :=
  .bind (at?_composed _) fun _ => .join (.pure _) (.map (.inner 0) _) fun _ =>
    .bind expect_composed fun _ => .pure _

theorem classReference_composed : (classReference nested).Composed nested := by
  refine .bind (ahead?_composed _) fun _ => .ite ?_ (.inner _)
  refine .bind position_composed fun _ => .bind value_composed fun _ => ?_
  exact .bind .advance fun _ => .addNode _ _ rfl

theorem argument_composed : (argument nested).Composed nested := by
  have named (pos : Nat) (spread : Bool) (name : Option String) : (do
      let value ← anyExpr nested
      addNode (.argument name value spread) pos).Composed nested :=
    .bind (.inner 0) fun _ => .addNode _ _ rfl
  refine .bind position_composed fun pos => .bind accept_composed fun spread => ?_
  refine .bind (ahead?_composed _) fun _ => .ite ?_ (.bind (.pure _) (named _ _))
  refine .bind value_composed fun _ => .bind .advance fun _ => .bind .advance fun _ => ?_
  exact .bind (.pure _) (named _ _)

theorem arguments_composed : (arguments nested).Composed nested := by
  refine .bind expect_composed fun _ => .ite (.pure _) ?_
  refine .bind (ahead?_composed _) fun _ => .ite ?_ ?_
  · exact .bind .advance fun _ => .bind .advance fun _ => .pure _
  refine .bind (.untilDone (fun list => .bind kind_composed fun kind => ?_) _) fun _ => ?_
  · split
    · exact .pure _
    · exact .pure _
    · exact .bind argument_composed fun _ => .bind accept_composed fun _ => .pure _
  · exact .bind expect_composed fun _ => .pure _

theorem memberName_composed : (memberName nested).Composed nested := by
  refine .bind position_composed fun pos => .bind kind_composed fun kind => ?_
  split
  · exact variableNode_composed
  · exact .bind .advance fun _ => exprThrough_composed
  · refine .bind word?_composed fun name => ?_
    cases name with
    | none => exact .missingNode
    | some name => exact .addNode _ _ rfl

theorem arrayEntry_composed : (arrayEntry nested).Composed nested := by
  refine .bind accept_composed fun _ => .ite (.bind (.inner 0) fun _ => .pure _) ?_
  refine .bind accept_composed fun _ => .ite (.bind (.inner 0) fun _ => .pure _) ?_
  refine .bind (.inner 0) fun _ => .bind accept_composed fun _ => .ite ?_ (.pure _)
  exact .bind accept_composed fun _ => .bind (.inner 0) fun _ => .pure _

theorem arraySlot_composed (close : TokenKind) (items : List (Option NodeId)) :
    (arraySlot nested close items).Composed nested := by
  refine .bind kind_composed fun kind => .ite (.pure _) ?_
  refine .bind accept_composed fun _ => .ite (.pure _) (.bind ?_ fun _ => ?_)
  · exact .bind position_composed fun _ => .bind arrayEntry_composed fun _ => .addNode _ _ rfl
  · exact .bind accept_composed fun _ => .pure _

theorem propertyAccess_composed (pos : Nat) (object : NodeId) :
    (propertyAccess nested pos object).Composed nested :=
  .bind (at?_composed _) fun _ => .bind .advance fun _ => .bind memberName_composed fun _ =>
    .addNode _ _ rfl

theorem classVariable_composed : (classVariable nested).Composed nested := by
  refine .bind position_composed fun pos => .bind variableNode_composed fun start => ?_
  refine .untilDone (fun object => .bind (ahead?_composed _) fun _ => .ite ?_ ?_) _
  · refine .bind .advance fun _ => .bind value_composed fun _ => ?_
    exact .bind .advance fun _ => .bind (.addNode _ _ rfl) fun _ => .pure _
  · refine .bind kind_composed fun kind => ?_
    split
    · exact .bind (propertyAccess_composed _ _) fun _ => .pure _
    · exact .bind (propertyAccess_composed _ _) fun _ => .pure _
    · refine .bind .advance fun _ => .bind exprThrough_composed fun _ => ?_
      exact .bind (.addNode _ _ rfl) fun _ => .pure _
    · exact .pure _

theorem optionalArguments_composed : (optionalArguments nested).Composed nested :=
  .bind (at?_composed _) fun _ => .ite (.bind arguments_composed fun _ => .pure _) (.pure _)

theorem objectClass_composed : (objectClass nested).Composed nested := by
  refine .bind kind_composed fun kind => ?_
  split
  · exact .bind .advance fun _ => exprThrough_composed
  · exact classVariable_composed
  · exact classReference_composed

theorem closureBody_composed (isArrow : Bool) : (closureBody nested isArrow).Composed nested := by
  refine .ite ?_ (.bind (at?_composed _) fun _ => .ite ?_ ?_)
  · exact .bind expect_composed fun _ => .bind (.inner _) fun _ => .pure _
  · exact .bind (functionBody_composed (.inner 0)) fun _ => .pure _
  · exact .bind expect_composed fun _ => .pure _

theorem armConditions_composed : (armConditions nested).Composed nested := by
  refine .bind accept_composed fun _ => .ite (.pure _) (.untilDone (fun conditions => ?_) _)
  refine .bind (.inner 0) fun _ => .bind accept_composed fun _ => .ite ?_ (.pure _)
  exact .bind (at?_composed _) fun _ => .pure _

theorem rightOperand_composed (op : TokenKind) (precedence : Nat) (associativity : Associativity) :
    (rightOperand nested op precedence associativity).Composed nested := by
  cases associativity with
  | right => exact .inner _
  | left => exact .ite classReference_composed (.inner _)

/-! Statements and files, in which all expressions are nested ones. -/

theorem skippedStatement_composed (pos : Nat) : (skippedStatement pos).Composed nested := by
  refine .bind kind_composed fun firstToken => .bind (.untilDone (fun depth => ?_) _) fun _ => ?_
  · refine .bind kind_composed fun kind => ?_
    split
    · exact .pure _
    · exact .bind .advance fun _ => .pure _
    · exact .bind .advance fun _ => .pure _
    · exact .bind .advance fun _ => .pure _
    · exact .bind .advance fun _ => .pure _
    · exact .bind .advance fun _ => .pure _
    · exact .bind .advance fun _ => .pure _
    · exact .bind .advance fun _ => .pure _
    · exact .ite (.pure _) (.bind .advance fun _ => .pure _)
    · exact .bind .advance fun _ => .pure _
  · exact .addNode _ _ rfl

theorem importKind?_composed : importKind?.Composed nested := by
  refine .bind kind_composed fun kind => ?_
  split
  · exact .bind .advance fun _ => .pure _
  · exact .bind .advance fun _ => .pure _
  · exact .pure _

theorem renamed?_composed : renamed?.Composed nested :=
  .bind accept_composed fun _ => .ite word?_composed (.pure _)

theorem importGroup_composed (kind : ImportKind) (space : String) (known : List ImportItem) :
    (importGroup kind space known).Composed nested := by
  refine .bind (.untilDone (fun items => .bind kind_composed fun kind => ?_) _) fun _ => ?_
  · split
    · exact .pure _
    · exact .pure _
    · refine .bind importKind?_composed fun _ => .bind (ahead?_composed _) fun _ => .ite ?_ ?_
      · refine .bind value_composed fun _ => .bind .advance fun _ => ?_
        exact .bind renamed?_composed fun _ => .bind accept_composed fun _ => .pure _
      · exact .bind (.report _) fun _ => .pure _
  · exact .bind expect_composed fun _ => .pure _

theorem importStatement_composed : importStatement.Composed nested := by
  refine .bind position_composed fun pos => .bind .advance fun _ => ?_
  refine .bind importKind?_composed fun kind => .bind (.untilDone (fun items => ?_) _) fun _ => ?_
  · refine .bind (ahead?_composed _) fun _ => .ite ?_ ?_
    · refine .bind value_composed fun _ => .bind .advance fun _ => ?_
      refine .bind acceptIf_composed fun _ => .ite ?_ ?_
      · refine .bind (importGroup_composed _ _ _) fun _ => .bind accept_composed fun _ => .pure _
      · refine .bind renamed?_composed fun _ => .bind (.pure _) fun _ => ?_
        exact .bind accept_composed fun _ => .pure _
    · exact .bind (reportExpected_composed _) fun _ => .pure _
  · exact .bind expect_composed fun _ => .addNode _ _ rfl

theorem classModifiers_composed : classModifiers.Composed nested := by
  refine .untilDone (fun modifiers => .bind kind_composed fun kind => ?_) _
  split
  · exact .bind .advance fun _ => .pure _
  · exact .pure _

theorem namespaceName_composed : namespaceName.Composed nested :=
  .bind (ahead?_composed _) fun _ =>
    .ite (.bind value_composed fun _ => .bind .advance fun _ => .pure _) (.pure _)

theorem statements_composed {stops : TokenKind → Bool} {braced : Bool}
    {one : Parse (Option NodeId)} (each : one.Composed nested) :
    (statements stops braced one).Composed nested := by
  refine .untilDone (fun list => .bind kind_composed fun kind => .bind .get fun _ => ?_) _
  refine .ite (.pure _) (.ite ?_ ?_)
  · exact .bind (.report _) fun _ => .bind .advance fun _ => .pure _
  · exact .bind each fun _ => .bind .get fun _ => .pure _

/-- Expressions in the statements of a file. -/
abbrev outermost : Nested :=
  expressionWithin (maxDepth + 1)

theorem expression_composed : expression.Composed outermost := .inner 0

theorem constStatement_composed (doc : Option String) :
    (constStatement doc).Composed outermost :=
  .bind position_composed fun _ => .bind .advance fun _ =>
    .bind (constDeclarators_composed expression_composed) fun _ => .bind expect_composed fun _ =>
      .addNode _ _ rfl

theorem functionStatement_composed (doc : Option String) :
    (functionStatement doc).Composed outermost :=
  .bind position_composed fun _ =>
    .bind (functionDecl_composed expression_composed _ _) fun _ => .addNode _ _ rfl

theorem classStatement_composed (doc : Option String) :
    (classStatement doc).Composed outermost := by
  refine .bind classModifiers_composed fun modifiers => .bind position_composed fun pos => ?_
  refine .bind doc_composed fun _ => .bind kind_composed fun _ => .bind .advance fun _ => ?_
  refine .bind word?_composed fun _ => ?_
  exact .bind (classTail_composed expression_composed _ _ _ _) fun _ => .addNode _ _ rfl

theorem expressionStatement_composed : expressionStatement.Composed outermost := by
  refine .bind position_composed fun pos => .bind expression_composed fun inner => ?_
  refine .bind (at?_composed _) fun _ => .ite ?_ (.addNode _ _ rfl)
  exact .bind expect_composed fun _ => .addNode _ _ rfl

theorem statement_composed : statement.Composed outermost := by
  refine .bind position_composed fun pos => .bind docAcrossAttributes_composed fun doc => ?_
  refine .bind kind_composed fun kind => ?_
  split
  · exact .bind .advance fun _ => .pure _
  · exact .pure _
  · exact .pure _
  · exact .bind importStatement_composed fun _ => .pure _
  · exact .bind (constStatement_composed doc) fun _ => .pure _
  · exact .bind (.report _) fun _ => .bind (skippedStatement_composed pos) fun _ => .pure _
  · refine .bind (ahead?_composed _) fun _ => .ite ?_ (.bind (ahead?_composed _) fun _ => ?_)
    · exact .bind (functionStatement_composed doc) fun _ => .pure _
    refine .ite ?_ (.bind (ahead?_composed _) fun _ => .ite ?_ ?_)
    · exact .bind (classStatement_composed doc) fun _ => .pure _
    · exact .bind .halt fun _ => .pure _
    refine .bind (ahead?_composed _) fun _ => .ite ?_ ?_
    · exact .bind expressionStatement_composed fun _ => .pure _
    · exact .bind (skippedStatement_composed pos) fun _ => .pure _

theorem namespaceStatement_composed : namespaceStatement.Composed outermost := by
  refine .bind position_composed fun pos => .bind doc_composed fun doc => .bind .advance fun _ => ?_
  refine .bind namespaceName_composed fun name => .bind accept_composed fun _ => .ite ?_ ?_
  · refine .bind (statements_composed statement_composed) fun _ => ?_
    exact .bind expect_composed fun _ => .addNode _ _ rfl
  · refine .when (.report _) (.bind expect_composed fun _ => ?_)
    exact .bind (statements_composed statement_composed) fun _ => .addNode _ _ rfl

theorem fileStatements_composed : fileStatements.Composed outermost :=
  statements_composed <| .bind (at?_composed _) fun _ =>
    .ite (.bind namespaceStatement_composed fun _ => .pure _) statement_composed

end Grammar

end StaticReflection
