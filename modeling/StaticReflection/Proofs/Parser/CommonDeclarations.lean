import StaticReflection.Proofs.Parser.CommonTokens
import StaticReflection.Proofs.Parser.ExpressionProgress

namespace StaticReflection

open Parse

variable {fork : Fork} {room : Nat} {halts : Prop}

/-! Types and declarations are parsed alike as long as the word that ends the code is not
consumed. -/

namespace Parse

theorem acceptAll_agrees {kind : TokenKind} : (acceptAll kind).Agrees fork room halts :=
  untilDone_agrees fun _ => .accept fun _ => .ite (fun _ => .pure) fun _ => .pure

theorem word?_agrees : word?.Agrees fork room halts := by
  unfold word?
  refine .look (ahead?_looks fun _ _ => rfl) fun _ => .ite (fun _ => ?_) fun _ => ?_
  · exact .look current_looks fun _ => .bind advance_agrees fun _ => .pure
  · exact .bind reportExpected_agrees fun _ => .pure

theorem word?_spends : word?.Spends room := by
  intro s ready halts quiet
  have word : s.cursor.isWord = true := by
    rw [Cursor.isWord, Cursor.kind, halts.1]
    rfl
  have next : word?.next s = advance.next s := by
    unfold word?
    rw [next_bind, result_ahead?, word]
    rfl
  rw [next]
  exact advance_spends s ready halts quiet

theorem skipAttributes_agrees : skipAttributes.Agrees fork room halts := by
  unfold skipAttributes
  refine .bind (untilDone_agrees fun depth => .look kind_looks fun kind => ?_) fun _ => .pure
  split
  · exact .pure
  · exact .bind advance_agrees fun _ => .pure
  · exact .ite (fun _ => .pure) fun _ => .bind advance_agrees fun _ => .pure
  · exact .ite (fun _ => .pure) fun _ => .bind advance_agrees fun _ => .pure
  · exact .ite (fun _ => .pure) fun _ => .bind advance_agrees fun _ => .pure

theorem docAcrossAttributes_agrees : docAcrossAttributes.Agrees fork room halts := by
  unfold docAcrossAttributes
  refine .look doc_looks fun _ => .look (at?_looks _) fun _ => .ite (fun _ => ?_) fun _ => .pure
  exact .bind skipAttributes_agrees fun _ => .look doc_looks fun _ => .pure

theorem skipBlock_agrees : skipBlock.Agrees fork room halts := by
  unfold skipBlock
  refine .bind (untilDone_agrees fun depth => .look kind_looks fun kind => ?_) fun _ => .pure
  split
  · exact .bind report_agrees fun _ => .pure
  · exact .bind advance_agrees fun _ => .pure
  · exact .bind advance_agrees fun _ => .pure
  · exact .bind advance_agrees fun _ => .pure

end Parse

namespace Grammar

/-! Types. -/

theorem namedType_agrees : namedType.Agrees fork room halts := by
  unfold namedType
  refine .look position_looks fun pos => .look kind_looks fun kind => .ite (fun _ => ?_) fun _ => ?_
  · exact .look value_looks fun name => .bind advance_agrees fun _ => addNode_agrees
  · exact .bind reportExpected_agrees fun _ => missingNode_agrees

theorem continuesIntersection_near : LooksOneAhead continuesIntersection :=
  ⟨fun token next => token.kind == .ampersand && next != .variableName && next != .dotDotDot,
    fun _ => rfl⟩

theorem continuesIntersection_other (cursor : Cursor) (halts : cursor.current.Halts) :
    continuesIntersection cursor = false := by
  rw [continuesIntersection, Cursor.kind, halts.1]
  rfl

theorem intersectionType_agrees : intersectionType.Agrees fork room halts := by
  unfold intersectionType
  refine .look position_looks fun pos => .bind namedType_agrees fun first => ?_
  refine .aheadOther continuesIntersection_near continuesIntersection_other fun _ => ?_
  refine .ite (fun _ => .pure) fun _ => .bind (untilDone_agrees fun types => ?_) fun _ =>
    addNode_agrees
  refine .aheadOther continuesIntersection_near continuesIntersection_other fun _ => ?_
  refine .ite (fun _ => ?_) fun _ => .pure
  exact .bind advance_agrees fun _ => .bind namedType_agrees fun _ => .pure

theorem closeParens_agrees (count : Nat) : (closeParens count).Agrees fork room halts := by
  induction count with
  | zero => exact .pure
  | succ count ih => exact .bind expect_agrees fun _ => ih

theorem unionMember_agrees : unionMember.Agrees fork room halts := by
  unfold unionMember
  refine .bind acceptAll_agrees fun parens => .bind intersectionType_agrees fun type => ?_
  exact .bind (closeParens_agrees parens) fun _ => .pure

theorem type_agrees : type.Agrees fork room halts := by
  unfold type
  refine .look position_looks fun pos => .accept fun _ => .ite (fun _ => ?_) fun _ => ?_
  · exact .bind namedType_agrees fun inner => addNode_agrees
  refine .bind unionMember_agrees fun first => .look (at?_looks _) fun _ => ?_
  refine .ite (fun _ => .pure) fun _ => .bind (untilDone_agrees fun types => ?_) fun _ =>
    addNode_agrees
  exact .accept fun _ => .ite (fun _ => .bind unionMember_agrees fun _ => .pure) fun _ => .pure

theorem typeAfter_agrees {mark : TokenKind} : (typeAfter mark).Agrees fork room halts :=
  .accept fun _ => .ite (fun _ => .bind type_agrees fun _ => .pure) fun _ => .pure

/-! Declarations. -/

/-- The word that ends the code is no parenthesis, and it is not what stands in one. -/
theorem isSetVisibility_settled {s t : ParseState} (paired : s.Paired fork room t) (live : s.Live)
    (visible : Bool) :
    (visible && (t.cursor.kind == .openParen) && isSetVisibility t.cursor) =
      (visible && (s.cursor.kind == .openParen) && isSetVisibility s.cursor) := by
  have same : t.cursor.kind = s.cursor.kind := by
    obtain ⟨shared, -, rfl⟩ := paired.shared
    rfl
  rw [same]
  by_cases paren : s.cursor.kind = .openParen
  · have other : ¬ s.cursor.current.Halts := fun halts => nomatch halts.1.symm.trans paren
    obtain ⟨liveNext, pairedNext⟩ := paired_advance paired live other
    congr 1
    have near : LooksOneAhead fun inner => inner.kind == .identifier &&
        sameFolded inner.current.value "set" && inner.peek == .closeParen :=
      ⟨fun token next => token.kind == .identifier && sameFolded token.value "set" &&
        next == .closeParen, fun _ => rfl⟩
    refine near.settled (fun cursor halts => ?_) pairedNext liveNext
    rw [halts.sameFolded_eq_false (by decide), Bool.and_false, Bool.false_and]
  · rw [beq_false_of_ne paren, Bool.and_false, Bool.false_and, Bool.false_and]

theorem memberModifiers_agrees : memberModifiers.Agrees fork room halts := by
  refine untilDone_agrees fun modifiers => .look kind_looks fun kind => ?_
  split
  · exact .pure
  · rename_i modifier _
    refine .when report_agrees (.bind advance_agrees fun _ => ?_)
    -- the two tests are made one after the other, but only their conjunction counts
    change (ahead? (fun cursor => modifier.hasVisibility && (cursor.kind == .openParen) &&
      isSetVisibility cursor) >>= fun opens => if opens = true then
        advance >>= fun _ => advance >>= fun _ => advance >>= fun _ =>
          pure (modifiers.union modifier, true)
      else pure (modifiers.union modifier, true)).Agrees fork room halts
    refine .aheadLive (fun paired live => isSetVisibility_settled paired live _) fun _ => ?_
    refine .ite (fun _ => .bind advance_agrees fun _ => ?_) fun _ => .pure
    exact .bind advance_agrees fun _ => .bind advance_agrees fun _ => .pure

theorem parameterType_agrees : parameterType.Agrees fork room halts := by
  unfold parameterType
  refine .look kind_looks fun kind => ?_
  split
  · exact .pure
  · exact .pure
  · exact .pure
  · exact .bind type_agrees fun _ => .pure

theorem nameList_agrees : nameList.Agrees fork room halts := by
  refine untilDone_agrees fun names => .look (ahead?_looks fun _ _ => rfl) fun _ =>
    .ite (fun _ => ?_) fun _ => ?_
  · exact .look value_looks fun _ => .bind advance_agrees fun _ => .accept fun _ => .pure
  · exact .bind reportExpected_agrees fun _ => .pure

theorem namesAfter_agrees {keyword : TokenKind} : (namesAfter keyword).Agrees fork room halts :=
  .accept fun _ => .ite (fun _ => nameList_agrees) fun _ => .pure

theorem blockOrSemicolon_agrees : blockOrSemicolon.Agrees fork room halts :=
  .look (at?_looks _) fun _ =>
    .ite (fun _ => skipBlock_agrees) fun _ => .bind expect_agrees fun _ => .pure

theorem traitUse_agrees : traitUse.Agrees fork room halts := by
  unfold traitUse
  refine .look position_looks fun pos => .bind advance_agrees fun _ => ?_
  refine .bind nameList_agrees fun traits => .bind blockOrSemicolon_agrees fun _ => ?_
  exact addNode_agrees

/-- One declarator after others, with what was found as its name. -/
def constDeclarator (expr : Parse NodeId) (declarators : List NodeId) (pos : Nat) :
    Option String → Parse (List NodeId × Bool)
  | none => return (declarators, false)
  | some name => do
      let value ← if ← expect .equals then expr else missingNode
      let declarator ← addNode (.constDeclarator name value) pos
      return (declarators ++ [declarator], ← accept .comma)

theorem constDeclarators_eq (expr : Parse NodeId) :
    constDeclarators expr = untilDone [] (fun declarators => position >>= fun pos =>
      word? >>= constDeclarator expr declarators pos) := rfl

theorem isUntypedConst_near : LooksOneAhead isUntypedConst :=
  ⟨fun token next => token.kind.isWord && next == .equals, fun _ => rfl⟩

section Declarations

variable {expr : Parse NodeId} (inner : expr.Agrees fork room halts)
include inner

theorem initializer_agrees : (initializer expr).Agrees fork room halts :=
  .accept fun _ => .ite (fun _ => .bind inner fun _ => .pure) fun _ => .pure

theorem parameter_agrees : (parameter expr).Agrees fork room halts := by
  unfold parameter
  refine .bind docAcrossAttributes_agrees fun doc => .look position_looks fun pos => ?_
  refine .bind memberModifiers_agrees fun modifiers => .bind parameterType_agrees fun type => ?_
  refine .accept fun byRef => .accept fun variadic => .look value_looks fun name => ?_
  refine .bind expect_agrees fun named => .bind (initializer_agrees inner) fun default => ?_
  exact .look (at?_looks _) fun hooks => .when skipBlock_agrees addNode_agrees

theorem parameterList_agrees : (parameterList expr).Agrees fork room halts := by
  unfold parameterList
  refine .bind expect_agrees fun _ => .ite (fun _ => .pure) fun _ => ?_
  refine .bind (untilDone_agrees fun parameters => .look kind_looks fun kind => ?_) fun _ => ?_
  · split
    · exact .pure
    · exact .pure
    · exact .bind (parameter_agrees inner) fun _ => .accept fun _ => .pure
  · exact .bind expect_agrees fun _ => .pure

theorem staticVariables_agrees (known : List StaticVariable) :
    (staticVariables expr known).Agrees fork room halts := by
  unfold staticVariables
  refine .bind (untilDone_agrees fun statics => ?_) fun _ => .accept fun _ => .pure
  refine .look (at?_looks _) fun _ => .ite (fun _ => ?_) fun _ => .pure
  refine .look value_looks fun name => .bind advance_agrees fun _ => ?_
  exact .bind (initializer_agrees inner) fun _ => .accept fun _ => .pure

theorem bodyStep_agrees (scan : BodyScan) : (bodyStep expr scan).Agrees fork room halts := by
  unfold bodyStep
  refine .look kind_looks fun kind => ?_
  dsimp only
  split
  · exact .bind report_agrees fun _ => .pure
  · exact .bind advance_agrees fun _ => .pure
  · exact .bind advance_agrees fun _ => .pure
  · exact .bind advance_agrees fun _ => .pure
  · exact .bind advance_agrees fun _ => .pure
  · refine .aheadAdvance ⟨fun _ next => next == .variableName, fun _ => rfl⟩ fun _ => ?_
    refine .ite (fun _ => ?_) fun _ => .pure
    exact .bind (staticVariables_agrees inner _) fun _ => .pure
  · exact .bind advance_agrees fun _ => .pure
  · exact .bind advance_agrees fun _ => .pure

theorem functionBody_agrees : (functionBody expr).Agrees fork room halts :=
  untilDone_agrees (bodyStep_agrees inner)

theorem functionDecl_agrees (modifiers : WrittenModifiers) (doc : Option String) :
    (functionDecl expr modifiers doc).Agrees fork room halts := by
  unfold functionDecl
  refine .bind expect_agrees fun _ => .accept fun _ => .bind word?_agrees fun _ => ?_
  refine .bind (parameterList_agrees inner) fun _ => .bind typeAfter_agrees fun _ => ?_
  refine .look (at?_looks _) fun _ => .ite (fun _ => ?_) fun _ => ?_
  · exact .bind (functionBody_agrees inner) fun _ => .pure
  · exact .bind expect_agrees fun _ => .pure

theorem constDeclarator_agrees (declarators : List NodeId) (pos : Nat) (name : Option String) :
    (constDeclarator expr declarators pos name).Agrees fork room halts := by
  cases name with
  | none => exact .pure
  | some name =>
      refine .bind expect_agrees fun _ => .join inner missingNode_agrees fun value => ?_
      exact .bind addNode_agrees fun _ => .accept fun _ => .pure

theorem constDeclarators_agrees : (constDeclarators expr).Agrees fork room halts := by
  rw [constDeclarators_eq]
  exact untilDone_agrees fun declarators => .look position_looks fun pos =>
    .bind word?_agrees (constDeclarator_agrees inner declarators pos)

theorem constDeclarators_spends : (constDeclarators expr).Spends room := by
  rw [constDeclarators_eq]
  refine untilDone_spends (fun declarators => .look position_looks fun pos =>
    .bind word?_agrees (constDeclarator_agrees inner declarators pos)) ?_
  exact .still position_still fun pos => .first word?_spends (constDeclarator_agrees inner [] pos)

theorem classConst_agrees (pos : Nat) (modifiers : WrittenModifiers) (doc : Option String) :
    (classConst expr pos modifiers doc).Agrees fork room halts := by
  have declared (type : Option NodeId) (declarators : List NodeId) : (do
      let _ ← expect .semicolon
      addNode (.classConst { modifiers, type, declarators, doc }) pos).Agrees fork room halts :=
    .bind expect_agrees fun _ => addNode_agrees
  have typed (type : Option NodeId) := Agrees.bind (constDeclarators_agrees inner) (declared type)
  have spends : type.Spends room :=
    .of_consumes type_consumes rfl (type_agrees : type.Agrees fork room halts)
  unfold classConst
  refine .bind advance_agrees fun _ => .aheadSpent isUntypedConst_near (fun _ => ?_) fun _ => ?_
  · refine .ite (fun _ => .still (pure_still _) fun type => ?_) fun _ => .first spends.map typed
    exact .first (constDeclarators_spends inner) (declared type)
  · exact .join .pure (.map type_agrees) typed

theorem propertyDeclarators_agrees : (propertyDeclarators expr).Agrees fork room halts := by
  refine untilDone_agrees fun declarators => .look position_looks fun pos => ?_
  refine .look value_looks fun name => .bind expect_agrees fun _ => .ite (fun _ => ?_) fun _ =>
    .pure
  refine .bind (initializer_agrees inner) fun _ => .bind addNode_agrees fun _ => ?_
  exact .accept fun _ => .pure

theorem property_agrees (pos : Nat) (modifiers : WrittenModifiers) (doc : Option String) :
    (property expr pos modifiers doc).Agrees fork room halts := by
  unfold property
  refine .look (at?_looks _) fun _ => .join .pure (.map type_agrees) fun type => ?_
  refine .bind (propertyDeclarators_agrees inner) fun _ => .bind blockOrSemicolon_agrees fun _ => ?_
  exact addNode_agrees

theorem enumCase_agrees (doc : Option String) : (enumCase expr doc).Agrees fork room halts := by
  unfold enumCase
  refine .look position_looks fun pos => .bind advance_agrees fun _ =>
    .bind word?_agrees fun name => ?_
  cases name with
  | none => exact .pure
  | some name =>
      refine .bind (initializer_agrees inner) fun _ => .bind expect_agrees fun _ => ?_
      exact .bind addNode_agrees fun _ => .pure

theorem modifiedMember_agrees (doc : Option String) :
    (modifiedMember expr doc).Agrees fork room halts := by
  unfold modifiedMember
  refine .look position_looks fun pos => .bind memberModifiers_agrees fun modifiers => ?_
  refine .look kind_looks fun kind => ?_
  split
  · exact .bind (classConst_agrees inner _ _ _) fun _ => .pure
  · refine .look position_looks fun _ => .look doc_looks fun _ => ?_
    exact .bind (functionDecl_agrees inner _ _) fun _ => .bind addNode_agrees fun _ => .pure
  · refine .ite (fun _ => .bind (property_agrees inner _ _ _) fun _ => .pure) fun _ => ?_
    refine .look found_looks fun _ => .bind report_agrees fun _ => ?_
    exact .bind advance_agrees fun _ => .pure

theorem classMembers_agrees : (classMembers expr).Agrees fork room halts := by
  refine untilDone_agrees fun members => .look kind_looks fun kind => ?_
  split
  · exact .pure
  · exact .pure
  · exact .bind advance_agrees fun _ => .pure
  · refine .bind docAcrossAttributes_agrees fun doc => .look kind_looks fun kind => ?_
    dsimp only
    split
    · exact .bind (.map traitUse_agrees) fun _ => .pure
    · exact .bind (enumCase_agrees inner doc) fun _ => .pure
    · exact .bind (modifiedMember_agrees inner doc) fun _ => .pure

theorem classTail_agrees (kind : ClassKind) (name : String) (modifiers : WrittenModifiers)
    (doc : Option String) : (classTail expr kind name modifiers doc).Agrees fork room halts := by
  unfold classTail
  refine .join typeAfter_agrees .pure fun backingType => .bind namesAfter_agrees fun parents => ?_
  refine .when report_agrees (.bind namesAfter_agrees fun interfaces => ?_)
  refine .bind expect_agrees fun _ => .bind (classMembers_agrees inner) fun members => ?_
  exact .bind expect_agrees fun _ => .pure

end Declarations

end Grammar

end StaticReflection
