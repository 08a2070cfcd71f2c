import StaticReflection.Proofs.Parser.ShiftedTokens

namespace StaticReflection

open Parse

/-! Types and declarations are parsed in the same way wherever they stand. -/

variable {n : Nat}

namespace Parse

theorem acceptAll_echoes {kind : TokenKind} : EchoesAlike n (acceptAll kind) (acceptAll kind) :=
  untilDone_echoes id fun _ => .same accept_echoes fun _ => .ite (fun _ => .pure) fun _ => .pure

theorem word?_echoes : EchoesAlike n word? word? := by
  unfold word?
  refine .same (ahead?_echoes fun _ => rfl) fun _ => .ite (fun _ => ?_) fun _ => ?_
  · exact .current fun token _ _ _ => .same advance_echoes fun _ => .pure
  · exact .same reportExpected_echoes fun _ => .pure

theorem skipAttributes_echoes : EchoesAlike n skipAttributes skipAttributes := by
  unfold skipAttributes
  refine .same (untilDone_echoes id fun depth => .same kind_echoes fun kind => ?_) fun _ => .pure
  split
  · exact .pure
  · exact .same advance_echoes fun _ => .pure
  · exact .ite (fun _ => .pure) fun _ => .same advance_echoes fun _ => .pure
  · exact .ite (fun _ => .pure) fun _ => .same advance_echoes fun _ => .pure
  · exact .ite (fun _ => .pure) fun _ => .same advance_echoes fun _ => .pure

theorem docAcrossAttributes_echoes : EchoesAlike n docAcrossAttributes docAcrossAttributes := by
  unfold docAcrossAttributes
  refine .same doc_echoes fun before => .same at?_echoes fun _ => .ite (fun _ => ?_) fun _ => .pure
  exact .same skipAttributes_echoes fun _ => .same doc_echoes fun _ => .pure

theorem skipBlock_echoes : EchoesAlike n skipBlock skipBlock := by
  unfold skipBlock
  refine .same (untilDone_echoes id fun depth => .same kind_echoes fun kind => ?_) fun _ => .pure
  split
  · exact .same report_echoes fun _ => .pure
  · exact .same advance_echoes fun _ => .pure
  · exact .same advance_echoes fun _ => .pure
  · exact .same advance_echoes fun _ => .pure

end Parse

namespace Grammar

/-! Types. -/

theorem namedType_echoes : Echoes n (· + n) namedType namedType := by
  unfold namedType
  refine .position fun pos otherPos => .same kind_echoes fun kind => .ite (fun _ => ?_) fun _ => ?_
  · exact .same value_echoes fun name => .same advance_echoes fun _ => addNode_echoes
  · exact .same reportExpected_echoes fun _ => missingNode_echoes

theorem continuesIntersection_bare (cursor : Cursor) :
    continuesIntersection cursor.bare = continuesIntersection cursor := by
  simp [continuesIntersection]

theorem intersectionType_echoes : Echoes n (· + n) intersectionType intersectionType := by
  unfold intersectionType
  refine .position fun pos otherPos => .bind namedType_echoes fun first => ?_
  refine .same (ahead?_echoes continuesIntersection_bare) fun _ => .ite (fun _ => .pure) fun _ => ?_
  refine .bind (untilDone_echoes (List.map (· + n)) fun types => ?_) fun types => addNode_echoes
  refine .same (ahead?_echoes continuesIntersection_bare) fun _ => .ite (fun _ => ?_) fun _ => .pure
  exact .same advance_echoes fun _ => .bind namedType_echoes fun _ => .pureOf (by simp)

theorem closeParens_echoes (count : Nat) :
    EchoesAlike n (closeParens count) (closeParens count) := by
  induction count with
  | zero => exact .pure
  | succ count ih => exact .same expect_echoes fun _ => ih

theorem unionMember_echoes : Echoes n (· + n) unionMember unionMember := by
  unfold unionMember
  refine .same acceptAll_echoes fun parens => .bind intersectionType_echoes fun type => ?_
  exact .same (closeParens_echoes parens) fun _ => .pure

theorem type_echoes : Echoes n (· + n) type type := by
  unfold type
  refine .position fun pos otherPos => .same accept_echoes fun _ => .ite (fun _ => ?_) fun _ => ?_
  · exact .bind namedType_echoes fun inner => addNode_echoes
  refine .bind unionMember_echoes fun first => .same at?_echoes fun _ => ?_
  refine .ite (fun _ => .pure) fun _ => ?_
  refine .bind (untilDone_echoes (List.map (· + n)) fun types => ?_) fun types => addNode_echoes
  refine .same accept_echoes fun _ => .ite (fun _ => ?_) fun _ => .pure
  exact .bind unionMember_echoes fun _ => .pureOf (by simp)

theorem typeAfter_echoes {mark : TokenKind} :
    Echoes n (Option.map (· + n)) (typeAfter mark) (typeAfter mark) :=
  .same accept_echoes fun _ =>
    .ite (fun _ => .bind type_echoes fun _ => .pure) fun _ => .pure

/-! Declarations. -/

theorem isSetVisibility_bare (cursor : Cursor) :
    isSetVisibility cursor.bare = isSetVisibility cursor := by
  simp [isSetVisibility, Cursor.bare_advance]

theorem memberModifiers_echoes : EchoesAlike n memberModifiers memberModifiers := by
  refine untilDone_echoes id fun modifiers => .same kind_echoes fun kind => ?_
  split
  · exact .pure
  · refine .when report_echoes (.same advance_echoes fun _ => .same at?_echoes fun _ => ?_)
    refine .same (ahead?_echoes isSetVisibility_bare) fun _ => ?_
    refine .ite (fun _ => .same advance_echoes fun _ => ?_) fun _ => .pure
    exact .same advance_echoes fun _ => .same advance_echoes fun _ => .pure

theorem parameterType_echoes :
    Echoes n (Option.map (· + n)) parameterType parameterType := by
  unfold parameterType
  refine .same kind_echoes fun kind => ?_
  split
  · exact .pure
  · exact .pure
  · exact .pure
  · exact .bind type_echoes fun _ => .pure

theorem nameList_echoes : EchoesAlike n nameList nameList := by
  refine untilDone_echoes id fun names => .same (ahead?_echoes fun _ => rfl) fun _ => ?_
  refine .ite (fun _ => .same value_echoes fun _ => ?_) fun _ => ?_
  · exact .same advance_echoes fun _ => .same accept_echoes fun _ => .pure
  · exact .same reportExpected_echoes fun _ => .pure

theorem namesAfter_echoes {keyword : TokenKind} :
    EchoesAlike n (namesAfter keyword) (namesAfter keyword) :=
  .same accept_echoes fun _ => .ite (fun _ => nameList_echoes) fun _ => .pure

theorem blockOrSemicolon_echoes : EchoesAlike n blockOrSemicolon blockOrSemicolon :=
  .same at?_echoes fun _ =>
    .ite (fun _ => skipBlock_echoes) fun _ => .same expect_echoes fun _ => .pure

theorem traitUse_echoes : Echoes n (· + n) traitUse traitUse := by
  unfold traitUse
  refine .position fun pos otherPos => .same advance_echoes fun _ => ?_
  refine .same nameList_echoes fun traits => .same blockOrSemicolon_echoes fun _ => ?_
  exact addNode_echoes

theorem isUntypedConst_bare (cursor : Cursor) :
    isUntypedConst cursor.bare = isUntypedConst cursor := by
  simp [isUntypedConst]

/-- Static variables with larger numbers. -/
def BodyScan.map (f : NodeId → NodeId) (scan : BodyScan) : BodyScan :=
  { scan with statics := scan.statics.map (·.map f) }

section Declarations

variable {expr : Parse NodeId} (inner : Echoes n (· + n) expr expr)
include inner

theorem initializer_echoes :
    Echoes n (Option.map (· + n)) (initializer expr) (initializer expr) :=
  .same accept_echoes fun _ => .ite (fun _ => .bind inner fun _ => .pure) fun _ => .pure

theorem parameter_echoes : Echoes n (· + n) (parameter expr) (parameter expr) := by
  unfold parameter
  refine .same docAcrossAttributes_echoes fun doc => .position fun pos otherPos => ?_
  refine .same memberModifiers_echoes fun modifiers => .bind parameterType_echoes fun type => ?_
  refine .same accept_echoes fun byRef => .same accept_echoes fun variadic => ?_
  refine .same value_echoes fun name => .same expect_echoes fun named => ?_
  refine .bind (initializer_echoes inner) fun default => .same at?_echoes fun hooks => ?_
  exact .when skipBlock_echoes addNode_echoes

theorem parameterList_echoes :
    Echoes n (List.map (· + n)) (parameterList expr) (parameterList expr) := by
  unfold parameterList
  refine .same expect_echoes fun _ => .ite (fun _ => .pure) fun _ => ?_
  refine .bind (untilDone_echoes (List.map (· + n)) fun parameters => ?_) fun _ => ?_
  · refine .same kind_echoes fun kind => ?_
    split
    · exact .pure
    · exact .pure
    · exact .bind (parameter_echoes inner) fun _ => .same accept_echoes fun _ => .pureOf (by simp)
  · exact .same expect_echoes fun _ => .pure

theorem staticVariables_echoes (known : List StaticVariable) :
    Echoes n (List.map (StaticVariable.map (· + n))) (staticVariables expr known)
      (staticVariables expr (known.map (StaticVariable.map (· + n)))) := by
  unfold staticVariables
  refine .bind (untilDone_echoes (List.map (StaticVariable.map (· + n))) fun statics => ?_)
    fun _ => .same accept_echoes fun _ => .pure
  refine .same at?_echoes fun _ => .ite (fun _ => ?_) fun _ => .pure
  refine .same value_echoes fun name => .same advance_echoes fun _ => ?_
  refine .bind (initializer_echoes inner) fun _ => .same accept_echoes fun _ => ?_
  exact .pureOf (by simp [StaticVariable.map])

theorem bodyStep_echoes (scan : BodyScan) :
    Echoes n (Prod.map (BodyScan.map (· + n)) id) (bodyStep expr scan)
      (bodyStep expr (scan.map (· + n))) := by
  unfold bodyStep
  refine .same kind_echoes fun kind => ?_
  dsimp only
  split
  · exact .same report_echoes fun _ => .pure
  · exact .same advance_echoes fun _ => .pure
  · exact .same advance_echoes fun _ => .pure
  · exact .same advance_echoes fun _ => .pure
  · exact .same advance_echoes fun _ => .pure
  · refine .same (ahead?_echoes fun cursor => by simp) fun _ => .same advance_echoes fun _ => ?_
    refine .ite (fun _ => ?_) fun _ => .pure
    exact .bind (staticVariables_echoes inner _) fun _ => .pure
  · exact .same advance_echoes fun _ => .pure
  · exact .same advance_echoes fun _ => .pure

theorem functionBody_echoes :
    Echoes n (BodyScan.map (· + n)) (functionBody expr) (functionBody expr) :=
  untilDone_echoes (BodyScan.map (· + n)) (bodyStep_echoes inner)

theorem functionDecl_echoes (modifiers : WrittenModifiers) (doc : Option String) :
    Echoes n (FunctionDecl.map (· + n)) (functionDecl expr modifiers doc)
      (functionDecl expr modifiers doc) := by
  unfold functionDecl
  refine .same expect_echoes fun _ => .same accept_echoes fun _ => .same word?_echoes fun _ => ?_
  refine .bind (parameterList_echoes inner) fun _ => .bind typeAfter_echoes fun _ => ?_
  refine .same at?_echoes fun _ => .ite (fun _ => ?_) fun _ => ?_
  · exact .bind (functionBody_echoes inner) fun _ => .pure
  · exact .same expect_echoes fun _ => .pure

theorem constDeclarators_echoes :
    Echoes n (List.map (· + n)) (constDeclarators expr) (constDeclarators expr) := by
  refine untilDone_echoes (List.map (· + n)) fun declarators => .position fun pos otherPos => ?_
  refine .same word?_echoes fun name => ?_
  cases name with
  | none => exact .pure
  | some name =>
      refine .same expect_echoes fun _ => .join inner missingNode_echoes fun value => ?_
      exact .bind addNode_echoes fun _ => .same accept_echoes fun _ => .pureOf (by simp)

theorem classConst_echoes (pos otherPos : Nat) (modifiers : WrittenModifiers)
    (doc : Option String) :
    Echoes n (· + n) (classConst expr pos modifiers doc)
      (classConst expr otherPos modifiers doc) := by
  unfold classConst
  refine .same advance_echoes fun _ => .same (ahead?_echoes isUntypedConst_bare) fun _ => ?_
  refine .join .none (.some type_echoes) fun type => ?_
  refine .bind (constDeclarators_echoes inner) fun declarators => ?_
  exact .same expect_echoes fun _ => addNode_echoes

theorem propertyDeclarators_echoes :
    Echoes n (List.map (· + n)) (propertyDeclarators expr) (propertyDeclarators expr) := by
  refine untilDone_echoes (List.map (· + n)) fun declarators => .position fun pos otherPos => ?_
  refine .same value_echoes fun name => .same expect_echoes fun _ => ?_
  refine .ite (fun _ => ?_) fun _ => .pure
  refine .bind (initializer_echoes inner) fun _ => .bind addNode_echoes fun _ => ?_
  exact .same accept_echoes fun _ => .pureOf (by simp)

theorem property_echoes (pos otherPos : Nat) (modifiers : WrittenModifiers)
    (doc : Option String) :
    Echoes n (· + n) (property expr pos modifiers doc) (property expr otherPos modifiers doc) := by
  unfold property
  refine .same at?_echoes fun _ => ?_
  refine .join .none (.some type_echoes) fun type => ?_
  refine .bind (propertyDeclarators_echoes inner) fun _ => .same blockOrSemicolon_echoes fun _ => ?_
  exact addNode_echoes

theorem enumCase_echoes (doc : Option String) :
    Echoes n (Option.map (· + n)) (enumCase expr doc) (enumCase expr doc) := by
  unfold enumCase
  refine .position fun pos otherPos => .same advance_echoes fun _ => ?_
  refine .same word?_echoes fun name => ?_
  cases name with
  | none => exact .pure
  | some name =>
      refine .bind (initializer_echoes inner) fun _ => .same expect_echoes fun _ => ?_
      exact .bind addNode_echoes fun _ => .pure

theorem modifiedMember_echoes (doc : Option String) :
    Echoes n (Option.map (· + n)) (modifiedMember expr doc) (modifiedMember expr doc) := by
  unfold modifiedMember
  refine .position fun pos otherPos => .same memberModifiers_echoes fun modifiers => ?_
  refine .same kind_echoes fun kind => ?_
  split
  · exact .bind (classConst_echoes inner _ _ _ _) fun _ => .pure
  · refine .position fun _ _ => .same doc_echoes fun _ => ?_
    exact .bind (functionDecl_echoes inner _ _) fun _ => .bind addNode_echoes fun _ => .pure
  · refine .ite (fun _ => .bind (property_echoes inner _ _ _ _) fun _ => .pure) fun _ => ?_
    refine .same found_echoes fun _ => .same report_echoes fun _ => ?_
    exact .same advance_echoes fun _ => .pure

theorem classMembers_echoes :
    Echoes n (List.map (· + n)) (classMembers expr) (classMembers expr) := by
  refine untilDone_echoes (List.map (· + n)) fun members => .same kind_echoes fun kind => ?_
  split
  · exact .pure
  · exact .pure
  · exact .same advance_echoes fun _ => .pure
  · refine .same docAcrossAttributes_echoes fun doc => .same kind_echoes fun kind => ?_
    dsimp only
    split
    · exact .bind (.some traitUse_echoes) fun _ =>
        .pureOf (by simp [Option.toList_map])
    · exact .bind (enumCase_echoes inner doc) fun _ => .pureOf (by simp [Option.toList_map])
    · exact .bind (modifiedMember_echoes inner doc) fun _ => .pureOf (by simp [Option.toList_map])

theorem classTail_echoes (kind : ClassKind) (name : String) (modifiers : WrittenModifiers)
    (doc : Option String) :
    Echoes n (ClassDecl.map (· + n)) (classTail expr kind name modifiers doc)
      (classTail expr kind name modifiers doc) := by
  unfold classTail
  refine .join typeAfter_echoes .pure fun backingType => .same namesAfter_echoes fun parents => ?_
  refine .when report_echoes (.same namesAfter_echoes fun interfaces => ?_)
  refine .same expect_echoes fun _ => .bind (classMembers_echoes inner) fun members => ?_
  exact .same expect_echoes fun _ => .pure

end Declarations

end Grammar

end StaticReflection
