import StaticReflection.Proofs.Parser.OpenNodes

namespace StaticReflection

open Parse

variable {limit pos : Nat} {kept : Shelf}

/-! What types and declarations leave on the shelf. -/

namespace Parse

theorem acceptAll_turns {kind : TokenKind} : (acceptAll kind).Turns limit kept fun _ => kept :=
  untilDone_turns (fun _ => kept) fun _ =>
    .bind accept_turns fun _ => .ite (fun _ => .pure rfl) fun _ => .pure rfl

theorem word?_begins : word?.Turns limit (.mark pos :: kept) fun name =>
    name.elim (.fault :: .mark pos :: kept) fun _ => .begun pos :: kept := by
  unfold word?
  refine .look (next_ahead? _) fun _ => .ite (fun _ => ?_) fun _ => ?_
  · exact .look next_current fun _ => .bind (advance_begins []) fun _ => .pure rfl
  · exact .bind (reportExpected_turns _) fun _ => .pure rfl

theorem word?_turns : word?.Turns limit kept fun _ => kept := by
  unfold word?
  refine .look (next_ahead? _) fun _ => .ite (fun _ => ?_) fun _ => ?_
  · exact .look next_current fun _ => .bind advance_turns fun _ => .pure rfl
  · exact .bind (reportExpected_turns _) fun _ => .drop (.pure rfl)

theorem skipAttributes_turns : skipAttributes.Turns limit kept fun _ => kept := by
  unfold skipAttributes
  refine .bind (untilDone_turns (fun _ => kept) fun depth => ?_) fun _ => .pure rfl
  refine .look next_kind fun kind => ?_
  split
  · exact .pure rfl
  · exact .bind advance_turns fun _ => .pure rfl
  · exact .ite (fun _ => .pure rfl) fun _ => .bind advance_turns fun _ => .pure rfl
  · exact .ite (fun _ => .pure rfl) fun _ => .bind advance_turns fun _ => .pure rfl
  · exact .ite (fun _ => .pure rfl) fun _ => .bind advance_turns fun _ => .pure rfl

theorem docAcrossAttributes_turns : docAcrossAttributes.Turns limit kept fun _ => kept := by
  unfold docAcrossAttributes
  refine .look next_doc fun _ => .look (next_at? _) fun _ => .ite (fun _ => ?_) fun _ => .pure rfl
  exact .bind skipAttributes_turns fun _ => .look next_doc fun _ => .pure rfl

theorem skipBlock_begins (ids : List NodeId) :
    skipBlock.Turns limit (nodes ids (.mark pos :: kept))
      fun _ => nodes ids (.begun pos :: kept) := by
  unfold skipBlock
  refine .bind (untilDone_turnsAt (fun _ => nodes ids (.begun pos :: kept)) (fun depth => ?_) ?_)
    fun _ => .pure rfl
  · refine .look next_kind fun kind => ?_
    split
    · exact .bind (report_turns _) fun _ => .drop (.pure rfl)
    · exact .bind advance_turns fun _ => .pure rfl
    · exact .bind advance_turns fun _ => .pure rfl
    · exact .bind advance_turns fun _ => .pure rfl
  · refine .look next_kind fun kind => ?_
    split
    · exact .bind (report_turns _) fun _ => .faulty ids (.pure rfl)
    · exact .bind (advance_begins ids) fun _ => .pure rfl
    · exact .bind (advance_begins ids) fun _ => .pure rfl
    · exact .bind (advance_begins ids) fun _ => .pure rfl

theorem skipBlock_turns : skipBlock.Turns limit kept fun _ => kept :=
  fun s _ holds => (skipBlock_begins [] s trivial holds.mark).sublist (List.sublist_cons_self _ _)

end Parse

namespace Grammar

/-! Types. -/

theorem namedType_turns : namedType.Turns limit kept fun id => .node id :: kept := by
  unfold namedType
  refine .fromHere fun pos => .look next_kind fun kind => .ite (fun _ => ?_) fun _ => ?_
  · exact .look next_value fun name => .bind (advance_begins []) fun _ => addNode_begun nofun
  · exact .bind (reportExpected_turns _) fun _ => missingNode_turns

theorem intersectionType_turns : intersectionType.Turns limit kept fun id => .node id :: kept := by
  unfold intersectionType
  refine .fromHere fun pos => .bind namedType_turns fun first => ?_
  refine .look (next_ahead? _) fun _ => .ite (fun _ => .pure rfl) fun _ => .under ?_
  refine .bind (untilDone_turns (fun types => nodes types (.begun pos :: kept)) fun types => ?_)
    fun types => addNode_begun nofun
  refine .look (next_ahead? _) fun _ => .ite (fun _ => ?_) fun _ => .pure rfl
  exact .bind advance_turns fun _ => .bind namedType_turns fun _ => .pure (by simp)

theorem closeParens_turns (count : Nat) : (closeParens count).Turns limit kept fun _ => kept := by
  induction count with
  | zero => exact .pure rfl
  | succ count ih => exact .bind expect_turns fun _ => ih

theorem unionMember_turns : unionMember.Turns limit kept fun id => .node id :: kept := by
  unfold unionMember
  refine .bind acceptAll_turns fun parens => .bind intersectionType_turns fun type => ?_
  exact .bind (closeParens_turns parens) fun _ => .pure rfl

theorem type_turns : type.Turns limit kept fun id => .node id :: kept := by
  unfold type
  refine .fromHere fun pos => .bind accept_turns fun _ => .ite (fun _ => ?_) fun _ => ?_
  · exact .bind namedType_turns fun inner => addNode_over nofun
  refine .bind unionMember_turns fun first => ?_
  refine .look (next_at? _) fun _ => .ite (fun _ => .pure rfl) fun _ => .under ?_
  refine .bind (untilDone_turns (fun types => nodes types (.begun pos :: kept)) fun types => ?_)
    fun types => addNode_begun nofun
  refine .bind accept_turns fun _ => .ite (fun _ => ?_) fun _ => .pure rfl
  exact .bind unionMember_turns fun _ => .pure (by simp)

theorem typeAfter_turns {mark : TokenKind} :
    (typeAfter mark).Turns limit kept fun type => nodes type.toList kept :=
  .bind accept_turns fun _ =>
    .ite (fun _ => .bind type_turns fun _ => .pure rfl) fun _ => .pure rfl

/-! Declarations, given that the expressions in them leave their nodes. -/

theorem memberModifiers_turns : memberModifiers.Turns limit kept fun _ => kept := by
  refine untilDone_turns (fun _ => kept) fun modifiers => .look next_kind fun kind => ?_
  split
  · exact .pure rfl
  · refine .when (fun _ => report_keeps _) (.bind advance_turns fun _ => ?_)
    refine .look (next_at? _) fun _ => .look (next_ahead? _) fun _ =>
      .ite (fun _ => ?_) fun _ => .pure rfl
    refine .bind advance_turns fun _ => .bind advance_turns fun _ => ?_
    exact .bind advance_turns fun _ => .pure rfl

theorem parameterType_turns :
    parameterType.Turns limit kept fun type => nodes type.toList kept := by
  unfold parameterType
  refine .look next_kind fun kind => ?_
  split
  · exact .pure rfl
  · exact .pure rfl
  · exact .pure rfl
  · exact .bind type_turns fun _ => .pure rfl

theorem nameList_turns : nameList.Turns limit kept fun _ => kept := by
  refine untilDone_turns (fun _ => kept) fun names => .look (next_ahead? _) fun _ => ?_
  refine .ite (fun _ => .look next_value fun _ => .bind advance_turns fun _ => ?_) fun _ => ?_
  · exact .bind accept_turns fun _ => .pure rfl
  · exact .bind (reportExpected_turns _) fun _ => .drop (.pure rfl)

theorem namesAfter_turns {keyword : TokenKind} :
    (namesAfter keyword).Turns limit kept fun _ => kept :=
  .bind accept_turns fun _ => .ite (fun _ => nameList_turns) fun _ => .pure rfl

theorem blockOrSemicolon_begins (ids : List NodeId) :
    blockOrSemicolon.Turns limit (nodes ids (.mark pos :: kept))
      fun _ => nodes ids (.begun pos :: kept) :=
  .look (next_at? _) fun _ =>
    .ite (fun _ => skipBlock_begins ids) fun _ => .bind (expect_begins ids) fun _ => .pure rfl

theorem traitUse_turns : traitUse.Turns limit kept fun id => .node id :: kept := by
  unfold traitUse
  refine .fromHere fun pos => .bind advance_turns fun _ => .bind nameList_turns fun traits => ?_
  exact .bind (blockOrSemicolon_begins []) fun _ => addNode_begun nofun

/-- The nodes in the initializers of static variables. -/
def initializers (statics : List StaticVariable) : List NodeId :=
  statics.flatMap fun static => static.initializer.toList

section Declarations

variable {expr : Parse NodeId}
  (inner : ∀ kept, expr.Turns limit kept fun id => .node id :: kept)
include inner

theorem initializer_turns :
    (initializer expr).Turns limit kept fun value => nodes value.toList kept :=
  .bind accept_turns fun _ =>
    .ite (fun _ => .bind (inner _) fun _ => .pure rfl) fun _ => .pure rfl

theorem parameter_turns : (parameter expr).Turns limit kept fun id => .node id :: kept := by
  unfold parameter
  refine .bind docAcrossAttributes_turns fun doc => .fromHere fun pos => ?_
  refine .bind memberModifiers_turns fun modifiers => .bind parameterType_turns fun type => ?_
  refine .bind accept_turns fun byRef => .bind accept_turns fun variadic => ?_
  refine .look next_value fun name => .bind (expect_begins type.toList) fun named => ?_
  refine .bind (initializer_turns inner) fun default => ?_
  refine .look (next_at? _) fun _ => .when (fun _ => skipBlock_turns) ?_
  rw [← nodes_append]
  exact addNode_begun nofun

theorem parameterList_turns :
    (parameterList expr).Turns limit kept fun parameters => nodes parameters kept := by
  unfold parameterList
  refine .bind expect_turns fun _ => .ite (fun _ => .pure rfl) fun _ => ?_
  refine .bind (untilDone_turns (fun parameters => nodes parameters kept) fun parameters => ?_)
    fun parameters => .bind expect_turns fun _ => .pure rfl
  refine .look next_kind fun kind => ?_
  split
  · exact .pure rfl
  · exact .pure rfl
  · exact .bind (parameter_turns inner) fun _ => .bind accept_turns fun _ => .pure (by simp)

theorem staticVariables_turns (known : List StaticVariable) :
    (staticVariables expr known).Turns limit (nodes (initializers known) kept)
      fun statics => nodes (initializers statics) kept := by
  unfold staticVariables
  refine .bind (untilDone_turns (fun statics => nodes (initializers statics) kept)
    fun statics => ?_) fun statics => .bind accept_turns fun _ => .pure rfl
  refine .look (next_at? _) fun _ => .ite (fun _ => ?_) fun _ => .pure rfl
  refine .look next_value fun name => .bind advance_turns fun _ => ?_
  refine .bind (initializer_turns inner) fun initializer => ?_
  exact .bind accept_turns fun _ => .pure (by simp [initializers])

theorem bodyStep_turns (scan : BodyScan) :
    (bodyStep expr scan).Turns limit (nodes (initializers scan.statics) kept)
      fun out => nodes (initializers out.1.statics) kept := by
  unfold bodyStep
  refine .look next_kind fun kind => ?_
  dsimp only
  split
  · exact .bind (report_turns _) fun _ => .drop (.pure rfl)
  · exact .bind advance_turns fun _ => .pure rfl
  · exact .bind advance_turns fun _ => .pure rfl
  · exact .bind advance_turns fun _ => .pure rfl
  · exact .bind advance_turns fun _ => .pure rfl
  · refine .look (next_ahead? _) fun _ => .bind advance_turns fun _ => ?_
    refine .ite (fun _ => ?_) fun _ => .pure rfl
    exact .bind (staticVariables_turns inner scan.statics) fun _ => .pure rfl
  · exact .bind advance_turns fun _ => .pure rfl
  · exact .bind advance_turns fun _ => .pure rfl

theorem functionBody_turns :
    (functionBody expr).Turns limit kept fun scan => nodes (initializers scan.statics) kept :=
  untilDone_turns (fun scan : BodyScan => nodes (initializers scan.statics) kept)
    (bodyStep_turns inner)

theorem functionDecl_turns (modifiers : WrittenModifiers) (doc : Option String) :
    (functionDecl expr modifiers doc).Turns limit (.mark pos :: kept)
      fun decl => nodes (Node.function decl).children (.begun pos :: kept) := by
  unfold functionDecl
  refine .bind (expect_begins []) fun _ => .bind accept_turns fun byRef => ?_
  refine .bind word?_turns fun name => .bind (parameterList_turns inner) fun parameters => ?_
  refine .bind typeAfter_turns fun returnType => .look (next_at? _) fun _ => ?_
  refine .ite (fun _ => ?_) fun _ => ?_
  · exact .bind (functionBody_turns inner) fun body => .pure (by simp [Node.children, initializers])
  · exact .bind expect_turns fun _ => .pure (by simp [Node.children])

theorem constDeclarators_turns :
    (constDeclarators expr).Turns limit kept fun declarators => nodes declarators kept := by
  refine untilDone_turns (fun declarators => nodes declarators kept) fun declarators => ?_
  refine .bind position_turns fun pos => .bind word?_turns fun name => ?_
  cases name with
  | none => exact .drop (.pure rfl)
  | some name =>
      refine .bind expect_reports fun found => ?_
      refine .join (fun value => .node value :: .mark pos :: nodes declarators kept)
        (fun yes => ?_) (fun no => ?_) fun value => ?_
      · rw [if_pos yes]
        exact inner _
      · rw [if_neg no]
        exact missingNode_turns
      · refine .bind (.settle (addNode_over nofun)) fun declarator => ?_
        exact .bind accept_turns fun _ => .pure (by simp)

theorem classConst_turns (pos : Nat) (modifiers : WrittenModifiers) (doc : Option String) :
    (classConst expr pos modifiers doc).Turns limit (.mark pos :: kept)
      fun id => .node id :: .mark pos :: kept := by
  unfold classConst
  refine .bind (advance_begins []) fun _ => .look (next_ahead? _) fun _ => ?_
  refine .join (fun type => nodes type.toList (.begun pos :: kept)) (fun _ => .pure rfl)
    (fun _ => .map type_turns) fun type => ?_
  refine .bind (constDeclarators_turns inner) fun declarators => .bind expect_turns fun _ => ?_
  rw [← nodes_append]
  exact addNode_begun nofun

theorem propertyDeclarators_turns :
    (propertyDeclarators expr).Turns limit kept fun declarators => nodes declarators kept := by
  refine untilDone_turns (fun declarators => nodes declarators kept) fun declarators => ?_
  refine .bind position_turns fun pos => .look next_value fun name => ?_
  refine .bind (expect_begins []) fun _ => .ite (fun _ => ?_) fun _ => .drop (.pure rfl)
  refine .bind (initializer_turns inner) fun default => ?_
  refine .bind (.settle (addNode_begun nofun)) fun declarator => ?_
  exact .bind accept_turns fun _ => .pure (by simp)

theorem property_turns (pos : Nat) (modifiers : WrittenModifiers) (doc : Option String) :
    (property expr pos modifiers doc).Turns limit (.mark pos :: kept)
      fun id => .node id :: .mark pos :: kept := by
  unfold property
  refine .look (next_at? _) fun _ => ?_
  refine .join (fun type => nodes type.toList (.mark pos :: kept)) (fun _ => .pure rfl)
    (fun _ => .map type_turns) fun type => ?_
  refine .bind (propertyDeclarators_turns inner) fun declarators => ?_
  rw [← nodes_append]
  exact .bind (blockOrSemicolon_begins _) fun _ => addNode_begun nofun

theorem enumCase_turns (doc : Option String) :
    (enumCase expr doc).Turns limit kept fun member => nodes member.toList kept := by
  unfold enumCase
  refine .bind position_turns fun pos => .bind (advance_begins []) fun _ => ?_
  refine .bind word?_turns fun name => ?_
  cases name with
  | none => exact .drop (.pure rfl)
  | some name =>
      refine .bind (initializer_turns inner) fun value => .bind expect_turns fun _ => ?_
      exact .bind (.settle (addNode_begun nofun)) fun _ => .pure rfl

theorem modifiedMember_turns (doc : Option String) :
    (modifiedMember expr doc).Turns limit kept fun member => nodes member.toList kept := by
  unfold modifiedMember
  refine .bind position_turns fun pos => .bind memberModifiers_turns fun modifiers => ?_
  refine .look next_kind fun kind => ?_
  split
  · exact .bind (classConst_turns inner _ _ _).settle fun _ => .pure rfl
  · refine .drop (.bind position_turns fun functionPos => .look next_doc fun _ => ?_)
    refine .bind (functionDecl_turns inner _ _) fun decl => ?_
    exact .bind (.settle (addNode_begun nofun)) fun _ => .pure rfl
  · refine .ite (fun _ => ?_) fun _ => .drop ?_
    · exact .bind (property_turns inner _ _ _).settle fun _ => .pure rfl
    · refine .look next_found fun _ => .bind (report_keeps _) fun _ => ?_
      exact .bind advance_turns fun _ => .pure rfl

theorem classMembers_turns :
    (classMembers expr).Turns limit kept fun members => nodes members kept := by
  refine untilDone_turns (fun members => nodes members kept) fun members => ?_
  refine .look next_kind fun kind => ?_
  split
  · exact .pure rfl
  · exact .pure rfl
  · exact .bind advance_turns fun _ => .pure rfl
  · refine .bind docAcrossAttributes_turns fun doc => .look next_kind fun kind => ?_
    have listed (member : Option NodeId) : Turns (pure (members ++ member.toList, true)) limit
        (nodes member.toList (nodes members kept)) fun out => nodes out.1 kept :=
      .pure (by simp)
    dsimp only
    split
    · refine .bind ?_ listed
      exact .map traitUse_turns
    · exact .bind (enumCase_turns inner doc) listed
    · exact .bind (modifiedMember_turns inner doc) listed

theorem classTail_turns (kind : ClassKind) (name : String) (modifiers : WrittenModifiers)
    (doc : Option String) : (classTail expr kind name modifiers doc).Turns limit kept
      fun decl => nodes (Node.classLike decl).children kept := by
  unfold classTail
  refine .join (fun type => nodes type.toList kept) (fun _ => typeAfter_turns) (fun _ => .pure rfl)
    fun backingType => ?_
  refine .bind namesAfter_turns fun parents => ?_
  refine .when (fun _ => report_keeps _) (.bind namesAfter_turns fun interfaces => ?_)
  refine .bind expect_turns fun _ => .bind (classMembers_turns inner) fun members => ?_
  exact .bind expect_turns fun _ => .pure (by simp [Node.children])

end Declarations

end Grammar

end StaticReflection
