import StaticReflection.Proofs.Parser.Progress

namespace StaticReflection

open Parse

variable {α : Type} {room : Nat}

/-! Every production moves onward, and those on which a loop relies consume a token. -/

namespace Parse

variable {K : TokenKind → Prop} {P : α → ParseState → Prop}

theorem acceptAll_consumes {kind : TokenKind} (inside : kind ≠ .endOfFile) :
    (acceptAll kind).ConsumesAt room (· = kind) :=
  untilDone_consumes (fun _ => .accept inside pure_movesOn .last)
    (.accept inside pure_movesOn (.pure fun _ _ here => absurd here.1 here.2))

theorem acceptAll_idle {kind : TokenKind} {s : ParseState} (other : s.cursor.kind ≠ kind) :
    acceptAll kind s = (0, s) := by
  refine untilDone_of_done ?_
  rw [bind_of (accept_of_ne other)]
  rfl

theorem not_endOfFile_of_isWord {kind : TokenKind} (word : kind.isWord = true) :
    kind ≠ .endOfFile := by
  rintro rfl
  exact absurd word (by decide)

theorem word?_consumes : word?.Consumes room (fun _ => True) fun name _ => name ≠ none := by
  unfold word?
  refine .ahead? (L := (· ≠ .endOfFile)) (fun _ => not_endOfFile_of_isWord) ?_ ?_
  · refine .still current_still fun _ => ?_
    exact .advance (fun here => here.2 rfl) pure_movesOn
  · refine .still (reportExpected_still _) fun _ => ?_
    exact .pure fun _ _ _ taken => taken rfl

theorem word?_movesOn : word?.MovesOn room := word?_consumes.movesOn

theorem skipAttributes_consumes : skipAttributes.ConsumesAt room (· = .attributeStart) := by
  unfold skipAttributes
  refine .first (untilDone_consumes_of_more (fun depth => ?_) fun s here => ?_)
    fun _ => pure_movesOn
  · refine .kind fun kind => ?_
    split
    · exact .last
    · exact .advance (by simp) pure_movesOn
    · exact .ite (fun _ => .last) fun _ => .advance (by simp) pure_movesOn
    · exact .ite (fun _ => .last) fun _ => .advance (by simp) pure_movesOn
    · exact .ite (fun _ => .last) fun _ => .advance (by grind) pure_movesOn
  · rw [result_bind, result_kind, here]
    rfl

/-- Attributes are consumed, and without them nothing happens. -/
theorem Consumes.docAcrossAttributes {rest : Option String → Parse α}
    (second : ∀ doc, (rest doc).Consumes room (fun here => K here ∧ here ≠ .attributeStart) P) :
    (Parse.docAcrossAttributes >>= rest).Consumes room K P := by
  have opened : (Parse.docAcrossAttributes >>= rest) = (do
      let before ← doc
      if ← Parse.at? .attributeStart then
        skipAttributes
        rest (before <|> (← doc))
      else rest before) := by
    funext s
    change ((if (s.cursor.kind == .attributeStart) = true then _ else _ : Parse _) >>= rest) s =
      (if (s.cursor.kind == .attributeStart) = true then _ else _ : Parse α) s
    split <;> rfl
  rw [opened]
  refine .still doc_still fun before => .at? ?_ (second before)
  refine .first (skipAttributes_consumes.atKind fun _ here => here.2) fun _ => ?_
  exact .still doc_still fun after => (second _).movesOn

theorem docAcrossAttributes_movesOn : docAcrossAttributes.MovesOn room := by
  rw [← bind_pure docAcrossAttributes]
  exact .docAcrossAttributes fun _ => .pure fun _ _ _ => id

theorem skipBlock_movesOn : skipBlock.MovesOn room := by
  unfold skipBlock
  refine .bind (untilDone_movesOn fun depth => .kind fun kind => ?_) fun _ => pure_movesOn
  split
  · exact .still (report_still _) fun _ => .last
  · exact .advance (by simp) pure_movesOn
  · exact .advance (by simp) pure_movesOn
  · exact .advance (by grind) pure_movesOn

end Parse

namespace Grammar

/-! Types. -/

theorem namedType_consumes : namedType.ConsumesAt room fun kind => isTypeName kind = true := by
  unfold namedType
  refine .still position_still fun pos => .kind fun kind => .ite (fun typeName =>
    ?_) fun other => ?_
  · refine .still value_still fun name => .advance ?_ (addNode_still _ _).movesOn
    rintro ⟨_, rfl⟩
    cases typeName
  · refine .still (reportExpected_still _) fun _ => .of_still missingNode_still ?_
    grind

theorem namedType_movesOn : namedType.MovesOn room := namedType_consumes.movesOn

theorem intersectionType_consumes :
    intersectionType.ConsumesAt room fun kind => isTypeName kind = true := by
  unfold intersectionType
  refine .still position_still fun pos => .first namedType_consumes fun first => ?_
  refine .still (ahead?_still _) fun more => .ite (fun _ => pure_movesOn) fun _ => ?_
  refine .bind (untilDone_movesOn fun types => ?_) fun _ => (addNode_still _ _).movesOn
  refine .ahead? (L := (· = .ampersand)) ?_ ?_ .last
  · intro cursor continues
    simp only [continuesIntersection, Bool.and_eq_true, beq_iff_eq] at continues
    exact continues.1.1
  · exact .advance (by simp) (.bind namedType_movesOn fun _ => pure_movesOn)

theorem closeParens_movesOn (count : Nat) : (closeParens count).MovesOn room := by
  induction count with
  | zero => exact pure_movesOn
  | succ count ih => exact .bind expect_movesOn fun _ => ih

theorem unionMember_consumes :
    unionMember.ConsumesAt room fun kind => isTypeName kind = true ∨ kind = .openParen := by
  unfold unionMember
  refine .orIdle (acceptAll_consumes nofun) (fun _ => acceptAll_idle) fun parens => ?_
  refine .first (intersectionType_consumes.atKind ?_) fun _ => ?_
  · exact fun _ here => here.1.resolve_right here.2.1
  · exact .bind (closeParens_movesOn parens) fun _ => pure_movesOn

theorem type_consumes : type.ConsumesAt room fun kind => startsType kind = true := by
  unfold type
  refine .still position_still fun pos => .accept nofun ?_ ?_
  · exact .bind namedType_movesOn fun _ => (addNode_still _ _).movesOn
  · refine .first (unionMember_consumes.atKind ?_) fun first => ?_
    · simp [startsType]
      grind
    refine .still (at?_still _) fun more => .ite (fun _ => pure_movesOn) fun _ => ?_
    refine .bind (untilDone_movesOn fun types => ?_) fun _ => (addNode_still _ _).movesOn
    exact .accept nofun (.bind unionMember_consumes.movesOn fun _ => pure_movesOn) .last

theorem type_movesOn : type.MovesOn room := type_consumes.movesOn

theorem typeAfter_movesOn {mark : TokenKind} :
    (typeAfter mark).MovesOn room :=
  .bind accept_movesOn fun _ =>
    .ite (fun _ => .bind type_movesOn fun _ => pure_movesOn) fun _ => pure_movesOn

/-! Declarations, given that the expressions in them move on. -/

theorem memberModifiers_consumes : memberModifiers.ConsumesAt room fun kind =>
    (WrittenModifiers.ofToken? kind).isSome := by
  refine untilDone_consumes_of_more (fun modifiers => .kind fun kind => ?_) fun s here => ?_
  · split
    · exact .last
    · rename_i modifier isModifier
      refine .whenStill (report_still _) (.advance ?_ ?_)
      · rintro ⟨_, rfl⟩
        cases isModifier
      · refine .still (at?_still _) fun _ => .still (ahead?_still _) fun _ => ?_
        refine .ite (fun _ => ?_) fun _ => pure_movesOn
        refine .bind advance_movesOn fun _ => .bind advance_movesOn fun _ => ?_
        exact .bind advance_movesOn fun _ => pure_movesOn
  · obtain ⟨modifier, isModifier⟩ := Option.isSome_iff_exists.mp here
    rw [result_bind, result_kind, isModifier]
    dsimp only
    split <;> (simp only [result_bind]; split <;> rfl)

theorem memberModifiers_idle {s : ParseState}
    (other : ¬ (WrittenModifiers.ofToken? s.cursor.kind).isSome) :
    memberModifiers s = (WrittenModifiers.none, s) := by
  refine untilDone_of_done ?_
  rw [kind_bind, Option.not_isSome_iff_eq_none.mp other]
  rfl

section Declarations

variable {expr : Parse NodeId} (inner : expr.MovesOn room)
include inner

theorem initializer_movesOn : (initializer expr).MovesOn room :=
  .bind accept_movesOn fun _ =>
    .ite (fun _ => .bind inner fun _ => pure_movesOn) fun _ => pure_movesOn

omit inner in
theorem parameterType_movesOn : parameterType.MovesOn room := by
  unfold parameterType
  refine .still kind_still fun kind => ?_
  split
  · exact pure_movesOn
  · exact pure_movesOn
  · exact pure_movesOn
  · exact .bind type_movesOn fun _ => pure_movesOn

theorem parameter_movesOn : (parameter expr).MovesOn room := by
  unfold parameter
  refine .bind docAcrossAttributes_movesOn fun doc => .still position_still fun pos => ?_
  refine .bind memberModifiers_consumes.movesOn fun modifiers => ?_
  refine .bind parameterType_movesOn fun type => .bind accept_movesOn fun byRef => ?_
  refine .bind accept_movesOn fun variadic => .still value_still fun name => ?_
  refine .bind expect_movesOn fun named => .bind (initializer_movesOn inner) fun default => ?_
  refine .still (at?_still _) fun hooks => ?_
  exact .when (fun _ => skipBlock_movesOn) (addNode_still _ _).movesOn

theorem parameterList_movesOn : (parameterList expr).MovesOn room := by
  unfold parameterList
  refine .bind expect_movesOn fun _ => .ite (fun _ => pure_movesOn) fun _ => ?_
  refine .bind (untilDone_movesOn fun parameters => .kind fun kind => ?_) fun _ => ?_
  · split
    · exact .last
    · exact .last
    · refine .bind (parameter_movesOn inner) fun _ => ?_
      exact .accept nofun pure_movesOn .last
  · exact .bind expect_movesOn fun _ => pure_movesOn

theorem staticVariables_movesOn (known : List StaticVariable) :
    (staticVariables expr known).MovesOn room := by
  unfold staticVariables
  refine .bind (untilDone_movesOn fun statics => .at? ?_ .last) fun _ => ?_
  · refine .still value_still fun name => .advance (by simp) ?_
    refine .bind (initializer_movesOn inner) fun _ => ?_
    exact .bind accept_movesOn fun _ => pure_movesOn
  · exact .bind accept_movesOn fun _ => pure_movesOn

theorem bodyStep_steps : Steps room (bodyStep expr) := by
  intro scan
  unfold bodyStep
  refine .kind fun kind => ?_
  dsimp only
  split
  · exact .still (report_still _) fun _ => .last
  · exact .advance (by simp) pure_movesOn
  · exact .advance (by simp) pure_movesOn
  · exact .advance (by simp) pure_movesOn
  · exact .advance (by simp) pure_movesOn
  · refine .still (ahead?_still _) fun _ => .advance (by simp) ?_
    refine .ite (fun _ => ?_) fun _ => pure_movesOn
    exact .bind (staticVariables_movesOn inner _) fun _ => pure_movesOn
  · exact .advance (by simp) pure_movesOn
  · exact .advance (by grind) pure_movesOn

theorem functionBody_movesOn : (functionBody expr).MovesOn room :=
  untilDone_movesOn (bodyStep_steps inner)

theorem functionDecl_consumes (modifiers : WrittenModifiers) (doc : Option String) :
    (functionDecl expr modifiers doc).ConsumesAt room (· = .functionKw) := by
  unfold functionDecl
  refine .first (expect_consumes nofun) fun _ => .bind accept_movesOn fun _ => ?_
  refine .bind word?_movesOn fun _ => .bind (parameterList_movesOn inner) fun _ => ?_
  refine .bind typeAfter_movesOn fun _ => .still (at?_still _) fun _ => .ite (fun _ =>
    ?_) fun _ => ?_
  · exact .bind (functionBody_movesOn inner) fun _ => pure_movesOn
  · exact .bind expect_movesOn fun _ => pure_movesOn

theorem constDeclarators_movesOn : (constDeclarators expr).MovesOn room := by
  refine untilDone_movesOn fun declarators => .still position_still fun pos => ?_
  refine .bind word?_movesOn fun name => ?_
  cases name with
  | none => exact .last
  | some name =>
      refine .bind expect_movesOn fun _ => ?_
      refine .join (fun _ => inner) (fun _ => missingNode_still.movesOn) fun value => ?_
      refine .still (addNode_still _ _) fun declarator => ?_
      exact .accept nofun pure_movesOn .last

theorem classConst_consumes (pos : Nat) (modifiers : WrittenModifiers) (doc : Option String) :
    (classConst expr pos modifiers doc).ConsumesAt room (· = .constKw) := by
  refine .advance nofun (.still (ahead?_still _) fun untyped => ?_)
  refine .join (fun _ => pure_movesOn) (fun _ => .map type_movesOn) fun type => ?_
  refine .bind (constDeclarators_movesOn inner) fun _ => .bind expect_movesOn fun _ => ?_
  exact (addNode_still _ _).movesOn

omit inner in
theorem blockOrSemicolon_movesOn : blockOrSemicolon.MovesOn room :=
  .still (at?_still _) fun _ =>
    .ite (fun _ => skipBlock_movesOn) fun _ => .bind expect_movesOn fun _ => pure_movesOn

theorem propertyDeclarators_consumes :
    (propertyDeclarators expr).ConsumesAt room (· = .variableName) := by
  refine untilDone_consumes (fun declarators => ?_) ?_
  · refine .still position_still fun pos => .still value_still fun name => .expect nofun ?_ .last
    refine .bind (initializer_movesOn inner) fun _ => .still (addNode_still _ _) fun _ => ?_
    exact .bind accept_movesOn fun _ => pure_movesOn
  · refine .still position_still fun pos => .still value_still fun name => .expect nofun ?_ ?_
    · refine .bind (initializer_movesOn inner) fun _ => .still (addNode_still _ _) fun _ => ?_
      exact .bind accept_movesOn fun _ => pure_movesOn
    · exact .pure fun _ _ here => absurd here.1 here.2

theorem property_consumes (pos : Nat) (modifiers : WrittenModifiers) (doc : Option String) :
    (property expr pos modifiers doc).ConsumesAt room fun kind =>
      kind = .variableName ∨ startsType kind = true := by
  unfold property
  refine .at? ?_ ?_
  · refine .still (pure_still _) fun _ => ?_
    refine .first ((propertyDeclarators_consumes inner).atKind fun _ here => here.2) fun _ => ?_
    exact .bind blockOrSemicolon_movesOn fun _ => (addNode_still _ _).movesOn
  · refine .first (.map (type_consumes.atKind fun _ here => ?_)) fun _ => ?_
    · exact here.1.resolve_left here.2
    · refine .bind (propertyDeclarators_consumes inner).movesOn fun _ => ?_
      exact .bind blockOrSemicolon_movesOn fun _ => (addNode_still _ _).movesOn

omit inner

theorem nameList_movesOn : nameList.MovesOn room := by
  refine untilDone_movesOn fun names => ?_
  refine .ahead? (L := (· ≠ .endOfFile)) ?_ ?_ ?_
  · intro cursor named ended
    simp [Cursor.isName, ended] at named
  · refine .still value_still fun name => .advance (by simp) ?_
    exact .bind accept_movesOn fun _ => pure_movesOn
  · exact .still (reportExpected_still _) fun _ => .last

theorem traitUse_consumes : traitUse.ConsumesAt room (· = .useKw) := by
  refine .still position_still fun pos => .advance nofun ?_
  refine .bind nameList_movesOn fun _ => .bind blockOrSemicolon_movesOn fun _ => ?_
  exact (addNode_still _ _).movesOn

theorem namesAfter_movesOn {keyword : TokenKind} :
    (namesAfter keyword).MovesOn room :=
  .bind accept_movesOn fun _ => .ite (fun _ => nameList_movesOn) fun _ => pure_movesOn

include inner

theorem enumCase_consumes (doc : Option String) :
    (enumCase expr doc).ConsumesAt room (· = .caseKw) := by
  refine .still position_still fun pos => .advance nofun (.bind word?_movesOn fun name => ?_)
  cases name with
  | none => exact pure_movesOn
  | some name =>
      refine .bind (initializer_movesOn inner) fun _ => .bind expect_movesOn fun _ => ?_
      exact .still (addNode_still _ _) fun _ => pure_movesOn

theorem modifiedMember_consumes (doc : Option String) :
    (modifiedMember expr doc).ConsumesAt room (· ≠ .endOfFile) := by
  unfold modifiedMember
  refine .still position_still fun pos => ?_
  refine .orIdle memberModifiers_consumes (fun _ => memberModifiers_idle) fun modifiers => ?_
  refine .kind fun kind => ?_
  split
  · refine .first ((classConst_consumes inner _ _ _).atKind fun _ here => here.2) fun _ => ?_
    exact pure_movesOn
  · refine .still position_still fun functionPos => .still doc_still fun _ => ?_
    refine .first ((functionDecl_consumes inner _ _).atKind fun _ here => here.2) fun _ => ?_
    exact .still (addNode_still _ _) fun _ => pure_movesOn
  · refine .ite (fun isProperty => ?_) fun _ => ?_
    · refine .first ((property_consumes inner _ _ _).atKind ?_) fun _ => pure_movesOn
      rintro _ ⟨⟨_, _, rfl⟩, rfl⟩
      simpa using isProperty
    · refine .still found_still fun _ => .still (report_still _) fun _ => ?_
      exact .advance (fun here => here.1.1 rfl) pure_movesOn

theorem classMembers_movesOn : (classMembers expr).MovesOn room := by
  refine untilDone_movesOn fun members => .kind fun kind => ?_
  split
  · exact .last
  · exact .last
  · exact .advance (by simp) pure_movesOn
  · rename_i other ended _
    refine .docAcrossAttributes fun doc => .kind fun kind => ?_
    dsimp only
    split
    · refine .first (.map (traitUse_consumes.atKind fun _ here => ?_)) fun _ => pure_movesOn
      exact here.2
    · refine .first ((enumCase_consumes inner doc).atKind fun _ here => here.2) fun _ => ?_
      exact pure_movesOn
    · refine .first ((modifiedMember_consumes inner doc).atKind ?_) fun _ => pure_movesOn
      grind

theorem classTail_movesOn (kind : ClassKind) (name : String) (modifiers : WrittenModifiers)
    (doc : Option String) : (classTail expr kind name modifiers doc).MovesOn room := by
  unfold classTail
  refine .join (fun _ => typeAfter_movesOn) (fun _ => pure_movesOn) fun backingType => ?_
  refine .bind namesAfter_movesOn fun parents => ?_
  refine .whenStill (report_still _) (.bind namesAfter_movesOn fun interfaces => ?_)
  refine .bind expect_movesOn fun _ => .bind (classMembers_movesOn inner) fun members => ?_
  exact .bind expect_movesOn fun _ => pure_movesOn

end Declarations

end Grammar

end StaticReflection
