import StaticReflection.Proofs.Declarations.RejectedFiles
import StaticReflection.Proofs.Declarations.TypeRoundTrip

namespace StaticReflection

open Parse ParseState Grammar

/-! Names of classes in lists of parents and in types. -/

/-! Lists of names. -/

/-- A token that names a class in a list of names. -/
def namesClass (kind : TokenKind) : Bool :=
  kind == .identifier || kind == .qualifiedName || kind == .enumKw

section Parsing

variable {s : ParseState} {depth : Nat} {mark next : Mark} {after : List Mark}

theorem isName_or_enumKw (here : s.At depth (mark :: after)) :
    (s.cursor.isName || s.cursor.kind == .enumKw) = namesClass mark.kind := by
  rw [Cursor.isName, here.kind, namesClass]

theorem nameList_yields (named : namesClass mark.kind = true) (ends : next.kind ≠ .comma)
    (here : s.At depth (mark :: next :: after)) :
    nameList.Yields s [mark] fun out _ => out = [mark.value] := by
  have sees := (isName_or_enumKw here).trans named
  refine .done (.ahead? sees (.value here (.advance here (by simp) fun _ there => ?_)))
  exact .acceptOther there ends (.pure ⟨rfl, rfl⟩)

/-- No other token is passed over without a report. -/
theorem nameList_faults (unnamed : namesClass mark.kind = false)
    (here : s.At depth (mark :: after)) : nameList.Faults s := by
  have sees := (isName_or_enumKw here).trans unnamed
  refine .inStep ?_ fun names => ?_
  · exact .ahead? sees ((reportExpected_faults _).first fun _ => pure_goesOn _)
  · refine goesOn_of_composed (.bind (ahead?_composed _) fun _ => .ite ?_ ?_)
    · refine .bind value_composed fun _ => .bind .advance fun _ => ?_
      exact .bind accept_composed fun _ => .pure _
    · exact .bind (reportExpected_composed _) fun _ => .pure _

theorem namesAfter_looks {keyword : TokenKind} (other : s.cursor.kind ≠ keyword) :
    namesAfter keyword s = ([], s) := by
  rw [namesAfter, bind_of (accept_of_ne other)]
  rfl

/-! A class without members that extends another. -/

def childMarks (parent : Mark) : List Mark :=
  [⟨.classKw, "class", []⟩, ⟨.identifier, "C", []⟩, ⟨.extendsKw, "extends", []⟩, parent,
    ⟨.openBrace, "", []⟩, ⟨.closeBrace, "", []⟩]

structure ClassDecl.IsChild (decl : ClassDecl) (parent : String) : Prop where
  kind : decl.kind = .plain
  name : decl.name = "C"
  parents : decl.parents = [parent]

theorem classMembers_empty {expr : Parse NodeId}
    (here : s.At depth (⟨.closeBrace, "", []⟩ :: after)) :
    (classMembers expr).Yields s [] fun _ _ => True :=
  .done (.kind here (.pure ⟨rfl, trivial⟩))

theorem classTail_yields (modifiers : WrittenModifiers) (doc : Option String)
    (named : namesClass mark.kind = true)
    (here : s.At depth (⟨.extendsKw, "extends", []⟩ :: mark :: ⟨.openBrace, "", []⟩ ::
      ⟨.closeBrace, "", []⟩ :: next :: after)) :
    (classTail expression .plain "C" modifiers doc).Yields s
      ([⟨.extendsKw, "extends", []⟩, mark] ++ [⟨.openBrace, "", []⟩, ⟨.closeBrace, "", []⟩])
      fun decl _ => decl.IsChild mark.value := by
  have extended : (namesAfter .extendsKw).Yields s [⟨.extendsKw, "extends", []⟩, mark]
      fun out _ => out = [mark.value] :=
    .accept here rfl (by simp) fun _ there => nameList_yields named (by decide) there
  refine .look rfl (extended.bind ?_)
  rintro _ t passes rfl
  have there := At.after here passes
  refine .look (namesAfter_looks (by rw [there.kind]; exact nofun)) ?_
  refine .expect there rfl (by simp) fun _ there => ?_
  rw [← List.nil_append [(⟨.closeBrace, "", []⟩ : Mark)]]
  refine (classMembers_empty there).bind fun members u passes _ => ?_
  exact .expect (At.after there passes) rfl (by simp) fun _ _ => .pure ⟨rfl, rfl, rfl⟩

theorem classTail_faults (modifiers : WrittenModifiers) (doc : Option String)
    (unnamed : namesClass mark.kind = false)
    (here : s.At depth (⟨.extendsKw, "extends", []⟩ :: mark :: after)) :
    (classTail expression .plain "C" modifiers doc).Faults s := by
  have extended : (namesAfter .extendsKw).Faults s :=
    .accept here rfl (by simp) fun _ there => nameList_faults unnamed there
  refine .look rfl (extended.first fun parents => ?_)
  refine goesOn_of_composed (.when (.report _) (.bind namesAfter_composed fun interfaces => ?_))
  refine .bind expect_composed fun _ => ?_
  refine .bind (classMembers_composed expression_composed) fun members => ?_
  exact .bind expect_composed fun _ => .pure _

theorem classModifiers_looks (plain : classModifier? s.cursor.kind = none) :
    classModifiers s = (WrittenModifiers.none, s) := by
  refine untilDone_of_done ?_
  rw [kind_bind, plain]
  rfl

/-- A node that declares a class which extends the named one. -/
def DeclaresChild (parent : String) (id : NodeId) (arena : Arena) : Prop :=
  ∃ decl, arena.node? id = some (.classLike decl) ∧ decl.IsChild parent

theorem classStatement_yields (doc : Option String) (named : namesClass mark.kind = true)
    (here : s.At depth (childMarks mark ++ next :: after)) :
    (classStatement doc).Yields s (childMarks mark) (DeclaresChild mark.value) := by
  simp only [childMarks, List.cons_append, List.nil_append] at here ⊢
  have kind : s.cursor.kind = .classKw := here.kind
  refine .look (classModifiers_looks (by rw [kind]; rfl)) (.position (.look rfl ?_))
  refine .kind here (.advance here (by simp) fun _ there => ?_)
  rw [← List.singleton_append]
  refine (word?_yields there).bind ?_
  rintro _ t passes rfl
  have there := At.after there passes
  refine (classTail_yields _ _ named there).andThen fun decl u _ child => ?_
  exact .adds fun id arena _ found => ⟨decl, found, child⟩

theorem classStatement_faults (doc : Option String) (unnamed : namesClass mark.kind = false)
    (here : s.At depth (childMarks mark ++ next :: after)) : (classStatement doc).Faults s := by
  simp only [childMarks, List.cons_append, List.nil_append] at here
  have kind : s.cursor.kind = .classKw := here.kind
  refine .look (classModifiers_looks (by rw [kind]; rfl)) (.position (.look rfl ?_))
  refine .kind here (.advance here (by simp) fun t there => ?_)
  refine (word?_yields there).faults ?_
  rintro _ u passes rfl
  have there := At.after there passes
  exact (classTail_faults _ _ unnamed there).first fun _ => addNode_goesOn _ _

/-- Such tokens are those of a class, not of a function. -/
theorem declaresClass (here : s.At depth (childMarks mark ++ next :: after)) :
    s.cursor.kind ≠ .attributeStart ∧ isFunctionStatement s.cursor = false ∧
      isClassStatement s.cursor = true := by
  have kind : s.cursor.kind = .classKw := here.kind
  obtain ⟨token, ahead, more, marked, -⟩ := At.ahead here
  have word : token.kind = .identifier := congrArg Mark.kind marked
  refine ⟨?_, ?_, ?_⟩
  · rw [kind]
    decide
  · simp [isFunctionStatement, kind]
  · have first : s.cursor.current.kind = .classKw := kind
    rw [isClassStatement, more, startsClass, first, word]
    rfl

theorem statement_child (named : namesClass mark.kind = true)
    (here : s.At depth (childMarks mark ++ next :: after)) :
    statement.Yields s (childMarks mark)
      fun out arena => ∃ id, out = some id ∧ DeclaresChild mark.value id arena := by
  obtain ⟨plain, noFunction, isClass⟩ := declaresClass here
  refine .position (.look (docAcrossAttributes_looks plain) (.kind here ?_))
  refine .ahead? noFunction (.ahead? isClass ?_)
  exact (classStatement_yields _ named here).andThen fun id _ _ means => .pure ⟨id, rfl, means⟩

theorem statement_child_faults (unnamed : namesClass mark.kind = false)
    (here : s.At depth (childMarks mark ++ next :: after)) : statement.Faults s := by
  obtain ⟨plain, noFunction, isClass⟩ := declaresClass here
  refine .position (.look (docAcrossAttributes_looks plain) (.kind here ?_))
  refine .ahead? noFunction (.ahead? isClass ?_)
  exact (classStatement_faults _ unnamed here).first fun _ => pure_goesOn _

/-! Types. -/

theorem acceptAll_looks {kind : TokenKind} (other : s.cursor.kind ≠ kind) :
    acceptAll kind s = (0, s) := by
  refine untilDone_of_done ?_
  rw [bind_of (accept_of_ne other)]
  rfl

/-- A name alone. -/
theorem type_yields (typed : isTypeName mark.kind = true) (ends : endsType next.kind)
    (here : s.At depth (mark :: next :: after)) :
    type.Yields s [mark] fun id arena => arena.node? id = some (.namedType mark.value) := by
  have other {kind : TokenKind} (untyped : isTypeName kind = false) : s.cursor.kind ≠ kind :=
    here.kind ▸ DeclaredType.ne_of_isTypeName typed untyped
  have member : unionMember.Yields s [mark]
      fun id arena => arena.node? id = some (.namedType mark.value) :=
    .look (acceptAll_looks (other rfl)) ((intersectionType_yields typed ends.1 here).andThen
      fun _ _ _ found => .look rfl (.pure found))
  exact type_of_unionMember (other rfl) ends.2 member here

theorem namedType_faults (untyped : isTypeName mark.kind = false)
    (here : s.At depth (mark :: after)) : namedType.Faults s := by
  refine .position (.kind here ?_)
  rw [if_neg (by simp [untyped])]
  exact (reportExpected_faults _).first fun _ => missingNode_goesOn

theorem intersectionType_faults (untyped : isTypeName mark.kind = false)
    (here : s.At depth (mark :: after)) : intersectionType.Faults s := by
  refine .position ((namedType_faults untyped here).first fun first => goesOn_of_composed ?_)
  refine .bind (ahead?_composed _) fun _ => .ite (.pure _) ?_
  refine .bind (.untilDone (fun types => ?_) _) ?_
  · refine .bind (ahead?_composed _) fun _ => .ite ?_ (.pure _)
    exact .bind .advance fun _ => .bind namedType_composed fun _ => .pure _
  · exact fun _ => .addNode _ _ rfl

theorem type_faults (untyped : isTypeName mark.kind = false)
    (other : mark.kind ≠ .question ∧ mark.kind ≠ .openParen) (here : s.At depth (mark :: after)) :
    type.Faults s := by
  have bare : s.cursor.kind ≠ .openParen := At.kind here ▸ other.2
  have member : unionMember.Faults s :=
    .look (acceptAll_looks bare) ((intersectionType_faults untyped here).first fun _ =>
      pure_goesOn _)
  refine .position (.acceptOther here other.1 (member.first fun first => goesOn_of_composed ?_))
  refine .bind (at?_composed _) fun _ => .ite (.pure _) ?_
  refine .bind (.untilDone (fun types => ?_) _) ?_
  · refine .bind accept_composed fun _ => .ite ?_ (.pure _)
    exact .bind unionMember_composed fun _ => .pure _
  · exact fun _ => .addNode _ _ rfl

/-! The word for enumerations is no type. -/

theorem parameter_faults {word : String} (here : s.At depth (⟨.enumKw, word, []⟩ :: after)) :
    (parameter expression).Faults s := by
  have kind : s.cursor.kind = .enumKw := here.kind
  have plain : s.cursor.kind ≠ .attributeStart := by
    rw [kind]
    decide
  have modifiers : memberModifiers s = (WrittenModifiers.none, s) := by
    refine untilDone_of_done ?_
    rw [kind_bind, kind]
    rfl
  have typed : parameterType.Faults s :=
    .kind here ((type_faults rfl (by exact ⟨nofun, nofun⟩) here).first fun _ => pure_goesOn _)
  refine .look (docAcrossAttributes_looks plain) (.position (.look modifiers ?_))
  refine typed.first fun type => goesOn_of_composed ?_
  refine .bind accept_composed fun byRef => .bind accept_composed fun variadic => ?_
  refine .bind value_composed fun name => .bind expect_composed fun named => ?_
  refine .bind (initializer_composed expression_composed) fun default => ?_
  exact .bind (at?_composed _) fun hooks => .when skipBlock_composed (.addNode _ _ rfl)

theorem parameterList_faults {word : String}
    (here : s.At depth (⟨.openParen, "", []⟩ :: ⟨.enumKw, word, []⟩ :: after)) :
    (parameterList expression).Faults s := by
  have afterOne (parameters : List NodeId) : Parse.GoesOn (accept .comma >>= fun more =>
      pure (parameters, more)) := goesOn_of_composed (.bind accept_composed fun _ => .pure _)
  refine .expect here rfl (by simp) fun t there => ?_
  refine Faults.first (.inStep (.kind there ?_) fun parameters => ?_) fun _ => ?_
  · exact (parameter_faults there).first fun _ => afterOne _
  · refine .bind looks_goesOn fun kind => ?_
    split
    · exact pure_goesOn _
    · exact pure_goesOn _
    · refine .bind (goesOn_of_composed (parameter_composed expression_composed)) fun _ => ?_
      exact afterOne _
  · exact goesOn_of_composed (.bind expect_composed fun _ => .pure _)

theorem functionDecl_faults {name word : String} (modifiers : WrittenModifiers)
    (doc : Option String)
    (here : s.At depth (⟨.functionKw, "function", []⟩ :: ⟨.identifier, name, []⟩ ::
      ⟨.openParen, "", []⟩ :: ⟨.enumKw, word, []⟩ :: after)) :
    (functionDecl expression modifiers doc).Faults s := by
  refine .expect here rfl (by simp) fun t there => .acceptOther there nofun ?_
  refine (word?_yields there).faults fun _ u passes _ => ?_
  have there := At.after there passes
  refine (parameterList_faults there).first fun parameters => goesOn_of_composed ?_
  refine .bind typeAfter_composed fun _ => .bind (at?_composed _) fun _ => .ite ?_ ?_
  · exact .bind (functionBody_composed expression_composed) fun _ => .pure _
  · exact .bind expect_composed fun _ => .pure _

theorem statement_function_faults {name word : String}
    (here : s.At depth (⟨.functionKw, "function", []⟩ :: ⟨.identifier, name, []⟩ ::
      ⟨.openParen, "", []⟩ :: ⟨.enumKw, word, []⟩ :: after)) : statement.Faults s := by
  obtain ⟨plain, declares⟩ := declaresFunction here
  refine .position (.look (docAcrossAttributes_looks plain) (.kind here (.ahead? declares ?_)))
  have stated : (functionStatement (s.cursor.current.doc.map (·.text))).Faults s :=
    .position ((functionDecl_faults _ _ here).first fun _ => addNode_goesOn _ _)
  exact stated.first fun _ => pure_goesOn _

end Parsing

/-! The class and the function in a file. -/

def childPhrase (parent : Mark) : Phrase where
  marks := childMarks parent
  Means := DeclaresChild parent.value

theorem childPhrase_parses {parent : Mark} (named : namesClass parent.kind = true) :
    (childPhrase parent).Parses where
  lasting := fun id _ _ grows ⟨decl, found, child⟩ => ⟨decl, grows id _ found, child⟩
  plain := by
    rintro id arena ⟨decl, found, -⟩ _ other
    cases found.symm.trans other
  starts := ⟨_, _, rfl, by decide⟩
  yields here := statement_child named here.toAt

/-- The class is reflected with the parent that the name comes to. -/
theorem Heading.class?_last (heading : Heading) {file : SourceFile} {space : String}
    {block : NamespaceBlock} {parent : Mark}
    (consists : file.Consists space (heading.phrases ++ [childPhrase parent]) block) :
    let resolver : Resolver := ⟨space, (registered heading.items).1⟩
    ∃ info, (EntityIndex.ofFiles [file]).class? (joinNamespace space "C") = some info ∧
      info.parent = some (resolver.classNamed parent.value) := by
  intro resolver
  obtain ⟨before, id, imports, ⟨decl, found, child⟩, entities⟩ := heading.discover_last consists
  let full := joinNamespace space "C"
  have added : block.entities = { before with
      classes := before.classes.insertNew (.folded full) ⟨full, .plain, id⟩ } := by
    have unnamed : decl.name ≠ "" := child.name ▸ (by decide)
    have unknown : before.class? full = none := by
      rw [Entities.class?, imports.classes]
      rfl
    rw [entities, Entities.addStatement, found]
    dsimp only
    rw [Entities.addClass, if_neg unnamed, imports.space, child.name, child.kind]
    dsimp only
    rw [unknown]
    rfl
  have resolves : block.entities.resolver = resolver :=
    heading.resolver_last imports (by rw [added]) (by rw [added])
  have entries : block.entities.classes.entries = [(.folded full, ⟨full, .plain, id⟩)] := by
    rw [added, imports.classes]
    rfl
  rw [EntityIndex.class?_ofFiles consists.2.1 entries, ClassInfo.declaredAt?]
  dsimp only
  rw [found]
  refine ⟨_, rfl, ?_⟩
  dsimp only
  rw [child.kind, child.parents, NamespaceBlock.resolver, resolves]
  rfl

/-- The node names the type. -/
def NamesType (name : String) (id : NodeId) (arena : Arena) : Prop :=
  arena.node? id = some (.namedType name)

theorem lasting_namesType (name : String) : Lasting (NamesType name) :=
  fun id _ _ grows found => grows id _ found

theorem lasting_typedParameter {Q : NodeId → Arena → Prop} {name : String} (lasting : Lasting Q) :
    Lasting fun id arena => ∃ decl, arena.TypedParameter Q name id decl := by
  rintro id arena larger grows ⟨decl, found, named, type, declared, typed⟩
  exact ⟨decl, grows _ _ found, named, type, declared, lasting _ _ _ grows typed⟩

/-- A function with one parameter of a named type. -/
def typedBy (type : Mark) : Signature where
  name := "f"
  parameters := [type, ⟨.variableName, "x", []⟩]
  result := []
  Takes ids arena := ∃ id, ids = [id] ∧
    ∃ decl, arena.TypedParameter (NamesType type.value) "x" id decl
  Gives _ _ := True

theorem typedBy_parses {type : Mark} (free : type.kind = .identifier ∨ type.kind = .qualifiedName) :
    (typedBy type).Parses where
  takes_later := by
    rintro _ arena larger grows ⟨id, rfl, declared⟩
    exact ⟨id, rfl, lasting_typedParameter (lasting_namesType _) _ _ _ grows declared⟩
  gives_later _ _ := trivial
  parameters {s depth mark after} here := by
    refine parameterList_single (lasting_typedParameter (lasting_namesType _)) ?_ ?_ here
    · intro t there
      rw [At.kind there]
      obtain kind | kind := free <;> rw [kind] <;> exact ⟨nofun, nofun⟩
    · intro t there
      have begins : beginsType t.cursor.kind := by
        rw [At.kind there]
        obtain kind | kind := free <;> rw [kind] <;> exact ⟨rfl, nofun⟩
      have typed : isTypeName type.kind = true := by
        obtain kind | kind := free <;> rw [kind] <;> rfl
      exact parameter_yields (lasting_namesType _) begins (by decide)
        (type_yields typed (by exact ⟨nofun, nofun⟩) there) there
  result here := .look (accept_of_ne (by rw [At.kind here]; nofun)) (.pure trivial)

/-- The function is reflected with the type that the name comes to. -/
theorem Heading.parameter?_last (heading : Heading) {file : SourceFile} {space : String}
    {block : NamespaceBlock} {type : Mark}
    (consists : file.Consists space (heading.phrases ++ [(typedBy type).phrase]) block) :
    let resolver : Resolver := ⟨space, (registered heading.items).1⟩
    ∃ info parameter,
      (EntityIndex.ofFiles [file]).function? (joinNamespace space "f") = some info ∧
      info.parameters = [parameter] ∧
      parameter.type = some (DeclaredType.ofName resolver type.value) := by
  intro resolver
  have named : (typedBy type).name ≠ "" := by
    change "f" ≠ ""
    decide
  let full := joinNamespace space "f"
  let scope : Scope := { place := ⟨file, 0, block⟩, function := some full }
  obtain ⟨resolves, id, decl, found, describes⟩ := heading.function?_last named consists
  change scope.resolver = resolver at resolves
  obtain ⟨parameterId, listed, parameter, declared⟩ := describes.takes
  obtain ⟨node, typed, names⟩ := declared.typed
  have parameters : decl.parameters.filterMap scope.parameter? = [parameter] := by
    have known : scope.parameter? parameterId = some parameter := by
      rw [Scope.parameter?]
      have node : scope.node? parameterId = some (.parameter parameter) := declared.found
      rw [node]
    simp [listed, known]
  have single : (FunctionInfo.ofDecl scope full (full ++ "()") id decl).parameters =
      markOptional (ParameterInfo.ofDecl scope (full ++ "()") 0 parameter) [] := by
    rw [FunctionInfo.ofDecl, parameters]
    rfl
  refine ⟨_, _, found, single, ?_⟩
  change scope.type? parameter.type = _
  rw [typed, Scope.type?, resolves]
  exact DeclaredType.denoted_name names

/-! Texts. -/

def classWord : Word := ⟨['c', 'l', 'a', 's', 's'], by decide, by decide⟩
def extendsWord : Word := ⟨['e', 'x', 't', 'e', 'n', 'd', 's'], by decide, by decide⟩
def className : Word := ⟨['C'], by decide, by decide⟩

def childText (parent : WrittenName) : Text :=
  "class C extends ".toList ++ (parent.text ++ " \x7b\x7d".toList)

def typedText (type : WrittenName) : Text :=
  "function f(".toList ++ (type.text ++ " $x) \x7b\x7d".toList)

theorem reads_childText (parent : WrittenName) :
    ReadsAs (childText parent) (childMarks parent.mark ++ [⟨.endOfFile, "", []⟩]) := by
  have named := readsAs_emptyBody.name parent (by rintro c ⟨⟩; decide)
  have extended := named.blank.piece (.word extendsWord) ⟨rfl, nofun⟩
  have declared := extended.blank.piece (.word className) ⟨rfl, nofun⟩
  have whole := declared.blank.piece (.word classWord) ⟨rfl, nofun⟩
  have front : "class C extends ".toList = classWord.text ++ ' ' :: (className.text ++ ' ' ::
      (extendsWord.text ++ [' '])) := by decide
  have words : Piece.mark (.word classWord) = ⟨.classKw, "class", []⟩ ∧
      Piece.mark (.word className) = ⟨.identifier, "C", []⟩ ∧
      Piece.mark (.word extendsWord) = ⟨.extendsKw, "extends", []⟩ := by decide
  unfold childText
  rw [front]
  simpa [words, Piece.text, childMarks] using whole

/-- A name after a parenthesis and before a variable begins no cast. -/
theorem lexCast?_name (name : WrittenName) (rest : Text) :
    lexCast? ('(' :: (name.text ++ ' ' :: '$' :: rest)) = none := by
  unfold WrittenName.text
  -- A separator is no letter. Without one the first segment could be the word of a cast, but what
  -- comes after it, blanks apart, does not close a parenthesis.
  split
  · exact lexCast?_of_head 0 (by rintro c ⟨⟩; decide)
  · rw [WrittenName.path, List.append_assoc]
    apply lexCast?_of_word 0
    · cases name.more <;> · rintro c ⟨⟩; rfl
    · right
      cases name.more <;> simp [isIndent]

theorem reads_typedText (type : WrittenName) :
    ReadsAs (typedText type) ((typedBy type.mark).marks ++ [⟨.endOfFile, "", []⟩]) := by
  have closed := readsAs_emptyBody.piece (.sign .closeParen) ⟨rfl, nofun⟩
  have parameter := closed.variableName parameterName (by rintro c ⟨⟩; decide)
  have typed := parameter.blank.name type (by rintro c ⟨⟩; decide)
  have opened := typed.piece (.sign .openParen) ⟨rfl, fun _ => lexCast?_name type _⟩
  have named := opened.piece (.word functionName) ⟨rfl, nofun⟩
  have whole := named.blank.piece (.word functionWord) ⟨rfl, nofun⟩
  have front : "function f(".toList = functionWord.text ++ ' ' :: (functionName.text ++ ['(']) := by
    decide
  have words : Piece.mark (.word functionWord) = ⟨.functionKw, "function", []⟩ ∧
      Piece.mark (.word functionName) = ⟨.identifier, "f", []⟩ ∧ parameterName.value = "x" ∧
      parameterName.text = ['x'] := by decide
  unfold typedText
  rw [front]
  simpa [words, Piece.text, typedBy, Signature.marks] using whole

theorem frontOf_childText (parent : WrittenName) : frontOf (childText parent) = .token := by
  unfold childText
  rfl

theorem not_mem_childText (parent : WrittenName) : '>' ∉ childText parent := by
  unfold childText
  simp [parent.not_mem_text]

theorem frontOf_typedText (type : WrittenName) : frontOf (typedText type) = .token := by
  unfold typedText
  rfl

theorem not_mem_typedText (type : WrittenName) : '>' ∉ typedText type := by
  unfold typedText
  simp [type.not_mem_text]

section Files

variable {heading : Heading} {text : Text} {name : WrittenName}

theorem parse_childText (path : String) (spells : Spells heading.symbols text)
    (names : namesClass name.kind = true) :
    ∃ block, (SourceFile.parse path (openTag ++ (text ++ childText name))).Consists
      (spaceName heading.space) (heading.phrases ++ [childPhrase name.mark]) block :=
  heading.parse_last path spells (childPhrase_parses names) (frontOf_childText name)
    (not_mem_childText name) (reads_childText name)

/-- A parent is what the list of parents accepts as a name. -/
theorem parse_childText_eq_nil_iff (path : String) (spells : Spells heading.symbols text) :
    (SourceFile.parse path (openTag ++ (text ++ childText name))).diagnostics = [] ↔
      namesClass name.kind = true := by
  constructor
  · intro accepted
    by_contra other
    rw [Bool.not_eq_true] at other
    refine heading.parse_rejects path spells (frontOf_childText name) (not_mem_childText name)
      (reads_childText name) (by decide) (fun here => ?_) accepted
    exact statement_child_faults other here
  · intro names
    obtain ⟨_, clean, -⟩ := parse_childText path spells names
    exact clean

theorem parse_typedText (path : String) (spells : Spells heading.symbols text)
    (free : name.IsFree) :
    ∃ block, (SourceFile.parse path (openTag ++ (text ++ typedText name))).Consists
      (spaceName heading.space) (heading.phrases ++ [(typedBy name.mark).phrase]) block :=
  heading.parse_last path spells (Signature.phrase_parses (typedBy_parses free))
    (frontOf_typedText name) (not_mem_typedText name) (reads_typedText name)

theorem parse_typedText_of_enumKw (path : String) (spells : Spells heading.symbols text)
    (word : name.kind = .enumKw) :
    (SourceFile.parse path (openTag ++ (text ++ typedText name))).diagnostics ≠ [] := by
  have reads := reads_typedText name
  have mark : name.mark = ⟨.enumKw, name.value, []⟩ := congrArg (Mark.mk · _ _) word
  rw [mark] at reads
  exact heading.parse_rejects path spells (frontOf_typedText name) (not_mem_typedText name) reads
    (by decide) statement_function_faults

end Files

theorem stripSeparator_joined (space : Option ImportedName) :
    stripSeparator (joinNamespace (spaceName space) "C") = joinNamespace (spaceName space) "C" := by
  cases space with
  | none => decide
  | some name =>
      let bare : WrittenName := { name.toWrittenName with rooted := false }
      have joined : joinNamespace (spaceName (some name)) "C" =
          String.ofList (bare.path ++ ['\\', 'C']) := by
        have named : name.stem ≠ "" := name.stem_ne_empty
        have stem : name.stem = String.ofList bare.path := rfl
        rw [spaceName, Option.map_some, Option.getD_some, joinNamespace, if_neg named, stem]
        apply String.toList_injective
        simp
      rw [joined]
      exact bare.stripSeparator_text ['\\', 'C']

/-- A name without a meaning of its own is resolved as that of a class. -/
theorem DeclaredType.ofName_declared {resolver : Resolver} {name : String}
    (declared : foldCase name ∉ builtinTypes) (plain : isSpecialClass name = false) :
    ofName resolver name = .named (resolver.classNamed name) false := by
  simp [ofName, declared, plain]

/-- A name that a class can extend, which is neither built in nor special, names the same class as
the type of a parameter. The exception is the word for enumerations, which can be extended but
is no type. -/
theorem parents_are_types (options : Options) (locator : Locator) (disk : Disk) (path : String)
    (heading : Heading) {text : Text} (spells : Spells heading.symbols text) (name : WrittenName)
    (declared : foldCase name.value ∉ builtinTypes) (plain : isSpecialClass name.value = false)
    (accepted : (SourceFile.parse path
      (openTag ++ (text ++ childText name))).diagnostics = []) :
    let space := spaceName heading.space
    let r := Reflector.new options locator { disk }
    let child : Query ClassInfo := do
      let _ ← Query.text path (openTag ++ (text ++ childText name))
      Query.classNamed (joinNamespace space "C")
    let typed : Query FunctionInfo := do
      let _ ← Query.text path (openTag ++ (text ++ typedText name))
      Query.functionNamed (joinNamespace space "f")
    ((SourceFile.parse path (openTag ++ (text ++ typedText name))).diagnostics = [] ↔
      name.kind ≠ .enumKw) ∧
    ∃ info parent, child.result r = .ok info ∧ info.parent = some parent ∧
      (name.kind ≠ .enumKw → ∃ function parameter, typed.result r = .ok function ∧
        function.parameters = [parameter] ∧ parameter.type = some (.named parent false)) := by
  intro space r child typed
  have names := (parse_childText_eq_nil_iff path spells).mp accepted
  have free (other : name.kind ≠ .enumKw) : name.IsFree := by
    simpa [WrittenName.IsFree, namesClass, other] using names
  refine ⟨⟨fun clean word => parse_typedText_of_enumKw path spells word clean, fun other => ?_⟩, ?_⟩
  · obtain ⟨_, clean, -⟩ := parse_typedText path spells (free other)
    exact clean
  obtain ⟨block, consists⟩ := parse_childText (disk.canonical path) spells names
  obtain ⟨loaded, known⟩ := Query.text_alone options locator disk path consists.1
  obtain ⟨info, found, parent⟩ := heading.class?_last consists
  refine ⟨info, _, ?_, parent, fun other => ?_⟩
  · have index : ((Query.text path (openTag ++ (text ++ childText name))).next r).index.class?
        (stripSeparator (joinNamespace space "C")) = some info := by
      rw [stripSeparator_joined]
      exact (congrArg (·.class? (joinNamespace space "C")) known).trans found
    exact (Query.result_bind_ok loaded _).trans (Query.classNamed_of_known index).1
  · obtain ⟨block, consists⟩ := parse_typedText (disk.canonical path) spells (free other)
    obtain ⟨loaded, known⟩ := Query.text_alone options locator disk path consists.1
    obtain ⟨function, parameter, found, single, type⟩ := heading.parameter?_last consists
    refine ⟨function, parameter, ?_, single, ?_⟩
    · have index := (congrArg (·.function? (joinNamespace space "f")) known).trans found
      exact (Query.result_bind_ok loaded _).trans (Query.functionNamed_eq_ok_iff.mpr index)
    · exact type.trans (congrArg some (DeclaredType.ofName_declared declared plain))

/-- A namespace with the import of a class under another name. -/
def Heading.sample : Heading :=
  let model : ImportedName :=
    ⟨⟨false, ⟨['L', 'i', 'b'], by decide, by decide⟩,
      [⟨['M', 'o', 'd', 'e', 'l'], by decide, by decide⟩]⟩, .inr (by decide)⟩
  { space := some ⟨⟨false, ⟨['A', 'p', 'p'], by decide, by decide⟩, []⟩, .inl (by decide)⟩
    imports := [{ first := .single model (some ⟨['M'], by decide, by decide⟩) }] }

theorem sample_parents_are_types :
    let text := symbolText Heading.sample.symbols
    let renamed : WrittenName := ⟨false, ⟨['M'], by decide, by decide⟩, []⟩
    let enumeration : WrittenName := ⟨false, ⟨['E', 'n', 'u', 'm'], by decide, by decide⟩, []⟩
    let child : Query ClassInfo := do
      let _ ← Query.text "a.php" (openTag ++ (text ++ childText renamed))
      Query.classNamed "App\\C"
    let typed : Query FunctionInfo := do
      let _ ← Query.text "a.php" (openTag ++ (text ++ typedText renamed))
      Query.functionNamed "App\\f"
    text = "namespace App ; use Lib\\Model as M ; ".toList ∧
    (∃ info parent function parameter, child.result (.new {} .nowhere {}) = .ok info ∧
      info.parent = some parent ∧ typed.result (.new {} .nowhere {}) = .ok function ∧
      function.parameters = [parameter] ∧ parameter.type = some (.named parent false)) ∧
    (SourceFile.parse "a.php" (openTag ++ (text ++ childText enumeration))).diagnostics = [] ∧
    (SourceFile.parse "a.php" (openTag ++ (text ++ typedText enumeration))).diagnostics ≠ [] := by
  intro text renamed enumeration child typed
  have spells : Spells Heading.sample.symbols text := spells_symbolText _
  have accepted {name : WrittenName} (names : namesClass name.kind = true) :
      (SourceFile.parse "a.php" (openTag ++ (text ++ childText name))).diagnostics = [] :=
    (parse_childText_eq_nil_iff "a.php" spells).mpr names
  have clean := accepted (by decide : namesClass enumeration.kind = true)
  obtain ⟨-, info, parent, found, known, free⟩ := parents_are_types {} .nowhere {} "a.php"
    Heading.sample spells renamed (by decide) (by decide) (accepted (by decide))
  obtain ⟨function, parameter, reflected, single, type⟩ := free (by decide)
  obtain ⟨rejects, -⟩ := parents_are_types {} .nowhere {} "a.php"
    Heading.sample spells enumeration (by decide) (by decide) clean
  refine ⟨by decide, ⟨info, parent, function, parameter, found, known, reflected, single, type⟩,
    clean, fun silent => rejects.mp silent (by decide)⟩

end StaticReflection
