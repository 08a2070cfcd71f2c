import StaticReflection.Proofs.Parser.Signatures

namespace StaticReflection

open Parse ParseState Grammar

/-! Signs that the parser counts on no scale: any number of them can stand before a variable or
around a type. -/

/-! The text. -/

theorem lexToken_dollar (text : Text) :
    lexToken ('$' :: '$' :: text) = { kind := .dollar, length := 1 } := by
  have unchanged : prolongs ['$'] = [] := by decide
  have known : punctuation? ('$' :: '$' :: text) = some (.dollar, 1) := by
    have same : punctuation? (['$'] ++ '$' :: text) = punctuation? ['$'] :=
      punctuation?_append (by simp [unchanged])
    rw [List.singleton_append] at same
    rw [same]
    decide
  simp [lexToken, startsName, isNameStart, lexPunctuation, known]

theorem frontOf_dollar (text : Text) : frontOf ('$' :: text) = .token := by
  simp [frontOf, isSeparatorSpace]

namespace ReadsAs

variable {text : Text} {marks : List Mark}

theorem dollars (count : Nat) (reads : ReadsAs ('$' :: text) marks) :
    ReadsAs (List.replicate count '$' ++ '$' :: text)
      (List.replicate count ⟨.dollar, "", []⟩ ++ marks) := by
  induction count with
  | zero => exact reads
  | succ count ih =>
      have next : List.replicate count '$' ++ '$' :: text =
          '$' :: (List.replicate count '$' ++ text) := by
        rw [← List.singleton_append, ← List.append_assoc, ← List.replicate_succ',
          List.replicate_succ, List.cons_append]
      rw [List.replicate_succ, List.replicate_succ, List.cons_append, List.cons_append]
      rw [next] at ih ⊢
      have lexes := lexToken_dollar (List.replicate count '$' ++ text)
      exact ih.token ['$'] (frontOf_dollar _) (by rw [List.singleton_append, lexes])
        (by rw [List.singleton_append, lexes]; rfl) (by rw [List.singleton_append, lexes])

theorem variableName (word : Word) (ends : ∀ c ∈ text.head?, isNamePart c = false)
    (reads : ReadsAs text marks) :
    ReadsAs ('$' :: word.text ++ text) (⟨.variableName, word.value, []⟩ :: marks) := by
  have starts : startsName (word.text ++ text) = true := by
    obtain ⟨c, more, spelled, start⟩ := word.exists_cons
    rw [spelled]
    exact start
  have taken : (word.text ++ text).takeWhile isNamePart = word.text :=
    takeWhile_append_stop (List.all_eq_true.mp word.parts) ends
  have lexes : lexToken ('$' :: word.text ++ text) =
      { kind := .variableName, length := word.text.length + 1, value := word.value } := by
    simp [lexToken, starts, lexVariable, taken, Word.value]
  exact reads.token ('$' :: word.text) (frontOf_dollar _) (by rw [lexes])
    (by rw [lexes]; rfl) (by rw [lexes])

end ReadsAs

/-- The tokens of a name in parentheses. -/
def enclosedMarks (name : ConstantName) (count : Nat) : List Mark :=
  List.replicate count ⟨.openParen, "", []⟩ ++ ⟨.identifier, name.value, []⟩ ::
    List.replicate count ⟨.closeParen, "", []⟩

/-- A name in parentheses. -/
def enclosed (name : ConstantName) (count : Nat) : Text :=
  List.replicate count '(' ++ name.text ++ List.replicate count ')'

theorem ReadsAs.openParens {text : Text} {marks : List Mark} (count : Nat)
    (noCast : lexCast? ('(' :: text) = none) (reads : ReadsAs text marks) :
    ReadsAs (List.replicate count '(' ++ text)
      (List.replicate count ⟨.openParen, "", []⟩ ++ marks) := by
  induction count with
  | zero => exact reads
  | succ count ih =>
      have free : lexCast? ('(' :: (List.replicate count '(' ++ text)) = none := by
        cases count with
        | zero => exact noCast
        | succ count =>
            exact lexCast?_of_head 0 (by rintro c ⟨⟩; decide)
      have before : (Piece.sign .openParen).Before (List.replicate count '(' ++ text) :=
        ⟨rfl, fun _ => free⟩
      simpa [List.replicate_succ, Piece.text] using ih.piece _ before

theorem ReadsAs.closeParens {text : Text} {marks : List Mark} (count : Nat)
    (reads : ReadsAs text marks) :
    ReadsAs (List.replicate count ')' ++ text)
      (List.replicate count ⟨.closeParen, "", []⟩ ++ marks) := by
  induction count with
  | zero => exact reads
  | succ count ih =>
      have before : (Piece.sign .closeParen).Before (List.replicate count ')' ++ text) :=
        ⟨rfl, nofun⟩
      simpa [List.replicate_succ, Piece.text] using ih.piece _ before

theorem ReadsAs.enclosed {text : Text} {marks : List Mark} (name : ConstantName) (count : Nat)
    (reads : ReadsAs (' ' :: text) marks) :
    ReadsAs (enclosed name count ++ ' ' :: text) (enclosedMarks name count ++ marks) := by
  have ends : ∀ c ∈ (List.replicate count ')' ++ ' ' :: text).head?, endsName c = true := by
    cases count <;> · rintro c ⟨⟩; decide
  have before : (Piece.word name.toWord).Before (List.replicate count ')' ++ ' ' :: text) :=
    ⟨(Option.all_eq_true _ _).mpr ends, nofun⟩
  have inner := (reads.closeParens count).piece _ before
  have noCast := lexCast?_of_word 0 name.toWord (fun c head => isNamePart_of_endsName (ends c head))
    (.inl name.noCast)
  have whole := inner.openParens count noCast
  have mark : (Piece.word name.toWord).mark = ⟨.identifier, name.value, []⟩ := by
    rw [Piece.mark, name.toClassName.kind_eq]
  simpa [StaticReflection.enclosed, enclosedMarks, mark, Piece.text] using whole

/-! Variables that name variables. -/

/-- Unary expressions that are linked through their operands, with their operators. -/
inductive Arena.UnaryChain (arena : Arena) : NodeId → List TokenKind → Prop
  | nil (id : NodeId) : UnaryChain arena id []
  | cons {id operand : NodeId} {op : TokenKind} {ops : List TokenKind}
      (found : arena.node? id = some (.unary op operand))
      (rest : UnaryChain arena operand ops) : UnaryChain arena id (op :: ops)

theorem lasting_unaryChain (ops : List TokenKind) :
    Lasting fun id arena => arena.UnaryChain id ops := by
  intro id arena larger grows chain
  induction chain with
  | nil id => exact .nil id
  | cons found rest ih => exact .cons (grows _ _ found) ih

/-- A loop over equal tokens, which counts them. -/
theorem repeated_yields {σ : Type} (size : σ → Nat) {step : σ → Parse (σ × Bool)}
    {s : ParseState} {depth count : Nat} {mark next : Mark} {after : List Mark}
    (again : ∀ (state : σ) (s : ParseState) (rest : List Mark), rest ≠ [] →
      s.At depth (mark :: rest) →
      (step state).Yields s [mark] fun out _ => out.2 = true ∧ size out.1 = size state + 1)
    (last : ∀ (state : σ) (s : ParseState), s.At depth (next :: after) →
      (step state).Yields s [] fun out _ => out.2 = false ∧ size out.1 = size state)
    (start : σ) (here : s.At depth (List.replicate count mark ++ next :: after)) :
    (untilDone start step).Yields s (List.replicate count mark)
      fun out _ => size out = size start + count := by
  induction count generalizing s start with
  | zero => exact .done (last start s here)
  | succ count ih =>
      rw [List.replicate_succ, List.cons_append] at here
      rw [List.replicate_succ, ← List.singleton_append]
      have one := again start s _ (by simp) here
      refine .more (one.mono fun _ _ out => out.1) (by simp) ?_
      refine (ih _ (At.after here one.passes)).mono fun out _ counted => ?_
      have more := one.outcome.2
      omega

/-- The tokens of a variable behind signs. -/
def signedMarks (word : Word) (count : Nat) : List Mark :=
  List.replicate count ⟨.dollar, "", []⟩ ++ [⟨.variableName, word.value, []⟩]

section Signs

variable {s : ParseState} {depth count : Nat} {nested : Nested} {mark : Mark} {after : List Mark}
  {word : Word}

theorem dollarSigns_yields
    (here : s.At depth (List.replicate count ⟨.dollar, "", []⟩ ++ mark :: after))
    (other : mark.kind ≠ .dollar) :
    dollarSigns.Yields s (List.replicate count ⟨.dollar, "", []⟩)
      fun out _ => out.length = count := by
  refine (repeated_yields List.length (fun positions s rest more here => ?_)
    (fun positions s here => ?_) [] here).mono fun out _ counted => ?_
  · exact .position (.accept here rfl more fun _ _ => .pure ⟨rfl, rfl⟩)
  · exact .position (.acceptOther here other (.pure ⟨rfl, rfl⟩))
  · rw [counted, List.length_nil, Nat.zero_add]

/-- Each sign makes what stands behind it the operand of one more node. -/
theorem unaryChain_foldlM {base : NodeId} {ops : List TokenKind} (signs : List Nat)
    (chain : s.arena.UnaryChain base ops) :
    Yields (signs.foldlM (fun operand pos => addNode (.unary .dollar operand) pos) base) s []
      fun id arena => arena.UnaryChain id (List.replicate signs.length .dollar ++ ops) := by
  induction signs generalizing s base ops with
  | nil => exact .pure chain
  | cons pos signs ih =>
      have added : (addNode (.unary .dollar base) pos).Yields s []
          fun id arena => arena.UnaryChain id (.dollar :: ops) :=
        .adds fun _ _ grows found => .cons found (lasting_unaryChain _ _ _ _ grows chain)
      refine added.andThen fun operand t _ chain => (ih chain).mono fun id arena chain => ?_
      rw [List.length_cons, List.replicate_succ', List.append_assoc]
      exact chain

theorem variableNode_yields (here : s.At depth (⟨.variableName, word.value, []⟩ :: mark :: after)) :
    (plainPrimary nested).Yields s [⟨.variableName, word.value, []⟩]
      fun id arena => arena.UnaryChain id [] :=
  .position (.kind here (.position (.value here (.advance here (by simp) fun _ _ =>
    .adds fun id _ _ _ => .nil id))))

theorem primary_signed (here : s.At depth (signedMarks word count ++ mark :: after)) :
    (primary nested).Yields s (signedMarks word count)
      fun id arena => arena.UnaryChain id (List.replicate count .dollar) := by
  rw [signedMarks, List.append_assoc] at here
  refine (dollarSigns_yields here nofun).bind fun signs t passes length => ?_
  have there := here.after passes
  have closed : acceptIf (!signs.isEmpty) .openBrace t = (false, t) := by
    unfold acceptIf
    split
    · refine accept_of_ne ?_
      rw [At.kind there]
      nofun
    · rfl
  refine .look closed (.andThen (variableNode_yields there) fun base u _ chain => ?_)
  have folds := unaryChain_foldlM signs chain
  rw [length, List.append_nil] at folds
  exact folds

theorem unaryExpression_signed (nested : Nested)
    (here : s.At depth (signedMarks word (count + 1) ++ mark :: after))
    (ends : endsOperand mark.kind = true) :
    (unaryExpression nested).Yields s (signedMarks word (count + 1))
      fun id arena => arena.UnaryChain id (List.replicate (count + 1) .dollar) := by
  have starts : startsOperand s.cursor.kind = true := by
    rw [At.kind here]
    decide
  refine .unaryOfOperand starts (.position (.andThen (primary_signed here) ?_))
  intro start t passes chain
  have there := here.after passes
  let chained := fun id (arena : Arena) => arena.UnaryChain id (List.replicate (count + 1) .dollar)
  refine .andThen (.suffixesEnd (Q := chained) there ends chain) fun target u more chain => ?_
  exact .assignmentEnds (At.after there more) ends chain

/-- However many signs there are, they are one expression. -/
theorem expression_signed (shallow : depth < maxDepth)
    (here : s.At depth (signedMarks word (count + 1) ++ mark :: after))
    (ends : EndsAt 0 mark.kind) :
    expression.Yields s (signedMarks word (count + 1))
      fun id arena => arena.UnaryChain id (List.replicate (count + 1) .dollar) := by
  refine .opened (here.depth ▸ shallow) ?_
  have unary := unaryExpression_signed (expressionWithin maxDepth) here.opened ends.operand
  rw [← List.append_nil (signedMarks word (count + 1))]
  exact .climb unary (.binaryTailEnds (here.opened.after unary.passes) ends unary.outcome)

end Signs

/-- A constant with a variable behind signs for its value. -/
def signedDefinition (word : Word) (count : Nat) : Text :=
  "<?php const X = ".toList ++ (List.replicate count '$' ++ '$' :: (word.text ++ [';']))

theorem parseFile_signedDefinition (path : String) (word : Word) (count : Nat) :
    let file := parseFile path (signedDefinition word (count + 1))
    file.diagnostics = [] ∧
      ∃ id, file.arena.UnaryChain id (List.replicate (count + 1) .dollar) := by
  intro file
  have semicolon : ReadsAs [';'] [⟨.semicolon, "", []⟩, ⟨.endOfFile, "", []⟩] :=
    ReadsAs.nil.piece (.sign .semicolon) ⟨rfl, nofun⟩
  have named := semicolon.variableName word (by rintro c ⟨⟩; decide)
  obtain ⟨tokens, sound⟩ := tokenize_definition (named.dollars (count + 1))
  have marked : (tokenize (signedDefinition word (count + 1))).map Token.mark =
      definitionMarks (signedMarks word (count + 1)) ++ [⟨.endOfFile, "", []⟩] :=
    tokens.trans (by simp [definitionMarks, signedMarks])
  have ends : EndsAt 0 .semicolon := endsAt_of_unbound rfl (by decide) rfl 0
  obtain ⟨clean, -, statement, -, -, -, value, -, -, chain⟩ :=
    parseFile_defines path (lasting_unaryChain _) marked sound fun here =>
      expression_signed (by decide) here ends
  exact ⟨clean, value, chain⟩

/-! Types in parentheses. -/

section Types

variable {s : ParseState} {depth count : Nat} {mark : Mark} {after : List Mark}
  {name : ConstantName}

theorem acceptAll_yields {kind : TokenKind}
    (here : s.At depth (List.replicate count ⟨kind, "", []⟩ ++ mark :: after))
    (other : mark.kind ≠ kind) :
    (acceptAll kind).Yields s (List.replicate count ⟨kind, "", []⟩)
      fun out _ => out = count := by
  refine (repeated_yields id (fun counted s rest more here => ?_)
    (fun counted s here => ?_) 0 here).mono fun out _ counted => ?_
  · exact .accept here rfl more fun _ _ => .pure ⟨rfl, rfl⟩
  · exact .acceptOther here other (.pure ⟨rfl, rfl⟩)
  · exact counted.trans (Nat.zero_add _)

theorem closeParens_yields
    (here : s.At depth (List.replicate count ⟨.closeParen, "", []⟩ ++ mark :: after)) :
    (closeParens count).Yields s (List.replicate count ⟨.closeParen, "", []⟩)
      fun _ _ => True := by
  induction count generalizing s with
  | zero => exact .pure trivial
  | succ count ih =>
      rw [List.replicate_succ, List.cons_append] at here
      exact .expect here rfl (by simp) fun _ there => ih there

theorem namedType_yields {next : Mark} (typed : isTypeName mark.kind = true)
    (here : s.At depth (mark :: next :: after)) :
    namedType.Yields s [mark] fun id arena => arena.node? id = some (.namedType mark.value) := by
  refine .position (.kind here ?_)
  rw [if_pos typed]
  exact .value here (.advance here (by simp) fun _ _ => .addNode _ _)

/-- A type ends before such a token. -/
def endsType (kind : TokenKind) : Prop :=
  kind ≠ .ampersand ∧ kind ≠ .bar

theorem intersectionType_yields {next : Mark} (typed : isTypeName mark.kind = true)
    (ends : next.kind ≠ .ampersand) (here : s.At depth (mark :: next :: after)) :
    intersectionType.Yields s [mark]
      fun id arena => arena.node? id = some (.namedType mark.value) := by
  refine .position (.andThen (namedType_yields typed here) fun first t passes found => ?_)
  have there := At.after here passes
  have single : continuesIntersection t.cursor = false := by
    rw [continuesIntersection, there.kind, beq_eq_false_iff_ne.mpr ends]
    rfl
  exact .ahead? single (.pure found)

/-- A type in any number of parentheses. -/
theorem unionMember_yields {front : Mark} {others : List Mark} {Q : NodeId → Arena → Prop}
    (lasting : Lasting Q) (plain : front.kind ≠ .openParen) (ends : mark.kind ≠ .ampersand)
    (inner : ∀ {t : ParseState} {next : Mark} {rest : List Mark}, next.kind ≠ .ampersand →
      t.At depth (front :: others ++ next :: rest) → intersectionType.Yields t (front :: others) Q)
    (here : s.At depth (List.replicate count ⟨.openParen, "", []⟩ ++ (front :: others ++
      (List.replicate count ⟨.closeParen, "", []⟩ ++ mark :: after)))) :
    unionMember.Yields s (List.replicate count ⟨.openParen, "", []⟩ ++ (front :: others ++
      List.replicate count ⟨.closeParen, "", []⟩)) Q := by
  refine (acceptAll_yields here plain).bind ?_
  rintro out t passes rfl
  have inside := here.after passes
  have body : intersectionType.Yields t (front :: others) Q := by
    cases out with
    | zero => exact inner ends inside
    | succ more => exact inner (by decide) inside
  refine body.bind fun id u more outcome => ?_
  refine .andThen (closeParens_yields (inside.after more)) fun _ v closes _ => .pure ?_
  exact lasting _ _ _ closes.arena outcome

/-- A type that is no union. -/
theorem type_of_unionMember {marks : List Mark} {Q : NodeId → Arena → Prop}
    (unasked : s.cursor.kind ≠ .question) (ends : mark.kind ≠ .bar)
    (member : unionMember.Yields s marks Q) (here : s.At depth (marks ++ mark :: after)) :
    type.Yields s marks Q := by
  refine .position (.look (accept_of_ne unasked) (.andThen member fun first t passes outcome => ?_))
  refine .at? (here.after passes) ?_
  rw [beq_eq_false_iff_ne.mpr ends]
  exact .pure outcome

theorem kind_enclosed (here : s.At depth (enclosedMarks name count ++ after)) :
    s.cursor.kind = .openParen ∨ s.cursor.kind = .identifier := by
  cases count with
  | zero => exact .inr here.kind
  | succ count => exact .inl here.kind

/-- However many parentheses there are around it, a name is a type. -/
theorem type_enclosed (here : s.At depth (enclosedMarks name count ++ mark :: after))
    (ends : endsType mark.kind) :
    type.Yields s (enclosedMarks name count)
      fun id arena => arena.node? id = some (.namedType name.value) := by
  have unasked : s.cursor.kind ≠ .question := by
    obtain kind | kind := kind_enclosed here <;> rw [kind] <;> decide
  have member : unionMember.Yields s (enclosedMarks name count)
      fun id arena => arena.node? id = some (.namedType name.value) := by
    have whole : s.At depth (List.replicate count ⟨.openParen, "", []⟩ ++
        ([⟨.identifier, name.value, []⟩] ++
          (List.replicate count ⟨.closeParen, "", []⟩ ++ mark :: after))) := by
      simpa [enclosedMarks] using here
    have lasting : Lasting fun id arena => arena.node? id = some (.namedType name.value) :=
      fun id _ _ grows found => grows id _ found
    exact unionMember_yields lasting (by exact nofun) ends.1
      (fun ends there => intersectionType_yields rfl ends there) whole
  exact type_of_unionMember unasked ends.2 member here

/-- The tokens of a list with one parameter, whose type stands in parentheses. -/
def parameterMarks (name : ConstantName) (count : Nat) : List Mark :=
  ⟨.openParen, "", []⟩ ::
    (enclosedMarks name count ++ [⟨.variableName, "x", []⟩] ++ [⟨.closeParen, "", []⟩])

/-- The tokens of a function with one parameter, whose type and whose result stand in
parentheses. -/
def typedMarks (name : ConstantName) (count : Nat) : List Mark :=
  ⟨.functionKw, "function", []⟩ :: ⟨.identifier, "f", []⟩ ::
    (parameterMarks name count ++ (⟨.colon, "", []⟩ :: enclosedMarks name count ++
      [⟨.openBrace, "", []⟩, ⟨.closeBrace, "", []⟩]))

/-- The function of those tokens, of whose nodes nothing is said. -/
def typedSignature (name : ConstantName) (count : Nat) : Signature where
  name := "f"
  parameters := enclosedMarks name count ++ [⟨.variableName, "x", []⟩]
  result := ⟨.colon, "", []⟩ :: enclosedMarks name count
  Takes _ _ := True
  Gives _ _ := True

theorem marks_typedSignature (name : ConstantName) (count : Nat) :
    (typedSignature name count).marks = typedMarks name count := by
  simp [typedSignature, Signature.marks, typedMarks, parameterMarks]

theorem typedSignature_parses (name : ConstantName) (count : Nat) :
    (typedSignature name count).Parses where
  takes_later _ _ := trivial
  gives_later _ _ := trivial
  parameters {s depth mark after} here := by
    have single : (parameterList expression).Yields s
        (⟨.openParen, "", []⟩ :: (enclosedMarks name count ++ [⟨.variableName, "x", []⟩] ++
          [⟨.closeParen, "", []⟩])) fun out arena => ∃ id, out = [id] ∧ True := by
      refine parameterList_single (fun _ _ _ _ _ => trivial) ?_ ?_ here
      · intro t there
        rw [List.append_assoc] at there
        obtain kind | kind := kind_enclosed there <;> rw [kind] <;> exact ⟨nofun, nofun⟩
      · intro t there
        rw [List.append_assoc] at there
        have begins : beginsType t.cursor.kind := by
          obtain kind | kind := kind_enclosed there <;> rw [kind] <;> exact ⟨rfl, nofun⟩
        have typed := type_enclosed there ⟨nofun, nofun⟩
        have lasting : Lasting fun id arena => arena.node? id = some (.namedType name.value) :=
          fun id _ _ grows found => grows id _ found
        exact (parameter_yields lasting begins (by decide) typed there).mono
          fun _ _ _ => trivial
    exact single.mono fun _ _ _ => trivial
  result here :=
    .accept here rfl (by simp) fun _ there =>
      .andThen (type_enclosed there ⟨nofun, nofun⟩) fun _ _ _ _ => .pure trivial

theorem topStatement_enclosed (here : s.At depth (typedMarks name count ++ mark :: after)) :
    topStatement.Yields s (typedMarks name count)
      fun out _ => ∃ id, out = some id ∧ True := by
  rw [← marks_typedSignature] at here ⊢
  refine .at? here ?_
  exact (statement_function (typedSignature_parses name count) here).mono
    fun _ _ ⟨id, found, _⟩ => ⟨id, found, trivial⟩

end Types

/-- A function with one parameter, whose type and whose result stand in parentheses. -/
def typedFunction (name : ConstantName) (count : Nat) : Text :=
  "<?php function f(".toList ++ (enclosed name count ++ ([' ', '$', 'x', ')', ':', ' '] ++
    (enclosed name count ++ [' ', '\x7b', '\x7d'])))

theorem lexCast?_enclosed (name : ConstantName) (count : Nat) (text : Text) :
    lexCast? ('(' :: (enclosed name count ++ ' ' :: text)) = none := by
  cases count with
  | zero =>
      have ends : ∀ c ∈ (' ' :: text).head?, isNamePart c = false := by
        rintro c ⟨⟩
        decide
      simpa [enclosed] using lexCast?_of_word 0 name.toWord ends (.inl name.noCast)
  | succ count => exact lexCast?_of_head 0 (by rintro c ⟨⟩; decide)

theorem tokenize_typedFunction (name : ConstantName) (count : Nat) :
    (tokenize (typedFunction name count)).map Token.mark =
      typedMarks name count ++ [⟨.endOfFile, "", []⟩] ∧
    ∀ token ∈ tokenize (typedFunction name count), token.problems = [] := by
  have result := (readsAs_emptyBody.enclosed name count).blank.piece (.sign .colon) ⟨rfl, nofun⟩
  have closed := result.piece (.sign .closeParen) ⟨rfl, nofun⟩
  have parameter := closed.variableName parameterName (by rintro c ⟨⟩; decide)
  have list := (parameter.blank.enclosed name count).piece (.sign .openParen)
    ⟨rfl, fun _ => lexCast?_enclosed name count _⟩
  have named := list.piece (.word functionName) ⟨rfl, nofun⟩
  have whole := named.blank.piece (.word functionWord) ⟨rfl, nofun⟩
  have opening : "<?php function f(".toList =
      openTag ++ (functionWord.text ++ (' ' :: (functionName.text ++ ['(']))) := by decide
  have words : Piece.mark (.word functionWord) = ⟨.functionKw, "function", []⟩ ∧
      Piece.mark (.word functionName) = ⟨.identifier, "f", []⟩ ∧ parameterName.value = "x" ∧
      parameterName.text = ['x'] := by decide
  have tokens := whole.tokenize rfl
  unfold typedFunction
  rw [opening]
  simpa [words, Piece.text, typedMarks, parameterMarks] using tokens

theorem parseFile_typedFunction (path : String) (name : ConstantName) (count : Nat) :
    (parseFile path (typedFunction name count)).diagnostics = [] := by
  obtain ⟨tokens, sound⟩ := tokenize_typedFunction name count
  obtain ⟨start, scanned⟩ := ParseState.ofText_at (by simp) tokens sound
  have top := topStatement_enclosed start
  have statements := fileStatements_yields top start (by decide) rfl
  obtain ⟨clean, -⟩ := parseFile_yields path (P := fun _ _ => True) (fun _ _ _ _ _ => trivial)
    statements scanned
  exact clean

end StaticReflection
