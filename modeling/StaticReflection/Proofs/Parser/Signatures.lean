import StaticReflection.Proofs.Parser.RoundTrip

namespace StaticReflection

open Parse ParseState Grammar

/-! Functions without statements, and how their declarations are parsed. -/

/-- A function without statements: the tokens of its parameters and of its result, and what is
said of their nodes. -/
structure Signature where
  name : String
  parameters : List Mark
  result : List Mark
  Takes : List NodeId → Arena → Prop
  Gives : Option NodeId → Arena → Prop

namespace Signature

def marks (signature : Signature) : List Mark :=
  ⟨.functionKw, "function", []⟩ :: ⟨.identifier, signature.name, []⟩ :: ⟨.openParen, "", []⟩ ::
    (signature.parameters ++ ⟨.closeParen, "", []⟩ :: (signature.result ++
      [⟨.openBrace, "", []⟩, ⟨.closeBrace, "", []⟩]))

/-- A declaration of the function. -/
structure Describes (signature : Signature) (decl : FunctionDecl) (arena : Arena) : Prop where
  name : decl.name = signature.name
  takes : signature.Takes decl.parameters arena
  gives : signature.Gives decl.returnType arena

/-- A node that declares the function. -/
def Means (signature : Signature) (id : NodeId) (arena : Arena) : Prop :=
  ∃ decl, arena.node? id = some (.function decl) ∧ signature.Describes decl arena

/-- The tokens of the parameters and of the result are parsed to nodes of which all that is said. -/
structure Parses (signature : Signature) : Prop where
  takes_later : ∀ {ids : List NodeId} {arena larger : Arena}, arena.Extends larger →
    signature.Takes ids arena → signature.Takes ids larger
  gives_later : ∀ {id : Option NodeId} {arena larger : Arena}, arena.Extends larger →
    signature.Gives id arena → signature.Gives id larger
  parameters : ∀ {s : ParseState} {depth : Nat} {mark : Mark} {after : List Mark},
    s.At depth (⟨.openParen, "", []⟩ ::
      (signature.parameters ++ ⟨.closeParen, "", []⟩ :: mark :: after)) →
    (parameterList expression).Yields s
      (⟨.openParen, "", []⟩ :: (signature.parameters ++ [⟨.closeParen, "", []⟩])) signature.Takes
  result : ∀ {s : ParseState} {depth : Nat} {after : List Mark},
    s.At depth (signature.result ++ ⟨.openBrace, "", []⟩ :: after) →
    (typeAfter .colon).Yields s signature.result signature.Gives

theorem Parses.describes_later {signature : Signature} (parses : signature.Parses)
    {decl : FunctionDecl} {arena larger : Arena} (grows : arena.Extends larger)
    (describes : signature.Describes decl arena) : signature.Describes decl larger :=
  ⟨describes.name, parses.takes_later grows describes.takes,
    parses.gives_later grows describes.gives⟩

theorem Parses.lasting {signature : Signature} (parses : signature.Parses) :
    Lasting signature.Means := by
  rintro id arena larger grows ⟨decl, found, describes⟩
  exact ⟨decl, grows _ _ found, parses.describes_later grows describes⟩

end Signature

section Parsing

variable {s : ParseState} {depth : Nat} {mark : Mark} {after : List Mark} {signature : Signature}

/-! Parameters. -/

/-- A parameter with a type. -/
structure Arena.TypedParameter (arena : Arena) (Q : NodeId → Arena → Prop) (name : String)
    (id : NodeId) (decl : ParameterDecl) : Prop where
  found : arena.node? id = some (.parameter decl)
  name : decl.name = name
  typed : ∃ type, decl.type = some type ∧ Q type arena

/-- A token with which the type of a parameter begins. It is no modifier. -/
def beginsType (kind : TokenKind) : Prop :=
  startsType kind = true ∧ kind ≠ .staticKw

theorem memberModifiers_looks (begins : beginsType s.cursor.kind) :
    memberModifiers s = (WrittenModifiers.none, s) := by
  refine untilDone_of_done ?_
  rw [kind_bind]
  have unmarked : WrittenModifiers.ofToken? s.cursor.kind = none := by
    obtain ⟨starts, other⟩ := begins
    revert starts other
    generalize s.cursor.kind = kind
    cases kind <;> first | exact fun _ _ => rfl | exact fun _ other => absurd rfl other | nofun
  rw [unmarked]
  rfl

theorem parameterType_yields {marks : List Mark} {Q : NodeId → Arena → Prop}
    (begins : beginsType s.cursor.kind) (typed : type.Yields s marks Q) :
    parameterType.Yields s marks fun out arena => ∃ id, out = some id ∧ Q id arena := by
  have optional : (some <$> type).Yields s marks fun out arena =>
      ∃ id, out = some id ∧ Q id arena :=
    .map typed fun id _ outcome => ⟨id, rfl, outcome⟩
  have sees : Parse.kind s = (s.cursor.kind, s) := rfl
  refine .look sees ?_
  have starts := begins.1
  split
  · rename_i is
    cases (is ▸ starts : startsType .variableName = true)
  · rename_i is
    cases (is ▸ starts : startsType .ampersand = true)
  · rename_i is
    cases (is ▸ starts : startsType .dotDotDot = true)
  · exact optional

theorem parameter_yields {expr : Parse NodeId} {marks : List Mark} {name : String}
    {Q : NodeId → Arena → Prop} (lasting : Lasting Q)
    (begins : beginsType s.cursor.kind) (last : mark.kind ≠ .equals ∧ mark.kind ≠ .openBrace)
    (typed : type.Yields s marks Q)
    (here : s.At depth (marks ++ ⟨.variableName, name, []⟩ :: mark :: after)) :
    (parameter expr).Yields s (marks ++ [⟨.variableName, name, []⟩])
      fun id arena => ∃ decl, arena.TypedParameter Q name id decl := by
  have plain : s.cursor.kind ≠ .attributeStart := by
    intro is
    cases (is ▸ begins.1 : startsType .attributeStart = true)
  refine .look (docAcrossAttributes_looks plain) (.position ?_)
  refine .look (memberModifiers_looks begins) ?_
  refine (parameterType_yields begins typed).bind ?_
  rintro _ t first ⟨id, rfl, outcome⟩
  have there := here.after first
  refine .acceptOther there nofun (.acceptOther there nofun (.value there ?_))
  refine .expect there rfl (by simp) fun second there => ?_
  refine .andThen (Q := fun _ _ => True) (.acceptOther there last.1 (.pure trivial)) ?_
  intro default u third _
  refine .at? (At.after there third) ?_
  rw [beq_eq_false_iff_ne.mpr last.2]
  refine .adds fun parameter arena grows found => ⟨_, found, rfl, id, rfl, ?_⟩
  exact lasting _ _ _ ((second.trans third).arena.trans grows) outcome

/-! Lists of parameters. -/

theorem parameterList_empty {expr : Parse NodeId}
    (here : s.At depth (⟨.openParen, "", []⟩ :: ⟨.closeParen, "", []⟩ :: mark :: after)) :
    (parameterList expr).Yields s [⟨.openParen, "", []⟩, ⟨.closeParen, "", []⟩]
      fun out _ => out = [] := by
  refine .expect here rfl (by simp) fun _ there => ?_
  rw [← List.nil_append [(⟨.closeParen, "", []⟩ : Mark)]]
  refine Yields.bind (Q := fun (out : List NodeId) _ => out = [])
    (.done (.kind there (.pure ⟨rfl, rfl⟩))) ?_
  rintro _ t passes rfl
  exact .expect (At.after there passes) rfl (by simp) fun _ _ => .pure rfl

theorem parameterList_single {expr : Parse NodeId} {marks : List Mark}
    {P : NodeId → Arena → Prop} (lasting : Lasting P)
    (begins : ∀ {t : ParseState}, t.At depth (marks ++ ⟨.closeParen, "", []⟩ :: mark :: after) →
      t.cursor.kind ≠ .closeParen ∧ t.cursor.kind ≠ .endOfFile)
    (single : ∀ {t : ParseState}, t.At depth (marks ++ ⟨.closeParen, "", []⟩ :: mark :: after) →
      (parameter expr).Yields t marks P)
    (here : s.At depth (⟨.openParen, "", []⟩ ::
      (marks ++ ⟨.closeParen, "", []⟩ :: mark :: after))) :
    (parameterList expr).Yields s (⟨.openParen, "", []⟩ :: (marks ++ [⟨.closeParen, "", []⟩]))
      fun out arena => ∃ id, out = [id] ∧ P id arena := by
  refine .expect here rfl (by simp) fun _ there => ?_
  obtain ⟨noClose, noEnd⟩ := begins there
  generalize advance.next s = t at *
  have sees : Parse.kind t = (t.cursor.kind, t) := rfl
  refine Yields.bind (Q := fun (out : List NodeId) arena => ∃ id, out = [id] ∧ P id arena)
    (.done (.look sees ?_)) ?_
  · split
    · exact absurd ‹_› noClose
    · exact absurd ‹_› noEnd
    · refine (single there).andThen fun id u passes outcome => ?_
      exact .acceptOther (there.after passes) nofun (.pure ⟨rfl, id, rfl, outcome⟩)
  · rintro _ u passes ⟨id, rfl, outcome⟩
    refine .expect (there.after passes) rfl (by simp) fun last _ => .pure ⟨id, rfl, ?_⟩
    exact lasting _ _ _ last.arena outcome

/-! Declarations. -/

theorem functionBody_empty {expr : Parse NodeId}
    (here : s.At depth (⟨.openBrace, "", []⟩ :: ⟨.closeBrace, "", []⟩ :: mark :: after)) :
    (functionBody expr).Yields s [⟨.openBrace, "", []⟩, ⟨.closeBrace, "", []⟩]
      fun _ _ => True := by
  have opens : (bodyStep expr {}).Yields s [⟨.openBrace, "", []⟩]
      fun out _ => out = ({ depth := 1, previous := .openBrace }, true) :=
    .kind here (.advance here (by simp) fun _ _ => .pure rfl)
  have there := At.after here opens.passes
  rw [← List.singleton_append]
  refine .more (opens.mono fun _ _ out => congrArg Prod.snd out) (by simp) ?_
  rw [congrArg Prod.fst opens.outcome]
  exact .done (.kind there (.advance there (by simp) fun _ _ => .pure ⟨rfl, trivial⟩))

theorem functionDecl_yields (modifiers : WrittenModifiers) (doc : Option String)
    (parses : signature.Parses) (here : s.At depth (signature.marks ++ mark :: after)) :
    (functionDecl expression modifiers doc).Yields s signature.marks signature.Describes := by
  have split (rest : List Mark) : ⟨.openParen, "", []⟩ ::
      (signature.parameters ++ ⟨.closeParen, "", []⟩ :: rest) =
      (⟨.openParen, "", []⟩ :: (signature.parameters ++ [⟨.closeParen, "", []⟩])) ++ rest := by
    simp
  simp only [Signature.marks, List.cons_append, List.append_assoc, List.nil_append] at here ⊢
  refine .expect here rfl (by simp) fun _ there => .acceptOther there nofun ?_
  rw [← List.singleton_append]
  refine (word?_yields there).bind ?_
  rintro _ t named rfl
  have there := At.after there named
  obtain ⟨next, others, following⟩ : ∃ next others, signature.result ++
      ⟨.openBrace, "", []⟩ :: ⟨.closeBrace, "", []⟩ :: mark :: after = next :: others :=
    List.exists_cons_of_ne_nil (by simp)
  have parameters := parses.parameters (following ▸ there)
  rw [split] at there ⊢
  refine parameters.bind fun ids u listed takes => ?_
  have there := there.after listed
  refine (parses.result there).bind fun id v typed gives => ?_
  have there := there.after typed
  refine .at? there ((functionBody_empty there).andThen fun body w passed _ => .pure ?_)
  exact ⟨rfl, parses.takes_later (typed.trans passed).arena takes,
    parses.gives_later passed.arena gives⟩

theorem functionStatement_yields (doc : Option String) (parses : signature.Parses)
    (here : s.At depth (signature.marks ++ mark :: after)) :
    (functionStatement doc).Yields s signature.marks signature.Means := by
  refine .position ((functionDecl_yields _ doc parses here).andThen fun decl t _ describes => ?_)
  exact .adds fun id arena grows found => ⟨decl, found, parses.describes_later grows describes⟩

/-- Such tokens are those of a function. -/
theorem declaresFunction {name : String}
    (here : s.At depth (⟨.functionKw, "function", []⟩ :: ⟨.identifier, name, []⟩ :: after)) :
    s.cursor.kind ≠ .attributeStart ∧ isFunctionStatement s.cursor = true := by
  have kind : s.cursor.kind = .functionKw := here.kind
  have next : s.cursor.advance.kind = .identifier := here.peek
  constructor
  · rw [kind]
    decide
  · simp [isFunctionStatement, kind, next, Cursor.isWord, TokenKind.isWord]

/-- A statement that declares the function. -/
theorem statement_function (parses : signature.Parses)
    (here : s.At depth (signature.marks ++ mark :: after)) :
    statement.Yields s signature.marks
      fun out arena => ∃ id, out = some id ∧ signature.Means id arena := by
  obtain ⟨plain, declares⟩ := declaresFunction here
  refine .position (.look (docAcrossAttributes_looks plain) (.kind here ?_))
  refine .ahead? declares ((functionStatement_yields _ parses here).andThen ?_)
  exact fun id t _ means => .pure ⟨id, rfl, means⟩

end Parsing

/-- The body of a function without statements, at the end of a file. -/
theorem readsAs_emptyBody : ReadsAs [' ', '\x7b', '\x7d']
    [⟨.openBrace, "", []⟩, ⟨.closeBrace, "", []⟩, ⟨.endOfFile, "", []⟩] := by
  have last : ReadsAs ['\x7d'] [⟨.closeBrace, "", []⟩, ⟨.endOfFile, "", []⟩] :=
    ReadsAs.nil.token ['\x7d'] rfl (by decide) (by decide) (by decide)
  exact (last.token ['\x7b'] rfl (by decide) (by decide) (by decide)).blank

def functionWord : Word := ⟨['f', 'u', 'n', 'c', 't', 'i', 'o', 'n'], by decide, by decide⟩
def functionName : Word := ⟨['f'], by decide, by decide⟩
def parameterName : Word := ⟨['x'], by decide, by decide⟩

end StaticReflection
