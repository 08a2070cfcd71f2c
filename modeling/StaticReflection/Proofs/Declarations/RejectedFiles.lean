import StaticReflection.Proofs.Declarations.LastDeclaration
import StaticReflection.Proofs.Parser.StatementNodes

namespace StaticReflection

open Parse ParseState Grammar

/-! A file is rejected for what its last statement is reported for: the statements before it are
parsed, and nothing that comes after it takes the report back. -/

section Statements

variable {s : ParseState} {depth : Nat} {front : Mark} {first after rest : List Mark}
  {phrases : List Phrase}

theorem Parse.Yields.onward_faults {α β : Type} {parse : Parse α} {next : α → Parse β}
    {Q : α → Arena → Prop} (one : parse.Yields s first Q) (goesOn : parse.GoesOn)
    (here : s.Stands depth (first ++ rest))
    (two : ∀ value t, s.Passes first t → t.Stands depth rest → Q value t.arena →
      (next value).Faults t) : (parse >>= next).Faults s :=
  two _ _ one.passes (here.later one.passes (goesOn s)) one.outcome

theorem nextStatement_faults (parser : Statements) (list : List NodeId)
    (here : s.At depth (front :: after)) (going : s.halted = false)
    (other : front.kind ≠ .endOfFile ∧ front.kind ≠ .closeBrace)
    (continues : parser.stops front.kind = false) (faults : parser.one.Faults s) :
    (nextStatement parser.stops false parser.one list).Faults s := by
  refine .kind here (.look rfl ?_)
  simp only [going, beq_eq_false_iff_ne.mpr other.1, beq_eq_false_iff_ne.mpr other.2, continues]
  refine faults.first fun _ => .bind get_goesOn fun _ => ?_
  exact pure_goesOn _

/-- The statements before it are passed, and then the last one is reported. -/
theorem statements_faults (parser : Statements) (parses : ∀ phrase ∈ phrases, phrase.Parses)
    (here : s.Stands depth (phraseMarks phrases ++ front :: after)) (going : s.halted = false)
    (other : front.kind ∉ [TokenKind.endOfFile, .closeBrace, .namespaceKw])
    (faults : ∀ {t : ParseState}, t.At depth (front :: after) → statement.Faults t) :
    (statements parser.stops false parser.one).Faults s := by
  suffices onward : ∀ list,
      (untilDone list (nextStatement parser.stops false parser.one)).Faults s from onward []
  induction phrases generalizing s with
  | nil =>
      intro list
      have there : s.At depth (front :: after) := here.toAt
      simp only [List.mem_cons, List.not_mem_nil, or_false, not_or] at other
      have last : parser.one.Faults s := by
        rw [Faults, Parse.next, parser.same (there.kind ▸ other.2.2)]
        exact faults there
      refine .inStep ?_ (nextStatement_goesOn parser.goesOn)
      exact nextStatement_faults parser list there going ⟨other.1, other.2.1⟩
        (parser.continues other.2.2) last
  | cons phrase phrases ih =>
      intro list
      rw [List.forall_mem_cons] at parses
      have split : phraseMarks (phrase :: phrases) = phrase.marks ++ phraseMarks phrases :=
        List.flatMap_cons
      rw [split, List.append_assoc] at here
      obtain ⟨mark, others, following⟩ : ∃ mark others,
          phraseMarks phrases ++ front :: after = mark :: others :=
        List.exists_cons_of_ne_nil (by simp)
      have one := nextStatement_yields parser parses.1 list (following ▸ here) going
      have there := here.later one.passes (nextStatement_goesOn parser.goesOn list s)
      obtain ⟨_, _, begins, -⟩ := parses.1.starts
      refine .more (one.mono fun _ _ outcome => outcome.1) (by simp [begins]) ?_
      exact ih parses.2 there (one.passes.halted.trans going) _

/-- A namespace that goes on to the end of the file. -/
theorem namespaceStatement_faults (name : ImportedName)
    (parses : ∀ phrase ∈ phrases, phrase.Parses)
    (here : s.Stands depth (namespaceWord.name.mark :: name.mark :: ⟨.semicolon, "", []⟩ ::
      (phraseMarks phrases ++ front :: after))) (going : s.halted = false)
    (other : front.kind ∉ [TokenKind.endOfFile, .closeBrace, .namespaceKw])
    (faults : ∀ {t : ParseState}, t.At depth (front :: after) → statement.Faults t) :
    namespaceStatement.Faults s := by
  have advanced : advance.Yields s [namespaceWord.name.mark] fun _ _ => True :=
    ⟨Yields.advance_passes here.toAt (by simp), trivial⟩
  refine .position (.look rfl (advanced.onward_faults advance_goesOn here ?_))
  rintro _ t first there -
  refine (name.namespaceName_yields there.toAt).onward_faults
    (goesOn_of_composed namespaceName_composed) there ?_
  rintro _ u second there rfl
  refine .acceptOther there.toAt nofun ?_
  dsimp only
  rw [if_neg Bool.false_ne_true, if_neg name.stem_ne_empty]
  refine (expect_yields there.toAt rfl (by simp)).onward_faults
    (goesOn_of_composed expect_composed) there ?_
  rintro _ v third there -
  have running : v.halted = false := by
    rw [third.halted, second.halted, first.halted, going]
  have list := statements_faults .ofNamespace parses there running other faults
  exact list.first fun _ => addNode_goesOn _ _

theorem fileStatements_faults (space : Option ImportedName)
    (parses : ∀ phrase ∈ phrases, phrase.Parses)
    (here : s.Stands depth
      (symbolMarks (headerSymbols space) ++ phraseMarks phrases ++ front :: after))
    (going : s.halted = false)
    (other : front.kind ∉ [TokenKind.endOfFile, .closeBrace, .namespaceKw])
    (faults : ∀ {t : ParseState}, t.At depth (front :: after) → statement.Faults t) :
    fileStatements.Faults s := by
  cases space with
  | none => exact statements_faults .ofFile parses here going other faults
  | some name =>
      have marks : symbolMarks (headerSymbols (some name)) =
          [namespaceWord.name.mark, name.mark, ⟨.semicolon, "", []⟩] := by
        simp [headerSymbols, Word.symbol, ImportedName.symbol, Symbol.marks]
      rw [marks] at here
      have top : topStatement.Faults s := .at? here.toAt
        ((namespaceStatement_faults name parses here going other faults).first fun _ =>
          pure_goesOn _)
      have one := nextStatement_faults .ofFile [] here.toAt going (by decide) rfl top
      exact one.inStep (nextStatement_goesOn (goesOn_of_composed topStatement_composed))

end Statements

theorem SourceFile.diagnostics_parse (path : String) (text : Text) :
    (SourceFile.parse path text).diagnostics =
      (fileStatements.next (.ofText text)).diagnostics text := rfl

/-- After a heading, a statement of which something is reported. -/
theorem Heading.parse_rejects (heading : Heading) (path : String) {text rest : Text} {front : Mark}
    {after : List Mark} (spells : Spells heading.symbols text) (begins : frontOf rest = .token)
    (inside : '>' ∉ rest) (reads : ReadsAs rest (front :: after))
    (other : front.kind ∉ [TokenKind.endOfFile, .closeBrace, .namespaceKw])
    (faults : ∀ {s : ParseState}, s.At 0 (front :: after) → statement.Faults s) :
    (SourceFile.parse path (openTag ++ (text ++ rest))).diagnostics ≠ [] := by
  obtain ⟨begins, plain, whole⟩ := heading.reads_before spells begins inside reads
  obtain ⟨start, -⟩ := ParseState.ofText_stands (by simp) begins plain whole
  have reported := fileStatements_faults heading.space heading.phrases_parse start rfl other faults
  rw [SourceFile.diagnostics_parse]
  exact fun silent => reported (reported_of_diagnostics silent)

end StaticReflection
