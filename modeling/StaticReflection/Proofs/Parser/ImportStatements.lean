import StaticReflection.Proofs.Parser.Persistence
import StaticReflection.Proofs.Scanner.RenderedNames
import StaticReflection.Proofs.Scanner.Words

namespace StaticReflection

open Parse ParseState Grammar

/-! Import statements as they are written, and what the parser makes of them. -/

/-! Syntax. -/

/-- The word for what is imported in place of a class. -/
inductive ImportWord where
  | function
  | const
  deriving DecidableEq, Repr

namespace ImportWord

def word : ImportWord → Word
  | .function => functionWord
  | .const => constWord

def kind : ImportWord → ImportKind
  | .function => .function
  | .const => .constant

end ImportWord

/-- A name that can be imported: it is no reserved word. -/
structure ImportedName extends WrittenName where
  free : toWrittenName.IsFree

/-- One import of a group, with its own kind and its new name, if it has them. -/
structure GroupItem where
  kind : Option ImportWord := none
  name : ImportedName
  relative : name.rooted = false
  renamed : Option Word := none

inductive ImportClause where
  | single (name : ImportedName) (renamed : Option Word)
  /-- A comma may stand after the last one of the items. -/
  | group (space : WrittenName) (items : List GroupItem) (trailing : Bool)

structure ImportStatement where
  kind : Option ImportWord := none
  first : ImportClause
  more : List ImportClause := []

def useWord : Word := ⟨['u', 's', 'e'], by decide, by decide⟩
def asWord : Word := ⟨['a', 's'], by decide, by decide⟩

def Word.symbol (word : Word) : Symbol :=
  .name word.name

def ImportedName.symbol (name : ImportedName) : Symbol :=
  .name name.toWrittenName

def kindSymbols (kind : Option ImportWord) : List Symbol :=
  kind.toList.map fun word => word.word.symbol

def renamedSymbols : Option Word → List Symbol
  | none => []
  | some word => [asWord.symbol, word.symbol]

/-- Parts between commas, and a comma after them if they are said to trail one. -/
def betweenCommas (trailing : Bool) : List (List Symbol) → List Symbol
  | [] => []
  | [last] => if trailing then last ++ [.comma] else last
  | part :: next :: rest => part ++ .comma :: betweenCommas trailing (next :: rest)

def GroupItem.symbols (item : GroupItem) : List Symbol :=
  kindSymbols item.kind ++ item.name.symbol :: renamedSymbols item.renamed

def ImportClause.symbols : ImportClause → List Symbol
  | .single name renamed => name.symbol :: renamedSymbols renamed
  | .group space items trailing =>
      .opening space :: (betweenCommas trailing (items.map GroupItem.symbols) ++ [.closing])

def ImportStatement.clauses (statement : ImportStatement) : List ImportClause :=
  statement.first :: statement.more

def ImportStatement.symbols (statement : ImportStatement) : List Symbol :=
  useWord.symbol :: (kindSymbols statement.kind ++
    (betweenCommas false (statement.clauses.map ImportClause.symbols) ++ [.semicolon]))

/-! What is imported. -/

/-- The name without the separator before it. -/
def WrittenName.stem (name : WrittenName) : String :=
  String.ofList name.path

def kindOr (kind : Option ImportWord) (other : ImportKind) : ImportKind :=
  (kind.map ImportWord.kind).getD other

def GroupItem.item (kind : ImportKind) (space : WrittenName) (item : GroupItem) : ImportItem where
  kind := kindOr item.kind kind
  name := space.stem ++ "\\" ++ item.name.value
  renamed := item.renamed.map Word.value

def ImportClause.items (kind : ImportKind) : ImportClause → List ImportItem
  | .single name renamed => [⟨kind, name.stem, renamed.map Word.value⟩]
  | .group space items _ => items.map (GroupItem.item kind space)

def ImportStatement.items (statement : ImportStatement) : List ImportItem :=
  statement.clauses.flatMap (ImportClause.items (kindOr statement.kind .classLike))

/-! Names with separators around them. -/

namespace WrittenName

theorem isNamePart_of_getLast? {word : Word} {more : List Word} {c : Char}
    (last : (word.text ++ furtherText more).getLast? = some c) : isNamePart c = true := by
  induction more generalizing word with
  | nil =>
      rw [furtherText_nil, List.append_nil] at last
      exact List.all_eq_true.mp word.parts c (List.mem_of_getLast? last)
  | cons next more ih =>
      have written : (next.text ++ furtherText more) ≠ [] := by
        obtain ⟨d, text, spelled, _⟩ := next.exists_cons
        simp [spelled]
      refine @ih next ?_
      rw [furtherText_cons, List.getLast?_append, List.getLast?_cons_of_ne_nil written] at last
      cases same : (next.text ++ furtherText more).getLast? with
      | none => exact absurd (List.getLast?_eq_none_iff.mp same) written
      | some d => simpa [same] using last

theorem getLast?_path (name : WrittenName) : name.path.getLast? ≠ some '\\' :=
  fun last => by cases isNamePart_of_getLast? last

theorem head?_path_append (name : WrittenName) (rest : Text) :
    (name.path ++ rest).head? ≠ some '\\' := by
  obtain ⟨c, more, spelled, start⟩ := name.first.exists_cons
  rw [path, spelled]
  rintro ⟨⟩
  cases start

theorem stem_ne_empty (name : WrittenName) : name.stem ≠ "" := by
  obtain ⟨c, more, spelled, start⟩ := name.first.exists_cons
  intro empty
  have nothing := congrArg String.toList empty
  simp [stem, path, spelled] at nothing

theorem stripSeparator_text (name : WrittenName) (rest : Text) :
    stripSeparator (String.ofList (name.text ++ rest)) = String.ofList (name.path ++ rest) := by
  unfold stripSeparator text
  rw [String.toList_ofList]
  cases name.rooted with
  | true => rfl
  | false =>
      simp only [Bool.false_eq_true, if_false]
      split
      · rename_i begins
        exact absurd (congrArg List.head? begins) (name.head?_path_append rest)
      · rfl

theorem stripSeparator_value (name : WrittenName) : stripSeparator name.value = name.stem := by
  simpa [value, stem] using name.stripSeparator_text []

theorem dropFinalSeparators_stem (name : WrittenName) :
    dropFinalSeparators (String.ofList (name.path ++ ['\\'])) = name.stem := by
  have kept : name.path.reverse.dropWhile (· == '\\') = name.path.reverse := by
    cases reversed : name.path.reverse with
    | nil => rfl
    | cons c rest =>
        have other : c ≠ '\\' := by
          rintro rfl
          apply name.getLast?_path
          rw [← List.head?_reverse, reversed]
          rfl
        simp [other]
  simp [dropFinalSeparators, kept, stem]

end WrittenName

/-! Parsing. -/

/-- Words of the text are the values of the tokens that are left. -/
def ParseState.Faithful (s : ParseState) : Prop :=
  ∀ token ∈ s.tokens, token.IsFaithful

/-- A state before tokens of the given marks that are faithful to the text. -/
structure ParseState.Stands (s : ParseState) (depth : Nat) (marks : List Mark) : Prop extends
    s.At depth marks where
  faithful : s.Faithful

section Parsing

variable {s t : ParseState} {depth : Nat} {mark : Mark}
  {between rest first second after : List Mark}

theorem ParseState.Stands.later (here : s.Stands depth (between ++ rest))
    (passes : s.Passes between t) (onward : s.Precedes t) : t.Stands depth rest :=
  ⟨here.toAt.after passes, fun token among => here.faithful token (onward.tokens.subset among)⟩

theorem ParseState.Stands.advance (here : s.Stands depth (mark :: rest)) (more : rest ≠ []) :
    (advance.next s).Stands depth rest :=
  have split : s.Stands depth ([mark] ++ rest) := here
  split.later (Yields.advance_passes here.toAt more) (advance_goesOn s)

/-- The state after the first part is a later one. -/
theorem Parse.Yields.onward {α β : Type} {parse : Parse α} {next : α → Parse β}
    {Q : α → Arena → Prop} {P : β → Arena → Prop} (one : parse.Yields s first Q)
    (goesOn : parse.GoesOn) (here : s.Stands depth (first ++ rest))
    (two : ∀ value t, s.Passes first t → t.Stands depth rest → Q value t.arena →
      (next value).Yields t second P) : (parse >>= next).Yields s (first ++ second) P :=
  have rest := two _ _ one.passes (here.later one.passes (goesOn s)) one.outcome
  ⟨one.passes.trans rest.passes, rest.outcome⟩

theorem Word.mark_name (word : Word) : word.name.mark = ⟨word.kind, word.value, []⟩ := by
  simp [WrittenName.mark, WrittenName.kind, WrittenName.value, WrittenName.text, WrittenName.path,
    WrittenName.isQualified, name, kind, value]

theorem word?_yields_word (word : Word) (here : s.Stands depth (word.name.mark :: mark :: after)) :
    word?.Yields s [word.name.mark] fun out _ => out = some word.value := by
  rw [word.mark_name] at here ⊢
  have kind : s.cursor.current.kind = word.kind := here.kind
  have isWord : s.cursor.isWord = true := by
    rw [Cursor.isWord, here.kind]
    exact word.isWord_kind
  refine .ahead? isWord (.look rfl (.advance here.toAt (by simp) fun _ _ => .pure ?_))
  have spelled : String.ofList s.cursor.current.lexeme = word.value := by
    have faithful := here.faithful _ List.mem_cons_self
    rw [Token.IsFaithful, kind] at faithful
    rw [faithful word.isWord_kind, here.value]
  split
  · rw [here.value]
  · rw [spelled]

theorem renamed?_yields (name : Option Word)
    (here : s.Stands depth (symbolMarks (renamedSymbols name) ++ mark :: after))
    (other : mark.kind ≠ .asKw) :
    renamed?.Yields s (symbolMarks (renamedSymbols name))
      fun out _ => out = name.map Word.value := by
  cases name with
  | none => exact .acceptOther here.toAt other (.pure rfl)
  | some word =>
      refine .accept here.toAt rfl (by simp) fun _ _ => ?_
      exact word?_yields_word word (here.advance (by simp))

theorem importKind?_yields (kind : Option ImportWord)
    (here : s.Stands depth (symbolMarks (kindSymbols kind) ++ mark :: after))
    (other : mark.kind ≠ .functionKw ∧ mark.kind ≠ .constKw) :
    importKind?.Yields s (symbolMarks (kindSymbols kind))
      fun out _ => out = kind.map ImportWord.kind := by
  cases kind with
  | none =>
      refine .kind here.toAt ?_
      split
      · exact absurd ‹_› other.1
      · exact absurd ‹_› other.2
      · exact .pure rfl
  | some word =>
      cases word <;> exact .kind here.toAt (.advance here.toAt (by simp) fun _ _ => .pure rfl)

/-- What follows a part of a list, what of it belongs to the list, and whether the list goes on. -/
inductive Separator (close : Mark) : (next : Mark) → (rest passed : List Mark) → Bool → Prop
  | comma {rest : List Mark} (more : rest ≠ []) :
      Separator close ⟨.comma, "", []⟩ rest [⟨.comma, "", []⟩] true
  | close {rest : List Mark} : Separator close close rest [] false

theorem Separator.kind_ne {close next : Mark} {rest passed : List Mark} {more : Bool}
    (separator : Separator close next rest passed more) {kind : TokenKind}
    (other : close.kind ≠ kind ∧ .comma ≠ kind) : next.kind ≠ kind := by
  cases separator with
  | comma more => exact other.2
  | close => exact other.1

theorem Separator.accepts {α : Type} {close next : Mark} {rest passed : List Mark} {more : Bool}
    (separator : Separator close next rest passed more) (other : close.kind ≠ .comma) (value : α)
    (here : s.At depth (next :: rest)) :
    (accept .comma >>= fun again => pure (value, again)).Yields s passed
      fun out _ => out = (value, more) := by
  cases separator with
  | comma more => exact .accept here rfl more fun _ _ => .pure rfl
  | close => exact .acceptOther here other (.pure rfl)

/-- A loop over parts between commas. -/
theorem betweenCommas_yields {σ ι : Type} {symbols : ι → List Symbol} {add : σ → ι → σ}
    {step : σ → Parse (σ × Bool)} {trailing : Bool} {close : Mark}
    (goesOn : ∀ state, (step state).GoesOn)
    (each : ∀ state part (s : ParseState) {next rest passed more},
      s.Stands depth (symbolMarks (symbols part) ++ next :: rest) →
      Separator close next rest passed more →
      (step state).Yields s (symbolMarks (symbols part) ++ passed)
        fun out _ => out = (add state part, more))
    (stop : trailing = true → ∀ state (s : ParseState), s.Stands depth (close :: after) →
      (step state).Yields s [] fun out _ => out = (state, false))
    (part : ι) (more : List ι) (start : σ)
    (here : s.Stands depth
      (symbolMarks (betweenCommas trailing ((part :: more).map symbols)) ++ close :: after)) :
    (untilDone start step).Yields s
      (symbolMarks (betweenCommas trailing ((part :: more).map symbols)))
      fun out _ => out = (part :: more).foldl add start := by
  -- The part before a comma is followed by whatever the loop reads afterwards.
  have onward (part : ι) (start : σ) (s : ParseState) (others : List Mark)
      (here : s.Stands depth (symbolMarks (symbols part) ++ ⟨.comma, "", []⟩ ::
        (others ++ close :: after))) {out : σ}
      (rest : ∀ t : ParseState, t.Stands depth (others ++ close :: after) →
        (untilDone (add start part) step).Yields t others fun value _ => value = out) :
      (untilDone start step).Yields s (symbolMarks (symbols part) ++ ⟨.comma, "", []⟩ :: others)
        fun value _ => value = out := by
    have one := each start part s here (.comma (by simp))
    rw [List.append_cons] at here ⊢
    refine .more (one.mono fun _ _ same => congrArg Prod.snd same) (by simp) ?_
    rw [congrArg Prod.fst one.outcome]
    exact rest _ (here.later one.passes (goesOn _ _))
  induction more generalizing part start s with
  | nil =>
      cases trailing with
      | false =>
          have last := each start part s here .close
          rw [List.append_nil] at last
          exact .done (last.mono fun _ _ same => by simp [same])
      | true =>
          simp only [List.map_cons, List.map_nil, betweenCommas, if_true, symbolMarks_append,
            symbolMarks_cons, Symbol.marks, symbolMarks_nil, List.append_assoc,
            List.singleton_append] at here ⊢
          refine onward part start s [] here fun t here => ?_
          exact .done ((stop rfl _ t here).mono fun _ _ same => by simp [same])
  | cons next more ih =>
      simp only [List.map_cons, betweenCommas, symbolMarks_append, symbolMarks_cons, Symbol.marks,
        List.append_assoc, List.singleton_append] at here ⊢
      exact onward part start s _ here fun t here => ih next (add start part) here

theorem ImportedName.isName (name : ImportedName) (here : s.At depth (name.mark :: after)) :
    s.cursor.isName = true := by
  rw [Cursor.isName, here.kind]
  obtain kind | kind := name.free <;> simp [WrittenName.mark, kind]

theorem ImportedName.kind_ne (name : ImportedName) {kind : TokenKind}
    (other : kind ≠ .identifier ∧ kind ≠ .qualifiedName) : name.mark.kind ≠ kind := by
  rintro rfl
  obtain is | is := name.free
  · exact other.1 is
  · exact other.2 is

theorem GroupItem.marks_eq (item : GroupItem) (others : List Mark) :
    ∃ first rest, symbolMarks item.symbols ++ others = first :: rest ∧
      first.kind ≠ .closeBrace ∧ first.kind ≠ .endOfFile := by
  cases kind : item.kind with
  | none =>
      refine ⟨item.name.mark, symbolMarks (renamedSymbols item.renamed) ++ others, ?_, ?_, ?_⟩
      · simp [symbols, kind, kindSymbols, ImportedName.symbol, Symbol.marks]
      · exact item.name.kind_ne (by decide)
      · exact item.name.kind_ne (by decide)
  | some word =>
      refine ⟨word.word.name.mark, item.name.mark ::
        (symbolMarks (renamedSymbols item.renamed) ++ others), ?_, ?_, ?_⟩
      · simp [symbols, kind, kindSymbols, ImportedName.symbol, Word.symbol, Symbol.marks]
      · cases word <;> decide
      · cases word <;> decide

/-- What a group does with one of its items. -/
def groupStep (kind : ImportKind) (space : String) (items : List ImportItem) :
    Parse (List ImportItem × Bool) := do
  match ← Parse.kind with
  | .closeBrace | .endOfFile => return (items, false)
  | _ =>
      let kind := (← importKind?).getD kind
      if ← ahead? Cursor.isName then
        let suffix ← value
        advance
        let renamed ← renamed?
        let items := items ++ [⟨kind, space ++ "\\" ++ suffix, renamed⟩]
        return (items, ← accept .comma)
      else
        report "Expected name in group use"
        return (items, false)

theorem importGroup_eq (kind : ImportKind) (space : String) (known : List ImportItem) :
    importGroup kind space known = (do
      let items ← untilDone known (groupStep kind space)
      let _ ← expect .closeBrace
      return items) := rfl

theorem groupStep_composed {nested : Nested} (kind : ImportKind) (space : String)
    (items : List ImportItem) : (groupStep kind space items).Composed nested := by
  refine .bind kind_composed fun kind => ?_
  split
  · exact .pure _
  · exact .pure _
  · refine .bind importKind?_composed fun _ => .bind (ahead?_composed _) fun _ => .ite ?_ ?_
    · refine .bind value_composed fun _ => .bind .advance fun _ => ?_
      exact .bind renamed?_composed fun _ => .bind accept_composed fun _ => .pure _
    · exact .bind (.report _) fun _ => .pure _

theorem groupStep_yields {kind : ImportKind} {space : WrittenName} {items : List ImportItem}
    {next : Mark} {passed : List Mark} {more : Bool} (item : GroupItem)
    (here : s.Stands depth (symbolMarks item.symbols ++ next :: rest))
    (separator : Separator ⟨.closeBrace, "", []⟩ next rest passed more) :
    (groupStep kind space.stem items).Yields s (symbolMarks item.symbols ++ passed)
      fun out _ => out = (items ++ [item.item kind space], more) := by
  obtain ⟨front, others, split, noClose, noEnd⟩ := item.marks_eq (next :: rest)
  refine .kind (split ▸ here.toAt) ?_
  split
  · exact absurd ‹_› noClose
  · exact absurd ‹_› noEnd
  simp only [GroupItem.symbols, ImportedName.symbol, symbolMarks_append, symbolMarks_cons,
    Symbol.marks, List.append_assoc, List.cons_append, List.nil_append] at here ⊢
  have named : item.name.mark.kind ≠ .functionKw := item.name.kind_ne (by decide)
  have other : item.name.mark.kind ≠ .constKw := item.name.kind_ne (by decide)
  refine Yields.onward (importKind?_yields item.kind here ⟨named, other⟩)
    (goesOn_of_composed importKind?_composed) here ?_
  rintro _ t _ there rfl
  refine .ahead? (item.name.isName there.toAt) (.value there.toAt ?_)
  refine .advance there.toAt (by simp) fun _ _ => ?_
  have there := there.advance (by simp)
  refine Yields.onward (renamed?_yields item.renamed there (separator.kind_ne (by decide)))
    (goesOn_of_composed renamed?_composed) there ?_
  rintro _ u _ there rfl
  exact separator.accepts (by decide) _ there.toAt

/-- After the last item, or where there is none, the group is closed. -/
theorem groupStep_closes {kind : ImportKind} {space : String} (items : List ImportItem)
    (here : s.At depth (⟨.closeBrace, "", []⟩ :: after)) :
    (groupStep kind space items).Yields s [] fun out _ => out = (items, false) :=
  .kind here (.pure rfl)

theorem importGroup_yields {trailing : Bool} (kind : ImportKind) (space : WrittenName)
    (items : List GroupItem) (known : List ImportItem)
    (here : s.Stands depth (symbolMarks (betweenCommas trailing (items.map GroupItem.symbols)) ++
      ⟨.closeBrace, "", []⟩ :: mark :: after)) :
    (importGroup kind space.stem known).Yields s
      (symbolMarks (betweenCommas trailing (items.map GroupItem.symbols)) ++
        [⟨.closeBrace, "", []⟩])
      fun out _ => out = known ++ items.map (GroupItem.item kind space) := by
  have loop : (untilDone known (groupStep kind space.stem)).Yields s
      (symbolMarks (betweenCommas trailing (items.map GroupItem.symbols)))
      fun out _ => out = items.foldl (fun known item => known ++ [item.item kind space]) known := by
    cases items with
    | nil => exact .done ((groupStep_closes known here.toAt).mono fun _ _ same => by simp [same])
    | cons first more =>
        refine betweenCommas_yields (fun _ => goesOn_of_composed (groupStep_composed _ _ _)) ?_
          (fun _ state s here => groupStep_closes state here.toAt) first more known here
        exact fun state item s _ _ _ _ here separator => groupStep_yields item here separator
  have composed : (untilDone known (groupStep kind space.stem)).Composed outermost :=
    .untilDone (groupStep_composed _ _) _
  rw [importGroup_eq]
  refine loop.onward (goesOn_of_composed composed) here ?_
  rintro _ t _ there rfl
  refine .expect there.toAt rfl (by simp) fun _ _ => .pure ?_
  rw [List.foldl_append_eq_append, ← List.flatMap_def, List.map_eq_flatMap]

/-- What an import statement does with one of its clauses. -/
def clauseStep (kind : ImportKind) (items : List ImportItem) :
    Parse (List ImportItem × Bool) := do
  if ← ahead? Cursor.isName then
    let name := stripSeparator (← value)
    advance
    let items ← if ← acceptIf (name.toList.getLast? == some '\\') .openBrace then
        importGroup kind (dropFinalSeparators name) items
      else
        pure (items ++ [⟨kind, name, ← renamed?⟩])
    return (items, ← accept .comma)
  else
    reportExpected "Expected name"
    return (items, false)

theorem importStatement_eq : importStatement = (do
    let pos ← position
    advance
    let kind := (← importKind?).getD .classLike
    let items ← untilDone [] (clauseStep kind)
    let _ ← expect .semicolon
    addNode (.imports items) pos) := rfl

theorem clauseStep_composed {nested : Nested} (kind : ImportKind) (items : List ImportItem) :
    (clauseStep kind items).Composed nested := by
  refine .bind (ahead?_composed _) fun _ => .ite ?_ ?_
  · refine .bind value_composed fun _ => .bind .advance fun _ => ?_
    refine .bind acceptIf_composed fun _ => .ite ?_ ?_
    · exact .bind (importGroup_composed _ _ _) fun _ => .bind accept_composed fun _ => .pure _
    · refine .bind renamed?_composed fun _ => .bind (.pure _) fun _ => ?_
      exact .bind accept_composed fun _ => .pure _
  · exact .bind (reportExpected_composed _) fun _ => .pure _

/-- Where a single name ends, no group begins. -/
theorem acceptIf_stem (name : WrittenName) (kind : TokenKind) :
    acceptIf (name.stem.toList.getLast? == some '\\') kind = pure false := by
  have other : (name.stem.toList.getLast? == some '\\') = false := by
    rw [WrittenName.stem, String.toList_ofList]
    exact beq_eq_false_iff_ne.mpr name.getLast?_path
  rw [acceptIf, other]
  rfl

theorem acceptIf_opening (name : WrittenName) (kind : TokenKind) :
    acceptIf ((String.ofList (name.path ++ ['\\'])).toList.getLast? == some '\\') kind =
      accept kind := by
  simp [acceptIf]

theorem clauseStep_yields {kind : ImportKind} {items : List ImportItem} {next : Mark}
    {passed : List Mark} {more : Bool} (clause : ImportClause)
    (here : s.Stands depth (symbolMarks clause.symbols ++ next :: rest))
    (separator : Separator ⟨.semicolon, "", []⟩ next rest passed more) :
    (clauseStep kind items).Yields s (symbolMarks clause.symbols ++ passed)
      fun out _ => out = (items ++ clause.items kind, more) := by
  cases clause with
  | single name renamed =>
      simp only [ImportClause.symbols, ImportedName.symbol, symbolMarks_cons, Symbol.marks,
        List.cons_append, List.nil_append] at here ⊢
      refine .ahead? (name.isName here.toAt) (.value here.toAt ?_)
      refine .advance here.toAt (by simp) fun _ _ => ?_
      have there := here.advance (by simp)
      have value : stripSeparator name.mark.value = name.stem := name.stripSeparator_value
      rw [value, acceptIf_stem]
      have others := renamed?_yields renamed there (separator.kind_ne (by decide))
      refine .look rfl (others.onward (goesOn_of_composed renamed?_composed) there ?_)
      rintro _ t _ there rfl
      exact separator.accepts (by decide) _ there.toAt
  | group space group trailing =>
      simp only [ImportClause.symbols, symbolMarks_append, symbolMarks_cons, symbolMarks_nil,
        Symbol.marks, List.cons_append, List.nil_append, List.append_assoc, List.append_nil]
        at here ⊢
      have named : s.cursor.isName = true := by
        rw [Cursor.isName, here.toAt.kind]
        rfl
      refine .ahead? named (.value here.toAt (.advance here.toAt (by simp) fun _ _ => ?_))
      have there := here.advance (by simp)
      dsimp only
      rw [space.stripSeparator_text, acceptIf_opening, space.dropFinalSeparators_stem]
      refine .accept there.toAt rfl (by simp) fun _ _ => ?_
      have inside := there.advance (by simp)
      have whole := importGroup_yields kind space group items inside
      rw [if_pos rfl]
      rw [List.append_cons] at inside ⊢
      refine whole.onward (goesOn_of_composed (importGroup_composed _ _ _)) inside ?_
      rintro _ t _ there rfl
      exact separator.accepts (by decide) _ there.toAt

theorem betweenCommas_cons (trailing : Bool) (part : List Symbol) (parts : List (List Symbol)) :
    ∃ rest, betweenCommas trailing (part :: parts) = part ++ rest := by
  cases parts with
  | nil =>
      cases trailing with
      | true => exact ⟨[.comma], rfl⟩
      | false => exact ⟨[], (List.append_nil part).symm⟩
  | cons next parts => exact ⟨_, rfl⟩

/-- A list of clauses begins with a name. -/
theorem clauses_marks_eq (first : ImportClause) (more : List ImportClause) (after : List Mark) :
    ∃ front others, symbolMarks (betweenCommas false ((first :: more).map ImportClause.symbols)) ++
      after = front :: others ∧ front.kind ≠ .functionKw ∧ front.kind ≠ .constKw := by
  rw [List.map_cons]
  obtain ⟨rest, split⟩ := betweenCommas_cons false first.symbols (more.map ImportClause.symbols)
  rw [split]
  cases first with
  | single name renamed =>
      exact ⟨_, _, rfl, name.kind_ne (by decide), name.kind_ne (by decide)⟩
  | group space items trailing => exact ⟨_, _, rfl, nofun, nofun⟩

theorem importStatement_yields (statement : ImportStatement)
    (here : s.Stands depth (symbolMarks statement.symbols ++ mark :: after)) :
    importStatement.Yields s (symbolMarks statement.symbols)
      fun id arena => arena.node? id = some (.imports statement.items) := by
  obtain ⟨kind, first, more⟩ := statement
  simp only [ImportStatement.symbols, ImportStatement.clauses, Word.symbol, symbolMarks_append,
    symbolMarks_cons, symbolMarks_nil, Symbol.marks, List.cons_append, List.nil_append,
    List.append_assoc] at here ⊢
  rw [importStatement_eq]
  refine .position (.advance here.toAt (by simp) fun _ _ => ?_)
  have there := here.advance (by simp)
  obtain ⟨front, others, split, noFunction, noConst⟩ :=
    clauses_marks_eq first more (⟨.semicolon, "", []⟩ :: mark :: after)
  rw [split] at there
  refine (importKind?_yields kind there ⟨noFunction, noConst⟩).onward
    (goesOn_of_composed importKind?_composed) there ?_
  rintro _ t _ there rfl
  rw [← split] at there
  let given := kindOr kind .classLike
  have composed : (untilDone [] (clauseStep given)).Composed outermost :=
    .untilDone (clauseStep_composed _) _
  have loop : (untilDone [] (clauseStep given)).Yields t
      (symbolMarks (betweenCommas false ((first :: more).map ImportClause.symbols)))
      fun out _ =>
        out = (first :: more).foldl (fun items clause => items ++ clause.items given) [] := by
    refine betweenCommas_yields (fun _ => goesOn_of_composed (clauseStep_composed _ _)) ?_
      (fun trails => by cases trails) first more [] there
    exact fun state clause s _ _ _ _ here separator => clauseStep_yields clause here separator
  refine loop.onward (goesOn_of_composed composed) there ?_
  rintro _ u _ there rfl
  refine .expect there.toAt rfl (by simp) fun _ _ => (Yields.addNode _ _).mono ?_
  intro id arena found
  rw [found, List.foldl_append_eq_append, List.nil_append, ← List.flatMap_def]
  rfl

end Parsing

end StaticReflection
