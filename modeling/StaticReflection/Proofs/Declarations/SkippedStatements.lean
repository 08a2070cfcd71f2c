import StaticReflection.Proofs.Declarations.EqualStatements
import StaticReflection.Proofs.Parser.ShiftedStatements
import StaticReflection.Proofs.Parser.StatementNodes

namespace StaticReflection

open Grammar Parse

/-! What a statement hides from discovery: all that stands between its first token and the
token that ends it. -/

/-- Nodes that echo each other stand for the same trees, whatever the last node is. -/
theorem Arena.Echo.alike {n : Nat} {first second : Arena} (echo : first.Echo n second)
    {root rootToo : Node} {span spanToo : Span} (forest : (first.add root span).Forest)
    {id : NodeId} (known : id < first.size) :
    (first.add root span).Alike (second.add rootToo spanToo) id (id + n) := by
  induction id using Nat.strongRecOn with
  | ind id ih =>
      obtain ⟨node, here⟩ : ∃ node, first.node? id = some node := by
        refine Option.ne_none_iff_exists'.mp fun unknown => Nat.not_le.mpr known ?_
        exact Array.getElem?_eq_none_iff.mp (Option.map_eq_none_iff.mp unknown)
      have hereStill : (first.add root span).node? id = some node := by
        rw [node?_add, if_neg (Nat.ne_of_lt known), here]
      have there : (second.add rootToo spanToo).node? (id + n) = some (node.map (· + n)) := by
        have old : id + n ≠ second.size := fun same =>
          Nat.ne_of_lt known (Nat.add_right_cancel (same.trans echo.size))
        rw [node?_add, if_neg old, echo.nodes, here]
        rfl
      refine .node (· + n) hereStill there fun child listed => ?_
      have older : child < id := forest.below (by rwa [children_eq hereStill])
      exact ih child older (Nat.lt_trans older known)

/-- Files whose statements echo each other, after some that are skipped, register the same
names. -/
theorem Arena.Echo.names {n : Nat} {first second : Arena} (echo : first.Echo n second)
    {path : String} {statements lead : List NodeId} {span spanToo : Span}
    (forest : (first.add (.sourceFile path statements) span).Forest)
    (forestToo : (second.add (.sourceFile path (lead ++ statements.map (· + n))) spanToo).Forest)
    (early : ∀ id ∈ lead, id < n) (lines linesToo : LineMap) :
    (namespaceBlocks ⟨second.add (.sourceFile path (lead ++ statements.map (· + n))) spanToo,
      linesToo⟩ second.size).map (·.entities.names) =
    (namespaceBlocks ⟨first.add (.sourceFile path statements) span, lines⟩ first.size).map
      (·.entities.names) := by
  have here : (first.add (.sourceFile path statements) span).node? first.size =
      some (.sourceFile path statements) := (node?_add first.size).trans (if_pos rfl)
  refine names_namespaceBlocks ⟨_, lines⟩ ⟨_, linesToo⟩ forest forestToo here
    ((node?_add second.size).trans (if_pos rfl)) (fun id among => ?_)
    (Entities.forall₂_map fun id among => echo.alike forest ?_)
  · have old : id ≠ second.size := by
      refine Nat.ne_of_lt (Nat.lt_of_lt_of_le (early id among) ?_)
      rw [echo.size]
      exact Nat.le_add_left n _
    obtain ⟨kind, skipped⟩ := echo.before id (early id among)
    exact ⟨kind, (node?_add id).trans ((if_neg old).trans skipped)⟩
  · refine forest.below ?_
    rw [children_eq here]
    exact among

theorem SourceFile.names_parse (path : String) (text : Text) (storedBytes : Nat) :
    (parse path text storedBytes).names =
      (namespaceBlocks ⟨(parseFile path text).arena, .ofText text⟩ (parseFile path text).root).map
        (·.entities.names) := by
  rw [names, parse]

theorem SourceFile.names_of_echo {n : Nat} {text textToo : Text} (lead : List NodeId)
    (early : ∀ id ∈ lead, id < n)
    (list : fileStatements.result (.ofText textToo) =
      lead ++ (fileStatements.result (.ofText text)).map (· + n))
    (echo : ParseState.Echo n (fileStatements.next (.ofText text))
      (fileStatements.next (.ofText textToo)))
    (path : String) (storedBytes storedBytesToo : Nat) :
    (SourceFile.parse path textToo storedBytesToo).names =
      (SourceFile.parse path text storedBytes).names := by
  have forest := forest_parseFile path text
  have forestToo := forest_parseFile path textToo
  rw [parseFile_eq] at forest forestToo
  rw [names_parse, names_parse, parseFile_eq, parseFile_eq]
  rw [list] at forestToo ⊢
  exact echo.arena.names forest forestToo early _ _

theorem ParseState.tokens_ofText (text : Text) : (ofText text).tokens = tokenize text := by
  obtain ⟨before, last, tokens, -⟩ := Scanner.tokens_exhausts { rest := text }
  obtain ⟨first, ahead, some⟩ : ∃ first ahead, tokenize text = first :: ahead :=
    List.exists_cons_of_ne_nil (by simp [tokenize, tokens])
  rw [ofText_of_cons some, some]
  rfl

section Names

variable (path : String) (storedBytes : Nat)

/-- The names that are registered for code. -/
def namesOf (code : Text) : List Entities.Names :=
  (SourceFile.parse path ("<?php ".toList ++ code) storedBytes).names

/-- A statement that is skipped hides all its tokens: it is as if it were not there. -/
theorem namesOf_of_skipped {text rest : Text} {first : Token} {others : List Token}
    (read : codeTokens (text ++ rest) = first :: others ++ codeTokens rest)
    (skipped : startsSkipped (.of first (others ++ codeTokens rest) 0) = true)
    (closes : Closes 0 ((first :: others).map Token.kind)) :
    namesOf path storedBytes (text ++ rest) = namesOf path storedBytes rest := by
  obtain ⟨front, last, inner, split, goesOn, ends⟩ := closes
  obtain ⟨frontTokens, lastTokens, among, rfl, one⟩ := List.map_eq_append_iff.mp split
  obtain ⟨lastToken, rfl, rfl⟩ := List.map_eq_singleton_iff.mp one
  let whole := "<?php ".toList ++ (text ++ rest)
  have tokens : (ParseState.ofText whole).tokens.map Token.bare =
      first :: others ++ codeTokens rest := by
    rw [ParseState.tokens_ofText, tokenize_code, read]
  have starts : startsSkipped (ParseState.ofText whole).cursor = true := by
    obtain ⟨current, ahead⟩ := List.cons.inj tokens
    rw [← startsSkipped_bare, Cursor.bare, current, ahead]
    exact skipped
  rw [among, List.append_assoc] at tokens
  obtain ⟨own, later, here, ownBare, laterBare⟩ := List.map_eq_append_iff.mp tokens
  obtain ⟨token, after, rfl, rfl, afterBare⟩ := List.map_eq_cons_iff.mp laterBare
  have kinds : own.map Token.kind = frontTokens.map Token.kind := by
    rw [← ownBare, List.map_map]
    rfl
  have same : after.map Token.bare =
      (ParseState.ofText ("<?php ".toList ++ rest)).tokens.map Token.bare := by
    rw [afterBare, ParseState.tokens_ofText, tokenize_code]
    rfl
  obtain ⟨list, echo⟩ := fileStatements_skip starts here (kinds ▸ goesOn) ends same
  refine SourceFile.names_of_echo [0] (fun id among => ?_) list echo path _ _
  rw [List.mem_singleton.mp among]
  exact Nat.zero_lt_one

theorem namesOf_test {text : Text} {kinds : List TokenKind} (reads : text.ReadAs (.ifKw :: kinds))
    (closes : Closes 0 (.ifKw :: kinds)) (rest : Text) :
    namesOf path storedBytes (text ++ rest) = namesOf path storedBytes rest := by
  obtain ⟨tokens, sorts, read⟩ := reads rest
  obtain ⟨first, others, rfl, test, rfl⟩ := List.map_eq_cons_iff.mp sorts
  exact namesOf_of_skipped path storedBytes read (startsSkipped_if test) (sorts ▸ closes)

def endifWord : Word := ⟨['e', 'n', 'd', 'i', 'f'], by decide, by decide⟩

/-- The word that ends a block is a statement of its own, and skipped. -/
theorem namesOf_endif (rest : Text) :
    namesOf path storedBytes (" endif;".toList ++ rest) = namesOf path storedBytes rest := by
  obtain ⟨word, mark, readWord⟩ := codeTokens_word endifWord (';' :: rest) (by simp; decide)
  obtain ⟨sign, semicolon, readSign⟩ :=
    codeTokens_token (frontOf_terminator (c := ';') (by decide) rest)
  have identifier : endifWord.kind = .identifier := by decide +kernel
  have kind : word.kind = .identifier := (congrArg Mark.kind mark).trans identifier
  have value : word.value = "endif" := congrArg Mark.value mark
  have ends : sign.kind = .semicolon := congrArg Mark.kind semicolon
  have read : codeTokens (" endif;".toList ++ rest) = word :: [sign] ++ codeTokens rest :=
    (codeTokens_blank _).trans (readWord.trans (congrArg _ readSign))
  refine namesOf_of_skipped path storedBytes read (startsSkipped_word kind ?_ ?_) ?_
  · rw [Cursor.of, value]
    decide +kernel
  · rw [Cursor.of, value]
    decide +kernel
  · simp only [List.map_cons, List.map_nil, kind, ends]
    exact ⟨[.identifier], .semicolon, 0, rfl, rfl, rfl⟩

end Names

/-! Conditional blocks, in both spellings. -/

/-- A text that is the condition of a test, with all its brackets closed. -/
def Text.IsCondition (condition : Text) : Prop :=
  ∃ kinds, ReadAs ("if (".toList ++ condition ++ [')']) (.ifKw :: kinds) ∧
    depthAfterAll 0 (.ifKw :: kinds) = some 0

/-- A text that ends where the statement at its front ends: with the first semicolon outside
all brackets, or with the first brace that closes the last open one. -/
def Text.IsStatement (text : Text) : Prop :=
  ∃ kinds, text.ReadAs kinds ∧ Closes 0 kinds

/-- Statements with a blank before each of them. -/
def Text.inline (statements : List Text) : Text :=
  statements.flatMap (' ' :: ·)

/-- What is left of a block that a colon opens, with the code after it, once its first
statement is taken away. Where there is no other statement, the end of the block goes too. -/
def Text.left (rest : Text) : List Text → Text
  | [] | [_] => rest
  | _ :: later => inline later ++ " endif;".toList ++ rest

namespace Text

/-- A variable is such a condition. -/
theorem isCondition_variable {name : Text} (starts : startsName name = true)
    (parts : ∀ c ∈ name, isNamePart c = true) : IsCondition ('$' :: name) :=
  ⟨[.openParen, .variableName, .closeParen], ReadAs.ifVariable starts parts, rfl⟩

/-- Statements inside a bracket leave it open. -/
theorem inline_within {statements : List Text}
    (each : ∀ statement ∈ statements, statement.IsStatement) :
    ∃ kinds, ReadAs (inline statements) kinds ∧ depthAfterAll 1 kinds = some 1 := by
  induction statements with
  | nil => exact ⟨[], .nil, rfl⟩
  | cons statement statements ih =>
      obtain ⟨kinds, reads, closes⟩ := each statement List.mem_cons_self
      obtain ⟨later, readsLater, within⟩ := ih fun other among =>
        each other (List.mem_cons_of_mem _ among)
      refine ⟨kinds ++ later, (ReadAs.blank.append reads).append readsLater, ?_⟩
      rw [depthAfterAll_append closes.depthAfterAll_one, within]

/-- What can be read on its own through the end of a statement is a statement. -/
theorem isStatement_of_kindsThrough {text : Text} (fuel : Nat) (front : List TokenKind)
    (last : TokenKind) {inner : Nat} (ended : Ended text)
    (through : Scanner.kindsThrough fuel { rest := text, inCode := true } = some (front ++ [last]))
    (goesOn : depthAfterAll 0 front = some inner) (ends : endsSkipped inner last = true) :
    text.IsStatement :=
  ⟨front ++ [last], readAs_of_kindsThrough fuel ended through, front, last, inner, rfl, goesOn,
    ends⟩

theorem isStatement_endif : IsStatement "endif;".toList :=
  isStatement_of_kindsThrough 3 [.identifier] .semicolon rfl (by decide +kernel) rfl rfl

end Text

section Blocks

variable (path : String) (storedBytes : Nat) {condition : Text} (tests : condition.IsCondition)
include tests

theorem namesOf_braced {statements : List Text}
    (each : ∀ statement ∈ statements, statement.IsStatement) (rest : Text) :
    namesOf path storedBytes ("if (".toList ++ condition ++ ") \x7b".toList ++
      Text.inline statements ++ " \x7d".toList ++ rest) = namesOf path storedBytes rest := by
  obtain ⟨kinds, reads, balanced⟩ := tests
  obtain ⟨inner, readsInner, within⟩ := Text.inline_within each
  have whole : Text.ReadAs ("if (".toList ++ condition ++ ") \x7b".toList ++
      Text.inline statements ++ " \x7d".toList)
      (TokenKind.ifKw :: kinds ++ [TokenKind.openBrace] ++ inner ++ [TokenKind.closeBrace]) := by
    have braces := ((reads.append .blank).append .openBrace).append readsInner
    simpa using (braces.append .blank).append .closeBrace
  have closes : Closes 0
      (TokenKind.ifKw :: kinds ++ [TokenKind.openBrace] ++ inner ++ [TokenKind.closeBrace]) := by
    refine ⟨TokenKind.ifKw :: kinds ++ [TokenKind.openBrace] ++ inner, .closeBrace, 1, rfl, ?_,
      rfl⟩
    rw [List.append_assoc, depthAfterAll_append balanced, List.cons_append, List.nil_append]
    exact within
  exact namesOf_test path storedBytes whole closes rest

theorem namesOf_colon {first : Text} (statement : first.IsStatement) (rest : Text) :
    namesOf path storedBytes ("if (".toList ++ condition ++ "): ".toList ++ first ++ rest) =
      namesOf path storedBytes rest := by
  obtain ⟨kinds, reads, balanced⟩ := tests
  obtain ⟨inner, readsInner, closes⟩ := statement
  have whole : Text.ReadAs ("if (".toList ++ condition ++ "): ".toList ++ first)
      (TokenKind.ifKw :: kinds ++ [TokenKind.colon] ++ inner) := by
    simpa using (reads.append .colon).append readsInner
  have colon : depthAfterAll 0 (TokenKind.ifKw :: kinds ++ [TokenKind.colon]) = some 0 :=
    depthAfterAll_append balanced [.colon]
  exact namesOf_test path storedBytes whole (.append colon closes) rest

/-- Braces hide all that stands in a conditional block. Between a colon and the word that ends
the block only the first statement is hidden: discovery goes on after it, so that the
statements after it are taken for statements of the file. -/
theorem conditional_block_names {statements : List Text}
    (each : ∀ statement ∈ statements, statement.IsStatement) (rest : Text) :
    namesOf path storedBytes ("if (".toList ++ condition ++ ") \x7b".toList ++
        Text.inline statements ++ " \x7d".toList ++ rest) =
      namesOf path storedBytes rest ∧
    namesOf path storedBytes ("if (".toList ++ condition ++ "):".toList ++
        Text.inline statements ++ " endif;".toList ++ rest) =
      namesOf path storedBytes (Text.left rest statements) := by
  refine ⟨namesOf_braced path storedBytes tests each rest, ?_⟩
  cases statements with
  | nil =>
      have shape : "if (".toList ++ condition ++ "):".toList ++ Text.inline [] ++
          " endif;".toList ++ rest =
          "if (".toList ++ condition ++ "): ".toList ++ "endif;".toList ++ rest := by
        simp [Text.inline]
      rw [shape, Text.left, namesOf_colon path storedBytes tests Text.isStatement_endif]
  | cons first later =>
      have shape : "if (".toList ++ condition ++ "):".toList ++ Text.inline (first :: later) ++
          " endif;".toList ++ rest =
          "if (".toList ++ condition ++ "): ".toList ++ first ++
            (Text.inline later ++ " endif;".toList ++ rest) := by
        simp [Text.inline]
      rw [shape, namesOf_colon path storedBytes tests (each first List.mem_cons_self)]
      cases later with
      | nil => exact namesOf_endif path storedBytes rest
      | cons second later =>
          rw [Text.left]
          nofun

end Blocks

/-- A class and a constant that are declared in a conditional block are registered, a function
that is declared before them is not. With braces none of them is. -/
theorem names_of_conditional_block :
    let statements : List Text :=
      ["function f() \x7b\x7d".toList, "class A \x7b\x7d".toList, "define('X', 1);".toList]
    let rest : Text := " function g() \x7b\x7d".toList
    (∀ statement ∈ statements, statement.IsStatement) ∧
    namesOf "/a.php" 0 rest = [⟨"", [], ["g"], []⟩] ∧
    namesOf "/a.php" 0 ("if (".toList ++ "$c".toList ++ ") \x7b".toList ++
      Text.inline statements ++ " \x7d".toList ++ rest) = [⟨"", [], ["g"], []⟩] ∧
    namesOf "/a.php" 0 ("if (".toList ++ "$c".toList ++ "):".toList ++
      Text.inline statements ++ " endif;".toList ++ rest) = [⟨"", ["A"], ["g"], ["X"]⟩] := by
  intro statements rest
  have each : ∀ statement ∈ statements, statement.IsStatement := by
    have function : Text.IsStatement "function f() \x7b\x7d".toList :=
      Text.isStatement_of_kindsThrough 7
        [.functionKw, .identifier, .openParen, .closeParen, .openBrace] .closeBrace
        rfl (by decide +kernel) rfl rfl
    have classLike : Text.IsStatement "class A \x7b\x7d".toList :=
      Text.isStatement_of_kindsThrough 5 [.classKw, .identifier, .openBrace] .closeBrace
        rfl (by decide +kernel) rfl rfl
    have definition : Text.IsStatement "define('X', 1);".toList :=
      Text.isStatement_of_kindsThrough 8
        [.identifier, .openParen, .stringLiteral, .comma, .integerLiteral, .closeParen] .semicolon
        rfl (by decide +kernel) rfl rfl
    simp only [statements, List.forall_mem_cons]
    exact ⟨function, classLike, definition, nofun⟩
  have tests : Text.IsCondition ('$' :: ['c']) :=
    Text.isCondition_variable rfl (List.forall_mem_singleton.mpr rfl)
  have after : namesOf "/a.php" 0 rest = [⟨"", [], ["g"], []⟩] := by decide +kernel
  obtain ⟨braced, colon⟩ := conditional_block_names "/a.php" 0 tests each rest
  refine ⟨each, after, braced.trans after, colon.trans ?_⟩
  decide +kernel

end StaticReflection
