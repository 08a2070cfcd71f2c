import StaticReflection.Proofs.Scanner.Heredocs

namespace StaticReflection

/-! A body without quotes is read between the lines of a heredoc as it is between double quotes. -/

/-- Every backslash has a character after it that it takes along. -/
inductive Text.Paired : Text → Prop
  | nil : Paired []
  | escape (c : Char) {text : Text} (rest : Paired text) : Paired ('\\' :: c :: text)
  | plain {c : Char} {text : Text} (other : c ≠ '\\') (rest : Paired text) : Paired (c :: text)

theorem quotedLength?_paired {body : Text} (paired : body.Paired) (unquoted : '"' ∉ body)
    (rest : Text) (length : Nat) :
    quotedLength? '"' length (body ++ '"' :: rest) = some (length + body.length) := by
  induction paired generalizing length with
  | nil => simp [quotedLength?]
  | escape c _ ih =>
      simp only [List.mem_cons, not_or] at unquoted
      rw [List.cons_append, List.cons_append, quotedLength?, ih unquoted.2.2]
      simp only [List.length_cons]
      congr 1
      omega
  | plain other _ ih =>
      simp only [List.mem_cons, not_or] at unquoted
      rw [List.cons_append, quotedLength?_plain other (Ne.symm unquoted.1), ih unquoted.2,
        List.length_cons]
      congr 1
      omega

/-- What can be escaped besides the quote does not depend on the quote. -/
theorem escape_unquoted {text : Text} (unquoted : '"' ∉ text) :
    escape (some '"') text = escape none text := by
  cases text with
  | nil => rfl
  | cons c text =>
      have other : c ≠ '"' := fun same => unquoted (same ▸ List.mem_cons_self)
      have simple : simpleEscape? (some '"') c = simpleEscape? none c := by
        unfold simpleEscape?
        split <;> first | rfl | exact absurd rfl other
      simp only [escape, simple]

theorem decodeEscapesOnto_unquoted {text : Text} (unquoted : '"' ∉ text) (decoded : List UInt8)
    (skip : Nat) : decodeEscapesOnto (some '"') decoded skip text =
      decodeEscapesOnto none decoded skip text := by
  induction text generalizing decoded skip with
  | nil => simp only [decodeEscapesOnto]
  | cons c text ih =>
      have others : '"' ∉ text := fun among => unquoted (List.mem_cons_of_mem c among)
      cases skip with
      | zero => simp only [decodeEscapesOnto, escape_unquoted others, ih others]
      | succ skip => simp only [decodeEscapesOnto, ih others]

theorem flatMap_splitOn (text : Text) :
    (text.splitOn '\n').flatMap (· ++ ['\n']) = text ++ ['\n'] := by
  induction text with
  | nil => rfl
  | cons c text ih =>
      obtain ⟨first, others, split⟩ := List.exists_cons_of_ne_nil (List.splitOn_ne_nil '\n' text)
      rw [split] at ih
      rw [List.splitOn_cons_eq_if_modifyHead, split, List.cons_append, ← ih]
      by_cases feed : c = '\n'
      · simp [feed]
      · simp [feed]

/-- What a parser is to see of a body without quotes. -/
def Text.contents (body : Text) : Mark :=
  if hasInterpolation body then ⟨.interpolatedString, String.ofList body, []⟩
  else ⟨.stringLiteral, Utf8.decodeString (decodeEscapes none body), decodeEscapes none body⟩

/-- The body with its line feeds for the ends of lines. -/
def Heredoc.ofBody (label : Word) (body : Text) (bare : '\r' ∉ body)
    (inside : ∀ line ∈ body.splitOn '\n', ¬ label.Closes line) : Heredoc where
  label := label
  lines := body.splitOn '\n'
  gap_blank := List.forall_mem_nil _
  indent_blank := List.forall_mem_nil _
  unbroken := by
    intro line listed
    refine ⟨not_mem_of_mem_splitOn listed, fun among => ?_⟩
    have written : '\r' ∈ (body.splitOn '\n').flatMap (· ++ ['\n']) :=
      List.mem_flatMap.mpr ⟨line, listed, List.mem_append_left _ among⟩
    rw [flatMap_splitOn] at written
    obtain early | late := List.mem_append.mp written
    · exact bare early
    · cases List.mem_singleton.mp late
  inside := inside

section Quotes

variable {label : Word} {body : Text}

theorem Heredoc.text_ofBody (bare : '\r' ∉ body)
    (inside : ∀ line ∈ body.splitOn '\n', ¬ label.Closes line) :
    (Heredoc.ofBody label body bare inside).text .lf =
      ['<', '<', '<'] ++ label.text ++ ['\n'] ++ body ++ ['\n'] ++ label.text := by
  have lines := flatMap_splitOn body
  simp [Heredoc.text, Heredoc.opening, Heredoc.closing, Heredoc.ofBody, LineBreak.text,
    LabelQuote.text, LabelQuote.mark?, lines]

theorem Heredoc.mark_ofBody (bare : '\r' ∉ body)
    (inside : ∀ line ∈ body.splitOn '\n', ¬ label.Closes line) :
    (Heredoc.ofBody label body bare inside).mark = body.contents := by
  have kept : (Heredoc.ofBody label body bare inside).body = body := by
    have unindented : dropIndent 0 = id := funext fun line => by simp [dropIndent]
    simp [Heredoc.body, Heredoc.ofBody, unindented]
  have unquoted : (Heredoc.ofBody label body bare inside).quote ≠ .single := by
    intro same
    cases same
  rw [Heredoc.mark, if_neg unquoted, kept, Text.contents]

theorem lexToken_quoted (paired : body.Paired) (unquoted : '"' ∉ body) :
    lexToken ('"' :: body ++ ['"']) =
      { kind := body.contents.kind, length := body.length + 2, value := body.contents.value
        bytes := body.contents.bytes } := by
  have lexes : lexToken ('"' :: body ++ ['"']) = lexDoubleQuoted ('"' :: (body ++ ['"'])) := by
    simp [lexToken, isNameStart]
  have decoded : decodeEscapes (some '"') body = decodeEscapes none body :=
    decodeEscapesOnto_unquoted unquoted [] 0
  rw [lexes, lexDoubleQuoted_of_closed (quotedLength?_paired paired unquoted [] 0), Text.contents]
  simp only [Nat.zero_add, List.take_left, decoded]
  split <;> rfl

/-- A body without quotes and carriage returns is read between double quotes as it is between
the lines of a heredoc, with the same value and the same bytes. -/
theorem heredoc_agrees_with_double_quotes (plain : ∀ c ∈ body, c ≠ '"' ∧ c ≠ '\r')
    (paired : body.Paired) (inside : ∀ line ∈ body.splitOn '\n', ¬ label.Closes line) :
    let heredoc := ['<', '<', '<'] ++ label.text ++ ['\n'] ++ body ++ ['\n'] ++ label.text
    let quoted := '"' :: body ++ ['"']
    let tokens (text : Text) := Scanner.tokens { rest := text, inCode := true }
    (tokens heredoc).map Token.mark = [body.contents, ⟨.endOfFile, "", []⟩] ∧
    (tokens quoted).map Token.mark = [body.contents, ⟨.endOfFile, "", []⟩] ∧
    ∀ token ∈ tokens heredoc ++ tokens quoted, token.problems = [] := by
  intro heredoc quoted tokens
  have bare : '\r' ∉ body := fun among => (plain _ among).2 rfl
  have unquoted : '"' ∉ body := fun among => (plain _ among).1 rfl
  have asHeredoc : ReadsAs (heredoc ++ []) [body.contents, ⟨.endOfFile, "", []⟩] := by
    have lexes : lexToken ((Heredoc.ofBody label body bare inside).text .lf ++ []) =
        (Heredoc.ofBody label body bare inside).lexeme .lf :=
      Heredoc.lexToken_text _ (.inl nofun) nofun
    have mark := Heredoc.mark_ofBody bare inside
    rw [Heredoc.text_ofBody] at lexes
    refine ReadsAs.nil.token heredoc ?_ ?_ ?_ ?_
    · simp [heredoc, frontOf, isSeparatorSpace]
    · rw [lexes, Heredoc.lexeme, mark]
    · rw [lexes, Heredoc.lexeme, Heredoc.text_ofBody]
    · rw [lexes]
      rfl
  have asQuoted : ReadsAs (quoted ++ []) [body.contents, ⟨.endOfFile, "", []⟩] := by
    have lexes := lexToken_quoted paired unquoted
    refine ReadsAs.nil.token quoted ?_ ?_ ?_ ?_
    · exact frontOf_doubleQuote _
    · rw [List.append_nil, lexes]
    · rw [List.append_nil, lexes]
      simp [quoted]
    · rw [List.append_nil, lexes]
  rw [List.append_nil] at asHeredoc asQuoted
  obtain ⟨first, sound⟩ := asHeredoc 0 _ (Nat.lt_succ_self _)
  obtain ⟨second, soundToo⟩ := asQuoted 0 _ (Nat.lt_succ_self _)
  exact ⟨first, second, List.forall_mem_append.mpr ⟨sound, soundToo⟩⟩

/-- The second line begins with a name that the label is a part of. -/
theorem escapes_and_label_agree :
    let label : Word := ⟨['E'], rfl, rfl⟩
    let body : Text := "\\t\nE5 $".toList
    let tokens (text : Text) := Scanner.tokens { rest := text, inCode := true }
    (∀ c ∈ body, c ≠ '"' ∧ c ≠ '\r') ∧ body.Paired ∧
    (∀ line ∈ body.splitOn '\n', ¬ label.Closes line) ∧
    (tokens "<<<E\n\\t\nE5 $\nE".toList).map Token.mark =
      [⟨.stringLiteral, "\t\nE5 $", [9, 10, 69, 53, 32, 36]⟩, ⟨.endOfFile, "", []⟩] ∧
    (tokens "\"\\t\nE5 $\"".toList).map Token.mark =
      [⟨.stringLiteral, "\t\nE5 $", [9, 10, 69, 53, 32, 36]⟩, ⟨.endOfFile, "", []⟩] := by
  intro label body tokens
  have plain : ∀ c ∈ body, c ≠ '"' ∧ c ≠ '\r' := by simp [body]
  have paired : body.Paired :=
    .escape _ (.plain (by decide) (.plain (by decide) (.plain (by decide) (.plain (by decide)
      (.plain (by decide) .nil)))))
  have inside : ∀ line ∈ body.splitOn '\n', ¬ label.Closes line := by
    have opens : ∀ line ∈ body.splitOn '\n', closingIndent? label.text line = none := by decide
    exact fun line listed => Word.closingIndent?_eq_none_iff.mp (opens line listed)
  have contents : body.contents =
      ⟨.stringLiteral, "\t\nE5 $", [9, 10, 69, 53, 32, 36]⟩ := by decide +kernel
  obtain ⟨heredoc, quoted, -⟩ := heredoc_agrees_with_double_quotes plain paired inside
  rw [contents] at heredoc quoted
  exact ⟨plain, paired, inside, heredoc, quoted⟩

end Quotes

end StaticReflection
