import StaticReflection.Proofs.Parser.CommonTokens
import StaticReflection.Proofs.Scanner.DocComments

namespace StaticReflection

/-! A word of the text is the value of its token. -/

/-- The token is no word, or its value is what stands in the text. -/
def Lexeme.IsFaithful (text : List Char) (lexeme : Lexeme) : Prop :=
  lexeme.kind.isWord = true → lexeme.value = String.ofList (text.take lexeme.length)

theorem lexName_faithful (text : List Char) : (lexName text).IsFaithful text :=
  fun _ => rfl

theorem isWord_numberExtent (text : List Char) : (numberExtent text).1.isWord = false := by
  have numeric (condition : Prop) [Decidable condition] :
      (if condition then TokenKind.integerLiteral else .floatLiteral).isWord = false := by
    split <;> rfl
  unfold numberExtent
  split
  · rfl
  · exact numeric _

theorem lexPunctuation_faithful (text : List Char) : (lexPunctuation text).IsFaithful text := by
  unfold lexPunctuation
  split
  · rename_i kind length found
    obtain ⟨entry, among, equal⟩ := Option.map_eq_some_iff.mp found
    have all : ∀ entry ∈ punctuation, entry.2.isWord = false := by decide
    cases equal
    intro word
    cases (all entry (List.mem_of_find?_eq_some among)).symm.trans word
  · nofun

theorem lexDoubleQuoted_faithful (text : List Char) : (lexDoubleQuoted text).IsFaithful text := by
  unfold lexDoubleQuoted
  dsimp only
  split <;> nofun

theorem lexHeredoc?_faithful {text : List Char} {lexeme : Lexeme}
    (found : lexHeredoc? text = some lexeme) : lexeme.IsFaithful text := by
  unfold lexHeredoc? at found
  obtain ⟨opening, _, read⟩ := Option.bind_eq_some_iff.mp found
  dsimp only at read
  split at read
  · cases read
    nofun
  · split at read
    · cases read
      nofun
    split at read <;>
    · cases read
      nofun

theorem lexCast?_faithful {text : List Char} {lexeme : Lexeme}
    (found : lexCast? text = some lexeme) : lexeme.IsFaithful text := by
  unfold lexCast? at found
  extract_lets blanks wordStart word wordEnd close opened at found
  split at found
  · cases found
  · obtain ⟨type, _, cast⟩ := Option.bind_eq_some_iff.mp found
    cases cast
    nofun

theorem lexToken_faithful (text : List Char) : (lexToken text).IsFaithful text := by
  unfold lexToken
  split
  · nofun
  rename_i c rest
  split
  · nofun
  split
  · exact lexName_faithful _
  split
  · intro word
    cases (isWord_numberExtent _).symm.trans word
  split
  · nofun
  split
  · exact lexDoubleQuoted_faithful _
  split
  · nofun
  split
  · cases found : lexHeredoc? (c :: rest) with
    | none => exact lexPunctuation_faithful _
    | some lexeme => exact lexHeredoc?_faithful found
  split
  · cases found : lexCast? (c :: rest) with
    | none => exact lexPunctuation_faithful _
    | some lexeme => exact lexCast?_faithful found
  · exact lexPunctuation_faithful _

/-- The token is no word, or its value is its text. -/
def Token.IsFaithful (token : Token) : Prop :=
  token.kind.isWord = true → String.ofList token.lexeme = token.value

namespace Scanner

/-- The rest of the text is inside the tags. -/
structure StaysInside (scanner : Scanner) : Prop where
  inside : scanner.inCode = true
  untagged : '>' ∉ scanner.rest

variable {scanner : Scanner}

theorem StaysInside.skip (stays : scanner.StaysInside) (length : Nat) :
    (scanner.skip length).StaysInside :=
  ⟨stays.inside, fun among => stays.untagged (List.mem_of_mem_drop among)⟩

theorem takeEnd_faithful (problems : List ScanProblem) :
    (scanner.take .endOfFile 0 "" problems).1.IsFaithful := by
  intro word
  have notWord : TokenKind.isWord .endOfFile = false := by decide
  cases notWord.symm.trans word

theorem takeToken_faithful (problems : List ScanProblem) :
    (scanner.takeToken problems).1.IsFaithful :=
  fun word => (lexToken_faithful scanner.rest word).symm

theorem nextFrom_faithful (stays : scanner.StaysInside) (fuel : Nat) (problems : List ScanProblem) :
    (scanner.nextFrom fuel problems).1.IsFaithful ∧
      (scanner.nextFrom fuel problems).2.StaysInside := by
  fun_induction nextFrom fuel scanner problems with
  | case1 scanner problems =>
      exact ⟨takeEnd_faithful problems, stays.skip 0⟩
  | case2 fuel scanner problems outside => simp [stays.inside] at outside
  | case3 fuel scanner problems outside => simp [stays.inside] at outside
  | case4 fuel scanner problems outside => simp [stays.inside] at outside
  | case5 fuel scanner problems inCode done =>
      exact ⟨takeEnd_faithful problems, stays.skip 0⟩
  | case6 fuel scanner problems inCode length blank ih => exact ih (stays.skip length)
  | case7 fuel scanner problems inCode length closed isDoc comment problem ih =>
      refine ih ⟨?_, ?_⟩
      · rw [skipComment_inCode]
        exact stays.inside
      · rw [skipComment_rest]
        exact (stays.skip length).untagged
  | case8 fuel scanner problems inCode length tag =>
      have begins := frontOf_begins scanner.rest
      rw [tag] at begins
      have tagged : '>' ∈ scanner.rest.take length := begins.subset (by simp)
      exact absurd (List.mem_of_mem_take tagged) stays.untagged
  | case9 fuel scanner problems inCode front =>
      have onward := stays.skip (lexToken scanner.rest).length
      exact ⟨takeToken_faithful problems, onward.inside, onward.untagged⟩

theorem tokensFrom_faithful (stays : scanner.StaysInside) (fuel : Nat) :
    ∀ token ∈ scanner.tokensFrom fuel, token.IsFaithful := by
  induction fuel generalizing scanner with
  | zero => exact fun _ among => absurd among List.not_mem_nil
  | succ fuel ih =>
      have first := nextFrom_faithful stays (scanner.rest.length + 2) []
      unfold tokensFrom next
      dsimp only
      split
      · exact List.forall_mem_singleton.mpr first.1
      · exact List.forall_mem_cons.mpr ⟨first.1, ih first.2⟩

end Scanner

theorem tokenize_faithful {text : Text} (front : frontOf text = .token) (stays : '>' ∉ text) :
    ∀ token ∈ tokenize (openTag ++ text), token.IsFaithful := by
  rw [tokenize_openTag front]
  exact Scanner.tokensFrom_faithful ⟨rfl, stays⟩ _

end StaticReflection
