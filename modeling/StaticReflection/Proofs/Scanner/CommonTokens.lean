import StaticReflection.Proofs.Scanner.Locality
import StaticReflection.Proofs.Scanner.Tiling

namespace StaticReflection

/-! A text that ends with a semicolon, or with a closing brace or parenthesis, and a longer one
begin with the same tokens. Where they part, no word is left of the shorter text. -/

variable {text : List Char}

theorem Ended.of_drop (ended : Ended text) {count : Nat} (more : text.drop count ≠ []) :
    Ended (text.drop count) :=
  ended.drop (Nat.lt_of_not_le fun beyond => more (List.drop_eq_nil_of_le beyond))

/-! What stands before a token. -/

theorem length_of_opensCode (ended : Ended text) (data : List Char)
    (php : ((text ++ data).take 3).map Char.toLower = ['p', 'h', 'p']) : 3 < text.length := by
  refine Nat.lt_of_not_le fun short => ?_
  obtain ⟨c, closes, last⟩ := ended.exists_last
  have among : c ∈ (text ++ data).take 3 := by
    rw [List.take_append, List.take_of_length_le short]
    exact List.mem_append_left _ (List.mem_of_getLast? last)
  have folded := List.mem_map_of_mem (f := Char.toLower) among
  have other : ∀ c ∈ terminators, c.toLower ∉ ['p', 'h', 'p'] := by decide
  exact other c closes (php ▸ folded)

theorem opensCode_append (ended : Ended text) (data : List Char) :
    (((text ++ data).take 3).map Char.toLower = ['p', 'h', 'p'] &&
      ((text ++ data)[3]?).all isTagSpace) =
    ((text.take 3).map Char.toLower = ['p', 'h', 'p'] && (text[3]?).all isTagSpace) := by
  by_cases long : 3 < text.length
  · rw [List.take_append_of_le_length (Nat.le_of_lt long), List.getElem?_append_left long]
  · have never : ∀ data, ((text ++ data).take 3).map Char.toLower ≠ ['p', 'h', 'p'] :=
      fun data php => long (length_of_opensCode ended data php)
    have here := never []
    rw [List.append_nil] at here
    rw [decide_eq_false (never data), decide_eq_false here, Bool.false_and, Bool.false_and]

theorem findOpenTag_append (ended : Ended text) {before : Nat}
    (found : findOpenTag before text ≠ .none) (data : List Char) :
    findOpenTag before (text ++ data) = findOpenTag before text := by
  fun_induction findOpenTag before text with
  | case1 => exact absurd rfl found
  | case2 before rest prints =>
      have more := (ended.tail (by decide)).tail (by decide)
      rw [List.cons_append, List.cons_append, findOpenTag, if_pos (more.head?_append data ▸ prints)]
  | case3 before rest silent php =>
      have more := (ended.tail (by decide)).tail (by decide)
      have long : 3 < rest.length := by
        refine length_of_opensCode more [] ?_
        rw [List.append_nil]
        exact of_decide_eq_true (Bool.and_eq_true_iff.mp php).1
      rw [List.cons_append, List.cons_append, findOpenTag, more.head?_append, if_neg silent,
        opensCode_append more, if_pos php, List.length_append]
      congr 2
      omega
  | case4 before rest silent other ih =>
      have more := (ended.tail (by decide)).tail (by decide)
      rw [List.cons_append, List.cons_append, findOpenTag, more.head?_append, if_neg silent,
        opensCode_append more, if_neg other, ih more found]
  | case5 before c rest other ih =>
      obtain ⟨d, rest, rfl⟩ : ∃ d after, rest = d :: after := by
        cases rest with
        | nil => exact absurd rfl found
        | cons d rest => exact ⟨d, rest, rfl⟩
      rw [List.cons_append, List.cons_append, findOpenTag, ← List.cons_append,
        ih (ended.of_cons (List.cons_ne_nil _ _)) found]
      rintro _ rfl ⟨⟩
      exact other _ rfl rfl

/-- The tag is a part of a text of the given length. -/
def OpenTag.Within (limit : Nat) : OpenTag → Prop
  | .none => True
  | .code length => length ≤ limit
  | .echo before => before + 3 ≤ limit

theorem findOpenTag_within (ended : Ended text) (before : Nat) :
    (findOpenTag before text).Within (before + text.length) := by
  fun_induction findOpenTag before text with
  | case1 => exact trivial
  | case2 before rest prints =>
      have more := ((ended.tail (by decide)).tail (by decide)).length_pos
      change before + 3 ≤ before + (rest.length + 1 + 1)
      omega
  | case3 before rest silent php => exact Nat.add_le_add_left (Nat.min_le_right _ _) _
  | case4 before rest silent other ih =>
      rw [List.length_cons, List.length_cons, Nat.add_comm _ 1, Nat.add_comm _ 1, ← Nat.add_assoc,
        ← Nat.add_assoc]
      exact ih ((ended.tail (by decide)).tail (by decide))
  | case5 before c rest other ih =>
      cases rest with
      | nil => exact trivial
      | cons d rest =>
          rw [List.length_cons, Nat.add_comm _ 1, ← Nat.add_assoc]
          exact ih (ended.of_cons (List.cons_ne_nil _ _))

theorem stopsComment_append {c : Char} (ended : Ended (c :: text)) (data : List Char) :
    (c == '\n' || c == '\r' || (c == '?' && (text ++ data).head? == some '>')) =
      (c == '\n' || c == '\r' || (c == '?' && text.head? == some '>')) := by
  by_cases question : c = '?'
  · rw [(ended.tail (by rw [question]; decide)).head?_append]
  · rw [beq_false_of_ne question, Bool.false_and, Bool.false_and]

theorem lineCommentLength_append (ended : Ended text)
    (inside : lineCommentLength text < text.length) (data : List Char) :
    lineCommentLength (text ++ data) = lineCommentLength text := by
  fun_induction lineCommentLength text with
  | case1 => exact absurd rfl ended.ne_nil
  | case2 c rest stops =>
      rw [List.cons_append, lineCommentLength, stopsComment_append ended, if_pos stops]
  | case3 c rest goes ih =>
      have shorter := Nat.lt_of_succ_lt_succ inside
      have more : rest ≠ [] := List.length_pos_iff.mp (Nat.lt_of_le_of_lt (Nat.zero_le _) shorter)
      rw [List.cons_append, lineCommentLength, stopsComment_append ended, if_neg goes,
        ih (ended.of_cons more) shorter]

theorem blockCommentEnd?_append {length stop : Nat}
    (closed : blockCommentEnd? length text = some stop) (data : List Char) :
    blockCommentEnd? length (text ++ data) = some stop ∧ stop ≤ length + text.length := by
  fun_induction blockCommentEnd? length text with
  | case1 length rest =>
      cases closed
      refine ⟨rfl, ?_⟩
      simp only [List.length_cons]
      omega
  | case2 length c rest other ih =>
      obtain ⟨same, inside⟩ := ih closed
      obtain ⟨d, rest, rfl⟩ : ∃ d after, rest = d :: after := by
        cases rest with
        | nil => cases closed
        | cons d rest => exact ⟨d, rest, rfl⟩
      rw [List.cons_append, List.cons_append, blockCommentEnd?, ← List.cons_append, same]
      · refine ⟨rfl, ?_⟩
        simp only [List.length_cons] at inside ⊢
        omega
      · rintro _ rfl ⟨⟩
        exact other _ rfl rfl
  | case3 => cases closed

/-- How many characters are passed before the next token. -/
def Front.length : Front → Nat
  | .done => 0
  | .blank length => length
  | .blockComment length _ _ => length
  | .closeTag length => length
  | .token => 0

theorem closeTagLength_append (ended : Ended text) (long : 2 < text.length) (data : List Char) :
    closeTagLength (text ++ data) = closeTagLength text ∧ closeTagLength text ≤ text.length := by
  have rest := ended.drop long
  have count := List.length_drop (i := 2) (l := text)
  unfold closeTagLength
  rw [List.drop_append_of_le_length (Nat.le_of_lt long)]
  generalize text.drop 2 = after at rest count ⊢
  obtain ⟨c, more, rfl⟩ := List.exists_cons_of_ne_nil rest.ne_nil
  split
  · rename_i same
    obtain ⟨rfl, -⟩ := List.cons.inj same
    exact ⟨rfl, long⟩
  · rename_i same
    obtain ⟨rfl, next⟩ := List.cons.inj same
    obtain ⟨d, more, rfl⟩ := List.exists_cons_of_ne_nil (rest.tail (by decide)).ne_nil
    obtain ⟨rfl, -⟩ := List.cons.inj next
    simp only [List.length_cons] at count
    refine ⟨rfl, ?_⟩
    change 4 ≤ text.length
    omega
  · rename_i feed both
    split
    · rename_i same
      cases same
      exact absurd rfl (feed _)
    · rename_i same
      cases same
      exact absurd rfl (both _)
    · exact ⟨rfl, Nat.le_of_lt long⟩

/-- Comments that take the whole text. -/
def Front.TakesAll (text : List Char) : Front → Prop
  | .blank length => text.length ≤ length
  | .blockComment length _ _ => text.length ≤ length
  | _ => False

theorem frontOf_terminator {c : Char} (closes : c ∈ terminators) (text : List Char) :
    frontOf (c :: text) = .token := by
  simp only [terminators, List.mem_cons, List.not_mem_nil, or_false] at closes
  obtain rfl | rfl | rfl := closes <;> simp [frontOf, isSeparatorSpace]

/-- What is in front of the text is there whatever follows, or it is a comment that takes
the whole text. -/
theorem frontOf_append (ended : Ended text) (data : List Char) :
    frontOf (text ++ data) = frontOf text ∧ (frontOf text).length ≤ text.length ∨
      (frontOf text).TakesAll text := by
  obtain ⟨c, rest, rfl⟩ := List.exists_cons_of_ne_nil ended.ne_nil
  by_cases closes : c ∈ terminators
  · rw [List.cons_append, frontOf_terminator closes, frontOf_terminator closes]
    exact .inl ⟨rfl, Nat.zero_le _⟩
  have more := ended.tail closes
  simp only [List.cons_append, frontOf, more.head?_append]
  split
  · exact .inl ⟨rfl, Nat.succ_pos _⟩
  split
  · by_cases inside : lineCommentLength (c :: rest) < (c :: rest).length
    · have same := lineCommentLength_append ended inside data
      rw [List.cons_append] at same
      rw [same]
      exact .inl ⟨rfl, Nat.le_of_lt inside⟩
    · exact .inr (Nat.le_of_not_lt inside)
  split
  · cases closed : blockCommentEnd? 2 rest.tail with
    | none => exact .inr (Nat.le_refl _)
    | some stop =>
        refine .inl ?_
        obtain ⟨same, inside⟩ := blockCommentEnd?_append closed data
        have long : 2 < rest.length := by
          rcases rest with _ | ⟨_, _ | ⟨_, _ | ⟨_, _⟩⟩⟩
          · cases closed
          · cases closed
          · simp [blockCommentEnd?] at closed
          · simp
        rw [List.tail_append_of_ne_nil more.ne_nil, same, List.getElem?_append_left long,
          List.getElem?_append_left (Nat.lt_of_succ_lt long)]
        refine ⟨rfl, ?_⟩
        rw [List.length_tail] at inside
        change stop ≤ rest.length + 1
        omega
  split
  · rename_i closes
    have long : 2 < (c :: rest).length := by
      simp only [Bool.and_eq_true, beq_iff_eq] at closes
      obtain ⟨d, after, rfl⟩ := List.exists_cons_of_ne_nil more.ne_nil
      cases closes.2
      exact Nat.succ_lt_succ (Nat.succ_lt_succ (more.tail (by decide)).length_pos)
    have same := closeTagLength_append ended long data
    rw [List.cons_append] at same
    rw [same.1]
    exact .inl ⟨rfl, same.2⟩
  · exact .inl ⟨rfl, Nat.zero_le _⟩

/-! Reading on in a longer text. -/

namespace Scanner

/-- The same place in a longer text. -/
def onto (scanner : Scanner) (data : List Char) : Scanner :=
  { scanner with rest := scanner.rest ++ data }

@[simp] theorem onto_rest (scanner : Scanner) (data : List Char) :
    (scanner.onto data).rest = scanner.rest ++ data := rfl

@[simp] theorem onto_inCode (scanner : Scanner) (data : List Char) :
    (scanner.onto data).inCode = scanner.inCode := rfl

variable {scanner : Scanner} {length : Nat}

theorem skip_onto (inside : length ≤ scanner.rest.length) (data : List Char) :
    (scanner.onto data).skip length = (scanner.skip length).onto data := by
  simp only [onto, skip, List.drop_append_of_le_length inside,
    List.take_append_of_le_length inside]

theorem take_onto (inside : length ≤ scanner.rest.length) (data : List Char) (kind : TokenKind)
    (value : String) (problems : List ScanProblem) :
    (scanner.onto data).take kind length value problems =
      ((scanner.take kind length value problems).1,
        (scanner.take kind length value problems).2.onto data) := by
  simp only [take, skip_onto inside]
  simp only [onto, List.take_append_of_le_length inside]

theorem skipComment_onto (inside : length ≤ scanner.rest.length) (data : List Char)
    (isDoc : Bool) :
    (scanner.onto data).skipComment length isDoc =
      (scanner.skipComment length isDoc).onto data := by
  simp only [skipComment, skip_onto inside]
  cases isDoc
  · rfl
  · simp only [onto, List.take_append_of_le_length inside, if_true]

theorem takeToken_onto (lexes : Lexeme.Local lexToken scanner.rest) (data : List Char)
    (problems : List ScanProblem) :
    (scanner.onto data).takeToken problems =
      ((scanner.takeToken problems).1, (scanner.takeToken problems).2.onto data) := by
  have same : lexToken (scanner.onto data).rest = lexToken scanner.rest := lexes.same data
  simp only [takeToken, same, take_onto lexes.inside]
  rfl

/-- What stands for the rest of a text: its end, or a string that is not closed. -/
def takesRest : TokenKind → Bool
  | .endOfFile | .stringLiteral | .interpolatedString => true
  | _ => false

/-- What is read from a text and from a longer one: the same token, or a last one that stands
for the rest of the text. -/
inductive Meets (data : List Char) : Token × Scanner → Token × Scanner → Prop
  | same (token : Token) (next : Scanner) : Meets data (token, next) (token, next.onto data)
  | apart {token : Token} {next : Scanner} (runsOn : takesRest token.kind = true)
      (finished : next.rest = []) (other : Token × Scanner) : Meets data (token, next) other

/-- Nothing but the end is read where no text is left. -/
theorem meets_of_reads {data : List Char} {read other : Token × Scanner}
    (reads : scanner.Reads read.1 read.2) (finished : scanner.rest = []) :
    Meets data read other := by
  have ended : read.1.kind = .endOfFile := by
    by_contra inside
    have shorter := reads.taken inside
    rw [finished] at shorter
    exact Nat.not_lt_zero _ shorter
  exact .apart (by rw [ended]; rfl) (reads.ended ended).1 other

theorem meets_of_finished (scanner : Scanner) (finished : scanner.rest = [])
    (inside : scanner.inCode = true) {data : List Char} {other : Token × Scanner} {fuel : Nat}
    (enough : 0 < fuel) (problems : List ScanProblem) :
    Meets data (scanner.nextFrom fuel problems) other := by
  refine meets_of_reads (scanner.nextFrom_reads fuel problems ?_) finished
  rw [finished, if_pos inside]
  exact enough

theorem take_meets (scanner : Scanner) (inside : length ≤ scanner.rest.length) (data : List Char)
    (kind : TokenKind) (value : String) (problems : List ScanProblem) :
    Meets data (scanner.take kind length value problems)
      ((scanner.onto data).take kind length value problems) := by
  rw [take_onto inside]
  exact .same _ _

theorem takeToken_meets (ended : Ended scanner.rest) (data : List Char)
    (problems : List ScanProblem) :
    Meets data (scanner.takeToken problems) ((scanner.onto data).takeToken problems) := by
  obtain lexes | endless := lexToken_local ended
  · rw [takeToken_onto lexes]
    exact .same _ _
  · refine .apart ?_ ?_ _
    · change takesRest (lexToken scanner.rest).kind = true
      obtain literal | literal := endless.literal <;>
      · rw [literal]
        rfl
    · change scanner.rest.drop (lexToken scanner.rest).length = []
      rw [endless.whole, List.drop_length]

/-- How many steps there can be before the next token. -/
def steps (scanner : Scanner) : Nat :=
  scanner.rest.length + if scanner.inCode then 1 else 2

/-- So much fuel is enough for the next token, and for that of the longer text. -/
def MeetsWithin (data : List Char) (fuel more : Nat) : Prop :=
  ∀ (scanner : Scanner) (problems : List ScanProblem),
    (scanner.rest ≠ [] → Ended scanner.rest) → scanner.steps ≤ fuel →
    (scanner.onto data).steps ≤ more →
    Meets data (scanner.nextFrom fuel problems) ((scanner.onto data).nextFrom more problems)

section Steps

variable {data : List Char} {fuel more : Nat} (ih : MeetsWithin data fuel more)
  (ended : Ended scanner.rest) (problems : List ScanProblem)
  (enough : scanner.steps ≤ fuel + 1) (enoughToo : (scanner.onto data).steps ≤ more + 1)
include ih ended enough enoughToo

theorem MeetsWithin.outside (outside : scanner.inCode = false) :
    Meets data (scanner.nextFrom (fuel + 1) problems)
      ((scanner.onto data).nextFrom (more + 1) problems) := by
  have within := findOpenTag_within ended 0
  rw [Nat.zero_add] at within
  simp only [steps, onto_rest, onto_inCode, outside, Bool.false_eq_true, if_false]
    at enough enoughToo
  simp only [nextFrom, onto_rest, onto_inCode, outside, Bool.not_false, if_true]
  cases tag : findOpenTag 0 scanner.rest with
  | none =>
      exact .apart rfl (by simp [skip]) _
  | code length =>
      rw [tag] at within
      rw [findOpenTag_append ended (by simp [tag]), tag]
      dsimp only
      rw [skip_onto within]
      have shorter := (scanner.skip_passes length).rest
      refine ih { scanner.skip length with inCode := true } problems ended.of_drop ?_ ?_
      · simp only [steps, if_true]
        omega
      · simp only [steps, onto, List.length_append, if_true] at enoughToo ⊢
        omega
  | echo before =>
      rw [tag] at within
      rw [findOpenTag_append ended (by simp [tag]), tag]
      dsimp only
      rw [skip_onto (Nat.le_trans (Nat.le_add_right _ _) within)]
      have inside : 3 ≤ (scanner.skip before).rest.length := by
        rw [skip, List.length_drop]
        exact Nat.le_sub_of_add_le (Nat.add_comm before 3 ▸ within)
      exact take_meets { scanner.skip before with inCode := true } inside data _ _ _

/-- The scanner goes on after what it has passed. -/
theorem MeetsWithin.passed {next : Scanner} (inside : scanner.inCode = true)
    (still : next.inCode = true) (rest : next.rest = scanner.rest.drop length)
    (taken : 0 < length) :
    Meets data (next.nextFrom fuel problems) ((next.onto data).nextFrom more problems) := by
  have positive := ended.length_pos
  refine ih next problems (rest ▸ ended.of_drop) ?_ ?_
  · simp only [steps, inside, still, rest, List.length_drop, if_true] at enough ⊢
    omega
  · simp only [steps, onto_rest, onto_inCode, inside, still, rest, List.length_append,
      List.length_drop, if_true] at enoughToo ⊢
    omega

theorem MeetsWithin.inside (inside : scanner.inCode = true) :
    Meets data (scanner.nextFrom (fuel + 1) problems)
      ((scanner.onto data).nextFrom (more + 1) problems) := by
  have fits := frontOf_fits scanner.rest
  simp only [nextFrom, onto_rest, onto_inCode, inside, Bool.not_true, Bool.false_eq_true, if_false]
  obtain ⟨same, within⟩ | all := frontOf_append ended data
  · rw [same]
    cases front : frontOf scanner.rest with
    | done =>
        rw [front] at fits
        exact absurd fits ended.ne_nil
    | blank length =>
        rw [front] at fits within
        dsimp only [Front.length] at within ⊢
        rw [skip_onto within]
        exact ih.passed ended problems enough enoughToo inside inside rfl fits.2
    | blockComment length closed isDoc =>
        rw [front] at fits within
        dsimp only [Front.length] at within ⊢
        rw [skipComment_onto within]
        exact ih.passed ended _ enough enoughToo inside
          ((skipComment_inCode _ _ _).trans inside) (skipComment_rest _ _ _) fits.2
    | closeTag length =>
        rw [front] at within
        exact take_meets { scanner with inCode := false } within data _ _ _
    | token => exact takeToken_meets ended data problems
  · have fuelled : 0 < fuel := by
      have positive := ended.length_pos
      rw [steps, if_pos inside] at enough
      omega
    cases front : frontOf scanner.rest with
    | blank length =>
        rw [front] at all
        refine meets_of_finished (scanner.skip length) ?_ inside fuelled problems
        exact List.drop_eq_nil_of_le all
    | blockComment length closed isDoc =>
        rw [front] at all
        refine meets_of_finished (scanner.skipComment length isDoc) ?_ ?_ fuelled _
        · exact (skipComment_rest _ _ _).trans (List.drop_eq_nil_of_le all)
        · exact (skipComment_inCode _ _ _).trans inside
    | _ =>
        rw [front] at all
        cases all

end Steps

theorem nextFrom_meets (data : List Char) (fuel more : Nat) : MeetsWithin data fuel more := by
  induction fuel generalizing more with
  | zero =>
      intro scanner problems ended enough enoughToo
      unfold steps at enough
      split at enough <;> omega
  | succ fuel ih =>
      intro scanner problems ended enough enoughToo
      by_cases finished : scanner.rest = []
      · exact meets_of_reads (scanner.nextFrom_reads (fuel + 1) problems enough) finished
      obtain ⟨more, rfl⟩ : ∃ fewer, more = fewer + 1 := by
        refine ⟨more - 1, ?_⟩
        unfold steps at enoughToo
        split at enoughToo <;> omega
      cases code : scanner.inCode with
      | false => exact (ih more).outside (ended finished) problems enough enoughToo code
      | true => exact (ih more).inside (ended finished) problems enough enoughToo code

theorem next_meets (ended : scanner.rest ≠ [] → Ended scanner.rest) (data : List Char) :
    Meets data scanner.next (scanner.onto data).next := by
  refine nextFrom_meets data _ _ scanner [] ended ?_ ?_ <;>
  · unfold steps
    split <;> omega

/-- The tokens of a text and of a longer one: some that they share, and those after them. -/
def Forks (tokens longer : List Token) : Prop :=
  ∃ stem rest other, tokens = stem ++ rest ∧ longer = stem ++ other ∧
    ∀ token ∈ rest, token.kind ≠ .identifier

theorem Forks.of_wordless {tokens : List Token}
    (wordless : ∀ token ∈ tokens, token.kind ≠ .identifier) (longer : List Token) :
    Forks tokens longer :=
  ⟨[], tokens, longer, rfl, rfl, wordless⟩

theorem Forks.cons {tokens longer : List Token} (forks : Forks tokens longer) (token : Token) :
    Forks (token :: tokens) (token :: longer) := by
  obtain ⟨stem, rest, other, short, long, wordless⟩ := forks
  exact ⟨token :: stem, rest, other, by rw [short]; rfl, by rw [long]; rfl, wordless⟩

theorem wordless_of_finished {fuel : Nat} (finished : scanner.rest = []) (enough : 0 < fuel) :
    ∀ token ∈ scanner.tokensFrom fuel, token.kind ≠ .identifier := by
  obtain ⟨before, last, split, -, count, ended, -⟩ :=
    scanner.tokensFrom_exhausts fuel (by rw [finished]; exact enough)
  rw [finished, List.length_nil, Nat.le_zero, List.length_eq_zero_iff] at count
  rw [split, count]
  intro token among
  rw [List.mem_singleton.mp among, ended]
  nofun

theorem tokensFrom_forks {text : Text} (ended : Ended text) (stands : scanner.StandsIn text)
    (data : List Char) {fuel more : Nat} (enough : scanner.rest.length < fuel)
    (enoughToo : (scanner.rest ++ data).length < more) :
    Forks (scanner.tokensFrom fuel) ((scanner.onto data).tokensFrom more) := by
  induction fuel generalizing scanner more with
  | zero => omega
  | succ fuel ih =>
      obtain ⟨more, rfl⟩ : ∃ fewer, more = fewer + 1 := ⟨more - 1, by omega⟩
      have reads := scanner.next_reads
      have cuts := next_cuts stands
      have meets : Meets data scanner.next (scanner.onto data).next := by
        refine next_meets (fun nonempty => ?_) data
        obtain ⟨before, whole, -⟩ := stands
        exact Ended.of_append before (whole ▸ ended) nonempty
      unfold tokensFrom
      generalize scanner.next = read at reads cuts meets
      generalize (scanner.onto data).next = readToo at meets
      cases meets with
      | same token next =>
          dsimp only at reads cuts ⊢
          split
          · rename_i last
            refine .of_wordless ?_ _
            simp [last]
          · rename_i inside
            have shorter := reads.taken inside
            rw [List.length_append] at enoughToo
            refine (ih cuts.stands (by omega) ?_).cons token
            rw [List.length_append]
            omega
      | apart runsOn finished =>
          rename_i token next
          have wordless : token.kind ≠ .identifier := fun word => by cases word ▸ runsOn
          refine .of_wordless ?_ _
          dsimp only at reads ⊢
          split
          · simpa using wordless
          · rename_i inside
            have shorter := reads.taken inside
            rw [List.forall_mem_cons]
            exact ⟨wordless, wordless_of_finished finished (by omega)⟩

end Scanner

theorem tokenize_forks {text : Text} (ended : Ended text) (data : List Char) :
    Scanner.Forks (tokenize text) (tokenize (text ++ data)) :=
  Scanner.tokensFrom_forks ended ⟨[], rfl, rfl⟩ data (Nat.lt_succ_self _) (Nat.lt_succ_self _)

/-! Problems are found inside the text. -/

/-- The token starts and its problems are before the given offset, or at it. -/
structure Token.Within (limit : Nat) (token : Token) : Prop where
  start : token.span.start ≤ limit
  problems : ∀ problem ∈ token.problems, problem.pos ≤ limit

theorem Token.CutFrom.start_le {token : Token} {text : Text} (cut : token.CutFrom text) :
    token.span.start ≤ text.byteSize := by
  have sum := cut.start_add
  have inside := cut.stop_le
  omega

namespace Scanner

variable {scanner : Scanner} {text : Text}

theorem StandsIn.pos_le (stands : scanner.StandsIn text) : scanner.pos ≤ text.byteSize := by
  obtain ⟨before, whole, pos⟩ := stands
  rw [whole, Text.byteSize_append, pos]
  exact Nat.le_add_right _ _

theorem nextFrom_problems (stands : scanner.StandsIn text) (fuel : Nat)
    {problems : List ScanProblem} (known : ∀ problem ∈ problems, problem.pos ≤ text.byteSize) :
    ∀ problem ∈ (scanner.nextFrom fuel problems).1.problems, problem.pos ≤ text.byteSize := by
  fun_induction nextFrom fuel scanner problems with
  | case1 => exact known
  | case2 => exact known
  | case3 fuel scanner problems outside length tag ih => exact ih (stands.skip length) known
  | case4 => exact known
  | case5 => exact known
  | case6 fuel scanner problems inCode length blank ih => exact ih (stands.skip length) known
  | case7 fuel scanner problems inCode length closed isDoc comment problem ih =>
      refine ih ?_ ?_
      · simpa only [StandsIn, skipComment_rest, skipComment_pos] using stands.skip length
      · refine List.forall_mem_append.mpr ⟨known, ?_⟩
        cases closed
        · exact List.forall_mem_singleton.mpr stands.pos_le
        · exact List.forall_mem_nil _
  | case8 => exact known
  | case9 fuel scanner problems inCode front =>
      refine List.forall_mem_append.mpr ⟨known, fun problem found => ?_⟩
      obtain ⟨message, -, rfl⟩ := List.mem_map.mp found
      exact stands.pos_le

theorem tokensFrom_within (stands : scanner.StandsIn text) (fuel : Nat) :
    ∀ token ∈ scanner.tokensFrom fuel, token.Within text.byteSize := by
  induction fuel generalizing scanner with
  | zero => exact List.forall_mem_nil _
  | succ fuel ih =>
      have cuts := next_cuts stands
      have within : scanner.next.1.Within text.byteSize :=
        ⟨cuts.cut.start_le, nextFrom_problems stands _ (List.forall_mem_nil _)⟩
      unfold tokensFrom
      dsimp only
      split
      · exact List.forall_mem_singleton.mpr within
      · exact List.forall_mem_cons.mpr ⟨within, ih cuts.stands⟩

end Scanner

theorem tokenize_within (text : Text) : ∀ token ∈ tokenize text, token.Within text.byteSize :=
  Scanner.tokensFrom_within ⟨[], rfl, rfl⟩ _

end StaticReflection
