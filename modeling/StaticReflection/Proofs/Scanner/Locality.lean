import Mathlib.Data.List.Find
import Mathlib.Data.List.TakeWhile
import StaticReflection.Proofs.Scanner.WholeText

namespace StaticReflection

/-! What comes after a semicolon, or after a closing brace or parenthesis, does not change the
tokens before it, except where a string, a comment or the text outside the tags runs on over
it. -/

/-- Characters that are tokens of their own, whatever follows. -/
def terminators : List Char :=
  [';', '\x7d', ')']

-- They are looked at one by one, and not among all characters.
instance (priority := 2000) decidableAllTerminators {p : Char → Prop} [DecidablePred p] :
    Decidable (∀ c ∈ terminators, p c) :=
  List.decidableBAll p terminators

/-- The text ends with a semicolon, or with a closing brace or parenthesis. -/
def Ended (text : List Char) : Prop :=
  text.getLast?.any terminators.contains = true

theorem not_terminator {c : Char} {q : Char → Bool} (marked : q c = true)
    (others : ∀ d ∈ terminators, q d = false) : c ∉ terminators := fun among => by
  cases (others c among).symm.trans marked

namespace Ended

variable {text : List Char} {c : Char} {p : Char → Bool} {count : Nat}

theorem exists_last (ended : Ended text) : ∃ c ∈ terminators, text.getLast? = some c := by
  obtain ⟨c, last, among⟩ := (Option.any_eq_true _ _).mp ended
  exact ⟨c, List.contains_iff_mem.mp among, last⟩

theorem ne_nil (ended : Ended text) : text ≠ [] := by
  rintro rfl
  cases ended

theorem length_pos (ended : Ended text) : 0 < text.length :=
  List.length_pos_iff.mpr ended.ne_nil

theorem of_append (before : List Char) (ended : Ended (before ++ text)) (more : text ≠ []) :
    Ended text := by
  rw [Ended, List.getLast?_append, List.getLast?_eq_some_getLast more] at ended
  rw [Ended, List.getLast?_eq_some_getLast more]
  exact ended

theorem of_cons (ended : Ended (c :: text)) (more : text ≠ []) : Ended text :=
  of_append [c] ended more

theorem mem_of_singleton (ended : Ended [c]) : c ∈ terminators :=
  List.contains_iff_mem.mp ended

theorem tail (ended : Ended (c :: text)) (other : c ∉ terminators) : Ended text := by
  refine ended.of_cons ?_
  rintro rfl
  exact other ended.mem_of_singleton

theorem cons (ended : Ended text) (c : Char) : Ended (c :: text) := by
  obtain ⟨d, rest, rfl⟩ := List.exists_cons_of_ne_nil ended.ne_nil
  rw [Ended, List.getLast?_cons_cons]
  exact ended

theorem drop (ended : Ended text) (inside : count < text.length) : Ended (text.drop count) := by
  rw [Ended, List.getLast?_drop, if_neg (Nat.not_le.mpr inside)]
  exact ended

theorem head?_append (ended : Ended text) (data : List Char) :
    (text ++ data).head? = text.head? := by
  cases text with
  | nil => exact absurd rfl ended.ne_nil
  | cons c text => rfl

theorem length_takeWhile_lt (ended : Ended text) (stop : ∀ c ∈ terminators, p c = false) :
    (text.takeWhile p).length < text.length := by
  refine Nat.lt_of_le_of_ne (List.takeWhile_prefix p).length_le fun whole => ?_
  have all := (List.takeWhile_prefix p).eq_of_length whole
  obtain ⟨c, among, last⟩ := ended.exists_last
  have passed := List.takeWhile_eq_self_iff.mp all c (List.mem_of_getLast? last)
  cases (stop c among).symm.trans passed

theorem takeWhile_append (ended : Ended text) (stop : ∀ c ∈ terminators, p c = false)
    (data : List Char) : (text ++ data).takeWhile p = text.takeWhile p := by
  rw [List.takeWhile_append, if_neg (Nat.ne_of_lt (ended.length_takeWhile_lt stop))]

theorem dropWhile (ended : Ended text) (stop : ∀ c ∈ terminators, p c = false) :
    Ended (text.dropWhile p) := by
  have shorter := ended.length_takeWhile_lt stop
  have whole := List.takeWhile_append_dropWhile (p := p) (l := text)
  have more : text.dropWhile p ≠ [] := by
    intro nothing
    rw [nothing, List.append_nil] at whole
    exact Nat.lt_irrefl _ (whole ▸ shorter)
  exact of_append _ (whole.symm ▸ ended) more

theorem dropWhile_append (ended : Ended text) (stop : ∀ c ∈ terminators, p c = false)
    (data : List Char) : (text ++ data).dropWhile p = text.dropWhile p ++ data := by
  rw [List.dropWhile_append, if_neg]
  rw [List.isEmpty_iff]
  exact (ended.dropWhile stop).ne_nil

/-- Characters other than the last one are passed from a place in the text to another one. -/
theorem add_takeWhile_lt (ended : Ended text) (inside : count < text.length)
    (stop : ∀ c ∈ terminators, p c = false) :
    count + ((text.drop count).takeWhile p).length < text.length := by
  have shorter := (ended.drop inside).length_takeWhile_lt stop
  rw [List.length_drop] at shorter
  omega

theorem takeWhile_drop_append (ended : Ended text) (inside : count < text.length)
    (stop : ∀ c ∈ terminators, p c = false) (data : List Char) :
    ((text ++ data).drop count).takeWhile p = (text.drop count).takeWhile p := by
  rw [List.drop_append_of_le_length (Nat.le_of_lt inside),
    (ended.drop inside).takeWhile_append stop]

/-- A mark at the front, if there is one, is not the end of the text. -/
theorem front_lt (ended : Ended text) (mark : Option Char → Prop) [DecidablePred mark]
    (others : ∀ c ∈ terminators, ¬ mark (some c)) :
    (if mark text.head? then 1 else 0) < text.length := by
  cases text with
  | nil => exact absurd rfl ended.ne_nil
  | cons c rest =>
      split
      · rename_i marked
        exact Nat.succ_lt_succ (ended.tail fun among => others c among marked).length_pos
      · exact Nat.succ_pos _

theorem startsName_append (ended : Ended text) (data : List Char) :
    startsName (text ++ data) = startsName text := by
  rw [startsName, ended.head?_append, startsName]

theorem isPrefixOf_append {sign : List Char} (ended : Ended text)
    (single : ∀ c ∈ terminators, c ∉ sign.dropLast)
    (data : List Char) : sign.isPrefixOf (text ++ data) = sign.isPrefixOf text := by
  induction sign generalizing text with
  | nil => simp
  | cons c sign ih =>
      obtain ⟨d, rest, rfl⟩ := List.exists_cons_of_ne_nil ended.ne_nil
      rw [List.cons_append, List.isPrefixOf_cons_cons, List.isPrefixOf_cons_cons]
      cases sign with
      | nil => simp
      | cons e sign =>
          by_cases last : rest = []
          · -- only the sign itself could go on after the end
            have closes : d ∈ terminators := by
              subst last
              exact ended.mem_of_singleton
            have other : (c == d) = false := by
              rw [beq_eq_false_iff_ne]
              rintro rfl
              exact single c closes List.mem_cons_self
            rw [other, Bool.false_and, Bool.false_and]
          · rw [ih (ended.of_cons last) fun c among inside =>
              single c among (List.mem_cons_of_mem _ inside)]

theorem take_append_iff (ended : Ended text) (mark : List Char)
    (others : ∀ c ∈ terminators, c ∉ mark) (data : List Char) :
    (text ++ data).take mark.length = mark ↔ text.take mark.length = mark := by
  have same := ended.isPrefixOf_append
    (fun c among last => others c among (List.dropLast_subset _ last)) data
  rw [Bool.eq_iff_iff, List.isPrefixOf_iff_prefix, List.isPrefixOf_iff_prefix,
    List.prefix_iff_eq_take, List.prefix_iff_eq_take, eq_comm, eq_comm (a := mark)] at same
  exact same

end Ended

/-- What is read from the text is read from every longer one, and is a part of the text. -/
structure Lexeme.Local (lex : List Char → Lexeme) (text : List Char) : Prop where
  same : ∀ data, lex (text ++ data) = lex text
  inside : (lex text).length ≤ text.length

theorem Lexeme.Local.of_forall {lex : List Char → Lexeme} {text : List Char}
    (both : ∀ data, lex (text ++ data) = lex text ∧ (lex text).length ≤ text.length) :
    Lexeme.Local lex text :=
  ⟨fun data => (both data).1, (both []).2⟩

variable {text : List Char}

theorem lexVariable_local (c : Char) (ended : Ended text) :
    Lexeme.Local lexVariable (c :: text) where
  same data := by
    have name := ended.takeWhile_append (p := isNamePart) (by decide) data
    simp only [lexVariable, List.cons_append, List.tail_cons, name]
  inside := Nat.succ_le_succ (Nat.le_of_lt (ended.length_takeWhile_lt (by decide)))

/-! Names. -/

theorem moreSegments_lt (ended : Ended text) (fuel : Nat) :
    moreSegments fuel text < text.length := by
  fun_induction moreSegments fuel text with
  | case1 => exact ended.length_pos
  | case2 fuel text starts segment ih =>
      have rest := ended.tail (by decide)
      have inside : segment < text.length := rest.length_takeWhile_lt (by decide)
      have shorter := ih (rest.drop inside)
      simp only [List.length_drop, List.length_cons] at shorter ⊢
      omega
  | case3 => exact ended.length_pos
  | case4 => exact ended.length_pos

theorem moreSegments_append (ended : Ended text) (data : List Char) {fuel other : Nat}
    (enough : text.length ≤ fuel) (enoughToo : text.length ≤ other) :
    moreSegments other (text ++ data) = moreSegments fuel text := by
  fun_induction moreSegments fuel text generalizing other with
  | case1 => exact absurd enough (Nat.not_le.mpr ended.length_pos)
  | case2 fuel text starts segment ih =>
      have rest := ended.tail (by decide)
      have inside : segment < text.length := rest.length_takeWhile_lt (by decide)
      simp only [List.length_cons] at enough enoughToo
      obtain ⟨other, rfl⟩ : ∃ fewer, other = fewer + 1 := ⟨other - 1, by omega⟩
      have more : moreSegments other (text.drop segment ++ data) = _ :=
        ih (rest.drop inside) (by simp; omega) (by simp; omega)
      rw [List.cons_append, moreSegments, if_pos (rest.startsName_append data ▸ starts),
        rest.takeWhile_append (by decide)]
      dsimp only
      rw [List.drop_append_of_le_length (Nat.le_of_lt inside), more]
  | case3 fuel text plain =>
      obtain ⟨other, rfl⟩ : ∃ fewer, other = fewer + 1 :=
        ⟨other - 1, by simp only [List.length_cons] at enoughToo; omega⟩
      have rest := ended.tail (by decide)
      rw [List.cons_append, moreSegments, if_neg (rest.startsName_append data ▸ plain)]
  | case4 fuel text single =>
      obtain ⟨c, rest, rfl⟩ := List.exists_cons_of_ne_nil ended.ne_nil
      obtain ⟨other, rfl⟩ : ∃ fewer, other = fewer + 1 :=
        ⟨other - 1, by simp only [List.length_cons] at enoughToo; omega⟩
      rw [List.cons_append, moreSegments]
      rintro _ ⟨⟩
      exact single rest rfl

theorem lexName_local (ended : Ended text) : Lexeme.Local lexName text := by
  refine .of_forall fun data => ?_
  have leading := ended.front_lt (· = some '\\') (by decide)
  simp only [lexName, nameExtent, ended.head?_append data]
  generalize (if text.head? = some '\\' then 1 else 0) = lead at leading ⊢
  have named := ended.add_takeWhile_lt (p := isNamePart) leading (by decide)
  rw [ended.takeWhile_drop_append leading (by decide)]
  generalize lead + ((text.drop lead).takeWhile isNamePart).length = first at named ⊢
  have rest := ended.drop named
  have segmented := moreSegments_lt rest (text.drop first).length
  rw [List.drop_append_of_le_length (Nat.le_of_lt named),
    moreSegments_append rest data (Nat.le_refl _) (by simp)]
  generalize moreSegments (text.drop first).length (text.drop first) = more at segmented ⊢
  have inside : first + more < text.length := by
    rw [List.length_drop] at segmented
    omega
  rw [List.drop_append_of_le_length (Nat.le_of_lt inside)]
  have group := (ended.drop inside).take_append_iff ['\\', '\x7b'] (by decide) data
  simp only [List.length_cons, List.length_nil] at group
  simp only [group]
  have whole : first + more +
      (if (text.drop (first + more)).take 2 = ['\\', '\x7b'] then 1 else 0) ≤ text.length := by
    split <;> omega
  exact ⟨by rw [List.take_append_of_le_length whole], whole⟩

/-! Numbers. -/

theorem exponentLength_append (ended : Ended text) (data : List Char) :
    exponentLength (text ++ data) = exponentLength text ∧
      exponentLength text < text.length := by
  cases text with
  | nil => exact absurd rfl ended.ne_nil
  | cons e rest =>
      simp only [List.cons_append, exponentLength]
      split
      · rename_i marked
        have after : Ended rest := ended.tail
          (not_terminator (q := fun e => e == 'e' || e == 'E') marked (by decide))
        have signed := after.front_lt (fun front => front = some '+' || front = some '-')
          (by decide)
        simp only [after.head?_append]
        generalize (if rest.head? = some '+' || rest.head? = some '-' then 1 else 0) = sign
          at signed ⊢
        have digits := after.drop signed
        rw [List.drop_append_of_le_length (Nat.le_of_lt signed), digits.head?_append,
          digits.takeWhile_append (by decide)]
        refine ⟨rfl, ?_⟩
        have shorter := after.add_takeWhile_lt (p := isDecimalPart) signed (by decide)
        split
        · rw [List.length_cons]
          omega
        · exact Nat.succ_pos _
      · exact ⟨rfl, Nat.succ_pos _⟩

theorem markedBase?_append (ended : Ended text) (data : List Char) :
    markedBase? (text ++ data) = markedBase? text := by
  match text with
  | [] => exact absurd rfl ended.ne_nil
  | [c] =>
      have other : c ≠ '0' := fun zero => absurd (zero ▸ ended.mem_of_singleton) (by decide)
      simp [markedBase?, other]
  | c :: d :: text =>
      by_cases zero : c = '0'
      · rw [zero]
        rfl
      · simp [markedBase?, zero]

/-- The length of a point and the digits after it, or zero when there is none. -/
def fractionLength : List Char → Nat
  | '.' :: rest =>
      if rest.head? = some '.' then 0 else 1 + (rest.takeWhile isDecimalPart).length
  | _ => 0

theorem fractionLength_append (ended : Ended text) (data : List Char) :
    fractionLength (text ++ data) = fractionLength text ∧
      fractionLength text < text.length := by
  obtain ⟨c, rest, rfl⟩ := List.exists_cons_of_ne_nil ended.ne_nil
  by_cases point : c = '.'
  · subst point
    have digits := ended.tail (by decide)
    have shorter := digits.length_takeWhile_lt (p := isDecimalPart) (by decide)
    rw [List.cons_append, fractionLength, fractionLength, digits.head?_append,
      digits.takeWhile_append (by decide)]
    refine ⟨rfl, ?_⟩
    rw [List.length_cons]
    split <;> omega
  · simp [fractionLength, point]

theorem markedDigits_ended {base : Nat} (ended : Ended text)
    (marked : markedBase? text = some base) : 2 < text.length := by
  unfold markedBase? at marked
  split at marked
  · rename_i c rest
    have other : c ∉ terminators := not_terminator (q := fun c => (markedBase? ['0', c]).isSome)
      (congrArg Option.isSome marked) (by decide)
    have digits : Ended rest := (ended.tail (by decide)).tail other
    exact Nat.succ_lt_succ (Nat.succ_lt_succ digits.length_pos)
  · cases marked

theorem numberExtent_eq (text : List Char) : numberExtent text = match markedBase? text with
    | some base =>
        (.integerLiteral, 2 + ((text.drop 2).takeWhile
          fun c => c == '_' || (digitOf? base c).isSome).length)
    | none =>
        let whole := (text.takeWhile isDecimalPart).length
        let point := fractionLength (text.drop whole)
        let exponent := exponentLength ((text.drop whole).drop point)
        (if point + exponent = 0 then .integerLiteral else .floatLiteral,
          whole + point + exponent) := rfl

theorem numberExtent_append (ended : Ended text) (data : List Char) :
    numberExtent (text ++ data) = numberExtent text ∧ (numberExtent text).2 ≤ text.length := by
  rw [numberExtent_eq, numberExtent_eq, markedBase?_append ended]
  cases marked : markedBase? text with
  | some base =>
      have inside := markedDigits_ended ended marked
      have stop : ∀ c ∈ terminators, (c == '_' || (digitOf? base c).isSome) = false := by
        have apart : ∀ c ∈ terminators, (c == '_') = false ∧ digitValue? c = none := by decide
        intro c among
        simp [digitOf?, apart c among]
      dsimp only
      rw [ended.takeWhile_drop_append inside stop]
      exact ⟨rfl, Nat.le_of_lt (ended.add_takeWhile_lt inside stop)⟩
  | none =>
      have counted := ended.length_takeWhile_lt (p := isDecimalPart) (by decide)
      dsimp only
      rw [ended.takeWhile_append (by decide)]
      generalize (text.takeWhile isDecimalPart).length = whole at counted ⊢
      have rest := ended.drop counted
      obtain ⟨point, pointed⟩ := fractionLength_append rest data
      obtain ⟨exponent, raised⟩ := exponentLength_append (rest.drop pointed) data
      rw [List.drop_append_of_le_length (Nat.le_of_lt counted), point,
        List.drop_append_of_le_length (Nat.le_of_lt pointed), exponent]
      refine ⟨rfl, ?_⟩
      simp only [List.length_drop] at pointed raised
      omega

theorem lexNumber_local (ended : Ended text) : Lexeme.Local lexNumber text := by
  refine .of_forall fun data => ?_
  obtain ⟨same, inside⟩ := numberExtent_append ended data
  simp only [lexNumber, same, List.take_append_of_le_length inside]
  exact ⟨trivial, inside⟩

/-! Strings. One that is closed ends before what comes after the text. -/

/-- A literal without an end takes the whole text. -/
structure Lexeme.Endless (lexeme : Lexeme) (text : List Char) : Prop where
  literal : lexeme.kind = .stringLiteral ∨ lexeme.kind = .interpolatedString
  whole : lexeme.length = text.length

theorem singleQuoted_append {read : List Char} {length : Nat}
    (closed : (singleQuoted read length text).2.2 = true) (data : List Char) :
    singleQuoted read length (text ++ data) = singleQuoted read length text ∧
      (singleQuoted read length text).2.1 ≤ length + text.length := by
  fun_induction singleQuoted read length text with
  | case1 => cases closed
  | case2 read length rest => simp [singleQuoted]
  | case3 read length rest ih =>
      obtain ⟨same, inside⟩ := ih closed
      rw [List.cons_append, List.cons_append, singleQuoted, same]
      exact ⟨rfl, by simp only [List.length_cons]; omega⟩
  | case4 read length rest ih =>
      obtain ⟨same, inside⟩ := ih closed
      rw [List.cons_append, List.cons_append, singleQuoted, same]
      exact ⟨rfl, by simp only [List.length_cons]; omega⟩
  | case5 read length c rest unquoted noQuote noBackslash ih =>
      obtain ⟨same, inside⟩ := ih closed
      -- a backslash at the end of the text would leave the string open
      obtain ⟨d, rest, rfl⟩ : ∃ d after, rest = d :: after := by
        cases rest with
        | nil => cases closed
        | cons d rest => exact ⟨d, rest, rfl⟩
      rw [List.cons_append, List.cons_append, singleQuoted, ← List.cons_append, same]
      · exact ⟨rfl, by simp only [List.length_cons] at inside ⊢; omega⟩
      · exact unquoted
      · rintro _ rfl ⟨⟩
        exact noQuote _ rfl rfl
      · rintro _ rfl ⟨⟩
        exact noBackslash _ rfl rfl

theorem singleQuoted_open {read : List Char} {length : Nat}
    (unclosed : (singleQuoted read length text).2.2 = false) :
    (singleQuoted read length text).2.1 = length + text.length := by
  fun_induction singleQuoted read length text with
  | case1 => rfl
  | case2 => cases unclosed
  | case3 read length rest ih => rw [ih unclosed, List.length_cons, List.length_cons]; omega
  | case4 read length rest ih => rw [ih unclosed, List.length_cons, List.length_cons]; omega
  | case5 read length c rest _ _ _ ih => rw [ih unclosed, List.length_cons]; omega

theorem lexSingleQuoted_local (c : Char) (text : List Char) :
    Lexeme.Local lexSingleQuoted (c :: text) ∨
      (lexSingleQuoted (c :: text)).Endless (c :: text) := by
  cases closed : (singleQuoted [] 1 text).2.2 with
  | true =>
      refine .inl (.of_forall fun data => ?_)
      obtain ⟨same, inside⟩ := singleQuoted_append closed data
      simp only [lexSingleQuoted, List.cons_append, List.tail_cons, same]
      exact ⟨rfl, by rw [List.length_cons, Nat.add_comm]; exact inside⟩
  | false =>
      refine .inr ⟨.inl rfl, ?_⟩
      rw [List.length_cons, Nat.add_comm]
      exact singleQuoted_open closed

theorem quotedLength?_append {quote : Char} {length stop : Nat} (plain : quote ≠ '\\')
    (closed : quotedLength? quote length text = some stop) (data : List Char) :
    quotedLength? quote length (text ++ data) = some stop ∧ stop < length + text.length := by
  fun_induction quotedLength? quote length text with
  | case1 => cases closed
  | case2 length c rest ih =>
      obtain ⟨same, inside⟩ := ih closed
      rw [List.cons_append, List.cons_append, quotedLength?, same]
      exact ⟨rfl, by simp only [List.length_cons]; omega⟩
  | case3 length rest unescaped =>
      cases closed
      rw [List.cons_append, quotedLength?, if_pos rfl]
      · exact ⟨rfl, by rw [List.length_cons]; omega⟩
      · exact fun _ _ backslash => absurd backslash plain
  | case4 length c rest unescaped other ih =>
      obtain ⟨same, inside⟩ := ih closed
      obtain ⟨d, rest, rfl⟩ : ∃ d after, rest = d :: after := by
        cases rest with
        | nil => cases closed
        | cons d rest => exact ⟨d, rest, rfl⟩
      rw [List.cons_append, List.cons_append, quotedLength?, if_neg other, ← List.cons_append, same]
      · exact ⟨rfl, by simp only [List.length_cons] at inside ⊢; omega⟩
      · rintro _ _ rfl ⟨⟩
        exact unescaped _ _ rfl rfl

theorem lexDoubleQuoted_local (c : Char) (text : List Char) :
    Lexeme.Local lexDoubleQuoted (c :: text) ∨
      (lexDoubleQuoted (c :: text)).Endless (c :: text) := by
  cases closed : quotedLength? '"' 0 text with
  | some stop =>
      refine .inl (.of_forall fun data => ?_)
      obtain ⟨same, inside⟩ := quotedLength?_append (by decide) closed data
      rw [Nat.zero_add] at inside
      have body : (text ++ data).take stop = text.take stop :=
        List.take_append_of_le_length (Nat.le_of_lt inside)
      rw [lexDoubleQuoted_of_closed closed, List.cons_append, lexDoubleQuoted_of_closed same]
      rw [body]
      refine ⟨rfl, ?_⟩
      split <;> · simp only [Lexeme.ofBytes, List.length_cons]; omega
  | none =>
      refine .inr ⟨?_, ?_⟩ <;>
      · rw [lexDoubleQuoted_of_open closed]
        split <;> simp [Lexeme.ofBytes]

theorem lexShellCommand_local (c : Char) (text : List Char) :
    Lexeme.Local lexShellCommand (c :: text) ∨
      (lexShellCommand (c :: text)).Endless (c :: text) := by
  cases closed : quotedLength? '\x60' 0 text with
  | some stop =>
      refine .inl (.of_forall fun data => ?_)
      obtain ⟨same, inside⟩ := quotedLength?_append (by decide) closed data
      have whole : stop + 2 ≤ (c :: text).length := by
        rw [List.length_cons]
        omega
      have lexeme : (c :: (text ++ data)).take (stop + 2) = (c :: text).take (stop + 2) :=
        List.take_append_of_le_length whole
      simp only [lexShellCommand, List.cons_append, List.tail_cons, same, closed, lexeme]
      exact ⟨trivial, whole⟩
  | none =>
      refine .inr ⟨.inr rfl, ?_⟩
      simp only [lexShellCommand, List.tail_cons, closed]

/-! Heredocs. -/

theorem lineEndLength_append (ended : Ended text) (data : List Char) :
    lineEndLength (text ++ data) = lineEndLength text ∧
      lineEndLength text < text.length := by
  fun_cases lineEndLength text with
  | case1 rest =>
      have more := (ended.tail (by decide)).length_pos
      exact ⟨rfl, Nat.succ_lt_succ more⟩
  | case2 rest =>
      have more := ((ended.tail (by decide)).tail (by decide)).length_pos
      exact ⟨rfl, Nat.succ_lt_succ (Nat.succ_lt_succ more)⟩
  | case3 rest single =>
      have more := ended.tail (by decide)
      obtain ⟨d, rest, rfl⟩ := List.exists_cons_of_ne_nil more.ne_nil
      refine ⟨?_, Nat.succ_lt_succ more.length_pos⟩
      rw [List.cons_append, List.cons_append, lineEndLength]
      rintro _ ⟨⟩
      exact single _ rfl
  | case4 text feed both single =>
      obtain ⟨c, rest, rfl⟩ := List.exists_cons_of_ne_nil ended.ne_nil
      refine ⟨?_, ended.length_pos⟩
      rw [List.cons_append, lineEndLength]
      · rintro _ ⟨⟩
        exact feed _ rfl
      · rintro _ same
        obtain ⟨rfl, -⟩ := List.cons.inj same
        exact single _ rfl
      · rintro _ ⟨⟩
        exact single _ rfl

theorem heredocOpening_eq (text : List Char) : HeredocOpening.read? text =
    let start := 3 + ((text.drop 3).takeWhile isIndent).length
    let quote := (text[start]?).filter fun c => c == '\'' || c == '"'
    let quoteLength := if quote.isSome then 1 else 0
    let label := (text.drop (start + quoteLength)).takeWhile isNamePart
    let labelEnd := start + quoteLength + label.length
    let lineEnd := lineEndLength (text.drop (labelEnd + quoteLength))
    if !startsName label then none
    else if quote.isSome && text[labelEnd]? != quote then none
    else if lineEnd = 0 then none
    else some ⟨label, quote == some '\'', labelEnd + quoteLength + lineEnd⟩ := by
  unfold HeredocOpening.read?
  dsimp only
  split
  · rfl
  split
  · rfl
  change (if _ then _ else _) = _
  split <;> rfl

/-- A quote after the label, if the label is quoted, is not the end of the text. -/
theorem closingQuote_lt {quote : Option Char} {count : Nat} (ended : Ended text)
    (mark : ∀ c ∈ terminators, quote ≠ some c) (inside : count < text.length)
    (closed : ¬ (quote.isSome && text[count]? != quote)) :
    count + (if quote.isSome then 1 else 0) < text.length := by
  cases quote with
  | none => exact inside
  | some c =>
      have found : (text.drop count).head? = some c := by simpa using closed
      have shorter := (ended.drop inside).front_lt (· = some c)
        fun d among same => mark d among same.symm
      rw [if_pos found, List.length_drop] at shorter
      simp only [Option.isSome_some, if_true]
      omega

theorem heredocOpening_append (ended : Ended text) (long : 3 < text.length)
    (data : List Char) :
    HeredocOpening.read? (text ++ data) = HeredocOpening.read? text ∧
      ∀ opening ∈ HeredocOpening.read? text,
        opening.length < text.length ∧ ∀ c ∈ opening.label, isNamePart c = true := by
  have blanks := ended.add_takeWhile_lt (p := isIndent) long (by decide)
  simp only [heredocOpening_eq]
  rw [ended.takeWhile_drop_append long (by decide)]
  generalize 3 + ((text.drop 3).takeWhile isIndent).length = start at blanks ⊢
  have quoted := (ended.drop blanks).front_lt
    (fun front => (front.filter fun c => c == '\'' || c == '"').isSome) (by decide)
  have mark : ∀ d ∈ terminators,
      (text[start]?).filter (fun c => c == '\'' || c == '"') ≠ some d := fun d among closing =>
    not_terminator (q := fun c => c == '\'' || c == '"')
      (Option.filter_eq_some_iff.mp closing).2 (by decide) among
  rw [List.head?_drop, List.length_drop] at quoted
  rw [List.getElem?_append_left blanks]
  generalize (text[start]?).filter (fun c => c == '\'' || c == '"') = quote at quoted mark ⊢
  generalize once : (if quote.isSome then 1 else 0) = quoteLength at quoted ⊢
  have opened : start + quoteLength < text.length := by omega
  have labelled := ended.add_takeWhile_lt (p := isNamePart) opened (by decide)
  have parts : ∀ c ∈ (text.drop (start + quoteLength)).takeWhile isNamePart,
      isNamePart c = true := fun c => List.mem_takeWhile_imp
  rw [ended.takeWhile_drop_append opened (by decide)]
  generalize (text.drop (start + quoteLength)).takeWhile isNamePart = label at labelled parts ⊢
  rw [List.getElem?_append_left labelled]
  split
  · exact ⟨rfl, nofun⟩
  split
  · exact ⟨rfl, nofun⟩
  rename_i same
  have closed := closingQuote_lt ended mark labelled same
  rw [once] at closed
  obtain ⟨line, short⟩ := lineEndLength_append (ended.drop closed) data
  rw [List.drop_append_of_le_length (Nat.le_of_lt closed), line]
  split
  · exact ⟨rfl, nofun⟩
  · refine ⟨rfl, ?_⟩
    rintro _ ⟨⟩
    rw [List.length_drop] at short
    exact ⟨by dsimp only; omega, parts⟩

theorem not_mem_of_mem_splitOn {a : Char} {chars part : List Char}
    (member : part ∈ chars.splitOn a) : a ∉ part := by
  induction chars generalizing part with
  | nil =>
      rw [List.splitOn_nil, List.mem_singleton] at member
      rw [member]
      exact List.not_mem_nil
  | cons c rest ih =>
      rw [List.splitOn_cons_eq_if_modifyHead] at member
      split at member
      · rcases List.mem_cons.mp member with rfl | member
        · exact List.not_mem_nil
        · exact ih member
      · rename_i other
        obtain ⟨first, others, split⟩ := List.exists_cons_of_ne_nil (List.splitOn_ne_nil a rest)
        rw [split] at member ih
        rcases List.mem_cons.mp member with rfl | member
        · rw [List.mem_cons, not_or]
          exact ⟨fun same => other (by simp [← same]), ih (by simp)⟩
        · exact ih (List.mem_cons_of_mem _ member)

/-- Only the last line goes on. -/
theorem splitOn_append (ended : Ended text) (data : List Char) :
    ∃ lines last first rest, text.splitOn '\n' = lines ++ [last] ∧ Ended last ∧
      (text ++ data).splitOn '\n' = lines ++ (last ++ first) :: rest := by
  induction text with
  | nil => exact absurd rfl ended.ne_nil
  | cons c text ih =>
      by_cases single : text = []
      · subst single
        have feed : (c == '\n') = false :=
          beq_eq_false_iff_ne.mpr fun feed => absurd (feed ▸ ended.mem_of_singleton) (by decide)
        obtain ⟨first, rest, split⟩ := List.exists_cons_of_ne_nil (List.splitOn_ne_nil '\n' data)
        refine ⟨[], [c], first, rest, ?_, ended, ?_⟩
        · simp [List.splitOn_cons_eq_if_modifyHead, feed]
        · simp [List.splitOn_cons_eq_if_modifyHead, feed, split]
      · obtain ⟨lines, last, first, rest, short, closed, long⟩ := ih (ended.of_cons single)
        rw [List.cons_append, List.splitOn_cons_eq_if_modifyHead,
          List.splitOn_cons_eq_if_modifyHead, short, long]
        by_cases feed : (c == '\n') = true
        · refine ⟨[] :: lines, last, first, rest, ?_, closed, ?_⟩ <;> simp [feed]
        · cases lines with
          | nil => exact ⟨[], c :: last, first, rest, by simp [feed], closed.cons c, by simp [feed]⟩
          | cons line lines =>
              exact ⟨(c :: line) :: lines, last, first, rest, by simp [feed], closed,
                by simp [feed]⟩

theorem closingIndent?_eq_some_iff {label line : List Char} {indent : Nat} :
    closingIndent? label line = some indent ↔
      ∃ after, line.dropWhile isIndent = label ++ after ∧ after.head?.any isNamePart = false ∧
        indent = line.length - (label ++ after).length := by
  simp only [closingIndent?, Bool.and_eq_true, List.isPrefixOf_iff_prefix]
  constructor
  · intro found
    split at found
    · rename_i closes
      obtain ⟨⟨after, trimmed⟩, stops⟩ := closes
      rw [← trimmed, List.drop_left] at stops
      refine ⟨after, trimmed.symm, by simpa using stops, ?_⟩
      rw [trimmed]
      exact (Option.some.inj found).symm
    · cases found
  · rintro ⟨after, trimmed, stops, rfl⟩
    rw [trimmed, List.drop_left, if_pos ⟨List.prefix_append _ _, by simp [stops]⟩]

theorem closingIndent?_append {label line : List Char} {indent : Nat} (ended : Ended line)
    (parts : ∀ c ∈ label, isNamePart c = true) (closes : closingIndent? label line = some indent)
    (data : List Char) : closingIndent? label (line ++ data) = some indent := by
  obtain ⟨after, trimmed, stops, rfl⟩ := closingIndent?_eq_some_iff.mp closes
  have whole : Ended (label ++ after) := trimmed ▸ ended.dropWhile (by decide)
  have more : after ≠ [] := by
    rintro rfl
    rw [List.append_nil] at whole
    obtain ⟨c, among, last⟩ := whole.exists_last
    exact not_terminator (parts c (List.mem_of_getLast? last)) (by decide) among
  refine closingIndent?_eq_some_iff.mpr ⟨after ++ data, ?_, ?_, ?_⟩
  · rw [ended.dropWhile_append (by decide), trimmed, List.append_assoc]
  · rw [(Ended.of_append label whole more).head?_append]
    exact stops
  · simp only [List.length_append]
    omega

theorem heredocBody_append {label last first : List Char} {lines rest : List (List Char)}
    {body : HeredocBody} (ended : Ended last) (parts : ∀ c ∈ label, isNamePart c = true)
    (found : HeredocBody.read? label (lines ++ [last]) = some body) :
    HeredocBody.read? label (lines ++ (last ++ first) :: rest) = some body := by
  unfold HeredocBody.read? at found ⊢
  dsimp only at found ⊢
  rw [List.takeWhile_append] at found ⊢
  split at found
  · rename_i all
    rw [if_pos all]
    cases closes : closingIndent? label last with
    | none => simp [closes] at found
    | some indent =>
        have still := closingIndent?_append ended parts closes first
        simpa [closes, still] using found
  · rename_i early
    have inside : (lines.takeWhile fun line => (closingIndent? label line).isNone).length <
        lines.length := Nat.lt_of_le_of_ne (List.takeWhile_prefix _).length_le early
    rw [List.getElem?_append_left inside, List.take_append_of_le_length (Nat.le_of_lt inside)]
      at found
    rw [if_neg early, List.getElem?_append_left inside,
      List.take_append_of_le_length (Nat.le_of_lt inside)]
    exact found

theorem length_lines_le {lines : List (List Char)} {count : Nat} {line : List Char}
    (there : lines[count]? = some line) :
    (lines.take count).flatten.length + (lines.take count).length + line.length ≤
      (List.intercalate ['\n'] lines).length := by
  induction lines generalizing count with
  | nil => cases there
  | cons first lines ih =>
      cases count with
      | zero =>
          cases there
          cases lines <;> simp
      | succ count =>
          have fits := ih there
          obtain ⟨second, lines, rfl⟩ : ∃ second after, lines = second :: after := by
            cases lines with
            | nil => cases there
            | cons second lines => exact ⟨second, lines, rfl⟩
          rw [List.intercalate_cons_cons, List.take_succ_cons, List.flatten_cons]
          simp only [List.length_append, List.length_cons, List.length_nil]
          omega

theorem heredocBody_length_le {label : List Char} {body : HeredocBody}
    (found : HeredocBody.read? label (text.splitOn '\n') = some body) :
    body.length ≤ text.length := by
  obtain ⟨closing, there, read⟩ := Option.bind_eq_some_iff.mp found
  obtain ⟨indent, closes, read⟩ := Option.bind_eq_some_iff.mp read
  cases read
  have fits := length_lines_le there
  rw [List.intercalate_splitOn] at fits
  obtain ⟨after, trimmed, -, rfl⟩ := closingIndent?_eq_some_iff.mp closes
  have shorter := (List.dropWhile_suffix (l := closing) isIndent).length_le
  rw [trimmed] at shorter
  simp only [List.length_append] at shorter ⊢
  omega

/-- A heredoc that is closed ends before what comes after the text. -/
theorem lexHeredoc?_local (ended : Ended text) (long : 3 < text.length) :
    (∀ data, lexHeredoc? (text ++ data) = lexHeredoc? text ∧
      ∀ lexeme ∈ lexHeredoc? text, lexeme.length ≤ text.length) ∨
    ∃ lexeme, lexHeredoc? text = some lexeme ∧ lexeme.Endless text := by
  cases opened : HeredocOpening.read? text with
  | none =>
      refine .inl fun data => ?_
      have unopened := (heredocOpening_append ended long data).1.trans opened
      simp [lexHeredoc?, opened, unopened]
  | some opening =>
      obtain ⟨inside, parts⟩ := (heredocOpening_append ended long []).2 opening opened
      have after := ended.drop inside
      cases found : HeredocBody.read? opening.label ((text.drop opening.length).splitOn '\n') with
      | none =>
          refine .inr ?_
          simp only [lexHeredoc?, opened, found, Option.bind_eq_bind, Option.bind_some]
          exact ⟨_, rfl, .inl rfl, rfl⟩
      | some body =>
          refine .inl fun data => ?_
          obtain ⟨lines, last, first, rest, short, closed, long'⟩ := splitOn_append after data
          have same := (heredocOpening_append ended long data).1.trans opened
          have still : HeredocBody.read? opening.label
              (((text ++ data).drop opening.length).splitOn '\n') = some body := by
            rw [List.drop_append_of_le_length (Nat.le_of_lt inside), long']
            exact heredocBody_append closed parts (short ▸ found)
          have fits := heredocBody_length_le found
          simp only [lexHeredoc?, opened, same, found, still, Option.bind_eq_bind,
            Option.bind_some]
          have whole : opening.length + body.length ≤ text.length := by
            rw [List.length_drop] at fits
            omega
          refine ⟨trivial, fun lexeme read => ?_⟩
          split at read
          · cases read
            exact whole
          split at read
          · cases read
            exact whole
          · cases read
            exact whole

/-! Casts and punctuation. -/

theorem lexCast?_append (ended : Ended text) (long : 1 < text.length) (data : List Char) :
    lexCast? (text ++ data) = lexCast? text ∧
      ∀ lexeme ∈ lexCast? text, lexeme.length ≤ text.length := by
  have blanks := ended.add_takeWhile_lt (p := isIndent) long (by decide)
  unfold lexCast?
  dsimp only
  rw [ended.takeWhile_drop_append long (by decide)]
  generalize 1 + ((text.drop 1).takeWhile isIndent).length = wordStart at blanks ⊢
  have word := ended.add_takeWhile_lt (p := Char.isAlpha) blanks (by decide)
  rw [ended.takeWhile_drop_append blanks (by decide)]
  generalize (text.drop wordStart).takeWhile Char.isAlpha = letters at word ⊢
  have close := ended.add_takeWhile_lt (p := isIndent) word (by decide)
  rw [ended.takeWhile_drop_append word (by decide)]
  generalize wordStart + letters.length + _ = stop at close ⊢
  rw [List.getElem?_append_left close]
  refine ⟨rfl, fun lexeme found => ?_⟩
  split at found
  · cases found
  · obtain ⟨type, _, cast⟩ := Option.bind_eq_some_iff.mp found
    cases cast
    exact close

theorem lexPunctuation_local (ended : Ended text) : Lexeme.Local lexPunctuation text := by
  refine .of_forall fun data => ?_
  have same : punctuation? (text ++ data) = punctuation? text := by
    unfold punctuation?
    congr 1
    have single : ∀ entry ∈ punctuation, ∀ c ∈ terminators,
        c ∉ entry.1.toList.dropLast := by decide
    exact List.find?_congr fun entry listed => ended.isPrefixOf_append (single entry listed) data
  simp only [lexPunctuation, same, ended.head?_append]
  refine ⟨trivial, ?_⟩
  split
  · rename_i kind length found
    obtain ⟨entry, among, equal⟩ := Option.map_eq_some_iff.mp found
    have front : entry.1.toList.isPrefixOf text = true :=
      List.find?_some (p := fun entry : String × TokenKind => entry.1.toList.isPrefixOf text) among
    have fits := (List.isPrefixOf_iff_prefix.mp front).length_le
    cases equal
    exact String.length_toList ▸ fits
  · exact ended.length_pos

/-- How the token at the front of a text is read. -/
def lexerAt (text : List Char) : List Char → Lexeme :=
  match text with
  | [] => fun _ => { kind := .endOfFile, length := 0 }
  | c :: rest =>
      if c = '$' ∧ startsName rest then lexVariable
      else if isNameStart c || (c == '\\' && startsName rest) then lexName
      else if c.isDigit || (c == '.' && rest.head?.any Char.isDigit) then lexNumber
      else if c = '\'' then lexSingleQuoted
      else if c = '"' then lexDoubleQuoted
      else if c = '\x60' then lexShellCommand
      else if text.take 3 = ['<', '<', '<'] then
        fun text => (lexHeredoc? text).getD (lexPunctuation text)
      else if c = '(' then fun text => (lexCast? text).getD (lexPunctuation text)
      else lexPunctuation

theorem lexToken_eq (text : List Char) : lexToken text = lexerAt text text := by
  cases text with
  | nil => rfl
  | cons c rest =>
      unfold lexToken lexerAt
      simp only [apply_ite (fun lex : List Char → Lexeme => lex (c :: rest))]

theorem lexerAt_append (ended : Ended text) (data : List Char) :
    lexerAt (text ++ data) = lexerAt text := by
  have heredoc := ended.take_append_iff ['<', '<', '<'] (by decide) data
  simp only [List.length_cons, List.length_nil] at heredoc
  obtain ⟨c, rest, rfl⟩ := List.exists_cons_of_ne_nil ended.ne_nil
  rw [List.cons_append] at heredoc ⊢
  by_cases closes : c ∈ terminators
  · simp only [terminators, List.mem_cons, List.not_mem_nil, or_false] at closes
    obtain rfl | rfl | rfl := closes <;> rfl
  · have more := ended.tail closes
    simp only [lexerAt, more.startsName_append, more.head?_append, heredoc]

/-- A lexer that gives way to punctuation. -/
theorem orPunctuation_local {lex? : List Char → Option Lexeme} (ended : Ended text)
    (same : ∀ data, lex? (text ++ data) = lex? text ∧
      ∀ lexeme ∈ lex? text, lexeme.length ≤ text.length) :
    Lexeme.Local (fun text => (lex? text).getD (lexPunctuation text)) text := by
  refine .of_forall fun data => ?_
  obtain ⟨same, inside⟩ := same data
  have sign := lexPunctuation_local ended
  rw [same, sign.same]
  refine ⟨rfl, ?_⟩
  cases found : lex? text with
  | none => exact sign.inside
  | some lexeme => exact inside lexeme found

theorem length_of_opensHeredoc (ended : Ended text) (opens : text.take 3 = ['<', '<', '<']) :
    3 < text.length := by
  refine Nat.lt_of_not_le fun short => ?_
  rw [List.take_of_length_le short] at opens
  subst opens
  cases ended

theorem lexerAt_local (ended : Ended text) :
    Lexeme.Local (lexerAt text) text ∨ (lexerAt text text).Endless text := by
  obtain ⟨c, rest, rfl⟩ := List.exists_cons_of_ne_nil ended.ne_nil
  unfold lexerAt
  dsimp only
  split
  · rename_i dollar
    exact .inl (lexVariable_local c (ended.tail (by rw [dollar.1]; decide)))
  split
  · exact .inl (lexName_local ended)
  split
  · exact .inl (lexNumber_local ended)
  split
  · exact lexSingleQuoted_local c rest
  split
  · exact lexDoubleQuoted_local c rest
  split
  · exact lexShellCommand_local c rest
  split
  · rename_i heredoc
    obtain closed | ⟨lexeme, found, endless⟩ :=
      lexHeredoc?_local ended (length_of_opensHeredoc ended heredoc)
    · exact .inl (orPunctuation_local ended closed)
    · refine .inr ?_
      dsimp only
      rw [found]
      exact endless
  split
  · rename_i paren
    have more := ended.tail (by rw [paren]; decide)
    have long := Nat.succ_lt_succ more.length_pos
    exact .inl (orPunctuation_local ended (lexCast?_append ended long))
  · exact .inl (lexPunctuation_local ended)

/-- What is at the front of a text with such an end is there whatever follows, or it is a
string that the end is a part of. -/
theorem lexToken_local (ended : Ended text) :
    Lexeme.Local lexToken text ∨ (lexToken text).Endless text := by
  rw [lexToken_eq]
  refine (lexerAt_local ended).imp_left fun lexes => ?_
  refine .of_forall fun data => ?_
  rw [lexToken_eq, lexToken_eq, lexerAt_append ended]
  exact ⟨lexes.same data, lexes.inside⟩

end StaticReflection
