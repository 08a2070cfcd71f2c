import Mathlib.Data.List.Induction
import Mathlib.Data.List.TakeWhile
import Mathlib.Data.Nat.Digits.Defs
import StaticReflection.Proofs.Parser.Arenas
import StaticReflection.Proofs.Parser.Steps
import StaticReflection.Proofs.Scanner.Tiling
import StaticReflection.Proofs.Scanner.TokenRoundTrip

namespace StaticReflection

/-! Integer literals: the numbers that they denote, and those that are marked as too large. -/

/-- All are digits of the base. -/
def AreDigits (base : Nat) (digits : List Char) : Prop :=
  ∀ c ∈ digits, (digitOf? base c).isSome = true

/-- The number that digits denote, the last one of them being the lowest. -/
def numberOf (base : Nat) (digits : List Char) : Nat :=
  Nat.ofDigits base (digits.filterMap digitValue?).reverse

section Digits

variable {base : Nat} {digits : List Char} {c : Char}

theorem digitOf?_eq_some_iff {d : Nat} :
    digitOf? base c = some d ↔ digitValue? c = some d ∧ d < base := by
  simp [digitOf?, Option.filter_eq_some_iff]

theorem areDigits_concat :
    AreDigits base (digits ++ [c]) ↔ AreDigits base digits ∧ (digitOf? base c).isSome = true := by
  rw [AreDigits, List.forall_mem_append, List.forall_mem_singleton, AreDigits]

theorem numberOf_concat {d : Nat} (value : digitValue? c = some d) :
    numberOf base (digits ++ [c]) = numberOf base digits * base + d := by
  simp only [numberOf, List.filterMap_append, List.filterMap_cons_some value, List.filterMap_nil,
    List.reverse_append, List.reverse_singleton, List.singleton_append, Nat.ofDigits_cons]
  rw [Nat.mul_comm, Nat.add_comm]

theorem readDigits?_concat (base : Nat) (digits : List Char) (c : Char) :
    readDigits? base (digits ++ [c]) =
      (readDigits? base digits).bind fun value => (digitOf? base c).map (value * base + ·) := by
  simp [readDigits?, List.foldlM_append]

theorem readDigits?_eq_some (valid : AreDigits base digits) :
    readDigits? base digits = some (numberOf base digits) := by
  induction digits using List.reverseRecOn with
  | nil => rfl
  | append_singleton digits c ih =>
      obtain ⟨before, last⟩ := areDigits_concat.mp valid
      obtain ⟨d, is⟩ := Option.isSome_iff_exists.mp last
      rw [readDigits?_concat, ih before, is, numberOf_concat (digitOf?_eq_some_iff.mp is).1]
      rfl

theorem readDigits?_eq_none (invalid : ¬ AreDigits base digits) :
    readDigits? base digits = none := by
  induction digits using List.reverseRecOn with
  | nil => exact absurd (List.forall_mem_nil _) invalid
  | append_singleton digits c ih =>
      rw [readDigits?_concat]
      by_cases before : AreDigits base digits
      · have last : digitOf? base c = none := by
          rw [← Option.not_isSome_iff_eq_none]
          exact fun last => invalid (areDigits_concat.mpr ⟨before, last⟩)
        rw [readDigits?_eq_some before, last]
        rfl
      · rw [ih before]
        rfl

/-- No digit is a sign. -/
theorem takeSign_digits (valid : ∀ c ∈ digits, (digitValue? c).isSome = true) :
    takeSign digits = (false, digits) := by
  unfold takeSign
  split
  · cases valid '-' List.mem_cons_self
  · cases valid '+' List.mem_cons_self
  · rfl

theorem toInt64?_natCast (number : Nat) :
    toInt64? number = if number < 2 ^ 63 then some (.ofNat number) else none := by
  have range : -9223372036854775808 ≤ (number : Int) ∧ (number : Int) < 9223372036854775808 ↔
      number < 2 ^ 63 := by omega
  simp only [toInt64?_eq, range, Int64.ofInt_eq_ofNat]

theorem readInt64?_digits (known : ∀ c ∈ digits, (digitValue? c).isSome = true)
    (nonempty : digits ≠ []) : readInt64? base digits =
      (readDigits? base digits).bind fun number => toInt64? number := by
  simp [readInt64?, takeSign_digits known, nonempty]

end Digits

/-! How integers are written. -/

/-- The marks after a zero, and the bases that they select. -/
def baseMarks : List (Char × Nat) :=
  [('x', 16), ('X', 16), ('b', 2), ('B', 2), ('o', 8), ('O', 8)]

/-- An integer without separators: digits of some base after its mark, decimal digits after a
zero that stands for the mark of the base eight, or decimal digits by themselves. -/
inductive WrittenInteger : Nat → List Char → List Char → Prop
  | marked {mark : Char} {base : Nat} {digits : List Char}
      (marks : (mark, base) ∈ baseMarks)
      (valid : AreDigits base digits) : WrittenInteger base digits ('0' :: mark :: digits)
  | octal {digits : List Char} (more : digits ≠ []) (decimal : AreDigits 10 digits) :
      WrittenInteger 8 digits ('0' :: digits)
  | decimal {digits : List Char} (more : digits ≠ []) (decimal : AreDigits 10 digits)
      (unmarked : digits.head? = some '0' → digits = ['0']) : WrittenInteger 10 digits digits

section Written

variable {base : Nat} {digits text : List Char} {c : Char}

theorem areDigits_of_isDigit (decimal : ∀ c ∈ digits, c.isDigit = true) :
    AreDigits 10 digits := by
  intro c among
  have digit := decimal c among
  have most : c.toNat ≤ 57 := (Char.isDigit_iff_toNat.mp digit).2
  have small : c.toNat - 48 < 10 := by omega
  simp [digitOf?, digitValue?, digit, small]

theorem literalBase_written (written : WrittenInteger base digits text) :
    literalBase text = (digits, base) := by
  cases written with
  | marked marks valid =>
      have known : ∀ entry ∈ baseMarks, ∀ digits,
          literalBase ('0' :: entry.1 :: digits) = (digits, entry.2) := by
        simp [baseMarks, literalBase]
      exact known _ marks _
  | octal more decimal =>
      obtain ⟨c, rest, rfl⟩ := List.exists_cons_of_ne_nil more
      have other : c ∉ ['x', 'X', 'b', 'B', 'o', 'O'] :=
        not_mem_of_class (p := fun c => (digitOf? 10 c).isSome) (decimal c List.mem_cons_self)
          (by decide)
      simp only [List.mem_cons, List.not_mem_nil, not_or] at other
      simp [literalBase, other]
  | decimal more decimal unmarked =>
      unfold literalBase
      split
      · cases unmarked rfl
      · rfl

theorem WrittenInteger.known (written : WrittenInteger base digits text) :
    ∀ c ∈ digits, (digitValue? c).isSome = true := by
  have known {base : Nat} (valid : AreDigits base digits) :
      ∀ c ∈ digits, (digitValue? c).isSome = true := by
    intro c among
    obtain ⟨d, is⟩ := Option.isSome_iff_exists.mp (valid c among)
    exact Option.isSome_of_eq_some (digitOf?_eq_some_iff.mp is).1
  cases written with
  | marked _ valid => exact known valid
  | octal _ decimal => exact known decimal
  | decimal _ decimal _ => exact known decimal

/-- Only after a zero that stands for a mark can there be digits of another base. -/
theorem WrittenInteger.octal_of_invalid (written : WrittenInteger base digits text)
    (invalid : ¬ AreDigits base digits) :
    base = 8 ∧ text = '0' :: digits ∧ AreDigits 10 digits := by
  cases written with
  | marked _ valid => exact absurd valid invalid
  | octal _ decimal => exact ⟨rfl, rfl, decimal⟩
  | decimal _ decimal _ => exact absurd decimal invalid

theorem integerLiteral_of_fits (written : WrittenInteger base digits text)
    (fits : ¬ (¬ AreDigits base digits ∨ 2 ^ 63 ≤ numberOf base digits)) :
    integerLiteral text = .int (.ofNat (numberOf base digits)) := by
  rw [not_or, not_not, Nat.not_le] at fits
  obtain ⟨valid, small⟩ := fits
  by_cases empty : digits = []
  · simp [integerLiteral, literalBase_written written, empty, numberOf]
  · have read : readInt64? base digits = some (.ofNat (numberOf base digits)) := by
      rw [readInt64?_digits written.known empty, readDigits?_eq_some valid, Option.bind_some,
        toInt64?_natCast, if_pos small]
    simp [integerLiteral, literalBase_written written, empty, read]

theorem exists_integerLiteral_eq_float (written : WrittenInteger base digits text)
    (unfit : ¬ AreDigits base digits ∨ 2 ^ 63 ≤ numberOf base digits) :
    ∃ value, integerLiteral text = .float value := by
  have nonempty : digits ≠ [] := by
    rintro rfl
    obtain invalid | large := unfit
    · exact invalid (List.forall_mem_nil _)
    · exact absurd large (Nat.not_le.mpr (Nat.two_pow_pos 63))
  have unread : readInt64? base digits = none := by
    rw [readInt64?_digits written.known nonempty]
    by_cases valid : AreDigits base digits
    · have large : ¬ numberOf base digits < 2 ^ 63 :=
        Nat.not_lt.mpr (unfit.resolve_left (absurd valid))
      rw [readDigits?_eq_some valid, Option.bind_some, toInt64?_natCast, if_neg large]
    · rw [readDigits?_eq_none valid, Option.bind_none]
  rw [integerLiteral, literalBase_written written]
  simp only [nonempty, if_false, unread]
  split <;> exact ⟨_, rfl⟩

theorem exists_eq_float_iff (written : WrittenInteger base digits text) :
    (∃ value, integerLiteral text = .float value) ↔
      ¬ AreDigits base digits ∨ 2 ^ 63 ≤ numberOf base digits := by
  constructor
  · rintro ⟨value, float⟩
    by_contra fits
    rw [integerLiteral_of_fits written fits] at float
    cases float
  · exact exists_integerLiteral_eq_float written

end Written

/-! Integers among the tokens of a text. -/

theorem markedBase?_eq_some {text : List Char} {base : Nat}
    (marked : markedBase? text = some base) :
    ∃ mark more, text = '0' :: mark :: more ∧ (mark, base) ∈ baseMarks := by
  unfold markedBase? at marked
  split at marked
  · rename_i mark more
    refine ⟨mark, more, rfl, ?_⟩
    simp only [Bool.or_eq_true, beq_iff_eq] at marked
    grind [baseMarks]
  · cases marked

theorem mem_filter_takeWhile {p : Char → Bool} {text : List Char} {c : Char}
    (among : c ∈ (text.takeWhile p).filter (· ≠ '_')) : p c = true ∧ c ≠ '_' := by
  obtain ⟨taken, other⟩ := List.mem_filter.mp among
  exact ⟨List.mem_takeWhile_imp taken, of_decide_eq_true other⟩

/-- What is taken after the mark of a base. -/
theorem writtenInteger_marked {mark : Char} {base : Nat} {more : List Char}
    (marks : (mark, base) ∈ baseMarks) :
    let digits := more.takeWhile fun c => c == '_' || (digitOf? base c).isSome
    WrittenInteger base (digits.filter (· ≠ '_'))
      ((('0' :: mark :: more).take (2 + digits.length)).filter (· ≠ '_')) := by
  intro digits
  have other : ∀ entry ∈ baseMarks, entry.1 ≠ '_' := by decide
  have taken : ('0' :: mark :: more).take (2 + digits.length) = '0' :: mark :: digits := by
    have same : digits = more.take digits.length :=
      List.prefix_iff_eq_take.mp (List.takeWhile_prefix _)
    rw [Nat.add_comm, List.take_succ_cons, List.take_succ_cons, ← same]
  rw [taken, List.filter_cons_of_pos (by decide), List.filter_cons_of_pos (by simp [other _ marks])]
  refine .marked marks fun c among => ?_
  obtain ⟨part, apart⟩ := mem_filter_takeWhile among
  simpa [apart] using part

/-- What is taken without a mark. -/
theorem exists_writtenInteger_decimal {c : Char} {rest : List Char} (digit : c.isDigit = true) :
    ∃ base digits, WrittenInteger base digits
      (((c :: rest).takeWhile isDecimalPart).filter (· ≠ '_')) := by
  have part : isDecimalPart c = true := by simp [isDecimalPart, digit]
  have other : c ∉ ['_'] := not_mem_of_class digit (by decide)
  have decimal : AreDigits 10 (((c :: rest).takeWhile isDecimalPart).filter (· ≠ '_')) := by
    refine areDigits_of_isDigit fun d among => ?_
    obtain ⟨part, apart⟩ := mem_filter_takeWhile among
    simpa [isDecimalPart, apart] using part
  rw [List.takeWhile_cons_of_pos part, List.filter_cons_of_pos (by simpa using other)] at decimal ⊢
  -- Only another digit after a zero makes it stand for a mark; separators do not.
  by_cases octal : c = '0' ∧ (rest.takeWhile isDecimalPart).filter (· ≠ '_') ≠ []
  · obtain ⟨rfl, more⟩ := octal
    exact ⟨_, _, .octal more (List.forall_mem_cons.mp decimal).2⟩
  · refine ⟨_, _, .decimal (List.cons_ne_nil _ _) decimal ?_⟩
    rintro ⟨⟩
    rw [not_and_not_right.mp octal rfl]

theorem numberExtent_unmarked {c : Char} {rest : List Char} {length : Nat}
    (numeric : startsNumber (c :: rest) = true)
    (unmarked : markedBase? (c :: rest) = none)
    (extent : numberExtent (c :: rest) = (.integerLiteral, length)) :
    c.isDigit = true ∧ length = ((c :: rest).takeWhile isDecimalPart).length := by
  rw [numberExtent, unmarked] at extent
  extract_lets whole afterWhole point exponent at extent
  obtain ⟨kind, rfl⟩ := Prod.mk.inj extent
  have unpointed : point + exponent = 0 := by
    by_contra pointed
    rw [if_neg pointed] at kind
    cases kind
  refine ⟨?_, by rw [Nat.add_assoc, unpointed, Nat.add_zero]⟩
  -- What starts with a point has one.
  by_contra other
  obtain ⟨rfl, next⟩ : c = '.' ∧ rest.head?.any Char.isDigit = true := by
    simpa [startsNumber, other] using numeric
  have single : rest.head? ≠ some '.' := by
    intro dot
    rw [dot] at next
    cases next
  have pointed : point = 1 + (rest.takeWhile isDecimalPart).length := if_neg single
  omega

theorem exists_writtenInteger {c : Char} {rest : List Char} {length : Nat}
    (numeric : startsNumber (c :: rest) = true)
    (extent : numberExtent (c :: rest) = (.integerLiteral, length)) :
    ∃ base digits, WrittenInteger base digits
      (((c :: rest).take length).filter (· ≠ '_')) := by
  cases marked : markedBase? (c :: rest) with
  | some base =>
      obtain ⟨mark, more, same, marks⟩ := markedBase?_eq_some marked
      rw [numberExtent, marked] at extent
      obtain ⟨-, rfl⟩ := Prod.mk.inj extent
      rw [same]
      exact ⟨base, _, writtenInteger_marked marks⟩
  | none =>
      obtain ⟨digit, rfl⟩ := numberExtent_unmarked numeric marked extent
      rw [← List.prefix_iff_eq_take.mp (List.takeWhile_prefix _)]
      exact exists_writtenInteger_decimal digit

theorem value_lexNumber (text : List Char) : (lexNumber text).value =
    String.ofList ((text.take (lexNumber text).length).filter (· ≠ '_')) := rfl

theorem overflow_lexNumber {text : List Char}
    (integer : (lexNumber text).kind = .integerLiteral) :
    (lexNumber text).flags.overflow = true ↔
      ∃ value, integerLiteral (lexNumber text).value.toList = .float value := by
  unfold lexNumber at integer ⊢
  generalize numberExtent text = extent at integer ⊢
  obtain ⟨kind, length⟩ := extent
  dsimp only at integer ⊢
  rw [integer, String.toList_ofList]
  cases integerLiteral ((text.take length).filter (· ≠ '_')) <;> simp

/-- The value has the digits in the base. It is marked as too large if it denotes a double. -/
structure IsInteger (value : String) (flags : TokenFlags) (base : Nat) (digits : List Char) :
    Prop where
  written : WrittenInteger base digits value.toList
  overflow : flags.overflow = true ↔ ∃ number, integerLiteral value.toList = .float number

theorem lexNumber_integer {c : Char} {rest : List Char} (numeric : startsNumber (c :: rest) = true)
    (integer : (lexNumber (c :: rest)).kind = .integerLiteral) :
    ∃ base digits, IsInteger (lexNumber (c :: rest)).value (lexNumber (c :: rest)).flags
      base digits := by
  have extent : numberExtent (c :: rest) = (.integerLiteral, (lexNumber (c :: rest)).length) :=
    Prod.ext integer rfl
  obtain ⟨base, digits, written⟩ := exists_writtenInteger numeric extent
  refine ⟨base, digits, ?_, overflow_lexNumber integer⟩
  rwa [value_lexNumber, String.toList_ofList]

namespace Scanner

/-- Every token but the end and those that stand for tags is lexed somewhere. -/
theorem nextFrom_eq_takeToken (scanner : Scanner) (fuel : Nat) (problems : List ScanProblem)
    (other : (scanner.nextFrom fuel problems).1.kind ∉ [.endOfFile, .echoKw, .semicolon]) :
    ∃ (place : Scanner) (found : List ScanProblem), place.rest ≠ [] ∧
      (scanner.nextFrom fuel problems).1 = (place.takeToken found).1 := by
  fun_induction nextFrom fuel scanner problems with
  | case1 scanner problems => exact absurd List.mem_cons_self other
  | case2 fuel scanner problems outside unfound => exact absurd List.mem_cons_self other
  | case3 fuel scanner problems outside length tag ih => exact ih other
  | case4 fuel scanner problems outside before tag =>
      exact absurd (List.mem_cons_of_mem _ List.mem_cons_self) other
  | case5 fuel scanner problems inCode done => exact absurd List.mem_cons_self other
  | case6 fuel scanner problems inCode length blank ih => exact ih other
  | case7 fuel scanner problems inCode length closed isDoc comment problem ih => exact ih other
  | case8 fuel scanner problems inCode length tag =>
      exact absurd (List.mem_cons_of_mem _ (List.mem_cons_of_mem _ List.mem_cons_self)) other
  | case9 fuel scanner problems inCode front =>
      have fits := frontOf_fits scanner.rest
      rw [front] at fits
      exact ⟨scanner, problems, fits, rfl⟩

theorem takeToken_integer {scanner : Scanner} {problems : List ScanProblem}
    (more : scanner.rest ≠ []) (integer : (scanner.takeToken problems).1.kind = .integerLiteral) :
    let token := (scanner.takeToken problems).1
    token.value = String.ofList (token.lexeme.filter (· ≠ '_')) ∧
      ∃ base digits, IsInteger token.value token.flags base digits := by
  obtain ⟨c, rest, front⟩ := List.exists_cons_of_ne_nil more
  have lexed : (lexToken scanner.rest).kind = .integerLiteral := integer
  obtain ⟨numeric, same⟩ | plain := lexToken_number_or_plain c rest
  · rw [front, same] at lexed
    simp only [takeToken, take, front, same]
    exact ⟨rfl, lexNumber_integer numeric lexed⟩
  · rw [front] at lexed
    exact absurd lexed plain.uncounted

theorem next_integer {scanner : Scanner} (integer : scanner.next.1.kind = .integerLiteral) :
    scanner.next.1.value = String.ofList (scanner.next.1.lexeme.filter (· ≠ '_')) ∧
      ∃ base digits, IsInteger scanner.next.1.value scanner.next.1.flags base digits := by
  have other : scanner.next.1.kind ∉ [.endOfFile, .echoKw, .semicolon] := by
    rw [integer]
    decide
  obtain ⟨place, found, more, same⟩ := scanner.nextFrom_eq_takeToken _ _ other
  rw [next, same] at integer ⊢
  exact takeToken_integer more integer

end Scanner

/-! What the parser makes of an integer. -/

namespace Grammar

theorem literal_node (node : Token → Node) (state : ParseState) :
    ((literal node).next state).arena.node? ((literal node).result state) =
      some (node state.cursor.current) := by
  let after := Parse.advance.next state
  change (after.arena.add _ _).node? after.arena.size = _
  rw [Arena.node?_add, if_pos rfl]

theorem plainPrimary_integer (nested : Nested) {state : ParseState}
    (here : state.cursor.current.kind = .integerLiteral) :
    ((plainPrimary nested).next state).arena.node? ((plainPrimary nested).result state) =
      some (numberNode state.cursor.current.value) := by
  have kind : Parse.kind state = (.integerLiteral, state) := Prod.ext here rfl
  have branch : plainPrimary nested state =
      literal (fun token => numberNode token.value) state := by
    unfold plainPrimary
    rw [Parse.bind_of (rfl : Parse.position state = (_, state)), Parse.bind_of kind]
  rw [Parse.next, Parse.result, branch]
  exact literal_node _ state

end Grammar

open TokenReader Grammar in
/-- An integer is marked as too large, and becomes a double, if it is, and also if it begins with
a zero and has a digit that is not octal after it. Any other one becomes the integer that its
digits denote. -/
theorem overflow_marks_large_integers_and_malformed_octals (text : Text) (inCode : Bool)
    (count : Nat) :
    let token := (TokenReader.ofText text inCode).scan count
    token.kind = .integerLiteral →
    let written := token.lexeme.filter (· ≠ '_')
    ∃ base digits, WrittenInteger base digits written ∧
      (token.flags.overflow = true ↔
        ¬ AreDigits base digits ∨ 2 ^ 63 ≤ numberOf base digits) ∧
      (¬ AreDigits base digits → base = 8 ∧ written = '0' :: digits ∧ AreDigits 10 digits) ∧
      ∀ (nested : Nested) (state : ParseState), state.cursor.current = token →
        let parse := plainPrimary nested
        let node := (parse.next state).arena.node? (parse.result state)
        (token.flags.overflow = true → ∃ value, node = some (.floatLiteral value)) ∧
        (token.flags.overflow = false →
          node = some (.intLiteral (.ofNat (numberOf base digits)))) := by
  intro token integer written
  have scanned : token = (advance^[count] (ofText text inCode)).scanner.next.1 :=
    scan_eq (ofText text inCode) count
  rw [scanned] at integer
  obtain ⟨value, base, digits, form, overflow⟩ := Scanner.next_integer integer
  rw [← scanned] at value form overflow
  have spelled : token.value.toList = written := by rw [value, String.toList_ofList]
  rw [spelled] at form overflow
  refine ⟨base, digits, form, overflow.trans (exists_eq_float_iff form), form.octal_of_invalid, ?_⟩
  intro nested state here parse node
  have kind : state.cursor.current.kind = .integerLiteral := by rw [here, scanned, integer]
  have found : node = some (numberNode token.value) := by
    rw [← here]
    exact plainPrimary_integer nested kind
  rw [numberNode, spelled] at found
  constructor
  · intro large
    obtain ⟨value, float⟩ := overflow.mp large
    exact ⟨value, by rw [found, float]⟩
  · intro small
    have fits : ¬ (¬ AreDigits base digits ∨ 2 ^ 63 ≤ numberOf base digits) := by
      rw [← exists_eq_float_iff form, ← overflow, small]
      exact nofun
    rw [found, integerLiteral_of_fits form fits]

/-- Nine is marked as too large when a zero stands before it. -/
theorem nine_after_zero_overflows :
    let token := (TokenReader.ofText "09".toList true).scan 0
    token.kind = .integerLiteral ∧ token.lexeme = ['0', '9'] ∧ token.flags.overflow = true ∧
      ∀ (nested : Grammar.Nested) (state : ParseState), state.cursor.current = token →
        ∃ value, ((Grammar.plainPrimary nested).next state).arena.node?
          ((Grammar.plainPrimary nested).result state) = some (.floatLiteral value) := by
  intro token
  have integer : token.kind = .integerLiteral := by decide +kernel
  have lexeme : token.lexeme = ['0', '9'] := by decide +kernel
  obtain ⟨base, digits, form, overflow, -, parsed⟩ :=
    overflow_marks_large_integers_and_malformed_octals "09".toList true 0 integer
  have malformed : ¬ AreDigits base digits := by
    have kept : token.lexeme.filter (· ≠ '_') = ['0', '9'] := by
      rw [lexeme]
      decide
    change WrittenInteger base digits (token.lexeme.filter (· ≠ '_')) at form
    rw [kept] at form
    cases form with
    | marked marks _ => simp [baseMarks] at marks
    | octal _ _ => exact fun valid => nomatch valid '9' List.mem_cons_self
    | decimal _ _ unmarked => cases unmarked rfl
  have large := overflow.mpr (.inl malformed)
  exact ⟨integer, lexeme, large, fun nested state here => (parsed nested state here).1 large⟩

end StaticReflection
