import StaticReflection.Proofs.Parser.Persistence
import StaticReflection.Proofs.Scanner.QuotedStrings
import StaticReflection.Proofs.Scanner.Rewinding

namespace StaticReflection

open Grammar

/-! Looking ahead while tokens are read. A parser that reads its tokens as it goes saves its
place, moves on, and goes back. A cursor over the tokens of the whole text tells the same, without
moving. -/

/-- A parser that reads a token when it comes to it. -/
structure LiveParser where
  reader : TokenReader
  lastEnd : Nat := 0
  arena : Arena := {}
  /-- What the parser reported, the newest first. -/
  reported : List (String × Nat) := []
  halted : Bool := false
  depth : Nat := 0

/-- The parser back at a saved state. Of the problems and of the reports only the numbers are
saved, and later ones are dropped. -/
def LiveParser.backTo (parser saved : LiveParser) : LiveParser :=
  { parser with
    reader := parser.reader.rewind saved.reader
    lastEnd := saved.lastEnd
    reported := parser.reported.drop (parser.reported.length - saved.reported.length) }

abbrev Live := StateM LiveParser

namespace Live

variable {α β : Type}

def kind : Live TokenKind := do
  return (← get).reader.current.kind

def value : Live String := do
  return (← get).reader.current.value

def advance : Live Unit :=
  modify fun parser =>
    { parser with
      reader := parser.reader.advance
      lastEnd := parser.reader.current.span.stop }

def report (message : String) : Live Unit :=
  modify fun parser =>
    let start := parser.reader.current.span.start
    if (parser.reported.head?.map (·.2)) == some start then parser
    else { parser with reported := (message, start) :: parser.reported }

def lookAhead (ahead : Live α) : Live α := do
  let saved ← get
  let answer ← ahead
  modify fun parser => parser.backTo saved
  return answer

def peek : Live TokenKind :=
  lookAhead do
    advance
    kind

/-! What a parser looks ahead for. -/

/-- Whether a token is followed by one of certain kinds. -/
def peekAfter (here : TokenKind → String → Bool) (wanted : TokenKind → Bool) : Live Bool := do
  if here (← kind) (← value) then return wanted (← peek)
  else return false

def declaresFunction : Live Bool := do
  if (← kind) == .functionKw then
    lookAhead do
      advance
      if (← kind) == .ampersand then
        advance
        return (← kind).isWord
      else
        return (← kind).isWord
  else
    return false

def skipModifiers : Nat → Live Unit
  | 0 => return
  | bound + 1 => do
      if (classModifier? (← kind)).isSome then
        advance
        skipModifiers bound
      else
        return

def namesClass : Live Bool := do
  if (classKind? (← kind)).isSome then
    advance
    return (← kind).isWord
  else
    return false

/-- There are no more modifiers than tokens, and no more tokens than characters. -/
def declaresClass : Live Bool :=
  lookAhead do
    skipModifiers ((← get).reader.scanner.rest.length + 1)
    namesClass

def setsVisibility : Live Bool :=
  lookAhead do
    advance
    let isSet := (← kind) == .identifier && sameFolded (← value) "set"
    advance
    return isSet && (← kind) == .closeParen

def lacksType : Live Bool :=
  lookAhead do
    if (← kind).isWord then
      advance
      return (← kind) == .equals
    else
      return false

/-- All that a parser looks ahead for, with what it asks of a cursor instead. -/
def lookAheads : List (Live Bool × (Cursor → Bool)) :=
  [(declaresFunction, isFunctionStatement),
    (declaresClass, isClassStatement),
    (setsVisibility, isSetVisibility),
    (lacksType, isUntypedConst),
    (peekAfter (fun kind value => (kind == .identifier || kind == .qualifiedName)
        && sameFolded (stripSeparator value) "define") (· == .openParen), isDefineCall),
    (peekAfter (fun kind _ => kind == .ampersand)
        fun kind => kind != .variableName && kind != .dotDotDot, continuesIntersection),
    (peekAfter (fun kind _ => kind.isWord) (· == .colon), isNamedArgument),
    (peekAfter (fun kind _ => kind == .dotDotDot) (· == .closeParen), isCallableMark),
    (peekAfter (fun kind _ => kind == .colonColon) (· == .variableName), isStaticProperty),
    (peekAfter (fun kind _ => kind == .staticKw)
        fun kind => kind == .functionKw || kind == .fnKw, isStaticClosure),
    (peekAfter (fun _ _ => true) (· == .openParen), fun cursor => cursor.peek == .openParen),
    (peekAfter (fun _ _ => true) (· == .variableName),
      fun cursor => cursor.peek == .variableName)]

/-! Going back. -/

/-- The program only moves on, reports, and looks ahead. -/
inductive Wanders : {α : Type} → Live α → Prop
  | pure {α : Type} (value : α) : Wanders (Pure.pure value : Live α)
  | bind {α β : Type} {first : Live α} {rest : α → Live β} (one : Wanders first)
      (second : ∀ value, Wanders (rest value)) : Wanders (first >>= rest)
  | get : Wanders (MonadState.get : Live LiveParser)
  | advance : Wanders Live.advance
  | report (message : String) : Wanders (Live.report message)
  | lookAhead {α : Type} {ahead : Live α} (inner : Wanders ahead) : Wanders (Live.lookAhead ahead)

end Live

/-- The parser has gone on from a state and can go back to it. -/
structure LiveParser.Strays (s t : LiveParser) : Prop where
  reader : s.reader.Since t.reader
  reported : s.reported <:+ t.reported
  arena : t.arena = s.arena
  halted : t.halted = s.halted
  depth : t.depth = s.depth

theorem LiveParser.Strays.refl (s : LiveParser) : s.Strays s :=
  ⟨.saved _, List.suffix_rfl, rfl, rfl, rfl⟩

theorem LiveParser.Strays.trans {s t u : LiveParser} (one : s.Strays t) (two : t.Strays u) :
    s.Strays u where
  reader := one.reader.trans two.reader
  reported := one.reported.trans two.reported
  arena := two.arena.trans one.arena
  halted := two.halted.trans one.halted
  depth := two.depth.trans one.depth

theorem LiveParser.Strays.backTo_eq {s t : LiveParser} (strays : s.Strays t) : t.backTo s = s := by
  obtain ⟨reader, ⟨later, whole⟩, arena, halted, depth⟩ := strays
  have earlier : t.reported.drop (t.reported.length - s.reported.length) = s.reported := by
    simp [← whole]
  cases s
  cases t
  simp_all [backTo, reader.rewind_eq]

namespace Live

variable {α β : Type} {ahead : Live α} {s : LiveParser}

theorem lookAhead_of_strays (strays : s.Strays (ahead s).2) :
    lookAhead ahead s = ((ahead s).1, s) :=
  congrArg (Prod.mk (ahead s).1) strays.backTo_eq

theorem report_strays (message : String) (s : LiveParser) : s.Strays (report message s).2 := by
  unfold report
  change s.Strays (if _ then _ else _)
  split
  · exact .refl s
  · exact ⟨.saved _, List.suffix_cons _ _, rfl, rfl, rfl⟩

theorem Wanders.strays (wanders : ahead.Wanders) (s : LiveParser) : s.Strays (ahead s).2 := by
  induction wanders generalizing s with
  | pure value => exact .refl s
  | bind _ _ first second => exact (first s).trans (second _ _)
  | get => exact .refl s
  | advance => exact ⟨.advance (.saved _), List.suffix_rfl, rfl, rfl, rfl⟩
  | report message => exact report_strays message s
  | lookAhead _ inner =>
      rw [lookAhead_of_strays (inner s)]
      exact .refl s

/-- The state is as it was, whatever was read and reported ahead. -/
theorem lookAhead_eq (wanders : ahead.Wanders) (s : LiveParser) :
    lookAhead ahead s = ((ahead s).1, s) :=
  lookAhead_of_strays (wanders.strays s)

theorem Wanders.ite {condition : Prop} [Decidable condition] {whenTrue whenFalse : Live α}
    (yes : whenTrue.Wanders) (no : whenFalse.Wanders) :
    (if condition then whenTrue else whenFalse).Wanders := by
  split
  · exact yes
  · exact no

theorem kind_wanders : kind.Wanders := .bind .get fun _ => .pure _

theorem value_wanders : value.Wanders := .bind .get fun _ => .pure _

theorem peek_eq (s : LiveParser) : peek s = (s.reader.advance.current.kind, s) :=
  lookAhead_eq (.bind .advance fun _ => kind_wanders) s

theorem skipModifiers_wanders (bound : Nat) : (skipModifiers bound).Wanders := by
  induction bound with
  | zero => exact .pure _
  | succ bound ih =>
      exact .bind kind_wanders fun _ => .ite (.bind .advance fun _ => ih) (.pure _)

theorem namesClass_wanders : namesClass.Wanders :=
  .bind kind_wanders fun _ =>
    .ite (.bind .advance fun _ => .bind kind_wanders fun _ => .pure _) (.pure _)

def Stays (program : Live α) : Prop :=
  ∀ s, (program s).2 = s

theorem lookAhead_stays (wanders : ahead.Wanders) : (lookAhead ahead).Stays :=
  fun s => congrArg Prod.snd (lookAhead_eq wanders s)

theorem peekAfter_stays (here : TokenKind → String → Bool) (wanted : TokenKind → Bool) :
    (peekAfter here wanted).Stays := by
  intro s
  change ((if here s.reader.current.kind s.reader.current.value = true
    then peek >>= fun kind => pure (wanted kind) else pure false : Live Bool) s).2 = s
  split
  · exact congrArg Prod.snd (peek_eq s)
  · rfl

theorem declaresFunction_stays : declaresFunction.Stays := by
  intro s
  change ((if (s.reader.current.kind == .functionKw) = true then lookAhead _
    else pure false : Live Bool) s).2 = s
  split
  · refine lookAhead_stays ?_ s
    refine .bind .advance fun _ => .bind kind_wanders fun _ => .ite ?_ ?_
    · exact .bind .advance fun _ => .bind kind_wanders fun _ => .pure _
    · exact .bind kind_wanders fun _ => .pure _
  · rfl

theorem declaresClass_stays : declaresClass.Stays :=
  lookAhead_stays <| .bind .get fun _ => .bind (skipModifiers_wanders _) fun _ =>
    namesClass_wanders

theorem setsVisibility_stays : setsVisibility.Stays :=
  lookAhead_stays <| .bind .advance fun _ => .bind kind_wanders fun _ =>
    .bind value_wanders fun _ => .bind .advance fun _ => .bind kind_wanders fun _ => .pure _

theorem lacksType_stays : lacksType.Stays :=
  lookAhead_stays <| .bind kind_wanders fun _ =>
    .ite (.bind .advance fun _ => .bind kind_wanders fun _ => .pure _) (.pure _)

end Live

/-! Cursors over the tokens that are still to be read. -/

namespace TokenReader

variable {reader : TokenReader} {cursor : Cursor} {text : Text}

def remaining (reader : TokenReader) : List Token :=
  if reader.current.kind = .endOfFile then [] else reader.scanner.tokens

/-- The cursor stands where the reader does. The reader reads the end again and again, and finds
problems there only once. -/
structure Shows (reader : TokenReader) (cursor : Cursor) : Prop where
  current : cursor.current = { reader.current with problems := cursor.current.problems }
  ahead : cursor.ahead = reader.remaining
  ended : reader.current.kind = .endOfFile → reader.scanner.rest = [] ∧
    reader.current = .endAt reader.scanner.pos reader.current.problems

theorem Shows.kind (shows : reader.Shows cursor) : reader.current.kind = cursor.kind := by
  rw [Cursor.kind, shows.current]

theorem Shows.value (shows : reader.Shows cursor) :
    reader.current.value = cursor.current.value := by
  rw [shows.current]

theorem advance_of_endOfFile (finished : reader.scanner.rest = []) :
    reader.advance = { reader with current := .endAt reader.scanner.pos [] } := by
  rw [advance, Scanner.next_of_rest_nil finished]
  dsimp only [Token.endAt]
  rw [List.append_nil]

theorem shows_advance (reader : TokenReader) (lastEnd : Nat) :
    reader.advance.Shows (.of reader.advance.current reader.advance.remaining lastEnd) where
  current := rfl
  ahead := rfl
  ended ended := ⟨(reader.scanner.next_reads.ended ended).1,
    reader.scanner.next_endOfFile ended⟩

theorem Shows.last_or_more (shows : reader.Shows cursor) :
    cursor.ahead = [] ∧ reader.scanner.rest = [] ∧
        reader.current = .endAt reader.scanner.pos reader.current.problems ∨
      cursor.ahead = reader.advance.current :: reader.advance.remaining := by
  rw [shows.ahead]
  unfold remaining
  split
  case isTrue last => exact .inl ⟨rfl, shows.ended last⟩
  case isFalse => exact .inr reader.scanner.tokens_eq

theorem Shows.advance (shows : reader.Shows cursor) : reader.advance.Shows cursor.advance := by
  obtain ⟨last, finished, atEnd⟩ | more := shows.last_or_more
  -- The cursor stays at the end, and the reader reads the end again.
  · have current := shows.current
    obtain ⟨here, ahead, lastEnd, left, counted⟩ := cursor
    subst last
    rw [advance_of_endOfFile finished]
    rw [atEnd] at current
    exact ⟨current, rfl, fun _ => ⟨finished, rfl⟩⟩
  · rw [Cursor.advance_cons more]
    exact shows_advance reader _

theorem Shows.closed (shows : reader.Shows cursor) : cursor.Closed := by
  obtain ⟨before, last, whole, -, -, ended, -⟩ := reader.scanner.tokens_exhausts
  rw [Cursor.Closed, shows.ahead, remaining]
  split
  case isTrue atEnd => exact shows.kind.symm.trans atEnd
  case isFalse =>
    rw [whole, List.getLast?_concat]
    exact ended

theorem Shows.kind_of_nil (shows : reader.Shows cursor) (last : cursor.ahead = []) :
    cursor.kind = .endOfFile := by
  have closed := shows.closed
  rwa [Cursor.Closed, last] at closed

theorem Shows.left_le (shows : reader.Shows cursor) :
    cursor.left ≤ reader.scanner.rest.length + 1 := by
  obtain ⟨before, last, whole, -, count, -⟩ := reader.scanner.tokens_exhausts
  rw [cursor.counted, shows.ahead, remaining]
  split
  · exact Nat.zero_le _
  · rw [whole, List.length_append]
    exact Nat.add_le_add_right count 1

theorem tokenize_eq (text : Text) : tokenize text =
    (ofText text false).advance.current :: (ofText text false).advance.remaining :=
  Scanner.tokens_eq { rest := text }

end TokenReader

/-! What a parser learns ahead. -/

namespace Live

variable {α β : Type} {cursor : Cursor}

/-- Wherever the reader stands as the cursor does, the program gives an answer. -/
def Tells (cursor : Cursor) (program : Live α) (answer : α) : Prop :=
  ∀ s : LiveParser, s.reader.Shows cursor → (program s).1 = answer

namespace Tells

theorem pure (answer : α) : (Pure.pure answer : Live α).Tells cursor answer :=
  fun _ _ => rfl

theorem kind {rest : TokenKind → Live β} {answer : β}
    (second : (rest cursor.kind).Tells cursor answer) :
    (Live.kind >>= rest).Tells cursor answer := by
  intro s shows
  rw [← shows.kind] at second
  exact second s shows

theorem value {rest : String → Live β} {answer : β}
    (second : (rest cursor.current.value).Tells cursor answer) :
    (Live.value >>= rest).Tells cursor answer := by
  intro s shows
  rw [← shows.value] at second
  exact second s shows

theorem advance {rest : Unit → Live β} {answer : β}
    (second : (rest ()).Tells cursor.advance answer) :
    (Live.advance >>= rest).Tells cursor answer :=
  fun _ shows => second _ shows.advance

theorem lookAhead {ahead : Live α} {answer : α} (inner : ahead.Tells cursor answer) :
    (Live.lookAhead ahead).Tells cursor answer :=
  inner

theorem ite {condition : Prop} [Decidable condition] {whenTrue whenFalse : Live α} {yes no : α}
    (first : whenTrue.Tells cursor yes) (second : whenFalse.Tells cursor no) :
    (if condition then whenTrue else whenFalse).Tells cursor (if condition then yes else no) := by
  split
  · exact first
  · exact second

theorem peek {rest : TokenKind → Live β} {answer : β}
    (second : (rest cursor.peek).Tells cursor answer) :
    (Live.peek >>= rest).Tells cursor answer := by
  intro s shows
  rw [Cursor.peek, ← shows.advance.kind] at second
  change (rest (Live.peek s).1 (Live.peek s).2).1 = answer
  rw [peek_eq]
  exact second s shows

/-- A test that is made only where another one holds. -/
theorem guard {condition test : Bool} {whenTrue : Live Bool} (inner : whenTrue.Tells cursor test) :
    (if condition = true then whenTrue else Pure.pure false).Tells cursor (condition && test) := by
  cases condition with
  | false => exact pure false
  | true => exact inner

end Tells

theorem peekAfter_tells (here : TokenKind → String → Bool) (wanted : TokenKind → Bool)
    (cursor : Cursor) : (peekAfter here wanted).Tells cursor
      (here cursor.kind cursor.current.value && wanted cursor.peek) :=
  .kind (.value (.guard (.peek (.pure _))))

theorem declaresFunction_tells (cursor : Cursor) :
    declaresFunction.Tells cursor (isFunctionStatement cursor) := by
  unfold isFunctionStatement
  dsimp only
  rw [apply_ite Cursor.isWord]
  refine .kind (.guard (.lookAhead (.advance (.kind (.ite ?_ ?_)))))
  · exact .advance (.kind (.pure _))
  · exact .kind (.pure _)

theorem setsVisibility_tells (cursor : Cursor) :
    setsVisibility.Tells cursor (isSetVisibility cursor) :=
  .lookAhead (.advance (.kind (.value (.advance (.kind (.pure _))))))

theorem lacksType_tells (cursor : Cursor) : lacksType.Tells cursor (isUntypedConst cursor) :=
  .lookAhead (.kind (.guard (.advance (.kind (.pure _)))))

theorem namesClass_tells (cursor : Cursor) :
    namesClass.Tells cursor ((classKind? cursor.kind).isSome && cursor.advance.isWord) :=
  .kind (.guard (.advance (.kind (.pure _))))

/-- A class is declared behind a modifier as it is without. -/
theorem isClassStatement_of_shows {reader : TokenReader} (shows : reader.Shows cursor) :
    isClassStatement cursor =
      if (classModifier? cursor.kind).isSome then isClassStatement cursor.advance
      else (classKind? cursor.kind).isSome && cursor.advance.isWord := by
  cases more : cursor.ahead with
  | nil =>
      rw [isClassStatement, more, shows.kind_of_nil more]
      rfl
  | cons name rest =>
      rw [isClassStatement, more, Cursor.advance_cons more]
      rfl

theorem skipModifiers_tells {bound : Nat} (enough : cursor.left ≤ bound) :
    (skipModifiers bound >>= fun _ => namesClass).Tells cursor (isClassStatement cursor) := by
  induction bound generalizing cursor with
  | zero =>
      intro s shows
      have last : cursor.ahead = [] := by
        rw [← List.length_eq_zero_iff, ← cursor.counted]
        exact Nat.le_zero.mp enough
      have names := namesClass_tells cursor s shows
      rw [shows.kind_of_nil last] at names
      rw [isClassStatement_of_shows shows, shows.kind_of_nil last]
      exact names
  | succ bound ih =>
      intro s shows
      rw [isClassStatement_of_shows shows, skipModifiers, bind_assoc]
      refine Tells.kind ?_ s shows
      by_cases modifier : (classModifier? cursor.kind).isSome = true
      -- The last token is no modifier, so the bound is enough for the tokens behind this one.
      · have inside : cursor.kind ≠ .endOfFile := fun ended => by
          rw [ended] at modifier
          cases modifier
        have shorter := shows.closed.left_advance_lt inside
        rw [if_pos modifier, if_pos modifier, bind_assoc]
        exact .advance (ih (by omega))
      · rw [if_neg modifier, if_neg modifier, pure_bind]
        exact namesClass_tells cursor

theorem declaresClass_tells (cursor : Cursor) :
    declaresClass.Tells cursor (isClassStatement cursor) :=
  fun s shows => skipModifiers_tells shows.left_le s shows

/-- A parser that looks ahead learns what the cursor tells, and nothing else comes of it. -/
structure Foresees (look : Live Bool) (test : Cursor → Bool) : Prop where
  stays : look.Stays
  tells (cursor : Cursor) : look.Tells cursor (test cursor)

theorem peekAfter_foresees (here : TokenKind → String → Bool) (wanted : TokenKind → Bool) :
    (peekAfter here wanted).Foresees fun cursor =>
      here cursor.kind cursor.current.value && wanted cursor.peek :=
  ⟨peekAfter_stays here wanted, peekAfter_tells here wanted⟩

theorem lookAheads_foresee : ∀ look ∈ lookAheads, look.1.Foresees look.2 := by
  have intersection : continuesIntersection = fun cursor : Cursor => cursor.kind == .ampersand &&
      (cursor.peek != .variableName && cursor.peek != .dotDotDot) :=
    funext fun _ => Bool.and_assoc _ _ _
  simp only [lookAheads, List.forall_mem_cons, List.not_mem_nil, false_implies, implies_true,
    and_true]
  refine ⟨?function, ?classLike, ?visibility, ?constant, ?define, ?intersection, ?named, ?callable,
    ?property, ?closure, ?call, ?static⟩
  case function => exact ⟨declaresFunction_stays, declaresFunction_tells⟩
  case classLike => exact ⟨declaresClass_stays, declaresClass_tells⟩
  case visibility => exact ⟨setsVisibility_stays, setsVisibility_tells⟩
  case constant => exact ⟨lacksType_stays, lacksType_tells⟩
  case intersection => exact intersection ▸ peekAfter_foresees _ _
  all_goals exact peekAfter_foresees _ _

end Live

/-! A parse whose tokens were read beforehand. -/

/-- The reader stands where the parse does, and has found the same problems. -/
structure TokenReader.Mirrors (reader : TokenReader) (s : ParseState) : Prop where
  shows : reader.Shows s.cursor
  problems : reader.problems = s.scanned.reverse

namespace TokenReader.Mirrors

variable {reader : TokenReader} {s : ParseState}

theorem ofText (text : Text) : (ofText text false).advance.Mirrors (.ofText text) := by
  rw [ParseState.ofText, tokenize_eq]
  exact ⟨shows_advance _ 0, (List.reverse_reverse _).symm⟩

theorem advance (mirrors : reader.Mirrors s) : reader.advance.Mirrors (Parse.advance.next s) where
  shows := mirrors.shows.advance
  problems := by
    obtain ⟨last, finished, -⟩ | more := mirrors.shows.last_or_more
    · rw [advance_of_endOfFile finished, Parse.advance, Parse.next_modify, last]
      exact mirrors.problems
    · rw [Parse.next_advance_of_cons more, List.reverse_append, List.reverse_reverse,
        ← mirrors.problems]
      rfl

theorem of_eq {t : ParseState} (mirrors : reader.Mirrors s) (cursor : t.cursor = s.cursor)
    (scanned : t.scanned = s.scanned) : reader.Mirrors t :=
  ⟨cursor ▸ mirrors.shows, scanned ▸ mirrors.problems⟩

/-- As the parse goes on, the reader keeps up with it. -/
theorem enduring : Parse.Enduring fun s t => ∀ reader : TokenReader, reader.Mirrors s →
    ∃ count, (TokenReader.advance^[count] reader).Mirrors t where
  trans one two reader mirrors := by
    obtain ⟨count, middle⟩ := one reader mirrors
    obtain ⟨more, last⟩ := two _ middle
    exact ⟨more + count, Function.iterate_add_apply _ more count reader ▸ last⟩
  advance s reader mirrors := ⟨1, mirrors.advance⟩
  report message s reader mirrors := by
    refine ⟨0, ?_⟩
    rw [Parse.report, Parse.next_modify]
    dsimp only
    split
    · exact mirrors
    · exact mirrors.of_eq rfl rfl
  still cursor scanned _ reader mirrors := ⟨0, mirrors.of_eq cursor scanned⟩

end TokenReader.Mirrors

/-- The state of a parse, with a reader that reads the tokens as it goes. -/
def ParseState.live (s : ParseState) (reader : TokenReader) : LiveParser :=
  { reader
    lastEnd := s.cursor.lastEnd
    arena := s.arena
    reported := s.reported
    halted := s.halted
    depth := s.depth }

theorem Live.Foresees.eq {look : Live Bool} {test : Cursor → Bool} (foresees : look.Foresees test)
    {s : LiveParser} {cursor : Cursor} (shows : s.reader.Shows cursor) :
    look s = (test cursor, s) :=
  Prod.ext (foresees.tells cursor s shows) (foresees.stays s)

open Live TokenReader in
/-- A reader goes back to any state that was saved, whatever it has read since and wherever else
it has gone back to: all of it is as it was, the comment that waits and the problems too. So what
is read again is the same, and each of its problems is reported once. Nothing is left of what a
parser does ahead, and each of the tests that it makes ahead leaves the parser as it was. Whatever
part of a text is parsed, a reader that has read some of its tokens stands where the parse does,
and what it finds ahead is what the parse sees there. -/
theorem looking_ahead_leaves_no_trace :
    (∀ saved reader : TokenReader, saved.Since reader →
      reader.rewind saved = saved ∧
      ∃ count, reader = TokenReader.advance^[count] saved ∧
        reader.problems =
          saved.problems ++ (List.range count).flatMap fun place => (saved.scan place).problems) ∧
    (∀ (saved : TokenReader) (count : Nat), saved.Since (TokenReader.advance^[count] saved)) ∧
    (∀ {α : Type} (ahead : Live α), ahead.Wanders →
      ∀ s, lookAhead ahead s = ((ahead s).1, s)) ∧
    (∀ s, peek s = (s.reader.advance.current.kind, s)) ∧
    (∀ look ∈ lookAheads, ∀ s, (look.1 s).2 = s) ∧
    ∀ (text : Text) {α : Type} (parse : Parse α), parse.Composed outermost →
      ∃ count,
        let s := parse.next (.ofText text)
        let live := s.live (TokenReader.advance^[count] (ofText text false))
        live.reader.problems = s.scanned.reverse ∧
        peek live = (s.cursor.peek, live) ∧
        ∀ look ∈ lookAheads, look.1 live = (look.2 s.cursor, live) ∧
          Parse.ahead? look.2 s = (look.2 s.cursor, s) := by
  refine ⟨fun saved reader since => ⟨since.rewind_eq, ?_⟩, since_iterate, fun _ => lookAhead_eq,
    peek_eq, fun look among => (lookAheads_foresee look among).stays,
    fun text {_} parse composed => ?_⟩
  · obtain ⟨count, rfl⟩ := since.exists_iterate
    exact ⟨count, rfl, problems_iterate saved count⟩
  · obtain ⟨count, shows, problems⟩ :=
      obeys_of_composed Mirrors.enduring composed _ _ (Mirrors.ofText text)
    refine ⟨count + 1, problems, ?_, fun look among => ⟨?_, rfl⟩⟩
    · rw [peek_eq]
      exact congrArg (·, _) shows.advance.kind
    · exact (lookAheads_foresee look among).eq shows

open Live TokenReader in
/-- What was wrong with a token that was read ahead is forgotten, and a class is seen behind its
modifier. -/
theorem ahead_of_open_comment_and_modifier :
    let saved := ofText "/* open".toList true
    let text := "<?php abstract class A \x7b\x7d".toList
    saved.advance.problems = [⟨"Unterminated comment", 0⟩] ∧
      saved.advance.advance.rewind saved = saved ∧
      lookAhead advance { reader := saved } = ((), { reader := saved }) ∧
      ∃ count,
        let live := (ParseState.ofText text).live (TokenReader.advance^[count] (ofText text false))
        declaresClass live = (true, live) := by
  intro saved text
  obtain ⟨rewinds, iterate, frames, -, -, parses⟩ := looking_ahead_leaves_no_trace
  obtain ⟨count, -, -, looks⟩ := parses text (Pure.pure ()) (.pure ())
  rw [Parse.next_pure] at looks
  have declares := (looks (declaresClass, isClassStatement) (.tail _ (.head _))).1
  have isClass : isClassStatement (ParseState.ofText text).cursor = true := by decide +kernel
  dsimp only at declares
  rw [isClass] at declares
  exact ⟨by decide +kernel, (rewinds _ _ (iterate _ 2)).1, frames advance .advance _, count,
    declares⟩

end StaticReflection
