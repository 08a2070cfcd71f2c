import StaticReflection.Proofs.Parser.Operands
import StaticReflection.Proofs.Parser.UnfoldedTrees
import StaticReflection.Proofs.Scanner.TokenRoundTrip

namespace StaticReflection

open Parse ParseState Grammar

/-! The tokens of a rendered expression are parsed to the tree that was rendered. -/

/-- Before a token that ends them, the pieces are parsed to a tree. -/
def ParsesAs (parse : Parse NodeId) (minPrecedence depth : Nat) (pieces : List Piece)
    (e : Expr) : Prop :=
  ∀ (s : ParseState) (stop : Mark) (after : List Mark), EndsAt minPrecedence stop.kind →
    s.At depth (pieces.map Piece.mark ++ stop :: after) →
    parse.Yields s (pieces.map Piece.mark) fun id arena => arena.Unfolds e id

/-- The same of a unary expression, which an operator can end. -/
def UnaryAs (nested : Nested) (depth : Nat) (pieces : List Piece) (e : Expr) : Prop :=
  ∀ (s : ParseState) (stop : Mark) (after : List Mark), endsOperand stop.kind = true →
    s.At depth (pieces.map Piece.mark ++ stop :: after) →
    (unaryExpression nested).Yields s (pieces.map Piece.mark)
      fun id arena => arena.Unfolds e id

theorem endsAt_of_unbound {kind : TokenKind} (ends : endsOperand kind = true)
    (ternary : kind ≠ .question) (unbound : binaryPrecedence? kind = none) (minPrecedence : Nat) :
    EndsAt minPrecedence kind :=
  ⟨ends, ternary, fun binds => by simp [unbound] at binds⟩

section Productions

variable {nested : Nested} {depth room minPrecedence : Nat} {pieces : List Piece} {e : Expr}

theorem UnaryAs.climb (unary : UnaryAs nested depth pieces e) :
    ParsesAs (climb nested minPrecedence) minPrecedence depth pieces e := by
  intro s stop after ends here
  have first := unary s stop after ends.operand here
  rw [← List.append_nil (pieces.map Piece.mark)]
  exact .climb first (.binaryTailEnds (here.after first.passes) ends first.outcome)

theorem ParsesAs.opened
    (inner : ParsesAs (climb (expressionWithin room) minPrecedence) minPrecedence (depth + 1)
      pieces e) (shallow : depth < maxDepth) :
    ParsesAs (expressionWithin (room + 1) minPrecedence) minPrecedence depth pieces e :=
  fun _ stop after ends here =>
    .opened (here.depth ▸ shallow) (inner _ stop after ends here.opened)

/-! Parentheses. -/

theorem exprThrough_yields {close : TokenKind} {s : ParseState} {stop : Mark} {after : List Mark}
    (inner : ParsesAs (nested 0) 0 depth pieces e) (ends : EndsAt 0 close)
    (here : s.At depth (pieces.map Piece.mark ++ ⟨close, "", []⟩ :: stop :: after)) :
    (exprThrough nested close).Yields s (pieces.map Piece.mark ++ [⟨close, "", []⟩])
      fun id arena => arena.Unfolds e id := by
  have inside := inner s ⟨close, "", []⟩ (stop :: after) ends here
  refine inside.bind fun id t passes unfolds => ?_
  exact .expect (here.after passes) rfl (by simp) fun more _ => .pure (unfolds.mono more.arena)

theorem ParsesAs.primary {s : ParseState} {stop : Mark} {after : List Mark}
    (inner : ParsesAs (nested 0) 0 depth pieces e)
    (here : s.At depth ((parenthesized pieces).map Piece.mark ++ stop :: after)) :
    (plainPrimary nested).Yields s ((parenthesized pieces).map Piece.mark)
      fun id arena => arena.Unfolds e id := by
  have whole : s.At depth (⟨.openParen, "", []⟩ ::
      (pieces.map Piece.mark ++ ⟨.closeParen, "", []⟩ :: stop :: after)) := by
    simpa [parenthesized] using here
  have closed : EndsAt 0 .closeParen := endsAt_of_unbound rfl (by decide) rfl 0
  refine .position (.kind whole ?_)
  simpa [parenthesized] using
    Yields.advance whole (by simp) fun _ there => exprThrough_yields inner closed there

theorem ParsesAs.operand (inner : ParsesAs (nested 0) 0 depth pieces e) :
    UnaryAs nested depth (parenthesized pieces) e := by
  intro s stop after ends here
  have starts : startsPrimary s.cursor.kind = true := by
    rw [At.kind here]
    rfl
  exact .operand here starts ends (inner.primary here)

theorem ParsesAs.parenthesized
    (inner : ParsesAs (expressionWithin room 0) 0 (depth + 1) pieces e)
    (shallow : depth < maxDepth) :
    ParsesAs (expressionWithin (room + 1) minPrecedence) minPrecedence depth
      (parenthesized pieces) e :=
  inner.operand.climb.opened shallow

/-! Literals and names. -/

theorem unaryAs_int {value : Nat} {fits : value < 2 ^ 63} :
    UnaryAs nested depth [.number value] (.int value fits) := by
  intro s stop after ends here
  have starts : startsPrimary s.cursor.kind = true := by
    rw [At.kind here]
    rfl
  refine .operand here starts ends (.position (.kind here ?_))
  refine (Yields.literal here).mono fun id arena found => ?_
  rw [At.value here] at found
  simpa [Arena.Unfolds, numberNode, integerLiteral_toDigits fits] using found

theorem unaryAs_str {value : String} :
    UnaryAs nested depth [.quoted value] (.str value) := by
  intro s stop after ends here
  have starts : startsPrimary s.cursor.kind = true := by
    rw [At.kind here]
    rfl
  refine .operand here starts ends (.position (.kind here ?_))
  refine (Yields.literal here).mono fun id arena found => ?_
  rw [At.bytes here] at found
  simpa [Arena.Unfolds] using found

theorem ClassName.kind_eq (name : ClassName) : name.toWord.kind = .identifier := by
  simp [Word.kind, nameKind, name.free]

theorem unaryAs_const {name : ConstantName} :
    UnaryAs nested depth [.word name.toWord] (.const name) := by
  intro s stop after ends here
  simp only [List.map_cons, List.map_nil, Piece.mark_word, name.toClassName.kind_eq] at here ⊢
  have starts : startsPrimary s.cursor.kind = true := by
    rw [At.kind here]
    rfl
  refine .operand here starts ends (.position (.kind here ?_))
  refine .position (.value here (.advance here (by simp) fun _ there => .kind there ?_))
  split
  · simp_all [endsOperand]
  · simp_all [endsOperand]
  · exact (Yields.addNode _ _).mono fun id arena found => by simpa [Arena.Unfolds] using found

theorem Word.isWord_kind (word : Word) : word.kind.isWord = true := by
  rw [kind, nameKind, if_neg Bool.false_ne_true, TokenKind.isWord]
  cases found : keyword? word.value with
  | none => rfl
  | some kind =>
      have keyword : kind.isKeyword = true :=
        List.any_eq_true.mpr ⟨_, mem_reservedWords found, beq_self_eq_true kind⟩
      simp [keyword]

theorem staticMember_yields {s : ParseState} {stop : Mark} {after : List Mark} {owner : NodeId}
    {pos : Nat} (name : MemberName)
    (here : s.At depth (⟨name.kind, name.value, []⟩ :: stop :: after))
    (ends : endsOperand stop.kind = true) :
    (staticMember nested owner pos).Yields s [⟨name.kind, name.value, []⟩]
      fun id arena => arena.node? id = some (.classConstFetch owner name.value) := by
  have isWord := name.isWord_kind
  refine .kind here ?_
  dsimp only
  split
  · rename_i is
    rw [is] at isWord
    cases isWord
  · rename_i is
    have value := name.canonical is
    rw [value] at here ⊢
    exact .advance here (by simp) fun _ _ => .addNode _ _
  · rename_i is
    rw [is] at isWord
    cases isWord
  · have tested : s.cursor.isWord = true := by rw [Cursor.isWord, here.kind, isWord]
    refine .ahead? tested (.position (.value here ?_))
    refine .advance here (by simp) fun _ there => .at? there ?_
    have plain : (stop.kind == .openParen) = false := by
      apply beq_eq_false_iff_ne.mpr
      intro is
      simp [is, endsOperand] at ends
    rw [plain]
    exact .addNode _ _

theorem unaryAs_classConst {owner : ClassName} {name : MemberName} :
    UnaryAs nested depth [.word owner.toWord, .sign .colonColon, .word name.toWord]
      (.classConst owner name) := by
  intro s stop after ends here
  simp only [List.map_cons, List.map_nil, Piece.mark_word, Piece.mark_sign, owner.kind_eq,
    List.cons_append, List.nil_append] at here ⊢
  have starts : startsPrimary s.cursor.kind = true := by
    rw [At.kind here]
    rfl
  have base : (plainPrimary nested).Yields s [⟨.identifier, owner.value, []⟩]
      fun id arena => arena.node? id = some (.nameRef owner.value) := by
    refine .position (.kind here (.position (.value here ?_)))
    exact .advance here (by simp) fun _ there => .kind there (.addNode _ _)
  have tail (start : NodeId) (t : ParseState)
      (passes : s.Passes [⟨.identifier, owner.value, []⟩] t)
      (found : t.arena.node? start = some (.nameRef owner.value)) :
      (suffixes nested start s.cursor.current.span.start).Yields t
        [⟨.colonColon, "", []⟩, ⟨name.kind, name.value, []⟩]
        fun id arena => arena.Unfolds (.classConst owner name) id := by
    have there := At.after here passes
    refine .suffixesOne (.kind there (.advance there (by simp) fun more inside => ?_))
      (by simp) there ends
    refine .andThen (staticMember_yields name inside ends) fun id u last fetched => .pure ?_
    refine ⟨rfl, ?_⟩
    simp only [Arena.Unfolds]
    exact ⟨start, fetched, last.arena _ _ (more.arena _ _ found)⟩
  exact .suffixed here starts ends base tail

/-! Operators. -/

theorem UnaryOp.operatorPrecedence (op : UnaryOp) :
    ∃ precedence, operatorPrecedence? op.kind = some precedence := by
  cases op <;> exact ⟨_, rfl⟩

theorem ParsesAs.unary {op : UnaryOp}
    (operand : ∀ minPrecedence, ParsesAs (nested minPrecedence) minPrecedence depth
      (StaticReflection.parenthesized pieces) e) :
    ParsesAs (climb nested 0) 0 depth
      (.sign op.kind :: StaticReflection.parenthesized pieces) (.unary op e) := by
  intro s stop after ends here
  obtain ⟨precedence, binds⟩ := op.operatorPrecedence
  have inside := operand precedence _ stop after (ends.mono (Nat.zero_le _))
    (At.after here (Yields.advance_passes here (by simp)))
  have unary := Yields.unaryOperator here binds inside (by simp)
  rw [← List.append_nil (List.map _ _)]
  refine .climb unary (.binaryTailEnds (At.after here unary.passes) ends ?_)
  obtain ⟨operandId, before, grows, unfolds, found⟩ := unary.outcome
  simp only [Arena.Unfolds]
  exact ⟨operandId, found, unfolds.mono grows⟩

theorem BinaryOp.kind_mark (op : BinaryOp) : op.piece.mark.kind = op.kind := by
  unfold piece
  split
  all_goals simp_all [Piece.mark]
  all_goals decide

theorem BinaryOp.rightOperand_eq (op : BinaryOp) (nested : Nested) (precedence : Nat)
    (associativity : Associativity) :
    ∃ bound, rightOperand nested op.kind precedence associativity = nested bound := by
  cases associativity with
  | left => exact ⟨precedence + 1, if_neg op.expression⟩
  | right => exact ⟨precedence, rfl⟩

theorem ParsesAs.binary {op : BinaryOp} {left right : Expr} {first second : List Piece}
    (one : ParsesAs (nested 0) 0 depth first left)
    (two : ∀ minPrecedence, ParsesAs (nested minPrecedence) minPrecedence depth
      (StaticReflection.parenthesized second) right) :
    ParsesAs (climb nested 0) 0 depth
      (StaticReflection.parenthesized first ++ op.piece :: StaticReflection.parenthesized second)
      (.binary op left right) := by
  intro s stop after ends here
  obtain ⟨⟨precedence, associativity⟩, binds⟩ := Option.isSome_iff_exists.mp op.binds
  rw [← op.kind_mark] at binds
  rw [List.map_append, List.map_cons, List.append_assoc] at here
  rw [List.map_append, List.map_cons]
  have unary := one.operand s _ _ (endsOperand_of_binaryPrecedence? binds) here
  have there := here.after unary.passes
  obtain ⟨bound, operand⟩ := op.rightOperand_eq nested precedence associativity
  have inside := two bound _ stop after (ends.mono (Nat.zero_le _))
    (At.after there (Yields.advance_passes there (by simp)))
  have step : (binaryStep nested 0 s.cursor.current.span.start
      ((unaryExpression nested).result s)).Yields _ _ _ :=
    .binaryStep there binds (Nat.zero_le _) (op.kind_mark ▸ operand ▸ inside) (by simp)
  refine .climb unary (.binaryTailOne ⟨step.passes, ?_⟩ (by simp) there ends)
  obtain ⟨again, rightId, before, grows, unfolds, found⟩ := step.outcome
  rw [op.kind_mark] at found
  refine ⟨again, ?_⟩
  simp only [Arena.Unfolds]
  exact ⟨_, rightId, found, unary.outcome.mono step.passes.arena, unfolds.mono grows⟩

/-! Ternaries. -/

section Ternary

variable {condition whenTrue whenFalse : Expr} {first second third : List Piece}

/-- What comes after the question mark is parsed as the rest of a ternary. -/
def TailAs (nested : Nested) (depth : Nat) (condition : Expr) (pieces : List Piece) (e : Expr) :
    Prop :=
  ∀ (s : ParseState) (stop : Mark) (after : List Mark) (id : NodeId) (pos : Nat),
    EndsAt 0 stop.kind → s.At depth (pieces.map Piece.mark ++ stop :: after) →
    s.arena.Unfolds condition id →
    (ternaryTail nested id pos).Yields s (pieces.map Piece.mark)
      fun id arena => arena.Unfolds e id

theorem TailAs.climb (tail : TailAs nested depth condition second e)
    (one : ParsesAs (nested 0) 0 depth first condition) :
    ParsesAs (climb nested 0) 0 depth (parenthesized first ++ .sign .question :: second) e := by
  intro s stop after ends here
  rw [List.map_append, List.map_cons, List.append_assoc] at here
  rw [List.map_append, List.map_cons]
  have unary := one.operand s _ _ rfl here
  have there := here.after unary.passes
  have step := tail _ stop after _ s.cursor.current.span.start ends
    (At.after there (Yields.advance_passes there (by simp))) unary.outcome
  exact .climb unary (.binaryTailOne (.ternaryStep there rfl step (by simp)) (by simp) there ends)

theorem tailAs_ternary (two : ParsesAs (nested 0) 0 depth (parenthesized second) whenTrue)
    (three : ∀ minPrecedence, ParsesAs (nested minPrecedence) minPrecedence depth
      (parenthesized third) whenFalse) :
    TailAs nested depth condition (parenthesized second ++ .sign .colon :: parenthesized third)
      (.ternary condition whenTrue whenFalse) := by
  intro s stop after id pos ends here unfolds
  rw [List.map_append, List.map_cons, List.append_assoc] at here
  rw [List.map_append, List.map_cons]
  have colon : EndsAt 0 .colon := endsAt_of_unbound rfl (by decide) rfl 0
  have middle : (some <$> anyExpr nested).Yields s ((parenthesized second).map Piece.mark)
      fun out arena => ∃ trueId, out = some trueId ∧ arena.Unfolds whenTrue trueId :=
    .map (two s _ _ colon here) fun trueId _ unfolds => ⟨trueId, rfl, unfolds⟩
  refine .at? here (middle.bind ?_)
  rintro _ t passed ⟨trueId, rfl, unfoldsTrue⟩
  refine .expect (here.after passed) rfl (by simp) fun more there => ?_
  refine .andThen (three _ _ stop after (ends.mono (Nat.zero_le _)) there) ?_
  intro falseId u last unfoldsFalse
  refine .adds fun ternary arena grows found => ?_
  have onward := (more.trans last).arena.trans grows
  simp only [Arena.Unfolds]
  exact ⟨id, trueId, falseId, found, unfolds.mono (passed.arena.trans onward),
    unfoldsTrue.mono onward, unfoldsFalse.mono grows⟩

theorem tailAs_shortTernary
    (two : ∀ minPrecedence, ParsesAs (nested minPrecedence) minPrecedence depth
      (parenthesized second) whenFalse) :
    TailAs nested depth condition (.sign .colon :: parenthesized second)
      (.shortTernary condition whenFalse) := by
  intro s stop after id pos ends here unfolds
  have missing : (pure none : Parse (Option NodeId)) s = (none, s) := rfl
  refine .at? here (.look missing (.expect here rfl (by simp) fun more there => ?_))
  refine .andThen (two _ _ stop after (ends.mono (Nat.zero_le _)) there) ?_
  intro falseId t last unfoldsFalse
  refine .adds fun ternary arena grows found => ?_
  simp only [Arena.Unfolds]
  exact ⟨id, falseId, found, unfolds.mono ((more.trans last).arena.trans grows),
    unfoldsFalse.mono grows⟩

end Ternary

/-! Indices. -/

/-- The kinds of the tokens that begin a rendered expression. -/
def startsExpression : TokenKind → Bool
  | .integerLiteral | .stringLiteral | .identifier | .arrayKw | .openParen | .openBracket
  | .exclamation | .minus | .plus | .tilde => true
  | _ => false

theorem Expr.exists_first (bare : Bool) (e : Expr) :
    ∃ piece others, e.pieces bare = piece :: others ∧
      startsExpression piece.mark.kind = true := by
  cases e with
  | int | str => exact ⟨_, _, rfl, rfl⟩
  | const name => exact ⟨_, _, rfl, by simp [name.toClassName.kind_eq, startsExpression]⟩
  | classConst owner name => exact ⟨_, _, rfl, by simp [owner.kind_eq, startsExpression]⟩
  | unary op operand => exact ⟨_, _, rfl, by cases op <;> rfl⟩
  | binary | ternary | shortTernary | dim => exact ⟨_, _, rfl, rfl⟩
  | array bracketed items =>
      cases bracketed with
      | true => exact ⟨_, _, rfl, rfl⟩
      | false => exact ⟨_, _, rfl, by decide⟩

theorem startsExpression_of_element {bare : Bool} {s : ParseState} {after : List Mark}
    (here : s.At depth ((element bare (e.pieces bare)).map Piece.mark ++ after)) :
    startsExpression s.cursor.kind = true := by
  cases bare with
  | true =>
      obtain ⟨piece, others, first, starts⟩ := e.exists_first true
      rw [element, if_pos rfl, first] at here
      rw [At.kind here]
      exact starts
  | false =>
      rw [At.kind here]
      rfl

theorem optionalThrough_yields {close : TokenKind} {s : ParseState} {stop : Mark}
    {after : List Mark} (inner : ParsesAs (nested 0) 0 depth pieces e) (ends : EndsAt 0 close)
    (here : s.At depth (pieces.map Piece.mark ++ ⟨close, "", []⟩ :: stop :: after))
    (apart : s.cursor.kind ≠ close) :
    (optionalThrough nested close).Yields s (pieces.map Piece.mark ++ [⟨close, "", []⟩])
      fun out arena => ∃ id, out = Option.some id ∧ arena.Unfolds e id := by
  have looks : at? close s = (false, s) := congrArg (·, s) (beq_eq_false_iff_ne.mpr apart)
  have inside : (Option.some <$> anyExpr nested).Yields s (pieces.map Piece.mark)
      fun out arena => ∃ id, out = Option.some id ∧ arena.Unfolds e id :=
    .map (inner s _ _ ends here) fun id _ unfolds => ⟨id, rfl, unfolds⟩
  refine .look looks (inside.bind ?_)
  rintro _ t passes ⟨id, rfl, unfolds⟩
  refine .expect (here.after passes) rfl (by simp) fun more _ => .pure ⟨id, rfl, ?_⟩
  exact unfolds.mono more.arena

theorem unaryAs_dim {base index : Expr} {bare : Bool} {first : List Piece}
    (one : ParsesAs (nested 0) 0 depth first base)
    (two : ParsesAs (nested 0) 0 depth (element bare (index.pieces bare)) index) :
    UnaryAs nested depth (parenthesized first ++
      .sign .openBracket :: (element bare (index.pieces bare) ++ [.sign .closeBracket]))
      (.dim base index) := by
  intro s stop after ends here
  have starts : startsPrimary s.cursor.kind = true := by
    rw [At.kind here]
    rfl
  have closed : EndsAt 0 .closeBracket := endsAt_of_unbound rfl (by decide) rfl 0
  simp only [List.map_append, List.map_cons, List.map_nil, Piece.mark_sign] at here ⊢
  rw [List.append_assoc] at here
  refine .suffixed here starts ends (one.primary here) fun start t passes unfolds => ?_
  have there := here.after passes
  have spread : t.At depth (⟨.openBracket, "", []⟩ ::
      ((element bare (index.pieces bare)).map Piece.mark ++
        ⟨.closeBracket, "", []⟩ :: stop :: after)) := by
    simpa using there
  refine .suffixesOne (.kind spread (.advance spread (by simp) fun more inside => ?_))
    (by simp) there ends
  have bracket : (Parse.advance.next t).cursor.kind ≠ .closeBracket := by
    intro is
    have begins := startsExpression_of_element inside
    rw [is] at begins
    cases begins
  refine .andThen (optionalThrough_yields two closed inside bracket) ?_
  rintro _ u last ⟨indexId, rfl, unfoldsIndex⟩
  have added : (addNode (.dimFetch start (some indexId)) s.cursor.current.span.start).Yields u []
      fun id arena => arena.Unfolds (.dim base index) id := by
    refine .adds fun id arena grows found => ?_
    simp only [Arena.Unfolds]
    exact ⟨start, indexId, found, unfolds.mono ((more.trans last).arena.trans grows),
      unfoldsIndex.mono grows⟩
  exact added.andThen fun id v _ outcome => .pure ⟨rfl, outcome⟩

/-! Arrays. -/

/-- Before a token that ends it, the pieces are parsed to an item of an array. -/
def ItemAs (nested : Nested) (depth : Nat) (pieces : List Piece) (item : Item) : Prop :=
  ∀ (s : ParseState) (stop : Mark) (after : List Mark), EndsAt 0 stop.kind →
    stop.kind ≠ .fatArrow → s.At depth (pieces.map Piece.mark ++ stop :: after) →
    (arrayEntry nested).Yields s (pieces.map Piece.mark)
      fun found arena => arena.UnfoldsItem item found

section Items

variable {bare : Bool} {key value : Expr} {item : Item} {close : TokenKind}

theorem ne_of_startsExpression {kind other : TokenKind} (starts : startsExpression kind = true)
    (unstarted : startsExpression other = false) : kind ≠ other := by
  rintro rfl
  simp [starts] at unstarted

theorem itemAs_plain
    (one : ParsesAs (nested 0) 0 depth (element bare (value.pieces bare)) value) :
    ItemAs nested depth (element bare (value.pieces bare)) (.plain value) := by
  intro s stop after ends unkeyed here
  have starts := startsExpression_of_element here
  refine .look (accept_of_ne (ne_of_startsExpression starts rfl)) ?_
  refine .look (accept_of_ne (ne_of_startsExpression starts rfl)) ?_
  refine .andThen (one s stop after ends here) fun id t passes unfolds => ?_
  refine .acceptOther (here.after passes) unkeyed (.pure ?_)
  simp only [Arena.UnfoldsItem]
  exact ⟨id, rfl, unfolds⟩

theorem itemAs_keyed
    (one : ParsesAs (nested 0) 0 depth (element bare (key.pieces bare)) key)
    (two : ParsesAs (nested 0) 0 depth (element bare (value.pieces bare)) value) :
    ItemAs nested depth (element bare (key.pieces bare) ++
      .sign .fatArrow :: element bare (value.pieces bare)) (.keyed key value) := by
  intro s stop after ends unkeyed here
  rw [List.map_append, List.map_cons, List.append_assoc] at here
  rw [List.map_append, List.map_cons]
  have arrow : EndsAt 0 .fatArrow := endsAt_of_unbound rfl (by decide) rfl 0
  have starts := startsExpression_of_element here
  refine .look (accept_of_ne (ne_of_startsExpression starts rfl)) ?_
  refine .look (accept_of_ne (ne_of_startsExpression starts rfl)) ?_
  refine .bind (one s _ _ arrow here) fun keyId t passes unfoldsKey => ?_
  refine .accept (here.after passes) rfl (by simp) fun more there => ?_
  have starts := startsExpression_of_element there
  refine .look (accept_of_ne (ne_of_startsExpression starts rfl)) ?_
  refine .andThen (two _ stop after ends there) fun valueId u last unfolds => .pure ?_
  simp only [Arena.UnfoldsItem]
  exact ⟨keyId, valueId, rfl, unfoldsKey.mono (more.trans last).arena, unfolds⟩

theorem itemAs_spread
    (one : ParsesAs (nested 0) 0 depth (element bare (value.pieces bare)) value) :
    ItemAs nested depth (.sign .dotDotDot :: element bare (value.pieces bare))
      (.spread value) := by
  intro s stop after ends _ here
  refine .accept here rfl (by simp) fun _ there => ?_
  refine .andThen (one _ stop after ends there) fun id t passes unfolds => .pure ?_
  simp only [Arena.UnfoldsItem]
  exact ⟨id, rfl, unfolds⟩

theorem arrayElement_yields {s : ParseState} {stop : Mark} {after : List Mark}
    (one : ItemAs nested depth pieces item) (ends : EndsAt 0 stop.kind)
    (unkeyed : stop.kind ≠ .fatArrow) (here : s.At depth (pieces.map Piece.mark ++ stop :: after)) :
    (arrayElement nested).Yields s (pieces.map Piece.mark) fun id arena =>
      ∃ found, arena.node? id = some (.arrayItem found) ∧ arena.UnfoldsItem item found := by
  refine .position (.andThen (one s stop after ends unkeyed here) fun found t _ unfolds => ?_)
  exact .adds fun id arena grows there => ⟨found, there, unfolds.mono grows⟩

/-- The kinds of the tokens that begin an item. -/
def startsItem (kind : TokenKind) : Bool :=
  startsExpression kind || kind == .dotDotDot

theorem startsItem_of_pieces {s : ParseState} {after : List Mark}
    (here : s.At depth ((item.pieces bare).map Piece.mark ++ after)) :
    startsItem s.cursor.kind = true := by
  cases item with
  | plain value => simp [startsItem, startsExpression_of_element here]
  | keyed key value =>
      rw [Item.pieces, List.map_append, List.append_assoc] at here
      simp [startsItem, startsExpression_of_element here]
  | spread value =>
      rw [At.kind here]
      rfl

/-- The pieces are parsed to the slots of an array, after those that were there. -/
def SlotsAs (nested : Nested) (depth : Nat) (close : TokenKind) (pieces : List Piece)
    (items : Items) : Prop :=
  ∀ (s : ParseState) (stop : Mark) (after : List Mark) (known : List (Option NodeId)),
    s.At depth (pieces.map Piece.mark ++ ⟨close, "", []⟩ :: stop :: after) →
    (untilDone known (arraySlot nested close)).Yields s (pieces.map Piece.mark)
      fun out arena => ∃ slots, out = known ++ slots ∧ arena.UnfoldsItems items slots

theorem slotsAs_nil : SlotsAs nested depth close [] .nil := by
  intro s stop after known here
  refine .done (.kind here ?_)
  simp only [beq_self_eq_true, Bool.true_or, if_true]
  exact .pure ⟨rfl, [], by simp, rfl⟩

theorem Item.pieces_ne_nil (bare : Bool) (item : Item) : item.pieces bare ≠ [] := by
  have written (e : Expr) : element bare (e.pieces bare) ≠ [] := by
    obtain ⟨piece, others, first, _⟩ := e.exists_first bare
    cases bare <;> simp [element, parenthesized, first]
  cases item <;> simp [Item.pieces, written]

theorem separated_of_ne_nil {pieces : List Piece} (written : pieces ≠ []) :
    separated pieces = .sign .comma :: pieces := by
  cases pieces with
  | nil => contradiction
  | cons piece pieces => rfl

/-- One slot, up to the comma after it. -/
theorem arraySlot_yields {s : ParseState} {stop : Mark} {after last : List Mark}
    {known : List (Option NodeId)} {Q : List (Option NodeId) × Bool → Arena → Prop}
    (one : ItemAs nested depth (item.pieces bare) item)
    (closing : close = .closeParen ∨ close = .closeBracket) (ends : EndsAt 0 stop.kind)
    (unkeyed : stop.kind ≠ .fatArrow)
    (here : s.At depth ((item.pieces bare).map Piece.mark ++ stop :: after))
    (rest : ∀ id t, s.Passes ((item.pieces bare).map Piece.mark) t →
      (∃ found, t.arena.node? id = some (.arrayItem found) ∧ t.arena.UnfoldsItem item found) →
      (accept .comma >>= fun more => (pure (known ++ [some id], more) : Parse _)).Yields t last
        Q) :
    (arraySlot nested close known).Yields s ((item.pieces bare).map Piece.mark ++ last) Q := by
  have starts := startsItem_of_pieces here
  have inside : (s.cursor.kind == close || s.cursor.kind == .endOfFile) = false := by
    obtain rfl | rfl := closing
    all_goals
      revert starts
      cases s.cursor.kind <;> decide
  have uncomma : s.cursor.kind ≠ .comma := by
    intro is
    rw [is] at starts
    cases starts
  have looks : Parse.kind s = (s.cursor.kind, s) := rfl
  refine .look looks ?_
  rw [inside, if_neg Bool.false_ne_true]
  exact .look (accept_of_ne uncomma) ((arrayElement_yields one ends unkeyed here).bind rest)

theorem slotsAs_cons {rest : Items} (one : ItemAs nested depth (item.pieces bare) item)
    (two : SlotsAs nested depth close (rest.pieces bare) rest)
    (closing : close = .closeParen ∨ close = .closeBracket) :
    SlotsAs nested depth close ((Items.cons item rest).pieces bare) (.cons item rest) := by
  intro s stop after known here
  have closed : EndsAt 0 close ∧ close ≠ .fatArrow ∧ close ≠ .comma := by
    obtain rfl | rfl := closing
    all_goals exact ⟨endsAt_of_unbound rfl (by decide) rfl 0, by decide, by decide⟩
  have comma : EndsAt 0 .comma := endsAt_of_unbound rfl (by decide) rfl 0
  cases rest with
  | nil =>
      simp only [Items.pieces, separated, List.append_nil] at here ⊢
      rw [← List.append_nil (List.map _ _)]
      refine .done (arraySlot_yields one closing closed.1 closed.2.1 here ?_)
      rintro id t passes ⟨found, there, unfolds⟩
      refine .acceptOther (here.after passes) closed.2.2 (.pure ⟨rfl, [some id], rfl, ?_⟩)
      simp only [Arena.UnfoldsItems]
      exact ⟨id, found, [], rfl, there, unfolds, rfl⟩
  | cons next others =>
      have written : (Items.cons next others).pieces bare ≠ [] := by
        simp [Items.pieces, next.pieces_ne_nil bare]
      rw [Items.pieces, separated_of_ne_nil written] at here ⊢
      rw [List.map_append, List.map_cons, List.append_assoc] at here
      rw [List.map_append, List.map_cons, List.append_cons]
      have step : (arraySlot nested close known).Yields s
          ((item.pieces bare).map Piece.mark ++ [⟨.comma, "", []⟩]) fun out arena =>
            out.2 = true ∧ ∃ id found, out.1 = known ++ [some id] ∧
              arena.node? id = some (.arrayItem found) ∧ arena.UnfoldsItem item found := by
        refine arraySlot_yields one closing comma (by decide) here ?_
        rintro id t passes ⟨found, there, unfolds⟩
        refine .accept (here.after passes) rfl (by simp) fun more _ => .pure ?_
        exact ⟨rfl, id, found, rfl, more.arena _ _ there, unfolds.mono more.arena⟩
      obtain ⟨_, id, found, slot, there, unfolds⟩ := step.outcome
      have onward := At.after (by simpa using here) step.passes
      have loop := two _ stop after ((arraySlot nested close known).result s).1 onward
      refine .more (step.mono fun _ _ outcome => outcome.1) (by simp) ⟨loop.passes, ?_⟩
      obtain ⟨slots, all, unfoldsOthers⟩ := loop.outcome
      refine ⟨some id :: slots, by rw [all, slot]; simp, ?_⟩
      rw [Arena.UnfoldsItems]
      exact ⟨id, found, slots, rfl, loop.passes.arena _ _ there,
        unfolds.mono loop.passes.arena, unfoldsOthers⟩

theorem arrayElements_yields {s : ParseState} {stop : Mark} {after : List Mark} {items : Items}
    {pos : Nat} (bracketed : Bool) (slots : SlotsAs nested depth close pieces items)
    (here : s.At depth (pieces.map Piece.mark ++ ⟨close, "", []⟩ :: stop :: after)) :
    (arrayElements nested pos close bracketed).Yields s
      (pieces.map Piece.mark ++ [⟨close, "", []⟩])
      fun id arena => arena.Unfolds (.array bracketed items) id := by
  refine (slots s stop after [] here).bind ?_
  rintro out t passes ⟨_, rfl, unfolds⟩
  refine .expect (here.after passes) rfl (by simp) fun more _ => ?_
  refine .adds fun id arena grows there => ?_
  simp only [Arena.Unfolds]
  exact ⟨out, there, unfolds.mono (more.arena.trans grows)⟩

theorem unaryAs_bracketed {items : Items}
    (slots : SlotsAs nested depth .closeBracket pieces items) :
    UnaryAs nested depth (.sign .openBracket :: (pieces ++ [.sign .closeBracket]))
      (.array true items) := by
  intro s stop after ends here
  have starts : startsPrimary s.cursor.kind = true := by
    rw [At.kind here]
    rfl
  have whole : s.At depth (⟨.openBracket, "", []⟩ ::
      (pieces.map Piece.mark ++ ⟨.closeBracket, "", []⟩ :: stop :: after)) := by
    simpa using here
  refine .operand here starts ends (.position (.kind whole ?_))
  simpa using Yields.advance whole (by simp) fun _ there => arrayElements_yields true slots there

theorem unaryAs_worded {items : Items} (slots : SlotsAs nested depth .closeParen pieces items) :
    UnaryAs nested depth (.word .arrayWord :: parenthesized pieces) (.array false items) := by
  intro s stop after ends here
  have word : Piece.mark (.word .arrayWord) = ⟨.arrayKw, "array", []⟩ := by decide
  have whole : s.At depth (⟨.arrayKw, "array", []⟩ :: ⟨.openParen, "", []⟩ ::
      (pieces.map Piece.mark ++ ⟨.closeParen, "", []⟩ :: stop :: after)) := by
    simpa [parenthesized, ← word] using here
  have starts : startsPrimary s.cursor.kind = true := by
    rw [whole.kind]
    rfl
  refine .operand here starts ends (.position (.kind whole ?_))
  have calls : (s.cursor.peek == .openParen) = true := by
    rw [whole.peek]
    rfl
  have body : (wordArray nested s.cursor.current.span.start).Yields s
      (⟨.arrayKw, "array", []⟩ :: ⟨.openParen, "", []⟩ ::
        (pieces.map Piece.mark ++ [⟨.closeParen, "", []⟩]))
      fun id arena => arena.Unfolds (.array false items) id := by
    refine .ahead? calls (.advance whole (by simp) fun _ there => ?_)
    refine .advance there (by simp) fun _ inside => ?_
    exact arrayElements_yields false slots inside
  simpa [parenthesized, word] using body

end Items

end Productions

/-- The pieces are parsed to a tree wherever so many expressions can be opened. -/
def Parsable (count : Nat) (pieces : List Piece) (e : Expr) : Prop :=
  ∀ room depth : Nat, count ≤ room → depth + count ≤ maxDepth →
    ParsesAs (expressionWithin room 0) 0 depth pieces e

namespace Parsable

variable {count room depth : Nat} {pieces : List Piece} {e : Expr}

theorem opened (inner : ∀ room depth : Nat, count ≤ room → depth + count ≤ maxDepth →
      ParsesAs (climb (expressionWithin room) 0) 0 depth pieces e) :
    Parsable (count + 1) pieces e := by
  intro room depth fits within
  obtain ⟨room, rfl⟩ : ∃ less, room = less + 1 := ⟨room - 1, by omega⟩
  exact (inner room (depth + 1) (by omega) (by omega)).opened (by omega)

theorem wrapped (inner : Parsable count pieces e) (fits : count < room)
    (within : depth + count < maxDepth) (minPrecedence : Nat) :
    ParsesAs (expressionWithin room minPrecedence) minPrecedence depth
      (parenthesized pieces) e := by
  obtain ⟨room, rfl⟩ : ∃ less, room = less + 1 := ⟨room - 1, by omega⟩
  have inside : ParsesAs (expressionWithin room 0) 0 (depth + 1) pieces e :=
    inner room (depth + 1) (by omega) (by omega)
  exact inside.parenthesized (by omega)

theorem element {bare : Bool} (inner : Parsable count pieces e)
    (fits : count + (!bare).toNat ≤ room) (within : depth + (count + (!bare).toNat) ≤ maxDepth) :
    ParsesAs (expressionWithin room 0) 0 depth (element bare pieces) e := by
  cases bare with
  | true => exact inner room depth fits within
  | false => exact inner.wrapped fits within 0

end Parsable

mutual

theorem Expr.parsable (bare : Bool) (e : Expr) : Parsable (e.nesting bare) (e.pieces bare) e := by
  cases e with
  | int => exact Parsable.opened fun _ _ _ _ => unaryAs_int.climb
  | str => exact Parsable.opened fun _ _ _ _ => unaryAs_str.climb
  | const => exact Parsable.opened fun _ _ _ _ => unaryAs_const.climb
  | classConst => exact Parsable.opened fun _ _ _ _ => unaryAs_classConst.climb
  | unary op operand =>
      refine Parsable.opened fun room depth fits within => ?_
      exact .unary ((operand.parsable bare).wrapped (by omega) (by omega))
  | binary op left right =>
      refine Parsable.opened fun room depth fits within => ?_
      exact .binary (left.parsable bare room depth (by omega) (by omega))
        ((right.parsable bare).wrapped (by omega) (by omega))
  | ternary condition whenTrue whenFalse =>
      refine Parsable.opened fun room depth fits within => ?_
      refine TailAs.climb (tailAs_ternary ?_ ?_) (condition.parsable bare room depth ?_ ?_)
      · exact (whenTrue.parsable bare).wrapped (by omega) (by omega) 0
      · exact (whenFalse.parsable bare).wrapped (by omega) (by omega)
      all_goals omega
  | shortTernary condition whenFalse =>
      refine Parsable.opened fun room depth fits within => ?_
      refine TailAs.climb (tailAs_shortTernary ?_) (condition.parsable bare room depth ?_ ?_)
      · exact (whenFalse.parsable bare).wrapped (by omega) (by omega)
      all_goals omega
  | array bracketed items =>
      refine Parsable.opened fun room depth fits within => ?_
      cases bracketed with
      | true => exact (unaryAs_bracketed (items.slotsAs bare (.inr rfl) fits within)).climb
      | false => exact (unaryAs_worded (items.slotsAs bare (.inl rfl) fits within)).climb
  | dim base index =>
      refine Parsable.opened fun room depth fits within => ?_
      exact (unaryAs_dim (base.parsable bare room depth (by omega) (by omega))
        ((index.parsable bare).element (by omega) (by omega))).climb

theorem Item.itemAs (bare : Bool) (item : Item) {room depth : Nat}
    (fits : item.nesting bare ≤ room) (within : depth + item.nesting bare ≤ maxDepth) :
    ItemAs (expressionWithin room) depth (item.pieces bare) item := by
  cases item with
  | plain value => exact itemAs_plain ((value.parsable bare).element fits within)
  | keyed key value =>
      rw [Item.nesting] at fits within
      exact itemAs_keyed ((key.parsable bare).element (by omega) (by omega))
        ((value.parsable bare).element (by omega) (by omega))
  | spread value => exact itemAs_spread ((value.parsable bare).element fits within)

theorem Items.slotsAs (bare : Bool) (items : Items) {close : TokenKind}
    (closing : close = .closeParen ∨ close = .closeBracket) {room depth : Nat}
    (fits : items.nesting bare ≤ room) (within : depth + items.nesting bare ≤ maxDepth) :
    SlotsAs (expressionWithin room) depth close (items.pieces bare) items := by
  cases items with
  | nil => exact slotsAs_nil
  | cons item rest =>
      rw [Items.nesting] at fits within
      exact slotsAs_cons (item.itemAs bare (by omega) (by omega))
        (rest.slotsAs bare closing (by omega) (by omega)) closing

end

end StaticReflection
