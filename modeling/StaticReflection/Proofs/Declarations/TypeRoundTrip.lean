import StaticReflection.Proofs.Declarations.LastDeclaration
import StaticReflection.Proofs.Declarations.NameCase
import StaticReflection.Proofs.Parser.UnlimitedSigns

namespace StaticReflection

open Parse ParseState Grammar

/-! A rendered type is read, parsed and resolved as the type that was rendered. -/

/-! Types. -/

/-- A name of a type, and whether the type is built in. The case of letters does not count in
what a declared class cannot be named. -/
inductive TypeName : String → Bool → Prop
  | builtin {name : String} (known : name ∈ builtinTypes) : TypeName name true
  | special {name : String} (known : name = "self" ∨ name = "parent") : TypeName name false
  | declared {name : WrittenName} (unrooted : name.rooted = false)
      (absolute : foldCase name.first.value ≠ "namespace")
      (own : name.more = [] → keyword? name.value = none ∧
        foldCase name.value ∉ builtinTypes ∧ isSpecialClass name.value = false) :
      TypeName name.value false

namespace DeclaredType

inductive IsName : DeclaredType → Prop
  | named {name : String} {builtin : Bool} (valid : TypeName name builtin) :
      IsName (.named name builtin)

/-- An intersection, or what can stand beside it in a union. -/
inductive IsMember : DeclaredType → Prop
  | name {type : DeclaredType} (isName : type.IsName) : IsMember type
  | intersection {members : List DeclaredType} (several : 2 ≤ members.length)
      (names : ∀ member ∈ members, member.IsName) : IsMember (.intersection members)

/-- A type that can be declared. -/
inductive WellFormed : DeclaredType → Prop
  | member {type : DeclaredType} (isMember : type.IsMember) : WellFormed type
  | nullable {inner : DeclaredType} (isName : inner.IsName) : WellFormed (.nullable inner)
  | union {members : List DeclaredType} (several : 2 ≤ members.length)
      (areMembers : ∀ member ∈ members, member.IsMember) : WellFormed (.union members)

end DeclaredType

/-! Names of types. -/

namespace WrittenName

variable {name : WrittenName}

def words (name : WrittenName) : List Word :=
  name.first :: name.more

theorem path_eq_intercalate (name : WrittenName) :
    name.path = ['\\'].intercalate (name.words.map Word.text) := by
  obtain ⟨rooted, first, more⟩ := name
  simp only [path, words]
  induction more generalizing first with
  | nil => simp
  | cons next more ih => simp [List.intercalate, ih next]

theorem not_mem_word (word : Word) : '\\' ∉ word.text := fun among =>
  nomatch List.all_eq_true.mp word.parts _ among

theorem nameSegments_path (name : WrittenName) :
    nameSegments name.path = name.words.map Word.value := by
  have apart : ∀ segment ∈ name.words.map Word.text, '\\' ∉ segment :=
    List.forall_mem_map.mpr fun word _ => not_mem_word word
  have full : (name.words.map Word.text).filter (fun segment => decide (segment ≠ [])) =
      name.words.map Word.text := by
    refine List.filter_eq_self.mpr (List.forall_mem_map.mpr fun word _ => ?_)
    obtain ⟨c, more, spelled, -⟩ := word.exists_cons
    simp [spelled]
  rw [nameSegments, path_eq_intercalate, List.splitOn_intercalate _ apart (by simp [words]), full,
    List.map_map]
  rfl

theorem joinSegments_words (name : WrittenName) :
    joinSegments (name.words.map Word.value) = name.stem := by
  have spelled : String.toList ∘ Word.value = Word.text := funext fun _ => String.toList_ofList
  apply String.toList_injective
  rw [joinSegments, String.toList_intercalate, List.map_map, spelled, stem, path_eq_intercalate]
  exact String.toList_ofList.symm

/-- The name begins with the word for the namespace around it only if its first segment is that
word. -/
theorem not_relative (absolute : foldCase name.first.value ≠ "namespace") :
    (name.path.take relativeMarker.length).map Char.toLower ≠ relativeMarker := by
  intro marked
  apply absolute
  have lower : name.path.map Char.toLower =
      relativeMarker ++ (name.path.drop relativeMarker.length).map Char.toLower := by
    rw [← marked, ← List.map_append, marked, List.take_append_drop]
  have first : name.path.takeWhile (· ≠ '\\') = name.first.text := by
    refine takeWhile_append_stop (fun c among => ?_) ?_
    · rw [decide_eq_true_eq]
      rintro rfl
      exact not_mem_word _ among
    · cases name.more with
      | nil => rintro _ ⟨⟩
      | cons next more =>
          rintro _ ⟨⟩
          rfl
  have begins : (name.path.map Char.toLower).takeWhile (· ≠ '\\') =
      name.first.text.map Char.toLower := by
    have same : (fun c => decide (c ≠ '\\')) ∘ Char.toLower = fun c => decide (c ≠ '\\') := by
      funext c
      simp [toLower_eq_separator]
    rw [List.takeWhile_map, same, first]
  rw [lower] at begins
  rw [foldCase, Word.value, String.toList_ofList, ← begins]
  rfl

theorem contains_separator_path (name : WrittenName) :
    name.path.contains '\\' = !name.more.isEmpty := by
  rw [Bool.eq_iff_iff, List.contains_iff_mem, path, List.mem_append]
  cases name.more <;> simp [not_mem_word]

theorem parse_unrooted (unrooted : name.rooted = false)
    (absolute : foldCase name.first.value ≠ "namespace") :
    QualifiedName.parse name.value =
      ⟨if name.more = [] then .unqualified else .qualified, name.words.map Word.value⟩ := by
  have spelled : name.value.toList = name.path := by
    simp [value, text, unrooted]
  have head : name.path.head? ≠ some '\\' := by
    simpa using name.head?_path_append []
  rw [QualifiedName.parse_of_head_ne (spelled ▸ head), spelled, if_neg (not_relative absolute),
    nameSegments_path]
  rw [contains_separator_path]
  cases name.more <;> rfl

/-- Where nothing is imported, in the global namespace, the name means itself. -/
theorem classNamed_global (unrooted : name.rooted = false)
    (absolute : foldCase name.first.value ≠ "namespace")
    (plain : isSpecialClass name.value = false) :
    Resolver.classNamed ⟨"", {}⟩ name.value = name.value := by
  have joined : (⟨if name.more = [] then .unqualified else .qualified,
      name.words.map Word.value⟩ : QualifiedName).joined = name.value := by
    rw [QualifiedName.joined, joinSegments_words, stem, value, text, unrooted]
    rfl
  rw [Resolver.classNamed, plain, if_neg Bool.false_ne_true, parse_unrooted unrooted absolute]
  dsimp only
  by_cases more : name.more = []
  · rw [if_pos more] at joined ⊢
    exact joined
  · rw [if_neg more] at joined ⊢
    exact joined

end WrittenName

namespace TypeName

variable {name : String} {builtin : Bool}

/-- The words that are types of their own. -/
def reservedTypes : List String :=
  "self" :: "parent" :: builtinTypes

theorem exists_written_reserved (among : name ∈ reservedTypes) :
    ∃ written : WrittenName, written.rooted = false ∧ written.value = name ∧
      isTypeName written.kind = true ∧ foldCase name = name := by
  have known : ∀ name ∈ reservedTypes, startsName name.toList = true ∧
      name.toList.all isNamePart = true ∧ isTypeName (nameKind false name) = true ∧
      foldCase name = name := by decide
  obtain ⟨starts, parts, typed, folded⟩ := known name among
  let word : Word := ⟨name.toList, starts, parts⟩
  have value : word.name.value = name := by
    simp [word, Word.name, WrittenName.value, WrittenName.text, WrittenName.path]
  refine ⟨word.name, rfl, value, ?_, folded⟩
  rw [WrittenName.kind, value]
  exact typed

theorem not_reserved {name : WrittenName} {reserved : List String} (unrooted : name.rooted = false)
    (segments : ∀ word ∈ reserved, '\\' ∉ word.toList)
    (own : name.more = [] → foldCase name.value ∉ reserved) : foldCase name.value ∉ reserved := by
  by_cases more : name.more = []
  · exact own more
  · intro among
    apply segments _ among
    obtain ⟨word, others, split⟩ := List.exists_cons_of_ne_nil more
    rw [toList_foldCase, WrittenName.value, String.toList_ofList, WrittenName.text, unrooted,
      List.mem_map]
    exact ⟨'\\', by simp [WrittenName.path, split], rfl⟩

/-- As it is written, the name is taken for a type, and it means itself where nothing is
imported. -/
theorem exists_written (valid : TypeName name builtin) :
    ∃ written : WrittenName, written.rooted = false ∧ written.value = name ∧
      isTypeName written.kind = true ∧
      DeclaredType.ofName ⟨"", {}⟩ name = .named name builtin := by
  cases valid with
  | builtin among =>
      obtain ⟨written, unrooted, value, typed, folded⟩ := exists_written_reserved
        (List.mem_cons_of_mem "self" (List.mem_cons_of_mem "parent" among))
      refine ⟨written, unrooted, value, typed, ?_⟩
      rw [DeclaredType.ofName, folded]
      exact if_pos (List.contains_iff_mem.mpr among)
  | special among =>
      have reserved : name ∈ reservedTypes := by
        obtain rfl | rfl := among <;> simp [reservedTypes]
      obtain ⟨written, unrooted, value, typed, -⟩ := exists_written_reserved reserved
      refine ⟨written, unrooted, value, typed, ?_⟩
      obtain rfl | rfl := among <;> rfl
  | @declared name unrooted absolute own =>
      have typed : isTypeName name.kind = true := by
        rw [WrittenName.kind, WrittenName.isQualified, unrooted, nameKind]
        cases more : name.more with
        | nil => simp [(own more).1, isTypeName]
        | cons => rfl
      have declared : foldCase name.value ∉ builtinTypes :=
        not_reserved unrooted (by decide) fun more => (own more).2.1
      have plain : isSpecialClass name.value = false := by
        have other : foldCase name.value ∉ ["self", "parent", "static"] :=
          not_reserved unrooted (by decide) fun more => by
            simpa [isSpecialClass] using (own more).2.2
        simpa [isSpecialClass] using other
      refine ⟨name, unrooted, rfl, typed, ?_⟩
      rw [DeclaredType.ofName, if_neg (by simpa using declared), plain, if_neg Bool.false_ne_true,
        name.classNamed_global unrooted absolute plain]

end TypeName

/-! Texts. -/

/-- The token of a name. -/
def nameMark (name : String) : Mark :=
  ⟨nameKind (name.toList.contains '\\') name, name, []⟩

theorem WrittenName.mark_unrooted {name : WrittenName} (unrooted : name.rooted = false) :
    name.mark = nameMark name.value := by
  have spelled : name.value.toList = name.path := by
    simp [value, text, unrooted]
  rw [mark, nameMark, spelled, contains_separator_path, kind, isQualified, unrooted, Bool.false_or]

/-- The text is read as the tokens, wherever a name can end after it. -/
structure ReadsAsType (text : Text) (marks : List Mark) : Prop where
  begins : ∃ c more, text = c :: more ∧ (c = '(' ∨ isNameStart c = true)
  plain : '>' ∉ text
  reads : ∀ {rest : Text} {others : List Mark}, (∀ c ∈ rest.head?, endsName c = true) →
    ReadsAs rest others → ReadsAs (text ++ rest) (marks ++ others)

/-- The signs of types. -/
def typeSigns : List TokenKind :=
  [.question, .bar, .ampersand]

theorem stands_typeSign {kind : TokenKind} (sign : kind ∈ typeSigns) {c : Char}
    (begins : c = '(' ∨ isNameStart c = true) : stands (spelling kind) (some c) = true := by
  have other : c ∉ ['?', '>', '-', '|', '=', '&'] := by
    obtain rfl | start := begins
    · decide
    · exact not_mem_of_class start (by decide)
  have signs : (spelling .question = ['?'] ∧ prolongs ['?'] = ['?', '-', '?']) ∧
      (spelling .bar = ['|'] ∧ prolongs ['|'] = ['|', '=']) ∧
      spelling .ampersand = ['&'] ∧ prolongs ['&'] = ['&', '='] := by decide
  simp only [List.mem_cons, List.not_mem_nil, or_false, not_or] at other
  simp only [typeSigns, List.mem_cons, List.not_mem_nil, or_false] at sign
  obtain rfl | rfl | rfl := sign <;> simp [stands, signs, signStarts, other]

/-- A sign before a type is a token of its own. -/
theorem ReadsAs.typeSign (kind : TokenKind) (sign : kind ∈ typeSigns) {text : Text}
    {marks : List Mark} (begins : ∃ c more, text = c :: more ∧ (c = '(' ∨ isNameStart c = true))
    (reads : ReadsAs text marks) :
    ReadsAs (spelling kind ++ text) (⟨kind, "", []⟩ :: marks) := by
  have known : ∀ kind ∈ typeSigns,
      punctuation? (spelling kind) = some (kind, (spelling kind).length) := by decide
  have alone : stands (spelling kind) text.head? = true := by
    obtain ⟨c, more, rfl, begins⟩ := begins
    exact stands_typeSign sign begins
  obtain ⟨lexed, front⟩ := lexed_of_stands (known kind sign) alone
  exact reads.token _ front lexed.mark lexed.length lexed.problem

namespace ReadsAsType

theorem begins_append {text : Text} {marks : List Mark} (first : ReadsAsType text marks)
    (rest : Text) : ∃ c more, text ++ rest = c :: more ∧ (c = '(' ∨ isNameStart c = true) := by
  obtain ⟨c, more, rfl, begins⟩ := first.begins
  exact ⟨c, more ++ rest, rfl, begins⟩

theorem name {name : WrittenName} (unrooted : name.rooted = false) :
    ReadsAsType name.text [name.mark] where
  begins := by
    obtain ⟨c, more, spelled, start⟩ := name.first.exists_cons
    refine ⟨c, more ++ furtherText name.more, ?_, .inr start⟩
    simp [WrittenName.text, WrittenName.path, unrooted, spelled]
  plain := name.not_mem_text
  reads ends reads := by simpa using reads.name name ends

/-- Parts with a sign between them. -/
theorem chain {ι : Type} {text : ι → Text} {marks : ι → List Mark} {kind : TokenKind}
    (sign : kind ∈ [.bar, .ampersand]) {first : ι} {more : List ι}
    (parts : ∀ part ∈ first :: more, ReadsAsType (text part) (marks part)) :
    ReadsAsType ((spelling kind).intercalate ((first :: more).map text))
      ([⟨kind, "", []⟩].intercalate ((first :: more).map marks)) := by
  have known : ∀ kind ∈ [TokenKind.bar, .ampersand], kind ∈ typeSigns ∧ '>' ∉ spelling kind ∧
      (spelling kind).head?.all endsName = true ∧ spelling kind ≠ [] := by decide
  obtain ⟨among, plainSign, endsSign, spelled⟩ := known kind sign
  induction more generalizing first with
  | nil => simpa using parts first List.mem_cons_self
  | cons next more ih =>
      rw [List.forall_mem_cons] at parts
      have others := ih parts.2
      have text_eq : (spelling kind).intercalate ((first :: next :: more).map text) =
          text first ++ (spelling kind ++
            (spelling kind).intercalate ((next :: more).map text)) := by
        simp [List.intercalate]
      have marks_eq : [⟨kind, "", []⟩].intercalate ((first :: next :: more).map marks) =
          marks first ++ ⟨kind, "", []⟩ ::
            [⟨kind, "", []⟩].intercalate ((next :: more).map marks) := by
        simp [List.intercalate]
      rw [text_eq, marks_eq]
      refine ⟨parts.1.begins_append _, ?_, fun {rest marks} ends reads => ?_⟩
      · rw [List.mem_append, List.mem_append, not_or, not_or]
        exact ⟨parts.1.plain, plainSign, others.plain⟩
      · have signed := (others.reads ends reads).typeSign kind among (others.begins_append rest)
        have stop : ∀ c ∈ (spelling kind ++ ((spelling kind).intercalate
            ((next :: more).map text) ++ rest)).head?, endsName c = true := by
          obtain ⟨c, text, spelled⟩ := List.exists_cons_of_ne_nil spelled
          rw [spelled] at endsSign ⊢
          simpa using endsSign
        simpa using parts.1.reads stop signed

theorem parenthesized {text : Text} {marks : List Mark} (inner : ReadsAsType text marks)
    (noCast : ∀ rest, lexCast? ('(' :: (text ++ ')' :: rest)) = none) :
    ReadsAsType ('(' :: (text ++ [')']))
      (⟨.openParen, "", []⟩ :: (marks ++ [⟨.closeParen, "", []⟩])) where
  begins := ⟨'(', _, rfl, .inl rfl⟩
  plain := by simp [inner.plain]
  reads {rest others} _ reads := by
    have closed := reads.sign .closeParen (by decide) (by decide)
    have body := inner.reads (by rintro c ⟨⟩; decide) closed
    have before : (Piece.sign .openParen).Before (text ++ ')' :: rest) :=
      ⟨rfl, fun _ => noCast rest⟩
    simpa [Piece.text] using body.piece _ before

end ReadsAsType

/-- The node that is added is the last one. -/
theorem Parse.Yields.addsLast {s : ParseState} {node : Node} {pos : Nat}
    {Q : NodeId → Arena → Prop}
    (outcome : ∀ arena, s.arena.Extends arena → arena.node? s.arena.size = some node →
      Q s.arena.size arena) : (Parse.addNode node pos).Yields s [] Q where
  passes := { ParseState.Passes.refl s with arena := s.arena.extends_add node _ }
  outcome := outcome _ (s.arena.extends_add node _) (s.arena.node?_add_size node _)

namespace DeclaredType

/-- The tokens of a type that is a name. -/
def nameMarks : DeclaredType → List Mark
  | .named name _ => [nameMark name]
  | _ => []

def intersectionMarks (members : List DeclaredType) : List Mark :=
  [⟨.ampersand, "", []⟩].intercalate (members.map nameMarks)

/-- The tokens of a member of a union. -/
def memberMarks : DeclaredType → List Mark
  | .intersection members =>
      ⟨.openParen, "", []⟩ :: (intersectionMarks members ++ [⟨.closeParen, "", []⟩])
  | type => type.nameMarks

/-- The tokens of a type. -/
def marks : DeclaredType → List Mark
  | .nullable inner => ⟨.question, "", []⟩ :: inner.nameMarks
  | .union members => [⟨.bar, "", []⟩].intercalate (members.map memberMarks)
  | .intersection members => intersectionMarks members
  | type => type.nameMarks

/-- A member of a union as it is written. -/
def memberText : DeclaredType → Text
  | .intersection members => '(' :: ((intersection members).render.toList ++ [')'])
  | type => type.render.toList

theorem renderAll_eq (members : List DeclaredType) : renderAll members = members.map render := by
  induction members with
  | nil => rfl
  | cons member members ih => rw [renderAll, ih, List.map_cons]

theorem toList_render_intersection (members : List DeclaredType) :
    (intersection members).render.toList =
      (spelling .ampersand).intercalate (members.map fun member => member.render.toList) := by
  have sign : spelling .ampersand = "&".toList := by decide
  rw [render, renderAll_eq, String.toList_intercalate, List.map_map, sign]
  rfl

theorem toList_render_union (members : List DeclaredType) :
    (union members).render.toList = (spelling .bar).intercalate (members.map memberText) := by
  have sign : spelling .bar = "|".toList := by decide
  have each : (renderMembers members).map String.toList = members.map memberText := by
    induction members with
    | nil => rfl
    | cons member members ih =>
        rw [renderMembers, List.map_cons, ih, List.map_cons]
        cases member <;> simp [isIntersection, memberText]
  rw [render, String.toList_intercalate, each, sign]

theorem IsName.exists_written {type : DeclaredType} (isName : type.IsName) :
    ∃ (written : WrittenName) (builtin : Bool), written.rooted = false ∧
      type = .named written.value builtin ∧ isTypeName written.kind = true ∧
      ofName ⟨"", {}⟩ written.value = type := by
  obtain ⟨valid⟩ := isName
  obtain ⟨written, unrooted, rfl, typed, means⟩ := valid.exists_written
  exact ⟨written, _, unrooted, rfl, typed, means⟩

theorem IsName.readsAsType {type : DeclaredType} (isName : type.IsName) :
    ReadsAsType type.render.toList type.nameMarks := by
  obtain ⟨written, builtin, unrooted, rfl, -, -⟩ := isName.exists_written
  have spelled : (DeclaredType.named written.value builtin).render.toList = written.text := by
    simp [render, WrittenName.value]
  rw [spelled, nameMarks, ← WrittenName.mark_unrooted unrooted]
  exact .name unrooted

theorem intersection_readsAsType {members : List DeclaredType} (several : 2 ≤ members.length)
    (names : ∀ member ∈ members, member.IsName) :
    ReadsAsType (intersection members).render.toList (intersectionMarks members) := by
  match members, several with
  | first :: second :: more, _ =>
      rw [toList_render_intersection]
      exact .chain (by decide) fun member among => (names member among).readsAsType

/-- An intersection in parentheses begins no cast. -/
theorem lexCast?_intersection {members : List DeclaredType} (several : 2 ≤ members.length)
    (names : ∀ member ∈ members, member.IsName) (rest : Text) :
    lexCast? ('(' :: ((intersection members).render.toList ++ ')' :: rest)) = none := by
  match members, several with
  | first :: second :: more, _ =>
      obtain ⟨written, builtin, unrooted, rfl, -, -⟩ :=
        (names first List.mem_cons_self).exists_written
      have sign : spelling .ampersand = ['&'] := by decide
      obtain ⟨others, split⟩ : ∃ others,
          (intersection (named written.value builtin :: second :: more)).render.toList ++
            ')' :: rest = written.first.text ++ (furtherText written.more ++ '&' :: others) := by
        rw [toList_render_intersection, sign]
        refine ⟨['&'].intercalate ((second :: more).map fun member => member.render.toList) ++
          ')' :: rest, ?_⟩
        simp [List.intercalate, render, WrittenName.value, WrittenName.text, unrooted,
          WrittenName.path]
      rw [split]
      apply lexCast?_of_word 0
      · cases written.more with
        | nil => rintro c ⟨⟩; rfl
        | cons next others => rintro c ⟨⟩; rfl
      · right
        cases written.more <;> simp [isIndent]

theorem IsMember.readsAsType {type : DeclaredType} (isMember : type.IsMember) :
    ReadsAsType type.memberText type.memberMarks := by
  cases isMember with
  | name isName =>
      have reads := isName.readsAsType
      cases isName
      exact reads
  | intersection several names =>
      exact (intersection_readsAsType several names).parenthesized
        (lexCast?_intersection several names)

theorem WellFormed.readsAsType {type : DeclaredType} (formed : type.WellFormed) :
    ReadsAsType type.render.toList type.marks ∨
      ∃ inner, type = .nullable inner ∧ inner.IsName := by
  cases formed with
  | member isMember =>
      left
      cases isMember with
      | name isName =>
          have reads := isName.readsAsType
          cases isName
          exact reads
      | intersection several names => exact intersection_readsAsType several names
  | nullable isName => exact .inr ⟨_, rfl, isName⟩
  | @union members several areMembers =>
      left
      match members, several with
      | first :: second :: more, _ =>
          rw [toList_render_union]
          exact .chain (by decide) fun member among => (areMembers member among).readsAsType

theorem toList_render_nullable (inner : DeclaredType) :
    (nullable inner).render.toList = spelling .question ++ inner.render.toList := by
  have sign : spelling .question = "?".toList := by decide
  rw [render, String.toList_append, sign]

theorem WellFormed.plain {type : DeclaredType} (formed : type.WellFormed) :
    '>' ∉ type.render.toList := by
  obtain reads | ⟨inner, rfl, isName⟩ := formed.readsAsType
  · exact reads.plain
  · have sign : '>' ∉ spelling .question := by decide
    rw [toList_render_nullable, List.mem_append, not_or]
    exact ⟨sign, isName.readsAsType.plain⟩

/-- Before white space, a type is read as its tokens. -/
theorem WellFormed.reads {type : DeclaredType} (formed : type.WellFormed) {text : Text}
    {others : List Mark} (reads : ReadsAs (' ' :: text) others) :
    ReadsAs (type.render.toList ++ ' ' :: text) (type.marks ++ others) := by
  have ends : ∀ c ∈ (' ' :: text).head?, endsName c = true := by
    rintro c ⟨⟩
    decide
  obtain whole | ⟨inner, rfl, isName⟩ := formed.readsAsType
  · exact whole.reads ends reads
  · have read := isName.readsAsType
    rw [toList_render_nullable, List.append_assoc]
    exact (read.reads ends reads).typeSign .question (by decide) (read.begins_append _)

/-! What a node stands for. -/

theorem mapM_eq_some_iff {α β : Type} {f : α → Option β} {list : List α} {values : List β} :
    list.mapM f = some values ↔ List.Forall₂ (fun a b => f a = some b) list values := by
  induction list generalizing values with
  | nil => simp [eq_comm]
  | cons a list ih =>
      rw [List.mapM_cons, List.forall₂_cons_left_iff]
      simp only [← ih, Option.bind_eq_bind, Option.bind_eq_some_iff, Option.pure_def,
        Option.some.injEq]
      constructor
      · rintro ⟨b, first, others, rest, rfl⟩
        exact ⟨b, others, first, rest, rfl⟩
      · rintro ⟨b, others, first, rest, rfl⟩
        exact ⟨b, first, others, rest, rfl⟩

theorem ofNodeWithin?_succ (arena : Arena) (resolver : Resolver) (fuel : Nat) (id : NodeId) :
    ofNodeWithin? arena resolver (fuel + 1) id =
      match arena.node? id with
      | some (.namedType name) => some (ofName resolver name)
      | some (.nullableType inner) => (ofNodeWithin? arena resolver fuel inner).map .nullable
      | some (.unionType members) =>
          (members.mapM (ofNodeWithin? arena resolver fuel)).map .union
      | some (.intersectionType members) =>
          (members.mapM (ofNodeWithin? arena resolver fuel)).map .intersection
      | _ => none :=
  rfl

theorem ofNodeWithin?_mono {arena larger : Arena} (grows : arena.Extends larger)
    {resolver : Resolver} {fuel more : Nat} (le : fuel ≤ more) {id : NodeId} {type : DeclaredType}
    (found : ofNodeWithin? arena resolver fuel id = some type) :
    ofNodeWithin? larger resolver more id = some type := by
  induction fuel generalizing more id type with
  | zero => cases found
  | succ fuel ih =>
      obtain ⟨more, rfl⟩ : ∃ less, more = less + 1 :=
        Nat.exists_eq_add_one_of_ne_zero (by omega)
      have le : fuel ≤ more := by omega
      have all {ids : List NodeId} {members : List DeclaredType}
          (within : ids.mapM (ofNodeWithin? arena resolver fuel) = some members) :
          ids.mapM (ofNodeWithin? larger resolver more) = some members :=
        mapM_eq_some_iff.mpr ((mapM_eq_some_iff.mp within).imp fun _ _ found => ih le found)
      rw [ofNodeWithin?_succ] at found
      split at found
      · rename_i there
        rw [ofNodeWithin?_succ, grows _ _ there]
        exact found
      · rename_i there
        rw [ofNodeWithin?_succ, grows _ _ there]
        obtain ⟨inner, within, rfl⟩ := Option.map_eq_some_iff.mp found
        exact Option.map_eq_some_iff.mpr ⟨inner, ih le within, rfl⟩
      · rename_i there
        rw [ofNodeWithin?_succ, grows _ _ there]
        obtain ⟨members, within, rfl⟩ := Option.map_eq_some_iff.mp found
        exact Option.map_eq_some_iff.mpr ⟨members, all within, rfl⟩
      · rename_i there
        rw [ofNodeWithin?_succ, grows _ _ there]
        obtain ⟨members, within, rfl⟩ := Option.map_eq_some_iff.mp found
        exact Option.map_eq_some_iff.mpr ⟨members, all within, rfl⟩
      · cases found

/-- The node of the arena stands for the type. -/
def Denoted (resolver : Resolver) (type : DeclaredType) (id : NodeId) (arena : Arena) : Prop :=
  ofNode? arena resolver (some id) = some type

section Denoted

variable {resolver : Resolver} {type : DeclaredType} {id : NodeId} {arena larger : Arena}

theorem lasting_denoted (resolver : Resolver) (type : DeclaredType) :
    Lasting (type.Denoted resolver) :=
  fun _ _ _ grows denoted => ofNodeWithin?_mono grows (Nat.le_refl _) denoted

theorem Denoted.lt_size (denoted : type.Denoted resolver id arena) : id < arena.size := by
  change ofNodeWithin? arena resolver (id + 1) id = some type at denoted
  by_contra beyond
  have missing : arena.node? id = none := by
    rw [Arena.node?, Option.map_eq_none_iff]
    exact Array.getElem?_eq_none (Nat.le_of_not_lt beyond)
  rw [ofNodeWithin?_succ, missing] at denoted
  cases denoted

/-- A node that is added refers to nodes that were there. -/
theorem Denoted.within (denoted : type.Denoted resolver id arena) (grows : arena.Extends larger) :
    ofNodeWithin? larger resolver arena.size id = some type :=
  ofNodeWithin?_mono grows denoted.lt_size denoted

theorem denoted_name {name : String} (found : arena.node? id = some (.namedType name)) :
    (ofName resolver name).Denoted resolver id arena := by
  change ofNodeWithin? arena resolver (id + 1) id = _
  rw [ofNodeWithin?_succ, found]

theorem denoted_nullable {inner : DeclaredType} (denoted : inner.Denoted resolver id arena)
    (grows : arena.Extends larger)
    (found : larger.node? arena.size = some (.nullableType id)) :
    (nullable inner).Denoted resolver arena.size larger := by
  change ofNodeWithin? larger resolver (arena.size + 1) arena.size = _
  rw [ofNodeWithin?_succ, found]
  exact Option.map_eq_some_iff.mpr ⟨inner, denoted.within grows, rfl⟩

theorem mapM_denoted {members : List DeclaredType} {ids : List NodeId}
    (denoted : List.Forall₂ (fun member id => member.Denoted resolver id arena) members ids)
    (grows : arena.Extends larger) :
    ids.mapM (ofNodeWithin? larger resolver arena.size) = some members :=
  mapM_eq_some_iff.mpr (denoted.flip.imp fun _ _ denoted => Denoted.within denoted grows)

theorem denoted_union {members : List DeclaredType} {ids : List NodeId}
    (denoted : List.Forall₂ (fun member id => member.Denoted resolver id arena) members ids)
    (grows : arena.Extends larger) (found : larger.node? arena.size = some (.unionType ids)) :
    (union members).Denoted resolver arena.size larger := by
  change ofNodeWithin? larger resolver (arena.size + 1) arena.size = _
  rw [ofNodeWithin?_succ, found]
  exact Option.map_eq_some_iff.mpr ⟨members, mapM_denoted denoted grows, rfl⟩

theorem denoted_intersection {members : List DeclaredType} {ids : List NodeId}
    (denoted : List.Forall₂ (fun member id => member.Denoted resolver id arena) members ids)
    (grows : arena.Extends larger)
    (found : larger.node? arena.size = some (.intersectionType ids)) :
    (intersection members).Denoted resolver arena.size larger := by
  change ofNodeWithin? larger resolver (arena.size + 1) arena.size = _
  rw [ofNodeWithin?_succ, found]
  exact Option.map_eq_some_iff.mpr ⟨members, mapM_denoted denoted grows, rfl⟩

end Denoted

/-! Parsing. -/

section Parsing

variable {s : ParseState} {depth : Nat} {mark : Mark} {after : List Mark}
  {type : DeclaredType} {members : List DeclaredType}

theorem IsName.exists_mark (isName : type.IsName) :
    ∃ mark, type.nameMarks = [mark] ∧ isTypeName mark.kind = true ∧
      ofName ⟨"", {}⟩ mark.value = type := by
  obtain ⟨written, builtin, unrooted, rfl, typed, means⟩ := isName.exists_written
  refine ⟨written.mark, ?_, typed, means⟩
  rw [nameMarks, WrittenName.mark_unrooted unrooted]

theorem IsName.namedType_yields (isName : type.IsName)
    (here : s.At depth (type.nameMarks ++ mark :: after)) :
    namedType.Yields s type.nameMarks (type.Denoted ⟨"", {}⟩) := by
  obtain ⟨name, single, typed, means⟩ := isName.exists_mark
  rw [single] at here ⊢
  refine (StaticReflection.namedType_yields typed here).mono fun id arena found => ?_
  rw [← means]
  exact denoted_name found

theorem IsName.intersectionType_yields (isName : type.IsName) (ends : mark.kind ≠ .ampersand)
    (here : s.At depth (type.nameMarks ++ mark :: after)) :
    intersectionType.Yields s type.nameMarks (type.Denoted ⟨"", {}⟩) := by
  obtain ⟨name, single, typed, means⟩ := isName.exists_mark
  rw [single] at here ⊢
  refine (StaticReflection.intersectionType_yields typed ends here).mono fun id arena found => ?_
  rw [← means]
  exact denoted_name found

/-- A loop over members with a sign before each. -/
theorem members_yields {sign : TokenKind} {marks : DeclaredType → List Mark}
    (ends : TokenKind → Prop) {step : List NodeId → Parse (List NodeId × Bool)}
    (each : ∀ member ∈ members, ∀ ids {s : ParseState} {next : Mark} {rest : List Mark},
      ends next.kind → s.At depth (⟨sign, "", []⟩ :: (marks member ++ next :: rest)) →
      (step ids).Yields s (⟨sign, "", []⟩ :: marks member) fun out arena => out.2 = true ∧
        ∃ id, out.1 = ids ++ [id] ∧ member.Denoted ⟨"", {}⟩ id arena)
    (stop : ∀ ids {s : ParseState}, s.At depth (mark :: after) →
      (step ids).Yields s [] fun out _ => out = (ids, false))
    (goesOn : ends sign) (stops : ends mark.kind) (ids : List NodeId)
    (here : s.At depth (members.flatMap (fun member => ⟨sign, "", []⟩ :: marks member) ++
      mark :: after)) :
    (untilDone ids step).Yields s (members.flatMap fun member => ⟨sign, "", []⟩ :: marks member)
      fun out arena => ∃ more, out = ids ++ more ∧
        List.Forall₂ (fun member id => member.Denoted ⟨"", {}⟩ id arena) members more := by
  induction members generalizing s ids with
  | nil =>
      refine .done ((stop ids here).mono ?_)
      rintro _ arena rfl
      exact ⟨rfl, [], (List.append_nil ids).symm, .nil⟩
  | cons member members ih =>
      rw [List.forall_mem_cons] at each
      rw [List.flatMap_cons, List.append_assoc] at here
      obtain ⟨next, rest, following, ends⟩ : ∃ next rest, members.flatMap
          (fun member => ⟨sign, "", []⟩ :: marks member) ++ mark :: after = next :: rest ∧
          ends next.kind := by
        cases members with
        | nil => exact ⟨_, _, rfl, stops⟩
        | cons second members => exact ⟨_, _, rfl, goesOn⟩
      have one := each.1 ids ends (following ▸ here)
      obtain ⟨-, id, found, denoted⟩ := one.outcome
      have rest := ih each.2 (ids ++ [id]) (here.after one.passes)
      obtain ⟨more, same, others⟩ := rest.outcome
      rw [List.flatMap_cons]
      refine .more (one.mono fun _ _ outcome => outcome.1) (by simp) ?_
      rw [found]
      refine ⟨rest.passes, id :: more, by rw [same]; simp, .cons ?_ others⟩
      exact lasting_denoted _ _ _ _ _ rest.passes.arena denoted

/-- Parts with a sign between them are the first one and the others with a sign before each. -/
theorem intercalate_map_cons {ι α : Type} (sign : α) (part : ι → List α) (first : ι)
    (more : List ι) : [sign].intercalate ((first :: more).map part) =
      part first ++ more.flatMap fun other => sign :: part other := by
  induction more generalizing first with
  | nil => simp
  | cons next more ih =>
      have onward : [sign].intercalate ((first :: next :: more).map part) =
          part first ++ sign :: [sign].intercalate ((next :: more).map part) := by
        simp [List.intercalate]
      rw [onward, ih, List.flatMap_cons, List.cons_append]

theorem continuesIntersection_at {name : Mark} (typed : isTypeName name.kind = true)
    (here : s.At depth (⟨.ampersand, "", []⟩ :: name :: after)) :
    continuesIntersection s.cursor = true := by
  rw [continuesIntersection, here.kind, here.peek]
  revert typed
  cases name.kind <;>
    first | exact fun _ => rfl | exact fun typed => absurd typed (by decide)

theorem intersection_yields (several : 2 ≤ members.length)
    (names : ∀ member ∈ members, member.IsName) (ends : mark.kind ≠ .ampersand)
    (here : s.At depth (intersectionMarks members ++ mark :: after)) :
    intersectionType.Yields s (intersectionMarks members)
      ((intersection members).Denoted ⟨"", {}⟩) := by
  match members, several with
  | first :: second :: more, _ =>
      rw [List.forall_mem_cons] at names
      rw [intersectionMarks, intercalate_map_cons] at here ⊢
      rw [List.append_assoc] at here
      refine .position ((names.1.namedType_yields here).bind fun id t passes denoted => ?_)
      have there := here.after passes
      have goes : continuesIntersection t.cursor = true := by
        obtain ⟨name, single, typed, -⟩ := (names.2 second List.mem_cons_self).exists_mark
        rw [List.flatMap_cons, single] at there
        exact continuesIntersection_at typed there
      refine .ahead? goes ?_
      refine (members_yields (fun _ => True) ?_ ?_ trivial trivial [id] there).andThen ?_
      · intro member among ids s next rest _ here
        obtain ⟨name, single, typed, -⟩ := (names.2 member among).exists_mark
        have goes : continuesIntersection s.cursor = true := by
          rw [single] at here
          exact continuesIntersection_at typed here
        refine .ahead? goes (.advance here (by simp) fun _ there => ?_)
        refine ((names.2 member among).namedType_yields there).andThen fun id t _ denoted => ?_
        exact .pure ⟨rfl, id, rfl, denoted⟩
      · intro ids s here
        have done : continuesIntersection s.cursor = false := by
          rw [continuesIntersection, here.kind, beq_eq_false_iff_ne.mpr ends]
          rfl
        exact .ahead? done (.pure rfl)
      · rintro _ u listed ⟨ids, rfl, others⟩
        refine .addsLast fun arena grows found => ?_
        have first := lasting_denoted _ _ _ _ _ listed.arena denoted
        exact denoted_intersection (.cons first others) grows found

/-- A type that is no union begins with a name. -/
theorem IsMember.exists_front (isMember : type.IsMember) :
    ∃ front others, type.marks = front :: others ∧ isTypeName front.kind = true := by
  have named {name : DeclaredType} (isName : name.IsName) (rest : List Mark) :
      ∃ front others, name.nameMarks ++ rest = front :: others ∧ isTypeName front.kind = true := by
    obtain ⟨mark, single, typed, -⟩ := isName.exists_mark
    exact ⟨mark, rest, by rw [single]; rfl, typed⟩
  cases isMember with
  | name isName =>
      have begins := named isName []
      rw [List.append_nil] at begins
      cases isName
      exact begins
  | @intersection members several names =>
      match members, several with
      | first :: second :: more, _ =>
          rw [marks, intersectionMarks, intercalate_map_cons]
          exact named (names first List.mem_cons_self) _

theorem ne_of_isTypeName {kind other : TokenKind} (typed : isTypeName kind = true)
    (untyped : isTypeName other = false) : kind ≠ other := by
  rintro rfl
  cases typed.symm.trans untyped

theorem IsMember.intersectionType_yields (isMember : type.IsMember) (ends : mark.kind ≠ .ampersand)
    (here : s.At depth (type.marks ++ mark :: after)) :
    intersectionType.Yields s type.marks (type.Denoted ⟨"", {}⟩) := by
  cases isMember with
  | name isName =>
      obtain ⟨valid⟩ := isName
      exact (IsName.named valid).intersectionType_yields ends here
  | intersection several names => exact intersection_yields several names ends here

/-- A type that is no union, in parentheses or without them. -/
theorem IsMember.parenthesized_yields (isMember : type.IsMember) (ends : mark.kind ≠ .ampersand)
    (count : Nat) (here : s.At depth (List.replicate count ⟨.openParen, "", []⟩ ++ (type.marks ++
      (List.replicate count ⟨.closeParen, "", []⟩ ++ mark :: after)))) :
    unionMember.Yields s (List.replicate count ⟨.openParen, "", []⟩ ++ (type.marks ++
      List.replicate count ⟨.closeParen, "", []⟩)) (type.Denoted ⟨"", {}⟩) := by
  have inner {t : ParseState} {next : Mark} {rest : List Mark} (ends : next.kind ≠ .ampersand)
      (there : t.At depth (type.marks ++ next :: rest)) :
      intersectionType.Yields t type.marks (type.Denoted ⟨"", {}⟩) :=
    isMember.intersectionType_yields ends there
  obtain ⟨front, others, begins, typed⟩ := isMember.exists_front
  rw [begins] at here inner ⊢
  exact unionMember_yields (lasting_denoted _ _) (ne_of_isTypeName typed rfl) ends inner here

theorem IsMember.unionMember_yields (isMember : type.IsMember) (ends : mark.kind ≠ .ampersand)
    (here : s.At depth (type.memberMarks ++ mark :: after)) :
    unionMember.Yields s type.memberMarks (type.Denoted ⟨"", {}⟩) := by
  cases isMember with
  | name isName =>
      obtain ⟨valid⟩ := isName
      have bare := (IsMember.name (.named valid)).parenthesized_yields ends 0 here
      rw [List.replicate_zero, List.replicate_zero, List.append_nil, List.nil_append] at bare
      exact bare
  | @intersection members several names =>
      have enclosed := (IsMember.intersection several names).parenthesized_yields ends 1
        (by simpa [memberMarks, marks] using here)
      simpa [memberMarks, marks] using enclosed

theorem IsMember.kind_ne (isMember : type.IsMember)
    (here : s.At depth (type.memberMarks ++ after)) : s.cursor.kind ≠ .question := by
  cases isMember with
  | name isName =>
      obtain ⟨mark, single, typed, -⟩ := isName.exists_mark
      obtain ⟨valid⟩ := isName
      rw [memberMarks] at here
      · rw [single] at here
        rw [At.kind here]
        exact ne_of_isTypeName typed rfl
      · nofun
  | intersection several names =>
      rw [At.kind here]
      nofun

theorem WellFormed.type_yields (formed : type.WellFormed) (ends : endsType mark.kind)
    (here : s.At depth (type.marks ++ mark :: after)) :
    Grammar.type.Yields s type.marks (type.Denoted ⟨"", {}⟩) := by
  cases formed with
  | member isMember =>
      obtain ⟨front, others, begins, typed⟩ := isMember.exists_front
      have unasked : s.cursor.kind ≠ .question := by
        have begun := here
        rw [begins] at begun
        rw [begun.kind]
        exact ne_of_isTypeName typed rfl
      have member := isMember.parenthesized_yields ends.1 0 (by simpa using here)
      exact type_of_unionMember unasked ends.2 (by simpa using member) here
  | @nullable inner isName =>
      refine .position (.accept here rfl (by simp) fun _ there => ?_)
      refine (isName.namedType_yields there).andThen fun id t _ denoted => ?_
      exact .addsLast fun arena grows found => denoted_nullable denoted grows found
  | @union members several areMembers =>
      match members, several with
      | first :: second :: more, _ =>
          rw [List.forall_mem_cons] at areMembers
          rw [marks, intercalate_map_cons] at here ⊢
          rw [List.append_assoc] at here
          have unasked := areMembers.1.kind_ne here
          have one := areMembers.1.unionMember_yields (by decide) here
          refine .position (.look (accept_of_ne unasked) (one.bind fun id t passes denoted => ?_))
          have there := here.after passes
          refine .at? there ?_
          refine (members_yields (· ≠ .ampersand) ?_ ?_ (by decide) ends.1 [id] there).andThen ?_
          · intro member among ids s next rest ends here
            refine .accept here rfl (by simp) fun _ there => ?_
            refine ((areMembers.2 member among).unionMember_yields ends there).andThen ?_
            exact fun id t _ denoted => .pure ⟨rfl, id, rfl, denoted⟩
          · exact fun ids s here => .acceptOther here ends.2 (.pure rfl)
          · rintro _ u listed ⟨ids, rfl, others⟩
            refine .addsLast fun arena grows found => ?_
            have first := lasting_denoted _ _ _ _ _ listed.arena denoted
            exact denoted_union (.cons first others) grows found

end Parsing

/-- A function without parameters whose result is of the type. -/
def signature (type : DeclaredType) : Signature where
  name := "f"
  parameters := []
  result := ⟨.colon, "", []⟩ :: type.marks
  Takes ids _ := ids = []
  Gives id arena := ∃ node, id = some node ∧ type.Denoted ⟨"", {}⟩ node arena

theorem WellFormed.signature_parses {type : DeclaredType} (formed : type.WellFormed) :
    type.signature.Parses where
  takes_later _ none := none
  gives_later := by
    rintro _ arena larger grows ⟨node, rfl, denoted⟩
    exact ⟨node, rfl, lasting_denoted _ _ _ _ _ grows denoted⟩
  parameters here := parameterList_empty here
  result here :=
    .accept here rfl (by simp) fun _ there =>
      .andThen (formed.type_yields (by exact ⟨nofun, nofun⟩) there) fun node _ _ denoted =>
        .pure ⟨node, rfl, denoted⟩

/-- The text of the function after the opening tag. -/
theorem WellFormed.signature_reads {type : DeclaredType} (formed : type.WellFormed) :
    ReadsAs ("function f(): ".toList ++ (type.render.toList ++ " \x7b\x7d".toList))
      (type.signature.marks ++ [⟨.endOfFile, "", []⟩]) := by
  have noCast (text : Text) : lexCast? ('(' :: ')' :: text) = none :=
    lexCast?_of_head 0 (by rintro c ⟨⟩; decide)
  have result := (formed.reads readsAs_emptyBody).blank.piece (.sign .colon) ⟨rfl, nofun⟩
  have closed := result.piece (.sign .closeParen) ⟨rfl, nofun⟩
  have opened := closed.piece (.sign .openParen) ⟨rfl, fun _ => noCast _⟩
  have named := opened.piece (.word functionName) ⟨rfl, nofun⟩
  have whole := named.blank.piece (.word functionWord) ⟨rfl, nofun⟩
  have front : "function f(): ".toList = functionWord.text ++ ' ' :: (functionName.text ++
      ['(', ')', ':', ' ']) := by decide
  have words : Piece.mark (.word functionWord) = ⟨.functionKw, "function", []⟩ ∧
      Piece.mark (.word functionName) = ⟨.identifier, "f", []⟩ := by decide
  rw [front]
  simpa [words, Piece.text, signature, Signature.marks] using whole

end DeclaredType

/-- A rendered type that can be declared, as the result of a function, is reflected as that very
type. -/
theorem rendered_types_are_reflected (options : Options) (locator : Locator) (disk : Disk)
    (path : String) {type : DeclaredType} (formed : type.WellFormed) :
    let text := ("<?php function f(): " ++ type.render ++ " \x7b\x7d").toList
    let reflected : Query FunctionInfo := do
      let _ ← Query.text path text
      Query.functionNamed "f"
    (SourceFile.parse path text).diagnostics = [] ∧
      ∃ info, reflected.result (.new options locator { disk }) = .ok info ∧
        info.returnType = some type := by
  intro text reflected
  have spelled : text = openTag ++ ([] ++
      ("function f(): ".toList ++ (type.render.toList ++ " \x7b\x7d".toList))) := by
    have opening : "<?php function f(): ".toList = openTag ++ "function f(): ".toList := by decide
    simp only [text, String.toList_append, opening, List.append_assoc, List.nil_append]
  have plain : '>' ∉ "function f(): ".toList ++ (type.render.toList ++ " \x7b\x7d".toList) := by
    simp [formed.plain]
  have parsed (path : String) : ∃ block, (SourceFile.parse path text).Consists ""
      (Heading.phrases {} ++ [type.signature.phrase]) block := by
    rw [spelled]
    have parses := Signature.phrase_parses formed.signature_parses
    exact Heading.parse_last {} path .nil parses rfl plain formed.signature_reads
  obtain ⟨_, clean, -⟩ := parsed path
  obtain ⟨block, consists⟩ := parsed (disk.canonical path)
  obtain ⟨loaded, known⟩ := Query.text_alone options locator disk path consists.1
  have named : type.signature.name ≠ "" := by
    change "f" ≠ ""
    decide
  obtain ⟨resolves, id, decl, found, describes⟩ := Heading.function?_last {} named consists
  obtain ⟨node, result, denoted⟩ := describes.gives
  have index := (congrArg (·.function? "f") known).trans found
  have answered := Query.functionNamed_eq_ok_iff.mpr index
  refine ⟨clean, _, (Query.result_bind_ok loaded _).trans answered, ?_⟩
  change Scope.type? _ decl.returnType = some type
  rw [result, Scope.type?, resolves]
  exact denoted

/-- A union of an intersection, in which a reserved word is a segment of a name, and of two names
with a meaning of their own. -/
def DeclaredType.sample : DeclaredType :=
  .union [.intersection [.named "int" true, .named "A\\list" false], .named "self" false,
    .named "static" true]

theorem DeclaredType.wellFormed_sample : sample.WellFormed := by
  let segment : Word := ⟨['l', 'i', 's', 't'], by decide, by decide⟩
  let name : WrittenName := ⟨false, ⟨['A'], by decide, by decide⟩, [segment]⟩
  have builtin {name : String} (known : name ∈ builtinTypes) : IsName (.named name true) :=
    .named (.builtin known)
  have declared : IsName (.named "A\\list" false) := by
    have valid : TypeName name.value false := .declared rfl (by decide) nofun
    have value : name.value = "A\\list" := by decide
    exact .named (value ▸ valid)
  refine .union (by decide) ?_
  simp only [List.forall_mem_cons]
  refine ⟨.intersection (by decide) ?_, .name (.named (.special (.inl rfl))),
    .name (builtin (by decide)), nofun⟩
  exact List.forall_mem_cons.mpr ⟨builtin (by decide), List.forall_mem_singleton.mpr declared⟩

theorem rendered_sample_is_reflected :
    let text := ("<?php function f(): " ++ DeclaredType.sample.render ++ " \x7b\x7d").toList
    let reflected : Query FunctionInfo := do
      let _ ← Query.text "a.php" text
      Query.functionNamed "f"
    DeclaredType.sample.WellFormed ∧
    DeclaredType.sample.render = "(int&A\\list)|self|static" ∧
    (SourceFile.parse "a.php" text).diagnostics = [] ∧
      ∃ info, reflected.result (.new {} .nowhere {}) = .ok info ∧
        info.returnType = some DeclaredType.sample :=
  ⟨DeclaredType.wellFormed_sample, by decide,
    rendered_types_are_reflected {} .nowhere {} "a.php" DeclaredType.wellFormed_sample⟩

end StaticReflection
