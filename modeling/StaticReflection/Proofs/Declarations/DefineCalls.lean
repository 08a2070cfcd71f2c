import StaticReflection.Proofs.Evaluation.QuietMode
import StaticReflection.Proofs.Evaluation.RepeatedConstants
import StaticReflection.Proofs.Parser.EqualTrees
import StaticReflection.Proofs.Parser.StatementNodes
import StaticReflection.Proofs.Values.DecimalDigits

namespace StaticReflection

/-! The constants that calls of `define` name. A name that is known without evaluation is the
one that evaluation comes to, however many concatenations it is made of. -/

namespace Utf8

theorem ofString_append (first second : String) :
    ofString (first ++ second) = ofString first ++ ofString second := by
  simp [ofString_eq]

/-- Bytes that are well formed are those of their string. -/
theorem ofString_of_toString? {bytes : List UInt8} {text : String}
    (formed : toString? bytes = some text) : ofString text = bytes := by
  unfold toString? String.fromUTF8? at formed
  split at formed
  · cases formed
    exact ofString_eq _
  · cases formed

end Utf8

theorem Value.text_append (first second : String) :
    Value.text (first ++ second) = .string (Utf8.ofString first ++ Utf8.ofString second) :=
  congrArg Value.string (Utf8.ofString_append first second)

/-- How deep concatenations nest at a node. A node that is none is as deep as any leaf. -/
def Arena.concatDepth (arena : Arena) : Nat → NodeId → Nat
  | 0, _ => 1
  | fuel + 1, node =>
      match arena.node? node with
      | some (.binary .dot left right) =>
          max (arena.concatDepth fuel left) (arena.concatDepth fuel right) + 1
      | _ => 1

namespace Evaluation

open Query

variable {room : Nat} {mode : Mode} {scope : Scope} {node left right : NodeId} {r : Reflector}

/-- A query answers with a text if there is room for a depth, and fails for the lack of room
otherwise. It changes nothing in either case. -/
def Spells (query : Query Value) (r : Reflector) (text : String) (room depth : Nat) : Prop :=
  query r =
    (if depth ≤ room then .ok (.text text)
      else .error (.depthLimit .expression r.options.maxExpressionDepth), r)

theorem evaluate_zero (mode : Mode) (node : NodeId) (r : Reflector) :
    evaluate 0 mode scope node r =
      (.error (.depthLimit .expression r.options.maxExpressionDepth), r) := rfl

theorem evaluate_succ (mode : Mode) (node : NodeId) (r : Reflector) :
    evaluate (room + 1) mode scope node r =
      ((carry room scope (expression scope mode node) r.opened).1,
        (carry room scope (expression scope mode node) r.opened).2.closed) :=
  Prod.ext (result_evaluate_succ room scope mode node r) (next_evaluate_succ room scope mode node r)

/-- A node whose expression is done without questions. -/
theorem evaluate_done {value : Value} (done : expression scope mode node = pure value)
    (r : Reflector) : evaluate (room + 1) mode scope node r = (.ok value, r) := by
  rw [evaluate_succ, done]
  exact Prod.ext rfl r.closed_opened

theorem carry_concat (here : scope.node? node = some (.binary .dot left right)) :
    carry room scope (expression scope mode node) = (do
      let first ← evaluate room .strict scope left
      let second ← evaluate room .strict scope right
      MonadExcept.ofExcept ((first.concat second).mapError (scope.failure · (some node)))) := by
  unfold expression binary
  rw [here]
  simp only [carry_bind, carry_value, carry_ofFault]
  rfl

theorem spells_leaf {text : String} (done : expression scope mode node = pure (.text text))
    (room : Nat) (r : Reflector) : Spells (evaluate room mode scope node) r text room 1 := by
  cases room with
  | zero => exact evaluate_zero mode node r
  | succ room =>
      rw [Spells, if_pos (Nat.le_add_left 1 room)]
      exact evaluate_done done r

theorem spells_concat {first second : String} {depth depthToo : Nat}
    (here : scope.node? node = some (.binary .dot left right))
    (before : Spells (evaluate room .strict scope left) r.opened first room depth)
    (after : Spells (evaluate room .strict scope right) r.opened second room depthToo) :
    Spells (evaluate (room + 1) mode scope node) r (first ++ second) (room + 1)
      (max depth depthToo + 1) := by
  have parts : carry room scope (expression scope mode node) r.opened =
      (if max depth depthToo ≤ room then .ok (.text (first ++ second))
        else .error (.depthLimit .expression r.options.maxExpressionDepth), r.opened) := by
    rw [carry_concat here]
    unfold Spells at before after
    by_cases leftFits : depth ≤ room
    · rw [if_pos leftFits] at before
      rw [bind_of_ok before]
      by_cases rightFits : depthToo ≤ room
      · rw [if_pos rightFits] at after
        rw [bind_of_ok after, if_pos (Nat.max_le.mpr ⟨leftFits, rightFits⟩), Value.text_append]
        rfl
      · rw [if_neg rightFits] at after
        rw [bind_of_error after, if_neg (by omega)]
        rfl
    · rw [if_neg leftFits] at before
      rw [bind_of_error before, if_neg (by omega)]
      rfl
  rw [Spells, evaluate_succ, parts, Reflector.closed_opened]
  simp only [Nat.add_le_add_iff_right]

/-- Evaluation comes to the name that is known without it. -/
theorem spells_staticName? {entities : Entities} (inside : scope.place.block.name = entities.space)
    (fuel room : Nat) (mode : Mode) (node : NodeId) (r : Reflector) {text : String}
    (known : entities.staticName? scope.arena fuel node = some text) :
    Spells (evaluate room mode scope node) r text room (scope.arena.concatDepth fuel node) := by
  induction fuel generalizing room mode node r text with
  | zero => cases known
  | succ fuel ih =>
      unfold Entities.staticName? at known
      unfold Arena.concatDepth
      split at known
      next bytes here =>
        rw [here]
        refine spells_leaf ?_ room r
        unfold expression
        rw [show scope.node? node = _ from here, ← Utf8.ofString_of_toString? known]
        rfl
      next here =>
        rw [here]
        refine spells_leaf ?_ room r
        unfold expression
        rw [show scope.node? node = _ from here, ← Option.some.inj known, ← inside]
        rfl
      next left right here =>
        rw [here]
        simp only [Option.bind_eq_bind, Option.bind_eq_some_iff, Option.pure_def, Option.some.injEq]
          at known
        obtain ⟨first, left, second, right, rfl⟩ := known
        cases room with
        | zero => exact evaluate_zero mode node r
        | succ room =>
            exact spells_concat here (ih room .strict _ _ left) (ih room .strict _ _ right)
      next => cases known

end Evaluation

theorem NamespaceBlock.space_entities {path : String} {text : Text} {storedBytes : Nat}
    {block : NamespaceBlock} (member : block ∈ (SourceFile.parse path text storedBytes).blocks) :
    block.entities.space = block.name := by
  rw [entities_of_block member]
  exact (Entities.discover_settled _ block.name block.statements).inside

/-- A name that discovery knows without evaluation is the text that the expression evaluates
to, wherever it stands in its block, provided that expressions may nest as deep as its
concatenations do. Otherwise evaluation stops at the limit. Nothing else is looked at. -/
theorem static_name_is_evaluated (path : String) (text : Text) (storedBytes : Nat) (scope : Scope)
    (member : scope.place ∈ (SourceFile.parse path text storedBytes).placedBlocks)
    (fuel : Nat) (node : NodeId) {name : String}
    (known : scope.place.block.entities.staticName? scope.arena fuel node = some name)
    (r : Reflector) :
    Query.evaluate scope node r =
      (if scope.arena.concatDepth fuel node ≤ r.options.maxExpressionDepth - r.underway.depth then
        .ok (.string (Utf8.ofString name))
      else .error (.depthLimit .expression r.options.maxExpressionDepth), r) := by
  obtain ⟨_, among⟩ := SourceFile.mem_placedBlocks member
  have inside := NamespaceBlock.space_entities (List.mem_of_getElem? among)
  have spelled := Evaluation.spells_staticName? inside.symm fuel
    (r.options.maxExpressionDepth - r.underway.depth) .strict node r known
  have performed : Query.evaluate scope node r =
      Evaluation.evaluate (r.options.maxExpressionDepth - r.underway.depth) .strict scope node r :=
    congrFun (Evaluation.carry_value _ scope .strict node) r
  rw [performed]
  exact spelled

/-- A name made of three concatenations, with room for them and without. -/
theorem static_name_of_app :
    let file := SourceFile.parse "/app.php" ("<?php namespace App; " ++
      "define(__NAMESPACE__ . '\\\\' . ('Ä' . 'B'), 1);").toList
    let limited (limit : Nat) : Reflector := { options := { maxExpressionDepth := limit } }
    ∃ place ∈ file.placedBlocks,
      place.block.entities.staticName? place.file.arena 8 7 = some "App\\ÄB" ∧
      (Query.evaluate { place } 7).result (limited 3) =
        .ok (.string [0x41, 0x70, 0x70, 0x5c, 0xc3, 0x84, 0x42]) ∧
      (Query.evaluate { place } 7).result (limited 2) = .error (.depthLimit .expression 2) := by
  intro file limited
  have facts : file.placedBlocks.map (fun place =>
      (place.block.entities.staticName? place.file.arena 8 7, place.file.arena.concatDepth 8 7)) =
        [(some "App\\ÄB", 3)] := by decide +kernel
  obtain ⟨place, only, given⟩ := List.map_eq_singleton_iff.mp facts
  obtain ⟨known, depth⟩ := Prod.mk.injEq _ _ _ _ ▸ given
  have member : place ∈ file.placedBlocks := by simp [only]
  have evaluated (r : Reflector) := static_name_is_evaluated _ _ _ { place } member 8 7 known r
  have bytes : Utf8.ofString "App\\ÄB" = [0x41, 0x70, 0x70, 0x5c, 0xc3, 0x84, 0x42] := by
    decide +kernel
  have deep : Arena.concatDepth (Scope.arena { place }) 8 7 = 3 := depth
  refine ⟨place, member, known, ?_, ?_⟩
  · rw [Query.result, evaluated, deep, bytes]
    rfl
  · rw [Query.result, evaluated, deep]
    rfl

/-! The arguments of a definition. -/

namespace Arena

/-- An argument that is not spread: its name, if it has one, and its expression. -/
def argument? (arena : Arena) (id : NodeId) : Option (Option String × NodeId) :=
  match arena.node? id with
  | some (.argument name value false) => some (name, value)
  | _ => none

/-- The arguments that are not spread of a call of `define`, as they are written. -/
def definition? (arena : Arena) (call : NodeId) : Option (List (Option String × NodeId)) :=
  match arena.node? call with
  | some (.call callee ids false) =>
      match arena.node? callee with
      | some (.nameRef function) =>
          if sameFolded (stripSeparator function) "define" then
            some (ids.filterMap arena.argument?)
          else none
      | _ => none
  | _ => none

theorem plainArguments_eq (arena : Arena) (ids : List NodeId) :
    Entities.plainArguments arena ids = (ids.filterMap arena.argument?).map (·.2) := by
  rw [List.map_filterMap]
  unfold Entities.plainArguments
  congr 1
  funext id
  unfold argument?
  split <;> simp_all

end Arena

namespace Entities

/-- Two declarations in different arenas come to the same: both are skipped for the same
reason, or both are registered under one name for expressions that are alike. -/
inductive ComeToSame (first second : Arena) :
    (before after beforeToo afterToo : Entities) → Prop
  | skipped {before beforeToo : Entities} {note noteToo : SkippedEntity} :
      note.name = noteToo.name →
      note.reason = noteToo.reason →
      ComeToSame first second before (before.leaveOut note) beforeToo (beforeToo.leaveOut noteToo)
  | registered {before beforeToo : Entities} {entry entryToo : ConstantEntry} :
      entry.name = entryToo.name →
      first.Alike second entry.value entryToo.value →
      ComeToSame first second before (before.register (.constant entry)) beforeToo
        (beforeToo.register (.constant entryToo))

section Settling

variable {site siteToo : Site} {before beforeToo : Entities}
  {call callToo first second firstToo secondToo : NodeId} {name nameToo : Option String}

/-- A definition with two arguments is settled by the expression that is written first. -/
theorem addDefinition_eq_settle_named (site : Site) (before : Entities)
    (defines : site.arena.definition? call = some [(name, first), (nameToo, second)]) :
    ∃ declaration : Declaration,
      declaration.entry site before.space = Declaration.named site call second
        (staticName? { space := before.space } site.arena (first + 1) first) ∧
      before.addDefinition site call = before.settle site declaration := by
  unfold Arena.definition? at defines
  split at defines
  next callee ids here =>
    split at defines
    next function named =>
      split at defines
      next define =>
        have listed := Option.some.inj defines
        refine ⟨.definition call false ids, ?_, ?_⟩
        · rw [Declaration.entry, Arena.plainArguments_eq, listed]
          rfl
        · rw [addDefinition_eq_settle, definition?, here]
          dsimp only
          rw [named]
          dsimp only
          rw [if_pos define]
          rfl
      next => cases defines
    next => cases defines
  next => cases defines

/-- Constants of the same name and of alike values are settled alike where the same names are
taken. -/
theorem comeToSame_of_named {declaration declarationToo : Declaration} {known : Option String}
    (entry : declaration.entry site before.space = Declaration.named site call second known)
    (entryToo : declarationToo.entry siteToo beforeToo.space =
      Declaration.named siteToo callToo secondToo known)
    (alike : site.arena.Alike siteToo.arena second secondToo)
    (taken : ∀ name, (before.constant? name).isSome = (beforeToo.constant? name).isSome) :
    ComeToSame site.arena siteToo.arena before (before.settle site declaration)
      beforeToo (beforeToo.settle siteToo declarationToo) := by
  cases known with
  | none =>
      rw [settle_of_error entry, settle_of_error entryToo]
      exact .skipped rfl rfl
  | some known =>
      unfold Declaration.named at entry entryToo
      dsimp only at entry entryToo
      by_cases empty : stripSeparator known = ""
      · rw [if_pos empty] at entry entryToo
        rw [settle_of_error entry, settle_of_error entryToo]
        exact .skipped rfl rfl
      · rw [if_neg empty] at entry entryToo
        rw [settle_of_ok entry, settle_of_ok entryToo]
        have both := taken (stripSeparator known)
        simp only [row?, Entry.slot, Option.isSome_map]
        change (before.constants.find? _).isSome = (beforeToo.constants.find? _).isSome at both
        rw [both]
        split
        · exact .skipped rfl rfl
        · exact .registered rfl alike

end Settling

end Entities

/-- Discovery does not look at the names of the arguments of a definition: whatever they are,
it does as for a definition with the same two expressions in the order in which they are
written, the first of them for the name and the second one for the value. -/
theorem definition_ignores_argument_names (path pathToo : String) (text textToo : Text)
    (storedBytes storedBytesToo : Nat) {call callToo first second firstToo secondToo : NodeId}
    {name nameToo : Option String} (before beforeToo : Entities) :
    let file := SourceFile.parse path text storedBytes
    let other := SourceFile.parse pathToo textToo storedBytesToo
    file.arena.definition? call = some [(name, first), (nameToo, second)] →
    other.arena.definition? callToo = some [(none, firstToo), (none, secondToo)] →
    file.arena.Alike other.arena first firstToo →
    file.arena.Alike other.arena second secondToo →
    before.space = beforeToo.space →
    (∀ name, (before.constant? name).isSome = (beforeToo.constant? name).isSome) →
    Entities.ComeToSame file.arena other.arena
      before (before.addDefinition ⟨file.arena, file.lines⟩ call)
      beforeToo (beforeToo.addDefinition ⟨other.arena, other.lines⟩ callToo) := by
  intro file other named positional names values space taken
  have forest : file.arena.Forest := forest_parseFile path text
  have forestToo : other.arena.Forest := forest_parseFile pathToo textToo
  obtain ⟨declaration, entry, settled⟩ := Entities.addDefinition_eq_settle_named
    ⟨file.arena, file.lines⟩ before named
  obtain ⟨declarationToo, entryToo, settledToo⟩ := Entities.addDefinition_eq_settle_named
    ⟨other.arena, other.lines⟩ beforeToo positional
  have known : Entities.staticName? { space := beforeToo.space } other.arena (firstToo + 1)
      firstToo = Entities.staticName? { space := before.space } file.arena (first + 1) first := by
    rw [space]
    exact (names.staticName?_eq forest forestToo (Nat.lt_succ_self _) (Nat.lt_succ_self _)).symm
  rw [settled, settledToo]
  exact Entities.comeToSame_of_named entry (entryToo.trans (by rw [known])) values taken

private theorem alike_of_literals {first second : Arena} {id idToo : NodeId} (bytes : List UInt8)
    (here : (first.node? id).any (fun node =>
      match node with | .stringLiteral given => given == bytes | _ => false) = true)
    (there : (second.node? idToo).any (fun node =>
      match node with | .stringLiteral given => given == bytes | _ => false) = true) :
    first.Alike second id idToo := by
  obtain ⟨node, here, literal⟩ := (Option.any_eq_true _ _).mp here
  obtain ⟨nodeToo, there, literalToo⟩ := (Option.any_eq_true _ _).mp there
  split at literal
  next given =>
    split at literalToo
    next givenToo =>
      rw [eq_of_beq literal] at here
      rw [eq_of_beq literalToo] at there
      exact .node (fun child => child) here there nofun
    next => cases literalToo
  next => cases literal

/-- The value is written first, so it becomes the name. -/
theorem definition_named_by_value :
    let file := SourceFile.parse "/a.php" "<?php define(value: 'B', constant_name: 'A');".toList
    let other := SourceFile.parse "/a.php" "<?php define('B', 'A');".toList
    file.arena.definition? 5 = some [(some "value", 1), (some "constant_name", 3)] ∧
    file.blocks.map (fun block => block.entities.constants.values.map (·.name)) = [["B"]] ∧
    Entities.ComeToSame file.arena other.arena
      { space := "" } (Entities.addDefinition { space := "" } ⟨file.arena, file.lines⟩ 5)
      { space := "" } (Entities.addDefinition { space := "" } ⟨other.arena, other.lines⟩ 5) := by
  intro file other
  have named : file.arena.definition? 5 =
      some [(some "value", 1), (some "constant_name", 3)] := by decide +kernel
  have positional : other.arena.definition? 5 = some [(none, 1), (none, 3)] := by decide +kernel
  have names : file.arena.Alike other.arena 1 1 :=
    alike_of_literals [0x42] (by decide +kernel) (by decide +kernel)
  have values : file.arena.Alike other.arena 3 3 :=
    alike_of_literals [0x41] (by decide +kernel) (by decide +kernel)
  exact ⟨named, by decide +kernel, definition_ignores_argument_names _ _ _ _ _ _ { space := "" }
    { space := "" } named positional names values rfl fun _ => rfl⟩

end StaticReflection
