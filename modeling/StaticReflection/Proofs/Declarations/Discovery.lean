import StaticReflection.Proofs.OrderedMap
import StaticReflection.Source.File

namespace StaticReflection

/-! What becomes of the declarations of a namespace block. Each of them is either registered
or skipped, and the first one of a name is the one that counts. -/

def ImportTable.table (imports : ImportTable) : ImportKind → OrderedMap NameKey String
  | .classLike => imports.classes
  | .function => imports.functions
  | .constant => imports.constants

/-- The key that an imported name is known by. Case counts for constants only. -/
def ImportItem.key (item : ImportItem) : NameKey :=
  match item.kind with
  | .classLike | .function => .folded item.localName
  | .constant => .exact item.localName

/-- The imports with one more. -/
def ImportTable.insert (imports : ImportTable) (item : ImportItem) : ImportTable :=
  match item.kind with
  | .classLike => { imports with classes := imports.classes.insertNew item.key item.name }
  | .function => { imports with functions := imports.functions.insertNew item.key item.name }
  | .constant => { imports with constants := imports.constants.insertNew item.key item.name }

theorem ImportTable.table_insert (imports : ImportTable) (item : ImportItem)
    (kind : ImportKind) :
    (imports.insert item).table kind =
      if item.kind = kind then (imports.table kind).insertNew item.key item.name
      else imports.table kind := by
  unfold insert
  cases item.kind <;> cases kind <;> rfl

theorem ImportTable.add?_eq (imports : ImportTable) (item : ImportItem) :
    imports.add? item =
      if ((imports.table item.kind).find? item.key).isSome then none
      else some (imports.insert item) := by
  obtain ⟨kind, name, renamed⟩ := item
  cases kind <;> rfl

namespace Entities

/-- Something that a statement declares. A definition is a call with its arguments. -/
inductive Declaration where
  | classLike (node : NodeId) (decl : ClassDecl)
  | function (node : NodeId) (decl : FunctionDecl)
  | constant (node : NodeId) (name : String) (value : NodeId) (doc : Option String)
  | definition (node : NodeId) (callable : Bool) (arguments : List NodeId)
  | imported (node : NodeId) (item : ImportItem)

def declarator? (arena : Arena) (doc : Option String) (declarator : NodeId) :
    Option Declaration :=
  match arena.node? declarator with
  | some (.constDeclarator name value) => some (.constant declarator name value doc)
  | _ => none

/-- The definition that an expression is, if it is a call of `define`. -/
def definition? (arena : Arena) (expression : NodeId) : Option Declaration :=
  match arena.node? expression with
  | some (.call callee arguments callable) =>
      match arena.node? callee with
      | some (.nameRef function) =>
          if sameFolded (stripSeparator function) "define" then
            some (.definition expression callable arguments)
          else none
      | _ => none
  | _ => none

def declarationsOf (arena : Arena) (statement : NodeId) : List Declaration :=
  match arena.node? statement with
  | some (.classLike decl) => [.classLike statement decl]
  | some (.function decl) => [.function statement decl]
  | some (.constStatement declarators doc) => declarators.filterMap (declarator? arena doc)
  | some (.expressionStatement expression) => (definition? arena expression).toList
  | some (.imports items) => items.map (.imported statement)
  | _ => []

/-- The declarations of a block in the order in which they are written. -/
def declarations (arena : Arena) (statements : List NodeId) : List Declaration :=
  statements.flatMap (declarationsOf arena)

/-- A declaration as it is registered. -/
inductive Entry where
  | classLike (entry : ClassEntry)
  | function (entry : FunctionEntry)
  | constant (entry : ConstantEntry)
  | imported (node : NodeId) (item : ImportItem)

/-- A key in one of the tables of a block. -/
inductive Slot where
  | classLike (key : NameKey)
  | function (key : NameKey)
  | constant (key : NameKey)
  | imported (kind : ImportKind) (key : NameKey)
  deriving DecidableEq

/-- What a table holds under a key. -/
inductive Row where
  | classLike (entry : ClassEntry)
  | function (entry : FunctionEntry)
  | constant (entry : ConstantEntry)
  | imported (target : String)

namespace Entry

def slot : Entry → Slot
  | .classLike entry => .classLike (.folded entry.name)
  | .function entry => .function (.folded entry.name)
  | .constant entry => .constant (.constant entry.name)
  | .imported _ item => .imported item.kind item.key

def row : Entry → Row
  | .classLike entry => .classLike entry
  | .function entry => .function entry
  | .constant entry => .constant entry
  | .imported _ item => .imported item.name

def class? : Entry → Option (NameKey × ClassEntry)
  | .classLike entry => some (.folded entry.name, entry)
  | _ => none

def function? : Entry → Option (NameKey × FunctionEntry)
  | .function entry => some (.folded entry.name, entry)
  | _ => none

def constant? : Entry → Option (NameKey × ConstantEntry)
  | .constant entry => some (.constant entry.name, entry)
  | _ => none

def import? (kind : ImportKind) : Entry → Option (NameKey × String)
  | .imported _ item => if item.kind = kind then some (item.key, item.name) else none
  | _ => none

end Entry

def Site.note (site : Site) (node : NodeId) (name : Option String) (reason : SkipReason) :
    SkippedEntity :=
  ⟨node, name, site.lineOf node, reason⟩

/-- The note on an entry whose slot is taken. -/
def Entry.taken (site : Site) : Entry → SkippedEntity
  | .classLike entry => site.note entry.node (some entry.name) .duplicateClass
  | .function entry => site.note entry.node (some entry.name) .duplicateFunction
  | .constant entry => site.note entry.node (some entry.name) .duplicateConstant
  | .imported node item => site.note node (some item.localName) .importTaken

namespace Declaration

variable (site : Site) (space : String)

/-- The constant that a definition gives a name to, if the name is known. -/
def named (node value : NodeId) : Option String → Except SkippedEntity Entry
  | none => .error (site.note node none .defineDynamicName)
  | some name =>
      if stripSeparator name = "" then .error (site.note node none .defineEmptyName)
      else .ok (.constant ⟨stripSeparator name, value, node, .call, none⟩)

/-- The constant that a definition with some plain arguments gives: a name, a value and
perhaps one more. -/
def defined (node : NodeId) : Bool → List NodeId → Except SkippedEntity Entry
  | false, [name, value] | false, [name, value, _] =>
      named site node value (staticName? { space } site.arena (name + 1) name)
  | _, _ => .error (site.note node none .defineArguments)

/-- The entry of a declaration, or what is wrong with it by itself. -/
def entry : Declaration → Except SkippedEntity Entry
  | .classLike node decl =>
      if decl.name = "" then .error (site.note node none .unnamedClass)
      else .ok (.classLike ⟨joinNamespace space decl.name, decl.kind, node⟩)
  | .function node decl =>
      if decl.name = "" then .error (site.note node none .unnamedFunction)
      else .ok (.function ⟨joinNamespace space decl.name, node⟩)
  | .constant node name value doc =>
      .ok (.constant ⟨joinNamespace space name, value, node, .statement, doc⟩)
  | .definition node callable arguments =>
      defined site space node callable (plainArguments site.arena arguments)
  | .imported node item => .ok (.imported node item)

/-- The entries that declarations stand for, the well-formed ones of them. -/
def entries (declared : List Declaration) : List Entry :=
  declared.filterMap fun declaration => (declaration.entry site space).toOption

/-- What becomes of a declaration after others: it is skipped if an earlier one has its
slot. -/
def outcome (before : List Declaration) (declaration : Declaration) :
    Except SkippedEntity Entry :=
  match declaration.entry site space with
  | .error skipped => .error skipped
  | .ok entry =>
      if (entries site space before).any (·.slot = entry.slot) then .error (entry.taken site)
      else .ok entry

def outcomes (declared : List Declaration) : List (Except SkippedEntity Entry) :=
  declared.mapIdx fun place declaration =>
    declaration.outcome site space (declared.take place)

def registered (declared : List Declaration) : List Entry :=
  (outcomes site space declared).filterMap Except.toOption

def noted : Except SkippedEntity Entry → Option SkippedEntity
  | .error note => some note
  | .ok _ => none

def skipped (declared : List Declaration) : List SkippedEntity :=
  (outcomes site space declared).filterMap noted

end Declaration

def row? (entities : Entities) : Slot → Option Row
  | .classLike key => (entities.classes.find? key).map .classLike
  | .function key => (entities.functions.find? key).map .function
  | .constant key => (entities.constants.find? key).map .constant
  | .imported kind key => ((entities.imports.table kind).find? key).map .imported

def register (entities : Entities) : Entry → Entities
  | .classLike entry =>
      { entities with classes := entities.classes.insertNew (.folded entry.name) entry }
  | .function entry =>
      { entities with functions := entities.functions.insertNew (.folded entry.name) entry }
  | .constant entry =>
      { entities with constants := entities.constants.insertNew (.constant entry.name) entry }
  | .imported _ item => { entities with imports := entities.imports.insert item }

def leaveOut (entities : Entities) (skipped : SkippedEntity) : Entities :=
  { entities with skipped := entities.skipped ++ [skipped] }

/-- Registers a declaration or notes why not. -/
def settle (site : Site) (entities : Entities) (declaration : Declaration) : Entities :=
  match declaration.entry site entities.space with
  | .error skipped => entities.leaveOut skipped
  | .ok entry =>
      if (entities.row? entry.slot).isSome then entities.leaveOut (entry.taken site)
      else entities.register entry

/-! One pass over the statements settles the declarations one by one. -/

section Pass

variable {entities : Entities} {site : Site} {declaration : Declaration}

theorem settle_of_error {skipped : SkippedEntity}
    (malformed : declaration.entry site entities.space = .error skipped) :
    entities.settle site declaration = entities.leaveOut skipped := by
  rw [settle, malformed]

theorem settle_of_ok {entry : Entry}
    (formed : declaration.entry site entities.space = .ok entry) :
    entities.settle site declaration =
      if (entities.row? entry.slot).isSome then entities.leaveOut (entry.taken site)
      else entities.register entry := by
  rw [settle, formed]

end Pass

section Pass

variable (entities : Entities) (site : Site) (node : NodeId)

theorem addClass_eq_settle (decl : ClassDecl) :
    entities.addClass site node decl = entities.settle site (.classLike node decl) := by
  unfold addClass
  by_cases unnamed : decl.name = ""
  · have malformed : Declaration.entry site entities.space (.classLike node decl) =
        .error (site.note node none .unnamedClass) := if_pos unnamed
    rw [if_pos unnamed, settle_of_error malformed]
    rfl
  · have formed : Declaration.entry site entities.space (.classLike node decl) =
        .ok (.classLike ⟨joinNamespace entities.space decl.name, decl.kind, node⟩) :=
      if_neg unnamed
    rw [if_neg unnamed, settle_of_ok formed]
    simp only [row?, Entry.slot, Option.isSome_map]
    rfl

theorem addFunction_eq_settle (decl : FunctionDecl) :
    entities.addFunction site node decl = entities.settle site (.function node decl) := by
  unfold addFunction
  by_cases unnamed : decl.name = ""
  · have malformed : Declaration.entry site entities.space (.function node decl) =
        .error (site.note node none .unnamedFunction) := if_pos unnamed
    rw [if_pos unnamed, settle_of_error malformed]
    rfl
  · have formed : Declaration.entry site entities.space (.function node decl) =
        .ok (.function ⟨joinNamespace entities.space decl.name, node⟩) := if_neg unnamed
    rw [if_neg unnamed, settle_of_ok formed]
    simp only [row?, Entry.slot, Option.isSome_map]
    rfl

theorem addConstant_eq_settle {declaration : Declaration} {entry : ConstantEntry}
    (formed : declaration.entry site entities.space = .ok (.constant entry)) :
    entities.addConstant site entry = entities.settle site declaration := by
  rw [settle_of_ok formed]
  simp only [row?, Entry.slot, Option.isSome_map]
  rfl

theorem addImport_eq_settle (item : ImportItem) :
    entities.addImport site node item = entities.settle site (.imported node item) := by
  rw [settle_of_ok rfl, addImport, ImportTable.add?_eq]
  simp only [row?, Entry.slot, Option.isSome_map]
  by_cases taken : ((entities.imports.table item.kind).find? item.key).isSome
  · rw [if_pos taken, if_pos taken]
    rfl
  · rw [if_neg taken, if_neg taken]
    rfl

/-- Of a block, only its name counts for a name that is known without evaluation. -/
theorem staticName?_eq (arena : Arena) (fuel : Nat) :
    entities.staticName? arena fuel node =
      staticName? { space := entities.space } arena fuel node := by
  induction fuel generalizing node with
  | zero => rfl
  | succ fuel ih => simp only [staticName?, ih]

theorem addNamed_eq_settle {declaration : Declaration} {value : NodeId}
    {name : Option String} :
    declaration.entry site entities.space = Declaration.named site node value name →
      (match name with
        | none => entities.skip site node none .defineDynamicName
        | some name =>
            if stripSeparator name = "" then entities.skip site node none .defineEmptyName
            else entities.addConstant site ⟨stripSeparator name, value, node, .call, none⟩) =
        entities.settle site declaration := by
  intro entry
  cases name with
  | none =>
      rw [settle_of_error entry]
      rfl
  | some name =>
      unfold Declaration.named at entry
      dsimp only at entry ⊢
      by_cases empty : stripSeparator name = ""
      · rw [if_pos empty] at entry ⊢
        rw [settle_of_error entry]
        rfl
      · rw [if_neg empty] at entry ⊢
        exact addConstant_eq_settle entities site entry

theorem addDefined_eq_settle (callable : Bool) (arguments : List NodeId) :
    (match callable, plainArguments site.arena arguments with
      | false, name :: value :: rest =>
          if 1 < rest.length then entities.skip site node none .defineArguments
          else
            match entities.staticName? site.arena (name + 1) name with
            | none => entities.skip site node none .defineDynamicName
            | some name =>
                if stripSeparator name = "" then entities.skip site node none .defineEmptyName
                else entities.addConstant site ⟨stripSeparator name, value, node, .call, none⟩
      | _, _ => entities.skip site node none .defineArguments) =
      entities.settle site (.definition node callable arguments) := by
  have entry : Declaration.entry site entities.space (.definition node callable arguments) =
      Declaration.defined site entities.space node callable
        (plainArguments site.arena arguments) := rfl
  simp only [staticName?_eq entities]
  match callable, plainArguments site.arena arguments, entry with
  | true, _, entry | false, [], entry | false, [_], entry
  | false, _ :: _ :: _ :: _ :: _, entry =>
      rw [settle_of_error entry]
      rfl
  | false, [name, value], entry | false, [name, value, _], entry =>
      exact addNamed_eq_settle entities site node entry

theorem addDefinition_eq_settle :
    entities.addDefinition site node =
      (definition? site.arena node).toList.foldl (settle site) entities := by
  unfold addDefinition definition?
  cases site.arena.node? node with
  | none => rfl
  | some written =>
      cases written with
      | call callee arguments callable =>
          dsimp only
          cases site.arena.node? callee with
          | none => rfl
          | some calleeNode =>
              cases calleeNode with
              | nameRef function =>
                  dsimp only
                  by_cases define : sameFolded (stripSeparator function) "define"
                  · rw [define, if_pos rfl]
                    exact addDefined_eq_settle entities site node callable arguments
                  · rw [if_neg define, if_pos (by simpa using define)]
                    rfl
              | _ => rfl
      | _ => rfl

/-- A statement adds its declarations one after the other. -/
theorem addStatement_eq_settle :
    addStatement site entities node =
      (declarationsOf site.arena node).foldl (settle site) entities := by
  unfold addStatement declarationsOf
  cases site.arena.node? node with
  | none => rfl
  | some written =>
      cases written with
      | classLike decl => exact addClass_eq_settle entities site node decl
      | function decl => exact addFunction_eq_settle entities site node decl
      | constStatement declarators doc =>
          dsimp only
          rw [List.foldl_filterMap]
          congr 1
          funext entities declarator
          unfold declarator?
          cases site.arena.node? declarator with
          | none => rfl
          | some declared =>
              cases declared with
              | constDeclarator name value => exact addConstant_eq_settle entities site rfl
              | _ => rfl
      | expressionStatement expression => exact addDefinition_eq_settle entities site expression
      | imports items =>
          dsimp only
          rw [List.foldl_map]
          congr 1
          funext entities item
          exact addImport_eq_settle entities site node item
      | _ => rfl

end Pass

theorem discover_eq_settle (site : Site) (space : String) (statements : List NodeId) :
    discover site space statements =
      (declarations site.arena statements).foldl (settle site) { space } := by
  unfold discover declarations
  rw [List.foldl_flatMap]
  congr 1
  funext entities node
  exact addStatement_eq_settle entities site node

/-! What the declarations so far have come to. -/

/-- The tables of a block hold some entries, in their order. -/
structure Lists (entities : Entities) (entries : List Entry) : Prop where
  classes : entities.classes.entries = entries.filterMap Entry.class?
  functions : entities.functions.entries = entries.filterMap Entry.function?
  constants : entities.constants.entries = entries.filterMap Entry.constant?
  imports : ∀ kind, (entities.imports.table kind).entries = entries.filterMap (Entry.import? kind)

/-- Some declarations are settled: each of them is listed or noted, and every slot has its
first claimant. -/
structure Settled (site : Site) (space : String) (declared : List Declaration)
    (entities : Entities) : Prop where
  inside : entities.space = space
  lists : entities.Lists (Declaration.registered site space declared)
  skipped : entities.skipped = Declaration.skipped site space declared
  rows : ∀ slot, entities.row? slot =
    ((Declaration.entries site space declared).find? (·.slot = slot)).map Entry.row

theorem row?_leaveOut (entities : Entities) (skipped : SkippedEntity) (slot : Slot) :
    (entities.leaveOut skipped).row? slot = entities.row? slot := by
  cases slot <;> rfl

private theorem map_find?_insertNew {α : Type} (table : OrderedMap NameKey α)
    (wrap : α → Row) (key other : NameKey) (value : α) :
    ((table.insertNew key value).find? other).map wrap =
      if other = key ∧ (table.find? other).map wrap = none then some (wrap value)
      else (table.find? other).map wrap := by
  rw [OrderedMap.find?_insertNew]
  by_cases same : other = key
  · subst same
    cases table.find? other <;> simp
  · simp [same]

theorem row?_register (entities : Entities) (entry : Entry) (slot : Slot) :
    (entities.register entry).row? slot =
      if slot = entry.slot ∧ entities.row? slot = none then some entry.row
      else entities.row? slot := by
  cases entry with
  | classLike entry =>
      cases slot with
      | classLike key =>
          simp only [Entry.slot, Slot.classLike.injEq]
          exact map_find?_insertNew entities.classes .classLike _ key entry
      | _ => simp [register, row?, Entry.slot]
  | function entry =>
      cases slot with
      | function key =>
          simp only [Entry.slot, Slot.function.injEq]
          exact map_find?_insertNew entities.functions .function _ key entry
      | _ => simp [register, row?, Entry.slot]
  | constant entry =>
      cases slot with
      | constant key =>
          simp only [Entry.slot, Slot.constant.injEq]
          exact map_find?_insertNew entities.constants .constant _ key entry
      | _ => simp [register, row?, Entry.slot]
  | imported node item =>
      cases slot with
      | imported kind key =>
          simp only [register, row?, Entry.slot, ImportTable.table_insert, Slot.imported.injEq]
          by_cases same : item.kind = kind
          · subst same
            simpa [Entry.row] using map_find?_insertNew (entities.imports.table item.kind)
              .imported item.key key item.name
          · simp [same, Ne.symm same]
      | _ => simp [register, row?, Entry.slot]

section Lists

variable {α : Type} {entities : Entities} {entries : List Entry} {entry : Entry}

private theorem listed_besides {select : Entry → Option α} {rows : List α}
    (listed : rows = entries.filterMap select) (besides : select entry = none) :
    rows = (entries ++ [entry]).filterMap select := by
  simp [listed, besides]

private theorem listed_insertNew {select : Entry → Option (NameKey × α)}
    {table : OrderedMap NameKey α} {key : NameKey} {value : α}
    (listed : table.entries = entries.filterMap select) (free : table.find? key = none)
    (here : select entry = some (key, value)) :
    (table.insertNew key value).entries = (entries ++ [entry]).filterMap select := by
  simp [OrderedMap.insertNew, OrderedMap.contains, free, listed, here]

theorem Lists.register (lists : entities.Lists entries)
    (free : entities.row? entry.slot = none) :
    (entities.register entry).Lists (entries ++ [entry]) := by
  cases entry with
  | classLike entry =>
      exact ⟨listed_insertNew lists.classes (Option.map_eq_none_iff.mp free) rfl,
        listed_besides lists.functions rfl, listed_besides lists.constants rfl,
        fun kind => listed_besides (lists.imports kind) rfl⟩
  | function entry =>
      exact ⟨listed_besides lists.classes rfl,
        listed_insertNew lists.functions (Option.map_eq_none_iff.mp free) rfl,
        listed_besides lists.constants rfl,
        fun kind => listed_besides (lists.imports kind) rfl⟩
  | constant entry =>
      exact ⟨listed_besides lists.classes rfl, listed_besides lists.functions rfl,
        listed_insertNew lists.constants (Option.map_eq_none_iff.mp free) rfl,
        fun kind => listed_besides (lists.imports kind) rfl⟩
  | imported node item =>
      refine ⟨listed_besides lists.classes rfl, listed_besides lists.functions rfl,
        listed_besides lists.constants rfl, fun kind => ?_⟩
      change ((entities.imports.insert item).table kind).entries = _
      rw [ImportTable.table_insert]
      by_cases same : item.kind = kind
      · subst same
        rw [if_pos rfl]
        exact listed_insertNew (lists.imports _) (Option.map_eq_none_iff.mp free) (if_pos rfl)
      · rw [if_neg same]
        exact listed_besides (lists.imports kind) (if_neg same)

/-- Every entry stands in one table. -/
theorem length_eq_add (entries : List Entry) :
    (entries.filterMap Entry.class?).length + (entries.filterMap Entry.function?).length +
      (entries.filterMap Entry.constant?).length +
      ((entries.filterMap (Entry.import? .classLike)).length +
        (entries.filterMap (Entry.import? .function)).length +
        (entries.filterMap (Entry.import? .constant)).length) = entries.length := by
  induction entries with
  | nil => rfl
  | cons entry rest ih =>
      cases entry with
      | imported node item =>
          obtain ⟨kind, name, renamed⟩ := item
          cases kind <;>
          · simp only [List.filterMap_cons, Entry.class?, Entry.function?, Entry.constant?,
              Entry.import?, reduceCtorEq, if_true, if_false, List.length_cons]
            omega
      | _ =>
          simp only [List.filterMap_cons, Entry.class?, Entry.function?, Entry.constant?,
            Entry.import?, List.length_cons]
          omega

theorem Lists.size (lists : entities.Lists entries) :
    entities.classes.size + entities.functions.size + entities.constants.size +
      entities.imports.size = entries.length := by
  rw [← length_eq_add entries, ← lists.classes, ← lists.functions, ← lists.constants,
    ← lists.imports, ← lists.imports, ← lists.imports]
  rfl

end Lists

namespace Declaration

variable (site : Site) (space : String)

theorem outcomes_concat (declared : List Declaration) (declaration : Declaration) :
    outcomes site space (declared ++ [declaration]) =
      outcomes site space declared ++ [declaration.outcome site space declared] := by
  unfold outcomes
  rw [List.mapIdx_concat, List.take_left']
  · congr 1
    rw [List.mapIdx_eq_mapIdx_iff]
    intro place bound
    rw [List.take_append_of_le_length (Nat.le_of_lt bound)]
  · rfl

theorem entries_concat (declared : List Declaration) (declaration : Declaration) :
    entries site space (declared ++ [declaration]) =
      entries site space declared ++ (declaration.entry site space).toOption.toList := by
  unfold entries
  rw [List.filterMap_append]
  rfl

theorem registered_concat (declared : List Declaration) (declaration : Declaration) :
    registered site space (declared ++ [declaration]) =
      registered site space declared ++
        (declaration.outcome site space declared).toOption.toList := by
  unfold registered
  rw [outcomes_concat, List.filterMap_append]
  rfl

theorem skipped_concat (declared : List Declaration) (declaration : Declaration) :
    skipped site space (declared ++ [declaration]) =
      skipped site space declared ++
        (noted (declaration.outcome site space declared)).toList := by
  unfold skipped
  rw [outcomes_concat, List.filterMap_append]
  rfl

theorem length_registered_add_skipped (declared : List Declaration) :
    (registered site space declared).length + (skipped site space declared).length =
      declared.length := by
  have split (outcomes : List (Except SkippedEntity Entry)) :
      (outcomes.filterMap Except.toOption).length + (outcomes.filterMap noted).length =
        outcomes.length := by
    induction outcomes with
    | nil => rfl
    | cons outcome rest ih =>
        cases outcome <;>
        · simp only [List.filterMap_cons, Except.toOption, noted, List.length_cons]
          omega
  unfold registered skipped
  rw [split, outcomes, List.length_mapIdx]

end Declaration

section Settled

variable {site : Site} {space : String} {declared : List Declaration} {entities : Entities}

theorem settled_start : Settled site space [] { space } := by
  refine ⟨rfl, ⟨rfl, rfl, rfl, fun kind => ?_⟩, rfl, fun slot => ?_⟩
  · cases kind <;> rfl
  · cases slot with
    | imported kind key => cases kind <;> rfl
    | _ => rfl

theorem Settled.isSome_row? (settled : Settled site space declared entities) (slot : Slot) :
    (entities.row? slot).isSome =
      (Declaration.entries site space declared).any (·.slot = slot) := by
  rw [settled.rows, Option.isSome_map, Bool.eq_iff_iff, List.find?_isSome, List.any_eq_true]

variable {declaration : Declaration}

theorem Settled.leaveOut (settled : Settled site space declared entities)
    {note : SkippedEntity} (outcome : declaration.outcome site space declared = .error note)
    (claimed : ∀ entry, declaration.entry site space = .ok entry →
      (entities.row? entry.slot).isSome = true) :
    Settled site space (declared ++ [declaration]) (entities.leaveOut note) where
  inside := settled.inside
  lists := by
    rw [Declaration.registered_concat, outcome, Except.toOption, Option.toList_none,
      List.append_nil]
    exact ⟨settled.lists.classes, settled.lists.functions, settled.lists.constants,
      settled.lists.imports⟩
  skipped := by
    rw [Declaration.skipped_concat, outcome]
    exact congrArg (· ++ [note]) settled.skipped
  rows slot := by
    rw [row?_leaveOut, settled.rows, Declaration.entries_concat, List.find?_append]
    cases formed : declaration.entry site space with
    | error other => simp [Except.toOption]
    | ok entry =>
        by_cases here : entry.slot = slot
        · have taken := claimed entry formed
          rw [here, settled.rows, Option.isSome_map] at taken
          obtain ⟨first, found⟩ := Option.isSome_iff_exists.mp taken
          simp [found]
        · simp [Except.toOption, here]

theorem Settled.register (settled : Settled site space declared entities) {entry : Entry}
    (formed : declaration.entry site space = .ok entry)
    (outcome : declaration.outcome site space declared = .ok entry)
    (free : entities.row? entry.slot = none) :
    Settled site space (declared ++ [declaration]) (entities.register entry) where
  inside := by
    rw [← settled.inside]
    cases entry <;> rfl
  lists := by
    rw [Declaration.registered_concat, outcome]
    exact settled.lists.register free
  skipped := by
    rw [Declaration.skipped_concat, outcome, Declaration.noted, Option.toList_none,
      List.append_nil, ← settled.skipped]
    cases entry <;> rfl
  rows slot := by
    rw [row?_register, settled.rows, Declaration.entries_concat, List.find?_append, formed]
    by_cases here : entry.slot = slot
    · subst here
      rw [settled.rows, Option.map_eq_none_iff] at free
      simp [Except.toOption, free]
    · simp [Except.toOption, here, Ne.symm here]

/-- One step of the pass: a declaration more is settled. -/
theorem Settled.settle (settled : Settled site space declared entities)
    (declaration : Declaration) :
    Settled site space (declared ++ [declaration]) (entities.settle site declaration) := by
  cases formed : declaration.entry site space with
  | error note =>
      rw [settle_of_error (settled.inside ▸ formed)]
      refine settled.leaveOut ?_ ?_
      · rw [Declaration.outcome, formed]
      · simp [formed]
  | ok entry =>
      have outcome : declaration.outcome site space declared =
          if (entities.row? entry.slot).isSome then .error (entry.taken site) else .ok entry := by
        rw [Declaration.outcome, formed, settled.isSome_row?]
      rw [settle_of_ok (settled.inside ▸ formed)]
      by_cases taken : (entities.row? entry.slot).isSome
      · rw [if_pos taken] at outcome ⊢
        refine settled.leaveOut outcome fun other same => ?_
        cases formed.symm.trans same
        exact taken
      · rw [if_neg taken] at outcome ⊢
        exact settled.register formed outcome (by simpa using taken)

theorem Settled.settleAll (settled : Settled site space declared entities)
    (more : List Declaration) :
    Settled site space (declared ++ more) (more.foldl (Entities.settle site) entities) := by
  induction more generalizing declared entities with
  | nil => simpa using settled
  | cons declaration rest ih =>
      rw [List.append_cons]
      exact ih (settled.settle declaration)

end Settled

/-- The pass over a block settles what its statements declare. -/
theorem discover_settled (site : Site) (space : String) (statements : List NodeId) :
    Settled site space (declarations site.arena statements) (discover site space statements) := by
  rw [discover_eq_settle]
  exact settled_start.settleAll _

end Entities

theorem entities_of_block {site : Entities.Site} {root : NodeId} {block : NamespaceBlock}
    (member : block ∈ namespaceBlocks site root) :
    block.entities = .discover site block.name block.statements := by
  unfold namespaceBlocks at member
  split at member
  · split at member
    · cases List.mem_singleton.mp member
      rfl
    · obtain ⟨node, _, declared⟩ := List.mem_filterMap.mp member
      unfold namespaceBlock? at declared
      split at declared
      · cases declared
        rfl
      · cases declared
  · cases member

/-- All that a block declares is registered or skipped, each declaration once, in the order
in which it is written. What is found under a key is the first declaration with it. -/
theorem declarations_registered_or_skipped (path : String) (text : Text) (storedBytes : Nat)
    {block : NamespaceBlock} (member : block ∈ (SourceFile.parse path text storedBytes).blocks) :
    let file := SourceFile.parse path text storedBytes
    let site : Entities.Site := ⟨file.arena, file.lines⟩
    let entities := block.entities
    let declared := Entities.declarations file.arena block.statements
    let outcomes := Entities.Declaration.outcomes site block.name declared
    outcomes.length = declared.length ∧
    entities.Lists (outcomes.filterMap Except.toOption) ∧
    entities.skipped = outcomes.filterMap Entities.Declaration.noted ∧
    entities.classes.size + entities.functions.size + entities.constants.size +
      entities.imports.size + entities.skipped.length = declared.length ∧
    ∀ slot, entities.row? slot =
      ((Entities.Declaration.entries site block.name declared).find? (·.slot = slot)).map
        Entities.Entry.row := by
  intro file site entities declared outcomes
  have settled : Entities.Settled site block.name declared entities := by
    change Entities.Settled _ _ _ block.entities
    rw [entities_of_block member]
    exact Entities.discover_settled site block.name block.statements
  refine ⟨List.length_mapIdx, settled.lists, settled.skipped, ?_, settled.rows⟩
  rw [settled.lists.size, settled.skipped]
  exact Entities.Declaration.length_registered_add_skipped site block.name declared

/-- A block with names that are taken and definitions that are malformed. -/
theorem declarations_of_app :
    let file := SourceFile.parse "/app.php" ("<?php namespace App; use Lib\\A, Lib\\B as a; " ++
      "class User \x7b\x7d interface USER \x7b\x7d function f() \x7b\x7d const X = 1, X = 2; " ++
      "define('APP\\X', 3); define($n, 4); define('Y');").toList
    ∃ block ∈ file.blocks, (Entities.declarations file.arena block.statements).length = 10 ∧
      block.entities.classes.size = 1 ∧ block.entities.functions.size = 1 ∧
      block.entities.constants.size = 1 ∧ block.entities.imports.size = 1 ∧
      block.entities.skipped.length = 6 := by
  intro file
  have counted : file.blocks.map (fun block =>
      ((Entities.declarations file.arena block.statements).length, block.entities.classes.size,
        block.entities.functions.size, block.entities.constants.size,
        block.entities.imports.size)) = [(10, 1, 1, 1, 1)] := by decide +kernel
  obtain ⟨block, only, counts⟩ := List.map_eq_singleton_iff.mp counted
  have member : block ∈ file.blocks := by simp [only]
  obtain ⟨_, _, _, total, _⟩ := declarations_registered_or_skipped _ _ _ member
  simp only [Prod.mk.injEq] at counts
  obtain ⟨declared, classes, functions, constants, imports⟩ := counts
  refine ⟨block, member, declared, classes, functions, constants, imports, ?_⟩
  have total : block.entities.classes.size + block.entities.functions.size +
      block.entities.constants.size + block.entities.imports.size +
      block.entities.skipped.length =
        (Entities.declarations file.arena block.statements).length := total
  omega

end StaticReflection
