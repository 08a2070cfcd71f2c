import Mathlib.Data.List.Forall2
import Mathlib.Data.List.Induction
import StaticReflection.Proofs.Declarations.Discovery
import StaticReflection.Proofs.Parser.EqualTrees

namespace StaticReflection

/-! Statements that stand for the same trees declare the same. -/

namespace Entities

namespace Entry

/-- The entry without the numbers of its nodes. -/
def bare : Entry → Entry
  | .classLike entry => .classLike { entry with node := 0 }
  | .function entry => .function { entry with node := 0 }
  | .constant entry => .constant { entry with value := 0, node := 0 }
  | .imported _ item => .imported 0 item

@[simp] theorem slot_bare (entry : Entry) : entry.bare.slot = entry.slot := by
  cases entry <;> rfl

/-- The first entry for each slot. -/
def firsts : List Entry → List Entry
  | [] => []
  | entry :: rest => entry :: (firsts rest).filter (·.slot ≠ entry.slot)

theorem firsts_concat (entries : List Entry) (entry : Entry) :
    firsts (entries ++ [entry]) =
      firsts entries ++ if entries.any (·.slot = entry.slot) then [] else [entry] := by
  induction entries with
  | nil => rfl
  | cons first rest ih =>
      rw [List.cons_append, firsts, ih, List.filter_append, firsts, List.any_cons, List.cons_append]
      by_cases same : first.slot = entry.slot
      · rw [decide_eq_true same, Bool.true_or, if_pos rfl]
        split <;> simp [same]
      · rw [decide_eq_false same, Bool.false_or]
        split <;> simp [Ne.symm same]

end Entry

namespace Declaration

variable (site : Site) (space : String)

/-- The entry of a declaration, if it is well-formed, without the numbers of its nodes. -/
def claim (declaration : Declaration) : Option Entry :=
  (declaration.entry site space).toOption.map Entry.bare

theorem map_bare_entries (declared : List Declaration) :
    (entries site space declared).map Entry.bare = declared.filterMap (claim site space) :=
  List.map_filterMap

theorem any_entries (declared : List Declaration) (slot : Slot) :
    (entries site space declared).any (·.slot = slot) =
      (declared.filterMap (claim site space)).any (·.slot = slot) := by
  rw [← map_bare_entries, List.any_map]
  congr 1
  funext entry
  simp

theorem map_bare_registered (declared : List Declaration) :
    (registered site space declared).map Entry.bare =
      Entry.firsts (declared.filterMap (claim site space)) := by
  induction declared using List.reverseRecOn with
  | nil => rfl
  | append_singleton declared declaration ih =>
      rw [registered_concat, List.map_append, ih, List.filterMap_append]
      cases formed : declaration.entry site space with
      | error note =>
          have unclaimed : declaration.claim site space = none := by rw [claim, formed]; rfl
          have left : declaration.outcome site space declared = .error note := by
            rw [outcome, formed]
          simp [unclaimed, left, Except.toOption]
      | ok entry =>
          have claimed : declaration.claim site space = some entry.bare := by
            rw [claim, formed]
            rfl
          have outcome : declaration.outcome site space declared =
              if (declared.filterMap (claim site space)).any (·.slot = entry.slot) then
                .error (entry.taken site)
              else .ok entry := by
            rw [outcome, formed, ← any_entries]
          rw [outcome, List.filterMap_cons_some claimed, List.filterMap_nil, Entry.firsts_concat,
            Entry.slot_bare]
          split <;> rfl

end Declaration

/-- The names that are registered in a block. -/
structure Names where
  space : String
  classes : List String
  functions : List String
  constants : List String
  deriving DecidableEq

def names (entities : Entities) : Names where
  space := entities.space
  classes := entities.classes.values.map (·.name)
  functions := entities.functions.values.map (·.name)
  constants := entities.constants.values.map (·.name)

def Names.ofEntries (space : String) (entries : List Entry) : Names where
  space := space
  classes := (entries.filterMap Entry.class?).map (·.2.name)
  functions := (entries.filterMap Entry.function?).map (·.2.name)
  constants := (entries.filterMap Entry.constant?).map (·.2.name)

theorem Names.ofEntries_bare (space : String) (entries : List Entry) :
    ofEntries space (entries.map Entry.bare) = ofEntries space entries := by
  unfold ofEntries
  simp only [List.filterMap_map, List.map_filterMap]
  congr 2 <;>
  · funext entry
    cases entry <;> rfl

/-- What the statements of a block claim, in the order in which it is written. -/
def claims (site : Site) (space : String) (statements : List NodeId) : List Entry :=
  (declarations site.arena statements).filterMap (Declaration.claim site space)

/-- The names that are registered are those that are claimed, each for the first claimant. -/
theorem names_discover (site : Site) (space : String) (statements : List NodeId) :
    (discover site space statements).names =
      .ofEntries space (Entry.firsts (claims site space statements)) := by
  have settled := discover_settled site space statements
  rw [claims, ← Declaration.map_bare_registered, Names.ofEntries_bare]
  unfold names Names.ofEntries OrderedMap.values
  rw [settled.inside, settled.lists.classes, settled.lists.functions, settled.lists.constants]
  simp only [List.map_map]
  rfl

section Alike

variable {site siteToo : Site} (space : String) {id idToo : NodeId} {ids idsToo : List NodeId}
  (forest : site.arena.Forest) (forestToo : siteToo.arena.Forest)

/-- The nodes that a node lists are alike, one by one. -/
theorem forall₂_map {f : NodeId → NodeId}
    (alike : ∀ id ∈ ids, site.arena.Alike siteToo.arena id (f id)) :
    List.Forall₂ (site.arena.Alike siteToo.arena) ids (ids.map f) :=
  List.forall₂_map_right_iff.mpr (List.forall₂_same.mpr alike)

theorem plainArguments_alike
    (alike : List.Forall₂ (site.arena.Alike siteToo.arena) ids idsToo) :
    List.Forall₂ (site.arena.Alike siteToo.arena) (plainArguments site.arena ids)
      (plainArguments siteToo.arena idsToo) := by
  unfold plainArguments
  induction alike with
  | nil => exact .nil
  | @cons id idToo ids idsToo alike _ ih =>
      cases alike with
      | @node _ _ node f here there below =>
          rw [List.filterMap_cons, List.filterMap_cons, here, there]
          cases node with
          | argument name value spread =>
              cases spread with
              | false => exact .cons (below value List.mem_cons_self) ih
              | true => exact ih
          | _ => exact ih

/-- The constant that a name is given to is claimed under that name, wherever it stands. -/
theorem map_bare_named (node nodeToo value valueToo : NodeId) (name : Option String) :
    (Declaration.named site node value name).toOption.map Entry.bare =
      (Declaration.named siteToo nodeToo valueToo name).toOption.map Entry.bare := by
  unfold Declaration.named
  cases name with
  | none => rfl
  | some name =>
      dsimp only
      split <;> rfl

include forest forestToo

theorem claim_definition (node nodeToo : NodeId) (callable : Bool)
    (alike : List.Forall₂ (site.arena.Alike siteToo.arena) ids idsToo) :
    (Declaration.definition node callable ids).claim site space =
      (Declaration.definition nodeToo callable idsToo).claim siteToo space := by
  have plain := plainArguments_alike alike
  have named {name nameToo value valueToo : NodeId}
      (alike : site.arena.Alike siteToo.arena name nameToo) :
      (Declaration.named site node value
        (staticName? { space } site.arena (name + 1) name)).toOption.map Entry.bare =
      (Declaration.named siteToo nodeToo valueToo
        (staticName? { space } siteToo.arena (nameToo + 1) nameToo)).toOption.map Entry.bare := by
    rw [alike.staticName?_eq forest forestToo (Nat.lt_succ_self _) (Nat.lt_succ_self _)]
    exact map_bare_named ..
  change (Declaration.defined site space node callable
      (plainArguments site.arena ids)).toOption.map Entry.bare =
    (Declaration.defined siteToo space nodeToo callable
      (plainArguments siteToo.arena idsToo)).toOption.map Entry.bare
  generalize plainArguments site.arena ids = values at plain
  generalize plainArguments siteToo.arena idsToo = valuesToo at plain
  cases callable with
  | true => rfl
  | false =>
      match plain with
      | .nil | .cons _ .nil | .cons _ (.cons _ (.cons _ (.cons _ _))) => rfl
      | .cons name (.cons _ .nil) | .cons name (.cons _ (.cons _ .nil)) => exact named name

theorem claim_definition? (alike : site.arena.Alike siteToo.arena id idToo) :
    (definition? site.arena id).bind (Declaration.claim site space) =
      (definition? siteToo.arena idToo).bind (Declaration.claim siteToo space) := by
  unfold definition?
  cases alike with
  | @node _ _ node f here there below =>
      rw [here, there]
      cases node with
      | call callee arguments callable =>
          have arguments := claim_definition space forest forestToo id idToo callable
            (forall₂_map fun id among => below id (List.mem_cons_of_mem _ among))
          cases below callee List.mem_cons_self with
          | @node _ _ node g here there _ =>
              dsimp only [Node.map]
              rw [here, there]
              cases node with
              | nameRef function =>
                  dsimp only [Node.map]
                  split
                  · exact arguments
                  · rfl
              | _ => rfl
      | _ => rfl

theorem claims_declarationsOf (alike : site.arena.Alike siteToo.arena id idToo) :
    (declarationsOf site.arena id).filterMap (Declaration.claim site space) =
      (declarationsOf siteToo.arena idToo).filterMap (Declaration.claim siteToo space) := by
  cases alike with
  | @node _ _ node f here there below =>
      unfold declarationsOf
      rw [here, there]
      cases node with
      | classLike decl =>
          have same : (Declaration.classLike id decl).claim site space =
              (Declaration.classLike idToo (decl.map f)).claim siteToo space := by
            by_cases unnamed : decl.name = "" <;>
            · simp [Declaration.claim, Declaration.entry, ClassDecl.map, unnamed]
              rfl
          simp only [Node.map, List.filterMap_cons, same]
          rfl
      | function decl =>
          have same : (Declaration.function id decl).claim site space =
              (Declaration.function idToo (decl.map f)).claim siteToo space := by
            by_cases unnamed : decl.name = "" <;>
            · simp [Declaration.claim, Declaration.entry, FunctionDecl.map, unnamed]
              rfl
          simp only [Node.map, List.filterMap_cons, same]
          rfl
      | constStatement declarators doc =>
          have same : ∀ declarator ∈ declarators,
              (declarator? site.arena doc declarator).bind (Declaration.claim site space) =
                (declarator? siteToo.arena doc (f declarator)).bind
                  (Declaration.claim siteToo space) := fun declarator among => by
            cases below declarator among with
            | @node _ _ node g here there _ =>
                unfold declarator?
                rw [here, there]
                cases node <;> rfl
          simp only [Node.map, List.filterMap_filterMap, List.filterMap_map]
          exact List.filterMap_congr same
      | expressionStatement expression =>
          have same := congrArg Option.toList
            (claim_definition? space forest forestToo (below expression List.mem_cons_self))
          rw [Option.toList_bind, Option.toList_bind] at same
          dsimp only [Node.map]
          rw [List.filterMap_eq_flatMap_toList, List.filterMap_eq_flatMap_toList]
          exact same
      | imports items =>
          simp only [Node.map, List.filterMap_map]
          rfl
      | _ => rfl

/-- Statements that are alike claim the same. -/
theorem claims_alike (alike : List.Forall₂ (site.arena.Alike siteToo.arena) ids idsToo) :
    claims site space ids = claims siteToo space idsToo := by
  unfold claims declarations
  induction alike with
  | nil => rfl
  | cons first _ ih =>
      rw [List.flatMap_cons, List.flatMap_cons, List.filterMap_append, List.filterMap_append, ih,
        claims_declarationsOf space forest forestToo first]

theorem names_discover_alike (alike : List.Forall₂ (site.arena.Alike siteToo.arena) ids idsToo) :
    (discover site space ids).names = (discover siteToo space idsToo).names := by
  rw [names_discover, names_discover, claims_alike space forest forestToo alike]

end Alike

end Entities

/-- The names that the blocks of a file register. -/
def SourceFile.names (file : SourceFile) : List Entities.Names :=
  file.blocks.map (·.entities.names)

section Blocks

variable (site siteToo : Entities.Site) {id idToo : NodeId}
  (forest : site.arena.Forest) (forestToo : siteToo.arena.Forest)
include forest forestToo

theorem names_namespaceBlock? (alike : site.arena.Alike siteToo.arena id idToo) :
    (namespaceBlock? site id).map (·.entities.names) =
      (namespaceBlock? siteToo idToo).map (·.entities.names) := by
  cases alike with
  | @node _ _ node f here there below =>
      unfold namespaceBlock?
      rw [here, there]
      cases node with
      | namespaceDecl decl =>
          exact congrArg some (Entities.names_discover_alike decl.name forest forestToo
            (Entities.forall₂_map below))
      | _ => rfl

/-- Files whose statements are alike register the same names, also if one of them begins
with statements that are skipped. -/
theorem names_namespaceBlocks {path pathToo : String} {root rootToo : NodeId}
    {lead statements statementsToo : List NodeId}
    (here : site.arena.node? root = some (.sourceFile path statements))
    (there : siteToo.arena.node? rootToo = some (.sourceFile pathToo (lead ++ statementsToo)))
    (idle : ∀ id ∈ lead, ∃ kind, siteToo.arena.node? id = some (.skipped kind))
    (alike : List.Forall₂ (site.arena.Alike siteToo.arena) statements statementsToo) :
    (namespaceBlocks siteToo rootToo).map (·.entities.names) =
      (namespaceBlocks site root).map (·.entities.names) := by
  have blockless : lead.filterMap (namespaceBlock? siteToo) = [] :=
    List.filterMap_eq_nil_iff.mpr fun id among => by
      obtain ⟨kind, skipped⟩ := idle id among
      rw [namespaceBlock?, skipped]
  have blocks : (statementsToo.filterMap (namespaceBlock? siteToo)).map (·.entities.names) =
      (statements.filterMap (namespaceBlock? site)).map (·.entities.names) := by
    rw [List.map_filterMap, List.map_filterMap]
    clear here there
    induction alike with
    | nil => rfl
    | cons first _ ih =>
        rw [List.filterMap_cons, List.filterMap_cons, ih,
          names_namespaceBlock? site siteToo forest forestToo first]
  have unclaimed : Entities.claims siteToo "" (lead ++ statementsToo) =
      Entities.claims siteToo "" statementsToo := by
    have undeclared : Entities.declarations siteToo.arena lead = [] :=
      List.flatMap_eq_nil_iff.mpr fun id among => by
        obtain ⟨kind, skipped⟩ := idle id among
        rw [Entities.declarationsOf, skipped]
    rw [Entities.claims, Entities.declarations, List.flatMap_append]
    exact congrArg (List.filterMap _) (congrArg (· ++ _) undeclared)
  have whole : (Entities.discover siteToo "" (lead ++ statementsToo)).names =
      (Entities.discover site "" statements).names := by
    rw [Entities.names_discover_alike "" forest forestToo alike, Entities.names_discover,
      Entities.names_discover, unclaimed]
  unfold namespaceBlocks
  rw [here, there]
  dsimp only
  rw [List.filterMap_append, blockless, List.nil_append]
  generalize statements.filterMap (namespaceBlock? site) = found at blocks
  generalize statementsToo.filterMap (namespaceBlock? siteToo) = foundToo at blocks
  cases found with
  | nil =>
      rw [List.map_nil, List.map_eq_nil_iff] at blocks
      subst blocks
      exact congrArg (fun names => [names]) whole
  | cons block rest =>
      cases foundToo with
      | nil => cases blocks
      | cons blockToo restToo => exact blocks

end Blocks

end StaticReflection
