import Mathlib.Data.List.Nodup
import StaticReflection.Proofs.Declarations.Discovery
import StaticReflection.Proofs.Evaluation.SessionAnswers
import StaticReflection.Proofs.Reflection.FirstAnswers
import StaticReflection.Proofs.Reflection.KeyedTables

namespace StaticReflection

/-! A constant that several blocks of a file declare. The look-up by name gives the first
declaration, the listing of the file shows the last one that has a value. -/

/-! The constants of a block stand under the keys of their names. -/

theorem Entities.keyedBy_settle {entities : Entities} {site : Site}
    (keyed : entities.constants.KeyedBy fun entry => .constant entry.name)
    (declaration : Declaration) :
    (entities.settle site declaration).constants.KeyedBy fun entry => .constant entry.name := by
  unfold settle
  split
  · exact keyed
  · split
    · exact keyed
    · rename_i entry _ _
      cases entry with
      | constant entry => exact keyed.insertNew rfl
      | _ => exact keyed

theorem NamespaceBlock.keyedBy_constants {site : Entities.Site} {root : NodeId}
    {block : NamespaceBlock} (member : block ∈ namespaceBlocks site root) :
    block.entities.constants.KeyedBy fun entry => .constant entry.name := by
  rw [entities_of_block member, Entities.discover_eq_settle]
  exact List.foldlRecOn (motive := fun entities : Entities =>
      entities.constants.KeyedBy fun entry => .constant entry.name) _ _
    OrderedMap.keyedBy_empty fun _ keyed declaration _ => Entities.keyedBy_settle keyed declaration

/-- A constant that a block of a file declares. -/
structure DeclaredConstant where
  place : PlacedBlock
  entry : ConstantEntry

namespace DeclaredConstant

def key (declared : DeclaredConstant) : NameKey :=
  .constant declared.entry.name

def info (declared : DeclaredConstant) (id : DeclarationId) : ConstantInfo :=
  .declaredAt id declared.place declared.entry

/-- What the index keeps of the constant. -/
def declaration (declared : DeclaredConstant) : PlacedBlock × ConstantEntry :=
  (declared.place, declared.entry)

/-- The expression of a declaration comes to a value. -/
def Evaluates (declared : DeclaredConstant) (setting : Setting) (value : Value) : Prop :=
  setting.Derives { place := declared.place }
    (Evaluation.expression { place := declared.place } .strict declared.entry.value) value

end DeclaredConstant

def PlacedBlock.constants (place : PlacedBlock) : List DeclaredConstant :=
  place.block.entities.constants.values.map fun entry => ⟨place, entry⟩

/-- The constants of all blocks in the order in which they are written. -/
def SourceFile.constants (file : SourceFile) : List DeclaredConstant :=
  file.placedBlocks.flatMap PlacedBlock.constants

/-- The first declaration of a constant. -/
def SourceFile.first? (file : SourceFile) (key : NameKey) : Option DeclaredConstant :=
  file.constants.find? (·.key = key)

/-- Every block keeps its constants under the keys of their names. -/
def SourceFile.Keyed (file : SourceFile) : Prop :=
  ∀ block ∈ file.blocks, block.entities.constants.KeyedBy fun entry => .constant entry.name

theorem SourceFile.keyed_parse (path : String) (text : Text) (storedBytes : Nat) :
    (SourceFile.parse path text storedBytes).Keyed :=
  fun _ member => NamespaceBlock.keyedBy_constants member

section Places

variable {file : SourceFile} {place other : PlacedBlock} {declared first : DeclaredConstant}

theorem PlacedBlock.isSame_refl (place : PlacedBlock) : place.isSame place = true := by
  simp [isSame, SourceFile.isSame]

theorem SourceFile.mem_placedBlocks (member : place ∈ file.placedBlocks) :
    place.file = file ∧ file.blocks[place.index]? = some place.block := by
  obtain ⟨⟨block, index⟩, entry, rfl⟩ := List.mem_map.mp member
  exact ⟨rfl, List.mem_zipIdx_iff_getElem?.mp entry⟩

theorem SourceFile.place_eq_of_isSame (member : place ∈ file.placedBlocks)
    (otherMember : other ∈ file.placedBlocks) (same : place.isSame other = true) :
    place = other := by
  obtain ⟨placeFile, block⟩ := mem_placedBlocks member
  obtain ⟨otherFile, otherBlock⟩ := mem_placedBlocks otherMember
  have index : place.index = other.index := by
    simpa using (Bool.and_eq_true_iff.mp same).2
  rw [index, otherBlock] at block
  obtain ⟨_, _, _⟩ := place
  obtain ⟨_, _, _⟩ := other
  cases placeFile.trans otherFile.symm
  cases index
  cases block
  rfl

theorem SourceFile.mem_constants (member : declared ∈ file.constants) :
    declared.place ∈ file.placedBlocks ∧
      declared.entry ∈ declared.place.block.entities.constants.values := by
  obtain ⟨place, placeMember, inBlock⟩ := List.mem_flatMap.mp member
  obtain ⟨entry, entryMember, rfl⟩ := List.mem_map.mp inBlock
  exact ⟨placeMember, entryMember⟩

theorem SourceFile.Keyed.ofPlace (keyed : file.Keyed) (member : place ∈ file.placedBlocks) :
    place.block.entities.constants.KeyedBy fun entry => .constant entry.name :=
  keyed _ (List.mem_of_getElem? (mem_placedBlocks member).2)

/-- A block declares a constant at most once. -/
theorem SourceFile.Keyed.unique (keyed : file.Keyed) (member : declared ∈ file.constants)
    (firstMember : first ∈ file.constants) (sameKey : first.key = declared.key)
    (samePlace : first.place.isSame declared.place = true) : first = declared := by
  obtain ⟨placed, entry⟩ := mem_constants member
  obtain ⟨firstPlaced, firstEntry⟩ := mem_constants firstMember
  have place := place_eq_of_isSame firstPlaced placed samePlace
  obtain ⟨firstPlace, _⟩ := first
  obtain ⟨declaredPlace, _⟩ := declared
  cases place
  have nodup := (keyed.ofPlace placed).nodup
  rw [(keyed.ofPlace placed).keys] at nodup
  exact congrArg (DeclaredConstant.mk firstPlace)
    (List.inj_on_of_nodup_map nodup firstEntry entry sameKey)

end Places

/-! The index of a file holds the first declaration of each constant. -/

theorem lookup_map_declaration (place : PlacedBlock) (key : NameKey)
    {entries : List (NameKey × ConstantEntry)}
    (keys : ∀ entry ∈ entries, entry.1 = .constant entry.2.name) :
    (entries.map fun entry => (entry.1, (place, entry.2))).lookup key =
      ((entries.map fun entry => DeclaredConstant.mk place entry.2).find? (·.key = key)).map
        (·.declaration) := by
  induction entries with
  | nil => rfl
  | cons entry rest ih =>
      have here : entry.1 = DeclaredConstant.key ⟨place, entry.2⟩ := keys entry (by simp)
      have later := ih fun other member => keys other (List.mem_cons_of_mem _ member)
      rw [List.map_cons, List.map_cons, List.lookup_cons, List.find?_cons, later, here]
      by_cases same : DeclaredConstant.key ⟨place, entry.2⟩ = key
      · subst same
        simp [DeclaredConstant.declaration]
      · have differs : (key == DeclaredConstant.key ⟨place, entry.2⟩) = false := by
          simpa using Ne.symm same
        simp [same, differs]

theorem EntityIndex.find?_addBlock {place : PlacedBlock}
    (keyed : place.block.entities.constants.KeyedBy fun entry => .constant entry.name)
    (index : EntityIndex) (key : NameKey) :
    (index.addBlock place).constants.find? key =
      (index.constants.find? key <|>
        (place.constants.find? (·.key = key)).map (·.declaration)) := by
  have added : (index.addBlock place).constants =
      (place.block.entities.constants.entries.map fun entry => (entry.1, (place, entry.2))).foldl
          (fun table (key, value) => table.insertNew key value) index.constants := by
    rw [List.foldl_map]
    rfl
  have listed : place.constants =
      place.block.entities.constants.entries.map fun entry => ⟨place, entry.2⟩ := by
    simp [PlacedBlock.constants, OrderedMap.values]
  rw [added, OrderedMap.find?_foldl_insertNew,
    lookup_map_declaration place key fun entry member => keyed.key_of_mem member, listed]

theorem EntityIndex.find?_addBlocks {places : List PlacedBlock}
    (keyed : ∀ place ∈ places,
      place.block.entities.constants.KeyedBy fun entry => .constant entry.name)
    (index : EntityIndex) (key : NameKey) :
    (places.foldl addBlock index).constants.find? key =
      (index.constants.find? key <|>
        ((places.flatMap PlacedBlock.constants).find? (·.key = key)).map (·.declaration)) := by
  induction places generalizing index with
  | nil => simp
  | cons place rest ih =>
      have later := ih (fun other member => keyed other (List.mem_cons_of_mem _ member))
        (index.addBlock place)
      rw [List.foldl_cons, later, find?_addBlock (keyed place (by simp)), List.flatMap_cons,
        List.find?_append]
      cases index.constants.find? key <;> cases place.constants.find? (·.key = key) <;> simp

theorem EntityIndex.constant?_ofFile {file : SourceFile} (keyed : file.Keyed) (name : String) :
    (ofFiles [file]).constant? name =
      (file.first? (.constant name)).map (·.info (.named (.constant name))) := by
  have known : ofFiles [file] = file.placedBlocks.foldl addBlock
      { files := [PathKey.ofPath file.path] } := rfl
  have found : ((ofFiles [file]).declared .constant).find? (.constant name) =
      (file.first? (.constant name)).map (·.declaration) := by
    rw [known]
    exact find?_addBlocks (fun place member => keyed.ofPlace member) _ _
  rw [constant?, info?, found]
  cases file.first? (.constant name) <;> rfl

namespace Query

variable {file : SourceFile} {declared : DeclaredConstant} {s : Reflector}

/-- The constant that a block gives for a declaration of its own. It is the one that is found
by name if the declaration is the first. -/
def Gives (file : SourceFile) (declared : DeclaredConstant) (constant : ConstantInfo) : Prop :=
  ∃ id, constant = declared.info id ∧
    (file.first? declared.key = some declared → id = .named declared.key)

theorem blockConstant_gives (keyed : file.Keyed) (index : s.index = .ofFiles [file])
    (member : declared ∈ file.constants) :
    ∃ constant, (blockConstant declared.place declared.entry).result s = .ok constant ∧
      Gives file declared constant := by
  have found : s.index.constant? declared.entry.name =
      (file.first? declared.key).map (·.info (.named declared.key)) := by
    rw [index, EntityIndex.constant?_ofFile keyed]
    rfl
  have known : (file.first? declared.key).isSome :=
    List.find?_isSome.mpr ⟨declared, member, by simp⟩
  obtain ⟨first, isFirst⟩ := Option.isSome_iff_exists.mp known
  have firstKey : first.key = declared.key := by simpa using List.find?_some isFirst
  have firstMember : first ∈ file.constants := List.mem_of_find?_eq_some isFirst
  unfold blockConstant
  rw [result_bind_ok (result_constant? _ s), found, isFirst]
  dsimp only [Option.map_some]
  by_cases same : (first.info (.named declared.key)).scope.place.isSame declared.place = true
  · have unique := keyed.unique member firstMember firstKey same
    subst unique
    rw [if_pos same]
    exact ⟨_, rfl, _, rfl, fun _ => rfl⟩
  · rw [if_neg same]
    refine ⟨_, rfl, _, rfl, fun isFirstToo => ?_⟩
    cases isFirst.symm.trans isFirstToo
    exact absurd (PlacedBlock.isSame_refl _) same

theorem blockConstants_give (keyed : file.Keyed) (nowhere : s.locator = .nowhere)
    (index : s.index = .ofFiles [file]) (place : PlacedBlock) (entries : List ConstantEntry)
    (members : ∀ entry ∈ entries, ⟨place, entry⟩ ∈ file.constants) :
    ∃ constants, (entries.mapM (blockConstant place)).result s = .ok constants ∧
      List.Forall₂ (Gives file) (entries.map fun entry => ⟨place, entry⟩) constants := by
  induction entries generalizing s with
  | nil => exact ⟨[], rfl, .nil⟩
  | cons entry rest ih =>
      obtain ⟨constant, answered, gives⟩ :=
        blockConstant_gives keyed index (members entry (by simp))
      have look := (blockConstant_looks place entry).next s
      obtain ⟨others, answeredRest, giveRest⟩ := ih (look.locator.trans nowhere)
        ((look.stays nowhere).trans index)
        fun other member => members other (List.mem_cons_of_mem _ member)
      refine ⟨constant :: others, ?_, .cons gives giveRest⟩
      rw [List.mapM_cons, result_bind_ok answered, result_bind_ok answeredRest]
      rfl

end Query

/-! The value of a declared constant is remembered under its id. -/

namespace DeclaredConstant

variable {declared : DeclaredConstant} {id : DeclarationId} {s : Reflector} {value : Value}

theorem constantValue_eq (declared : DeclaredConstant) (id : DeclarationId) (s : Reflector) :
    ∃ eval, (Query.constantValue (declared.info id)).result s =
        (Evaluation.resolve eval (declared.info id) declared.entry.value).result s ∧
      (Query.constantValue (declared.info id)).next s =
        (Evaluation.resolve eval (declared.info id) declared.entry.value).next s := by
  have run : Query.constantValue (declared.info id) s =
      (Evaluation.resolve (Evaluation.evaluate (s.options.maxExpressionDepth - s.underway.depth)
        .strict) (declared.info id) declared.entry.value >>= pure) s := rfl
  rw [bind_pure] at run
  exact ⟨_, congrArg Prod.fst run, congrArg Prod.snd run⟩

theorem state_of_value (answered : (Query.constantValue (declared.info id)).result s = .ok value) :
    ((Query.constantValue (declared.info id)).next s).state (.global id) = .resolved value := by
  obtain ⟨eval, result, next⟩ := declared.constantValue_eq id s
  rw [next]
  exact Evaluation.state_of_resolve (result.symm.trans answered)

theorem value_of_state (known : s.state (.global id) = .resolved value) :
    (Query.constantValue (declared.info id)).result s = .ok value := by
  obtain ⟨eval, result, _⟩ := declared.constantValue_eq id s
  rw [result]
  exact (Evaluation.resolve_of_resolved known).1

/-- A declaration has a value by the rules if some query finds it. -/
theorem evaluates_of_value {index : EntityIndex} {options : Options}
    (sound : s.Sound index options []) (held : s.Holds (declared.info id))
    (same : ((Query.constantValue (declared.info id)).next s).index = s.index)
    (answered : (Query.constantValue (declared.info id)).result s = .ok value) :
    declared.Evaluates (Setting.unbounded index options.platform) value := by
  have derived := Query.perform_derives sound (Query.expects_constantValue held) same
    answered
  exact Setting.derives_initializer.mp derived

/-- The value of a declaration was asked for, between two moments, and there was none. -/
def Fails (declared : DeclaredConstant) (r s : Reflector) : Prop :=
  ∃ middle id error, Step r middle ∧ Step middle s ∧
    (Query.constantValue (declared.info id)).result middle = .error error

theorem Fails.later {r next : Reflector} (fails : declared.Fails r s) (step : Step s next) :
    declared.Fails r next := by
  obtain ⟨middle, id, error, first, second, failed⟩ := fails
  exact ⟨middle, id, error, first, IsTrans.trans _ _ _ second step, failed⟩

end DeclaredConstant

/-- A value that a listing shows under a name once it has come so far: that of the last
declaration that has one. -/
def SourceFile.Shows (file : SourceFile) (r s : Reflector) (seen : List DeclaredConstant)
    (name : String) (value : Value) : Prop :=
  ∃ before shown after, seen = before ++ shown :: after ∧ shown.entry.name = name ∧
    shown.Evaluates r.rules value ∧
    (file.first? shown.key = some shown →
      s.state (.global (.named shown.key)) = .resolved value) ∧
    ∀ other ∈ after, other.entry.name = name → other.Fails r s

namespace SourceFile.Shows

variable {file : SourceFile} {r s next : Reflector} {seen : List DeclaredConstant}
  {name : String} {value : Value}

theorem later (shows : file.Shows r s seen name value) (step : Step s next) :
    file.Shows r next seen name value := by
  obtain ⟨before, shown, after, split, named, evaluates, kept, failed⟩ := shows
  refine ⟨before, shown, after, split, named, evaluates, fun first => ?_, ?_⟩
  · have known := kept first
    rw [step.settled _ (by simp [known]), known]
  · exact fun other member same => (failed other member same).later step

theorem besides (shows : file.Shows r s seen name value) {declared : DeclaredConstant}
    (fails : declared.entry.name = name → declared.Fails r s) :
    file.Shows r s (seen ++ [declared]) name value := by
  obtain ⟨before, shown, after, split, named, evaluates, kept, failed⟩ := shows
  refine ⟨before, shown, after ++ [declared], by simp [split], named, evaluates, kept, ?_⟩
  intro other member same
  rcases List.mem_append.mp member with earlier | new
  · exact failed other earlier same
  · cases List.mem_singleton.mp new
    exact fails same

end SourceFile.Shows

/-- How far a listing has come. -/
structure SourceFile.Listing (file : SourceFile) (r s : Reflector)
    (values : OrderedMap String Value) (seen : List DeclaredConstant) : Prop where
  advance : Advance r s
  sound : s.Sound r.index r.options []
  shows : ∀ name value, (name, value) ∈ values.entries → file.Shows r s seen name value

/-- A reflector that knows one file and nothing else. -/
structure SourceFile.Alone (file : SourceFile) (r : Reflector) : Prop where
  keyed : file.Keyed
  fresh : r.Fresh
  nowhere : r.locator = .nowhere
  index : r.index = .ofFiles [file]

namespace SourceFile.Listing

open Query

variable {file : SourceFile} {r s : Reflector} {values : OrderedMap String Value}
  {seen : List DeclaredConstant}

/-- A query that loads nothing leaves the listing where it is. -/
theorem look {α : Type} {query : Query α} (listing : file.Listing r s values seen)
    (alone : file.Alone r) (looks : query.Looks) :
    file.Listing r (query.next s) values seen := by
  have look := looks.next s
  have nowhere := listing.advance.locator.trans alone.nowhere
  exact ⟨IsTrans.trans _ _ _ listing.advance (looks.advances.next s),
    listing.sound.load look.toLoad (look.stays nowhere),
    fun name value member => (listing.shows name value member).later look.toLoad.step⟩

/-- One declaration more. Its value, if it has one, takes the place of an earlier value of
the same name. -/
theorem add (listing : file.Listing r s values seen) (alone : file.Alone r)
    {declared : DeclaredConstant} {constant : ConstantInfo}
    (gives : Gives file declared constant) (held : s.Holds constant) :
    ∃ more, (addValue? values constant).result s = .ok more ∧
      file.Listing r ((addValue? values constant).next s) more (seen ++ [declared]) := by
  obtain ⟨id, rfl, first⟩ := gives
  have advance := (constantValue_advances (declared.info id)).next s
  have same := advance.stays (listing.advance.locator.trans alone.nowhere)
  have fair : (constantValue (declared.info id)).Fair r.index r.options s :=
    constantValue_fair held
  have sound := (fair listing.sound same).1
  have reached : Advance r ((constantValue (declared.info id)).next s) :=
    IsTrans.trans _ _ _ listing.advance advance
  unfold addValue?
  rw [result_bind_ok (result_outcome _ _), next_bind_ok (result_outcome _ _), next_outcome]
  cases answered : (constantValue (declared.info id)).result s with
  | ok value =>
      refine ⟨_, rfl, reached, sound, fun name shown member => ?_⟩
      rcases OrderedMap.mem_insert member with here | ⟨earlier, apart⟩
      · cases here
        refine ⟨seen, declared, [], rfl, rfl, ?_, fun isFirst => ?_, by simp⟩
        · exact declared.evaluates_of_value listing.sound held same answered
        · cases first isFirst
          exact declared.state_of_value answered
      · have shows := (listing.shows name shown earlier).later advance.toStep
        exact shows.besides fun sameName => absurd sameName.symm apart
  | error error =>
      refine ⟨_, rfl, reached, sound, fun name shown member => ?_⟩
      have shows := (listing.shows name shown member).later advance.toStep
      exact shows.besides fun _ =>
        ⟨s, id, error, listing.advance.toStep, advance.toStep, answered⟩

theorem addAll {declared : List DeclaredConstant} {constants : List ConstantInfo}
    (pairs : List.Forall₂ (Gives file) declared constants)
    (listing : file.Listing r s values seen) (alone : file.Alone r)
    (held : ∀ constant ∈ constants, s.Holds constant) :
    ∃ more, (constants.foldlM addValue? values).result s = .ok more ∧
      file.Listing r ((constants.foldlM addValue? values).next s) more (seen ++ declared) := by
  induction pairs generalizing s values seen with
  | nil => exact ⟨values, rfl, by simpa using listing⟩
  | @cons declaration constant _ _ gives _ ih =>
      obtain ⟨more, answered, listingMore⟩ := listing.add alone gives (held _ (by simp))
      have advances := addValue?_advances values constant
      have same := (advances.next s).stays (listing.advance.locator.trans alone.nowhere)
      obtain ⟨rest, answeredRest, listingRest⟩ := ih listingMore fun other member =>
        (Advances.keeps advances same).holds (held other (List.mem_cons_of_mem _ member))
      rw [List.foldlM_cons, result_bind_ok answered, next_bind_ok answered]
      refine ⟨rest, answeredRest, ?_⟩
      rw [List.append_cons]
      exact listingRest

theorem addBlock {place : PlacedBlock} (listing : file.Listing r s values seen)
    (alone : file.Alone r) (member : place ∈ file.placedBlocks) :
    ∃ more, (addBlockValues values place).result s = .ok more ∧
      file.Listing r ((addBlockValues values place).next s) more (seen ++ place.constants) := by
  have nowhere := listing.advance.locator.trans alone.nowhere
  have index : s.index = .ofFiles [file] := listing.sound.index_eq.trans alone.index
  have look := (blockConstants_looks place).next s
  obtain ⟨constants, answered, give⟩ := blockConstants_give alone.keyed nowhere index place
    place.block.entities.constants.values fun entry inBlock =>
      List.mem_flatMap.mpr ⟨place, member, List.mem_map_of_mem inBlock⟩
  have held := holds_of_blockConstants _ listing.sound.index_eq answered
    (look.stays nowhere)
  change (blockConstants place).result s = .ok constants at answered
  unfold addBlockValues
  rw [result_bind_ok answered, next_bind_ok answered]
  exact addAll give (listing.look alone (blockConstants_looks place)) alone held

theorem addBlocks {places : List PlacedBlock} (listing : file.Listing r s values seen)
    (alone : file.Alone r) (members : ∀ place ∈ places, place ∈ file.placedBlocks) :
    ∃ more, (places.foldlM addBlockValues values).result s = .ok more ∧
      file.Listing r ((places.foldlM addBlockValues values).next s) more
        (seen ++ places.flatMap PlacedBlock.constants) := by
  induction places generalizing s values seen with
  | nil => exact ⟨values, rfl, by simpa using listing⟩
  | cons place rest ih =>
      obtain ⟨more, answered, listingMore⟩ := listing.addBlock alone (members place (by simp))
      obtain ⟨last, answeredRest, listingRest⟩ := ih listingMore fun other member =>
        members other (List.mem_cons_of_mem _ member)
      rw [List.foldlM_cons, result_bind_ok answered, next_bind_ok answered]
      refine ⟨last, answeredRest, ?_⟩
      rw [List.flatMap_cons, ← List.append_assoc]
      exact listingRest

end SourceFile.Listing

/-- The listing of a file always has an answer, which shows the last declarations. -/
theorem SourceFile.Alone.listing {file : SourceFile} {r : Reflector} (alone : file.Alone r) :
    ∃ values, (Query.fileValues file).result r = .ok values ∧
      file.Listing r ((Query.fileValues file).next r) values file.constants := by
  have start : file.Listing r r {} [] :=
    ⟨refl r, alone.fresh.sound, fun _ _ member => absurd member List.not_mem_nil⟩
  exact start.addBlocks alone fun _ member => member

theorem Query.index_withSources {α : Type}
    (change : SourceCache → Except SourceError α × SourceCache) (r : Reflector) :
    ((withSources change).next r).index = r.index := by
  unfold withSources
  rw [next_get_bind, next_modify_bind]
  split <;> rfl

/-- Without outcomes for any path, a text is parsed. -/
theorem Query.result_text (options : Options) (locator : Locator) (disk : Disk) (path : String)
    (text : Text) : (Query.text path text).result (.new options locator { disk }) =
      (SourceCache.checkSyntax (.parse (disk.canonical path) text)).mapError .source :=
  Source.result_reflect (.written path text) _

/-- A text that is read becomes known. -/
theorem Query.index_text {path : String} {text : Text} {file : SourceFile} {r : Reflector}
    (loaded : (Query.text path text).result r = .ok file) :
    ((Query.text path text).next r).index = r.index.addFile file := by
  obtain ⟨given, answered, rest⟩ := Query.ok_of_bind loaded
  cases rest
  unfold Query.text
  rw [Query.next_bind_ok answered]
  change ((Query.withSources _).next _).index.addFile file = _
  rw [Query.index_withSources]

/-- A text without errors as the only file. -/
theorem SourceFile.alone_of_text {options : Options} {disk : Disk} {path : String}
    {text : Text} {file : SourceFile}
    (loaded : (Query.text path text).result (.new options .nowhere { disk }) = .ok file) :
    file.Alone ((Query.text path text).next (.new options .nowhere { disk })) := by
  have load := (Query.text_loads path text).next (.new options .nowhere { disk })
  have keyed : file.Keyed := by
    have parsed := (Query.result_text options .nowhere disk path text).symm.trans loaded
    unfold SourceCache.checkSyntax at parsed
    split at parsed
    · cases parsed
      exact keyed_parse _ text 0
    · cases parsed
  have index : ((Query.text path text).next (.new options .nowhere { disk })).index =
      .ofFiles [file] := Query.index_text loaded
  exact ⟨keyed, ⟨⟨[file], index⟩, fun id => by simp only [Reflector.state, load.states]; rfl,
    load.underway⟩, load.locator, index⟩

/-- Of the declarations of a name, the listing of a file shows the last one with a value and
the look-up finds the first one. They agree on a value that is shown of a first
declaration. -/
theorem listing_shows_last_lookUp_finds_first (options : Options) (disk : Disk) (path : String)
    (text : Text) {file : SourceFile}
    (loaded : (Query.text path text).result (.new options .nowhere { disk }) = .ok file) :
    let r := (Query.text path text).next (.new options .nowhere { disk })
    let listed := (Query.fileValues file).next r
    let lookUp (name : String) : Query Value := do
      Query.constantValue (← Query.constantNamed name)
    ∃ values, (Query.fileValues file).result r = .ok values ∧
      ∀ name value, (name, value) ∈ values.entries →
        ∃ before shown after first, file.constants = before ++ shown :: after ∧
          shown.entry.name = name ∧ shown.Evaluates r.rules value ∧
          (∀ other ∈ after, other.entry.name = name → other.Fails r listed) ∧
          (before ++ [shown]).find? (·.key = .constant name) = some first ∧
          (Query.constantNamed name).result listed =
            .ok (first.info (.named (.constant name))) ∧
          ((∀ other ∈ before, other.key ≠ .constant name) →
            (lookUp name).result listed = .ok value) ∧
          ∀ found, (lookUp name).result listed = .ok found → first.Evaluates r.rules found := by
  intro r listed lookUp
  have alone : file.Alone r := SourceFile.alone_of_text loaded
  obtain ⟨values, answered, listing⟩ := alone.listing
  refine ⟨values, answered, fun name value member => ?_⟩
  obtain ⟨before, shown, after, split, rfl, evaluates, kept, failed⟩ :=
    listing.shows name value member
  have isSome : ((before ++ [shown]).find? (·.key = shown.key)).isSome :=
    List.find?_isSome.mpr ⟨shown, by simp, by simp⟩
  obtain ⟨first, isFirst⟩ := Option.isSome_iff_exists.mp isSome
  have firstInFile : file.first? shown.key = some first := by
    rw [SourceFile.first?, split, List.append_cons, List.find?_append, isFirst]
    rfl
  have known : listed.index.constant? shown.entry.name =
      some (first.info (.named shown.key)) := by
    rw [listing.sound.index_eq, alone.index, EntityIndex.constant?_ofFile alone.keyed]
    exact congrArg (Option.map _) firstInFile
  have named := Query.constantNamed_eq_ok_iff.mpr known
  let told := (Query.constantNamed shown.entry.name).next listed
  have note : Note listed told := (Query.constantNamed_notes shown.entry.name).next listed
  have asked : (lookUp shown.entry.name).result listed =
      (Query.constantValue (first.info (.named shown.key))).result told :=
    Query.result_bind_ok named _
  refine ⟨before, shown, after, first, split, rfl, evaluates, failed, isFirst, named, ?_, ?_⟩
  · intro new
    have noEarlier : before.find? (·.key = shown.key) = none := by
      rw [List.find?_eq_none]
      intro other earlier
      have apart : other.key ≠ shown.key := new other earlier
      simpa using apart
    have same : shown = first := by
      simpa [List.find?_append, noEarlier] using isFirst
    subst same
    rw [asked]
    exact shown.value_of_state ((note.state _).trans (kept firstInFile))
  · intro found answered
    rw [asked] at answered
    have listing := listing.look alone (Query.constantNamed_looks shown.entry.name)
    have advance := (Query.constantValue_advances (first.info (.named shown.key))).next told
    have held : told.Holds (first.info (.named shown.key)) :=
      told.holds_of_global (note.index ▸ known)
    exact first.evaluates_of_value listing.sound held
      (advance.stays (listing.advance.locator.trans alone.nowhere)) answered

/-- A constant of two blocks: the listing shows the second declaration, the look-up finds the
first. -/
theorem listing_differs_from_lookUp :
    let text : Text := ("<?php namespace A \x7b const X = 1; \x7d " ++
      "namespace A \x7b const X = 5; \x7d").toList
    let file := SourceFile.parse "/a.php" text
    let start := Reflector.new {} .nowhere {}
    let r := (Query.text "/a.php" text).next start
    let listed := (Query.fileValues file).next r
    let lookUp : Query Value := do Query.constantValue (← Query.constantNamed "A\\X")
    (Query.text "/a.php" text).result start = .ok file ∧
    (∃ values, (Query.fileValues file).result r = .ok values ∧
      values.find? "A\\X" = some (.int 5)) ∧
    lookUp.result listed = .ok (.int 1) ∧
    ∃ shown first : DeclaredConstant,
      shown.Evaluates r.rules (.int 5) ∧ first.Evaluates r.rules (.int 1) := by
  intro text file start r listed lookUp
  have clean : file.diagnostics.isEmpty = true := by decide +kernel
  have canonical : Disk.canonical {} "/a.php" = "/a.php" := by decide +kernel
  have loaded : (Query.text "/a.php" text).result start = .ok file := by
    rw [Query.result_text, canonical, SourceCache.checkSyntax, if_pos clean]
    rfl
  have shows : (do return ((← Query.fileValues file).find? "A\\X").getD .null :
      Query Value).result r = .ok (.int 5) := by decide +kernel
  have finds : lookUp.result listed = .ok (.int 1) := by decide +kernel
  obtain ⟨values, answered, agree⟩ :=
    listing_shows_last_lookUp_finds_first {} {} "/a.php" text loaded
  rw [Query.result_bind_ok answered, Query.result_pure] at shows
  have found : values.find? "A\\X" = some (.int 5) := by
    cases listedValue : values.find? "A\\X" with
    | some value =>
        rw [listedValue] at shows
        exact congrArg some (Except.ok.inj shows)
    | none =>
        rw [listedValue] at shows
        cases shows
  obtain ⟨_, shown, _, first, _, _, evaluates, _, _, _, _, evaluatesFirst⟩ :=
    agree "A\\X" (.int 5) (OrderedMap.mem_of_find? found)
  exact ⟨loaded, ⟨values, answered, found⟩, finds, shown, first, evaluates,
    evaluatesFirst (.int 1) finds⟩

end StaticReflection
