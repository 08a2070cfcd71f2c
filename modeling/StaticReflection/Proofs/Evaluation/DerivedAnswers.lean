import StaticReflection.Proofs.Evaluation.SoundMemory

namespace StaticReflection

/-! Evaluations follow their plans: an answer is derived, what it took is remembered, and
a failure is explained. -/

open Evaluation Setting

/-- What a plan may come to: constants that were given away, asked for by their own
expressions, and failures that are not about constants which depend on themselves. -/
def Reflector.Expects (r : Reflector) : Event → Prop
  | .node _ _ => True
  | .constant constant root => constant.value = some root ∧ r.Holds constant
  | .failure error => error.Ordinary

theorem Reflector.Expects.proper {r : Reflector} {event : Event} (expects : r.Expects event) :
    event.Proper := by
  cases event with
  | constant => exact expects.1
  | _ => trivial

/-- A plan that is carried out for the last constant of a chain. -/
structure Setting.Serves {α : Type} (setting : Setting) (chain : List ConstantInfo)
    (r : Reflector) (scope : Scope) (plan : Plan α) : Prop where
  belongs : ∀ last ∈ chain.getLast?, ∀ constant, setting.Demands scope plan constant →
    setting.Refers last constant
  expected : setting.Only scope plan r.Expects

/-- What an answer leaves behind. All that it took is remembered, nothing else is new, and
no constant has failed. -/
structure Setting.Answers {α : Type} (setting : Setting) (scope : Scope) (plan : Plan α)
    (r next : Reflector) (value : α) : Prop where
  derived : setting.Derives scope plan value
  needed : ∀ constant, setting.Demands scope plan constant →
    ∃ known, next.state constant.id = .resolved known
  introduced : ∀ id known, next.state id = .resolved known → r.state id ≠ .resolved known →
    ∃ constant, setting.Depends scope plan constant ∧ constant.id = id
  failures : ∀ id error, next.state id = .failed error → r.state id = .failed error

/-- A query does what a plan says. -/
def Query.Follows {α : Type} (index : EntityIndex) (options : Options) (scope : Scope)
    (plan : Plan α) (query : Query α) : Prop :=
  ∀ chain r, r.Sound index options chain →
    (bounded index options).Serves chain r scope plan → (query.next r).index = r.index →
      (query.next r).Sound index options chain ∧
      (∀ value, query.result r = .ok value →
        (bounded index options).Answers scope plan r (query.next r) value) ∧
      ∀ error, query.result r = .error error →
        (bounded index options).Explains (query.next r) scope plan error

section Parts

variable {index : EntityIndex} {options : Options} {scope : Scope} {α β : Type}
  {chain : List ConstantInfo} {r next : Reflector}

theorem Reflector.Expects.keep (keeps : r.Keeps next) {event : Event}
    (expects : r.Expects event) : next.Expects event := by
  cases event with
  | node => trivial
  | constant => exact ⟨expects.1, keeps.holds expects.2⟩
  | failure => exact expects

theorem Setting.Answers.still {setting : Setting} {plan : Plan α} {value : α}
    (states : ∀ id, next.state id = r.state id) (derived : setting.Derives scope plan value)
    (needed : ∀ constant, setting.Demands scope plan constant →
      ∃ known, r.state constant.id = .resolved known) :
    setting.Answers scope plan r next value where
  derived := derived
  needed constant demands := by
    rw [states]
    exact needed constant demands
  introduced id known state new := absurd ((states id).symm.trans state) new
  failures id error state := (states id).symm.trans state

theorem Setting.Demands.depends {setting : Setting} {plan : Plan α} {constant : ConstantInfo}
    (demands : setting.Demands scope plan constant) : setting.Depends scope plan constant :=
  ⟨constant, demands, .refl⟩

theorem Setting.Depends.lift {setting : Setting} {scopeToo : Scope} {part : Plan α}
    {plan : Plan β} {constant : ConstantInfo}
    (needs : ∀ first, setting.Demands scope part first → setting.Demands scopeToo plan first)
    (depends : setting.Depends scope part constant) :
    setting.Depends scopeToo plan constant := by
  obtain ⟨first, demands, reached⟩ := depends
  exact ⟨first, needs first demands, reached⟩

theorem Setting.Answers.bind {setting : Setting} (functional : setting.Functional)
    {plan : Plan α} {rest : α → Plan β} {middle : Reflector} {given : α} {value : β}
    (first : setting.Answers scope plan r middle given)
    (second : setting.Answers scope (rest given) middle next value)
    (step : Step middle next) :
    setting.Answers scope (plan >>= rest) r next value where
  derived := derives_bind.mpr ⟨given, first.derived, second.derived⟩
  needed constant demands := by
    rcases demands_bind.mp demands with here | ⟨other, derived, later⟩
    · obtain ⟨known, state⟩ := first.needed constant here
      refine ⟨known, ?_⟩
      rw [step.settled _ (by simp [state]), state]
    · cases first.derived.unique functional derived
      exact second.needed constant later
  introduced id known state new := by
    by_cases middleState : middle.state id = .resolved known
    · obtain ⟨constant, depends, sameId⟩ := first.introduced id known middleState new
      exact ⟨constant, depends.lift fun _ demands => demands_bind.mpr (.inl demands), sameId⟩
    · obtain ⟨constant, depends, sameId⟩ := second.introduced id known state middleState
      exact ⟨constant, depends.lift fun _ demands =>
        demands_bind.mpr (.inr ⟨given, first.derived, demands⟩), sameId⟩
  failures id error state := first.failures id error (second.failures id error state)

theorem Setting.Serves.outermost {setting : Setting} {plan : Plan α}
    (expected : setting.Only scope plan r.Expects) : setting.Serves [] r scope plan :=
  ⟨fun _ member => by simp at member, expected⟩

theorem Setting.Serves.first {setting : Setting} {chain : List ConstantInfo} {r : Reflector}
    {plan : Plan α} {rest : α → Plan β} (serves : setting.Serves chain r scope (plan >>= rest)) :
    setting.Serves chain r scope plan :=
  ⟨fun last member constant demands =>
      serves.belongs last member constant (demands_bind.mpr (.inl demands)),
    fun event meets => serves.expected event (meets.bind_left rest)⟩

theorem Setting.Serves.rest {setting : Setting} {chain : List ConstantInfo}
    {r next : Reflector} {plan : Plan α} {rest : α → Plan β} {given : α}
    (serves : setting.Serves chain r scope (plan >>= rest))
    (derived : setting.Derives scope plan given) (keeps : r.Keeps next) :
    setting.Serves chain next scope (rest given) :=
  ⟨fun last member constant demands => serves.belongs last member constant
      (demands_bind.mpr (.inr ⟨given, derived, demands⟩)),
    fun event meets => (serves.expected event (.bind_right derived meets)).keep keeps⟩

theorem Query.Follows.bind {plan : Plan α} {rest : α → Plan β} {query : Query α}
    {continue_ : α → Query β} (first : query.Follows index options scope plan)
    (second : ∀ value, (continue_ value).Follows index options scope (rest value))
    (advances : query.Advances) (continueAdvances : ∀ value, (continue_ value).Advances) :
    (query >>= continue_).Follows index options scope (plan >>= rest) := by
  intro chain r sound serves same
  obtain ⟨sameMiddle, sameRest⟩ := index_of_bind advances continueAdvances same
  obtain ⟨soundMiddle, answers, explains⟩ := first chain r sound serves.first sameMiddle
  cases answered : query.result r with
  | error error =>
      rw [result_bind_error answered, next_bind_error answered]
      have explained := explains error answered
      refine ⟨soundMiddle, nofun, fun thrown sameError => ?_⟩
      cases sameError
      refine ⟨fun apart value derived => ?_, explained.circular⟩
      obtain ⟨given, derived, _⟩ := derives_bind.mp derived
      exact explained.underivable apart given derived
  | ok given =>
      rw [result_bind_ok answered, next_bind_ok answered]
      have answersFirst := answers given answered
      have keeps : r.Keeps (query.next r) := ⟨sameMiddle, (advances.next r).hidden⟩
      obtain ⟨soundLast, answersRest, explainsRest⟩ := second given chain _ soundMiddle
        (serves.rest answersFirst.derived keeps) (sameRest given answered)
      refine ⟨soundLast, fun value answeredRest => ?_, fun error failed => ?_⟩
      · exact answersFirst.bind bounded_functional (answersRest value answeredRest)
          ((continueAdvances given).next _).toStep
      · have explained := explainsRest error failed
        refine ⟨fun apart value derived => ?_, explained.circular⟩
        obtain ⟨other, derivedFirst, derivedRest⟩ := derives_bind.mp derived
        cases answersFirst.derived.unique bounded_functional derivedFirst
        exact explained.underivable apart value derivedRest

theorem Query.follows_done (result : Except ReflectionError α) :
    (ofExcept result : Query α).Follows index options scope (.done result) := by
  intro chain r sound serves same
  rw [next_ofExcept, result_ofExcept]
  refine ⟨sound, ?_, ?_⟩
  · rintro value rfl
    exact .still (fun _ => rfl) .done fun _ demands => absurd demands not_demands_done
  · rintro error rfl
    refine ⟨fun _ value derived => (nomatch derives_done.mp derived), fun cycle circular => ?_⟩
    exact absurd circular (serves.expected _ .failure cycle)

theorem Query.Looks.follows {plan : Plan α} {query : Query α} (looks : query.Looks)
    (idle : ∀ constant, ¬ (bounded index options).Demands scope plan constant)
    (found : ∀ r value, Alike { options, index } r → (query.next r).index = r.index →
      ((bounded index options).Derives scope plan value ↔ query.result r = .ok value)) :
    query.Follows index options scope plan := by
  intro chain r sound serves same
  have states : ∀ id, (query.next r).state id = r.state id := by
    intro id
    simp only [Reflector.state, (looks.next r).states]
  refine ⟨sound.load (looks.next r).toLoad same, fun value answered => ?_, fun error failed => ?_⟩
  · exact .still states ((found r value sound.alike same).mpr answered)
      fun constant demands => absurd demands (idle constant)
  · refine ⟨fun _ value derived => ?_, fun cycle circular => ?_⟩
    · rw [(found r value sound.alike same).mp derived] at failed
      cases failed
    · exact absurd circular (looks.error failed cycle)

theorem Query.follows_classNamed (name : String) :
    (classNamed name).Follows index options scope (Plan.classNamed name) := by
  refine (classNamed_looks name).follows
    (fun _ => not_demands_of_not_meets not_meets_classNamed) fun r info alike same => ?_
  rw [derives_classNamed]
  constructor
  · intro known
    refine (classNamed_of_known ?_).1
    rw [alike.index]
    exact known
  · intro answered
    have known := known_of_classNamed answered same
    rw [alike.index] at known
    exact known

theorem Query.follows_constant? (name : String) :
    (constant? name).Follows index options scope (Plan.declared? name) := by
  refine (constant?_notes name).looks.follows
    (fun _ => not_demands_of_not_meets not_meets_declared?) fun r found alike _ => ?_
  rw [derives_declared?, result_constant?, alike.index]
  constructor
  · rintro rfl
    rfl
  · intro answered
    cases answered
    rfl

theorem Query.follows_member? (info : ClassInfo) (name : String) :
    (member? .constant info name).Follows index options scope (Plan.member? info name) := by
  refine (member?_looks .constant info name).follows
    (fun _ => not_demands_of_not_meets not_meets_member?) fun r found alike same => ?_
  rw [derives_member?]
  exact finds_bounded_iff alike same

/-- A query also follows a plan that comes to the same values through the same constants. -/
theorem Query.Follows.transfer {part plan : Plan α} {query asked : Query α}
    (follows : query.Follows index options scope part)
    (derives : ∀ value, (bounded index options).Derives scope plan value ↔
      (bounded index options).Derives scope part value)
    (demands : ∀ constant, (bounded index options).Demands scope plan constant ↔
      (bounded index options).Demands scope part constant)
    (expects : ∀ r : Reflector, r.index = index →
      (bounded index options).Only scope plan r.Expects →
        (bounded index options).Only scope part r.Expects)
    (same : ∀ r, Alike { options, index } r → asked r = query r) :
    asked.Follows index options scope plan := by
  intro chain r sound serves sameIndex
  have sameRun := same r sound.alike
  have sameNext : asked.next r = query.next r := congrArg Prod.snd sameRun
  have sameResult : asked.result r = query.result r := congrArg Prod.fst sameRun
  rw [sameNext] at sameIndex ⊢
  rw [sameResult]
  obtain ⟨soundNext, answers, explains⟩ := follows chain r sound
    ⟨fun last member constant needs =>
        serves.belongs last member constant ((demands constant).mpr needs),
      expects r sound.alike.index serves.expected⟩ sameIndex
  refine ⟨soundNext, fun value answered => ?_, fun error failed => ?_⟩
  · have answer := answers value answered
    refine ⟨(derives value).mpr answer.derived, fun constant needs =>
      answer.needed constant ((demands constant).mp needs), fun id known state new => ?_,
      answer.failures⟩
    obtain ⟨constant, depends, sameId⟩ := answer.introduced id known state new
    exact ⟨constant, depends.lift fun first => (demands first).mpr, sameId⟩
  · have explained := explains error failed
    exact ⟨fun apart value derived =>
      explained.underivable apart value ((derives value).mp derived), explained.circular⟩

end Parts

section Sites

variable {index : EntityIndex} {options : Options} {r : Reflector} {scope : Scope}
  {node : NodeId} {constant : ConstantInfo}
  (same : r.index = index)

include same

theorem Reflector.holds_of_finds {info : ClassInfo} {name : String}
    (known : index.class? name = some info) {written : String}
    (finds : (bounded index options).finds info written (some constant)) : r.Holds constant := by
  subst same
  rcases (bounded_within.finds _ _ _ finds).declared with own | ⟨_, other, knownOther, own⟩
  · exact r.holds_of_member (r.holdsClass_of_known known) own
  · exact r.holds_of_member (r.holdsClass_of_known knownOther) own

theorem Setting.Site.holds (site : (bounded index options).Site scope node constant) :
    r.Holds constant := by
  have globals : ∀ {name : String}, index.constant? name = some constant → r.Holds constant := by
    intro name known
    rw [← same] at known
    exact r.holds_of_global known
  cases site with
  | name _ found =>
      obtain ⟨name, _, known⟩ := List.exists_of_findSome?_eq_some found
      exact globals known
  | member _ _ _ known finds => exact r.holds_of_finds same known finds
  | caseValue _ _ _ known declared _ =>
      rw [← same] at known
      exact r.holds_of_member (r.holdsClass_of_known known) declared
  | call _ _ _ _ names =>
      cases names with
      | global _ known => exact globals known
      | member _ _ known finds => exact r.holds_of_finds same known finds

theorem Reflector.expects_expression (scope : Scope) (mode : Mode) (node : NodeId) :
    (bounded index options).Only scope (expression scope mode node) r.Expects := by
  intro event meets
  have raises := only_expression scope mode node event meets
  cases event with
  | node => trivial
  | constant => exact ⟨raises.1, raises.2.holds same⟩
  | failure => exact raises

end Sites

section Runs

variable {index : EntityIndex} {options : Options}

theorem Plan.carryOut_follows {α : Type} {scope : Scope}
    {nodeValue : Mode → NodeId → Query Value}
    {initializerValue : ConstantInfo → NodeId → Query Value}
    (nodes : ∀ mode node, (nodeValue mode node).Follows index options scope (.value mode node))
    (initializers : ∀ constant node,
      (initializerValue constant node).Follows index options scope (.initializer constant node))
    (nodesAdvance : ∀ mode node, (nodeValue mode node).Advances)
    (initializersAdvance : ∀ constant node, (initializerValue constant node).Advances)
    (plan : Plan α) :
    (plan.carryOut nodeValue initializerValue).Follows index options scope plan := by
  have advances := fun plan : Plan α => plan.carryOut_advances nodesAdvance initializersAdvance
  induction plan with
  | done result => exact Query.follows_done result
  | askNode mode node next ih =>
      exact (nodes mode node).bind ih (nodesAdvance mode node) fun value => advances (next value)
  | askConstant constant node next ih =>
      exact (initializers constant node).bind ih (initializersAdvance constant node)
        fun value => advances (next value)
  | askClass name next ih =>
      exact (Query.follows_classNamed name).bind ih (Query.classNamed_looks name).advances
        fun info => advances (next info)
  | askMember info name next ih =>
      exact (Query.follows_member? info name).bind ih
        (Query.member?_looks .constant info name).advances fun member => advances (next member)
  | askDeclared name next ih =>
      exact (Query.follows_constant? name).bind ih (Query.constant?_notes name).looks.advances
        fun constant => advances (next constant)
  | askIndex next ih =>
      refine (ih index).transfer (fun value => ⟨?_, .index⟩)
        (fun constant => ⟨.lift ?_, .lift fun _ => .afterIndex⟩)
        (fun r _ only event meets => only event (.afterIndex meets)) ?_
      · rintro ⟨derived⟩
        assumption
      · rintro event ⟨meets⟩
        assumption
      · intro r alike
        have known : r.index = index := alike.index
        rw [← known]
        rfl
  | askPlatform next ih =>
      refine (ih options.platform).transfer (fun value => ⟨?_, .platform⟩)
        (fun constant => ⟨.lift ?_, .lift fun _ => .afterPlatform⟩)
        (fun r _ only event meets => only event (.afterPlatform meets)) ?_
      · rintro ⟨derived⟩
        assumption
      · rintro event ⟨meets⟩
        assumption
      · intro r alike
        have known : r.options = options := alike.options
        rw [← known]
        rfl

theorem Query.Follows.within {α : Type} {scope : Scope} {plan : Plan α} {query : Query α}
    (follows : query.Follows index options scope plan) :
    (inside (·.enterExpression) (·.leaveExpression) query).Follows index options scope plan := by
  intro chain r sound serves same
  have opened : (r.withUnderway r.underway.enterExpression).Sound index options chain :=
    sound.keep ⟨rfl, List.prefix_refl _⟩ rfl rfl rfl fun _ => rfl
  rw [next_inside] at same ⊢
  rw [result_inside]
  obtain ⟨soundNext, answers, explains⟩ := follows chain _ opened
    ⟨serves.belongs, serves.expected⟩ same
  have keeps : (query.next (r.withUnderway r.underway.enterExpression)).Keeps
      ((query.next (r.withUnderway r.underway.enterExpression)).withUnderway
        (query.next (r.withUnderway r.underway.enterExpression)).underway.leaveExpression) :=
    ⟨rfl, List.prefix_refl _⟩
  refine ⟨soundNext.keep keeps rfl rfl rfl fun _ => rfl, fun value answered => ?_,
    fun error failed => (explains error failed).keep keeps⟩
  have answer := answers value answered
  exact ⟨answer.derived, answer.needed, answer.introduced, answer.failures⟩

theorem Reflector.Sound.serves_entering {r : Reflector} {chain : List ConstantInfo}
    {constant : ConstantInfo} {node : NodeId} (sound : r.Sound index options chain)
    (stands : constant.value = some node) :
    (bounded index options).Serves (chain ++ [constant]) (r.entering constant) constant.scope
      (expression constant.scope .strict node) := by
  have indexed : (r.entering constant).index = index := sound.alike.index
  refine ⟨fun last member other demands => ?_, ?_⟩
  · rw [List.getLast?_concat] at member
    cases member
    exact ⟨node, stands, demands_expression.mp demands⟩
  · exact (r.entering constant).expects_expression indexed _ _ _

theorem Setting.Answers.leaving {setting : Setting} {constant : ConstantInfo} {node : NodeId}
    {r next : Reflector} {value : Value} (stands : constant.value = some node)
    (answers : setting.Answers constant.scope (expression constant.scope .strict node)
      (r.entering constant) next value) (scope : Scope) :
    setting.Answers scope (.initializer constant node) r (next.leaving constant (.ok value))
      value := by
  have settles : (next.leaving constant (.ok value)).state constant.id = .resolved value := by
    rw [Reflector.state_leaving, if_pos rfl]
    rfl
  have others : ∀ id, id ≠ constant.id →
      (next.leaving constant (.ok value)).state id = next.state id ∧
        (r.entering constant).state id = r.state id :=
    fun id apart => ⟨by rw [Reflector.state_leaving, if_neg apart],
      by rw [Reflector.state_entering, if_neg apart]⟩
  refine ⟨derives_initializer.mpr answers.derived, fun needed demands => ?_,
    fun id known state new => ?_, fun id error state => ?_⟩
  · cases demands_initializer.mp demands
    exact ⟨value, settles⟩
  · by_cases same : id = constant.id
    · exact ⟨constant, (demands_initializer.mpr rfl).depends, same.symm⟩
    · rw [(others id same).1] at state
      rw [← (others id same).2] at new
      obtain ⟨needed, ⟨first, demands, reached⟩, neededId⟩ :=
        answers.introduced id known state new
      exact ⟨needed, ⟨constant, demands_initializer.mpr rfl,
        .head ⟨node, stands, demands_expression.mp demands⟩ reached⟩, neededId⟩
  · by_cases same : id = constant.id
    · rw [same, settles] at state
      cases state
    · rw [(others id same).1] at state
      rw [← (others id same).2]
      exact answers.failures id error state

theorem Evaluation.find_out_follows {query : Query Value}
    {constant : ConstantInfo} {node : NodeId} {chain : List ConstantInfo} {r : Reflector}
    (follows : query.Follows index options constant.scope
      (expression constant.scope .strict node))
    (scope : Scope) (sound : r.Sound index options chain)
    (held : r.Holds constant) (stands : constant.value = some node)
    (known : r.state constant.id = .unresolved)
    (linked : ∀ last ∈ chain.getLast?, (bounded index options).Refers last constant)
    (same : (query.next (r.entering constant)).index = r.index) :
    let result := query.result (r.entering constant)
    let next := (query.next (r.entering constant)).leaving constant result
    next.Sound index options chain ∧
      (∀ value, result = .ok value →
        (bounded index options).Answers scope (.initializer constant node) r next value) ∧
      ∀ error, result = .error error →
        (bounded index options).Explains next scope (.initializer constant node) error := by
  intro result next
  have fresh := sound.apart known
  obtain ⟨soundLast, answers, explains⟩ :=
    follows _ _ (sound.entering held known linked) (sound.serves_entering stands) same
  refine ⟨soundLast.leaving fresh ?_ ?_, fun value answered => ?_, fun error failed => ?_⟩
  · intro value answered
    have answer := answers value answered
    refine ⟨⟨node, stands, answer.derived⟩, fun other refersTo => ?_⟩
    obtain ⟨root, rootStands, reaches⟩ := refersTo
    cases stands.symm.trans rootStands
    exact answer.needed other (demands_expression.mpr reaches)
  · intro error root failed rootStands
    cases stands.symm.trans rootStands
    exact explains error failed
  · have answer := (answers value answered).leaving stands scope
    rwa [← answered] at answer
  · have keeps : (query.next (r.entering constant)).Keeps next := Reflector.keeps_leaving
    have explained := (explains error failed).keep keeps
    exact ⟨fun apart value derived =>
      explained.underivable apart value (derives_initializer.mp derived), explained.circular⟩

theorem Reflector.Sound.explains_resolving {r : Reflector} {chain : List ConstantInfo}
    {constant : ConstantInfo} {node : NodeId} (sound : r.Sound index options chain)
    (scope : Scope) (held : r.Holds constant) (stands : constant.value = some node)
    (resolving : r.state constant.id = .resolving)
    (linked : ∀ last ∈ chain.getLast?, (bounded index options).Refers last constant) :
    (bounded index options).Explains r scope (.initializer constant node)
      (.circularConstant (cycleFrom r.underway.constants constant.identity)) := by
  have member := sound.resolving constant held resolving
  have closed := sound.linked_concat linked
  refine ⟨fun _ value derived => ?_, fun cycle sameCycle => ?_⟩
  · have evaluates : (bounded index options).Evaluates constant value :=
      ⟨node, stands, derives_initializer.mp derived⟩
    exact evaluates.acyclic bounded_functional (transGen_of_closed closed member)
  · obtain ⟨kept, suffix, keptMember, first, reported⟩ := cycleFrom_map member
    rw [sound.names, reported] at sameCycle
    refine ⟨kept, constant, fun entry inKept => sound.held entry (suffix.mem inKept),
      sound.distinct.sublist (suffix.sublist.map _), ?_, keptMember, first,
      (ReflectionError.circularConstant.inj sameCycle).symm⟩
    obtain ⟨skipped, split⟩ := suffix
    rw [← split, List.append_assoc] at closed
    exact closed.right_of_append

theorem Evaluation.resolve_follows {eval : Scope → NodeId → Query Value}
    (follows : ∀ scope node,
      (eval scope node).Follows index options scope (expression scope .strict node))
    (scope : Scope) (constant : ConstantInfo) (node : NodeId) :
    (resolve eval constant node).Follows index options scope (.initializer constant node) := by
  intro chain r sound serves same
  obtain ⟨stands, held⟩ := serves.expected (.constant constant node) .constant
  have linked : ∀ last ∈ chain.getLast?, (bounded index options).Refers last constant :=
    fun last member => serves.belongs last member constant (demands_initializer.mpr rfl)
  cases known : r.state constant.id with
  | resolved value =>
      rw [(resolve_of_resolved known).1, (resolve_of_resolved known).2]
      obtain ⟨⟨root, rootStands, derived⟩, _⟩ := sound.resolved constant value held known
      cases stands.symm.trans rootStands
      refine ⟨sound, fun other sameValue => ?_, nofun⟩
      cases sameValue
      refine .still (fun _ => rfl) (derives_initializer.mpr derived) fun needed demands => ?_
      cases demands_initializer.mp demands
      exact ⟨value, known⟩
  | failed error =>
      rw [(resolve_of_failed known).1, (resolve_of_failed known).2]
      have explained := sound.failed constant error node held known stands
      refine ⟨sound, nofun, fun thrown sameError => ?_⟩
      cases sameError
      exact ⟨fun apart value derived =>
        explained.underivable apart value (derives_initializer.mp derived), explained.circular⟩
  | resolving =>
      rw [(resolve_of_resolving known).1, (resolve_of_resolving known).2]
      refine ⟨sound, nofun, fun thrown sameError => ?_⟩
      cases sameError
      exact sound.explains_resolving scope held stands known linked
  | unresolved =>
      by_cases long : r.options.maxConstantChain ≤ r.underway.constants.length
      · rw [(resolve_of_long_chain known long).1, (resolve_of_long_chain known long).2]
        refine ⟨sound, nofun, fun thrown sameError => ?_⟩
        cases sameError
        exact .ofDepth
      · obtain ⟨result, next⟩ : (resolve eval constant node).result r = _ ∧
            (resolve eval constant node).next r = _ :=
          resolve_of_unresolved known (Nat.lt_of_not_le long)
        rw [next] at same
        rw [result, next]
        exact find_out_follows (follows _ _) scope sound held stands known linked same

theorem Plan.carryOut_evaluate_follows {eval : Mode → Scope → NodeId → Query Value}
    (follows : ∀ mode scope node,
      (eval mode scope node).Follows index options scope (expression scope mode node))
    (advances : ∀ mode scope node, (eval mode scope node).Advances) {α : Type} (scope : Scope)
    (plan : Plan α) :
    (plan.carryOut (eval · scope ·) (resolve (eval .strict))).Follows index options scope
      plan := by
  refine plan.carryOut_follows (fun mode node => ?_)
    (resolve_follows (follows .strict) scope)
    (fun mode node => advances mode scope node) (resolve_advances (advances .strict))
  exact (follows mode scope node).transfer (fun value => derives_value)
    (fun constant => demands_value.trans demands_expression.symm)
    (fun r same _ => r.expects_expression same scope mode node)
    fun r _ => rfl

theorem Evaluation.evaluate_follows (room : Nat) (mode : Mode)
    (scope : Scope) (node : NodeId) :
    (evaluate room mode scope node).Follows index options scope
      (expression scope mode node) := by
  induction room generalizing mode scope node with
  | zero =>
      intro chain r sound serves same
      refine ⟨sound, nofun, fun error failed => ?_⟩
      cases failed
      exact .ofDepth
  | succ room ih =>
      exact (Plan.carryOut_evaluate_follows ih (evaluate_advances room) scope
        (expression scope mode node)).within

theorem Query.perform_follows {α : Type} (scope : Scope)
    (plan : Plan α) : (perform scope plan).Follows index options scope plan := by
  intro chain r sound serves same
  exact Plan.carryOut_evaluate_follows (evaluate_follows _)
    (evaluate_advances _) scope plan chain r sound serves same

end Runs

end StaticReflection
