import StaticReflection.Proofs.Evaluation.DefaultConstants
import StaticReflection.Proofs.Evaluation.GroundedPlans
import StaticReflection.Proofs.Evaluation.LargerMemory
import StaticReflection.Proofs.Reflection.HeldConstants

namespace StaticReflection

/-! Evaluations that start from the same memory, whatever it holds. In which order they are made
does not matter: what one of them finds out is what the others would have found out. -/

def Reflector.Knows (r : Reflector) (constant : ConstantInfo) : Prop :=
  ∃ value, r.state constant.id = .resolved value

/-- A query has an answer for which nothing is loaded. -/
def Query.Knows {α : Type} (query : Query α) (r : Reflector) (value : α) : Prop :=
  query.result r = .ok value ∧ Note r (query.next r)

/-- A plan comes to a value where what a reflector remembers is taken from memory and everything
else is evaluated. The constants that are needed for it besides those remembered are listed. -/
inductive Recalls (r : Reflector) : Scope → {α : Type} → Plan α → α → List ConstantInfo → Prop
  | done {scope : Scope} {α : Type} {value : α} : Recalls r scope (.done (.ok value)) value []
  | node {scope : Scope} {α : Type} {mode : Mode} {node : NodeId} {next : Value → Plan α}
      {given : Value} {value : α} {inner outer : List ConstantInfo} :
      Recalls r scope (Evaluation.expression scope mode node) given inner →
      Recalls r scope (next given) value outer →
      Recalls r scope (.askNode mode node next) value (inner ++ outer)
  | known {scope : Scope} {α : Type} {constant : ConstantInfo} {node : NodeId}
      {next : Value → Plan α} {given : Value} {value : α} {outer : List ConstantInfo} :
      r.state constant.id = .resolved given →
      Recalls r scope (next given) value outer →
      Recalls r scope (.askConstant constant node next) value outer
  | new {scope : Scope} {α : Type} {constant : ConstantInfo} {node : NodeId}
      {next : Value → Plan α} {given : Value} {value : α} {inner outer : List ConstantInfo} :
      r.Holds constant →
      constant.value = some node →
      r.state constant.id = .unresolved →
      Recalls r constant.scope (Evaluation.expression constant.scope .strict node) given inner →
      Recalls r scope (next given) value outer →
      Recalls r scope (.askConstant constant node next) value (constant :: inner ++ outer)
  | named {scope : Scope} {α : Type} {name : String} {next : ClassInfo → Plan α}
      {info : ClassInfo} {value : α} {outer : List ConstantInfo} :
      (Query.classNamed name).Knows r info →
      Recalls r scope (next info) value outer →
      Recalls r scope (.askClass name next) value outer
  | member {scope : Scope} {α : Type} {info : ClassInfo} {name : String}
      {next : Option ConstantInfo → Plan α} {found : Option ConstantInfo} {value : α}
      {outer : List ConstantInfo} :
      (Query.member? .constant info name).Knows r found →
      Recalls r scope (next found) value outer →
      Recalls r scope (.askMember info name next) value outer
  | declared {scope : Scope} {α : Type} {name : String} {next : Option ConstantInfo → Plan α}
      {value : α} {outer : List ConstantInfo} :
      Recalls r scope (next (r.index.constant? name)) value outer →
      Recalls r scope (.askDeclared name next) value outer
  | index {scope : Scope} {α : Type} {next : EntityIndex → Plan α} {value : α}
      {outer : List ConstantInfo} :
      Recalls r scope (next r.index) value outer →
      Recalls r scope (.askIndex next) value outer
  | platform {scope : Scope} {α : Type} {next : Platform → Plan α} {value : α}
      {outer : List ConstantInfo} :
      Recalls r scope (next r.options.platform) value outer →
      Recalls r scope (.askPlatform next) value outer

namespace Recalls

variable {r : Reflector} {scope : Scope} {α β : Type} {plan : Plan α}

theorem unique {first second : α} {needed neededToo : List ConstantInfo}
    (recalls : Recalls r scope plan first needed) (again : Recalls r scope plan second neededToo) :
    first = second ∧ needed = neededToo := by
  induction recalls generalizing neededToo with
  | done =>
      cases again
      exact ⟨rfl, rfl⟩
  | node _ _ ihGiven ihValue =>
      cases again with
      | node given rest =>
          obtain ⟨rfl, rfl⟩ := ihGiven given
          obtain ⟨rfl, rfl⟩ := ihValue rest
          exact ⟨rfl, rfl⟩
  | known state _ ih =>
      cases again with
      | known stateAgain rest =>
          cases state.symm.trans stateAgain
          exact ih rest
      | new _ _ open_ _ _ => cases state.symm.trans open_
  | new _ stands open_ _ _ ihGiven ihValue =>
      cases again with
      | known state _ => cases state.symm.trans open_
      | new _ _ _ given rest =>
          obtain ⟨rfl, rfl⟩ := ihGiven given
          obtain ⟨rfl, rfl⟩ := ihValue rest
          exact ⟨rfl, rfl⟩
  | named answered _ ih =>
      cases again with
      | named answeredAgain rest =>
          cases answered.1.symm.trans answeredAgain.1
          exact ih rest
  | member answered _ ih =>
      cases again with
      | member answeredAgain rest =>
          cases answered.1.symm.trans answeredAgain.1
          exact ih rest
  | declared _ ih =>
      cases again with
      | declared rest => exact ih rest
  | index _ ih =>
      cases again with
      | index rest => exact ih rest
  | platform _ ih =>
      cases again with
      | platform rest => exact ih rest

theorem bind {rest : α → Plan β} {given : α} {value : β} {inner outer : List ConstantInfo}
    (first : Recalls r scope plan given inner) (second : Recalls r scope (rest given) value outer) :
    Recalls r scope (plan >>= rest) value (inner ++ outer) := by
  induction first with
  | done => exact second
  | node here _ _ ih =>
      rw [List.append_assoc]
      exact .node here (ih second)
  | known state _ ih => exact .known state (ih second)
  | new held stands open_ here _ _ ih =>
      rw [List.cons_append, List.cons_append, List.append_assoc]
      exact .new held stands open_ here (ih second)
  | named answered _ ih => exact .named answered (ih second)
  | member answered _ ih => exact .member answered (ih second)
  | declared _ ih => exact .declared (ih second)
  | index _ ih => exact .index (ih second)
  | platform _ ih => exact .platform (ih second)

theorem value {mode : Mode} {node : NodeId} {given : Value} {needed : List ConstantInfo}
    (recalls : Recalls r scope (Evaluation.expression scope mode node) given needed) :
    Recalls r scope (.value mode node) given needed := by
  have asked : Recalls r scope (.value mode node) given (needed ++ []) := .node recalls .done
  rwa [List.append_nil] at asked

/-- Every constant that is needed is one that the reflector holds and does not remember. -/
theorem needed_open {value : α} {needed : List ConstantInfo}
    (recalls : Recalls r scope plan value needed) {constant : ConstantInfo}
    (member : constant ∈ needed) :
    r.Holds constant ∧ r.state constant.id = .unresolved := by
  induction recalls with
  | done => cases member
  | node _ _ ihInner ihOuter => exact (List.mem_append.mp member).elim ihInner ihOuter
  | new held _ open_ _ _ ihInner ihOuter =>
      rcases List.mem_append.mp member with here | later
      · rcases List.mem_cons.mp here with rfl | inside
        · exact ⟨held, open_⟩
        · exact ihInner inside
      · exact ihOuter later
  | known _ _ ih => exact ih member
  | named _ _ ih => exact ih member
  | member _ _ ih => exact ih member
  | declared _ ih => exact ih member
  | index _ ih => exact ih member
  | platform _ ih => exact ih member

end Recalls

/-- A reflector that knows the same declarations as an earlier one and remembers more: what is
new is what the earlier one would come to. -/
structure Enriched (r t : Reflector) : Prop where
  index : t.index = r.index
  options : t.options = r.options
  classes : t.underway.classes = r.underway.classes
  kept : ∀ id, r.state id ≠ .unresolved → t.state id = r.state id
  learned : ∀ constant value, r.Holds constant → r.state constant.id = .unresolved →
    t.state constant.id = .resolved value → ∃ node needed, constant.value = some node ∧
      Recalls r constant.scope (Evaluation.expression constant.scope .strict node) value needed ∧
      ∀ other ∈ needed, t.Knows other

/-- What an answered question leaves: the constants that are needed for the answer are known,
nothing else is new, and nothing has failed. -/
structure Recollected (r t next : Reflector) (needed : List ConstantInfo) : Prop where
  enriched : Enriched r next
  known : ∀ constant ∈ needed, next.Knows constant
  new : ∀ id value, next.state id = .resolved value →
    t.state id = .resolved value ∨ ∃ constant ∈ needed, constant.id = id
  unharmed : ∀ id, t.state id = .unresolved →
    next.state id = .unresolved ∨ ∃ value, next.state id = .resolved value

/-- What a query answers and remembers is what the reflector before would come to. -/
def Query.Recollects {α : Type} (r : Reflector) (scope : Scope) (plan : Plan α)
    (query : Query α) : Prop :=
  ∀ t, Enriched r t → (query.next t).index = t.index → ∀ value, query.result t = .ok value →
    ∃ needed, Recalls r scope plan value needed ∧ Recollected r t (query.next t) needed

section Remembering

variable {r t next : Reflector} {needed : List ConstantInfo}

theorem enriched_refl (r : Reflector) : Enriched r r where
  index := rfl
  options := rfl
  classes := rfl
  kept _ _ := rfl
  learned _ _ _ open_ state := by cases open_.symm.trans state

theorem Enriched.informed (enriched : Enriched r t) : Informed r t where
  declared := by
    rw [enriched.index]
    exact r.index.within_refl
  options := enriched.options
  classes := enriched.classes

theorem Enriched.open_of_open (enriched : Enriched r t) {id : ConstantId}
    (open_ : t.state id = .unresolved) : r.state id = .unresolved := by
  by_contra known
  exact known ((enriched.kept id known).symm.trans open_)

theorem Reflector.Knows.noted {constant : ConstantInfo} (knows : t.Knows constant)
    (note : Note t next) : next.Knows constant := by
  obtain ⟨value, state⟩ := knows
  exact ⟨value, (note.state _).trans state⟩

theorem Enriched.noted (enriched : Enriched r t) (note : Note t next) : Enriched r next where
  index := note.index.trans enriched.index
  options := note.options.trans enriched.options
  classes := by rw [note.underway, enriched.classes]
  kept id known := (note.state id).trans (enriched.kept id known)
  learned constant value held open_ state := by
    rw [note.state] at state
    obtain ⟨node, needed, stands, recalls, known⟩ :=
      enriched.learned constant value held open_ state
    exact ⟨node, needed, stands, recalls, fun other member => (known other member).noted note⟩

theorem Enriched.still (enriched : Enriched r t) (note : Note t next) :
    Recollected r t next [] where
  enriched := enriched.noted note
  known _ member := absurd member List.not_mem_nil
  new id _ state := .inl ((note.state id).symm.trans state)
  unharmed id open_ := .inl ((note.state id).trans open_)

theorem Reflector.Knows.later {constant : ConstantInfo} (knows : t.Knows constant)
    (step : Step t next) : next.Knows constant := by
  obtain ⟨value, state⟩ := knows
  exact ⟨value, (step.settled _ (by rw [state]; nofun)).trans state⟩

theorem Recollected.trans {middle : Reflector} {more : List ConstantInfo}
    (first : Recollected r t middle needed) (second : Recollected r middle next more)
    (step : Step middle next) : Recollected r t next (needed ++ more) where
  enriched := second.enriched
  known constant member := by
    rcases List.mem_append.mp member with earlier | later
    · exact (first.known constant earlier).later step
    · exact second.known constant later
  new id value state := by
    rcases second.new id value state with before | ⟨constant, member, here⟩
    · rcases first.new id value before with earlier | ⟨constant, member, here⟩
      · exact .inl earlier
      · exact .inr ⟨constant, List.mem_append_left _ member, here⟩
    · exact .inr ⟨constant, List.mem_append_right _ member, here⟩
  unharmed id open_ := by
    rcases first.unharmed id open_ with still | ⟨value, known⟩
    · exact second.unharmed id still
    · exact .inr ⟨value, (step.settled id (by rw [known]; nofun)).trans known⟩

end Remembering

/-! The parts of a query. -/

section Recollecting

variable {α β : Type} {r : Reflector} {scope : Scope} {plan : Plan α} {query : Query α}

theorem Query.Recollects.bind {rest : α → Plan β} {continue_ : α → Query β}
    (first : query.Recollects r scope plan) (advances : query.Advances)
    (second : ∀ value needed, Recalls r scope plan value needed →
      (continue_ value).Recollects r scope (rest value))
    (continueAdvances : ∀ value, (continue_ value).Advances) :
    (query >>= continue_).Recollects r scope (plan >>= rest) := by
  intro t enriched same value answered
  obtain ⟨given, answeredFirst, answeredRest⟩ := ok_of_bind answered
  obtain ⟨middle, last⟩ := index_of_bind advances continueAdvances same
  obtain ⟨inner, recalls, recollected⟩ := first t enriched middle given answeredFirst
  obtain ⟨outer, recallsRest, recollectedRest⟩ := second given inner recalls _
    recollected.enriched (last given answeredFirst) value answeredRest
  rw [next_bind_ok answeredFirst]
  exact ⟨inner ++ outer, recalls.bind recallsRest,
    recollected.trans recollectedRest ((continueAdvances given).next _).toStep⟩

theorem Query.recollects_done (result : Except ReflectionError α) :
    (MonadExcept.ofExcept result : Query α).Recollects r scope (.done result) := by
  intro t enriched _ value answered
  rw [result_ofExcept] at answered
  cases answered
  rw [next_ofExcept]
  exact ⟨[], .done, enriched.still (refl t)⟩

theorem Query.Recollects.transfer {part : Plan α} {asked : Query α}
    (recollects : query.Recollects r scope part)
    (recalls : ∀ {value needed}, Recalls r scope part value needed →
      Recalls r scope plan value needed)
    (same : ∀ t, Enriched r t → asked t = query t) : asked.Recollects r scope plan := by
  intro t enriched unchanged value answered
  have run := same t enriched
  have next : asked.next t = query.next t := congrArg Prod.snd run
  rw [next] at unchanged ⊢
  obtain ⟨needed, recalled, recollected⟩ :=
    recollects t enriched unchanged value ((congrArg Prod.fst run).symm.trans answered)
  exact ⟨needed, recalls recalled, recollected⟩

/-- What a look-up gives without loading anything is known before. -/
theorem Query.Replays.still (replays : query.Replays) (looks : query.Looks) {t : Reflector}
    (enriched : Enriched r t) (same : (query.next t).index = t.index) {value : α}
    (answered : query.result t = .ok value) :
    query.Knows r value ∧ Note t (query.next t) := by
  have look := looks.next t
  have back : Informed (query.next t) r :=
    { declared := by
        rw [same, enriched.index]
        exact r.index.within_refl
      options := (look.options.trans enriched.options).symm
      classes := by rw [look.underway, enriched.classes] }
  have before : query.Knows r value := replays t r value answered back
  exact ⟨before, (replays r t value before.1 (enriched.informed.after before.2)).2⟩

theorem Query.Replays.recollects (replays : query.Replays) (looks : query.Looks)
    (recalls : ∀ value, query.Knows r value → Recalls r scope plan value []) :
    query.Recollects r scope plan := by
  intro t enriched same value answered
  obtain ⟨before, note⟩ := replays.still looks enriched same answered
  exact ⟨[], recalls value before, enriched.still note⟩

theorem Query.Recollects.within (recollects : query.Recollects r scope plan) :
    (inside (·.enterExpression) (·.leaveExpression) query).Recollects r scope plan := by
  intro t enriched same value answered
  rw [result_inside] at answered
  rw [next_inside] at same ⊢
  have opened : Enriched r (t.withUnderway t.underway.enterExpression) :=
    ⟨enriched.index, enriched.options, enriched.classes, enriched.kept, enriched.learned⟩
  obtain ⟨needed, recalls, found⟩ := recollects _ opened same value answered
  have later := found.enriched
  exact ⟨needed, recalls, ⟨later.index, later.options, later.classes, later.kept, later.learned⟩,
    found.known, found.new, found.unharmed⟩

end Recollecting

/-! The evaluation of a constant. -/

section Resolving

variable {r t next : Reflector} {scope : Scope} {constant other : ConstantInfo} {node : NodeId}
  {value : Value} {needed : List ConstantInfo}

theorem Enriched.entering (enriched : Enriched r t) (open_ : t.state constant.id = .unresolved) :
    Enriched r (t.entering constant) where
  index := enriched.index
  options := enriched.options
  classes := enriched.classes
  kept id known := by
    rw [Reflector.state_entering, if_neg]
    · exact enriched.kept id known
    · rintro rfl
      exact known (enriched.open_of_open open_)
  learned other value held before state := by
    have stays : ∀ {known : ConstantInfo}, t.Knows known → (t.entering constant).Knows known := by
      rintro known ⟨found, state⟩
      refine ⟨found, ?_⟩
      rw [Reflector.state_entering, if_neg]
      · exact state
      · intro same
        rw [same, open_] at state
        cases state
    rw [Reflector.state_entering] at state
    split at state
    · cases state
    · obtain ⟨node, needed, stands, recalls, known⟩ :=
        enriched.learned other value held before state
      exact ⟨node, needed, stands, recalls, fun known_ member => stays (known known_ member)⟩

theorem Reflector.Knows.leaving (knows : next.Knows other) :
    (next.leaving constant (.ok value)).Knows other := by
  obtain ⟨found, state⟩ := knows
  by_cases same : other.id = constant.id
  · exact ⟨value, by rw [Reflector.state_leaving, if_pos same]; rfl⟩
  · exact ⟨found, by rw [Reflector.state_leaving, if_neg same]; exact state⟩

theorem Recollected.leaving (held : r.Holds constant) (stands : constant.value = some node)
    (open_ : t.state constant.id = .unresolved) (before : r.state constant.id = .unresolved)
    (recalls : Recalls r constant.scope (Evaluation.expression constant.scope .strict node) value
      needed)
    (recollected : Recollected r (t.entering constant) next needed) :
    Recollected r t (next.leaving constant (.ok value)) (constant :: needed) where
  enriched :=
    { index := recollected.enriched.index
      options := recollected.enriched.options
      classes := recollected.enriched.classes
      kept := fun id known => by
        rw [Reflector.state_leaving, if_neg]
        · exact recollected.enriched.kept id known
        · rintro rfl
          exact known before
      learned := fun other found heldOther beforeOther state => by
        rw [Reflector.state_leaving] at state
        split at state
        · rename_i same
          cases heldOther.unique held same
          cases Evaluation.eq_ok_of_settled state
          exact ⟨node, needed, stands, recalls, fun known member =>
            (recollected.known known member).leaving⟩
        · obtain ⟨root, inner, rootStands, recallsOther, known⟩ :=
            recollected.enriched.learned other found heldOther beforeOther state
          exact ⟨root, inner, rootStands, recallsOther, fun known_ member =>
            (known known_ member).leaving⟩ }
  known other member := by
    rcases List.mem_cons.mp member with rfl | inside
    · exact ⟨value, by rw [Reflector.state_leaving, if_pos rfl]; rfl⟩
    · exact (recollected.known other inside).leaving
  new id found state := by
    by_cases same : id = constant.id
    · exact .inr ⟨constant, List.mem_cons_self, same.symm⟩
    · rw [Reflector.state_leaving, if_neg same] at state
      rcases recollected.new id found state with earlier | ⟨other, member, here⟩
      · rw [Reflector.state_entering, if_neg same] at earlier
        exact .inl earlier
      · exact .inr ⟨other, List.mem_cons_of_mem _ member, here⟩
  unharmed id openId := by
    rw [Reflector.state_leaving]
    by_cases same : id = constant.id
    · rw [if_pos same]
      exact .inr ⟨value, rfl⟩
    · rw [if_neg same]
      refine recollected.unharmed id ?_
      rw [Reflector.state_entering, if_neg same]
      exact openId

theorem Recalls.initializer_new (held : r.Holds constant) (stands : constant.value = some node)
    (before : r.state constant.id = .unresolved)
    (recalls : Recalls r constant.scope (Evaluation.expression constant.scope .strict node) value
      needed) :
    Recalls r scope (.initializer constant node) value (constant :: needed) := by
  have asked : Recalls r scope (.initializer constant node) value (constant :: needed ++ []) :=
    .new held stands before recalls .done
  rwa [List.append_nil] at asked

theorem Evaluation.resolve_recollects {eval : Scope → NodeId → Query Value}
    (recollects : ∀ scope node,
      (eval scope node).Recollects r scope (expression scope .strict node))
    (held : r.Holds constant) (stands : constant.value = some node) (scope : Scope) :
    (resolve eval constant node).Recollects r scope (.initializer constant node) := by
  intro t enriched same value answered
  cases known : t.state constant.id with
  | failed error =>
      rw [(resolve_of_failed known).1] at answered
      cases answered
  | resolving =>
      rw [(resolve_of_resolving known).1] at answered
      cases answered
  | resolved found =>
      rw [(resolve_of_resolved known).1] at answered
      cases answered
      rw [(resolve_of_resolved known).2]
      by_cases before : r.state constant.id = .unresolved
      · obtain ⟨root, needed, rootStands, recalls, knows⟩ :=
          enriched.learned constant value held before known
        cases stands.symm.trans rootStands
        refine ⟨_, .initializer_new held stands before recalls, { enriched.still (refl t) with
          known := fun other member => ?_
          new := fun id found state => .inl state }⟩
        rcases List.mem_cons.mp member with rfl | inside
        · exact ⟨value, known⟩
        · exact knows other inside
      · have state := (enriched.kept _ before).symm.trans known
        exact ⟨[], .known state .done, enriched.still (refl t)⟩
  | unresolved =>
      by_cases long : t.options.maxConstantChain ≤ t.underway.constants.length
      · rw [(resolve_of_long_chain known long).1] at answered
        cases answered
      · obtain ⟨result, next⟩ : (resolve eval constant node).result t = _ ∧
            (resolve eval constant node).next t = _ :=
          resolve_of_unresolved known (Nat.lt_of_not_le long)
        rw [result] at answered
        rw [next] at same ⊢
        rw [answered] at same ⊢
        have before := enriched.open_of_open known
        obtain ⟨needed, recalls, recollected⟩ := recollects _ _ _ (enriched.entering known) same
          value answered
        exact ⟨_, .initializer_new held stands before recalls,
          recollected.leaving held stands known before recalls⟩

end Resolving

/-! The same evaluation where more is known. -/

/-- A reflector that is ahead of another and has failed nowhere else. -/
structure Outpaces (s t : Reflector) : Prop extends Ahead s t where
  free : ∀ id, s.state id = .unresolved →
    t.state id = .unresolved ∨ ∃ value, t.state id = .resolved value

theorem outpaces_refl (r : Reflector) : Outpaces r r :=
  ⟨⟨rfl, fun _ _ state => state⟩, fun _ open_ => .inl open_⟩

theorem Outpaces.recollected {r t next : Reflector} {needed : List ConstantInfo}
    (outpaces : Outpaces r t) (recollected : Recollected r t next needed) (step : Step t next) :
    Outpaces r next where
  underway := step.underway.trans outpaces.underway
  resolved id value state :=
    (recollected.enriched.kept id (by rw [state]; nofun)).trans state
  free id open_ := by
    rcases outpaces.free id open_ with still | ⟨value, known⟩
    · exact recollected.unharmed id still
    · exact .inr ⟨value, (step.settled id (by rw [known]; nofun)).trans known⟩

theorem Outpaces.noted {s t next nextToo : Reflector} (outpaces : Outpaces s t)
    (note : Note s next) (noteToo : Note t nextToo) : Outpaces next nextToo where
  underway := by rw [note.underway, noteToo.underway, outpaces.underway]
  resolved id value state := by
    rw [note.state] at state
    exact (noteToo.state id).trans (outpaces.resolved id value state)
  free id open_ := by
    rw [note.state] at open_
    rw [noteToo.state]
    exact outpaces.free id open_

theorem Outpaces.entering {s t : Reflector} (outpaces : Outpaces s t) (constant : ConstantInfo) :
    Outpaces (s.entering constant) (t.entering constant) where
  toAhead := outpaces.toAhead.entering constant
  free id open_ := by
    rw [Reflector.state_entering] at open_ ⊢
    split at open_
    · cases open_
    · rename_i apart
      rw [if_neg apart]
      exact outpaces.free id open_

theorem Outpaces.leaving {s t : Reflector} (outpaces : Outpaces s t) (constant : ConstantInfo)
    (value : Value) :
    Outpaces (s.leaving constant (.ok value)) (t.leaving constant (.ok value)) where
  toAhead := outpaces.toAhead.leaving constant value
  free id open_ := by
    rw [Reflector.state_leaving] at open_ ⊢
    split at open_
    · cases open_
    · rename_i apart
      rw [if_neg apart]
      exact outpaces.free id open_

/-- What is answered, with nothing loaded for it, is answered alike where more is known. -/
def Query.Recurs {α : Type} (r : Reflector) (query : Query α) : Prop :=
  ∀ s t, Enriched r s → Enriched r t → Outpaces s t → (query.next s).index = s.index →
    ∀ value, query.result s = .ok value →
      query.result t = .ok value ∧ (query.next t).index = t.index ∧
        Outpaces (query.next s) (query.next t)

section Recurring

variable {α β : Type} {r : Reflector} {scope : Scope} {plan : Plan α} {query : Query α}

theorem Query.Recurs.bind {continue_ : α → Query β} (first : query.Recurs r)
    (recollects : query.Recollects r scope plan) (advances : query.Advances)
    (second : ∀ value needed, Recalls r scope plan value needed → (continue_ value).Recurs r)
    (continueAdvances : ∀ value, (continue_ value).Advances) :
    (query >>= continue_).Recurs r := by
  intro s t enrichedS enrichedT outpaces same value answered
  obtain ⟨given, answeredFirst, answeredRest⟩ := ok_of_bind answered
  obtain ⟨middle, last⟩ := index_of_bind advances continueAdvances same
  obtain ⟨answeredT, middleT, outpacesMiddle⟩ :=
    first s t enrichedS enrichedT outpaces middle given answeredFirst
  obtain ⟨needed, recalls, foundS⟩ := recollects s enrichedS middle given answeredFirst
  obtain ⟨_, _, foundT⟩ := recollects t enrichedT middleT given answeredT
  obtain ⟨answeredRestT, lastT, outpacesLast⟩ := second given needed recalls _ _ foundS.enriched
    foundT.enriched outpacesMiddle (last given answeredFirst) value answeredRest
  rw [result_bind_ok answeredT, next_bind_ok answeredT, next_bind_ok answeredFirst]
  exact ⟨answeredRestT, lastT.trans middleT, outpacesLast⟩

theorem Query.recurs_done (result : Except ReflectionError α) :
    (MonadExcept.ofExcept result : Query α).Recurs r := by
  intro s t _ _ outpaces _ value answered
  rw [result_ofExcept] at answered ⊢
  rw [next_ofExcept, next_ofExcept]
  exact ⟨answered, rfl, outpaces⟩

theorem Query.Replays.recurs (replays : query.Replays) (looks : query.Looks) :
    query.Recurs r := by
  intro s t enrichedS enrichedT outpaces same value answered
  obtain ⟨before, noteS⟩ := replays.still looks enrichedS same answered
  obtain ⟨answeredT, noteT⟩ :=
    replays r t value before.1 (enrichedT.informed.after before.2)
  exact ⟨answeredT, noteT.index, outpaces.noted noteS noteT⟩

theorem Query.Recurs.within (recurs : query.Recurs r) :
    (inside (·.enterExpression) (·.leaveExpression) query).Recurs r := by
  intro s t enrichedS enrichedT outpaces same value answered
  have opened : ∀ {t : Reflector}, Enriched r t →
      Enriched r (t.withUnderway t.underway.enterExpression) := fun enriched =>
    ⟨enriched.index, enriched.options, enriched.classes, enriched.kept, enriched.learned⟩
  rw [result_inside] at answered ⊢
  rw [next_inside] at same
  rw [next_inside, next_inside]
  obtain ⟨answeredT, sameT, last⟩ := recurs _ _ (opened enrichedS) (opened enrichedT)
    ⟨⟨congrArg Underway.enterExpression outpaces.underway, outpaces.resolved⟩, outpaces.free⟩
    same value answered
  exact ⟨answeredT, sameT,
    ⟨congrArg Underway.leaveExpression last.underway, last.resolved⟩, last.free⟩

end Recurring

/-- What is found out of a constant, a reflector that knows the constant enriched. -/
theorem Outpaces.of_known {r s t next : Reflector} {scope : Scope} {constant : ConstantInfo}
    {node : NodeId} {value known : Value} {needed : List ConstantInfo} (outpaces : Outpaces s t)
    (enrichedT : Enriched r t) (held : r.Holds constant) (stands : constant.value = some node)
    (before : r.state constant.id = .unresolved)
    (recalls : Recalls r scope (.initializer constant node) value needed)
    (recollected : Recollected r s next needed) (step : Step s next)
    (knownT : t.state constant.id = .resolved known) :
    value = known ∧ Outpaces next t := by
  obtain ⟨root, inner, rootStands, recallsT, knows⟩ :=
    enrichedT.learned constant known held before knownT
  cases stands.symm.trans rootStands
  obtain ⟨rfl, rfl⟩ := recalls.unique (.initializer_new held stands before recallsT)
  have knowsAll : ∀ other ∈ constant :: inner, t.Knows other := by
    intro other member
    rcases List.mem_cons.mp member with rfl | inside
    · exact ⟨value, knownT⟩
    · exact knows other inside
  refine ⟨rfl, ⟨outpaces.underway.trans step.underway.symm, fun id found state => ?_⟩,
    fun id open_ => outpaces.free id ?_⟩
  · rcases recollected.new id found state with earlier | ⟨other, member, rfl⟩
    · exact outpaces.resolved id found earlier
    · obtain ⟨heldOther, openOther⟩ := recalls.needed_open member
      obtain ⟨again, stateT⟩ := knowsAll other member
      obtain ⟨_, _, standsNext, recallsNext, _⟩ :=
        recollected.enriched.learned other found heldOther openOther state
      obtain ⟨_, _, standsT, recallsT, _⟩ :=
        enrichedT.learned other again heldOther openOther stateT
      cases standsNext.symm.trans standsT
      obtain ⟨rfl, _⟩ := recallsNext.unique recallsT
      exact stateT
  · by_contra settled
    exact settled ((step.settled id settled).symm.trans open_)

theorem Evaluation.resolve_recurs {r : Reflector} {eval : Scope → NodeId → Query Value}
    (recurs : ∀ scope node, (eval scope node).Recurs r)
    (recollects : ∀ scope node,
      (eval scope node).Recollects r scope (expression scope .strict node))
    (advances : ∀ scope node, (eval scope node).Advances) {constant : ConstantInfo} {node : NodeId}
    (held : r.Holds constant) (stands : constant.value = some node) :
    (resolve eval constant node).Recurs r := by
  intro s t enrichedS enrichedT outpaces same value answered
  cases knownS : s.state constant.id with
  | failed error =>
      rw [(resolve_of_failed knownS).1] at answered
      cases answered
  | resolving =>
      rw [(resolve_of_resolving knownS).1] at answered
      cases answered
  | resolved known =>
      have knownT := outpaces.resolved _ known knownS
      rw [(resolve_of_resolved knownS).1] at answered
      rw [(resolve_of_resolved knownT).1, (resolve_of_resolved knownT).2,
        (resolve_of_resolved knownS).2]
      exact ⟨answered, rfl, outpaces⟩
  | unresolved =>
      rcases outpaces.free _ knownS with knownT | ⟨known, knownT⟩
      · by_cases long : s.options.maxConstantChain ≤ s.underway.constants.length
        · rw [(resolve_of_long_chain knownS long).1] at answered
          cases answered
        · have short := Nat.lt_of_not_le long
          have shortT : t.underway.constants.length < t.options.maxConstantChain := by
            rw [outpaces.underway, enrichedT.options, ← enrichedS.options]
            exact short
          obtain ⟨resultS, nextS⟩ : (resolve eval constant node).result s = _ ∧
            (resolve eval constant node).next s = _ := resolve_of_unresolved knownS short
          obtain ⟨resultT, nextT⟩ : (resolve eval constant node).result t = _ ∧
            (resolve eval constant node).next t = _ := resolve_of_unresolved knownT shortT
          rw [resultS] at answered
          rw [nextS] at same
          obtain ⟨answeredT, sameT, last⟩ := recurs constant.scope node _ _
            (enrichedS.entering knownS) (enrichedT.entering knownT)
            (outpaces.entering constant) same value answered
          rw [resultT, nextT, nextS, answered, answeredT]
          exact ⟨rfl, sameT, last.leaving constant value⟩
      · obtain ⟨needed, recalls, recollected⟩ := resolve_recollects recollects held stands
          constant.scope s enrichedS same value answered
        obtain ⟨rfl, last⟩ := outpaces.of_known enrichedT held stands
          (enrichedS.open_of_open knownS) recalls recollected
          ((resolve_advances advances constant node).next s).toStep knownT
        rw [(resolve_of_resolved knownT).1, (resolve_of_resolved knownT).2]
        exact ⟨rfl, rfl, last⟩

/-! Both at once, for whole evaluations. -/

/-- A query answers what the reflector before would come to, now and where more is known. -/
structure Query.Steady {α : Type} (r : Reflector) (scope : Scope) (plan : Plan α)
    (query : Query α) : Prop where
  recollects : query.Recollects r scope plan
  recurs : query.Recurs r

section Steadiness

variable {α β : Type} {r : Reflector} {scope : Scope} {plan : Plan α} {query : Query α}

theorem Query.Steady.bind {rest : α → Plan β} {continue_ : α → Query β}
    (first : query.Steady r scope plan) (advances : query.Advances)
    (second : ∀ value needed, Recalls r scope plan value needed →
      (continue_ value).Steady r scope (rest value))
    (continueAdvances : ∀ value, (continue_ value).Advances) :
    (query >>= continue_).Steady r scope (plan >>= rest) where
  recollects := first.recollects.bind advances
    (fun value needed recalls => (second value needed recalls).recollects) continueAdvances
  recurs := first.recurs.bind first.recollects advances
    (fun value needed recalls => (second value needed recalls).recurs) continueAdvances

theorem Query.Steady.transfer {part : Plan α} {asked : Query α} (steady : query.Steady r scope part)
    (recalls : ∀ {value needed}, Recalls r scope part value needed →
      Recalls r scope plan value needed)
    (same : ∀ t, Enriched r t → asked t = query t) : asked.Steady r scope plan where
  recollects := steady.recollects.transfer recalls same
  recurs s t enrichedS enrichedT outpaces unchanged value answered := by
    have runS := same s enrichedS
    have runT := same t enrichedT
    have nextS : asked.next s = query.next s := congrArg Prod.snd runS
    have nextT : asked.next t = query.next t := congrArg Prod.snd runT
    have resultT : asked.result t = query.result t := congrArg Prod.fst runT
    rw [nextS] at unchanged
    rw [nextS, nextT, resultT]
    exact steady.recurs s t enrichedS enrichedT outpaces unchanged value
      ((congrArg Prod.fst runS).symm.trans answered)

theorem Query.Replays.steady (replays : query.Replays) (looks : query.Looks)
    (recalls : ∀ value, query.Knows r value → Recalls r scope plan value []) :
    query.Steady r scope plan :=
  ⟨replays.recollects looks recalls, replays.recurs looks⟩

theorem Query.constant?_steady (name : String) :
    (constant? name).Steady r scope (.declared? name) where
  recollects t enriched _ found answered := by
    rw [result_constant?, enriched.index] at answered
    cases answered
    exact ⟨[], .declared .done, enriched.still ((constant?_notes name).next t)⟩
  recurs s t enrichedS enrichedT outpaces _ found answered := by
    have noteT := (constant?_notes name).next t
    rw [result_constant?, enrichedS.index] at answered
    rw [result_constant?, enrichedT.index]
    exact ⟨answered, noteT.index.trans enrichedT.index,
      outpaces.noted ((constant?_notes name).next s) noteT⟩

end Steadiness

theorem Plan.carryOut_steady {r : Reflector}
    {eval : Mode → Scope → NodeId → Query Value}
    (steady : ∀ mode scope node,
      (eval mode scope node).Steady r scope (Evaluation.expression scope mode node))
    (advances : ∀ mode scope node, (eval mode scope node).Advances) {α : Type} (scope : Scope)
    {plan : Plan α} (grounded : plan.Grounded r) :
    (plan.carryOut (eval · scope ·) (Evaluation.resolve (eval .strict))).Steady r scope plan := by
  have planAdvances := fun plan : Plan α => plan.carryOut_advances
    (fun mode node => advances mode scope node) (Evaluation.resolve_advances (advances .strict))
  induction grounded with
  | done => exact ⟨Query.recollects_done _, Query.recurs_done _⟩
  | @askNode mode node next _ ih =>
      have nodeSteady : (eval mode scope node).Steady r scope (.value mode node) :=
        (steady mode scope node).transfer .value fun _ _ => rfl
      exact nodeSteady.bind (advances mode scope node) (fun value _ _ => ih value)
        fun value => planAdvances (next value)
  | @askConstant constant node next held stands _ ih =>
      have recollects := fun scope node => (steady .strict scope node).recollects
      have constantSteady : (Evaluation.resolve (eval .strict) constant node).Steady r scope
          (.initializer constant node) :=
        ⟨Evaluation.resolve_recollects recollects held stands scope,
          Evaluation.resolve_recurs (fun scope node => (steady .strict scope node).recurs)
            recollects (advances .strict) held stands⟩
      exact constantSteady.bind (Evaluation.resolve_advances (advances .strict) constant node)
        (fun value _ _ => ih value) fun value => planAdvances (next value)
  | @askClass name next _ ih =>
      have looks := Query.classNamed_looks name
      have classSteady : (Query.classNamed name).Steady r scope (.classNamed name) :=
        (Query.classNamed_replays name).steady looks fun info answered => .named answered .done
      refine classSteady.bind looks.advances (fun info needed recalls => ih info ?_)
        fun info => planAdvances (next info)
      cases recalls with
      | named answered rest =>
          cases rest
          exact r.holdsClass_of_known
            (Query.known_of_classNamed answered.1 answered.2.index)
  | @askMember info name next held _ ih =>
      have looks := Query.member?_looks .constant info name
      have memberSteady : (Query.member? .constant info name).Steady r scope
          (.member? info name) :=
        (Query.member?_replays .constant info name).steady looks
          fun found answered => .member answered .done
      refine memberSteady.bind looks.advances
        (fun found needed recalls => ih found fun constant here => ?_)
        fun found => planAdvances (next found)
      cases recalls with
      | member answered rest =>
          cases rest
          subst here
          exact r.holds_of_member? held answered.1 answered.2.index
  | @askDeclared name next _ ih =>
      refine (Query.constant?_steady name).bind (Query.constant?_notes name).looks.advances
        (fun found needed recalls => ?_) fun found => planAdvances (next found)
      cases recalls with
      | declared rest =>
          cases rest
          exact ih
  | @askIndex next _ ih =>
      refine ih.transfer .index fun t enriched => ?_
      rw [← enriched.index]
      rfl
  | @askPlatform next _ ih =>
      refine (ih r.options.platform).transfer .platform fun t enriched => ?_
      rw [← enriched.options]
      rfl

namespace Evaluation

variable {r : Reflector}

theorem evaluate_steady (room : Nat) (mode : Mode) (scope : Scope) (node : NodeId) :
    (evaluate room mode scope node).Steady r scope (expression scope mode node) := by
  induction room generalizing mode scope node with
  | zero =>
      refine ⟨fun t _ _ value answered => ?_, fun s t _ _ _ _ value answered => ?_⟩
      · cases answered
      · cases answered
  | succ room ih =>
      have steady := Plan.carryOut_steady ih (evaluate_advances room) scope
        (expression_grounded scope mode node)
      exact ⟨steady.recollects.within, steady.recurs.within⟩

theorem carry_steady (room : Nat) (scope : Scope) {α : Type} {plan : Plan α}
    (grounded : plan.Grounded r) : (carry room scope plan).Steady r scope plan :=
  Plan.carryOut_steady (evaluate_steady room) (evaluate_advances room) scope
    grounded

end Evaluation

end StaticReflection
