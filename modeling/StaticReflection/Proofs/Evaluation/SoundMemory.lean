import Mathlib.Data.List.Chain
import Mathlib.Data.List.TakeWhile
import StaticReflection.Proofs.Evaluation.Resolution
import StaticReflection.Proofs.Evaluation.Settings
import StaticReflection.Proofs.Reflection.DeclarationIds

namespace StaticReflection

/-! What a reflector remembers, and why it is right. -/

open Evaluation Setting

/-- Different constants that a reflector gave away, of which each needs the next one, and then
one of them again. The first one has the name of that one. -/
def Setting.Circular (setting : Setting) (r : Reflector) (cycle : List String) : Prop :=
  ∃ chain constant, (∀ entry ∈ chain, r.Holds entry) ∧ (chain.map (·.id)).Nodup ∧
    (chain ++ [constant]).IsChain setting.Refers ∧ constant ∈ chain ∧
    chain.head?.map (·.identity) = some constant.identity ∧
    cycle = (chain ++ [constant]).map (·.identity)

theorem Setting.transGen_of_closed {setting : Setting} {chain : List ConstantInfo}
    {constant : ConstantInfo} (linked : (chain ++ [constant]).IsChain setting.Refers)
    (closed : constant ∈ chain) : Relation.TransGen setting.Refers constant constant := by
  have pairwise := (linked.imp fun _ _ refers => Relation.TransGen.single refers).pairwise
  exact (List.pairwise_append.mp pairwise).2.2 constant closed constant
    (List.mem_singleton_self _)

/-- The cycle that is reported starts at the first constant of the chain with the name. -/
theorem Evaluation.cycleFrom_map {chain : List ConstantInfo} {constant : ConstantInfo}
    (closed : constant ∈ chain) :
    ∃ kept, kept <:+ chain ∧ constant ∈ kept ∧
      kept.head?.map (·.identity) = some constant.identity ∧
      cycleFrom (chain.map (·.identity)) constant.identity =
        (kept ++ [constant]).map (·.identity) := by
  let other : ConstantInfo → Bool := fun entry => entry.identity ≠ constant.identity
  have member : constant ∈ chain.dropWhile other := by
    have split : constant ∈ chain.takeWhile other ++ chain.dropWhile other := by
      rw [List.takeWhile_append_dropWhile]
      exact closed
    rcases List.mem_append.mp split with before | after
    · simpa [other] using List.mem_takeWhile_imp before
    · exact after
  have dropped : (chain.map (·.identity)).dropWhile (· ≠ constant.identity) =
      (chain.dropWhile other).map (·.identity) := by
    rw [List.dropWhile_map]
    rfl
  have notEmpty : chain.dropWhile other ≠ [] := List.ne_nil_of_mem member
  refine ⟨chain.dropWhile other, List.dropWhile_suffix _, member, ?_, ?_⟩
  · have first := List.head_dropWhile_not other notEmpty
    rw [List.head?_eq_some_head notEmpty]
    simpa [other] using first
  · unfold cycleFrom
    rw [dropped]
    simp [notEmpty]

/-- What a failure says of an expression. One that is not due to a bound means that the
expression has no value, and one of constants that depend on themselves names them. -/
structure Setting.Explains {α : Type} (setting : Setting) (r : Reflector) (scope : Scope)
    (plan : Plan α) (error : ReflectionError) : Prop where
  underivable : (∀ bound limit, error ≠ .depthLimit bound limit) →
    ∀ value, ¬ setting.Derives scope plan value
  circular : ∀ cycle, error = .circularConstant cycle → setting.Circular r cycle

theorem Setting.Circular.keep {setting : Setting} {r next : Reflector} (keeps : r.Keeps next)
    {cycle : List String} (circular : setting.Circular r cycle) :
    setting.Circular next cycle := by
  obtain ⟨chain, constant, held, rest⟩ := circular
  exact ⟨chain, constant, fun entry member => keeps.holds (held entry member), rest⟩

theorem Setting.Explains.keep {α : Type} {setting : Setting} {r next : Reflector}
    (keeps : r.Keeps next) {scope : Scope} {plan : Plan α} {error : ReflectionError}
    (explains : setting.Explains r scope plan error) :
    setting.Explains next scope plan error :=
  ⟨explains.underivable, fun cycle same => (explains.circular cycle same).keep keeps⟩

theorem Setting.Explains.ofDepth {α : Type} {setting : Setting} {r : Reflector}
    {scope : Scope} {plan : Plan α} {bound : Bound} {limit : Nat} :
    setting.Explains r scope plan (.depthLimit bound limit) :=
  ⟨fun apart => absurd rfl (apart bound limit), nofun⟩

/-- A reflector over some declarations that has a chain of constants under evaluation, and
remembers only what is right. -/
structure Reflector.Sound (index : EntityIndex) (options : Options)
    (chain : List ConstantInfo) (r : Reflector) : Prop where
  alike : Alike { options, index } r
  names : r.underway.constants = chain.map (·.identity)
  linked : chain.IsChain (bounded index options).Refers
  distinct : (chain.map (·.id)).Nodup
  held : ∀ entry ∈ chain, r.Holds entry
  opened : ∀ entry ∈ chain, r.state entry.id = .resolving
  resolving : ∀ constant, r.Holds constant → r.state constant.id = .resolving →
    constant ∈ chain
  known : ∀ id, r.state id ≠ .unresolved → ∃ constant, r.Holds constant ∧ constant.id = id
  resolved : ∀ constant value, r.Holds constant → r.state constant.id = .resolved value →
    (bounded index options).Evaluates constant value ∧
      ∀ other, (bounded index options).Refers constant other →
        ∃ known, r.state other.id = .resolved known
  failed : ∀ constant error node, r.Holds constant → r.state constant.id = .failed error →
    constant.value = some node →
      (bounded index options).Explains r constant.scope
        (expression constant.scope .strict node) error

section Steps

variable {index : EntityIndex} {options : Options} {chain : List ConstantInfo}
  {r next : Reflector} {constant : ConstantInfo}

theorem Reflector.Sound.index_eq (sound : r.Sound index options chain) : r.index = index :=
  sound.alike.index

theorem Reflector.Sound.held_of_known (sound : r.Sound index options chain)
    (keeps : r.Keeps next) (held : next.Holds constant)
    (known : r.state constant.id ≠ .unresolved) : r.Holds constant := by
  obtain ⟨earlier, heldEarlier, sameId⟩ := sound.known _ known
  cases (keeps.holds heldEarlier).unique held sameId
  exact heldEarlier

/-- New declarations, and expressions that are opened or closed, do not matter. -/
theorem Reflector.Sound.keep (sound : r.Sound index options chain) (keeps : r.Keeps next)
    (sameOptions : next.options = r.options)
    (classes : next.underway.classes = r.underway.classes)
    (constants : next.underway.constants = r.underway.constants)
    (states : ∀ id, next.state id = r.state id) : next.Sound index options chain where
  alike := ⟨keeps.index.trans sound.alike.index, sameOptions.trans sound.alike.options,
    classes.trans sound.alike.classes⟩
  names := constants.trans sound.names
  linked := sound.linked
  distinct := sound.distinct
  held entry member := keeps.holds (sound.held entry member)
  opened entry member := (states _).trans (sound.opened entry member)
  resolving constant held state := by
    rw [states] at state
    exact sound.resolving constant (sound.held_of_known keeps held (by simp [state])) state
  known id state := by
    rw [states] at state
    obtain ⟨constant, held, sameId⟩ := sound.known id state
    exact ⟨constant, keeps.holds held, sameId⟩
  resolved constant value held state := by
    rw [states] at state
    have held := sound.held_of_known keeps held (by simp [state])
    obtain ⟨evaluates, closed⟩ := sound.resolved constant value held state
    refine ⟨evaluates, fun other refers => ?_⟩
    rw [states]
    exact closed other refers
  failed constant error node held state stands := by
    rw [states] at state
    have held := sound.held_of_known keeps held (by simp [state])
    exact (sound.failed constant error node held state stands).keep keeps

theorem Reflector.Sound.load (sound : r.Sound index options chain) (load : Load r next)
    (same : next.index = r.index) : next.Sound index options chain :=
  sound.keep ⟨same, load.hidden⟩ load.options (by rw [load.underway]) (by rw [load.underway])
    fun id => by simp only [Reflector.state, load.states]

theorem Reflector.keeps_entering : r.Keeps (r.entering constant) :=
  ⟨rfl, List.prefix_refl _⟩

theorem Reflector.keeps_leaving {result : Except ReflectionError Value} :
    r.Keeps (r.leaving constant result) :=
  ⟨rfl, List.prefix_refl _⟩

theorem Reflector.Sound.linked_concat (sound : r.Sound index options chain)
    (linked : ∀ last ∈ chain.getLast?, (bounded index options).Refers last constant) :
    (chain ++ [constant]).IsChain (bounded index options).Refers := by
  refine sound.linked.append (List.isChain_singleton constant) fun last member first here => ?_
  cases here
  exact linked last member

/-- A constant that is not under evaluation is none of those that are. -/
theorem Reflector.Sound.apart (sound : r.Sound index options chain)
    (unresolved : r.state constant.id = .unresolved) :
    ∀ entry ∈ chain, entry.id ≠ constant.id := by
  intro entry member sameId
  have opened := sound.opened entry member
  rw [sameId, unresolved] at opened
  cases opened

theorem Reflector.Sound.entering (sound : r.Sound index options chain)
    (held : r.Holds constant) (unresolved : r.state constant.id = .unresolved)
    (linked : ∀ last ∈ chain.getLast?, (bounded index options).Refers last constant) :
    (r.entering constant).Sound index options (chain ++ [constant]) where
  alike := ⟨sound.alike.index, sound.alike.options, sound.alike.classes⟩
  names := by
    change r.underway.constants ++ [constant.identity] = _
    rw [sound.names, List.map_append]
    rfl
  linked := sound.linked_concat linked
  distinct := by
    rw [List.map_append, List.map_singleton]
    refine List.nodup_append.mpr ⟨sound.distinct, by simp, ?_⟩
    rintro _ earlier _ new rfl
    obtain ⟨entry, member, sameId⟩ := List.mem_map.mp earlier
    exact sound.apart unresolved entry member (sameId.trans (List.mem_singleton.mp new))
  held entry member := by
    rcases List.mem_append.mp member with earlier | new
    · exact sound.held entry earlier
    · cases List.mem_singleton.mp new
      exact held
  opened entry member := by
    rw [Reflector.state_entering]
    split
    · rfl
    · rcases List.mem_append.mp member with earlier | new
      · exact sound.opened entry earlier
      · cases List.mem_singleton.mp new
        contradiction
  resolving other heldOther state := by
    rw [Reflector.state_entering] at state
    split at state
    · rename_i sameId
      cases Reflector.Holds.unique heldOther held sameId
      simp
    · exact List.mem_append_left _ (sound.resolving other heldOther state)
  known id state := by
    rw [Reflector.state_entering] at state
    split at state
    · rename_i sameId
      exact ⟨constant, held, sameId.symm⟩
    · exact sound.known id state
  resolved other value heldOther state := by
    rw [Reflector.state_entering] at state
    split at state
    · cases state
    · obtain ⟨evaluates, closed⟩ := sound.resolved other value heldOther state
      refine ⟨evaluates, fun needed refers => ?_⟩
      obtain ⟨known, stateNeeded⟩ := closed needed refers
      refine ⟨known, ?_⟩
      rw [Reflector.state_entering, if_neg]
      · exact stateNeeded
      · intro sameId
        rw [sameId, unresolved] at stateNeeded
        cases stateNeeded
  failed other error node heldOther state stands := by
    rw [Reflector.state_entering] at state
    split at state
    · cases state
    · exact (sound.failed other error node heldOther state stands).keep
        Reflector.keeps_entering

theorem Reflector.Sound.leaving {result : Except ReflectionError Value}
    (sound : r.Sound index options (chain ++ [constant]))
    (fresh : ∀ entry ∈ chain, entry.id ≠ constant.id)
    (answered : ∀ value, result = .ok value →
      (bounded index options).Evaluates constant value ∧
        ∀ other, (bounded index options).Refers constant other →
          ∃ known, r.state other.id = .resolved known)
    (failed : ∀ error node, result = .error error → constant.value = some node →
      (bounded index options).Explains r constant.scope
        (expression constant.scope .strict node) error) :
    (r.leaving constant result).Sound index options chain where
  alike := ⟨sound.alike.index, sound.alike.options, sound.alike.classes⟩
  names := by
    change r.underway.constants.dropLast = _
    rw [sound.names, List.map_append, List.map_singleton, List.dropLast_concat]
  linked := sound.linked.left_of_append
  distinct := by
    have distinct := sound.distinct
    rw [List.map_append] at distinct
    exact (List.nodup_append.mp distinct).1
  held entry member := sound.held entry (List.mem_append_left _ member)
  opened entry member := by
    rw [Reflector.state_leaving, if_neg (fresh entry member)]
    exact sound.opened entry (List.mem_append_left _ member)
  resolving other held state := by
    rw [Reflector.state_leaving] at state
    split at state
    · exact absurd state (settled_ne_resolving _ _)
    · rename_i apart
      rcases List.mem_append.mp (sound.resolving other held state) with earlier | new
      · exact earlier
      · cases List.mem_singleton.mp new
        exact absurd rfl apart
  known id state := by
    rw [Reflector.state_leaving] at state
    split at state
    · rename_i sameId
      exact ⟨constant, sound.held constant (by simp), sameId.symm⟩
    · exact sound.known id state
  resolved other value held state := by
    have stays : ∀ needed : ConstantInfo, (∃ known, r.state needed.id = .resolved known) →
        ∃ known, (r.leaving constant result).state needed.id = .resolved known := by
      rintro needed ⟨known, stateNeeded⟩
      refine ⟨known, ?_⟩
      rw [Reflector.state_leaving, if_neg]
      · exact stateNeeded
      · intro sameId
        rw [sameId, sound.opened constant (by simp)] at stateNeeded
        cases stateNeeded
    rw [Reflector.state_leaving] at state
    split at state
    · rename_i sameId
      cases Reflector.Holds.unique (r := r) held (sound.held constant (by simp)) sameId
      obtain ⟨evaluates, closed⟩ := answered value (eq_ok_of_settled state)
      exact ⟨evaluates, fun needed refers => stays needed (closed needed refers)⟩
    · obtain ⟨evaluates, closed⟩ := sound.resolved other value held state
      exact ⟨evaluates, fun needed refers => stays needed (closed needed refers)⟩
  failed other error node held state stands := by
    rw [Reflector.state_leaving] at state
    split at state
    · rename_i sameId
      cases Reflector.Holds.unique (r := r) held (sound.held constant (by simp)) sameId
      exact (failed error node (eq_error_of_settled state) stands).keep
        Reflector.keeps_leaving
    · exact (sound.failed other error node held state stands).keep Reflector.keeps_leaving

end Steps

end StaticReflection
