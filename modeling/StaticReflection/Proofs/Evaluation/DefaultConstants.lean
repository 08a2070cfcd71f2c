import StaticReflection.Proofs.Evaluation.OpenExpressions
import StaticReflection.Proofs.Evaluation.WiderBounds
import StaticReflection.Proofs.Reflection.FirstAnswers

namespace StaticReflection

/-! The name of the constant that the default of a parameter is. Naming the constant and
evaluating the default go different ways; the constant of that name has the value of the
default all the same. -/

/-! Look-ups that are made again. -/

/-- The second reflector knows all classes that the first knows, and looks members up in the
same way. -/
structure Informed (r s : Reflector) : Prop where
  declared : r.index.Within s.index
  options : s.options = r.options
  classes : s.underway.classes = r.underway.classes

theorem Informed.before {r next s : Reflector} (look : Look r next)
    (informed : Informed next s) : Informed r s where
  declared := look.declared.trans informed.declared
  options := informed.options.trans look.options
  classes := by rw [informed.classes, look.underway]

theorem Informed.noted {r s next : Reflector} (informed : Informed r s) (note : Note s next) :
    Informed r next where
  declared := by rw [note.index]; exact informed.declared
  options := note.options.trans informed.options
  classes := by rw [note.underway, informed.classes]

/-- What is only noted in between adds nothing to what is known. -/
theorem Informed.after {r next s : Reflector} (informed : Informed r s) (note : Note r next) :
    Informed next s where
  declared := by rw [note.index]; exact informed.declared
  options := informed.options.trans note.options.symm
  classes := by rw [note.underway, informed.classes]

theorem Step.informed {r next : Reflector} (step : Step r next) : Informed r next where
  declared := step.declared
  options := step.options
  classes := by rw [step.underway]

/-- An answer is given again, and nothing is loaded for it, wherever that is known what was
known once it was given. -/
def Query.Replays {α : Type} (query : Query α) : Prop :=
  ∀ r s answer, query.result r = .ok answer → Informed (query.next r) s →
    query.result s = .ok answer ∧ Note s (query.next s)

namespace Query

variable {α β : Type}

theorem Replays.pure (value : α) : (Pure.pure value : Query α).Replays :=
  fun _ s _ answered _ => ⟨answered, refl s⟩

theorem Replays.bind {query : Query α} {rest : α → Query β} (first : query.Replays)
    (second : ∀ value, (rest value).Replays) (restLooks : ∀ value, (rest value).Looks) :
    (query >>= rest).Replays := by
  intro r s answer answered informed
  obtain ⟨given, answeredFirst, answeredRest⟩ := ok_of_bind answered
  rw [next_bind_ok answeredFirst] at informed
  obtain ⟨again, note⟩ := first r s given answeredFirst
    (informed.before ((restLooks given).next _))
  obtain ⟨last, noteLast⟩ := second given _ _ answer answeredRest (informed.noted note)
  rw [result_bind_ok again, next_bind_ok again]
  exact ⟨last, IsTrans.trans _ _ _ note noteLast⟩

theorem classNamed_replays (name : String) : (classNamed name).Replays := by
  intro r s info answered informed
  exact classNamed_of_known (informed.declared.info? (known_after_classNamed answered))

end Query

namespace Hierarchy

open Query

variable {α : Type}

theorem refuseCycle_replays (info : ClassInfo) : (refuseCycle info).Replays := by
  intro r s answer answered informed
  unfold refuseCycle at answered informed ⊢
  rw [result_get_bind] at answered
  rw [next_get_bind] at informed
  rw [result_get_bind, next_get_bind]
  cases cyclic : cycleFrom? r.underway.classes info.name with
  | some cycle =>
      rw [cyclic] at answered
      cases answered
  | none =>
      rw [cyclic] at informed
      have same : s.underway.classes = r.underway.classes := informed.classes
      rw [same, cyclic]
      exact ⟨rfl, refl s⟩

theorem inside_class_replays (name : String) {query : Query α} (looks : query.Looks)
    (replays : query.Replays) :
    (inside (·.enterClass name) (·.leaveClass) query).Replays := by
  intro r s answer answered informed
  let entered := r.withUnderway (r.underway.enterClass name)
  rw [result_inside] at answered
  rw [next_inside] at informed
  have underway : (query.next entered).underway = r.underway.enterClass name :=
    (looks.next entered).underway
  have classes : s.underway.classes = r.underway.classes := by
    refine informed.classes.trans ?_
    change (query.next entered).underway.leaveClass.classes = _
    rw [underway, Underway.leaveClass_enterClass]
  have again := replays entered (s.withUnderway (s.underway.enterClass name)) answer answered
    { declared := informed.declared
      options := informed.options
      classes := by
        change s.underway.classes ++ [name] = _
        rw [underway, classes]
        rfl }
  rw [result_inside, next_inside]
  exact ⟨again.1, again.2.outside (Underway.leaveClass_enterClass name)⟩

theorem aboveClass_replays (info : ClassInfo) {query : Query α} (looks : query.Looks)
    (replays : query.Replays) : (aboveClass info query).Replays :=
  .bind (refuseCycle_replays info) (fun _ => inside_class_replays info.name looks replays)
    fun _ => inside_looks (Underway.leaveClass_enterClass info.name) looks

theorem firstAncestor_replays {visit : ClassInfo → AncestorEdge → Query (Option α)}
    (looks : ∀ ancestor edge, (visit ancestor edge).Looks)
    (replays : ∀ ancestor edge, (visit ancestor edge).Replays)
    (names : List (String × AncestorEdge)) : (firstAncestor visit names).Replays := by
  induction names with
  | nil => exact .pure none
  | cons entry rest ih =>
      have restLooks := fun answer => orAncestor_looks looks rest answer
      refine .bind (classNamed_replays entry.1) (fun ancestor =>
        .bind (replays ancestor entry.2) (fun answer => ?_) restLooks)
        fun ancestor => .bind (looks ancestor entry.2) restLooks
      cases answer with
      | some answer => exact .pure _
      | none => exact ih

theorem findMember_replays (kind : MemberKind α) (key : NameKey) (room : Nat)
    (inherited : Bool) (info : ClassInfo) :
    (findMember kind key room inherited info).Replays := by
  induction room generalizing inherited info with
  | zero =>
      unfold findMember
      split
      · exact .pure _
      · exact fun _ _ _ answered _ => absurd answered not_ok_tooDeep
  | succ room ih =>
      unfold findMember
      split
      · exact .pure _
      · have looks := fun ancestor (edge : AncestorEdge) =>
          findMember_looks kind key room (inherited || edge != .trait) ancestor
        exact aboveClass_replays info (firstAncestor_looks looks _)
          (firstAncestor_replays looks (fun ancestor edge => ih _ ancestor) _)

theorem room_replays : room.Replays := by
  intro r s answer answered informed
  have options : s.options = r.options := informed.options
  have classes : s.underway.classes = r.underway.classes := informed.classes
  cases answered
  refine ⟨?_, refl s⟩
  change Except.ok (s.options.maxInheritanceDepth - s.underway.classes.length) = _
  rw [options, classes]

end Hierarchy

theorem Query.member?_replays {α : Type} (kind : MemberKind α) (info : ClassInfo)
    (name : String) : (Query.member? kind info name).Replays :=
  .bind Hierarchy.room_replays
    (fun room => Hierarchy.findMember_replays kind _ room false info)
    fun room => Hierarchy.findMember_looks kind _ room false info

/-! The value of a constant inside an expression, by itself, and later. -/

namespace Evaluation

open Query

variable {room more : Nat} {scope other : Scope} {constant : ConstantInfo} {value : Value}
  {r s : Reflector}

/-- A constant with a value is a case of an enumeration or has an expression. -/
theorem constantValue_cases
    (answered : (carry room scope (constantValue constant)).result r = .ok value) :
    constantValue constant = pure value ∨
      ∃ node, constantValue constant = .initializer constant node := by
  unfold constantValue at answered ⊢
  split at answered
  · cases answered
    exact .inl rfl
  · split at answered
    · exact .inr ⟨_, rfl⟩
    · cases answered

theorem constantValue_widened (le : room ≤ more) (same : s.bare = r.bare)
    (answered : (carry room scope (constantValue constant)).result r = .ok value) :
    (carry more other (constantValue constant)).result s = .ok value := by
  rcases constantValue_cases answered with case | ⟨node, case⟩
  · rw [case]
    rfl
  · rw [case, carry_initializer] at answered ⊢
    rcases resolve_carries (evaluate_carries le .strict) constant node r s (.of_bare same) with
      ⟨error, _, failed⟩ | ⟨again, _⟩
    · cases failed.symm.trans answered
    · exact again.trans answered

theorem constantValue_stays
    (answered : (carry room scope (constantValue constant)).result r = .ok value)
    (step : Step ((carry room scope (constantValue constant)).next r) s) :
    (Query.constantValue constant).result s = .ok value := by
  unfold Query.constantValue
  rw [result_perform]
  rcases constantValue_cases answered with case | ⟨node, case⟩
  · rw [case]
    rfl
  · rw [case, carry_initializer] at answered step ⊢
    have state := state_of_resolve answered
    have later := step.settled constant.id (by rw [state]; nofun)
    exact (resolve_of_resolved (later.trans state)).1

end Evaluation

/-! The constant that a default is. -/

namespace Evaluation

open Query

variable {room : Nat} {scope : Scope} {value : Value} {r : Reflector}

theorem constantValue_alone {constant : ConstantInfo} {moment later : Reflector}
    (same : later.bare = moment.bare) (options : moment.options = r.options)
    (underway : moment.underway = r.underway)
    (space : room + 1 = r.options.maxExpressionDepth - r.underway.depth)
    (answered : (carry room scope (constantValue constant)).result moment = .ok value) :
    (Query.constantValue constant).result later = .ok value := by
  unfold Query.constantValue
  have optionsToo : later.options = moment.options := (congrArg Reflector.options same :)
  have underwayToo : later.underway = moment.underway := (congrArg Reflector.underway same :)
  rw [result_perform, optionsToo, underwayToo, options, underway, ← space]
  exact constantValue_widened (Nat.le_succ room) same answered

/-- A constant of a class has the same value by itself, at once and later. -/
theorem classConstant_denotes {owner name : String}
    (space : room + 1 = r.options.maxExpressionDepth - r.underway.depth)
    (answered : (carry room scope (classConstant owner name)).result r = .ok value) :
    (Question.classConstant owner name).query.result r = .ok (some value) ∧
      ∀ s, Step ((carry room scope (classConstant owner name)).next r) s →
        (Question.classConstant owner name).query.result s = .ok (some value) := by
  unfold classConstant at answered ⊢
  rw [carry_bind, carry_classNamed] at answered ⊢
  obtain ⟨info, named, rest⟩ := ok_of_bind answered
  rw [carry_bind, carry_member?] at rest
  obtain ⟨found, asked, last⟩ := ok_of_bind rest
  cases found with
  | none => cases last
  | some constant =>
      have lookNamed := (classNamed_looks owner).next r
      have lookAsked := (member?_looks .constant info name).next ((Query.classNamed owner).next r)
      unfold Question.query classConstant?
      dsimp only
      constructor
      · rw [result_bind_ok named, result_bind_ok asked]
        dsimp only
        rw [result_bind_ok (constantValue_alone rfl (lookAsked.options.trans lookNamed.options)
          (lookAsked.underway.trans lookNamed.underway) space last)]
        rfl
      · intro s step
        rw [next_bind_ok named, carry_bind, carry_member?, next_bind_ok asked] at step
        have advance := (carry_advances room scope (constantValue constant)).next
          ((Query.member? .constant info name).next ((Query.classNamed owner).next r))
        have informed := (IsTrans.trans _ _ _ advance.toStep step : Step _ s).informed
        obtain ⟨namedAgain, note⟩ := classNamed_replays owner r s info named
          (informed.before lookAsked)
        obtain ⟨askedAgain, noteToo⟩ :=
          member?_replays .constant info name _ _ _ asked (informed.noted note)
        have later := (IsTrans.trans _ _ _ note noteToo).look.step
        rw [result_bind_ok namedAgain, result_bind_ok askedAgain]
        dsimp only
        rw [result_bind_ok (constantValue_stays last (IsTrans.trans _ _ _ step later))]
        rfl

end Evaluation

/-! The class that is reported for a name in front of a constant. -/

namespace Scope

variable (scope : Scope)

def reportedOwner? (written : String) : Option String :=
  if sameFolded written "self" then scope.owner.map (·.name)
  else if sameFolded written "parent" then scope.owner.bind (·.parent)
  else some (scope.resolver.classNamed written)

/-- If the name stands for a class when it is evaluated, it stands for the reported one. -/
theorem eq_of_reportedOwner? {written target found : String} {node : NodeId}
    (reported : scope.reportedOwner? written = some target)
    (resolved : scope.classNamed written node = .ok found) : found = target := by
  unfold reportedOwner? at reported
  unfold Scope.classNamed at resolved
  by_cases self : sameFolded written "self" = true
  · rw [if_pos self] at reported resolved
    cases owned : scope.owner <;> simp_all
  · rw [if_neg self] at reported resolved
    by_cases parent : sameFolded written "parent" = true
    · rw [if_pos parent] at reported resolved
      cases owned : scope.owner with
      | none => simp_all
      | some owner => cases above : owner.parent <;> simp_all
    · rw [if_neg parent] at reported resolved
      split at resolved <;> simp_all

end Scope

/-! Names of constants outside of classes. -/

theorem no_separator_of_predefined {separator : Char} {name : String} {value : Value}
    (predefined : predefinedConstant? separator name = some value) : '\\' ∉ name.toList := by
  have listed : name ∈ predefinedInts.map (·.1) ++ predefinedFloats.map (·.1) ++
      (predefinedTexts separator).map (·.1) := by
    unfold predefinedConstant? at predefined
    by_contra absent
    simp only [List.mem_append, not_or] at absent
    have missing {α : Type} {entries : List (String × α)} (absent : name ∉ entries.map (·.1)) :
        entries.lookup name = none := by
      have keys : name ∉ (⟨entries⟩ : OrderedMap String α).keys := absent
      exact OrderedMap.find?_eq_none_iff.mpr keys
    rw [missing absent.1.1, missing absent.1.2, missing absent.2] at predefined
    cases predefined
  have texts : (predefinedTexts separator).map (·.1) = (predefinedTexts '/').map (·.1) := rfl
  rw [texts] at listed
  have plain : ∀ name ∈ predefinedInts.map (·.1) ++ predefinedFloats.map (·.1) ++
      (predefinedTexts '/').map (·.1), '\\' ∉ name.toList := by decide +kernel
  exact plain name listed

theorem separator_mem_joinNamespace {space short : String} (inside : space ≠ "") :
    '\\' ∈ (joinNamespace space short).toList := by
  unfold joinNamespace
  rw [if_neg inside]
  simp

/-- Of the names that a constant may have, all but the last are names in a namespace. -/
theorem Resolver.constantCandidates_split (resolver : Resolver) (text : String) :
    ∃ earlier last, resolver.constantCandidates text = earlier ++ [last] ∧
      ∀ name ∈ earlier, '\\' ∈ name.toList := by
  unfold constantCandidates candidates
  dsimp only
  split
  · exact ⟨[], _, rfl, nofun⟩
  · exact ⟨[], _, rfl, nofun⟩
  · exact ⟨[], _, rfl, nofun⟩
  · split
    · exact ⟨[], _, rfl, nofun⟩
    · split
      · exact ⟨[], _, rfl, nofun⟩
      · rename_i inside
        refine ⟨[_], text, rfl, fun name listed => ?_⟩
        rw [List.mem_singleton.mp listed]
        exact separator_mem_joinNamespace inside

theorem findSome?_eq_bind {α β : Type} (f : α → Option β) (list : List α) :
    list.findSome? f = (list.find? fun entry => (f entry).isSome).bind f := by
  induction list with
  | nil => rfl
  | cons entry rest ih =>
      rw [List.findSome?_cons, List.find?_cons]
      cases given : f entry with
      | some value => simp [given]
      | none => simpa [given] using ih

namespace Evaluation

open Query

variable {room : Nat} {scope : Scope} {value : Value} {r : Reflector}

/-- Looking for the first name that is declared leaves nothing but descriptors. -/
theorem run_firstDeclared (room : Nat) (scope : Scope) (r : Reflector) (names : List String) :
    ∃ s, Note r s ∧ carry room scope (names.findSomeM? Plan.declared?) r =
      (.ok (names.findSome? r.index.constant?), s) := by
  induction names generalizing r with
  | nil => exact ⟨r, refl r, rfl⟩
  | cons name rest ih =>
      have note := (constant?_notes name).next r
      have asked : constant? name r = (.ok (r.index.constant? name), (constant? name).next r) :=
        Prod.ext (result_constant? name r) rfl
      rw [List.findSomeM?, carry_bind, carry_declared?, bind_of_ok asked, List.findSome?_cons]
      cases r.index.constant? name with
      | some constant => exact ⟨_, note, rfl⟩
      | none =>
          obtain ⟨s, noteRest, run⟩ := ih ((constant? name).next r)
          rw [note.index] at run
          exact ⟨s, IsTrans.trans _ _ _ note noteRest, run⟩

theorem run_valueOfFirst (room : Nat) (scope : Scope) (r : Reflector) (names : List String)
    (shown : String) :
    ∃ s, Note r s ∧ carry room scope (valueOfFirst names shown) r =
      match names.findSome? r.index.constant? with
      | some constant => carry room scope (constantValue constant) s
      | none =>
          match firstPredefined? r.options.platform names with
          | some value => (pure value : Query Value) s
          | none => (throw (.constantNotFound shown) : Query Value) s := by
  obtain ⟨s, note, run⟩ := run_firstDeclared room scope r names
  refine ⟨s, note, ?_⟩
  unfold valueOfFirst
  rw [carry_bind, bind_of_ok run, ← note.options]
  cases names.findSome? r.index.constant? with
  | some constant => rfl
  | none =>
      change carry room scope (match firstPredefined? s.options.platform names with
        | some value => _
        | none => _) s = _
      cases firstPredefined? s.options.platform names <;> rfl

theorem predefined_of_firstPredefined? {platform : Platform} {earlier : List String}
    {last : String} (inside : ∀ name ∈ earlier, '\\' ∈ name.toList)
    (found : firstPredefined? platform (earlier ++ [last]) = some value) :
    platform.predefinedConstants = true ∧
      predefinedConstant? platform.directorySeparator last = some value := by
  unfold firstPredefined? at found
  split at found
  · rename_i allowed
    have absent : earlier.findSome? (predefinedConstant? platform.directorySeparator) = none := by
      refine List.findSome?_eq_none_iff.mpr fun name listed => ?_
      by_contra other
      obtain ⟨given, predefined⟩ := Option.ne_none_iff_exists'.mp other
      exact no_separator_of_predefined predefined (inside name listed)
    rw [List.findSome?_append, absent] at found
    exact ⟨allowed, by simpa using found⟩
  · cases found

/-- The first declared name of some is the one by which the constant is found, at once and
later. If none of them is declared, the last one is predefined. -/
theorem valueOfFirst_denotes {earlier : List String} {last shown name : String}
    (space : room + 1 = r.options.maxExpressionDepth - r.underway.depth)
    (inside : ∀ name ∈ earlier, '\\' ∈ name.toList)
    (reported : ((earlier ++ [last]).find? (fun name => (r.index.constant? name).isSome) <|>
      (earlier ++ [last]).getLast?) = some name)
    (answered : (carry room scope (valueOfFirst (earlier ++ [last]) shown)).result r =
      .ok value) :
    ((Question.constant name).query.result r = .ok value ∧
      ∀ s, Step ((carry room scope (valueOfFirst (earlier ++ [last]) shown)).next r) s →
        (Question.constant name).query.result s = .ok value) ∨
    r.index.constant? name = none ∧ r.options.platform.predefinedConstants = true ∧
      predefinedConstant? r.options.platform.directorySeparator name = some value := by
  obtain ⟨s, note, run⟩ := run_valueOfFirst room scope r (earlier ++ [last]) shown
  cases declared : (earlier ++ [last]).findSome? r.index.constant? with
  | some constant =>
      rw [declared] at run
      have here : (carry room scope (constantValue constant)).result s = .ok value :=
        (congrArg Prod.fst run).symm.trans answered
      have next : (carry room scope (valueOfFirst (earlier ++ [last]) shown)).next r =
        (carry room scope (constantValue constant)).next s := congrArg Prod.snd run
      rw [findSome?_eq_bind] at declared
      obtain ⟨first, found, known⟩ := Option.bind_eq_some_iff.mp declared
      rw [found] at reported
      cases reported
      refine .inl ⟨?_, fun later step => ?_⟩
      · have named := constantNamed_eq_ok_iff.mpr known
        have noteNamed := (constantNamed_notes name).next r
        change (constantNamed name >>= Query.constantValue).result r = _
        rw [result_bind_ok named]
        exact constantValue_alone (noteNamed.rest.trans note.rest.symm) note.options note.underway
          space here
      · rw [next] at step
        have advance := (carry_advances room scope (constantValue constant)).next s
        have whole : Step s later := IsTrans.trans _ _ _ advance.toStep step
        have knownLater : later.index.constant? name = some constant :=
          whole.declared.info? (note.index ▸ known)
        have named := constantNamed_eq_ok_iff.mpr knownLater
        have noteNamed := (constantNamed_notes name).next later
        change (constantNamed name >>= Query.constantValue).result later = _
        rw [result_bind_ok named]
        exact constantValue_stays here (IsTrans.trans _ _ _ step noteNamed.look.step)
  | none =>
      rw [declared] at run
      have absent := List.findSome?_eq_none_iff.mp declared
      have nothing : (earlier ++ [last]).find?
          (fun name => (r.index.constant? name).isSome) = none :=
        List.find?_eq_none.mpr fun name listed => by simp [absent name listed]
      rw [nothing, List.getLast?_append] at reported
      obtain rfl : last = name := by simpa using reported
      cases predefined : firstPredefined? r.options.platform (earlier ++ [last]) with
      | none =>
          rw [predefined] at run
          cases (congrArg Prod.fst run).symm.trans answered
      | some given =>
          rw [predefined] at run
          cases (congrArg Prod.fst run).symm.trans answered
          exact .inr ⟨absent last (by simp), predefined_of_firstPredefined? inside predefined⟩

/-! The name that is reported. -/

/-- The expression of the default is the constant of a class with the reported name, or fails. -/
theorem classConstFetch_of_reported {scope : Scope} {node owner : NodeId}
    {written target name : String} (here : scope.node? owner = some (.nameRef written))
    (other : sameFolded name "class" = false)
    (named : scope.reportedOwner? written = some target) :
    classConstFetch scope node owner name = classConstant target name ∨
      ∃ error, classConstFetch scope node owner name = .fail error := by
  have fetched : classConstFetch scope node owner name =
      Plan.bind (.done (scope.classNamed written node)) fun owner =>
        classConstant owner name := by
    unfold classConstFetch
    rw [here]
    simp only [other]
    rfl
  cases resolved : scope.classNamed written node with
  | error error => exact .inr ⟨error, by rw [fetched, resolved]; rfl⟩
  | ok found =>
      rw [fetched, resolved, scope.eq_of_reportedOwner? named resolved]
      exact .inl rfl

end Evaluation

open Evaluation in
/-- A default with a value is carried out with room to spare for what it refers to. -/
theorem Query.parameterDefault_run {parameter : ParameterInfo} {r : Reflector} {value : Value}
    (answered : (Query.parameterDefault parameter).result r = .ok value) :
    ∃ node room, parameter.default = some node ∧
      room + 1 = r.options.maxExpressionDepth - r.underway.depth ∧
      let plan := expression parameter.scope .strict node
      (carry room parameter.scope plan).result r = .ok value ∧
        (Query.parameterDefault parameter).next r = (carry room parameter.scope plan).next r := by
  unfold Query.parameterDefault at answered ⊢
  cases given : parameter.default with
  | none =>
      rw [given] at answered
      cases answered
  | some node =>
      rw [given] at answered
      dsimp only at answered ⊢
      unfold Query.evaluate at answered ⊢
      rw [result_perform, carry_value] at answered
      rw [next_perform, carry_value]
      cases deep : r.options.maxExpressionDepth - r.underway.depth with
      | zero =>
          rw [deep] at answered
          cases answered
      | succ room =>
          rw [deep] at answered
          obtain ⟨result, next⟩ := evaluate_eq_carry room .strict parameter.scope node r
          exact ⟨node, room, rfl, rfl, result.symm.trans answered, next⟩

theorem Query.result_findM?_constant? (names : List String) (r : Reflector) :
    (names.findM? fun name => return (← constant? name).isSome).result r =
      .ok (names.find? fun name => (r.index.constant? name).isSome) := by
  induction names generalizing r with
  | nil => rfl
  | cons name rest ih =>
      rw [List.findM?, bind_assoc, result_bind_ok (result_constant? name r), List.find?_cons]
      cases r.index.constant? name with
      | some constant => rfl
      | none => exact (ih _).trans (((constant?_notes name).next r).index ▸ rfl)

/-- A name is reported for a constant, or for a constant of a class that is named. -/
theorem Query.defaultConstantName?_cases {parameter : ParameterInfo} {node : NodeId}
    {s : Reflector} {name : String} (given : parameter.default = some node)
    (reported : (Query.defaultConstantName? parameter).result s = .ok (some name)) :
    (∃ text, parameter.scope.node? node = some (.constFetch text) ∧
      literalConstant? (stripSeparator text) = none ∧
      let candidates := parameter.scope.resolver.constantCandidates text
      (candidates.find? (fun candidate => (s.index.constant? candidate).isSome) <|>
        candidates.getLast?) = some name) ∨
    ∃ owner short written, parameter.scope.node? node = some (.classConstFetch owner short) ∧
      sameFolded short "class" = false ∧
      parameter.scope.node? owner = some (.nameRef written) ∧
      ∃ target, parameter.scope.reportedOwner? written = some target ∧
        name = target ++ "::" ++ short := by
  unfold Query.defaultConstantName? at reported
  rw [given] at reported
  dsimp only [Option.bind_some] at reported
  split at reported
  · rename_i text here
    split at reported
    · cases reported
    · rename_i notLiteral
      refine .inl ⟨text, here, by simpa using notLiteral, ?_⟩
      rw [result_bind_ok (result_findM?_constant? _ s)] at reported
      exact Except.ok.inj reported
  · rename_i owner short here
    split at reported
    · cases reported
    · rename_i other
      split at reported
      · rename_i written named
        obtain ⟨target, owned, rfl⟩ := Option.map_eq_some_iff.mp (Except.ok.inj reported)
        exact .inr ⟨owner, short, written, here, by simpa using other, named, target, owned, rfl⟩
      · cases reported
  · cases reported

open Evaluation in
/-- The reported name of a default names what is evaluated. If a parameter's default is
reported to be a constant, and has a value, then that is the value of the constant with the
reported name: of a class, or outside of classes, or else predefined and not declared. The
name may be asked for wherever the same is known. The constant has the value at once, and
after any requests that follow the evaluation of the default. -/
theorem default_has_value_of_reported_constant {parameter : ParameterInfo} {r s : Reflector}
    {name : String} {value : Value} (same : s.index = r.index)
    (reported : (Query.defaultConstantName? parameter).result s = .ok (some name))
    (answered : (Query.parameterDefault parameter).result r = .ok value) :
    let asked (later : Reflector) : Prop := later = r ∨
      ∃ requests, later = ((Query.parameterDefault parameter).next r).afterAll requests
    (∃ owner short, name = owner ++ "::" ++ short ∧ ∀ later, asked later →
      (Question.classConstant owner short).query.result later = .ok (some value)) ∨
    (∀ later, asked later → (Question.constant name).query.result later = .ok value) ∨
    r.index.constant? name = none ∧ r.options.platform.predefinedConstants = true ∧
      predefinedConstant? r.options.platform.directorySeparator name = some value := by
  intro asked
  obtain ⟨node, room, given, space, run, next⟩ := Query.parameterDefault_run answered
  have always {P : Reflector → Prop} (now : P r)
      (after : ∀ later, Step ((Query.parameterDefault parameter).next r) later → P later) :
      ∀ later, asked later → P later := by
    rintro later (rfl | ⟨requests, rfl⟩)
    · exact now
    · exact after _ (Reflector.step_afterAll _ requests)
  rw [next] at always
  rcases Query.defaultConstantName?_cases given reported with
    ⟨text, here, notLiteral, named⟩ |
      ⟨owner, short, written, here, other, named, target, owned, rfl⟩
  · have fetched : expression parameter.scope .strict node =
        valueOfFirst (parameter.scope.resolver.constantCandidates text)
          ((parameter.scope.resolver.constantCandidates text).head?.getD
            (stripSeparator text)) := by
      unfold expression constantFetch
      rw [here]
      simp only [notLiteral]
    rw [fetched] at run always
    obtain ⟨earlier, last, split, inside⟩ :=
      parameter.scope.resolver.constantCandidates_split text
    rw [split] at run always named
    rw [same] at named
    rcases valueOfFirst_denotes space inside named run with ⟨now, stays⟩ | predefined
    · exact .inr (.inl (always now stays))
    · exact .inr (.inr predefined)
  · have fetched : expression parameter.scope .strict node =
        classConstFetch parameter.scope node owner short := by
      unfold expression
      rw [here]
    rw [fetched] at run always
    rcases classConstFetch_of_reported named other owned with plan | ⟨error, plan⟩
    · rw [plan] at run always
      obtain ⟨now, stays⟩ := classConstant_denotes space run
      exact .inl ⟨target, short, rfl, always now stays⟩
    · rw [plan] at run
      cases run

/-- The constant of a class that a default refers to as `self::X`, found by the reported name
once the default was evaluated and its file loaded again. -/
theorem default_has_value_of_self_constant :
    let text : Text := ("<?php namespace App; const SIZE = 7; class A \x7b " ++
      "const X = SIZE; function f($a = self::X) \x7b\x7d \x7d").toList
    let load : Request := .loadText "/app/a.php" text
    let r := (Reflector.new {} .nowhere {}).after load
    ∃ parameter, ((r.index.class? "App\\A").bind fun info =>
        (info.members.methods.find? (.folded "f")).bind (·.function.parameter? "a")) =
          some parameter ∧
      (Query.defaultConstantName? parameter).result r = .ok (some "App\\A::X") ∧
      (Query.parameterDefault parameter).result r = .ok (.int 7) ∧
      ∃ owner short, "App\\A::X" = owner ++ "::" ++ short ∧
        (Question.classConstant owner short).query.result
          (((Query.parameterDefault parameter).next r).afterAll [load]) =
            .ok (some (.int 7)) := by
  intro text load r
  have found : ((r.index.class? "App\\A").bind fun info =>
      (info.members.methods.find? (.folded "f")).bind fun method =>
        (method.function.parameter? "a").map fun parameter =>
          (((Query.defaultConstantName? parameter).result r).toOption,
            decide ((Query.parameterDefault parameter).result r = .ok (.int 7)))) =
      some (some (some "App\\A::X"), true) := by decide +kernel
  obtain ⟨info, known, found⟩ := Option.bind_eq_some_iff.mp found
  obtain ⟨method, declared, found⟩ := Option.bind_eq_some_iff.mp found
  obtain ⟨parameter, given, found⟩ := Option.map_eq_some_iff.mp found
  simp only [Prod.mk.injEq, decide_eq_true_eq] at found
  obtain ⟨reported, answered⟩ := found
  have reported := Query.ok_of_toOption reported
  have missing : ((Question.constant "App\\A::X").query.result r).toOption.isSome = false := by
    decide +kernel
  have notPredefined : (predefinedConstant? '/' "App\\A::X").isNone = true := by decide +kernel
  have options : r.options = {} := (load.step _).options
  refine ⟨parameter, ?_, reported, answered, ?_⟩
  · rw [known, Option.bind_some, declared, Option.bind_some, given]
  · rcases default_has_value_of_reported_constant rfl reported answered with
      ⟨owner, short, split, stays⟩ | stays | ⟨_, _, predefined⟩
    · exact ⟨owner, short, split, stays _ (.inr ⟨[load], rfl⟩)⟩
    · rw [stays r (.inl rfl)] at missing
      cases missing
    · rw [options] at predefined
      cases (Option.isNone_iff_eq_none.mp notPredefined).symm.trans predefined

end StaticReflection
