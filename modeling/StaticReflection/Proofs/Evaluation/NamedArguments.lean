import StaticReflection.Proofs.Declarations.DefineCalls
import StaticReflection.Proofs.Evaluation.SameMemory

namespace StaticReflection

/-! Calls of functions in constant expressions. The order of the named arguments does not matter,
and neither does whether they are named: a call is decided by the values in the order of the
parameters. -/

namespace Evaluation

theorem exists_of_bind_eq_ok {ε α β : Type} {first : Except ε α} {rest : α → Except ε β}
    {value : β} (answered : (first >>= rest) = .ok value) :
    ∃ given, first = .ok given ∧ rest given = .ok value := by
  cases first with
  | error => cases answered
  | ok given => exact ⟨given, rfl, answered⟩

/-! Where values are put. -/

/-- The values with one more at a position, behind gaps if there are too few. -/
def put (values : List (Option Value)) (position : Nat) (value : Value) : List (Option Value) :=
  (values ++ List.replicate (position + 1 - values.length) none).set position (some value)

section Putting

variable {values : List (Option Value)} {position other : Nat} {value more : Value}

theorem getElem?_put (place : Nat) :
    (put values position value)[place]? =
      if place = position then some (some value)
      else if values.length ≤ place ∧ place < position then some none
      else values[place]? := by
  unfold put
  rw [List.getElem?_set]
  by_cases here : position = place
  · subst here
    rw [if_pos rfl, if_pos rfl, if_pos]
    simp only [List.length_append, List.length_replicate]
    omega
  · rw [if_neg here, if_neg (Ne.symm here)]
    by_cases inside : place < values.length
    · rw [List.getElem?_append_left inside, if_neg (by omega)]
    · rw [List.getElem?_append_right (by omega), List.getElem?_replicate]
      by_cases gap : place < position
      · rw [if_pos (by omega), if_pos (by omega)]
      · rw [if_neg (by omega), if_neg (by omega), List.getElem?_eq_none (by omega)]

theorem put_comm (apart : position ≠ other) :
    put (put values position value) other more = put (put values other more) position value := by
  refine List.ext_getElem? fun place => ?_
  have length (values : List (Option Value)) (position : Nat) (value : Value) :
      (put values position value).length = max values.length (position + 1) := by
    simp only [put, List.length_set, List.length_append, List.length_replicate]
    omega
  simp only [getElem?_put, length]
  split_ifs <;> first | rfl | omega

end Putting

/-! Arguments one by one. -/

/-- An argument as it is passed: its name, if it has one, whether it is spread, and its value. -/
structure Passed where
  name : Option String := none
  spread : Bool := false
  value : Value

namespace Slots

/-- The slots after some more arguments. -/
def addAll (function : PureFunction) : Slots → List Passed → Except Fault Slots
  | slots, [] => .ok slots
  | slots, argument :: rest => do
      (← slots.add function argument.name argument.spread argument.value).addAll function rest

/-- The slots after some more values by name. -/
def placeAll (function : PureFunction) : Slots → List (String × Value) → Except Fault Slots
  | slots, [] => .ok slots
  | slots, (name, value) :: rest => do
      (← slots.place function name value).placeAll function rest

variable {function : PureFunction} {slots last : Slots}

theorem place_eq_ok {name : String} {value : Value} :
    slots.place function name value = .ok last ↔
      ∃ position, function.parameters.findIdx? (· == name) = some position ∧
        (∀ other, slots.values[position]? ≠ some (some other)) ∧
        last = ⟨put slots.values position value, true⟩ := by
  unfold place
  cases found : function.parameters.findIdx? (· == name) with
  | none => simp
  | some position =>
      have padded (other : Value) : (slots.values ++
          List.replicate (position + 1 - slots.values.length) none)[position]? =
            some (some other) ↔ slots.values[position]? = some (some other) := by
        by_cases inside : position < slots.values.length
        · rw [List.getElem?_append_left inside]
        · rw [List.getElem?_append_right (by omega), List.getElem?_replicate, if_pos (by omega),
            List.getElem?_eq_none (by omega)]
          simp
      dsimp only
      constructor
      · intro placed
        split at placed
        · cases placed
        · rename_i free
          exact ⟨position, rfl, fun other taken => free other ((padded other).mpr taken),
            (Except.ok.inj placed).symm⟩
      · rintro ⟨_, ⟨rfl⟩, free, rfl⟩
        split
        · rename_i other taken
          exact absurd ((padded other).mp taken) (free other)
        · rfl

/-- Two values that can be placed by name one after the other can be placed in either order. -/
theorem place_comm {name other : String} {value more : Value}
    (placed : (do (← slots.place function name value).place function other more) = .ok last) :
    (do (← slots.place function other more).place function name value) = .ok last := by
  obtain ⟨middle, first, second⟩ := exists_of_bind_eq_ok placed
  obtain ⟨position, found, free, rfl⟩ := place_eq_ok.mp first
  obtain ⟨otherPosition, otherFound, otherFree, rfl⟩ := place_eq_ok.mp second
  simp only [getElem?_put] at otherFree
  have apart : position ≠ otherPosition := by
    rintro rfl
    exact otherFree value (if_pos rfl)
  have freeBefore : ∀ given, slots.values[otherPosition]? ≠ some (some given) := by
    intro given taken
    obtain ⟨inside, _⟩ := List.getElem?_eq_some_iff.mp taken
    refine otherFree given ?_
    rw [if_neg (Ne.symm apart), if_neg (by omega)]
    exact taken
  have freeAfter : ∀ given, (put slots.values otherPosition more)[position]? ≠
      some (some given) := by
    intro given taken
    rw [getElem?_put, if_neg apart] at taken
    split at taken
    · cases taken
    · exact free given taken
  have first : slots.place function other more = .ok ⟨put slots.values otherPosition more, true⟩ :=
    place_eq_ok.mpr ⟨otherPosition, otherFound, freeBefore, rfl⟩
  rw [first]
  exact place_eq_ok.mpr ⟨position, found, freeAfter, by rw [put_comm apart]⟩

/-- Named values may be placed in any order. -/
theorem placeAll_perm {named other : List (String × Value)} (perm : named.Perm other)
    (placed : slots.placeAll function named = .ok last) :
    slots.placeAll function other = .ok last := by
  induction perm generalizing slots with
  | nil => exact placed
  | cons entry _ ih =>
      obtain ⟨middle, first, rest⟩ := exists_of_bind_eq_ok placed
      rw [placeAll, first]
      exact ih rest
  | swap first second rest =>
      simp only [placeAll, ← bind_assoc] at placed ⊢
      obtain ⟨middle, both, others⟩ := exists_of_bind_eq_ok placed
      rw [place_comm both]
      exact others
  | trans _ _ ihFirst ihSecond => exact ihSecond (ihFirst placed)

theorem positional_map_some (position : Nat) (values : List Value) :
    positional function position (values.map some) = .ok values := by
  induction values generalizing position with
  | nil => rfl
  | cons value rest ih =>
      rw [List.map_cons, positional, ih]
      rfl

/-- A call without gaps has a value in every slot. -/
theorem eq_map_some {position : Nat} {slots : List (Option Value)} {values : List Value}
    (filled : positional function position slots = .ok values) : slots = values.map some := by
  induction slots generalizing position values with
  | nil =>
      cases filled
      rfl
  | cons slot rest ih =>
      cases slot with
      | none => cases filled
      | some value =>
          obtain ⟨others, filledRest, same⟩ := exists_of_bind_eq_ok filled
          cases same
          rw [ih filledRest, List.map_cons]

theorem idxOf_of_findIdx? {names : List String} {name : String} {position : Nat}
    (found : names.findIdx? (· == name) = some position) : names.idxOf name = position :=
  (List.findIdx?_eq_some_iff_findIdx_eq.mp found).2

/-- What is placed further behind leaves a slot as it is. -/
theorem placeAll_getElem? {named : List (String × Value)} {place : Nat}
    (inside : place < slots.values.length)
    (behind : ∀ entry ∈ named, place < function.parameters.idxOf entry.1)
    (placed : slots.placeAll function named = .ok last) :
    last.values[place]? = slots.values[place]? := by
  induction named generalizing slots with
  | nil =>
      cases placed
      rfl
  | cons entry rest ih =>
      obtain ⟨middle, first, others⟩ := exists_of_bind_eq_ok placed
      obtain ⟨position, found, _, rfl⟩ := place_eq_ok.mp first
      have further := behind entry (by simp)
      rw [idxOf_of_findIdx? found] at further
      have stays : (put slots.values position entry.2)[place]? = slots.values[place]? := by
        rw [getElem?_put, if_neg (by omega), if_neg (by omega)]
      rw [ih ?_ (fun other member => behind other (List.mem_cons_of_mem _ member)) others]
      · exact stays
      · exact (List.getElem?_eq_some_iff.mp (stays.trans (List.getElem?_eq_getElem inside))).1

/-- Values that are placed by name in the order of their parameters, without a gap, come one
after the other. -/
theorem placeAll_eq_append {named : List (String × Value)} {before values : List Value}
    (placed : slots.placeAll function named = .ok last) (full : slots.values = before.map some)
    (order : named.Pairwise fun first second =>
      function.parameters.idxOf first.1 < function.parameters.idxOf second.1)
    (filled : last.values = values.map some) : values = before ++ named.map (·.2) := by
  induction named generalizing slots before with
  | nil =>
      cases placed
      rw [List.map_nil, List.append_nil]
      exact (List.map_inj_right fun _ _ => Option.some.inj).mp (filled.symm.trans full)
  | cons entry rest ih =>
      obtain ⟨later, orderRest⟩ := List.pairwise_cons.mp order
      obtain ⟨middle, first, others⟩ := exists_of_bind_eq_ok placed
      obtain ⟨position, found, free, rfl⟩ := place_eq_ok.mp first
      have length : slots.values.length = before.length := by rw [full, List.length_map]
      have reached : before.length ≤ position := by
        by_contra inside
        refine free before[position] ?_
        rw [full, List.getElem?_map, List.getElem?_eq_getElem (by omega)]
        rfl
      -- If it were further behind, the slot after the earlier values would stay empty.
      have next : position = before.length := by
        by_contra apart
        have gap : (put slots.values position entry.2)[before.length]? = some none := by
          rw [getElem?_put, if_neg (Ne.symm apart), if_pos (by omega)]
        have behind : ∀ other ∈ rest, before.length < function.parameters.idxOf other.1 := by
          intro other member
          have further := later other member
          rw [idxOf_of_findIdx? found] at further
          omega
        have stays := placeAll_getElem? (List.getElem?_eq_some_iff.mp gap).1 behind others
        rw [gap, filled, List.getElem?_map] at stays
        obtain ⟨_, _, absurd_⟩ := Option.map_eq_some_iff.mp stays
        cases absurd_
      subst next
      have one : put slots.values before.length entry.2 = (before ++ [entry.2]).map some := by
        unfold put
        rw [full]
        simp
      rw [ih others one orderRest, List.map_cons, List.append_assoc]
      rfl

/-! The arguments of a whole call. -/

/-- Positional arguments and the values that they stand for. Lists are unpacked. -/
inductive Positional : List Passed → List Value → Prop
  | nil : Positional [] []
  | plain {value : Value} {rest : List Passed} {values : List Value} :
      Positional rest values → Positional (⟨none, false, value⟩ :: rest) (value :: values)
  | unpacked {name : Option String} {items : KeyedArray Value} {rest : List Passed}
      {values : List Value} :
      (∀ entry ∈ items.entries, ∃ key, entry.1 = .int key) → Positional rest values →
      Positional (⟨name, true, .array items⟩ :: rest) (items.entries.map (·.2) ++ values)

/-- Named arguments, by the names of their parameters. -/
def byName (named : List (String × Value)) : List Passed :=
  named.map fun (name, value) => ⟨some name, false, value⟩

theorem unpack_list {entries : List (ArrayKey × Value)} (noneNamed : slots.anyNamed = false)
    (list : ∀ entry ∈ entries, ∃ key, entry.1 = .int key) :
    slots.unpack function entries =
      .ok { slots with values := slots.values ++ entries.map (some ·.2) } := by
  induction entries generalizing slots with
  | nil =>
      rw [List.map_nil, List.append_nil]
      rfl
  | cons entry rest ih =>
      obtain ⟨key, value⟩ := entry
      obtain ⟨position, rfl⟩ := list (key, value) (by simp)
      have still : (slots.push value).anyNamed = false := noneNamed
      have others := ih still fun other member => list other (List.mem_cons_of_mem _ member)
      rw [unpack, if_neg (by simp [noneNamed]), others]
      simp [push]

theorem addAll_positional {front back : List Passed} {values : List Value}
    (positional : Positional front values) (noneNamed : slots.anyNamed = false) :
    slots.addAll function (front ++ back) =
      Slots.addAll function { slots with values := slots.values ++ values.map some } back := by
  induction positional generalizing slots with
  | nil => rw [List.map_nil, List.append_nil, List.nil_append]
  | plain _ ih =>
      rename_i value rest values _
      have added : slots.add function none false value = .ok (slots.push value) := by
        simp [add, noneNamed]
      have still : (slots.push value).anyNamed = false := noneNamed
      rw [List.cons_append, addAll, added]
      refine (ih still).trans ?_
      rw [push, List.append_assoc]
      rfl
  | unpacked list _ ih =>
      rename_i name items rest values _
      have added : slots.add function name true (.array items) =
          .ok { slots with values := slots.values ++ items.entries.map (some ·.2) } :=
        unpack_list noneNamed list
      have still : Slots.anyNamed { slots with
          values := slots.values ++ items.entries.map (some ·.2) } = false := noneNamed
      rw [List.cons_append, addAll, added]
      refine (ih still).trans ?_
      rw [List.append_assoc, List.map_append, List.map_map]
      rfl

theorem addAll_byName (named : List (String × Value)) :
    slots.addAll function (byName named) = slots.placeAll function named := by
  induction named generalizing slots with
  | nil => rfl
  | cons entry rest ih =>
      change (slots.place function entry.1 entry.2 >>= fun slots =>
        slots.addAll function (byName rest)) = _
      rw [placeAll]
      congr 1
      funext slots
      exact ih

/-- The arguments of a call in another order: the named ones are permuted, or all of them are
positional, in the order of the parameters. -/
inductive Reordered (function : PureFunction) (values : List Value)
    (named : List (String × Value)) : List Value → List (String × Value) → Prop
  | permuted {other : List (String × Value)} :
      named.Perm other → Reordered function values named values other
  | positional {ordered : List (String × Value)} :
      named.Perm ordered →
      (ordered.Pairwise fun first second =>
        function.parameters.idxOf first.1 < function.parameters.idxOf second.1) →
      Reordered function values named (values ++ ordered.map (·.2)) []

/-- A call has the same values in the same slots if its arguments are reordered. -/
theorem filled_of_reordered {front frontToo : List Passed} {values valuesToo given : List Value}
    {named namedToo : List (String × Value)} (positional : Positional front values)
    (positionalToo : Positional frontToo valuesToo)
    (reordered : Reordered function values named valuesToo namedToo)
    (added : Slots.addAll function {} (front ++ byName named) = .ok last)
    (filled : Evaluation.positional function 0 last.values = .ok given) :
    ∃ other, Slots.addAll function {} (frontToo ++ byName namedToo) = .ok other ∧
      Evaluation.positional function 0 other.values = .ok given := by
  rw [addAll_positional positional rfl, addAll_byName, List.nil_append] at added
  rw [addAll_positional positionalToo rfl, addAll_byName, List.nil_append]
  cases reordered with
  | permuted perm => exact ⟨last, placeAll_perm perm added, filled⟩
  | positional perm order =>
      rename_i ordered
      have all := eq_map_some filled
      have appended := placeAll_eq_append (placeAll_perm perm added) rfl order all
      refine ⟨_, rfl, ?_⟩
      rw [appended]
      exact positional_map_some 0 _

end Slots

/-! How arguments are evaluated. -/

section Arguments

open Query

/-- The argument that stands at a node: its name, its expression and whether it is spread. -/
def argumentAt? (scope : Scope) (argument : NodeId) : Option (Option String × NodeId × Bool) :=
  match scope.node? argument with
  | some (.argument name node spread) => some (name, node, spread)
  | _ => none

/-- An argument of a call, whose expression has its value by itself. -/
def Gives (r : Reflector) (scope : Scope) (argument : NodeId) (passed : Passed) : Prop :=
  ∃ node, argumentAt? scope argument = some (passed.name, node, passed.spread) ∧
    (Query.evaluate scope node).result r = .ok passed.value

/-- Nothing is loaded for the expression of an argument, if it is evaluated by itself. -/
def LoadsNothing (r : Reflector) (scope : Scope) (argument : NodeId) : Prop :=
  ∀ name node spread, argumentAt? scope argument = some (name, node, spread) →
    ((Query.evaluate scope node).next r).index = r.index

/-- The expression of one of some arguments finds out a constant, if it is evaluated by itself. -/
def FindsOut (r : Reflector) (scope : Scope) (arguments : List NodeId) (id : ConstantId) : Prop :=
  ∃ argument ∈ arguments, ∃ name node spread,
    argumentAt? scope argument = some (name, node, spread) ∧
      ∃ value, ((Query.evaluate scope node).next r).state id = .resolved value

/-- What some arguments leave behind: what their expressions find out is known, and nothing else
is new. -/
structure Evaluated (r t next : Reflector) (scope : Scope) (arguments : List NodeId) : Prop where
  enriched : Enriched r next
  outpaces : Outpaces r next
  known : ∀ id, FindsOut r scope arguments id → ∃ value, next.state id = .resolved value
  new : ∀ id value, next.state id = .resolved value → t.state id = .resolved value ∨
    FindsOut r scope arguments id ∧ ∃ constant, r.Holds constant ∧ constant.id = id
  step : Step t next

variable {r t : Reflector} {room : Nat} {scope : Scope} {function : PureFunction}
  {argument : NodeId} {arguments : List NodeId} {passed : Passed} {slots last : Slots}

theorem evaluate_eq_room (scope : Scope) (node : NodeId) (r : Reflector) :
    Query.evaluate scope node r =
      evaluate (r.options.maxExpressionDepth - r.underway.depth) .strict scope node r :=
  congrFun (carry_value _ scope .strict node) r

theorem carry_fillSlots {name : Option String} {node : NodeId} {spread : Bool}
    {rest : List NodeId} (here : argumentAt? scope argument = some (name, node, spread)) :
    carry room scope (fillSlots scope function (argument :: rest) slots) = (do
      let given ← evaluate room .strict scope node
      let slots ← MonadExcept.ofExcept
        ((slots.add function name spread given).mapError (scope.failure · (some argument)))
      carry room scope (fillSlots scope function rest slots)) := by
  unfold argumentAt? at here
  split at here
  next there =>
    cases here
    rw [fillSlots, there]
    simp only [carry_bind, carry_value, carry_ofFault]
  next => cases here

/-- The expression of an argument has the same value after others. -/
theorem evaluate_argument
    (space : room = r.options.maxExpressionDepth - r.underway.depth) {name : Option String}
    {node : NodeId} {spread : Bool} {value : Value}
    (here : argumentAt? scope argument = some (name, node, spread))
    (answered : (Query.evaluate scope node).result r = .ok value)
    (same : ((Query.evaluate scope node).next r).index = r.index)
    (enriched : Enriched r t) (outpaces : Outpaces r t) :
    ∃ next, evaluate room .strict scope node t = (.ok value, next) ∧
      Evaluated r t next scope [argument] := by
  have steady := evaluate_steady (r := r) room .strict scope node
  have alone : Query.evaluate scope node r = evaluate room .strict scope node r :=
    space ▸ evaluate_eq_room scope node r
  have result : (evaluate room .strict scope node).result r = .ok value :=
    (congrArg Prod.fst alone).symm.trans answered
  have next : (Query.evaluate scope node).next r = (evaluate room .strict scope node).next r :=
    congrArg Prod.snd alone
  rw [next] at same
  obtain ⟨resultT, sameT, _⟩ := steady.recurs r t (enriched_refl r) enriched outpaces same value
    result
  obtain ⟨needed, recalls, foundR⟩ := steady.recollects r (enriched_refl r) same value result
  obtain ⟨neededT, recallsT, foundT⟩ := steady.recollects t enriched sameT value resultT
  obtain ⟨_, rfl⟩ := recalls.unique recallsT
  have step : Step t ((evaluate room .strict scope node).next t) :=
    ((evaluate_advances room .strict scope node).next t).toStep
  refine ⟨_, Prod.ext resultT rfl, foundT.enriched, outpaces.recollected foundT step, ?_, ?_, step⟩
  · rintro id ⟨_, member, _, _, _, there, found, state⟩
    cases List.mem_singleton.mp member
    cases here.symm.trans there
    rw [next] at state
    rcases foundR.new id found state with before | ⟨constant, member, rfl⟩
    · exact ⟨found, (foundT.enriched.kept id (by rw [before]; nofun)).trans before⟩
    · exact foundT.known constant member
  · intro id found state
    rcases foundT.new id found state with before | ⟨constant, member, rfl⟩
    · exact .inl before
    · obtain ⟨known, stateR⟩ := foundR.known constant member
      exact .inr ⟨⟨argument, List.mem_singleton_self _, name, node, spread, here, known,
        next ▸ stateR⟩, constant, (recalls.needed_open member).1, rfl⟩

theorem Evaluated.refl (enriched : Enriched r t) (outpaces : Outpaces r t) :
    Evaluated r t t scope [] where
  enriched := enriched
  outpaces := outpaces
  known id found := by
    obtain ⟨_, member, _⟩ := found
    cases member
  new _ _ state := .inl state
  step := IsPreorder.toRefl.refl t

theorem Evaluated.cons {middle next : Reflector}
    (first : Evaluated r t middle scope [argument])
    (rest : Evaluated r middle next scope arguments) :
    Evaluated r t next scope (argument :: arguments) where
  enriched := rest.enriched
  outpaces := rest.outpaces
  known id found := by
    obtain ⟨other, member, finds⟩ := found
    rcases List.mem_cons.mp member with rfl | later
    · obtain ⟨value, state⟩ := first.known id ⟨other, List.mem_singleton_self _, finds⟩
      exact ⟨value, (rest.step.settled id (by rw [state]; nofun)).trans state⟩
    · exact rest.known id ⟨other, later, finds⟩
  new id value state := by
    rcases rest.new id value state with before | ⟨⟨other, member, finds⟩, held⟩
    · rcases first.new id value before with earlier | ⟨⟨other, member, finds⟩, held⟩
      · exact .inl earlier
      · cases List.mem_singleton.mp member
        exact .inr ⟨⟨_, List.mem_cons_self, finds⟩, held⟩
    · exact .inr ⟨⟨other, List.mem_cons_of_mem _ member, finds⟩, held⟩
  step := IsTrans.trans _ _ _ first.step rest.step

/-- The arguments of a call fill the slots with the values that they have by themselves. -/
theorem fillSlots_run
    (space : room = r.options.maxExpressionDepth - r.underway.depth) {passed : List Passed}
    (gives : List.Forall₂ (Gives r scope) arguments passed)
    (still : ∀ argument ∈ arguments, LoadsNothing r scope argument) (enriched : Enriched r t)
    (outpaces : Outpaces r t) :
    (∀ last, slots.addAll function passed = .ok last →
      ∃ next, carry room scope (fillSlots scope function arguments slots) t = (.ok last, next) ∧
        Evaluated r t next scope arguments) ∧
    ∀ last, (carry room scope (fillSlots scope function arguments slots)).result t = .ok last →
      slots.addAll function passed = .ok last := by
  induction gives generalizing t slots with
  | nil =>
      refine ⟨fun last added => ?_, fun last answered => ?_⟩
      · cases added
        exact ⟨t, rfl, .refl enriched outpaces⟩
      · cases answered
        rfl
  | @cons argument passed arguments others gives _ ih =>
      obtain ⟨node, here, answered⟩ := gives
      obtain ⟨stillHere, stillRest⟩ := List.forall_mem_cons.mp still
      obtain ⟨middle, run, evaluated⟩ := evaluate_argument space here answered
        (stillHere _ node _ here) enriched outpaces
      have later := fun slots => @ih middle slots stillRest evaluated.enriched evaluated.outpaces
      rw [carry_fillSlots here, Slots.addAll]
      constructor
      · intro last added
        obtain ⟨filled, first, rest⟩ := exists_of_bind_eq_ok added
        obtain ⟨next, runRest, evaluatedRest⟩ := (later filled).1 last rest
        refine ⟨next, ?_, evaluated.cons evaluatedRest⟩
        rw [bind_of_ok run, first]
        exact runRest
      · intro last answeredAll
        rw [result, bind_of_ok run] at answeredAll
        cases first : slots.add function passed.name passed.spread passed.value with
        | error fault =>
            rw [first] at answeredAll
            cases answeredAll
        | ok filled =>
            rw [first] at answeredAll
            exact (later filled).2 last answeredAll

/-- Where the arguments of one call find out no more than those of another, the other call is
ahead. -/
theorem Evaluated.outpaced {argumentsToo : List NodeId} {next nextToo : Reflector}
    (first : Evaluated r r next scope arguments)
    (second : Evaluated r r nextToo scope argumentsToo)
    (finds : ∀ id, FindsOut r scope arguments id → FindsOut r scope argumentsToo id) :
    Outpaces next nextToo where
  underway := second.step.underway.trans first.step.underway.symm
  resolved id value state := by
    have kept (known : r.state id ≠ .unresolved) : nextToo.state id = .resolved value :=
      (second.enriched.kept id known).trans ((first.enriched.kept id known).symm.trans state)
    rcases first.new id value state with before | ⟨found, constant, held, rfl⟩
    · exact kept (by rw [before]; nofun)
    · obtain ⟨other, stateToo⟩ := second.known _ (finds _ found)
      by_cases open_ : r.state constant.id = .unresolved
      · obtain ⟨node, _, stands, recalls, _⟩ :=
          first.enriched.learned constant value held open_ state
        obtain ⟨nodeToo, _, standsToo, recallsToo, _⟩ :=
          second.enriched.learned constant other held open_ stateToo
        cases stands.symm.trans standsToo
        rw [(recalls.unique recallsToo).1]
        exact stateToo
      · exact kept open_
  free id open_ := second.outpaces.free id (first.enriched.open_of_open open_)

end Arguments

/-! Whole calls. -/

section Calls

open Query

variable {r t : Reflector} {room : Nat} {mode : Mode} {scope : Scope} {function : PureFunction}
  {node nodeToo callee : NodeId} {arguments : List NodeId} {values : List Value} {v : Value}

/-- What a function comes to for the values of its parameters. -/
def outcome (scope : Scope) (node : NodeId) (function : PureFunction) (values : List Value) :
    Plan Value :=
  if function = .constant then constantCall scope node values
  else do
    Plan.ofFault scope (some node) (function.call (← Plan.platform).directorySeparator values)

theorem outcome_grounded (scope : Scope) (node : NodeId)
    (function : PureFunction) (values : List Value) :
    (outcome scope node function values).Grounded r := by
  unfold outcome
  split
  · exact constantCall_grounded scope node values
  · exact Plan.Grounded.platform.bind fun _ => .ofFault

/-- The function that is called at a node, and the arguments of the call. -/
def callAt? (index : EntityIndex) (scope : Scope) (node : NodeId) :
    Option (PureFunction × List NodeId) :=
  match scope.node? node with
  | some (.call callee arguments false) =>
      match scope.node? callee with
      | some (.nameRef name) =>
          (callable? index (scope.resolver.functionCandidates name)).map (·, arguments)
      | _ => none
  | _ => none

theorem carry_index_bind {β : Type} (rest : EntityIndex → Plan β) :
    carry room scope (Plan.index >>= rest) t = carry room scope (rest t.index) t :=
  rfl

theorem carry_call (calls : callAt? t.index scope node = some (function, arguments)) :
    carry room scope (expression scope mode node) t = (do
      let slots ← carry room scope (fillSlots scope function arguments {})
      let values ← MonadExcept.ofExcept
        ((positional function 0 slots.values).mapError (scope.failure · (some node)))
      carry room scope (outcome scope node function values)) t := by
  obtain ⟨callee, name, here, names, calls⟩ : ∃ callee name,
      scope.node? node = some (.call callee arguments false) ∧
      scope.node? callee = some (.nameRef name) ∧
      callable? t.index (scope.resolver.functionCandidates name) = some function := by
    unfold callAt? at calls
    split at calls
    next callee arguments here =>
      split at calls
      next name names =>
        obtain ⟨function, found, same⟩ := Option.map_eq_some_iff.mp calls
        cases same
        exact ⟨callee, name, here, names, found⟩
      next => cases calls
    next => cases calls
  unfold expression call
  rw [here]
  dsimp only
  rw [names]
  rw [carry_index_bind, calls]
  dsimp only [argumentValues]
  simp only [carry_bind, carry_ofFault, bind_assoc]
  rfl

theorem run_outcome (other : function ≠ .constant) :
    carry room scope (outcome scope node function values) t =
      (((function.call t.options.platform.directorySeparator values).mapError
        (scope.failure · (some node))), t) := by
  unfold outcome
  rw [if_neg other]
  change carry room scope (Plan.ofFault scope (some node) _) t = _
  rw [carry_ofFault]
  cases function.call t.options.platform.directorySeparator values <;> rfl

theorem classNamed_anywhere {name found : String} (nodeToo : NodeId)
    (named : scope.classNamed name node = .ok found) :
    scope.classNamed name nodeToo = .ok found := by
  unfold Scope.classNamed at named ⊢
  dsimp only at named ⊢
  split_ifs at named ⊢
  · split at named
    · exact named
    · cases named
  · split at named
    · cases named
    · split at named
      · exact named
      · cases named
  · exact named

theorem ownerOfText_anywhere {text found : String} (nodeToo : NodeId)
    (named : ownerOfText scope node text = .ok found) :
    ownerOfText scope nodeToo text = .ok found := by
  unfold ownerOfText at named ⊢
  dsimp only at named ⊢
  split_ifs at named ⊢
  · exact classNamed_anywhere nodeToo named
  · exact named

/-- Where a function is called decides only where its faults are. -/
theorem outcome_anywhere (node nodeToo : NodeId)
    (answered : (carry room scope (outcome scope node function values)).result t = .ok v) :
    (carry room scope (outcome scope nodeToo function values)).result t = .ok v := by
  by_cases constant : function = .constant
  · unfold outcome at answered ⊢
    rw [if_pos constant] at answered ⊢
    unfold constantCall at answered ⊢
    split at answered
    next name =>
      unfold constantByText at answered ⊢
      split at answered
      next owner member parts =>
        cases named : ownerOfText scope node (String.ofList owner) with
        | error error =>
            rw [named] at answered
            cases answered
        | ok found =>
            rw [named] at answered
            rw [ownerOfText_anywhere nodeToo named]
            exact answered
      next => exact answered
    next => cases answered
    next => cases answered
  · rw [result, run_outcome constant] at answered ⊢
    cases called : function.call t.options.platform.directorySeparator values with
    | error fault =>
        rw [called] at answered
        cases answered
    | ok value =>
        rw [called] at answered
        exact answered

/-- A call of a function with positional arguments for some values and then named ones, each of
which has its value by itself. -/
structure CallsWith (r : Reflector) (scope : Scope) (node : NodeId) (function : PureFunction)
    (arguments : List NodeId) (front : List Passed) (values : List Value)
    (named : List (String × Value)) : Prop where
  stands : callAt? r.index scope node = some (function, arguments)
  positional : Slots.Positional front values
  gives : List.Forall₂ (Gives r.opened scope) arguments (front ++ Slots.byName named)

namespace CallsWith

variable {front : List Passed} {named : List (String × Value)} {slots : Slots} {given : List Value}
  (calls : CallsWith r scope node function arguments front values named)
  (still : ∀ argument ∈ arguments, LoadsNothing r.opened scope argument)
  (space : r.options.maxExpressionDepth - r.underway.depth = room + 1)

include calls space

theorem evaluate_eq :
    let whole : Query Value := do
      let slots ← carry room scope (fillSlots scope function arguments {})
      let values ← MonadExcept.ofExcept
        ((Evaluation.positional function 0 slots.values).mapError (scope.failure · (some node)))
      carry room scope (outcome scope node function values)
    Query.evaluate scope node r = (whole.result r.opened, (whole.next r.opened).closed) := by
  intro whole
  have stands : callAt? r.opened.index scope node = some (function, arguments) := calls.stands
  rw [evaluate_eq_room, space, evaluate_succ, carry_call stands]
  rfl

include still

theorem fillSlots :
    (∀ last, Slots.addAll function {} (front ++ Slots.byName named) = .ok last →
      ∃ next, carry room scope (Evaluation.fillSlots scope function arguments {}) r.opened =
          (.ok last, next) ∧ Evaluated r.opened r.opened next scope arguments) ∧
    ∀ last, (carry room scope (Evaluation.fillSlots scope function arguments {})).result r.opened =
        .ok last →
      Slots.addAll function {} (front ++ Slots.byName named) = .ok last := by
  have spaceOpened : room = r.opened.options.maxExpressionDepth - r.opened.underway.depth := by
    change room = r.options.maxExpressionDepth - (r.underway.depth + 1)
    omega
  exact fillSlots_run spaceOpened calls.gives still (enriched_refl _)
    (outpaces_refl _)

/-- A call whose arguments fill its slots has the value that its function has for them. -/
theorem run (added : Slots.addAll function {} (front ++ Slots.byName named) = .ok slots)
    (filled : Evaluation.positional function 0 slots.values = .ok given) :
    ∃ next, Evaluated r.opened r.opened next scope arguments ∧
      let last := carry room scope (outcome scope node function given)
      Query.evaluate scope node r = (last.result next, (last.next next).closed) := by
  obtain ⟨next, filledSlots, evaluated⟩ := (calls.fillSlots still space).1 slots added
  refine ⟨next, evaluated, ?_⟩
  rw [calls.evaluate_eq space, result, Query.next, bind_of_ok filledSlots, filled]
  rfl

/-- The arguments of a call that has a value fill its slots. -/
theorem filled (answered : (Query.evaluate scope node).result r = .ok v) :
    ∃ slots given, Slots.addAll function {} (front ++ Slots.byName named) = .ok slots ∧
      Evaluation.positional function 0 slots.values = .ok given := by
  obtain ⟨slots, filledSlots, rest⟩ :=
    ok_of_bind ((congrArg Prod.fst (calls.evaluate_eq space)).symm.trans answered)
  have added := (calls.fillSlots still space).2 slots filledSlots
  cases filled : Evaluation.positional function 0 slots.values with
  | error fault =>
      rw [filled] at rest
      cases rest
  | ok given => exact ⟨slots, given, added, filled⟩

end CallsWith

theorem room_of_answered (answered : (Query.evaluate scope node).result r = .ok v) :
    ∃ room, r.options.maxExpressionDepth - r.underway.depth = room + 1 := by
  cases space : r.options.maxExpressionDepth - r.underway.depth with
  | zero =>
      rw [result, evaluate_eq_room, space] at answered
      cases answered
  | succ room => exact ⟨room, rfl⟩

end Calls

/-- In which order the named arguments of a call are written does not matter, and neither does
whether they are written by name: if each argument has its value by itself where it stands, and
nothing is loaded for it, every reordering of the call has the value of the call. `constant`
evaluates besides its argument the constant that it names. Nothing may be loaded for that either,
and the argument of the other call may not find out less. -/
theorem named_arguments_in_any_order {r : Reflector} {scope : Scope} {function : PureFunction}
    {node nodeToo : NodeId} {arguments argumentsToo : List NodeId} {front frontToo : List Passed}
    {values valuesToo : List Value} {named namedToo : List (String × Value)} {v : Value}
    (calls : CallsWith r scope node function arguments front values named)
    (callsToo : CallsWith r scope nodeToo function argumentsToo frontToo valuesToo namedToo)
    (reordered : Slots.Reordered function values named valuesToo namedToo)
    (still : ∀ argument ∈ arguments ++ argumentsToo, LoadsNothing r.opened scope argument)
    (constant : function = .constant →
      ((Query.evaluate scope node).next r).index = r.index ∧
        ∀ id, FindsOut r.opened scope arguments id → FindsOut r.opened scope argumentsToo id)
    (answered : (Query.evaluate scope node).result r = .ok v) :
    (Query.evaluate scope nodeToo).result r = .ok v := by
  obtain ⟨stillFirst, stillSecond⟩ := List.forall_mem_append.mp still
  obtain ⟨room, space⟩ := room_of_answered answered
  obtain ⟨slots, given, added, filled⟩ := calls.filled stillFirst space answered
  obtain ⟨slotsToo, addedToo, filledToo⟩ :=
    Slots.filled_of_reordered calls.positional callsToo.positional reordered added filled
  obtain ⟨next, evaluated, run⟩ := calls.run stillFirst space added filled
  obtain ⟨nextToo, evaluatedToo, runToo⟩ :=
    callsToo.run stillSecond space addedToo filledToo
  have resultToo : (Query.evaluate scope nodeToo).result r = _ := congrArg Prod.fst runToo
  replace answered := (congrArg Prod.fst run).symm.trans answered
  rw [resultToo]
  refine outcome_anywhere node nodeToo ?_
  by_cases other : function = .constant
  · obtain ⟨same, finds⟩ := constant other
    have steady := carry_steady room scope
      (outcome_grounded (r := r.opened) scope node function given)
    have unmoved : ((carry room scope (outcome scope node function given)).next next).index =
        next.index :=
      ((congrArg (Reflector.index ·.2) run).symm.trans same).trans evaluated.enriched.index.symm
    exact (steady.recurs next nextToo evaluated.enriched evaluatedToo.enriched
      (evaluated.outpaced evaluatedToo finds) unmoved v answered).1
  · rw [Query.result, run_outcome other] at answered ⊢
    rw [evaluatedToo.step.options, ← evaluated.step.options]
    exact answered

/-! Calls of `str_repeat`. -/

instance (query : Query Value) (r : Reflector) (bytes : Bytes) :
    Decidable (query.result r = .ok (.string bytes)) :=
  match query.result r with
  | .ok (.string given) => decidable_of_iff (given = bytes) (by simp)
  | .ok .null | .ok (.bool _) | .ok (.float _) | .ok (.int _) | .ok (.array _)
  | .ok (.enumCase _ _) | .error _ => isFalse (by simp)

theorem loadsNothing_of_nowhere {r : Reflector} (nowhere : r.locator = .nowhere) (scope : Scope)
    (argument : NodeId) : LoadsNothing r scope argument := by
  intro name node spread _
  rw [Query.next, evaluate_eq_room]
  exact ((evaluate_advances _ .strict scope node).next r).stays nowhere

namespace Repeating

def file : SourceFile :=
  SourceFile.parse "/a.php" ("<?php const A = str_repeat(string: 'ab', times: 2), " ++
    "B = str_repeat(times: 2, string: 'ab'), C = str_repeat('ab', 2);").toList

def scope : Scope :=
  ⟨file.placedBlocks.get ⟨0, by decide +kernel⟩, none, none⟩

def reflector : Reflector where
  index := .ofFiles [file]

def ab : Value :=
  .string [0x61, 0x62]

theorem facts :
    (callAt? reflector.index scope 5 = some (.strRepeat, [2, 4]) ∧
      callAt? reflector.index scope 12 = some (.strRepeat, [9, 11]) ∧
      callAt? reflector.index scope 19 = some (.strRepeat, [16, 18])) ∧
    ([2, 4, 9, 11, 16, 18].map (argumentAt? scope) =
      [some (some "string", 1, false), some (some "times", 3, false),
        some (some "times", 8, false), some (some "string", 10, false),
        some (none, 15, false), some (none, 17, false)]) ∧
    (∀ node ∈ [1, 10, 15],
      (Query.evaluate scope node).result reflector.opened = .ok (.string [0x61, 0x62])) ∧
    (∀ node ∈ [3, 8, 17], (Query.evaluate scope node).result reflector.opened = .ok (.int 2)) ∧
    (Query.evaluate scope 5).result reflector = .ok (.string [0x61, 0x62, 0x61, 0x62]) := by
  decide +kernel

theorem text {argument node : NodeId} {name : Option String}
    (stands : argumentAt? scope argument = some (name, node, false)) (among : node ∈ [1, 10, 15]) :
    Gives reflector.opened scope argument ⟨name, false, ab⟩ :=
  ⟨node, stands, facts.2.2.1 node among⟩

theorem number {argument node : NodeId} {name : Option String}
    (stands : argumentAt? scope argument = some (name, node, false)) (among : node ∈ [3, 8, 17]) :
    Gives reflector.opened scope argument ⟨name, false, .int 2⟩ :=
  ⟨node, stands, facts.2.2.2.1 node among⟩

theorem still {argument : NodeId} : LoadsNothing reflector.opened scope argument :=
  loadsNothing_of_nowhere (by simp only [reflector, Reflector.opened, Reflector.withUnderway])
    scope argument

end Repeating

open Repeating in
/-- A text is repeated, whichever argument is written first. -/
theorem repeated_in_any_order :
    let abab := .string [0x61, 0x62, 0x61, 0x62]
    (CallsWith reflector scope 5 .strRepeat [2, 4] [] [] [("string", ab), ("times", .int 2)] ∧
      (Query.evaluate scope 5).result reflector = .ok abab) ∧
    (CallsWith reflector scope 12 .strRepeat [9, 11] [] []
        [("times", .int 2), ("string", ab)] ∧
      (Query.evaluate scope 12).result reflector = .ok abab) ∧
    CallsWith reflector scope 19 .strRepeat [16, 18]
        [⟨none, false, ab⟩, ⟨none, false, .int 2⟩] [ab, .int 2] [] ∧
      (Query.evaluate scope 19).result reflector = .ok abab := by
  obtain ⟨⟨stands, standsPermuted, standsPositional⟩, arguments, _, _, answered⟩ := facts
  simp only [List.map_cons, List.map_nil, List.cons.injEq, and_true] at arguments
  obtain ⟨string, times, timesPermuted, stringPermuted, first, second⟩ := arguments
  have named : CallsWith reflector scope 5 .strRepeat [2, 4] [] []
      [("string", ab), ("times", .int 2)] :=
    ⟨stands, .nil, .cons (text string (by simp)) (.cons (number times (by simp)) .nil)⟩
  have permuted : CallsWith reflector scope 12 .strRepeat [9, 11] [] []
      [("times", .int 2), ("string", ab)] :=
    ⟨standsPermuted, .nil,
      .cons (number timesPermuted (by simp)) (.cons (text stringPermuted (by simp)) .nil)⟩
  have positional : CallsWith reflector scope 19 .strRepeat [16, 18]
      [⟨none, false, ab⟩, ⟨none, false, .int 2⟩] [ab, .int 2] [] :=
    ⟨standsPositional, .plain (.plain .nil),
      .cons (text first (by simp)) (.cons (number second (by simp)) .nil)⟩
  refine ⟨⟨named, answered⟩, ⟨permuted, ?_⟩, positional, ?_⟩
  · exact named_arguments_in_any_order named permuted (.permuted (.swap _ _ _))
      (fun _ _ => still)
      (fun same => absurd same (by decide)) answered
  · exact named_arguments_in_any_order named positional
      (.positional (.refl _) (by decide)) (fun _ _ => still)
      (fun same => absurd same (by decide)) answered

namespace Autoloading

def file : SourceFile :=
  SourceFile.parse "/a.php" ("<?php " ++
    "const A = str_repeat(string: strtolower('A'), times: Foo::N), " ++
    "B = str_repeat(times: Foo::N, string: strtolower('A'));").toList

def scope : Scope :=
  ⟨file.placedBlocks.get ⟨0, by decide +kernel⟩, none, none⟩

/-- The file of `Foo` declares a function of its own that hides `strtolower`. -/
def disk : Disk :=
  let text := "<?php class Foo \x7b const N = 2; \x7d function strtolower() \x7b\x7d"
  ⟨[(["foo.php"], text.toUTF8.toList)]⟩

def reflector : Reflector where
  locator := .byFunction fun _ => some "/foo.php"
  sources := { disk }
  index := .ofFiles [file]

theorem facts :
    (callAt? reflector.index scope 9 = some (.strRepeat, [5, 8]) ∧
      callAt? reflector.index scope 20 = some (.strRepeat, [14, 19])) ∧
    [5, 8, 14, 19].map (argumentAt? scope) =
      [some (some "string", 4, false), some (some "times", 7, false),
        some (some "times", 13, false), some (some "string", 18, false)] ∧
    (∀ r ∈ [reflector, reflector.opened],
      (∀ node ∈ [4, 18], (Query.evaluate scope node).result r = .ok (.string [0x61])) ∧
      ∀ node ∈ [7, 13], (Query.evaluate scope node).result r = .ok (.int 2)) ∧
    (Query.evaluate scope 9).result reflector = .ok (.string [0x61, 0x61]) ∧
    ¬(Query.evaluate scope 20).result reflector = .ok (.string [0x61, 0x61]) := by
  decide +kernel

end Autoloading

open Autoloading in
/-- Evaluating an argument can load a file whose declarations change what a later argument
means. -/
theorem order_matters_where_files_are_loaded :
    ¬∀ (r : Reflector) (scope : Scope) (function : PureFunction) (node nodeToo : NodeId)
      (arguments argumentsToo : List NodeId) (named namedToo : List (String × Value)) (v : Value),
      r.index.IsBuilt → CallsWith r scope node function arguments [] [] named →
      CallsWith r scope nodeToo function argumentsToo [] [] namedToo → named.Perm namedToo →
      (∀ argument ∈ arguments ++ argumentsToo, ∃ passed, Gives r scope argument passed) →
      (Query.evaluate scope node).result r = .ok v →
        (Query.evaluate scope nodeToo).result r = .ok v := by
  intro always
  obtain ⟨⟨stands, standsToo⟩, arguments, values, answered, fails⟩ := facts
  simp only [List.map_cons, List.map_nil, List.cons.injEq, and_true] at arguments
  obtain ⟨string, times, timesToo, stringToo⟩ := arguments
  have gives (r : Reflector) (among : r ∈ [reflector, reflector.opened]) :
      Gives r scope 5 ⟨some "string", false, .string [0x61]⟩ ∧
      Gives r scope 8 ⟨some "times", false, .int 2⟩ ∧
      Gives r scope 14 ⟨some "times", false, .int 2⟩ ∧
      Gives r scope 19 ⟨some "string", false, .string [0x61]⟩ :=
    ⟨⟨4, string, (values r among).1 4 (by simp)⟩, ⟨7, times, (values r among).2 7 (by simp)⟩,
      ⟨13, timesToo, (values r among).2 13 (by simp)⟩,
      ⟨18, stringToo, (values r among).1 18 (by simp)⟩⟩
  obtain ⟨first, second, third, fourth⟩ := gives reflector.opened (by simp)
  refine fails (always reflector scope .strRepeat 9 20 [5, 8] [14, 19]
    [("string", .string [0x61]), ("times", .int 2)] [("times", .int 2), ("string", .string [0x61])]
    _ ⟨[file], by simp only [reflector]⟩ ⟨stands, .nil, .cons first (.cons second .nil)⟩
    ⟨standsToo, .nil, .cons third (.cons fourth .nil)⟩ (.swap _ _ _) ?_ answered)
  obtain ⟨first, second, third, fourth⟩ := gives reflector (by simp)
  simp only [List.cons_append, List.nil_append, List.forall_mem_cons]
  exact ⟨⟨_, first⟩, ⟨_, second⟩, ⟨_, third⟩, ⟨_, fourth⟩,
    List.forall_mem_nil _⟩

end Evaluation

end StaticReflection
