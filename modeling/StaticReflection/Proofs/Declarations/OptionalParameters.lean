import StaticReflection.Reflection.Function

namespace StaticReflection

/-! Arguments that a call may leave out. The parameters are marked from the last one to the
first, since one of them is optional only if all that come after it are. -/

/-- The parameters of a function that its scope knows. -/
def Scope.parametersOf (scope : Scope) (decl : FunctionDecl) : List ParameterDecl :=
  decl.parameters.filterMap scope.parameter?

/-- A parameter that has a value also without an argument. -/
def ParameterDecl.isOmissible (parameter : ParameterDecl) : Bool :=
  parameter.default.isSome || parameter.variadic

/-- No parameter but the last one takes all arguments that are left. -/
def VariadicLast (declared : List ParameterDecl) : Prop :=
  ∀ parameter ∈ declared.dropLast, parameter.variadic = false

instance (declared : List ParameterDecl) : Decidable (VariadicLast declared) :=
  inferInstanceAs (Decidable (∀ parameter ∈ declared.dropLast, parameter.variadic = false))

section Marking

variable {scope : Scope} {shown : String} {start place : Nat} {parameter : ParameterDecl}
  {later declared : List ParameterDecl} {info : ParameterInfo} {count : Nat}

theorem VariadicLast.tail (only : VariadicLast (parameter :: later)) : VariadicLast later := by
  intro found among
  apply only
  cases later with
  | nil => cases among
  | cons next rest => exact List.mem_cons_of_mem parameter among

theorem VariadicLast.head (only : VariadicLast (parameter :: later)) (inside : later ≠ []) :
    parameter.variadic = false := by
  apply only
  rw [List.dropLast_cons_of_ne_nil inside]
  exact List.mem_cons_self

/-- The parameters as they are reflected, of which the first one has a given position. -/
def Scope.marked (scope : Scope) (shown : String) (start : Nat)
    (declared : List ParameterDecl) : List ParameterInfo :=
  ((declared.zipIdx start).map fun (parameter, position) =>
    ParameterInfo.ofDecl scope shown position parameter).foldr markOptional []

theorem FunctionInfo.parameters_ofDecl (scope : Scope) (name shown : String) (node : NodeId)
    (decl : FunctionDecl) : (ofDecl scope name shown node decl).parameters =
      scope.marked shown 0 (scope.parametersOf decl) :=
  rfl

theorem marked_cons : scope.marked shown start (parameter :: later) =
    markOptional (.ofDecl scope shown start parameter)
      (scope.marked shown (start + 1) later) :=
  rfl

@[simp] theorem length_marked :
    (scope.marked shown start declared).length = declared.length := by
  induction declared generalizing start with
  | nil => rfl
  | cons parameter later ih =>
      rw [marked_cons, markOptional, List.length_cons, ih, List.length_cons]

/-- The first of some parameters is optional when all of them are omissible. Of none this holds
too, which is how the last parameter finds what comes after it. -/
theorem optional_head_marked (only : VariadicLast declared) :
    ((scope.marked shown start declared).head?.map (·.isOptional)).getD true =
      declared.all (·.isOmissible) := by
  induction declared generalizing start with
  | nil => rfl
  | cons parameter later ih =>
      rw [marked_cons, markOptional, ih only.tail, List.all_cons]
      change (parameter.variadic || (later.all (·.isOmissible) && parameter.default.isSome)) =
        (parameter.isOmissible && later.all (·.isOmissible))
      rw [ParameterDecl.isOmissible]
      cases later with
      | nil => rw [List.all_nil, Bool.true_and, Bool.and_true, Bool.or_comm]
      | cons next rest =>
          rw [only.head (List.cons_ne_nil next rest), Bool.false_or, Bool.or_false, Bool.and_comm]

theorem drop_marked : (scope.marked shown start declared).drop place =
    scope.marked shown (start + place) (declared.drop place) := by
  induction place generalizing start declared with
  | zero => rfl
  | succ place ih =>
      cases declared with
      | nil => rfl
      | cons parameter later =>
          rw [marked_cons, markOptional, List.drop_succ_cons, ih, List.drop_succ_cons,
            Nat.add_right_comm, Nat.add_assoc]

theorem VariadicLast.drop (only : VariadicLast declared) (place : Nat) :
    VariadicLast (declared.drop place) := by
  induction place generalizing declared with
  | zero => exact only
  | succ place ih =>
      cases declared with
      | nil => exact only
      | cons parameter later => exact ih only.tail

/-- A parameter is optional when it and all later ones are omissible. -/
theorem optional_marked_iff (only : VariadicLast declared)
    (found : (scope.marked shown start declared)[place]? = some info) :
    info.isOptional = true ↔ ∀ later ∈ declared.drop place, later.isOmissible = true := by
  have first : (scope.marked shown (start + place) (declared.drop place)).head? = some info := by
    rw [← drop_marked, List.head?_drop, found]
  calc info.isOptional = true
    _ ↔ ((some info).map (·.isOptional)).getD true = true := Iff.rfl
    _ ↔ (declared.drop place).all (·.isOmissible) = true := by
      rw [← first, optional_head_marked (only.drop place)]
    _ ↔ ∀ later ∈ declared.drop place, later.isOmissible = true := List.all_eq_true

/-- How many parameters there are through the last one that is not omissible. -/
inductive RequiredThrough (declared : List ParameterDecl) : Nat → Prop
  | none (all : ∀ later ∈ declared, later.isOmissible = true) : RequiredThrough declared 0
  | last (place : Nat) {parameter : ParameterDecl} (found : declared[place]? = some parameter)
      (required : parameter.isOmissible = false)
      (after : ∀ later ∈ declared.drop (place + 1), later.isOmissible = true) :
      RequiredThrough declared (place + 1)

theorem exists_requiredThrough (declared : List ParameterDecl) :
    ∃ count, RequiredThrough declared count := by
  induction declared with
  | nil => exact ⟨0, .none fun _ among => absurd among List.not_mem_nil⟩
  | cons parameter later ih =>
      obtain ⟨_, all | ⟨place, found, required, after⟩⟩ := ih
      · cases omissible : parameter.isOmissible with
        | true => exact ⟨0, .none (List.forall_mem_cons.mpr ⟨omissible, all⟩)⟩
        | false => exact ⟨1, .last 0 rfl omissible all⟩
      · exact ⟨place + 2, .last (place + 1) found required after⟩

namespace RequiredThrough

theorem le_length (through : RequiredThrough declared count) : count ≤ declared.length := by
  cases through with
  | none => exact Nat.zero_le _
  | last before found => exact (List.getElem?_eq_some_iff.mp found).1

/-- All parameters from a place on are omissible when it is not before the end of this count. -/
theorem omissible_from_iff (through : RequiredThrough declared count) :
    (∀ later ∈ declared.drop place, later.isOmissible = true) ↔ count ≤ place := by
  cases through with
  | none all =>
      exact ⟨fun _ => Nat.zero_le place,
        fun _ later among => all later (List.mem_of_mem_drop among)⟩
  | last before found required after =>
      constructor
      · intro all
        refine Nat.lt_of_not_le fun early => ?_
        have among : (declared.drop place)[before - place]? = declared[place + (before - place)]? :=
          List.getElem?_drop
        rw [Nat.add_sub_of_le early, found] at among
        exact absurd (all _ (List.mem_of_getElem? among)) (Bool.eq_false_iff.mp required)
      · intro late later among
        exact after later (List.drop_subset_drop_left declared late among)

theorem optional_iff (through : RequiredThrough declared count) (only : VariadicLast declared)
    (found : (scope.marked shown start declared)[place]? = some info) :
    info.isOptional = true ↔ count ≤ place :=
  (optional_marked_iff only found).trans through.omissible_from_iff

/-- The required parameters come first. -/
theorem filter_marked (through : RequiredThrough declared count) (only : VariadicLast declared) :
    (scope.marked shown start declared).filter (!·.isOptional) =
      (scope.marked shown start declared).take count := by
  have front : ∀ info ∈ (scope.marked shown start declared).take count,
      (!info.isOptional) = true := by
    intro info among
    obtain ⟨place, inside, rfl⟩ := List.mem_take_iff_getElem.mp among
    have found := List.getElem?_eq_getElem (Nat.lt_of_lt_of_le inside (Nat.min_le_right ..))
    have early : ¬ count ≤ place := by omega
    rw [← through.optional_iff only found] at early
    rw [Bool.eq_false_iff.mpr early, Bool.not_false]
  have back : ∀ info ∈ (scope.marked shown start declared).drop count,
      ¬ (!info.isOptional) = true := by
    intro info among
    obtain ⟨further, inside, rfl⟩ := List.mem_drop_iff_getElem.mp among
    rw [Nat.add_comm] at inside
    have optional := (through.optional_iff only (List.getElem?_eq_getElem inside)).mpr
      (Nat.le_add_right count further)
    rw [optional]
    exact Bool.false_ne_true
  calc (scope.marked shown start declared).filter (!·.isOptional)
    _ = ((scope.marked shown start declared).take count ++
          (scope.marked shown start declared).drop count).filter (!·.isOptional) := by
      rw [List.take_append_drop]
    _ = (scope.marked shown start declared).take count := by
      rw [List.filter_append, List.filter_eq_self.mpr front, List.filter_eq_nil_iff.mpr back,
        List.append_nil]

theorem countP_marked (through : RequiredThrough declared count) (only : VariadicLast declared) :
    (scope.marked shown start declared).countP (!·.isOptional) = count := by
  rw [List.countP_eq_length_filter, through.filter_marked only, List.length_take, length_marked,
    Nat.min_eq_left through.le_length]

end RequiredThrough

end Marking

/-- A parameter is optional exactly if it and all that come after it have a default or are
variadic. So the parameters through the last one that has neither are required, and no others:
they are the front of the list. -/
theorem optional_parameters_come_last (scope : Scope) (name shown : String) (node : NodeId)
    (decl : FunctionDecl) (only : VariadicLast (scope.parametersOf decl)) :
    let declared := scope.parametersOf decl
    let function := FunctionInfo.ofDecl scope name shown node decl
    function.parameters.length = declared.length ∧
    (∀ place info, function.parameters[place]? = some info →
      (info.isOptional = true ↔ ∀ later ∈ declared.drop place, later.isOmissible = true)) ∧
    RequiredThrough declared function.requiredCount ∧
    function.parameters.filter (!·.isOptional) =
      function.parameters.take function.requiredCount := by
  intro declared function
  have parameters : function.parameters = scope.marked shown 0 declared :=
    FunctionInfo.parameters_ofDecl scope name shown node decl
  obtain ⟨count, through⟩ := exists_requiredThrough declared
  have required : function.requiredCount = count := by
    rw [FunctionInfo.requiredCount, parameters, through.countP_marked only]
  rw [required, parameters]
  exact ⟨length_marked, fun place info found => optional_marked_iff only found, through,
    through.filter_marked only⟩

namespace Trailing

def file : SourceFile :=
  SourceFile.parse "/a.php" "<?php function hidden($a = 1, $b, &...$rest) \x7b\x7d".toList

def scope : Scope :=
  ⟨file.placedBlocks.get ⟨0, by decide +kernel⟩, none, some "hidden"⟩

def decl? : Option FunctionDecl :=
  match scope.node? 4 with
  | some (.function decl) => some decl
  | _ => none

def decl : FunctionDecl :=
  decl?.get (by decide +kernel)

end Trailing

open Trailing in
/-- A default in front of a parameter without one leaves both required. -/
theorem default_before_required :
    let function := FunctionInfo.ofDecl scope "hidden" "hidden()" 4 decl
    VariadicLast (scope.parametersOf decl) ∧
    function.parameters.map (fun info => (info.default.isSome, info.isOptional)) =
      [(true, false), (false, false), (false, true)] ∧
    RequiredThrough (scope.parametersOf decl) 2 ∧ function.requiredCount = 2 := by
  intro function
  have facts : VariadicLast (scope.parametersOf decl) ∧
      function.parameters.map (fun info => (info.default.isSome, info.isOptional)) =
        [(true, false), (false, false), (false, true)] ∧
      function.requiredCount = 2 := by decide +kernel
  obtain ⟨only, optional, required⟩ := facts
  obtain ⟨-, -, through, -⟩ :=
    optional_parameters_come_last scope "hidden" "hidden()" 4 decl only
  exact ⟨only, optional, required ▸ through, required⟩

end StaticReflection
