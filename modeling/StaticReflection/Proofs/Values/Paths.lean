import Mathlib.Data.List.Basic
import Mathlib.Logic.Function.Iterate
import StaticReflection.Value.Function

namespace StaticReflection

/-! Paths as components between separators. The parent of a path leaves out its last
component, and its base name is that component. -/

def IsRun (separator : Char) (bytes : Bytes) : Prop :=
  ∀ byte ∈ bytes, isPathSeparator separator byte = true

theorem isRun_nil (separator : Char) : IsRun separator [] :=
  nofun

structure IsComponent (separator : Char) (bytes : Bytes) : Prop where
  notEmpty : bytes ≠ []
  plain : ∀ byte ∈ bytes, isPathSeparator separator byte = false

instance (separator : Char) (bytes : Bytes) : Decidable (IsRun separator bytes) :=
  decidable_of_iff (bytes.all (isPathSeparator separator) = true) List.all_eq_true

instance (separator : Char) (bytes : Bytes) : Decidable (IsComponent separator bytes) :=
  decidable_of_iff
    (bytes.isEmpty = false ∧ bytes.any (isPathSeparator separator) = false)
    ⟨fun ⟨isRun, plain⟩ => ⟨List.isEmpty_eq_false_iff.mp isRun, by simpa using plain⟩,
      fun holds => ⟨List.isEmpty_eq_false_iff.mpr holds.notEmpty, by simpa using holds.plain⟩⟩

theorem IsRun.last {separator : Char} {run : Bytes} (separates : IsRun separator run) :
    ∀ byte ∈ run.getLast?, isPathSeparator separator byte = true :=
  fun byte final => separates byte (List.mem_of_getLast? final)

theorem IsRun.last_append {separator : Char} {run : Bytes} (separates : IsRun separator run)
    (notEmpty : run ≠ []) (bytes : Bytes) :
    ∀ byte ∈ (bytes ++ run).getLast?, isPathSeparator separator byte = true := by
  rw [List.getLast?_append_of_ne_nil _ notEmpty]
  exact separates.last

section Ends

variable {separator : Char} {before component trailing : Bytes}

theorem trimSeparators_append_run (run : IsRun separator trailing) (bytes : Bytes) :
    trimSeparators separator (bytes ++ trailing) = trimSeparators separator bytes := by
  unfold trimSeparators
  rw [List.reverse_append, List.dropWhile_append_of_pos]
  exact fun byte among => run byte (List.mem_reverse.mp among)

theorem trimSeparators_run (run : IsRun separator trailing) :
    trimSeparators separator trailing = [] :=
  trimSeparators_append_run run []

theorem trimSeparators_append_component (last : IsComponent separator component)
    (bytes : Bytes) : trimSeparators separator (bytes ++ component) = bytes ++ component := by
  obtain ⟨front, final, rfl⟩ := List.eq_nil_or_concat component |>.resolve_left last.notEmpty
  have plain := last.plain final (by simp)
  unfold trimSeparators
  simp [plain]

theorem lastComponent_append (last : IsComponent separator component)
    (ends : ∀ byte ∈ before.getLast?, isPathSeparator separator byte = true) :
    lastComponent separator (before ++ component) = component := by
  have plain : ∀ byte ∈ component.reverse, (!isPathSeparator separator byte) = true :=
    fun byte among => by simp [last.plain byte (List.mem_reverse.mp among)]
  unfold lastComponent
  rw [List.reverse_append, List.takeWhile_append_of_pos plain]
  have stops : before.reverse.takeWhile (fun byte => !isPathSeparator separator byte) = [] := by
    rw [List.getLast?_eq_head?_reverse] at ends
    cases reversed : before.reverse with
    | nil => rfl
    | cons byte rest =>
        have separates := ends byte (by rw [reversed]; rfl)
        simp [separates]
  rw [stops, List.append_nil, List.reverse_reverse]

/-- The last component is left out with the separators around it. -/
theorem parentOf_append (last : IsComponent separator component)
    (run : IsRun separator trailing)
    (ends : ∀ byte ∈ before.getLast?, isPathSeparator separator byte = true) :
    parentOf separator (before ++ component ++ trailing) =
      if before = [] then [0x2e]
      else if trimSeparators separator before = [] then before.take 1
      else trimSeparators separator before := by
  have trimmed : trimSeparators separator (before ++ component ++ trailing) =
      before ++ component := by
    rw [trimSeparators_append_run run, trimSeparators_append_component last]
  have notEmpty : before ++ component ≠ [] := by simp [last.notEmpty]
  unfold parentOf
  simp only [trimmed, notEmpty, if_false, lastComponent_append last ends]
  by_cases alone : before = []
  · simp [alone]
  · have more : component.length ≠ (before ++ component).length := by
      simpa using alone
    have first : (before ++ component ++ trailing).take 1 = before.take 1 := by
      cases before with
      | nil => exact absurd rfl alone
      | cons byte rest => rfl
    have front : (before ++ component).take ((before ++ component).length - component.length) =
        before := by simp
    simp only [more, if_false, alone, front, first]
    split <;> simp_all

theorem baseName_append (last : IsComponent separator component)
    (run : IsRun separator trailing)
    (ends : ∀ byte ∈ before.getLast?, isPathSeparator separator byte = true) :
    baseName separator (before ++ component ++ trailing) [] = component := by
  unfold baseName
  rw [trimSeparators_append_run run, trimSeparators_append_component last,
    lastComponent_append last ends]
  simp

end Ends

/-- Taking parents ends early only at a path that is its own parent. -/
theorem ancestorOf_eq_iterate (separator : Char) (levels : Nat) (path : Bytes) :
    ancestorOf separator levels path = (parentOf separator)^[levels] path := by
  induction levels generalizing path with
  | zero => rfl
  | succ levels ih =>
      rw [ancestorOf, Function.iterate_succ_apply]
      split
      · rename_i fixed
        rw [fixed, Function.iterate_fixed fixed]
      · exact ih _

/-- A path as it is written: a component or several with separators between them, perhaps
after separators, and perhaps with separators at the end. -/
structure WrittenPath (separator : Char) where
  leading : Bytes
  first : Bytes
  /-- The components after the first one, each with the separators before it. -/
  further : List (Bytes × Bytes)
  trailing : Bytes
  leading_run : IsRun separator leading
  first_component : IsComponent separator first
  further_run : ∀ part ∈ further, part.1 ≠ [] ∧ IsRun separator part.1
  further_component : ∀ part ∈ further, IsComponent separator part.2
  trailing_run : IsRun separator trailing

namespace WrittenPath

variable {separator : Char} (path : WrittenPath separator)

def components : List Bytes :=
  path.first :: path.further.map (·.2)

/-- The path up to the end of a component, which are counted from one on. -/
def upTo (count : Nat) : Bytes :=
  path.leading ++ path.first ++ (path.further.take (count - 1)).flatMap fun part =>
    part.1 ++ part.2

def bytes : Bytes :=
  path.upTo path.components.length ++ path.trailing

theorem upTo_one : path.upTo 1 = path.leading ++ path.first := by
  simp [upTo]

theorem upTo_succ {count : Nat} {part : Bytes × Bytes}
    (there : path.further[count]? = some part) :
    path.upTo (count + 2) = path.upTo (count + 1) ++ part.1 ++ part.2 := by
  simp [upTo, List.take_add_one, there]

theorem exists_further {count : Nat} (inside : count + 1 < path.components.length) :
    ∃ part ∈ path.further, path.further[count]? = some part ∧
      path.components[count + 1]? = some part.2 := by
  have bound : count < path.further.length := by
    simpa [components] using inside
  have there := List.getElem?_eq_getElem bound
  exact ⟨_, List.getElem_mem bound, there, by simp [components, there]⟩

/-- The path up to a component ends with it. -/
theorem upTo_ends {count : Nat} (inside : count < path.components.length) :
    ∃ before component, path.components[count]? = some component ∧
      IsComponent separator component ∧ path.upTo (count + 1) = before ++ component ∧
      ∀ byte ∈ before.getLast?, isPathSeparator separator byte = true := by
  cases count with
  | zero =>
      exact ⟨path.leading, path.first, rfl, path.first_component, path.upTo_one,
        path.leading_run.last⟩
  | succ count =>
      obtain ⟨part, among, there, component⟩ := path.exists_further inside
      obtain ⟨notEmpty, run⟩ := path.further_run part among
      exact ⟨path.upTo (count + 1) ++ part.1, part.2, component,
        path.further_component part among, path.upTo_succ there, run.last_append notEmpty _⟩

/-- The ancestor of a path that has no further parent. -/
def root : Bytes :=
  if path.leading = [] then [0x2e] else path.bytes.take 1

theorem root_of_leading (given : path.leading ≠ []) : path.root = path.leading.take 1 := by
  unfold root bytes upTo
  rw [if_neg given]
  cases leading : path.leading with
  | nil => exact absurd leading given
  | cons byte rest => rfl

theorem parentOf_root : parentOf separator path.root = path.root := by
  by_cases given : path.leading = []
  · have only : path.root = [0x2e] := if_pos given
    rw [only]
    cases separates : isPathSeparator separator 0x2e <;>
      simp [parentOf, trimSeparators, lastComponent, separates]
  · rw [path.root_of_leading given]
    have run : IsRun separator (path.leading.take 1) :=
      fun byte among => path.leading_run byte (List.mem_of_mem_take among)
    simp [parentOf, trimSeparators_run run, List.take_take]

theorem parentOf_upTo_one {trailing : Bytes} (run : IsRun separator trailing) :
    parentOf separator (path.upTo 1 ++ trailing) = path.root := by
  rw [path.upTo_one, parentOf_append path.first_component run path.leading_run.last,
    if_pos (trimSeparators_run path.leading_run)]
  by_cases given : path.leading = []
  · rw [if_pos given, root, if_pos given]
  · rw [if_neg given, path.root_of_leading given]

theorem parentOf_upTo_succ {count : Nat} (inside : count + 1 < path.components.length)
    {trailing : Bytes} (run : IsRun separator trailing) :
    parentOf separator (path.upTo (count + 2) ++ trailing) = path.upTo (count + 1) := by
  obtain ⟨part, among, there, _⟩ := path.exists_further inside
  obtain ⟨notEmpty, between⟩ := path.further_run part among
  obtain ⟨before, component, _, last, ends, _⟩ := path.upTo_ends (Nat.lt_of_succ_lt inside)
  have trimmed : trimSeparators separator (path.upTo (count + 1) ++ part.1) =
      path.upTo (count + 1) := by
    rw [trimSeparators_append_run between, ends, trimSeparators_append_component last]
  have nonempty : path.upTo (count + 1) ≠ [] := by
    rw [ends]
    simp [last.notEmpty]
  rw [path.upTo_succ there, parentOf_append (path.further_component part among) run
    (between.last_append notEmpty _), trimmed, if_neg (by simp [nonempty]), if_neg nonempty]

/-- The path that is left of the components when some are left out at the end. -/
def ancestor (levels : Nat) : Bytes :=
  if levels < path.components.length then path.upTo (path.components.length - levels)
  else path.root

theorem parentOf_upTo {count : Nat} (positive : 0 < count)
    (inside : count ≤ path.components.length) {trailing : Bytes}
    (run : IsRun separator trailing) :
    parentOf separator (path.upTo count ++ trailing) =
      path.ancestor (path.components.length - count + 1) := by
  unfold ancestor
  match count, positive with
  | 1, _ =>
      rw [path.parentOf_upTo_one run, if_neg (by omega)]
  | count + 2, _ =>
      have left : path.components.length - (path.components.length - (count + 2) + 1) =
          count + 1 := by omega
      rw [path.parentOf_upTo_succ (by omega) run, if_pos (by omega), left]

/-- Each parent has one component less, until there is none. -/
theorem iterate_parentOf (levels : Nat) :
    (parentOf separator)^[levels + 1] path.bytes = path.ancestor (levels + 1) := by
  induction levels with
  | zero =>
      have positive : 0 < path.components.length := Nat.succ_pos _
      have parent := path.parentOf_upTo positive (Nat.le_refl _) path.trailing_run
      rwa [Nat.sub_self] at parent
  | succ levels ih =>
      rw [Function.iterate_succ_apply', ih]
      by_cases more : levels + 1 < path.components.length
      · have left : 0 < path.components.length - (levels + 1) := by omega
        have parent := path.parentOf_upTo left (Nat.sub_le _ _) (isRun_nil separator)
        have level : path.components.length - (path.components.length - (levels + 1)) + 1 =
            levels + 1 + 1 := by omega
        rw [List.append_nil, level] at parent
        rw [← parent, ancestor, if_pos more]
      · rw [ancestor, if_neg more, ancestor, if_neg (by omega), path.parentOf_root]

theorem length_components_le : path.components.length ≤ path.bytes.length := by
  have parts : ∀ parts : List (Bytes × Bytes), (∀ part ∈ parts, part.1 ≠ []) →
      parts.length ≤ (parts.flatMap fun part => part.1 ++ part.2).length := by
    intro parts
    induction parts with
    | nil => simp
    | cons part rest ih =>
        intro runs
        rw [List.forall_mem_cons] at runs
        have positive := List.length_pos_iff.mpr runs.1
        have others := ih runs.2
        simp only [List.flatMap_cons, List.length_cons, List.length_append]
        omega
  have further := parts path.further fun part among => (path.further_run part among).1
  have first := List.length_pos_iff.mpr path.first_component.notEmpty
  have all : path.further.take (path.components.length - 1) = path.further := by
    simp [components]
  unfold bytes upTo
  rw [all]
  simp only [components, List.length_cons, List.length_map, List.length_append]
  omega

end WrittenPath

open PureFunction

/-- The number of levels counts no further than any path has components. -/
theorem call_dirname (separator : Char) (path : Bytes) {levels : Int64} (positive : 1 ≤ levels) :
    dirname.call separator [.string path, .int levels] =
      .ok (.string (ancestorOf separator (min levels.toInt.toNat (path.length + 2)) path)) := by
  have given : ¬ levels < 1 := by simpa using positive
  change (dirname.apply separator (.string path) (some (.int levels)) : Except Fault Value) = _
  simp only [apply, stringArgument, Value.toBytes, PureFunction.optional, intArgument, bind,
    Except.bind, given, if_false]
  rfl

theorem call_dirname_once (separator : Char) (path : Bytes) :
    dirname.call separator [.string path] = .ok (.string (parentOf separator path)) := by
  have once : min (1 : Int64).toInt.toNat (path.length + 2) = 1 := by
    have one : (1 : Int64).toInt.toNat = 1 := rfl
    omega
  have defaulted : dirname.call separator [.string path] =
      dirname.call separator [.string path, .int 1] := rfl
  rw [defaulted, call_dirname separator path (by decide), once, ancestorOf_eq_iterate]
  rfl

/-- The parent so many levels up is the path up to the component so many places before the
last one. Past the first component it is a point, or the first byte of a path that starts
with a separator. Several levels are one level several times. -/
theorem dirname_drops_components {separator : Char} (path : WrittenPath separator)
    {levels : Int64} (positive : 1 ≤ levels) :
    let count := path.components.length
    let up := levels.toInt.toNat
    dirname.call separator [.string path.bytes, .int levels] =
      .ok (.string (if up < count then path.upTo (count - up)
        else if path.leading = [] then [0x2e] else path.bytes.take 1)) ∧
    dirname.call separator [.string path.bytes, .int levels] =
      .ok (.string ((parentOf separator)^[up] path.bytes)) ∧
    (∀ bytes, dirname.call separator [.string bytes] =
      .ok (.string (parentOf separator bytes))) ∧
    ∃ component, path.components.getLast? = some component ∧
      basename.call separator [.string path.bytes] = .ok (.string component) := by
  intro count up
  have least : 1 ≤ up := by
    have le : (1 : Int64).toInt ≤ levels.toInt := Int64.le_iff_toInt_le.mp positive
    have one : (1 : Int64).toInt = 1 := rfl
    omega
  have ancestors : ∀ levels, 1 ≤ levels →
      ancestorOf separator levels path.bytes = path.ancestor levels := by
    intro levels positive
    obtain ⟨fewer, rfl⟩ := Nat.exists_eq_add_of_le' positive
    rw [ancestorOf_eq_iterate, path.iterate_parentOf]
  -- With more levels than the call counts the path has run out of components either way.
  have counted : ancestorOf separator (min up (path.bytes.length + 2)) path.bytes =
      ancestorOf separator up path.bytes := by
    have short : count ≤ path.bytes.length := path.length_components_le
    rw [ancestors _ (by omega), ancestors up least]
    by_cases within : up ≤ path.bytes.length + 2
    · rw [Nat.min_eq_left within]
    · rw [Nat.min_eq_right (by omega), WrittenPath.ancestor, WrittenPath.ancestor,
        if_neg (by omega), if_neg (by omega)]
  refine ⟨?_, ?_, call_dirname_once separator, ?_⟩
  · rw [call_dirname separator path.bytes positive, counted, ancestors up least]
    rfl
  · rw [call_dirname separator path.bytes positive, counted, ancestorOf_eq_iterate]
  · have inside : count - 1 < count := Nat.sub_lt (Nat.succ_pos _) Nat.one_pos
    obtain ⟨before, component, there, last, ends, separates⟩ := path.upTo_ends inside
    refine ⟨component, List.getLast?_eq_getElem?.trans there, ?_⟩
    have whole : path.bytes = before ++ component ++ path.trailing := congrArg (· ++ _) ends
    rw [whole]
    exact congrArg (Except.ok <| Value.string ·)
      (baseName_append last path.trailing_run separates)

/-- Three components with separators of both kinds. -/
def WrittenPath.mixed : WrittenPath '\\' where
  leading := Utf8.ofString "\\/"
  first := Utf8.ofString "var"
  further := [(Utf8.ofString "//", Utf8.ofString "www"),
    (Utf8.ofString "\\", Utf8.ofString "app")]
  trailing := Utf8.ofString "/"
  leading_run := by decide +kernel
  first_component := by decide +kernel
  further_run := by decide +kernel
  further_component := by decide +kernel
  trailing_run := by decide +kernel

/-- Two levels up from the third component. -/
theorem dirname_of_mixed_separators :
    (1 : Int64) ≤ 2 ∧
    WrittenPath.mixed.bytes = Utf8.ofString "\\/var//www\\app/" ∧
    dirname.call '\\' [.string WrittenPath.mixed.bytes, .int 2] =
      .ok (.string (Utf8.ofString "\\/var")) ∧
    basename.call '\\' [.string WrittenPath.mixed.bytes] =
      .ok (.string (Utf8.ofString "app")) := by
  have positive : (1 : Int64) ≤ 2 := by decide
  obtain ⟨parent, -, -, component, last, base⟩ :=
    dirname_drops_components WrittenPath.mixed positive
  refine ⟨positive, by decide +kernel, parent.trans ?_, base.trans ?_⟩
  · refine congrArg (Except.ok <| Value.string ·) ?_
    decide +kernel
  · obtain rfl : Utf8.ofString "app" = component := Option.some.inj (by
      rw [← last]
      decide +kernel)
    rfl

end StaticReflection
