import StaticReflection.Proofs.Evaluation.References
import StaticReflection.Proofs.Reflection.MemberLookUp

namespace StaticReflection

/-! The two settings of a reflector: one without any bound, and one in which members are
found only as far as the bound on ancestors lets them be found. -/

namespace Setting

open Evaluation

/-- Everything that one setting finds another finds too. -/
structure Within (first second : Setting) : Prop where
  index : second.index = first.index
  platform : second.platform = first.platform
  finds : ∀ info name found, first.finds info name found → second.finds info name found

section Within

variable {first second : Setting} (wider : first.Within second)

include wider

theorem Derives.mono {scope : Scope} {α : Type} {plan : Plan α} {value : α}
    (derived : first.Derives scope plan value) : second.Derives scope plan value := by
  induction derived with
  | done => exact .done
  | node _ _ ihGiven ihValue => exact .node ihGiven ihValue
  | constant _ _ ihGiven ihValue => exact .constant ihGiven ihValue
  | named known _ ih => exact .named (wider.index ▸ known) ih
  | member found _ ih => exact .member (wider.finds _ _ _ found) ih
  | declared _ ih => exact .declared (wider.index ▸ ih)
  | index _ ih => exact .index (wider.index ▸ ih)
  | platform _ ih => exact .platform (wider.platform ▸ ih)

theorem Meets.mono {scope : Scope} {α : Type} {plan : Plan α} {event : Event}
    (meets : first.Meets scope plan event) : second.Meets scope plan event := by
  induction meets with
  | failure => exact .failure
  | node => exact .node
  | constant => exact .constant
  | afterNode given _ ih => exact .afterNode (given.mono wider) ih
  | afterConstant given _ ih => exact .afterConstant (given.mono wider) ih
  | afterNamed known _ ih => exact .afterNamed (wider.index ▸ known) ih
  | afterMember found _ ih => exact .afterMember (wider.finds _ _ _ found) ih
  | afterDeclared _ ih => exact .afterDeclared (wider.index ▸ ih)
  | afterIndex _ ih => exact .afterIndex (wider.index ▸ ih)
  | afterPlatform _ ih => exact .afterPlatform (wider.platform ▸ ih)

theorem Reaches.mono {scope : Scope} {mode : Mode} {node : NodeId} {constant : ConstantInfo}
    (reaches : first.Reaches scope mode node constant) :
    second.Reaches scope mode node constant := by
  induction reaches with
  | now meets => exact .now (meets.mono wider)
  | nested meets _ ih => exact .nested (meets.mono wider) ih

theorem Refers.mono {constant other : ConstantInfo} (refers : first.Refers constant other) :
    second.Refers constant other := by
  obtain ⟨node, stands, reaches⟩ := refers
  exact ⟨node, stands, reaches.mono wider⟩

end Within

/-! An expression that has a value in the narrower setting needs the same in both. -/

section Narrow

variable {first second : Setting} (wider : first.Within second)
  (functional : second.Functional)

def Answered (setting : Setting) (scope : Scope) : Event → Prop
  | .node mode node => ∃ value, setting.Derives scope (expression scope mode node) value
  | .constant constant root =>
      ∃ value, setting.Derives constant.scope (expression constant.scope .strict root) value
  | .failure _ => False

include wider functional

theorem Derives.narrow {scope : Scope} {α : Type} {plan : Plan α} {value : α} {event : Event}
    (derived : first.Derives scope plan value) (meets : second.Meets scope plan event) :
    first.Meets scope plan event ∧ first.Answered scope event := by
  induction derived with
  | done => cases meets
  | node given _ _ ih =>
      cases meets with
      | node => exact ⟨.node, _, given⟩
      | afterNode again meets =>
          cases (given.mono wider).unique functional again
          exact ⟨.afterNode given (ih meets).1, (ih meets).2⟩
  | constant given _ _ ih =>
      cases meets with
      | constant => exact ⟨.constant, _, given⟩
      | afterConstant again meets =>
          cases (given.mono wider).unique functional again
          exact ⟨.afterConstant given (ih meets).1, (ih meets).2⟩
  | named known _ ih =>
      cases meets with
      | afterNamed again meets =>
          rw [wider.index] at again
          cases known.symm.trans again
          exact ⟨.afterNamed known (ih meets).1, (ih meets).2⟩
  | member found _ ih =>
      cases meets with
      | afterMember again meets =>
          cases functional _ _ _ _ (wider.finds _ _ _ found) again
          exact ⟨.afterMember found (ih meets).1, (ih meets).2⟩
  | declared _ ih =>
      cases meets with
      | afterDeclared meets =>
          rw [wider.index] at meets
          exact ⟨.afterDeclared (ih meets).1, (ih meets).2⟩
  | index _ ih =>
      cases meets with
      | afterIndex meets =>
          rw [wider.index] at meets
          exact ⟨.afterIndex (ih meets).1, (ih meets).2⟩
  | platform _ ih =>
      cases meets with
      | afterPlatform meets =>
          rw [wider.platform] at meets
          exact ⟨.afterPlatform (ih meets).1, (ih meets).2⟩

theorem Reaches.narrow {scope : Scope} {mode : Mode} {node : NodeId}
    {constant : ConstantInfo} (reaches : second.Reaches scope mode node constant)
    {value : Value} (derived : first.Derives scope (expression scope mode node) value) :
    first.Reaches scope mode node constant ∧ ∃ known, first.Evaluates constant known := by
  induction reaches generalizing value with
  | now meets =>
      obtain ⟨here, known, given⟩ := derived.narrow wider functional meets
      exact ⟨.now here, known, _, proper_expression _ _ _ _ _ meets, given⟩
  | nested meets _ ih =>
      obtain ⟨here, known, given⟩ := derived.narrow wider functional meets
      obtain ⟨reaches, evaluates⟩ := ih given
      exact ⟨.nested here reaches, evaluates⟩

theorem Depends.narrow {scope : Scope} {α : Type} {plan : Plan α} {value : α}
    {constant : ConstantInfo} (depends : second.Depends scope plan constant)
    (proper : second.Only scope plan Event.Proper)
    (derived : first.Derives scope plan value) : first.Depends scope plan constant := by
  obtain ⟨start, demands, reached⟩ := depends
  have here : first.Demands scope plan start ∧ ∃ known, first.Evaluates start known := by
    rcases demands with ⟨root, meets⟩ | ⟨mode, node, meets, reaches⟩
    · obtain ⟨meetsHere, known, given⟩ := derived.narrow wider functional meets
      exact ⟨.inl ⟨root, meetsHere⟩, known, root, proper _ meets, given⟩
    · obtain ⟨meetsHere, _, given⟩ := derived.narrow wider functional meets
      obtain ⟨reachesHere, evaluates⟩ := reaches.narrow wider functional given
      exact ⟨.inr ⟨mode, node, meetsHere, reachesHere⟩, evaluates⟩
  have all : Relation.ReflTransGen first.Refers start constant ∧
      ∃ known, first.Evaluates constant known := by
    induction reached with
    | refl => exact ⟨.refl, here.2⟩
    | tail _ last ih =>
        obtain ⟨sofar, known, root, stands, given⟩ := ih
        obtain ⟨node, nodeStands, reaches⟩ := last
        cases stands.symm.trans nodeStands
        obtain ⟨reachesHere, evaluates⟩ := reaches.narrow wider functional given
        exact ⟨sofar.tail ⟨root, stands, reachesHere⟩, evaluates⟩
  exact ⟨start, here.1, all.1⟩

end Narrow

theorem Depends.mono {first second : Setting} (wider : first.Within second) {scope : Scope}
    {α : Type} {plan : Plan α} {constant : ConstantInfo}
    (depends : first.Depends scope plan constant) : second.Depends scope plan constant := by
  obtain ⟨start, demands, reached⟩ := depends
  refine ⟨start, ?_, Relation.ReflTransGen.mono (fun _ _ refers => refers.mono wider) _ _ reached⟩
  rcases demands with ⟨root, meets⟩ | ⟨mode, node, meets, reaches⟩
  · exact .inl ⟨root, meets.mono wider⟩
  · exact .inr ⟨mode, node, meets.mono wider, reaches.mono wider⟩

/-- The values of expressions over some declarations, without any bound. -/
def unbounded (index : EntityIndex) (platform : Platform) : Setting where
  index
  platform
  finds info name found := index.Finds .constant (.exact name) false info found

/-- The same with members that a reflector finds, given its options. -/
def bounded (index : EntityIndex) (options : Options) : Setting where
  index
  platform := options.platform
  finds info name found :=
    ∃ r : Reflector, Alike { options, index } r ∧
      ((Query.member? .constant info name).next r).index = r.index ∧
      (Query.member? .constant info name).result r = .ok found

variable {index : EntityIndex} {options : Options} {platform : Platform}

theorem unbounded_functional : (unbounded index platform).Functional :=
  fun _ _ _ _ found again => EntityIndex.Finds.unique found again

theorem bounded_within : (bounded index options).Within (unbounded index options.platform) where
  index := rfl
  platform := rfl
  finds info name found := by
    rintro ⟨r, alike, same, answered⟩
    have finds := Query.member?_finds answered same
    rw [alike.index] at finds
    exact finds

section Found

variable {r : Reflector} {info : ClassInfo} {name : String} (alike : Alike { options, index } r)
  (same : ((Query.member? .constant info name).next r).index = r.index)

include alike same

theorem finds_bounded_iff {found : Option ConstantInfo} :
    (bounded index options).finds info name found ↔
      (Query.member? .constant info name).result r = .ok found := by
  constructor
  · rintro ⟨s, alikeToo, sameToo, answered⟩
    have between : Alike s r :=
      ⟨alike.index.trans alikeToo.index.symm, alike.options.trans alikeToo.options.symm,
        alike.classes.trans alikeToo.classes.symm⟩
    exact Query.member?_determined .constant info name s r found between sameToo same answered
  · exact fun answered => ⟨r, alike, same, answered⟩

end Found

theorem bounded_functional : (bounded index options).Functional := by
  rintro info name first second ⟨r, alike, same, answered⟩ again
  have answeredAgain := (finds_bounded_iff alike same).mp again
  rw [answered] at answeredAgain
  cases answeredAgain
  rfl

end Setting

end StaticReflection
