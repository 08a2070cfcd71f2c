import StaticReflection.Proofs.Reflection.InheritanceCycles

namespace StaticReflection

/-! Walks over classes that may have to be loaded first. If every class of a hierarchy loads
when it is named, and no chain of ancestors is longer than the bound, then a walk comes to
its end. -/

/-! What is under way does not matter for finding a class. -/

/-- The query neither reads nor changes what is under way. -/
def Query.Blind {α : Type} (query : Query α) : Prop :=
  ∀ (r : Reflector) (underway : Underway),
    query.result (r.withUnderway underway) = query.result r ∧
      query.next (r.withUnderway underway) = (query.next r).withUnderway underway

namespace Query

variable {α β : Type}

theorem Blind.pure (value : α) : (Pure.pure value : Query α).Blind :=
  fun _ _ => ⟨rfl, rfl⟩

theorem Blind.throw (error : ReflectionError) : (MonadExcept.throw error : Query α).Blind :=
  fun _ _ => ⟨rfl, rfl⟩

theorem Blind.modify {change : Reflector → Reflector}
    (apart : ∀ r underway, change (Reflector.withUnderway r underway) =
      (change r).withUnderway underway) : (modify change : Query Unit).Blind :=
  fun r underway => ⟨rfl, apart r underway⟩

theorem Blind.reads {rest : Reflector → Query β}
    (apart : ∀ r underway, rest (Reflector.withUnderway r underway) = rest r)
    (blind : ∀ r, (rest r).Blind) : (get >>= rest).Blind := by
  intro r underway
  rw [result_get_bind, next_get_bind, apart]
  exact blind r r underway

theorem Blind.bind {query : Query α} {rest : α → Query β} (first : query.Blind)
    (second : ∀ value, (rest value).Blind) : (query >>= rest).Blind := by
  intro r underway
  obtain ⟨result, next⟩ := first r underway
  rw [result_bind, next_bind, result, next, result_bind, next_bind]
  cases query.result r with
  | ok value => exact second value _ underway
  | error error => exact ⟨rfl, rfl⟩

theorem file_blind (path : String) : (file path).Blind := by
  refine .bind (.reads (fun _ _ => rfl) fun r => .bind (.modify fun _ _ => rfl) fun _ => ?_)
    fun loaded => .bind (.modify fun _ _ => rfl) fun _ => .pure _
  split
  · exact .pure _
  · exact .throw _

theorem describe?_blind (kind : DeclarationKind) (key : NameKey) : (describe? kind key).Blind := by
  intro r underway
  rw [result_describe?, next_describe?, Reflector.describe_withUnderway]
  exact ⟨rfl, rfl⟩

theorem constant?_blind (name : String) : (constant? name).Blind :=
  .bind (describe?_blind _ _) fun _ => .pure _

theorem locateClass_blind (name : String) : (locateClass name).Blind := by
  refine .bind (.modify fun _ _ => rfl) fun _ => .reads (fun _ _ => rfl) fun r => ?_
  split
  · exact .throw _
  · exact .bind (file_blind _) fun _ => .pure _

theorem describeKnown_blind (kind : DeclarationKind) (key : NameKey)
    (missing : ReflectionError) : (describeKnown kind key missing).Blind := by
  refine .bind (describe?_blind _ _) fun found => ?_
  cases found with
  | some descriptor => exact .pure descriptor
  | none => exact .throw _

theorem classNamed_blind (name : String) : (classNamed name).Blind := by
  refine .bind (.bind (describe?_blind _ _) fun found => ?_) fun _ => .pure _
  cases found with
  | some descriptor => exact .pure descriptor
  | none => exact .bind (locateClass_blind _) fun _ => describeKnown_blind _ _ _

end Query

/-- The reflector after it was asked for some classes. -/
def Reflector.afterNaming (r : Reflector) (names : List String) : Reflector :=
  names.foldl (fun r name => (Query.classNamed name).next r) r

theorem Reflector.afterNaming_of_known {r : Reflector} {names : List String}
    (known : ∀ name ∈ names, ∃ info, r.index.class? (stripSeparator name) = some info) :
    Note r (r.afterNaming names) := by
  induction names generalizing r with
  | nil => exact refl r
  | cons name rest ih =>
      rw [List.forall_mem_cons] at known
      obtain ⟨info, here⟩ := known.1
      have note := (Query.classNamed_of_known here).2
      have others := ih (r := (Query.classNamed name).next r) (by rw [note.index]; exact known.2)
      exact IsTrans.trans _ _ _ note others

instance (info ancestor : ClassInfo) : Decidable (info.Names ancestor) :=
  inferInstanceAs (Decidable (∃ entry ∈ info.ancestorNames,
    NameKey.folded (stripSeparator entry.1) = ancestor.key))

namespace ClassGraph

open Hierarchy Query

variable {index : EntityIndex} (graph : ClassGraph index)

/-- A class names it as the name of an ancestor. -/
def Uses (name : String) : Prop :=
  ∃ info ∈ graph.classes, ∃ entry ∈ info.ancestorNames, entry.1 = name

/-- Every class is found by the names that others have for it, whichever of these names were
asked for before. -/
def LoadedBy (r : Reflector) : Prop :=
  ∀ names, (∀ name ∈ names, graph.Uses name) →
    ∀ name ancestor, graph.Uses name → ancestor ∈ graph.classes →
      NameKey.folded (stripSeparator name) = ancestor.key →
      (classNamed name).result (r.afterNaming names) = .ok ancestor

/-- Chains of classes from a class on, each of which names the next, have at most so many
of them. -/
def Shallow (room : Nat) (info : ClassInfo) : Prop :=
  ∀ chain, (info :: chain).IsChain graph.Edge → (info :: chain).length ≤ room

variable {graph} {r s : Reflector} {room : Nat} {info ancestor root : ClassInfo}
  {path : List ClassInfo}

theorem uses_of_mem (member : info ∈ graph.classes) {entry : String × AncestorEdge}
    (declared : entry ∈ info.ancestorNames) : graph.Uses entry.1 :=
  ⟨info, member, entry, declared, rfl⟩

theorem class?_of_uses {name : String} (uses : graph.Uses name) :
    ∃ ancestor ∈ graph.classes, index.class? (stripSeparator name) = some ancestor := by
  obtain ⟨info, member, entry, declared, rfl⟩ := uses
  obtain ⟨ancestor, inside, named⟩ := graph.closed info member entry declared
  exact ⟨ancestor, inside, class?_eq inside named⟩

theorem member_of_transGen (reached : Relation.TransGen graph.Edge info ancestor) :
    ancestor ∈ graph.classes := by
  cases reached with
  | single edge => exact edge.1
  | tail _ edge => exact edge.1

/-- Classes that are known already need no file. -/
theorem loadedBy_of_known (known : r.index = index) : graph.LoadedBy r := by
  intro names uses name ancestor _ inside named
  have note : Note r (r.afterNaming names) := by
    apply Reflector.afterNaming_of_known
    intro name among
    obtain ⟨ancestor, _, found⟩ := class?_of_uses (uses name among)
    exact ⟨ancestor, known ▸ found⟩
  have here : (r.afterNaming names).index.class? (stripSeparator name) = some ancestor := by
    rw [note.index, known]
    exact class?_eq inside named
  exact (classNamed_of_known here).1

theorem not_shallow_zero : ¬ graph.Shallow 0 info := fun shallow =>
  absurd (shallow [] (.singleton info)) (by simp)

theorem Shallow.step (shallow : graph.Shallow (room + 1) info)
    (edge : graph.Edge info ancestor) : graph.Shallow room ancestor := by
  intro chain linked
  have longer := shallow (ancestor :: chain) (linked.cons_cons edge)
  simpa using longer

/-- A cycle would make chains of any length. -/
theorem Shallow.grounded (shallow : graph.Shallow room info) : graph.Grounded info := by
  induction room generalizing info with
  | zero => exact absurd shallow not_shallow_zero
  | succ room ih => exact .intro info fun ancestor edge => ih (shallow.step edge)

theorem Shallow.mono_reached (shallow : graph.Shallow room info)
    (reached : Relation.ReflTransGen graph.Edge info ancestor) : graph.Shallow room ancestor := by
  induction reached with
  | refl => exact shallow
  | tail _ edge ih =>
      intro chain linked
      have longer := ih _ (linked.cons_cons edge)
      exact Nat.le_of_succ_le longer

/-- Classes that can be ranked so that ancestors come lower have short chains. -/
theorem shallow_of_rank {rank : ClassInfo → Nat}
    (falls : ∀ info ∈ graph.classes, ∀ ancestor ∈ graph.classes, info.Names ancestor →
      rank ancestor < rank info) (member : info ∈ graph.classes) (low : rank info < room) :
    graph.Shallow room info := by
  intro chain linked
  induction chain generalizing info room with
  | nil => exact Nat.lt_of_le_of_lt (Nat.zero_le _) low
  | cons ancestor rest ih =>
      obtain ⟨edge, others⟩ := List.isChain_cons_cons.mp linked
      have lower := falls info member ancestor edge.1 edge.2
      have shorter : (ancestor :: rest).length ≤ room - 1 := ih edge.1 (by omega) others
      simp only [List.length_cons] at shorter ⊢
      omega

theorem Walked.fresh (walked : graph.Walked path root info)
    (acyclic : ¬ graph.ReachesCycle root) : info.key ∉ path.map (·.key) := by
  intro again
  obtain ⟨_, _, _, reaches⟩ := walked.exists_cycle again
  exact acyclic reaches

/-- On a walk that has come down a path, with nothing done but looking classes up. -/
structure On (graph : ClassGraph index) (r : Reflector) (path : List ClassInfo)
    (s : Reflector) : Prop where
  under : s.underway.classes = path.map (·.name)
  named : ∃ names underway, (∀ name ∈ names, graph.Uses name) ∧
    s = (r.afterNaming names).withUnderway underway

/-- On the walk the query has an answer with a property, and the walk can go on. -/
def Answers {β : Type} (graph : ClassGraph index) (r : Reflector) (path : List ClassInfo)
    (query : Query β) (P : β → Prop) : Prop :=
  ∀ s, graph.On r path s →
    ∃ value, P value ∧ query.result s = .ok value ∧ graph.On r path (query.next s)

theorem On.start (idle : r.underway.classes = []) : graph.On r [] r :=
  ⟨idle, [], r.underway, nofun, rfl⟩

theorem On.withUnderway (on : graph.On r path s) {other : List ClassInfo} {underway : Underway}
    (under : underway.classes = other.map (·.name)) :
    graph.On r other (s.withUnderway underway) := by
  obtain ⟨names, earlier, uses, rfl⟩ := on.named
  exact ⟨under, names, underway, uses, rfl⟩

namespace Answers

variable {α β : Type} {P : α → Prop} {Q : β → Prop}

theorem pure {value : α} (meets : P value) :
    graph.Answers r path (Pure.pure value : Query α) P :=
  fun _ on => ⟨value, meets, rfl, on⟩

theorem bind {query : Query α} {rest : α → Query β} (first : graph.Answers r path query P)
    (second : ∀ value, P value → graph.Answers r path (rest value) Q) :
    graph.Answers r path (query >>= rest) Q := by
  intro s on
  obtain ⟨value, meets, answered, after⟩ := first s on
  rw [result_bind_ok answered, next_bind_ok answered]
  exact second value meets _ after

theorem mono {query : Query α} {R : α → Prop} (answers : graph.Answers r path query P)
    (weaker : ∀ value, P value → R value) : graph.Answers r path query R := by
  intro s on
  obtain ⟨value, meets, rest⟩ := answers s on
  exact ⟨value, weaker value meets, rest⟩

theorem classNamed (loaded : graph.LoadedBy r) {name : String} (uses : graph.Uses name)
    (inside : ancestor ∈ graph.classes)
    (named : NameKey.folded (stripSeparator name) = ancestor.key) :
    graph.Answers r path (Query.classNamed name) (· = ancestor) := by
  rintro s ⟨under, names, underway, usesAll, rfl⟩
  obtain ⟨result, next⟩ := classNamed_blind name (r.afterNaming names) underway
  refine ⟨ancestor, rfl, ?_, ?_, names ++ [name], underway, ?_, ?_⟩
  · rw [result]
    exact loaded names usesAll name ancestor uses inside named
  · rw [next]
    exact under
  · intro other among
    rcases List.mem_append.mp among with earlier | last
    · exact usesAll other earlier
    · rw [List.mem_singleton.mp last]
      exact uses
  · rw [next]
    unfold Reflector.afterNaming
    rw [List.foldl_append]
    rfl

theorem aboveClass {query : Query α} (fresh : info.key ∉ path.map (·.key))
    (answers : graph.Answers r (path ++ [info]) query P) :
    graph.Answers r path (Hierarchy.aboveClass info query) P := by
  intro s on
  have acyclic := cycleFrom?_eq_none fresh
  rw [← on.under] at acyclic
  have entered : (s.underway.enterClass info.name).classes = (path ++ [info]).map (·.name) := by
    change s.underway.classes ++ [info.name] = _
    rw [on.under, List.map_append, List.map_singleton]
  obtain ⟨value, meets, answered, after⟩ := answers _ (on.withUnderway entered)
  refine ⟨value, meets, ?_, ?_⟩
  · rw [aboveClass_result, acyclic]
    exact answered
  · rw [aboveClass_next acyclic]
    refine after.withUnderway ?_
    change List.dropLast _ = _
    rw [after.under, List.map_append, List.map_singleton, List.dropLast_concat]

/-- A walk that starts outside of all classes gives the values that it comes to. -/
theorem values (walk : Nat → Query (OrderedMap NameKey α)) {P : OrderedMap NameKey α → Prop}
    (answers : graph.Answers r [] (walk r.options.maxInheritanceDepth) P)
    (idle : r.underway.classes = []) :
    ∃ found, P found ∧
      (do let found ← walk (← Hierarchy.room); return found.values : Query (List α)).result r =
        .ok found.values := by
  obtain ⟨found, meets, answered, _⟩ := answers r (.start idle)
  refine ⟨found, meets, ?_⟩
  change (walk (_ - r.underway.classes.length) >>= fun found => Pure.pure found.values).result r = _
  rw [idle, List.length_nil, Nat.sub_zero, result_bind_ok answered]
  rfl

end Answers

/-- One step after another over ancestors that are named, in order. -/
inductive Folds {β : Type} (graph : ClassGraph index)
    (step : ClassInfo → AncestorEdge → β → β → Prop) :
    List (String × AncestorEdge) → β → β → Prop
  | done {found : β} : Folds graph step [] found found
  | next {name : String} {edge : AncestorEdge} {rest : List (String × AncestorEdge)}
      {ancestor : ClassInfo} {found middle result : β} :
      ancestor ∈ graph.classes →
      NameKey.folded (stripSeparator name) = ancestor.key →
      step ancestor edge found middle →
      Folds graph step rest middle result →
      Folds graph step ((name, edge) :: rest) found result

variable {β : Type} {visit : β → ClassInfo → AncestorEdge → Query β}
  {step : ClassInfo → AncestorEdge → β → β → Prop}

theorem answers_foldAncestors (loaded : graph.LoadedBy r) (member : info ∈ graph.classes)
    (each : ∀ found ancestor edge, graph.Edge info ancestor →
      graph.Answers r path (visit found ancestor edge) (step ancestor edge found))
    (names : List (String × AncestorEdge)) (among : names ⊆ info.ancestorNames) (found : β) :
    graph.Answers r path (foldAncestors visit found names) (graph.Folds step names found) := by
  induction names generalizing found with
  | nil => exact .pure .done
  | cons entry rest ih =>
      obtain ⟨name, edge⟩ := entry
      have declared := among List.mem_cons_self
      obtain ⟨ancestor, inside, named⟩ := graph.closed info member _ declared
      refine (Answers.classNamed loaded (uses_of_mem member declared) inside named).bind ?_
      intro given same
      subst same
      refine (each found given edge ⟨inside, _, declared, named⟩).bind fun middle stepped => ?_
      intro s on
      obtain ⟨result, folds, answered, after⟩ :=
        ih (fun _ listed => among (List.mem_cons_of_mem _ listed)) middle s on
      exact ⟨result, .next inside named stepped folds, answered, after⟩

/-- A walk over the ancestors of a class, if it has an answer for each of them. -/
theorem answers_above (loaded : graph.LoadedBy r) (acyclic : ¬ graph.ReachesCycle root)
    (walked : graph.Walked path root info)
    (each : ∀ found ancestor edge, graph.Walked (path ++ [info]) root ancestor →
      graph.Edge info ancestor →
      graph.Answers r (path ++ [info]) (visit found ancestor edge) (step ancestor edge found))
    (found : β) :
    graph.Answers r path (aboveClass info (foldAncestors visit found info.ancestorNames))
      (graph.Folds step info.ancestorNames found) :=
  .aboveClass (walked.fresh acyclic) (answers_foldAncestors loaded walked.member
    (fun found ancestor edge names =>
      each found ancestor edge (walked.step (walked.fresh acyclic) names) names)
    _ (List.Subset.refl _) found)

end ClassGraph

end StaticReflection
