import StaticReflection.Proofs.Reflection.DeclarationIds
import StaticReflection.Proofs.Reflection.MemberLookUp
import StaticReflection.Proofs.Reflection.Sessions

namespace StaticReflection

/-! The constants that look-ups give away are held from then on. -/

namespace OrderedMap

variable {κ α β : Type} [DecidableEq κ]

theorem mem_values_foldl_insertNew {P : α → Prop} {map : OrderedMap κ α}
    {entries : List (κ × α)} (before : ∀ value ∈ map.values, P value)
    (added : ∀ entry ∈ entries, P entry.2) :
    ∀ value ∈ (entries.foldl (fun map (key, value) => map.insertNew key value) map).values,
      P value := by
  induction entries generalizing map with
  | nil => exact before
  | cons entry rest ih =>
      refine ih ?_ fun other member => added other (List.mem_cons_of_mem _ member)
      intro value member
      obtain ⟨found, foundMember, rfl⟩ := List.mem_map.mp member
      rcases mem_insertNew foundMember with earlier | ⟨_, rfl⟩
      · exact before _ (List.mem_map_of_mem earlier)
      · exact added entry (by simp)

end OrderedMap

namespace Hierarchy

open Query

variable {α : Type} {kind : MemberKind α} {P : α → Prop}

/-- All that a class declares has a property. -/
def Grants (kind : MemberKind α) (P : α → Prop) (info : ClassInfo) : Prop :=
  ∀ entry ∈ (kind.table info.members).entries, P entry.2

theorem foldAncestors_all {visit : OrderedMap NameKey α → ClassInfo → AncestorEdge →
      Query (OrderedMap NameKey α)}
    (looks : ∀ found info edge, (visit found info edge).Looks)
    (index : EntityIndex)
    (visited : ∀ found info edge r result, r.index = index → Grants kind P info →
      (∀ member ∈ found.values, P member) → (visit found info edge).result r = .ok result →
        ((visit found info edge).next r).index = r.index → ∀ member ∈ result.values, P member)
    (known : ∀ name info, index.class? name = some info → Grants kind P info)
    (names : List (String × AncestorEdge)) {found result : OrderedMap NameKey α}
    {r : Reflector} (sameIndex : r.index = index) (before : ∀ member ∈ found.values, P member)
    (answered : (foldAncestors visit found names).result r = .ok result)
    (same : ((foldAncestors visit found names).next r).index = r.index) :
    ∀ member ∈ result.values, P member := by
  induction names generalizing found r with
  | nil =>
      cases answered
      exact before
  | cons entry rest ih =>
      obtain ⟨name, edge⟩ := entry
      unfold foldAncestors at answered same
      have restAdvances := fun found => (foldAncestors_looks looks rest found).advances
      obtain ⟨ancestor, named, visitRest⟩ := ok_of_bind answered
      obtain ⟨sameNamed, afterNamed⟩ := index_of_bind (classNamed_looks name).advances
        (fun ancestor => .bind (looks found ancestor edge).advances restAdvances) same
      obtain ⟨middle, first, last⟩ := ok_of_bind visitRest
      obtain ⟨sameVisit, afterVisit⟩ := index_of_bind (looks found ancestor edge).advances
        restAdvances (afterNamed _ named)
      have indexNamed := sameNamed.trans sameIndex
      refine ih (sameVisit.trans indexNamed) ?_ last (afterVisit _ first)
      have ancestorKnown := known_of_classNamed named sameNamed
      rw [sameIndex] at ancestorKnown
      exact visited found ancestor edge _ middle indexNamed (known _ _ ancestorKnown) before
        first sameVisit

theorem collectMembers_all (index : EntityIndex)
    (known : ∀ name info, index.class? name = some info → Grants kind P info) {room : Nat}
    {inherited : Bool} {found result : OrderedMap NameKey α} {info : ClassInfo} {r : Reflector}
    (sameIndex : r.index = index) (own : Grants kind P info)
    (before : ∀ member ∈ found.values, P member)
    (answered : (collectMembers kind room inherited found info).result r = .ok result)
    (same : ((collectMembers kind room inherited found info).next r).index = r.index) :
    ∀ member ∈ result.values, P member := by
  induction room generalizing inherited found info r result with
  | zero => exact absurd answered not_ok_tooDeep
  | succ room ih =>
      unfold collectMembers at answered same
      have looks := fun found ancestor (edge : AncestorEdge) =>
        collectMembers_looks kind room (inherited || edge != .trait) found ancestor
      obtain ⟨within, sameWithin, answered, same⟩ :=
        aboveClass_ok (foldAncestors_looks looks _ _) answered same
      refine foldAncestors_all looks index ?_ known _ (sameWithin.trans sameIndex) ?_ answered same
      · exact fun _ _ _ _ _ sameIndex own before answered same =>
          ih sameIndex own before answered same
      · exact OrderedMap.mem_values_foldl_insertNew before fun entry member =>
          own entry (List.mem_filter.mp member).1

end Hierarchy

namespace Reflector

variable {r : Reflector}

theorem grants_of_holdsClass {info : ClassInfo} (held : r.HoldsClass info) :
    Hierarchy.Grants .constant r.Holds info := by
  intro entry member
  have fits := coherent_of_holdsClass held
  exact r.holds_of_member held (fits.keyed entry member)

theorem holds_of_members {info : ClassInfo} (held : r.HoldsClass info)
    {constants : List ConstantInfo}
    (answered : (Query.members .constant info).result r = .ok constants)
    (same : ((Query.members .constant info).next r).index = r.index) :
    ∀ constant ∈ constants, r.Holds constant := by
  unfold Query.members at answered same
  obtain ⟨room, roomGiven, rest⟩ := Query.ok_of_bind answered
  cases roomGiven
  obtain ⟨_, after⟩ := Query.index_of_bind Hierarchy.room_looks.advances
    (fun room => .bind (Hierarchy.collectMembers_looks .constant room false {} info).advances
      fun _ => .pure _) same
  obtain ⟨found, collected, last⟩ := Query.ok_of_bind rest
  cases last
  obtain ⟨sameCollected, _⟩ := Query.index_of_bind
    (Hierarchy.collectMembers_looks .constant _ false {} info).advances
    (fun found => .pure _) (after _ rfl)
  refine Hierarchy.collectMembers_all r.index ?_ rfl (r.grants_of_holdsClass held)
    (fun _ member => absurd member List.not_mem_nil) collected sameCollected
  exact fun name other known =>
    r.grants_of_holdsClass (r.holdsClass_of_known known)

theorem holds_of_member? {info : ClassInfo} (held : r.HoldsClass info) {name : String}
    {constant : ConstantInfo}
    (answered : (Query.member? .constant info name).result r = .ok (some constant))
    (same : ((Query.member? .constant info name).next r).index = r.index) :
    r.Holds constant := by
  rcases (Query.member?_finds answered same).declared with own | ⟨_, other, known, own⟩
  · exact r.holds_of_member held own
  · exact r.holds_of_member (r.holdsClass_of_known known) own

theorem holds_of_blockConstant {place : PlacedBlock} {entry : ConstantEntry}
    {constant : ConstantInfo}
    (answered : (Query.blockConstant place entry).result r = .ok constant) :
    ((Query.blockConstant place entry).next r).Holds constant := by
  have hidden : ∀ (s : Reflector) (other : ConstantInfo),
      (do return .declaredAt (← Query.hide (.constant place entry)) place entry :
        Query ConstantInfo).result s = .ok other →
      ((do return .declaredAt (← Query.hide (.constant place entry)) place entry :
        Query ConstantInfo).next s).Holds other := by
    intro s other hidden
    cases hidden
    change constantAt? { s with hidden := s.hidden ++ [.constant place entry] }
      (.global (.hidden s.hidden.length)) = _
    simp only [constantAt?, List.getElem?_concat_length]
  have note := (Query.constant?_notes entry.name).next r
  unfold Query.blockConstant at answered ⊢
  rw [Query.result_bind_ok (Query.result_constant? entry.name r)] at answered
  rw [Query.next_bind_ok (Query.result_constant? entry.name r)]
  cases known : r.index.constant? entry.name with
  | none =>
      rw [known] at answered
      exact hidden _ constant answered
  | some info =>
      rw [known] at answered
      dsimp only at answered ⊢
      split at answered
      · rename_i sameBlock
        rw [if_pos sameBlock]
        cases answered
        rw [← note.index] at known
        exact Reflector.holds_of_global known
      · rename_i otherBlock
        rw [if_neg otherBlock]
        exact hidden _ constant answered

end Reflector

end StaticReflection
