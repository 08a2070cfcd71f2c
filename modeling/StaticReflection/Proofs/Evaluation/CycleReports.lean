import Mathlib.Data.List.Nodup
import StaticReflection.Proofs.Evaluation.ConstantCycles

namespace StaticReflection

/-! How a cycle of constants is reported. Constants under evaluation are told apart by what
declares them, but a report starts at the first of them that has the name of the one that came
again. That one may be another declaration of the name, from which the cycle is only
reached. -/

open Evaluation Setting

/-- The tables have the constant, or its class, under a name. -/
inductive EntityIndex.Lists (index : EntityIndex) (constant : ConstantInfo) : Prop
  | global {key : NameKey} : index.info? .constant key = some constant → Lists index constant
  | member {name : String} {info : ClassInfo} {key : NameKey} :
      index.class? name = some info → info.members.constants.find? key = some constant →
      Lists index constant

theorem EntityIndex.Finds.lists {index : EntityIndex} {name key : String} {info : ClassInfo}
    {constant : ConstantInfo} (known : index.class? name = some info)
    (found : index.Finds .constant (.exact key) false info (some constant)) :
    index.Lists constant := by
  rcases found.declared with own | ⟨_, other, knownOther, own⟩
  · exact .member known own
  · exact .member knownOther own

section Listed

variable {index : EntityIndex} {platform : Platform} {constant other : ConstantInfo}

theorem Setting.Site.lists {scope : Scope} {node : NodeId}
    (site : (unbounded index platform).Site scope node constant) : index.Lists constant := by
  cases site with
  | name _ found =>
      obtain ⟨name, _, known⟩ := List.exists_of_findSome?_eq_some found
      exact .global known
  | member _ _ _ known finds => exact finds.lists known
  | caseValue _ _ _ known declared _ => exact .member known declared
  | call _ _ _ _ names =>
      cases names with
      | global _ known => exact .global known
      | member _ _ known finds => exact finds.lists known

theorem Setting.Refers.lists (refers : (unbounded index platform).Refers constant other) :
    index.Lists other := by
  obtain ⟨_, _, _, _, site⟩ := refers.mentions
  exact site.lists

end Listed

/-- A report of a constant that came again: the constants that were under evaluation from the
first one with its name on, and it. -/
structure Setting.Reports (setting : Setting) (r : Reflector) (lead : List ConstantInfo)
    (constant : ConstantInfo) (loop : List ConstantInfo) (cycle : List String) : Prop where
  names : cycle = (lead ++ constant :: loop ++ [constant]).map (·.identity)
  held : ∀ entry ∈ lead ++ constant :: loop, r.Holds entry
  distinct : ((lead ++ constant :: loop).map (·.id)).Nodup
  linked : (lead ++ constant :: loop ++ [constant]).IsChain setting.Refers
  namesake : ∀ first ∈ lead.head?, first.identity = constant.identity

theorem Setting.Circular.reports {first second : Setting} (wider : first.Within second)
    {r : Reflector} {cycle : List String} (circular : first.Circular r cycle) :
    ∃ lead constant loop, second.Reports r lead constant loop cycle := by
  obtain ⟨chain, constant, held, distinct, linked, member, head, rfl⟩ := circular
  obtain ⟨lead, loop, rfl⟩ := List.append_of_mem member
  refine ⟨lead, constant, loop, rfl, held, distinct,
    linked.imp fun _ _ refers => refers.mono wider, fun leader leads => ?_⟩
  cases lead with
  | nil => cases leads
  | cons earliest rest =>
      cases leads
      exact Option.some.inj head

namespace Setting.Reports

variable {setting : Setting} {r : Reflector} {lead : List ConstantInfo}
  {constant : ConstantInfo} {loop : List ConstantInfo} {cycle : List String}
  (reports : setting.Reports r lead constant loop cycle)

include reports

theorem dropLast : cycle.dropLast = (lead ++ constant :: loop).map (·.identity) := by
  rw [reports.names, List.map_append, List.map_singleton, List.dropLast_concat]

theorem simple_iff : cycle.dropLast.Nodup ↔
    ∀ a ∈ lead ++ constant :: loop, ∀ b ∈ lead ++ constant :: loop,
      a.identity = b.identity → a = b := by
  rw [reports.dropLast]
  constructor
  · exact fun simple a inA b inB same => List.inj_on_of_nodup_map simple inA inB same
  · exact fun apart => (List.Nodup.of_map _ reports.distinct).map_on apart

theorem lead_eq_nil (simple : cycle.dropLast.Nodup) : lead = [] := by
  cases lead with
  | nil => rfl
  | cons first rest =>
      have same : first = constant := reports.simple_iff.mp simple first (by simp) constant
        (by simp) (reports.namesake first rfl)
      have distinct := reports.distinct
      rw [same, List.cons_append, List.map_cons, List.nodup_cons] at distinct
      exact absurd (List.mem_map_of_mem (by simp)) distinct.1

end Setting.Reports

theorem Setting.exists_refers {setting : Setting} {chain : List ConstantInfo}
    (linked : chain.IsChain setting.Refers) :
    ∀ entry ∈ chain.tail, ∃ earlier, setting.Refers earlier entry := by
  induction linked with
  | nil | singleton => exact fun _ member => absurd member List.not_mem_nil
  | cons_cons refers _ ih =>
      intro entry member
      rcases List.mem_cons.mp member with rfl | later
      · exact ⟨_, refers⟩
      · exact ih entry later

/-- Over a fixed set of files, a reported cycle runs over different constants, of which each
refers to the next one, and look-ups find all but perhaps the first one. Without its last
entry it is free of repetitions exactly if no two of these constants have the same identity,
and then it begins at the constant that came again. Otherwise it may begin with a namesake of
that one. -/
theorem cycles_simple_iff {start : Reflector} (fresh : start.Fresh) {requests : List Request}
    (takes : start.Takes requests) :
    let r := start.afterAll requests
    ∀ request : Request, request.Valid r → (r.after request).index = start.index →
      ∀ cycle, request.query.result r = .error (.circularConstant cycle) →
        ∃ lead constant loop,
          start.rules.Reports (r.after request) lead constant loop cycle ∧
          (∀ entry ∈ (lead ++ constant :: loop).tail, start.index.Lists entry) ∧
          (cycle.dropLast.Nodup ↔
            ∀ a ∈ lead ++ constant :: loop, ∀ b ∈ lead ++ constant :: loop,
              a.identity = b.identity → a = b) ∧
          (cycle.dropLast.Nodup → lead = []) := by
  intro r request valid same cycle failed
  have sameBefore := (start.step_afterAll requests).index.squeeze (request.step r).index same
  have fair : request.query.Fair start.index start.options r :=
    request.query_fair sameBefore valid
  obtain ⟨_, circular⟩ :=
    fair (fresh.sound_afterAll takes sameBefore) (same.trans sameBefore.symm)
  obtain ⟨lead, constant, loop, reports⟩ := (circular cycle failed).reports bounded_within
  refine ⟨lead, constant, loop, reports, fun entry member => ?_, reports.simple_iff,
    reports.lead_eq_nil⟩
  have notEmpty : lead ++ constant :: loop ≠ [] := by simp
  have inTail : entry ∈ (lead ++ constant :: loop ++ [constant]).tail := by
    rw [List.tail_append_of_ne_nil notEmpty]
    exact List.mem_append_left _ member
  obtain ⟨_, refers⟩ := exists_refers reports.linked entry inTail
  exact refers.lists

/-- A reflector that knows some files and has no locator to ask. -/
def Reflector.ofFiles (files : List SourceFile) : Reflector where
  options := {}
  index := .ofFiles files

theorem Reflector.fresh_ofFiles (files : List SourceFile) : (ofFiles files).Fresh :=
  ⟨⟨files, rfl⟩, fun _ => rfl, rfl⟩

theorem Reflector.index_after_ofFiles (files : List SourceFile) {request : Request}
    (noLoad : request.isLoad = false) :
    ((ofFiles files).after request).index = (ofFiles files).index :=
  ((Request.query_advances noLoad).next (ofFiles files)).stays rfl

/-- Two constants that need each other, and a second declaration of the first one's name that
takes its value from it. -/
def Sample.namesakes : SourceFile :=
  .parse "/app/a.php" ("<?php namespace A \x7b const X = Y; const Y = X; \x7d " ++
    "namespace B \x7b define('A\\X', \\A\\X); \x7d").toList

open Sample in
/-- The second declaration leads the report of the cycle that the first one is on. -/
theorem cycle_led_by_namesake :
    let start := Reflector.ofFiles [namesakes]
    let cycle := ["A\\X", "A\\X", "A\\Y", "A\\X"]
    ∃ place ∈ namesakes.placedBlocks,
      let request := Request.constantIn place "A\\X"
      start.Fresh ∧ start.Takes [] ∧ request.Valid start ∧
      (start.after request).index = start.index ∧
      request.query.result start = .error (.circularConstant cycle) ∧
      ¬ cycle.dropLast.Nodup ∧
      ∃ lead constant loop, start.rules.Reports (start.after request) lead constant loop cycle := by
  intro start cycle
  have reported : namesakes.placedBlocks.map (fun place =>
      (Request.constantIn place "A\\X").query.result start) =
        [.error (.circularConstant ["A\\X", "A\\Y", "A\\X"]),
          .error (.circularConstant cycle)] := by
    decide +kernel
  have given : Except.error (.circularConstant cycle) ∈
      namesakes.placedBlocks.map fun place =>
        (Request.constantIn place "A\\X").query.result start :=
    reported ▸ List.mem_cons_of_mem _ List.mem_cons_self
  obtain ⟨place, among, failed⟩ := List.mem_map.mp given
  have fresh : start.Fresh := Reflector.fresh_ofFiles _
  have takes : start.Takes [] := trivial
  have same : (start.after (.constantIn place "A\\X")).index = start.index :=
    Reflector.index_after_ofFiles _ rfl
  obtain ⟨lead, constant, loop, reports, _⟩ :=
    cycles_simple_iff fresh takes (.constantIn place "A\\X") trivial same cycle failed
  exact ⟨place, among, fresh, takes, trivial, same, failed, by decide, lead, constant, loop,
    reports⟩

end StaticReflection
