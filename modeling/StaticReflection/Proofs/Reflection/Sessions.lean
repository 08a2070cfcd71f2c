import StaticReflection.Proofs.Evaluation.Resolution

namespace StaticReflection

/-! Sessions: a reflector that is asked one question after the other, in any order. -/

/-- A question that a reflector takes. Classes, functions, parameters, properties,
constants and blocks are those of earlier answers. -/
inductive Request where
  | loadFile (path : String)
  | loadText (path : String) (written : Text)
  | loadNamespace (path name : String)
  | classNamed (name : String)
  | functionNamed (name : String)
  | constantNamed (name : String)
  | constantValue (constant : ConstantInfo)
  | backingValue (constant : ConstantInfo)
  | parameterDefault (parameter : ParameterInfo)
  | defaultConstantName (parameter : ParameterInfo)
  | propertyDefault (property : PropertyInfo)
  | staticValues (function : FunctionInfo)
  | methodOf (info : ClassInfo) (name : String)
  | propertyOf (info : ClassInfo) (name : String)
  | constantOf (info : ClassInfo) (name : String)
  | methods (info : ClassInfo)
  | properties (info : ClassInfo)
  | constants (info : ClassInfo)
  | propertyDefaults (info : ClassInfo)
  | constantValues (info : ClassInfo) (wanted : ConstantInfo → Bool)
  | constantValueOf (info : ClassInfo) (name : String)
  | ancestors (info : ClassInfo)
  | interfaceNames (info : ClassInfo)
  | interfaces (info : ClassInfo)
  | parent (info : ClassInfo)
  | isSubclass (info : ClassInfo) (name : String)
  | implementsInterface (info : ClassInfo) (name : String)
  | classModifiers (info : ClassInfo)
  | isAbstract (info : ClassInfo)
  | isInstantiable (info : ClassInfo)
  | isCloneable (info : ClassInfo)
  | blockClasses (place : PlacedBlock)
  | blockFunctions (place : PlacedBlock)
  | blockConstants (place : PlacedBlock)
  | blockValues (place : PlacedBlock)
  | classIn (place : PlacedBlock) (name : String)
  | constantIn (place : PlacedBlock) (name : String)
  | fileClasses (file : SourceFile)
  | fileFunctions (file : SourceFile)
  | fileValues (file : SourceFile)

/-- The query of a request. Only what it leaves behind counts here. -/
def Request.query : Request → Query Unit
  | .loadFile path => discard (Query.file path)
  | .loadText path written => discard (Query.text path written)
  | .loadNamespace path name => discard (Query.namespaceOf path name)
  | .classNamed name => discard (Query.classNamed name)
  | .functionNamed name => discard (Query.functionNamed name)
  | .constantNamed name => discard (Query.constantNamed name)
  | .constantValue constant => discard (Query.constantValue constant)
  | .backingValue constant => discard (Query.backingValue constant)
  | .parameterDefault parameter => discard (Query.parameterDefault parameter)
  | .defaultConstantName parameter => discard (Query.defaultConstantName? parameter)
  | .propertyDefault property => discard (Query.propertyDefault property)
  | .staticValues function => discard (Query.staticValues function)
  | .methodOf info name => discard (Query.member? .method info name)
  | .propertyOf info name => discard (Query.member? .property info name)
  | .constantOf info name => discard (Query.member? .constant info name)
  | .methods info => discard (Query.members .method info)
  | .properties info => discard (Query.members .property info)
  | .constants info => discard (Query.members .constant info)
  | .propertyDefaults info => discard (Query.propertyDefaults info)
  | .constantValues info wanted => do
      discard (Query.constantValues ((← Query.members .constant info).filter wanted))
  | .constantValueOf info name => discard (Query.classConstant? info name)
  | .ancestors info => discard (Query.ancestors info)
  | .interfaceNames info => discard (Query.interfaceNames info)
  | .interfaces info => discard (Query.interfaces info)
  | .parent info => discard (Query.parent? info)
  | .isSubclass info name => discard (Query.isSubclass info name)
  | .implementsInterface info name => discard (Query.implementsInterface info name)
  | .classModifiers info => discard (Query.classModifiers info)
  | .isAbstract info => discard (Query.isAbstract info)
  | .isInstantiable info => discard (Query.isInstantiable info)
  | .isCloneable info => discard (Query.isCloneable info)
  | .blockClasses place => discard (Query.blockClasses place)
  | .blockFunctions place => discard (Query.blockFunctions place)
  | .blockConstants place => discard (Query.blockConstants place)
  | .blockValues place => discard (Query.addBlockValues {} place)
  | .classIn place name => discard (Query.classIn? place name)
  | .constantIn place name => discard (Query.constantIn? place name)
  | .fileClasses file => discard (Query.fileClasses file)
  | .fileFunctions file => discard (Query.fileFunctions file)
  | .fileValues file => discard (Query.fileValues file)

/-- The reflector after a request, answered or not. -/
def Reflector.after (r : Reflector) (request : Request) : Reflector :=
  request.query.next r

def Reflector.afterAll (r : Reflector) (requests : List Request) : Reflector :=
  requests.foldl Reflector.after r

namespace Query

variable {α : Type}

theorem discard_looks {query : Query α} (looks : query.Looks) : (discard query).Looks :=
  looks.map _

theorem discard_advances {query : Query α} (advances : query.Advances) :
    (discard query).Advances :=
  advances.map _

theorem functionNamed_looks (name : String) : (functionNamed name).Looks :=
  (functionNamed_notes name).looks

theorem constantNamed_looks (name : String) : (constantNamed name).Looks :=
  (constantNamed_notes name).looks

theorem hide_looks (declaration : HiddenDeclaration) : (hide declaration).Looks := by
  refine .bind .get fun _ => .bind (.modify fun r => ⟨?_, fun _ => rfl⟩) fun _ => .pure _
  exact ⟨rfl, rfl, rfl, rfl, List.prefix_append _ _, .inl rfl, r.sources.within_refl,
    r.index.within_refl, r.descriptors.within_refl⟩

theorem blockConstant_looks (place : PlacedBlock) (entry : ConstantEntry) :
    (blockConstant place entry).Looks := by
  refine .bind (constant?_notes _).looks fun found => ?_
  cases found with
  | some info =>
      dsimp only
      split
      · exact .pure info
      · exact .bind (hide_looks _) fun _ => .pure _
  | none => exact .bind (hide_looks _) fun _ => .pure _

theorem blockClass?_looks (place : PlacedBlock) (entry : ClassEntry) :
    (blockClass? place entry).Looks := by
  refine .bind (Moves.outcome (classNamed_looks entry.name)) fun found => ?_
  cases found with
  | ok info =>
      dsimp only
      split
      · exact .pure _
      · exact .bind (hide_looks _) fun _ => .pure _
  | error _ => exact .bind (hide_looks _) fun _ => .pure _

theorem blockFunction?_looks (place : PlacedBlock) (entry : FunctionEntry) :
    (blockFunction? place entry).Looks := by
  refine .bind (function?_notes _).looks fun found => ?_
  cases found with
  | some info =>
      dsimp only
      split <;> exact .pure _
  | none => exact .pure _

theorem defaultConstantName?_looks (parameter : ParameterInfo) :
    (defaultConstantName? parameter).Looks := by
  unfold defaultConstantName?
  dsimp only
  split
  · split
    · exact .pure _
    · exact .bind (.findM? (fun _ => .bind (constant?_notes _).looks fun _ => .pure _) _)
        fun _ => .pure _
  · split
    · exact .pure _
    · split <;> exact .pure _
  · exact .pure _

theorem blockClasses_looks (place : PlacedBlock) : (blockClasses place).Looks :=
  .bind (.mapM (blockClass?_looks place) _) fun _ => .pure _

theorem blockFunctions_looks (place : PlacedBlock) : (blockFunctions place).Looks :=
  .bind (.mapM (blockFunction?_looks place) _) fun _ => .pure _

theorem blockConstants_looks (place : PlacedBlock) : (blockConstants place).Looks :=
  .mapM (blockConstant_looks place) _

theorem classIn?_looks (place : PlacedBlock) (name : String) :
    (classIn? place name).Looks := by
  unfold classIn?
  dsimp only
  split
  · exact blockClass?_looks place _
  · exact .pure _

theorem fileClasses_looks (file : SourceFile) : (fileClasses file).Looks :=
  .bind (.mapM blockClasses_looks _) fun _ => .pure _

theorem fileFunctions_looks (file : SourceFile) : (fileFunctions file).Looks :=
  .bind (.mapM blockFunctions_looks _) fun _ => .pure _

theorem evaluate_advances (scope : Scope) (node : NodeId) :
    (evaluate scope node).Advances :=
  perform_advances scope _

theorem constantValue_advances (constant : ConstantInfo) :
    (constantValue constant).Advances :=
  perform_advances constant.scope _

theorem parameterDefault_advances (parameter : ParameterInfo) :
    (parameterDefault parameter).Advances := by
  unfold parameterDefault
  split
  · exact evaluate_advances _ _
  · exact .throw trivial

theorem propertyDefault_advances (property : PropertyInfo) :
    (propertyDefault property).Advances := by
  unfold propertyDefault
  split
  · exact evaluate_advances _ _
  · split
    · exact .pure _
    · exact .throw trivial

theorem staticValue_advances (scope : Scope) (static : StaticVariable) :
    (staticValue scope static).Advances := by
  unfold staticValue
  split
  · exact evaluate_advances _ _
  · exact .pure _

theorem addStatic_advances (scope : Scope) (values : OrderedMap String Value)
    (static : StaticVariable) : (addStatic scope values static).Advances :=
  .bind (staticValue_advances scope static) fun _ => .pure _

theorem staticValues_advances (function : FunctionInfo) :
    (staticValues function).Advances :=
  .foldlM (addStatic_advances function.scope) _ _

theorem addDefault_advances (values : OrderedMap String Value) (property : PropertyInfo) :
    (addDefault values property).Advances :=
  .bind (propertyDefault_advances property) fun _ => .pure _

theorem propertyDefaults_advances (info : ClassInfo) :
    (propertyDefaults info).Advances :=
  .bind (members_looks .property info).advances fun _ => .foldlM addDefault_advances _ _

theorem addValue_advances (values : OrderedMap String Value) (constant : ConstantInfo) :
    (addValue values constant).Advances :=
  .bind (constantValue_advances constant) fun _ => .pure _

theorem constantValues_advances (constants : List ConstantInfo) :
    (constantValues constants).Advances :=
  .foldlM addValue_advances _ _

theorem classConstant?_advances (info : ClassInfo) (name : String) :
    (classConstant? info name).Advances := by
  refine .bind (member?_looks .constant info name).advances fun found => ?_
  cases found with
  | some constant => exact .bind (constantValue_advances constant) fun _ => .pure _
  | none => exact .pure _

theorem addValue?_advances (values : OrderedMap String Value) (constant : ConstantInfo) :
    (addValue? values constant).Advances := by
  refine .bind (constantValue_advances constant).outcome fun result => ?_
  cases result <;> exact .pure _

theorem addBlockValues_advances (values : OrderedMap String Value) (place : PlacedBlock) :
    (addBlockValues values place).Advances :=
  .bind (blockConstants_looks place).advances fun _ => .foldlM addValue?_advances _ _

theorem constantIn?_advances (place : PlacedBlock) (name : String) :
    (constantIn? place name).Advances := by
  unfold constantIn?
  dsimp only
  split
  · exact .bind (blockConstant_looks place _).advances fun constant =>
      .bind (constantValue_advances constant) fun _ => .pure _
  · exact .pure _

theorem fileValues_advances (file : SourceFile) : (fileValues file).Advances :=
  .foldlM addBlockValues_advances _ _

end Query

def Request.isLoad : Request → Bool
  | .loadFile _ | .loadText _ _ | .loadNamespace _ _ => true
  | _ => false

/-- Whether a request asks neither for a file nor for a value. -/
def Request.isLookUp : Request → Bool
  | .loadFile _ | .loadText _ _ | .loadNamespace _ _
  | .constantValue _ | .backingValue _ | .parameterDefault _ | .propertyDefault _
  | .staticValues _ | .propertyDefaults _ | .constantValues _ _ | .constantValueOf _ _
  | .blockValues _ | .constantIn _ _ | .fileValues _ => false
  | _ => true

open Query in
theorem Request.query_loads {request : Request} (load : request.isLoad = true) :
    request.query.Loads := by
  cases request with
  | loadFile path => exact (file_loads path).map _
  | loadText path written => exact (text_loads path written).map _
  | loadNamespace path name => exact (namespaceOf_loads path name).map _
  | _ => cases load

open Query in
theorem Request.query_looks {request : Request} (lookUp : request.isLookUp = true) :
    request.query.Looks := by
  cases request with
  | classNamed name => exact discard_looks (classNamed_looks name)
  | functionNamed name => exact discard_looks (functionNamed_looks name)
  | constantNamed name => exact discard_looks (constantNamed_looks name)
  | defaultConstantName parameter => exact discard_looks (defaultConstantName?_looks parameter)
  | methodOf info name => exact discard_looks (member?_looks .method info name)
  | propertyOf info name => exact discard_looks (member?_looks .property info name)
  | constantOf info name => exact discard_looks (member?_looks .constant info name)
  | methods info => exact discard_looks (members_looks .method info)
  | properties info => exact discard_looks (members_looks .property info)
  | constants info => exact discard_looks (members_looks .constant info)
  | ancestors info => exact discard_looks (ancestors_looks info)
  | interfaceNames info => exact discard_looks (interfaceNames_looks info)
  | interfaces info => exact discard_looks (interfaces_looks info)
  | parent info => exact discard_looks (parent?_looks info)
  | isSubclass info name => exact discard_looks (isSubclass_looks info name)
  | implementsInterface info name => exact discard_looks (implementsInterface_looks info name)
  | classModifiers info => exact discard_looks (classModifiers_looks info)
  | isAbstract info => exact discard_looks (isAbstract_looks info)
  | isInstantiable info => exact discard_looks (isOpenClass_looks info _)
  | isCloneable info => exact discard_looks (isOpenClass_looks info _)
  | blockClasses place => exact discard_looks (blockClasses_looks place)
  | blockFunctions place => exact discard_looks (blockFunctions_looks place)
  | blockConstants place => exact discard_looks (blockConstants_looks place)
  | classIn place name => exact discard_looks (classIn?_looks place name)
  | fileClasses file => exact discard_looks (fileClasses_looks file)
  | fileFunctions file => exact discard_looks (fileFunctions_looks file)
  | _ => cases lookUp

open Query in
theorem Request.query_advances {request : Request} (noLoad : request.isLoad = false) :
    request.query.Advances := by
  cases request with
  | loadFile | loadText | loadNamespace => cases noLoad
  | constantValue constant => exact discard_advances (constantValue_advances constant)
  | backingValue constant => exact discard_advances (perform_advances constant.scope _)
  | parameterDefault parameter => exact discard_advances (parameterDefault_advances parameter)
  | propertyDefault property => exact discard_advances (propertyDefault_advances property)
  | staticValues function => exact discard_advances (staticValues_advances function)
  | propertyDefaults info => exact discard_advances (propertyDefaults_advances info)
  | constantValues info wanted =>
      exact .bind (members_looks .constant info).advances fun _ =>
        discard_advances (constantValues_advances _)
  | constantValueOf info name => exact discard_advances (classConstant?_advances info name)
  | blockValues place => exact discard_advances (addBlockValues_advances {} place)
  | constantIn place name => exact discard_advances (constantIn?_advances place name)
  | fileValues file => exact discard_advances (fileValues_advances file)
  | _ => exact (query_looks rfl).advances

theorem Request.step (request : Request) (r : Reflector) : Step r (r.after request) := by
  cases load : request.isLoad with
  | true => exact ((query_loads load).next r).step
  | false => exact ((query_advances load).next r).toStep

theorem Reflector.step_afterAll (r : Reflector) (requests : List Request) :
    Step r (r.afterAll requests) := by
  induction requests generalizing r with
  | nil => exact refl r
  | cons request rest ih =>
      exact IsTrans.trans _ _ _ (request.step r) (ih (r.after request))

/-- With no locator to ask, only loads make new declarations known. -/
theorem Reflector.index_afterAll {r : Reflector} (nowhere : r.locator = .nowhere)
    {requests : List Request} (noLoad : ∀ request ∈ requests, request.isLoad = false) :
    (r.afterAll requests).index = r.index := by
  induction requests generalizing r with
  | nil => rfl
  | cons request rest ih =>
      have advance := (Request.query_advances (noLoad request (by simp))).next r
      have later := ih (advance.locator.trans nowhere)
        fun other member => noLoad other (List.mem_cons_of_mem _ member)
      exact later.trans (advance.stays nowhere)

end StaticReflection
