import Stg.MovedCompare
import Stg.Over
import Stg.AbiXml.Reader

set_option autoImplicit false

/- The reader of ABI XML does the same whatever graph it adds to. -/
namespace Stg.AbiXml

open Relational (Lifting)
open Relabel (relabel)

variable {base : Graph}

/-- The state of the reader that adds to the base. -/
def Corpus.beneath (base : Graph) (s : Corpus) : Corpus where
  graph := base.beneath s.graph
  variadic := s.variadic.map base.beyond
  typeIds := relabel (.refl _) base.beyond s.typeIds
  symbolInfoMap := s.symbolInfoMap
  aliasToMain := s.aliasToMain
  symbolIdAndFullName := relabel (.refl _) (Prod.map base.beyond id) s.symbolIdAndFullName

theorem Corpus.under : Beneath base (Corpus.beneath base) := ⟨fun _ => rfl, fun _ _ => rfl⟩

/-- Readers of the same document, the second of which adds to the base. -/
abbrev reading (base : Graph) : Lifting Error Reading Reading :=
  Lifting.stateful Error fun s s' => s' = s.beneath base

abbrev Renamed (base : Graph) (node node' : Node) : Prop := node' = node.rename base.beyond

/-- The computations do the same. -/
abbrev Alike (base : Graph) (call call' : Reading Unit) : Prop :=
  (reading base).rel (fun _ _ => True) call call'

theorem same_ofExcept {α : Type} (result : Except Error α) :
    (reading base).rel (fun value value' => value' = value) (ofExcept result) (ofExcept result) :=
  ofExcept_same rfl

theorem alike_check (ok : Bool) (message : String) :
    Alike base (check ok message) (check ok message) := by
  unfold check
  split
  · exact (reading base).pure trivial
  · exact (reading base).throw _

/- Typing. -/

theorem set_over (id : Id) (node : Node) :
    Alike base (set id node) (set (base.beyond id) (node.rename base.beyond)) := by
  refine (reading base).bind Lifting.stateful_get ?_
  rintro s _ rfl
  refine (reading base).bind
    (ofExcept_along (Lifting.exactly_map.mpr (base.over_set s.graph id node))) ?_
  rintro graph _ rfl
  refine Lifting.stateful_modify ?_
  rintro s _ rfl
  rfl

/-- A name that is new gets the next id in both, and one that is known the id it has. -/
theorem getNode_over (typeId : String) :
    (reading base).rel (Beyond base) (getNode typeId) (getNode typeId) := by
  refine (reading base).bind Lifting.stateful_get ?_
  rintro s _ rfl
  have looked : (s.beneath base).typeIds.lookup typeId =
      (s.typeIds.lookup typeId).map base.beyond :=
    Relabel.lookup_relabel (.refl _) base.beyond s.typeIds typeId
  rw [looked]
  cases s.typeIds.lookup typeId with
  | some id => exact (reading base).pure rfl
  | none =>
    refine (reading base).bind Lifting.stateful_get ?_
    rintro s _ rfl
    have allocated : (s.beneath base).graph.allocate =
        (base.beyond s.graph.allocate.1, base.beneath s.graph.allocate.2) :=
          base.over_allocate s.graph
    rw [allocated]
    refine (reading base).bind (Lifting.stateful_modify ?_) fun _ _ _ => (reading base).pure rfl
    rintro s' _ rfl
    have emplaced := Relabel.relabel_emplace (.refl _) base.beyond s'.typeIds typeId
      ⟨s.graph.nodes.length⟩
    simp only [Corpus.beneath, Graph.allocate, emplaced, Function.Embedding.refl_apply]

theorem getEdge_over (element : Element) :
    (reading base).rel (Beyond base) (getEdge element) (getEdge element) :=
  Lifting.bind_same (same_ofExcept _) fun typeId => getNode_over typeId

theorem getVariadic_over : (reading base).rel (Beyond base) getVariadic getVariadic :=
  Corpus.under.getShared (fun _ => rfl) (fun _ _ => rfl) rfl

/- Function types. -/

/-- The parameters and the return type so far. -/
abbrev Signed (base : Graph) (out out' : List Parameter × Option Id) : Prop :=
  out' = (out.1.map (Parameter.beneath base), out.2.map base.beyond)

/-- Parameters and the return type are ids, which are shifted one by one. -/
theorem functionChild_over (function child : Element) (parameters : List Parameter)
    (returnType : Option Id) :
    (reading base).rel (Signed base) (functionChild function child parameters returnType)
      (functionChild function child (parameters.map (Parameter.beneath base))
        (returnType.map base.beyond)) := by
  unfold functionChild
  rw [Option.isNone_map]
  refine (reading base).bind (alike_check _ _) fun _ _ _ => ?_
  split
  · refine Lifting.bind_same (same_ofExcept _) fun isVariadic => ?_
    cases isVariadic
    · refine (reading base).bind (getEdge_over child) ?_
      rintro type _ rfl
      exact (reading base).pure (by simp [Signed, Parameter.beneath])
    · refine (reading base).bind getVariadic_over ?_
      rintro type _ rfl
      exact (reading base).pure (by simp [Signed, Parameter.beneath])
  · split
    · refine (reading base).bind (getEdge_over child) ?_
      rintro type _ rfl
      exact (reading base).pure rfl
    · exact (reading base).throw _

theorem functionChildren_over (function : Element) (children : List Element)
    (parameters : List Parameter) (returnType : Option Id) :
    (reading base).rel (Signed base) (functionChildren function children parameters returnType)
      (functionChildren function children (parameters.map (Parameter.beneath base))
        (returnType.map base.beyond)) := by
  induction children generalizing parameters returnType with
  | nil => exact (reading base).pure rfl
  | cons child rest ih =>
    refine (reading base).bind (functionChild_over function child parameters returnType) ?_
    rintro ⟨parameters, returnType⟩ _ rfl
    exact ih parameters returnType

theorem makeFunctionType_over (function : Element) :
    (reading base).rel (Renamed base) (makeFunctionType function) (makeFunctionType function) := by
  refine (reading base).bind (functionChildren_over function function.children [] none) ?_
  rintro ⟨parameters, returnType⟩ _ rfl
  cases returnType with
  | none => exact (reading base).throw _
  | some returnType => exact (reading base).pure rfl

/- ELF symbols. -/

theorem processAliases_over (elfSymbolId : String) (aliases : List String) :
    Alike base (processAliases elfSymbolId aliases) (processAliases elfSymbolId aliases) := by
  induction aliases with
  | nil => exact (reading base).pure trivial
  | cons item items ih =>
    refine (reading base).bind Lifting.stateful_get ?_
    rintro s _ rfl
    refine (reading base).bind (alike_check _ _) fun _ _ _ => ?_
    refine (reading base).bind (Lifting.stateful_modify ?_) fun _ _ _ => ih
    rintro s _ rfl
    rfl

/-- The tables of symbols hold no ids. -/
theorem processSymbol_over (symbol : Element) :
    Alike base (processSymbol symbol) (processSymbol symbol) := by
  refine Lifting.bind_same (same_ofExcept _) fun (elfSymbolId, info, aliases) => ?_
  refine (reading base).bind Lifting.stateful_get ?_
  rintro s _ rfl
  refine (reading base).bind (alike_check _ _) fun _ _ _ => ?_
  refine (reading base).bind (Lifting.stateful_modify ?_) fun _ _ _ =>
    processAliases_over elfSymbolId aliases
  rintro s _ rfl
  rfl

theorem processSymbols_over (elements : List Element) :
    Alike base (processSymbols elements) (processSymbols elements) := by
  induction elements with
  | nil => exact (reading base).pure trivial
  | cons element rest ih =>
    refine Lifting.bind_same (same_ofExcept _) fun _ => ?_
    exact (reading base).bind (processSymbol_over element) fun _ _ _ => ih

/- Declarations and types without inner definitions. -/

/-- A symbol is linked to the shift of its type, and a second type for it fails in both. -/
theorem linkSymbol_over (symbolId : Option String) (type : Id) (name : String) :
    Alike base (linkSymbol symbolId type name) (linkSymbol symbolId (base.beyond type) name) := by
  cases symbolId with
  | none => exact (reading base).pure trivial
  | some symbolId =>
    refine (reading base).bind Lifting.stateful_get ?_
    rintro s _ rfl
    have looked : (s.beneath base).symbolIdAndFullName.lookup symbolId =
        (s.symbolIdAndFullName.lookup symbolId).map (Prod.map base.beyond id) :=
      Relabel.lookup_relabel (.refl _) _ s.symbolIdAndFullName symbolId
    refine (reading base).bind (Lifting.stateful_modify ?_) fun _ _ _ => ?_
    · rintro s' _ rfl
      have emplaced := Relabel.relabel_emplace (.refl _) (Prod.map base.beyond id)
        s.symbolIdAndFullName symbolId (type, name)
      simp only [Function.Embedding.refl_apply, Prod.map_apply, id_eq] at emplaced
      simp only [Corpus.beneath, ← emplaced]
    · have same : (((((s.beneath base).symbolIdAndFullName.lookup symbolId).map (·.1)).getD
          (base.beyond type)) = base.beyond type) ↔
          ((s.symbolIdAndFullName.lookup symbolId).map (·.1)).getD type = type := by
        rw [looked]
        cases s.symbolIdAndFullName.lookup symbolId with
        | none => simp
        | some held => simp
      simp only [same]
      exact alike_check _ _

theorem processDecl_over (scopeName : String) (isVariable : Bool) (decl : Element) :
    (reading base).rel (Beyond base) (processDecl scopeName isVariable decl)
      (processDecl scopeName isVariable decl) := by
  refine Lifting.bind_same (same_ofExcept _) fun name => ?_
  cases isVariable
  · refine (reading base).bind (makeFunctionType_over decl) ?_
    rintro function _ rfl
    refine (reading base).bind (Corpus.under.add function) ?_
    rintro type _ rfl
    exact (reading base).bind (linkSymbol_over _ type _) fun _ _ _ => (reading base).pure rfl
  · refine (reading base).bind (getEdge_over decl) ?_
    rintro type _ rfl
    exact (reading base).bind (linkSymbol_over _ type _) fun _ _ _ => (reading base).pure rfl

section

variable (id : Id)

theorem processFunctionType_over (function : Element) :
    Alike base (processFunctionType id function)
      (processFunctionType (base.beyond id) function) := by
  refine (reading base).bind (makeFunctionType_over function) ?_
  rintro type _ rfl
  exact set_over id type

/-- Elements that make one node set it to one that is renamed. -/
theorem processTypedef_over (scopeName : String) (typeDefinition : Element) :
    Alike base (processTypedef scopeName id typeDefinition)
      (processTypedef scopeName (base.beyond id) typeDefinition) := by
  refine Lifting.bind_same (same_ofExcept _) fun name => ?_
  refine (reading base).bind (getEdge_over typeDefinition) ?_
  rintro type _ rfl
  exact set_over id (.typedef _)

theorem processPointer_over (isPointer : Bool) (pointer : Element) :
    Alike base (processPointer id isPointer pointer)
      (processPointer (base.beyond id) isPointer pointer) := by
  refine (reading base).bind (getEdge_over pointer) ?_
  rintro type _ rfl
  exact Lifting.bind_same (same_ofExcept _) fun kind => set_over id (.pointerReference _)

/-- A node that refers to an id refers beyond the base to the id there. -/
def Refits (base : Graph) (node : Id → Node) : Prop :=
  ∀ type, node (base.beyond type) = (node type).rename base.beyond

theorem setChain_over {node : Id → Node} {nodes : List (Id → Node)} (refits : Refits base node)
    (others : ∀ next ∈ nodes, Refits base next) (type : Id) :
    Alike base (setChain id node nodes type)
      (setChain (base.beyond id) node nodes (base.beyond type)) := by
  induction nodes generalizing node type with
  | nil =>
    rw [setChain, setChain, refits]
    exact set_over id (node type)
  | cons next nodes ih =>
    have rest := List.forall_mem_cons.mp others
    rw [setChain, setChain, refits]
    refine (reading base).bind (Corpus.under.add (node type)) ?_
    rintro type _ rfl
    exact ih rest.1 rest.2 type

theorem processQualified_over (qualified : Element) :
    Alike base (processQualified id qualified) (processQualified (base.beyond id) qualified) := by
  refine Lifting.bind_same (same_ofExcept _) fun qualifiers => ?_
  cases qualifiers with
  | nil => exact (reading base).throw _
  | cons qualifier qualifiers =>
    refine (reading base).bind (getEdge_over qualified) ?_
    rintro type _ rfl
    refine setChain_over id (fun _ => rfl) ?_ type
    exact List.forall_mem_map.mpr fun qualifier _ _ => rfl

theorem processArray_over (array : Element) :
    Alike base (processArray id array) (processArray (base.beyond id) array) := by
  refine Lifting.bind_same (same_ofExcept _) fun dimensions => ?_
  cases dimensions.reverse with
  | nil => exact (reading base).throw _
  | cons size sizes =>
    refine (reading base).bind (getEdge_over array) ?_
    rintro type _ rfl
    refine setChain_over id (fun _ => rfl) ?_ type
    exact List.forall_mem_map.mpr fun size _ _ => rfl

theorem processTypeDecl_over (scopeName : String) (typeDecl : Element) :
    Alike base (processTypeDecl scopeName id typeDecl)
      (processTypeDecl scopeName (base.beyond id) typeDecl) := by
  unfold processTypeDecl readTypeDecl
  cases getAttributeOrDie typeDecl "name" with
  | error reason => exact (reading base).throw reason
  | ok name =>
    cases readAttribute parseUInt64 typeDecl "size-in-bits" 0 with
    | error reason => exact (reading base).throw reason
    | ok bits =>
      dsimp only [bind, Except.bind]
      split
      · exact set_over id .void
      · exact set_over id (.integer _)

/-- Enumerators are text and numbers. -/
theorem processEnum_over (scopeName : String) (enumeration : Element) :
    Alike base (processEnum scopeName id enumeration)
      (processEnum scopeName (base.beyond id) enumeration) := by
  refine Lifting.bind_same (same_ofExcept _) fun (forward, name) => ?_
  cases forward
  · cases enumeration.children with
    | nil => exact (reading base).throw _
    | cons underlying rest =>
      refine Lifting.bind_same (same_ofExcept _) fun _ => ?_
      refine (reading base).bind (getEdge_over underlying) fun _ _ _ => ?_
      exact Lifting.bind_same (same_ofExcept _) fun enumerators => set_over id (.enumeration _)
  · exact set_over id (.enumeration _)

end

theorem processBaseClass_over (baseClass : Element) :
    (reading base).rel (Beyond base) (processBaseClass baseClass) (processBaseClass baseClass) := by
  refine (reading base).bind (getEdge_over baseClass) ?_
  rintro type _ rfl
  refine Lifting.bind_same (same_ofExcept _) fun offset => ?_
  exact Lifting.bind_same (same_ofExcept _) fun isVirtual => Corpus.under.add (.baseClass _)

/-- A static member makes a symbol's type, and any other a node. -/
theorem processDataMember_over (scopeName : String) (isStruct : Bool) (dataMember : Element) :
    (reading base).rel (fun member member' => member' = member.map base.beyond)
      (processDataMember scopeName isStruct dataMember)
      (processDataMember scopeName isStruct dataMember) := by
  refine Lifting.bind_same (same_ofExcept _) fun decl => ?_
  refine Lifting.bind_same (same_ofExcept _) fun _ => ?_
  refine Lifting.bind_same (same_ofExcept _) fun isStatic => ?_
  cases isStatic
  · refine Lifting.bind_same (same_ofExcept _) fun offset => ?_
    refine Lifting.bind_same (same_ofExcept _) fun name => ?_
    refine (reading base).bind (getEdge_over decl) ?_
    rintro type _ rfl
    refine (reading base).bind (Corpus.under.add (.member _)) ?_
    rintro id _ rfl
    exact (reading base).pure rfl
  · exact (reading base).bind (processDecl_over scopeName true decl) fun _ _ _ =>
      (reading base).pure rfl

theorem processMemberFunction_over (scopeName : String) (method : Element) :
    (reading base).rel (Beyond base) (processMemberFunction scopeName method)
      (processMemberFunction scopeName method) := by
  refine Lifting.bind_same (same_ofExcept _) fun decl => ?_
  refine Lifting.bind_same (same_ofExcept _) fun _ => ?_
  refine Lifting.bind_same (same_ofExcept _) fun mangledName => ?_
  refine Lifting.bind_same (same_ofExcept _) fun name => ?_
  refine (reading base).bind (processDecl_over scopeName false decl) ?_
  rintro type _ rfl
  exact Lifting.bind_same (same_ofExcept _) fun (kind, vtableOffset) => Corpus.under.add (.method _)

/- Structs and unions. -/

def Members.beneath (base : Graph) (made : Members) : Members where
  baseClasses := made.baseClasses.map base.beyond
  methods := made.methods.map base.beyond
  members := made.members.map base.beyond

/-- The members of a scope are made in the same way. -/
abbrev MakesAlike (base : Graph)
    (processMembers : String → Bool → StructUnion.Kind → Members → Reading Members) : Prop :=
  ∀ scopeName isStruct kind made, (reading base).rel (fun made made' => made' = made.beneath base)
    (processMembers scopeName isStruct kind made)
    (processMembers scopeName isStruct kind (made.beneath base))

section

variable {processMembers : String → Bool → StructUnion.Kind → Members → Reading Members}
  (makes : MakesAlike base processMembers)

include makes

theorem processStructUnion_over (scopeName : String) (id : Id) (isStruct : Bool)
    (structUnion : Element) :
    Alike base (processStructUnion scopeName processMembers id isStruct structUnion)
      (processStructUnion scopeName processMembers (base.beyond id) isStruct structUnion) := by
  refine Lifting.bind_same (same_ofExcept _) fun attributes => ?_
  split
  · exact set_over id (.structUnion _)
  · refine Lifting.bind_same (same_ofExcept _) fun bits => ?_
    refine (reading base).bind (makes _ isStruct attributes.kind ⟨[], [], []⟩) ?_
    rintro made _ rfl
    exact set_over id (.structUnion _)

theorem processUserDefinedType_over (scopeName : String) (id : Id) (decl : Element) :
    (reading base).rel (fun known known' => known' = known)
      (processUserDefinedType scopeName processMembers id decl)
      (processUserDefinedType scopeName processMembers (base.beyond id) decl) := by
  have then_ : ∀ {call call' : Reading Unit}, Alike base call call' →
      (reading base).rel (fun known known' => known' = known) (do call; return true)
        (do call'; return true) :=
    fun first => (reading base).bind first fun _ _ _ => (reading base).pure rfl
  unfold processUserDefinedType
  split
  · exact then_ (processTypedef_over id scopeName decl)
  split
  · exact then_ (processStructUnion_over makes scopeName id true decl)
  split
  · exact then_ (processStructUnion_over makes scopeName id false decl)
  split
  · exact then_ (processEnum_over id scopeName decl)
  · exact (reading base).pure rfl

theorem processType_over (scopeName : String) (id : Id) (element : Element) :
    Alike base (processType scopeName processMembers id element)
      (processType scopeName processMembers (base.beyond id) element) := by
  unfold processType
  split
  · exact processFunctionType_over id element
  split
  · exact processPointer_over id true element
  split
  · exact processPointer_over id false element
  split
  · exact processQualified_over id element
  split
  · exact processArray_over id element
  split
  · exact processTypeDecl_over id scopeName element
  · exact Lifting.bind_same (processUserDefinedType_over makes scopeName id element) fun known =>
      alike_check known _

omit makes in
theorem unlessDefined_over (typeId : String) {define : Id → Reading Unit}
    (defines : ∀ id, Alike base (define id) (define (base.beyond id))) :
    Alike base (unlessDefined typeId define) (unlessDefined typeId define) := by
  refine (reading base).bind (getNode_over typeId) ?_
  rintro id _ rfl
  refine (reading base).bind Lifting.stateful_get ?_
  rintro s _ rfl
  refine Lifting.bind_same (ofExcept_same (base.over_isSet s.graph id)) fun defined => ?_
  split
  · exact (reading base).pure trivial
  · exact defines id

theorem processMemberDecl_over (scopeName : String) (decl : Element) :
    Alike base (processMemberDecl scopeName processMembers decl)
      (processMemberDecl scopeName processMembers decl) := by
  refine Lifting.bind_same (same_ofExcept _) fun typeId => unlessDefined_over typeId fun id => ?_
  exact Lifting.bind_same (processUserDefinedType_over makes scopeName id decl) fun known =>
    alike_check known _

end

mutual

/-- The recursion over members, by the structure of the element. -/
theorem processMembers_over (element : Element) : MakesAlike base (processMembers element) :=
  match element with
  | .mk _ _ children => fun scopeName isStruct kind made => by
    rw [processMembers, processMembers]
    exact processChildren_over children scopeName isStruct kind made

theorem processChildren_over (children : List Element) :
    MakesAlike base (processChildren children) :=
  match children with
  | [] => fun _ _ _ _ => by
    rw [processChildren, processChildren]
    exact (reading base).pure rfl
  | child :: rest => fun scopeName isStruct kind made => by
    rw [processChildren, processChildren]
    refine (reading base).bind (processChild_over child scopeName isStruct kind made) ?_
    rintro made _ rfl
    exact processChildren_over rest scopeName isStruct kind made

theorem processChild_over (child : Element) : MakesAlike base (processChild child) :=
  match child with
  | .mk name attributes children => fun scopeName isStruct kind made => by
    rw [processChild, processChild]
    split
    · refine (reading base).bind (processDataMember_over scopeName isStruct _) ?_
      rintro member _ rfl
      exact (reading base).pure (by cases member <;> simp [Members.beneath])
    split
    · exact (reading base).bind (processMemberType_over children scopeName) fun _ _ _ =>
        (reading base).pure rfl
    split
    · refine (reading base).bind (processBaseClass_over _) ?_
      rintro baseClass _ rfl
      exact (reading base).pure (by simp [Members.beneath])
    split
    · refine (reading base).bind (processMemberFunction_over scopeName _) ?_
      rintro method _ rfl
      exact (reading base).pure (by simp [Members.beneath])
    · exact (reading base).throw _

theorem processMemberType_over (children : List Element) (scopeName : String) :
    Alike base (processMemberType children scopeName) (processMemberType children scopeName) :=
  match children with
  | [decl] => by
    rw [processMemberType]
    exact processMemberDecl_over (processMembers_over decl) scopeName decl
  | [] => (reading base).throw _
  | _ :: _ :: _ => (reading base).throw _

end

/- Scopes. -/

theorem processNonType_over (scopeName : String) {processInner : String → Reading Unit}
    (inner : ∀ scopeName, Alike base (processInner scopeName) (processInner scopeName))
    (element : Element) :
    Alike base (processNonType scopeName processInner element)
      (processNonType scopeName processInner element) := by
  unfold processNonType
  split
  · exact (reading base).bind (processDecl_over scopeName true element) fun _ _ _ =>
      (reading base).pure trivial
  split
  · exact (reading base).bind (processDecl_over scopeName false element) fun _ _ _ =>
      (reading base).pure trivial
  split
  · exact Lifting.bind_same (same_ofExcept _) fun name => inner _
  · exact (reading base).throw _

mutual

/-- The recursion over scopes. -/
theorem processScope_over (elements : List Element) (scopeName : String) :
    Alike base (processScope elements scopeName) (processScope elements scopeName) :=
  match elements with
  | [] => by
    rw [processScope]
    exact (reading base).pure trivial
  | element :: rest => by
    rw [processScope]
    exact (reading base).bind (processElement_over element scopeName) fun _ _ _ =>
      processScope_over rest scopeName

theorem processElement_over (element : Element) (scopeName : String) :
    Alike base (processElement element scopeName) (processElement element scopeName) :=
  match element with
  | .mk name attributes children => by
    rw [processElement]
    split
    · exact unlessDefined_over _ fun id => processType_over (processMembers_over _) scopeName id _
    · exact processNonType_over scopeName (fun scopeName => processScope_over children scopeName) _

end

/- A corpus and its table of symbols. -/

theorem buildSymbol_over (info : SymbolInfo) (typeId : Option Id) (name : Option String) :
    (reading base).rel (Beyond base) (buildSymbol info typeId name)
      (buildSymbol info (typeId.map base.beyond) name) := by
  have read : readElfSymbol info (typeId.map base.beyond) name =
      (readElfSymbol info typeId name).map fun symbol =>
        { symbol with typeId := symbol.typeId.map base.beyond } := by
    unfold readElfSymbol
    simp only [bind, Except.bind, Except.map, pure, Except.pure]
    repeat' split
    all_goals simp_all
  refine (reading base).bind (ofExcept_along (Lifting.exactly_map.mpr read)) ?_
  rintro symbol _ rfl
  exact Corpus.under.add (.elfSymbol symbol)

/-- The symbols of a corpus. -/
abbrev Listed (base : Graph) (symbols symbols' : List (String × Id)) : Prop :=
  symbols' = symbols.map fun symbol => (symbol.1, base.beyond symbol.2)

theorem insert_over (symbols : List (String × Id)) (name : String) (id : Id) :
    Ordered.insert (symbols.map fun symbol => (symbol.1, base.beyond symbol.2)) name
      (base.beyond id) =
      (Ordered.insert symbols name id).map fun symbol => (symbol.1, base.beyond symbol.2) :=
  Ordered.insert_map base.beyond symbols name id

/-- Symbols are made in the order of their names, which does not change. -/
theorem buildSymbolsOf_over (names : List String) (symbols : List (String × Id)) :
    (reading base).rel (Listed base) (buildSymbolsOf names symbols)
      (buildSymbolsOf names (symbols.map fun symbol => (symbol.1, base.beyond symbol.2))) := by
  induction names generalizing symbols with
  | nil => exact (reading base).pure rfl
  | cons name names ih =>
    rw [buildSymbolsOf, buildSymbolsOf]
    refine (reading base).bind Lifting.stateful_get ?_
    rintro s _ rfl
    have known : (s.beneath base).symbolInfoMap = s.symbolInfoMap := rfl
    rw [known]
    cases s.symbolInfoMap.lookup name with
    | none => exact ih symbols
    | some info =>
      have looked : (s.beneath base).symbolIdAndFullName.lookup
            (((s.beneath base).aliasToMain.lookup name).getD name) =
          (s.symbolIdAndFullName.lookup ((s.aliasToMain.lookup name).getD name)).map
            (Prod.map base.beyond id) :=
        Relabel.lookup_relabel (.refl _) _ s.symbolIdAndFullName _
      dsimp only
      rw [looked]
      generalize s.symbolIdAndFullName.lookup ((s.aliasToMain.lookup name).getD name) = linked
      have types : (linked.map (Prod.map base.beyond id)).map
          (·.1) = (linked.map (·.1)).map base.beyond := by
        cases linked <;> rfl
      have names_ : (linked.map (Prod.map base.beyond id)).map (·.2) = linked.map (·.2) := by
        cases linked <;> rfl
      rw [types, names_]
      refine (reading base).bind (buildSymbol_over info _ _) ?_
      rintro symbol _ rfl
      rw [insert_over]
      exact ih _

theorem buildSymbols_over (iteration : Iteration) :
    (reading base).rel (Listed base) (buildSymbols iteration) (buildSymbols iteration) := by
  refine (reading base).bind Lifting.stateful_get ?_
  rintro s _ rfl
  refine Lifting.bind_same (same_ofExcept _) fun _ => ?_
  refine (reading base).bind Lifting.stateful_get ?_
  rintro s _ rfl
  exact buildSymbolsOf_over _ []

theorem processCorpusChild_over (element : Element) :
    Alike base (processCorpusChild element) (processCorpusChild element) := by
  unfold processCorpusChild
  split
  · exact processSymbols_over element.children
  split
  · exact (reading base).pure trivial
  split
  · exact processScope_over element.children ""
  · exact (reading base).throw _

theorem processCorpusChildren_over (elements : List Element) :
    Alike base (processCorpusChildren elements) (processCorpusChildren elements) := by
  induction elements with
  | nil => exact (reading base).pure trivial
  | cons element rest ih =>
    exact (reading base).bind (processCorpusChild_over element) fun _ _ _ => ih

theorem processCorpus_over (iteration : Iteration) (corpus : Element) :
    (reading base).rel (Listed base) (processCorpus iteration corpus)
      (processCorpus iteration corpus) := by
  refine (reading base).bind (Lifting.stateful_modify ?_) fun _ _ _ => ?_
  · rintro s _ rfl
    rfl
  exact (reading base).bind (processCorpusChildren_over corpus.children) fun _ _ _ =>
    buildSymbols_over iteration

/- The root. -/

/-- Names that are taken are told apart by their keys alone. -/
theorem merge_over (fuel : Nat) (path : String) (corpusSymbols : List (String × Id))
    (symbols : Symbols) :
    merge fuel path (corpusSymbols.map fun symbol => (symbol.1, base.beyond symbol.2))
        (symbols.rename base.beyond) =
      (merge fuel path corpusSymbols symbols).map (Symbols.rename base.beyond) := by
  induction corpusSymbols generalizing symbols with
  | nil => rfl
  | cons symbol corpusSymbols ih =>
    obtain ⟨name, id⟩ := symbol
    rw [List.map_cons, merge, merge, Symbols.keys_over]
    split
    · cases SymbolKey.stream fuel ⟨path, name⟩ <;> rfl
    · rw [Symbols.insert_over, ih]

theorem processCorpora_over (iteration : Iteration) (fuel : Nat) (children : List Element)
    (symbols : Symbols) :
    (reading base).rel (fun symbols symbols' => symbols' = symbols.rename base.beyond)
      (processCorpora iteration fuel children symbols)
      (processCorpora iteration fuel children (symbols.rename base.beyond)) := by
  induction children generalizing symbols with
  | nil => exact (reading base).pure rfl
  | cons child rest ih =>
    refine Lifting.bind_same (same_ofExcept _) fun _ => ?_
    refine Lifting.bind_same (same_ofExcept _) fun path => ?_
    refine (reading base).bind (processCorpus_over iteration child) ?_
    rintro corpusSymbols _ rfl
    refine (reading base).bind
      (ofExcept_along (Lifting.exactly_map.mpr (merge_over fuel path corpusSymbols symbols))) ?_
    rintro symbols _ rfl
    exact ih symbols

/-- The whole of `ProcessRoot` after a graph does what it does by itself. -/
theorem processRoot_over (iteration : Iteration) (fuel : Nat) (root : Element) :
    (reading base).rel (Beyond base) (processRoot iteration fuel root)
      (processRoot iteration fuel root) := by
  unfold processRoot
  split
  · refine (reading base).bind (processCorpora_over iteration fuel root.children .empty) ?_
    rintro symbols _ rfl
    exact Corpus.under.add (.symbols symbols)
  split
  · refine (reading base).bind (processCorpus_over iteration root) ?_
    rintro corpusSymbols _ rfl
    refine (reading base).bind
      (ofExcept_along (Lifting.exactly_map.mpr (merge_over fuel "" corpusSymbols .empty))) ?_
    rintro symbols _ rfl
    exact Corpus.under.add (.symbols symbols)
  · exact (reading base).throw _

end Stg.AbiXml
