import Stg.Memoised

set_option autoImplicit false

/- C types as trees, and their names. -/
namespace Stg

open Relation (ReflTransGen TransGen)

mutual

/-- A type as it stands in a graph, with one node for each qualifier. -/
inductive TypeTree where
  | base (name : String)
  | qualified (qualifier : Qualifier) (type : TypeTree)
  | pointerReference (kind : PointerReference.Kind) (pointee : TypeTree)
  | array (numberOfElements : UInt64) (element : TypeTree)
  | function (parameters : ParameterTrees) (returned : TypeTree)

inductive ParameterTrees where
  | nil
  | type (type : TypeTree) (rest : ParameterTrees)
  | variadic (rest : ParameterTrees)

end

mutual

/-- A type with sets of qualifiers, and none at arrays and functions. -/
inductive CType where
  | base (qualifiers : Qualifiers) (name : String)
  | pointerReference (qualifiers : Qualifiers) (kind : PointerReference.Kind) (pointee : CType)
  | array (numberOfElements : UInt64) (element : CType)
  | function (parameters : CParameters) (returned : CType)

inductive CParameters where
  | nil
  | type (type : CType) (rest : CParameters)
  | variadic (rest : CParameters)

end

mutual

/-- Nested qualifiers are merged into a set; those of arrays and functions are dropped. -/
def TypeTree.merge : TypeTree → Qualifiers → CType
  | .base name, qualifiers => .base qualifiers name
  | .qualified qualifier type, qualifiers => type.merge (insert qualifier qualifiers)
  | .pointerReference kind pointee, qualifiers => .pointerReference qualifiers kind (pointee.merge ∅)
  | .array number element, _ => .array number (element.merge ∅)
  | .function parameters returned, _ => .function parameters.merge (returned.merge ∅)

def ParameterTrees.merge : ParameterTrees → CParameters
  | .nil => .nil
  | .type type rest => .type (type.merge ∅) rest.merge
  | .variadic rest => .variadic rest.merge

end

/-- The type without qualifiers that stands in the graph. -/
def TypeTree.type (tree : TypeTree) : CType := tree.merge ∅

def PointerReference.Kind.sign : PointerReference.Kind → String
  | .pointer => "*"
  | .lvalueReference => "&"
  | .rvalueReference => "&&"

/-- Qualifiers in front of a base type. -/
def Qualifiers.leading (qualifiers : Qualifiers) : String :=
  String.join (qualifiers.inOrder.map fun q => print q ++ " ")

/-- Qualifiers behind a pointer. -/
def Qualifiers.trailing (qualifiers : Qualifiers) : String :=
  String.join (qualifiers.inOrder.map fun q => " " ++ print q)

def CType.isSuffix : CType → Bool
  | .array _ _ | .function _ _ => true
  | _ => false

mutual

/-- The declaration of something of the type: suffixes are added to the declarator, and pointers
are put before it, in parentheses if suffixes follow. -/
def CType.declare : CType → String → String
  | .base qualifiers name, declarator => qualifiers.leading ++ name ++ declarator
  | .pointerReference qualifiers kind pointee, declarator =>
    let pointer := kind.sign ++ qualifiers.trailing ++ declarator
    pointee.declare (if pointee.isSuffix then "(" ++ pointer ++ ")" else " " ++ pointer)
  | .array number element, declarator => element.declare (declarator ++ "[" ++ print number ++ "]")
  | .function parameters returned, declarator =>
    returned.declare (declarator ++ "(" ++ parameters.declare ++ ")")

def CParameters.declare : CParameters → String
  | .nil => ""
  | .type type rest => type.declare "" ++ rest.declareMore
  | .variadic rest => "..." ++ rest.declareMore

def CParameters.declareMore : CParameters → String
  | .nil => ""
  | .type type rest => ", " ++ type.declare "" ++ rest.declareMore
  | .variadic rest => ", " ++ "..." ++ rest.declareMore

end

mutual

/-- The name that is made of a type. -/
def CType.name : CType → Name
  | .base qualifiers name => { left := qualifiers.leading ++ name }
  | .pointerReference qualifiers kind pointee =>
    let pointer := pointee.name.add .left .pointer kind.sign
    { pointer with left := pointer.left ++ qualifiers.trailing }
  | .array number element => element.name.add .right .arrayFunction ("[" ++ print number ++ "]")
  | .function parameters returned =>
    returned.name.add .right .arrayFunction ("(" ++ parameters.text ++ ")")

def CParameters.text : CParameters → String
  | .nil => ""
  | .type type rest => print type.name ++ rest.more
  | .variadic rest => "..." ++ rest.more

def CParameters.more : CParameters → String
  | .nil => ""
  | .type type rest => ", " ++ print type.name ++ rest.more
  | .variadic rest => ", " ++ "..." ++ rest.more

end

section Names

/-- Parentheses are needed exactly where a pointer is applied to an array or a function. -/
theorem CType.bracket_iff (type : CType) :
    Precedence.pointer.ctorIdx < type.name.precedence.ctorIdx ↔ type.isSuffix = true := by
  cases type with
  | base => exact iff_of_false (by change ¬ 1 < 0; omega) nofun
  | pointerReference => exact iff_of_false (by change ¬ 1 < 1; omega) nofun
  | array => exact iff_of_true (by change 1 < 2; omega) rfl
  | function => exact iff_of_true (by change 1 < 2; omega) rfl

theorem CType.suffix_free (type : CType) :
    ¬ Precedence.arrayFunction.ctorIdx < type.name.precedence.ctorIdx := by
  cases type with
  | base => change ¬ 2 < 0; omega
  | pointerReference => change ¬ 2 < 1; omega
  | array => change ¬ 2 < 2; omega
  | function => change ¬ 2 < 2; omega

theorem CType.add_pointer (type : CType) (text : String) : type.name.add .left .pointer text =
    { left := type.name.left ++ (if type.isSuffix then "(" else " ") ++ text
      precedence := .pointer
      right := (if type.isSuffix then ")" else "") ++ type.name.right } := by
  have bracket := type.bracket_iff
  cases suffix : type.isSuffix with
  | true => simp [Name.add, bracket.mpr suffix]
  | false =>
    rw [suffix] at bracket
    simp [Name.add, show ¬ _ from fun less => nomatch bracket.mp less]

theorem CType.add_suffix (type : CType) (text : String) :
    type.name.add .right .arrayFunction text =
      { left := type.name.left, precedence := .arrayFunction, right :=
        text ++ type.name.right } := by
  simp [Name.add, type.suffix_free]

mutual

/-- The two parts of a name stand around the declarator. -/
theorem CType.declare_eq : ∀ (type : CType) (declarator : String),
    type.declare declarator = type.name.left ++ declarator ++ type.name.right
  | .base qualifiers name, declarator => by
    simp [CType.declare, CType.name]
  | .pointerReference qualifiers kind pointee, declarator => by
    rw [CType.declare, CType.declare_eq pointee, CType.name, CType.add_pointer]
    cases pointee.isSuffix <;> simp [String.append_assoc]
  | .array number element, declarator => by
    rw [CType.declare, CType.declare_eq element, CType.name, CType.add_suffix]
    simp [String.append_assoc]
  | .function parameters returned, declarator => by
    rw [CType.declare, CType.declare_eq returned, CType.name, CType.add_suffix,
      CParameters.declare_eq parameters]
    simp [String.append_assoc]

theorem CParameters.declare_eq : ∀ parameters : CParameters, parameters.declare = parameters.text
  | .nil => rfl
  | .type type rest => by
    rw [CParameters.declare, CParameters.text, CType.declare_eq type,
      CParameters.declareMore_eq rest]
    simp [print]
  | .variadic rest => by
    rw [CParameters.declare, CParameters.text, CParameters.declareMore_eq rest]

theorem CParameters.declareMore_eq :
    ∀ parameters : CParameters, parameters.declareMore = parameters.more
  | .nil => rfl
  | .type type rest => by
    rw [CParameters.declareMore, CParameters.more, CType.declare_eq type,
      CParameters.declareMore_eq rest]
    simp [print]
  | .variadic rest => by
    rw [CParameters.declareMore, CParameters.more, CParameters.declareMore_eq rest]

end

theorem CType.print_eq (type : CType) : print type.name = type.declare "" := by
  rw [CType.declare_eq]
  simp [print]

end Names

/-- A type that is named by words. -/
def Node.IsBase : Node → String → Prop
  | .void, name => name = "void"
  | .typedef node, name => name = node.name
  | .integer node, name => name = node.name
  | .structUnion node, name => node.name ≠ "" ∧ name = print node.kind ++ " " ++ node.name
  | .enumeration node, name => node.name ≠ "" ∧ name = "enum " ++ node.name
  | _, _ => False

section Trees

variable (graph : Graph)

mutual

/-- The tree is what can be reached from the node. -/
def TypeTree.At : TypeTree → Id → Prop
  | .base name, id => ∃ node, graph.get id = .ok node ∧ node.IsBase name
  | .qualified qualifier type, id => ∃ node, graph.get id = .ok (.qualified node) ∧
    node.qualifier = qualifier ∧ type.At node.qualifiedTypeId
  | .pointerReference kind pointee, id => ∃ node, graph.get id = .ok (.pointerReference node) ∧
    node.kind = kind ∧ pointee.At node.pointeeTypeId
  | .array number element, id => ∃ node, graph.get id = .ok (.array node) ∧
    node.numberOfElements = number ∧ element.At node.elementTypeId
  | .function parameters returned, id => ∃ node, graph.get id = .ok (.function node) ∧
    parameters.At (node.parameters.map (·.typeId)) ∧ returned.At node.returnTypeId

def ParameterTrees.At : ParameterTrees → List Id → Prop
  | .nil, ids => ids = []
  | .type type rest, ids => ∃ id others, ids = id :: others ∧ type.At id ∧ rest.At others
  | .variadic rest, ids => ∃ id others, ids = id :: others ∧ graph.get id = .ok .variadic ∧
    rest.At others

end

end Trees

variable {graph : Graph} {fuel : Nat}

section Acyclic

/-- From a tree naming only reaches smaller trees, and `...`. -/
theorem ParameterTrees.At.part : ∀ {parameters : ParameterTrees} {ids : List Id} {part : Id},
    parameters.At graph ids → part ∈ ids → graph.get part = .ok .variadic ∨
      ∃ tree : TypeTree, sizeOf tree < sizeOf parameters ∧ tree.At graph part
  | .nil, _, _, at_, present => by
    rw [at_] at present
    cases present
  | .type first rest, _, part, ⟨id, others, same, atFirst, atRest⟩, present => by
    rw [same] at present
    rcases List.mem_cons.mp present with rfl | present
    · refine .inr ⟨first, ?_, atFirst⟩
      simp only [ParameterTrees.type.sizeOf_spec]
      omega
    · refine (ParameterTrees.At.part atRest present).imp_right ?_
      rintro ⟨tree, smaller, atTree⟩
      refine ⟨tree, ?_, atTree⟩
      simp only [ParameterTrees.type.sizeOf_spec]
      omega
  | .variadic rest, _, part, ⟨id, others, same, isVariadic, atRest⟩, present => by
    rw [same] at present
    rcases List.mem_cons.mp present with rfl | present
    · exact .inl isVariadic
    · refine (ParameterTrees.At.part atRest present).imp_right ?_
      rintro ⟨tree, smaller, atTree⟩
      refine ⟨tree, ?_, atTree⟩
      simp only [ParameterTrees.variadic.sizeOf_spec]
      omega

theorem TypeTree.At.part {tree : TypeTree} {id part : Id} (at_ : tree.At graph id)
    (edge : graph.NamedBy id part) : graph.get part = .ok .variadic ∨
      ∃ tree' : TypeTree, sizeOf tree' < sizeOf tree ∧ tree'.At graph part := by
  obtain ⟨node, got, present⟩ := edge
  cases tree with
  | base name =>
    obtain ⟨node', got', isBase⟩ := at_
    cases got.symm.trans got'
    cases node with
    | structUnion node => simp [Node.parts, if_pos isBase.1] at present
    | void | typedef | integer | enumeration => cases present
    | _ => cases isBase
  | qualified qualifier type =>
    obtain ⟨node', got', _, atType⟩ := at_
    cases got.symm.trans got'
    rw [List.mem_singleton.mp present]
    exact .inr ⟨type, by simp, atType⟩
  | pointerReference kind pointee =>
    obtain ⟨node', got', _, atPointee⟩ := at_
    cases got.symm.trans got'
    rw [List.mem_singleton.mp present]
    exact .inr ⟨pointee, by simp, atPointee⟩
  | array number element =>
    obtain ⟨node', got', _, atElement⟩ := at_
    cases got.symm.trans got'
    rw [List.mem_singleton.mp present]
    exact .inr ⟨element, by simp, atElement⟩
  | function parameters returned =>
    obtain ⟨node', got', atParameters, atReturned⟩ := at_
    cases got.symm.trans got'
    rcases List.mem_append.mp present with present | present
    · refine (atParameters.part present).imp_right ?_
      rintro ⟨tree, smaller, atTree⟩
      refine ⟨tree, ?_, atTree⟩
      simp only [TypeTree.function.sizeOf_spec]
      omega
    · rw [List.mem_singleton.mp present]
      refine .inr ⟨returned, ?_, atReturned⟩
      simp only [TypeTree.function.sizeOf_spec]
      omega

theorem TypeTree.At.get {tree : TypeTree} {id : Id} (at_ : tree.At graph id) :
    ∃ node, graph.get id = .ok node := by
  cases tree with
  | base =>
    obtain ⟨node, got, _⟩ := at_
    exact ⟨_, got⟩
  | qualified | pointerReference | array | function =>
    obtain ⟨node, got, _⟩ := at_
    exact ⟨_, got⟩

theorem variadic_part {id part : Id} (isVariadic : graph.get id = .ok .variadic) :
    ¬ graph.NamedBy id part := by
  rintro ⟨node, got, present⟩
  cases isVariadic.symm.trans got
  cases present

/-- What is reached from a tree is a smaller tree or `...`. -/
theorem TypeTree.At.reached {tree : TypeTree} {id other : Id} (at_ : tree.At graph id)
    (path : TransGen graph.NamedBy id other) : graph.get other = .ok .variadic ∨
      ∃ tree' : TypeTree, sizeOf tree' < sizeOf tree ∧ tree'.At graph other := by
  induction path with
  | single edge => exact at_.part edge
  | tail _ edge ih =>
    rcases ih with isVariadic | ⟨tree', smaller, atTree'⟩
    · exact absurd edge (variadic_part isVariadic)
    · refine (atTree'.part edge).imp_right ?_
      rintro ⟨tree'', smaller', atTree''⟩
      exact ⟨tree'', by omega, atTree''⟩

theorem TypeTree.At.irreflexive {tree : TypeTree} {id : Id} (at_ : tree.At graph id) :
    ¬ TransGen graph.NamedBy id id := by
  induction size : sizeOf tree using Nat.strong_induction_on generalizing tree with
  | _ n ih =>
    intro cycle
    rcases at_.reached cycle with isVariadic | ⟨tree', smaller, atTree'⟩
    · obtain ⟨next, edge, _⟩ := TransGen.head'_iff.mp cycle
      exact variadic_part isVariadic edge
    · exact ih _ (size ▸ smaller) atTree' rfl cycle

theorem TypeTree.At.namesFinitely {tree : TypeTree} {id : Id} (at_ : tree.At graph id) :
    graph.NamesFinitely id := by
  intro other path cycle
  rcases Relation.reflTransGen_iff_eq_or_transGen.mp path with rfl | path
  · exact at_.irreflexive cycle
  · rcases at_.reached path with isVariadic | ⟨tree', _, atTree'⟩
    · obtain ⟨next, edge, _⟩ := TransGen.head'_iff.mp cycle
      exact variadic_part isVariadic edge
    · exact atTree'.irreflexive cycle

end Acyclic

section Naming

/-- The walk along qualifiers ends at a tree of another kind, with the qualifiers that its name
takes. -/
theorem TypeTree.At.walk : ∀ {tree : TypeTree} {id : Id} (qualifiers : Qualifiers),
    tree.At graph id → ∃ (under : Id) (tree' : TypeTree) (collected : Qualifiers),
      tree'.At graph under ∧ sizeOf tree' ≤ sizeOf tree ∧
      ReflTransGen graph.NamedBy id under ∧
      (∃ enough, ∀ fuel, enough ≤ fuel →
        resolveQualifiers graph fuel id qualifiers = .ok (under, collected)) ∧
      tree'.type.name.qualify collected = .ok (tree.merge qualifiers).name
  | .base name, id, qualifiers, ⟨node, got, isBase⟩ => by
    refine ⟨id, .base name, qualifiers, ⟨node, got, isBase⟩, Nat.le_refl _, .refl, ⟨1, ?_⟩, ?_⟩
    · intro fuel more
      obtain ⟨fuel, rfl⟩ := Nat.exists_eq_add_of_le' more
      rw [resolveQualifiers, got]
      cases node with
      | void | typedef | integer | structUnion | enumeration => rfl
      | _ => cases isBase
    · by_cases none_ : qualifiers = ∅
      · subst none_
        rfl
      · simp [Name.qualify, none_, TypeTree.type, TypeTree.merge, CType.name, Qualifiers.leading,
          Qualifiers.inOrder]
        rfl
  | .qualified qualifier type, id, qualifiers, ⟨node, got, same, atType⟩ => by
    obtain ⟨under, tree', collected, atTree', smaller, path, ⟨enough, walks⟩, qualify⟩ :=
      TypeTree.At.walk (insert qualifier qualifiers) atType
    refine ⟨under, tree', collected, atTree', ?_, ?_, ⟨enough + 1, ?_⟩, qualify⟩
    · simp only [TypeTree.qualified.sizeOf_spec]
      omega
    · exact .head ⟨_, got, List.mem_cons_self⟩ path
    · intro fuel more
      obtain ⟨fuel, rfl⟩ := Nat.exists_eq_add_of_le' (Nat.le_of_add_left_le more)
      rw [resolveQualifiers, got]
      change resolveQualifiers graph fuel node.qualifiedTypeId
        (insert node.qualifier qualifiers) = _
      rw [same]
      exact walks fuel (by omega)
  | .pointerReference kind pointee, id, qualifiers, ⟨node, got, same, atPointee⟩ => by
    refine ⟨id, .pointerReference kind pointee, qualifiers, ⟨node, got, same, atPointee⟩,
      Nat.le_refl _, .refl, ⟨1, ?_⟩, ?_⟩
    · intro fuel more
      obtain ⟨fuel, rfl⟩ := Nat.exists_eq_add_of_le' more
      rw [resolveQualifiers, got]
      rfl
    · by_cases none_ : qualifiers = ∅
      · subst none_
        rfl
      · simp [Name.qualify, none_, TypeTree.type, TypeTree.merge, CType.name, CType.add_pointer,
          Qualifiers.trailing, Qualifiers.inOrder]
        rfl
  | .array number element, id, qualifiers, ⟨node, got, same, atElement⟩ => by
    refine ⟨id, .array number element, ∅, ⟨node, got, same, atElement⟩, Nat.le_refl _, .refl,
      ⟨1, ?_⟩, rfl⟩
    intro fuel more
    obtain ⟨fuel, rfl⟩ := Nat.exists_eq_add_of_le' more
    rw [resolveQualifiers, got]
    rfl
  | .function parameters returned, id, qualifiers, ⟨node, got, atParameters, atReturned⟩ => by
    refine ⟨id, .function parameters returned, ∅, ⟨node, got, atParameters, atReturned⟩,
      Nat.le_refl _, .refl, ⟨1, ?_⟩, rfl⟩
    intro fuel more
    obtain ⟨fuel, rfl⟩ := Nat.exists_eq_add_of_le' more
    rw [resolveQualifiers, got]
    rfl

/-- A notion of what a call returns. -/
structure Evaluation (Makes : ∀ {α : Type}, (Nat → NameM α) → α → Prop) : Prop where
  pure : ∀ {α : Type} (value : α), Makes (fun _ => Pure.pure value) value
  bind : ∀ {α β : Type} {call : Nat → NameM α} {rest : Nat → α → NameM β} {value : α} {value' : β},
    Makes call value → Makes (fun fuel => rest fuel value) value' →
      Makes (fun fuel => call fuel >>= rest fuel) value'
  later : ∀ {α : Type} {call call' : Nat → NameM α} {value : α} (enough : Nat),
    (∀ fuel, enough ≤ fuel → call fuel = call' fuel) → Makes call' value → Makes call value

variable {Makes : ∀ {α : Type}, (Nat → NameM α) → α → Prop} {describe : Nat → Id → NameM Name}

def variadicName : Name := { left := "..." }

theorem ParameterTrees.At.more (evaluation : Evaluation @Makes)
    {parameters : ParameterTrees} {ids : List Id} (at_ : parameters.At graph ids)
    (describes : ∀ (tree : TypeTree) id, sizeOf tree < sizeOf parameters → id ∈ ids →
      tree.At graph id → Makes (fun fuel => describe fuel id) tree.type.name)
    (variadics : ∀ id ∈ ids, graph.get id = .ok .variadic →
      Makes (fun fuel => describe fuel id) variadicName) :
    Makes (fun fuel => describeAll (describe fuel) ", " "" ids) parameters.merge.more := by
  induction ids generalizing parameters with
  | nil =>
    cases parameters with
    | nil => exact evaluation.pure _
    | type first rest => obtain ⟨_, _, same, _⟩ := at_; cases same
    | variadic rest => obtain ⟨_, _, same, _⟩ := at_; cases same
  | cons id ids ih =>
    cases parameters with
    | nil => cases at_
    | type first rest =>
      obtain ⟨_, _, same, atFirst, atRest⟩ := at_
      cases same
      simp only [ParameterTrees.type.sizeOf_spec] at describes
      have others := ih atRest
        (fun tree id smaller present =>
          describes tree id (by omega) (List.mem_cons_of_mem _ present))
        fun id present => variadics id (List.mem_cons_of_mem _ present)
      have text : (ParameterTrees.type first rest).merge.more =
          ", " ++ print first.type.name ++ "" ++ rest.merge.more := by
        simp [ParameterTrees.merge, CParameters.more, TypeTree.type]
      rw [text]
      refine evaluation.bind (describes first id (by omega) List.mem_cons_self atFirst) ?_
      exact evaluation.bind others (evaluation.pure _)
    | variadic rest =>
      obtain ⟨_, _, same, isVariadic, atRest⟩ := at_
      cases same
      simp only [ParameterTrees.variadic.sizeOf_spec] at describes
      have others := ih atRest
        (fun tree id smaller present =>
          describes tree id (by omega) (List.mem_cons_of_mem _ present))
        fun id present => variadics id (List.mem_cons_of_mem _ present)
      have text : (ParameterTrees.variadic rest).merge.more =
          ", " ++ print variadicName ++ "" ++ rest.merge.more := by
        simp [ParameterTrees.merge, CParameters.more, variadicName, print]
      rw [text]
      refine evaluation.bind (variadics id List.mem_cons_self isVariadic) ?_
      exact evaluation.bind others (evaluation.pure _)

theorem ParameterTrees.At.text (evaluation : Evaluation @Makes)
    {parameters : ParameterTrees} {ids : List Id} (at_ : parameters.At graph ids)
    (describes : ∀ (tree : TypeTree) id, sizeOf tree < sizeOf parameters → id ∈ ids →
      tree.At graph id → Makes (fun fuel => describe fuel id) tree.type.name)
    (variadics : ∀ id ∈ ids, graph.get id = .ok .variadic →
      Makes (fun fuel => describe fuel id) variadicName) :
    Makes (fun fuel => describeParameters (describe fuel) ids) parameters.merge.text := by
  cases parameters with
  | nil =>
    cases at_
    exact evaluation.pure _
  | type first rest =>
    obtain ⟨id, ids, rfl, atFirst, atRest⟩ := at_
    simp only [ParameterTrees.type.sizeOf_spec] at describes
    have others := atRest.more evaluation
      (fun tree id smaller present => describes tree id (by omega) (List.mem_cons_of_mem _ present))
      fun id present => variadics id (List.mem_cons_of_mem _ present)
    refine evaluation.bind (describes first id (by omega) List.mem_cons_self atFirst) ?_
    exact evaluation.bind others (evaluation.pure _)
  | variadic rest =>
    obtain ⟨id, ids, rfl, isVariadic, atRest⟩ := at_
    simp only [ParameterTrees.variadic.sizeOf_spec] at describes
    have others := atRest.more evaluation
      (fun tree id smaller present => describes tree id (by omega) (List.mem_cons_of_mem _ present))
      fun id present => variadics id (List.mem_cons_of_mem _ present)
    refine evaluation.bind (variadics id List.mem_cons_self isVariadic) ?_
    exact evaluation.bind others (evaluation.pure _)

/-- The name of a node is the name of its tree if the names of its parts are. -/
theorem TypeTree.At.makes (evaluation : Evaluation @Makes) {tree : TypeTree} {id : Id} {node : Node}
    (got : graph.get id = .ok node) (at_ : tree.At graph id)
    (describes : ∀ (tree' : TypeTree) part, sizeOf tree' < sizeOf tree →
      TransGen graph.NamedBy id part → tree'.At graph part →
        Makes (fun fuel => describe fuel part) tree'.type.name)
    (variadics : ∀ part, graph.NamedBy id part → graph.get part = .ok .variadic →
      Makes (fun fuel => describe fuel part) variadicName) :
    Makes (fun fuel => node.makeDescription graph fuel (describe fuel)) tree.type.name := by
  cases tree with
  | base name =>
    obtain ⟨node', got', isBase⟩ := at_
    cases got.symm.trans got'
    have plain : (TypeTree.base name).type.name = { left := name } := by
      simp [TypeTree.type, TypeTree.merge, CType.name, Qualifiers.leading, Qualifiers.inOrder]
    rw [plain]
    cases node with
    | structUnion node =>
      obtain ⟨named, rfl⟩ := isBase
      have body : ∀ fuel, node.describeBody (describe fuel) = pure node.name := fun fuel =>
        if_pos named
      simp only [Node.makeDescription, StructUnion.makeDescription, body]
      exact evaluation.pure _
    | enumeration node =>
      obtain ⟨named, rfl⟩ := isBase
      have own : node.makeDescription = { left := "enum " ++ node.name } := by
        simp [Enumeration.makeDescription, named]
      rw [← own]
      exact evaluation.pure _
    | void | typedef | integer =>
      cases isBase
      exact evaluation.pure _
    | _ => cases isBase
  | qualified qualifier type =>
    obtain ⟨node', got', same, atType⟩ := at_
    cases got.symm.trans got'
    obtain ⟨under, tree', collected, atTree', smaller, path, ⟨enough, walks⟩, qualify⟩ :=
      atType.walk {qualifier}
    have reached : TransGen graph.NamedBy id under :=
      TransGen.head' ⟨_, got, List.mem_cons_self⟩ path
    have named := describes tree' under
      (by simp only [TypeTree.qualified.sizeOf_spec]; omega) reached atTree'
    have whole : (TypeTree.qualified qualifier type).type = type.merge {qualifier} := rfl
    rw [whole]
    have qualified : Makes (fun _ => ofExcept (tree'.type.name.qualify collected))
        (type.merge {qualifier}).name := by
      rw [qualify]
      exact evaluation.pure _
    have bound : Makes (fun fuel => describe fuel under >>= fun name =>
        ofExcept (name.qualify collected)) (type.merge {qualifier}).name :=
      evaluation.bind named qualified
    refine evaluation.later enough (fun fuel more => ?_) bound
    rw [Node.makeDescription, same, walks fuel more]
    rfl
  | pointerReference kind pointee =>
    obtain ⟨node, got', rfl, atPointee⟩ := at_
    cases got.symm.trans got'
    have named := describes pointee _ (by simp) (.single ⟨_, got, List.mem_cons_self⟩) atPointee
    have whole : (TypeTree.pointerReference node.kind pointee).type.name =
        pointee.type.name.add .left .pointer node.kind.sign := by
      simp [TypeTree.type, TypeTree.merge, CType.name, Qualifiers.trailing, Qualifiers.inOrder]
    rw [whole]
    cases held : node.kind with
    | pointer | lvalueReference | rvalueReference =>
      simp only [Node.makeDescription, held]
      exact evaluation.bind named (evaluation.pure _)
  | array number element =>
    obtain ⟨node', got', rfl, atElement⟩ := at_
    cases got.symm.trans got'
    exact evaluation.bind (describes element _ (by simp) (.single ⟨_, got, List.mem_cons_self⟩)
      atElement) (evaluation.pure _)
  | function parameters returned =>
    obtain ⟨node, got', atParameters, atReturned⟩ := at_
    cases got.symm.trans got'
    simp only [TypeTree.function.sizeOf_spec] at describes
    have part : ∀ id' ∈ node.parameters.map (·.typeId), graph.NamedBy id id' :=
      fun id' present => ⟨_, got, List.mem_append_left _ present⟩
    have text := atParameters.text evaluation
      (fun tree id' smaller present => describes tree id' (by omega) (.single (part id' present)))
      fun id' present => variadics id' (part id' present)
    have returns := describes returned _ (by omega)
      (.single ⟨_, got, List.mem_append_right _ List.mem_cons_self⟩) atReturned
    exact evaluation.bind text (evaluation.bind returns (evaluation.pure _))

theorem answering_evaluation : Evaluation @Answering where
  pure := Answering.pure
  bind := Answering.bind
  later := by
    rintro α call call' value enough same ⟨enough', returns⟩
    refine ⟨max enough enough', fun fuel more names => ?_⟩
    rw [same fuel (le_trans (le_max_left _ _) more)]
    exact returns fuel (le_trans (le_max_right _ _) more) names

theorem Answering.unique {α : Type} {call : Nat → NameM α} {value value' : α}
    (first : Answering call value) (second : Answering call value') : value = value' := by
  obtain ⟨enough, returns⟩ := first
  obtain ⟨enough', returns'⟩ := second
  have ran := returns (max enough enough') (le_max_left _ _) ∅
  rw [returns' (max enough enough') (le_max_right _ _) ∅] at ran
  cases ran
  rfl

theorem rendered_variadic {id : Id} (isVariadic : graph.get id = .ok .variadic) :
    Rendered graph id variadicName :=
  rendered_of_makes isVariadic (.pure _)

theorem TypeTree.At.rendered {tree : TypeTree} {id : Id} (at_ : tree.At graph id) :
    Rendered graph id tree.type.name := by
  induction size : sizeOf tree using Nat.strong_induction_on generalizing tree id with
  | _ n ih =>
    obtain ⟨node, got⟩ := at_.get
    refine rendered_of_makes got (at_.makes answering_evaluation got ?_ ?_)
    · intro tree' part smaller _ atTree'
      exact ih _ (size ▸ smaller) atTree' rfl
    · intro part _ isVariadic
      exact rendered_variadic isVariadic

/-- With enough fuel and from any right cache the call returns the value. -/
def Caching (graph : Graph) (being : List Id) {α : Type} (call : Nat → NameM α) (value : α) :
    Prop :=
  ∃ enough, ∀ fuel, enough ≤ fuel → ∀ names, RendersApart graph being names →
    ∃ names', (call fuel).run names = .ok (value, names') ∧ RendersApart graph being names'

theorem caching_evaluation (being : List Id) : Evaluation (fun {α} => @Caching graph being α) where
  pure value := ⟨0, fun _ _ names inv => ⟨names, rfl, inv⟩⟩
  bind := by
    rintro α β call rest value value' ⟨enough, returns⟩ ⟨enough', returns'⟩
    refine ⟨max enough enough', fun fuel more names inv => ?_⟩
    obtain ⟨names1, ran, inv1⟩ := returns fuel (le_trans (le_max_left _ _) more) names inv
    obtain ⟨names2, ran2, inv2⟩ := returns' fuel (le_trans (le_max_right _ _) more) names1 inv1
    refine ⟨names2, ?_, inv2⟩
    rw [StateT.run_bind, ran]
    exact ran2
  later := by
    rintro α call call' value enough same ⟨enough', returns⟩
    refine ⟨max enough enough', fun fuel more names inv => ?_⟩
    rw [same fuel (le_trans (le_max_left _ _) more)]
    exact returns fuel (le_trans (le_max_right _ _) more) names inv

theorem caching_of_makes {being : List Id} {id : Id} {node : Node} {name : Name}
    (got : graph.get id = .ok node) (finite : graph.NamesFinitely id)
    (rendered : Rendered graph id name) (leads : ∀ other ∈ being, TransGen graph.NamedBy other id)
    (makes : Caching graph (id :: being)
      (fun fuel => node.makeDescription graph fuel (getDescription graph fuel)) name) :
    Caching graph being (fun fuel => getDescription graph fuel id) name := by
  obtain ⟨enough, returns⟩ := makes
  refine ⟨enough + 1, fun fuel more names inv => ?_⟩
  obtain ⟨fuel, rfl⟩ := Nat.exists_eq_add_of_le' (Nat.le_of_add_left_le more)
  cases held : names.lookup id with
  | some cached =>
    have apart : id ∉ being := fun among => finite id .refl (leads id among)
    have same : cached = name := (inv id cached apart finite held).unique rendered
    exact ⟨names, by rw [getDescription_cached held, same], inv⟩
  | none =>
    obtain ⟨names', ran, inv'⟩ := returns fuel (by omega) _ (inv.opened id)
    refine ⟨names'.insert id name, ?_, inv'.closed fun _ => rendered⟩
    rw [getDescription_new held, got]
    change (node.makeDescription graph fuel (getDescription graph fuel) >>= fun name =>
      (modify fun names => names.insert id name) >>= fun _ => pure name).run _ = _
    rw [StateT.run_bind, ran]
    rfl

theorem variadic_finite {id : Id} (isVariadic : graph.get id = .ok .variadic) :
    graph.NamesFinitely id := by
  intro other path cycle
  rcases path.cases_head with rfl | ⟨next, edge, _⟩
  · obtain ⟨next, edge, _⟩ := TransGen.head'_iff.mp cycle
    exact variadic_part isVariadic edge
  · exact variadic_part isVariadic edge

/-- The name of a tree is returned from any right cache. -/
theorem TypeTree.At.cached {tree : TypeTree} {id : Id} {being : List Id} (at_ : tree.At graph id)
    (leads : ∀ other ∈ being, TransGen graph.NamedBy other id) :
    Caching graph being (fun fuel => getDescription graph fuel id) tree.type.name := by
  induction size : sizeOf tree using Nat.strong_induction_on generalizing tree id being with
  | _ n ih =>
    obtain ⟨node, got⟩ := at_.get
    have leads' : ∀ part, TransGen graph.NamedBy id part →
        ∀ other ∈ id :: being, TransGen graph.NamedBy other part := by
      intro part path other among
      rcases List.mem_cons.mp among with rfl | among
      · exact path
      · exact (leads other among).trans path
    refine caching_of_makes got at_.namesFinitely at_.rendered leads
      (at_.makes (caching_evaluation _) got ?_ ?_)
    · intro tree' part smaller path atTree'
      exact ih _ (size ▸ smaller) atTree' (leads' part path) rfl
    · intro part edge isVariadic
      exact caching_of_makes isVariadic (variadic_finite isVariadic) (rendered_variadic isVariadic)
        (leads' part (.single edge)) ((caching_evaluation _).pure _)

end Naming

end Stg
