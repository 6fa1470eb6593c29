import Stg.AbiXml.Document

set_option autoImplicit false

/- Documents with the same elements in another order. -/
namespace Stg.AbiXml

/- What the elements define. -/

def Element.IsAggregate (element : Element) : Prop :=
  element.name = "class-decl" ∨ element.name = "union-decl"

instance (element : Element) : Decidable element.IsAggregate :=
  inferInstanceAs (Decidable (_ ∨ _))

mutual

/-- The type ids that are defined inside a definition. -/
def nestedTypes : Element → List String
  | .mk name attributes children =>
    if (Element.mk name attributes children).IsAggregate then childrenTypes children else []

def childrenTypes : List Element → List String
  | [] => []
  | child :: rest => childTypes child ++ childrenTypes rest

def childTypes : Element → List String
  | .mk name _ children => if name = "member-type" then memberTypes children else []

/-- The type ids that the only child of a member type defines. -/
def memberTypes : List Element → List String
  | [decl] => (getAttribute decl "id").toList ++ nestedTypes decl
  | _ => []

end

mutual

/-- The type ids that the elements of a scope define. -/
def scopeTypes : List Element → List String
  | [] => []
  | element :: rest => elementTypes element ++ scopeTypes rest

def elementTypes : Element → List String
  | .mk name attributes children =>
    match getAttribute (.mk name attributes children) "id" with
    | some typeId => typeId :: nestedTypes (.mk name attributes children)
    | none => if name = "namespace-decl" then scopeTypes children else []

end

/- What the elements declare. -/

/-- The ELF symbol id that a declaration carries. -/
def carried (decl : Element) : List String := (getAttribute decl "elf-symbol-id").toList

/-- The ELF symbol ids of a static data member or a member function. -/
def memberSymbols (child : Element) : List String :=
  if child.name = "data-member" then
    if (readAttribute parseBool child "static" false).toOption = some true then
      child.children.flatMap carried
    else []
  else if child.name = "member-function" then child.children.flatMap carried
  else []

mutual

/-- The ELF symbol ids that the declarations inside a definition carry. -/
def nestedSymbols : Element → List String
  | .mk name attributes children =>
    if (Element.mk name attributes children).IsAggregate then childrenSymbols children else []

def childrenSymbols : List Element → List String
  | [] => []
  | child :: rest => childSymbols child ++ childrenSymbols rest

def childSymbols : Element → List String
  | .mk name attributes children =>
    if name = "member-type" then memberTypeSymbols children
    else memberSymbols (.mk name attributes children)

def memberTypeSymbols : List Element → List String
  | [decl] => nestedSymbols decl
  | _ => []

end

mutual

/-- The ELF symbol ids that the declarations of a scope carry. -/
def scopeSymbols : List Element → List String
  | [] => []
  | element :: rest => elementSymbols element ++ scopeSymbols rest

def elementSymbols : Element → List String
  | .mk name attributes children =>
    match getAttribute (.mk name attributes children) "id" with
    | some _ => nestedSymbols (.mk name attributes children)
    | none =>
      if name = "namespace-decl" then scopeSymbols children
      else carried (.mk name attributes children)

end

def corpusChildTypes (child : Element) : List String :=
  if child.name = "abi-instr" then scopeTypes child.children else []

def corpusChildSymbols (child : Element) : List String :=
  if child.name = "abi-instr" then scopeSymbols child.children else []

/-- The type ids that the children of a corpus define. -/
def corpusTypes : List Element → List String
  | [] => []
  | child :: rest => corpusChildTypes child ++ corpusTypes rest

/-- The ELF symbol ids that the declarations of a corpus carry. -/
def corpusSymbols : List Element → List String
  | [] => []
  | child :: rest => corpusChildSymbols child ++ corpusSymbols rest

/-- Every type id of the corpus is defined by one element, and every ELF symbol id is
carried by at most one declaration. -/
structure Single (corpus : Element) : Prop where
  types : (corpusTypes corpus.children).Nodup
  symbols : (corpusSymbols corpus.children).Nodup

instance (corpus : Element) : Decidable (Single corpus) :=
  decidable_of_iff ((corpusTypes corpus.children).Nodup ∧ (corpusSymbols corpus.children).Nodup)
    ⟨fun both => ⟨both.1, both.2⟩, fun single => ⟨single.types, single.symbols⟩⟩

/- Other orders. -/

/-- The elements of a scope in another order, also inside its namespaces. -/
inductive ScopeReordered : List Element → List Element → Prop where
  | nil : ScopeReordered [] []
  | cons {rest rest' : List Element} (element : Element) (later : ScopeReordered rest rest') :
    ScopeReordered (element :: rest) (element :: rest')
  | inner {inner inner' rest rest' : List Element} (attributes : List (String × String))
      (inside : ScopeReordered inner inner') (later : ScopeReordered rest rest') :
    ScopeReordered (.mk "namespace-decl" attributes inner :: rest)
      (.mk "namespace-decl" attributes inner' :: rest')
  | swap (first second : Element) (rest : List Element) :
    ScopeReordered (first :: second :: rest) (second :: first :: rest)
  | trans {elements elements' elements'' : List Element} (once : ScopeReordered elements elements')
      (again : ScopeReordered elements' elements'') : ScopeReordered elements elements''

/-- The children of a corpus in another order, also inside each of them. -/
inductive ChildrenReordered : List Element → List Element → Prop where
  | nil : ChildrenReordered [] []
  | cons {rest rest' : List Element} (element : Element) (later : ChildrenReordered rest rest') :
    ChildrenReordered (element :: rest) (element :: rest')
  | scope {inner inner' rest rest' : List Element} (attributes : List (String × String))
      (inside : ScopeReordered inner inner') (later : ChildrenReordered rest rest') :
    ChildrenReordered (.mk "abi-instr" attributes inner :: rest)
      (.mk "abi-instr" attributes inner' :: rest')
  | symbols {inner inner' rest rest' : List Element} {name : String}
      (attributes : List (String × String))
      (table : name = "elf-function-symbols" ∨ name = "elf-variable-symbols")
      (inside : inner.Perm inner') (later : ChildrenReordered rest rest') :
    ChildrenReordered (.mk name attributes inner :: rest) (.mk name attributes inner' :: rest')
  | swap (first second : Element) (rest : List Element) :
    ChildrenReordered (first :: second :: rest) (second :: first :: rest)
  | trans {elements elements' elements'' : List Element}
      (once : ChildrenReordered elements elements')
      (again : ChildrenReordered elements' elements'') : ChildrenReordered elements elements''

/-- A corpus with its elements in another order. -/
structure CorpusReordered (corpus corpus' : Element) : Prop where
  name : corpus'.name = corpus.name
  attributes : corpus'.attributes = corpus.attributes
  children : ChildrenReordered corpus.children corpus'.children

/- The same is defined and declared in any order. -/

theorem nestedTypes_plain {element : Element} (plain : ¬ element.IsAggregate) :
    nestedTypes element = [] := by
  cases element
  exact if_neg plain

theorem nestedSymbols_plain {element : Element} (plain : ¬ element.IsAggregate) :
    nestedSymbols element = [] := by
  cases element
  exact if_neg plain

theorem namespace_plain (attributes : List (String × String)) (children : List Element) :
    ¬ (Element.mk "namespace-decl" attributes children).IsAggregate := by
  rintro (class_ | union)
  · exact absurd (show "namespace-decl" = "class-decl" from class_) (by decide)
  · exact absurd (show "namespace-decl" = "union-decl" from union) (by decide)

theorem elementTypes_namespace (attributes : List (String × String)) (children : List Element) :
    elementTypes (.mk "namespace-decl" attributes children) =
      ((attributes.lookup "id").map fun typeId => [typeId]).getD (scopeTypes children) := by
  unfold elementTypes getAttribute
  rw [nestedTypes_plain (namespace_plain attributes children)]
  dsimp only [Element.attributes]
  cases attributes.lookup "id" <;> rfl

theorem elementSymbols_namespace (attributes : List (String × String)) (children : List Element) :
    elementSymbols (.mk "namespace-decl" attributes children) =
      ((attributes.lookup "id").map fun _ => []).getD (scopeSymbols children) := by
  unfold elementSymbols getAttribute
  rw [nestedSymbols_plain (namespace_plain attributes children)]
  dsimp only [Element.attributes]
  cases attributes.lookup "id" <;> rfl

theorem elementTypes_perm {children children' : List Element} (attributes : List (String × String))
    (perm : (scopeTypes children).Perm (scopeTypes children')) :
    (elementTypes (.mk "namespace-decl" attributes children)).Perm
      (elementTypes (.mk "namespace-decl" attributes children')) := by
  rw [elementTypes_namespace, elementTypes_namespace]
  cases attributes.lookup "id" with
  | some typeId => exact .refl _
  | none => exact perm

theorem elementSymbols_perm {children children' : List Element}
    (attributes : List (String × String))
    (perm : (scopeSymbols children).Perm (scopeSymbols children')) :
    (elementSymbols (.mk "namespace-decl" attributes children)).Perm
      (elementSymbols (.mk "namespace-decl" attributes children')) := by
  rw [elementSymbols_namespace, elementSymbols_namespace]
  cases attributes.lookup "id" with
  | some typeId => exact .refl _
  | none => exact perm

/-- Two parts at the front change places. -/
theorem perm_swap_parts {α : Type} (first second rest : List α) :
    (first ++ (second ++ rest)).Perm (second ++ (first ++ rest)) := by
  rw [← List.append_assoc, ← List.append_assoc]
  exact List.perm_append_comm.append_right rest

theorem ScopeReordered.types {elements elements' : List Element}
    (reordered : ScopeReordered elements elements') :
    (scopeTypes elements).Perm (scopeTypes elements') := by
  induction reordered with
  | nil => exact .refl _
  | cons element _ ih => exact ih.append_left (elementTypes element)
  | inner attributes _ _ inside later => exact (elementTypes_perm attributes inside).append later
  | swap first second rest => exact perm_swap_parts _ _ _
  | trans _ _ once again => exact once.trans again

theorem ScopeReordered.symbols {elements elements' : List Element}
    (reordered : ScopeReordered elements elements') :
    (scopeSymbols elements).Perm (scopeSymbols elements') := by
  induction reordered with
  | nil => exact .refl _
  | cons element _ ih => exact ih.append_left (elementSymbols element)
  | inner attributes _ _ inside later => exact (elementSymbols_perm attributes inside).append later
  | swap first second rest => exact perm_swap_parts _ _ _
  | trans _ _ once again => exact once.trans again

theorem table_not_scope {name : String}
    (table : name = "elf-function-symbols" ∨ name = "elf-variable-symbols") :
    name ≠ "abi-instr" := by
  rcases table with rfl | rfl
  · decide
  · decide

/-- A table of symbols defines no types and has no declarations. -/
theorem corpusChild_table {name : String} (attributes : List (String × String))
    (children : List Element)
    (table : name = "elf-function-symbols" ∨ name = "elf-variable-symbols") :
    corpusChildTypes (.mk name attributes children) = [] ∧
      corpusChildSymbols (.mk name attributes children) = [] := by
  have other := table_not_scope table
  exact ⟨if_neg other, if_neg other⟩

theorem ChildrenReordered.types {elements elements' : List Element}
    (reordered : ChildrenReordered elements elements') :
    (corpusTypes elements).Perm (corpusTypes elements') := by
  induction reordered with
  | nil => exact .refl _
  | cons element _ ih => exact ih.append_left _
  | scope attributes inside _ ih => exact inside.types.append ih
  | symbols attributes table _ _ ih =>
    unfold corpusTypes
    rw [(corpusChild_table _ _ table).1, (corpusChild_table _ _ table).1]
    exact ih
  | swap first second rest => exact perm_swap_parts _ _ _
  | trans _ _ once again => exact once.trans again

theorem ChildrenReordered.declarations {elements elements' : List Element}
    (reordered : ChildrenReordered elements elements') :
    (corpusSymbols elements).Perm (corpusSymbols elements') := by
  induction reordered with
  | nil => exact .refl _
  | cons element _ ih => exact ih.append_left _
  | scope attributes inside _ ih => exact inside.symbols.append ih
  | symbols attributes table _ _ ih =>
    unfold corpusSymbols
    rw [(corpusChild_table _ _ table).2, (corpusChild_table _ _ table).2]
    exact ih
  | swap first second rest => exact perm_swap_parts _ _ _
  | trans _ _ once again => exact once.trans again

end Stg.AbiXml
