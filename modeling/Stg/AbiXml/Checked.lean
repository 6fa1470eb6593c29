import Stg.AbiXml.Reader

set_option autoImplicit false

/- What the reader takes from elements fails only where it checks or dies. -/
namespace Stg

/-- The failure is an `stg::Exception`. -/
def Error.IsException (reason : Error) : Prop := ∃ message, reason = .exception message

/-- The call returns or throws an `stg::Exception`. -/
class Checked {α : Type} (call : Except Error α) : Prop where
  exception : ∀ reason, call = .error reason → reason.IsException

namespace Checked

variable {α β : Type}

instance ok (value : α) : Checked (.ok value) := ⟨nofun⟩

instance pure (value : α) : Checked (Pure.pure value) := ok value

instance die (message : String) : Checked (Stg.die message : Except Error α) where
  exception := by
    rintro _ ⟨⟩
    exact ⟨message, rfl⟩

/-- A sequence fails in one of its parts. -/
instance bind {call : Except Error α} {rest : α → Except Error β} [first : Checked call]
    [second : ∀ value, Checked (rest value)] : Checked (call >>= rest) where
  exception := by
    intro reason failed
    cases ran : call with
    | error reason' =>
      rw [ran] at failed
      cases failed
      exact first.exception _ ran
    | ok value =>
      rw [ran] at failed
      exact (second value).exception _ failed

instance map {call : Except Error α} {f : α → β} [checked : Checked call] :
    Checked (call.map f) where
  exception := by
    intro reason failed
    cases ran : call with
    | error reason' =>
      rw [ran] at failed
      cases failed
      exact checked.exception _ ran
    | ok value =>
      rw [ran] at failed
      cases failed

instance ite {condition : Prop} [Decidable condition] {call call' : Except Error α}
    [yes : Checked call] [no : Checked call'] : Checked (if condition then call else call') := by
  split
  · exact yes
  · exact no

instance check (ok : Bool) (message : String) : Checked (Stg.check ok message) := by
  unfold Stg.check
  split
  · exact pure ()
  · exact die message

end Checked

namespace AbiXml

/- Attributes. -/

instance checkElementName_checked (name : String) (element : Element) :
    Checked (checkElementName name element) := by
  unfold checkElementName
  infer_instance

instance getOnlyChild_checked (name : String) (element : Element) :
    Checked (getOnlyChild name element) := by
  unfold getOnlyChild
  split <;> infer_instance

instance getAttributeOrDie_checked (element : Element) (name : String) :
    Checked (getAttributeOrDie element name) := by
  unfold getAttributeOrDie
  split <;> infer_instance

section

variable {α : Type} (parse : String → Option α) (element : Element) (name : String)

instance getParsedValueOrDie_checked (value : String) :
    Checked (getParsedValueOrDie parse element name value) := by
  unfold getParsedValueOrDie
  split <;> infer_instance

instance readAttributeOrDie_checked : Checked (readAttributeOrDie parse element name) := by
  unfold readAttributeOrDie
  infer_instance

instance readAttribute?_checked : Checked (readAttribute? parse element name) := by
  unfold readAttribute?
  split <;> infer_instance

instance readAttribute_checked (defaultValue : α) :
    Checked (readAttribute parse element name defaultValue) := by
  unfold readAttribute
  split <;> infer_instance

end

/- Elements. -/

instance readSymbol_checked (symbol : Element) : Checked (readSymbol symbol) := by
  unfold readSymbol
  infer_instance

instance readPointerKind_checked (isPointer : Bool) (pointer : Element) :
    Checked (readPointerKind isPointer pointer) := by
  unfold readPointerKind
  infer_instance

instance readQualifiers_checked (qualified : Element) : Checked (readQualifiers qualified) := by
  unfold readQualifiers
  infer_instance

instance readDimensions_checked (elements : List Element) : Checked (readDimensions elements) := by
  induction elements with
  | nil => exact Checked.pure []
  | cons child rest ih =>
    unfold readDimensions
    infer_instance

instance readTypeDecl_checked (scopeName : String) (typeDecl : Element) :
    Checked (readTypeDecl scopeName typeDecl) := by
  unfold readTypeDecl
  infer_instance

instance readEnumerators_checked (elements : List Element) : Checked (readEnumerators elements) := by
  induction elements with
  | nil => exact Checked.pure []
  | cons enumerator rest ih =>
    unfold readEnumerators
    infer_instance

instance readEnum_checked (scopeName : String) (enumeration : Element) :
    Checked (readEnum scopeName enumeration) := by
  unfold readEnum
  infer_instance

instance readMemberOffset_checked (isStruct : Bool) (dataMember : Element) :
    Checked (readMemberOffset isStruct dataMember) := by
  unfold readMemberOffset
  infer_instance

instance readMethodKind_checked (method : Element) : Checked (readMethodKind method) := by
  unfold readMethodKind
  refine @Checked.bind _ _ _ _ _ fun vtableOffset => ?_
  split <;> infer_instance

instance readStructUnionKind_checked (isStruct : Bool) (structUnion : Element) :
    Checked (readStructUnionKind isStruct structUnion) := by
  unfold readStructUnionKind
  infer_instance

instance readStructUnion_checked (isStruct : Bool) (structUnion : Element) :
    Checked (readStructUnion isStruct structUnion) := by
  unfold readStructUnion
  infer_instance

instance readElfSymbol_checked (info : SymbolInfo) (typeId : Option Id) (name : Option String) :
    Checked (readElfSymbol info typeId name) := by
  unfold readElfSymbol
  infer_instance

end AbiXml

end Stg
