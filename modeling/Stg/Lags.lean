import Stg.Reporting
import Stg.Fuel

set_option autoImplicit false

/- With less fuel a name is the same, or there is none: naming runs out of fuel, but it
never fails in another way. -/
namespace Stg

variable {α β : Type} {graph : Graph} {fuel fuel' : Nat}

/-- From every cache the first call runs out of fuel or does what the second does. -/
def NameM.Lags (first second : NameM α) : Prop := ∀ names, Stg.Lags (first.run names) (second.run names)

theorem NameM.Lags.refl (call : NameM α) : NameM.Lags call call := fun _ => Stg.Lags.refl _

theorem NameM.Lags.bind {first second : NameM α} {rest rest' : α → NameM β}
    (calls : NameM.Lags first second) (rests : ∀ value, NameM.Lags (rest value) (rest' value)) :
    NameM.Lags (first >>= rest) (second >>= rest') := fun names =>
  Stg.Lags.bind (calls names) fun out => rests out.1 out.2

theorem NameM.Lags.ofExcept {first second : Except Error α} (lags : Stg.Lags first second) :
    NameM.Lags (Stg.ofExcept first) (Stg.ofExcept second) := by
  rcases lags with rfl | rfl
  · exact fun _ => .inl rfl
  · exact NameM.Lags.refl _

section Describe

variable {describe describe' : Id → NameM Name}
  (describes : ∀ id, NameM.Lags (describe id) (describe' id))

include describes

theorem describeAll_lags (before after : String) (ids : List Id) :
    NameM.Lags (describeAll describe before after ids)
      (describeAll describe' before after ids) := by
  induction ids with
  | nil => exact NameM.Lags.refl _
  | cons id ids ih =>
    exact NameM.Lags.bind (describes id) fun _ => NameM.Lags.bind ih fun _ => NameM.Lags.refl _

theorem describeParameters_lags (ids : List Id) :
    NameM.Lags (describeParameters describe ids) (describeParameters describe' ids) := by
  cases ids with
  | nil => exact NameM.Lags.refl _
  | cons first others =>
    exact NameM.Lags.bind (describes first) fun _ =>
      NameM.Lags.bind (describeAll_lags describes _ _ others) fun _ => NameM.Lags.refl _

theorem StructUnion.makeDescription_lags (self : StructUnion) :
    NameM.Lags (self.makeDescription describe) (self.makeDescription describe') := by
  refine NameM.Lags.bind ?_ fun _ => NameM.Lags.refl _
  unfold StructUnion.describeBody
  split
  · exact NameM.Lags.refl _
  · split
    · exact NameM.Lags.bind (describeAll_lags describes _ _ _) fun _ => NameM.Lags.refl _
    · exact NameM.Lags.refl _

theorem Node.makeDescription_lags (enough : fuel ≤ fuel') (node : Node) :
    NameM.Lags (node.makeDescription graph fuel describe)
      (node.makeDescription graph fuel' describe') := by
  cases node with
  | pointerReference node =>
    exact NameM.Lags.bind (describes _) fun _ => NameM.Lags.refl _
  | qualified node =>
    refine NameM.Lags.bind (NameM.Lags.ofExcept (resolveQualifiers_lags enough _ _)) fun _ => ?_
    exact NameM.Lags.bind (describes _) fun _ => NameM.Lags.refl _
  | array node => exact NameM.Lags.bind (describes _) fun _ => NameM.Lags.refl _
  | baseClass node =>
    exact NameM.Lags.bind (NameM.Lags.ofExcept (matchingKey_lags enough _)) fun _ =>
      NameM.Lags.refl _
  | member node => exact NameM.Lags.bind (describes _) fun _ => NameM.Lags.refl _
  | structUnion node => exact StructUnion.makeDescription_lags describes node
  | function node =>
    refine NameM.Lags.bind (describeParameters_lags describes _) fun _ => ?_
    exact NameM.Lags.bind (describes _) fun _ => NameM.Lags.refl _
  | elfSymbol node =>
    unfold Node.makeDescription
    dsimp only
    split
    · exact NameM.Lags.bind (describes _) fun _ => NameM.Lags.refl _
    · exact NameM.Lags.refl _
  | _ => exact NameM.Lags.refl _

end Describe

theorem getDescription_lags (enough : fuel ≤ fuel') (id : Id) :
    NameM.Lags (getDescription graph fuel id) (getDescription graph fuel' id) := by
  induction fuel generalizing fuel' id with
  | zero => exact fun _ => Stg.Lags.spent _
  | succ fuel ih =>
    obtain ⟨fuel', rfl⟩ : ∃ more, fuel' = more + 1 := ⟨fuel' - 1, by omega⟩
    refine NameM.Lags.bind (NameM.Lags.refl _) fun names => ?_
    split
    · exact NameM.Lags.refl _
    · refine NameM.Lags.bind (NameM.Lags.refl _) fun _ => ?_
      refine NameM.Lags.bind (NameM.Lags.refl _) fun node => ?_
      have deeper : ∀ id, NameM.Lags (getDescription graph fuel id)
          (getDescription graph fuel' id) :=
        fun id => ih (by omega) id
      refine NameM.Lags.bind (Node.makeDescription_lags deeper (by omega) node) fun _ => ?_
      exact NameM.Lags.refl _

theorem getResolvedDescription_lags (enough : fuel ≤ fuel') (id : Id) :
    NameM.Lags (getResolvedDescription graph fuel id) (getResolvedDescription graph fuel' id) := by
  refine NameM.Lags.bind (NameM.Lags.ofExcept (resolveTypedefs_lags enough _ _)) fun _ => ?_
  exact NameM.Lags.bind (getDescription_lags enough _) fun _ => NameM.Lags.refl _

theorem printComparison_lags (enough : fuel ≤ fuel') (c : Comparison) :
    NameM.Lags (printComparison graph fuel c) (printComparison graph fuel' c) := by
  rcases c with ⟨_ | id1, _ | id2⟩
  · exact NameM.Lags.refl _
  · refine NameM.Lags.bind (NameM.Lags.refl _) fun _ => ?_
    exact NameM.Lags.bind (getDescription_lags enough _) fun _ => NameM.Lags.refl _
  · refine NameM.Lags.bind (NameM.Lags.refl _) fun _ => ?_
    exact NameM.Lags.bind (getDescription_lags enough _) fun _ => NameM.Lags.refl _
  · refine NameM.Lags.bind (NameM.Lags.refl _) fun _ => ?_
    refine NameM.Lags.bind (getResolvedDescription_lags enough _) fun _ => ?_
    exact NameM.Lags.bind (getResolvedDescription_lags enough _) fun _ => NameM.Lags.refl _

end Stg
