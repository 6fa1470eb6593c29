import Stg.Plan
import Mathlib.Data.List.Forall2

set_option autoImplicit false

/- More fuel never changes what a walk returns. -/
namespace Stg

/-- The second computation returns at least where the first does, and the same. -/
def Yields {α : Type} (first second : Except Error α) : Prop :=
  ∀ value, first = .ok value → second = .ok value

section

variable {α β : Type}

theorem Yields.refl (call : Except Error α) : Yields call call := fun _ returned => returned

theorem Yields.error (reason : Error) (call : Except Error α) : Yields (.error reason) call :=
  fun _ returned => by cases returned

theorem Yields.bind {first second : Except Error α} {rest rest' : α → Except Error β}
    (calls : Yields first second) (rests : ∀ value, Yields (rest value) (rest' value)) :
    Yields (first >>= rest) (second >>= rest') := by
  intro value returned
  obtain ⟨middle, found, returned⟩ := bind_eq_ok returned
  rw [calls middle found]
  exact rests middle value returned

theorem Yields.agree {first second : Except Error α} (calls : Yields first second)
    {value value' : α} (returned : first = .ok value) (returned' : second = .ok value') :
    value = value' := by
  rw [calls value returned] at returned'
  exact Except.ok.inj returned'

/-- Two fuels at which a walk returns give the same value. -/
theorem agree_of_yields {walk : Nat → Except Error α}
    (grows : ∀ fuel fuel', fuel ≤ fuel' → Yields (walk fuel) (walk fuel')) {fuel fuel' : Nat}
    {value value' : α} (returned : walk fuel = .ok value) (returned' : walk fuel' = .ok value') :
    value = value' := by
  rcases Nat.le_total fuel fuel' with less | less
  · exact (grows _ _ less).agree returned returned'
  · exact ((grows _ _ less).agree returned' returned).symm

/-- The first computation runs out of fuel or does what the second does. -/
def Lags (first second : Except Error α) : Prop :=
  first = .error .outOfFuel ∨ first = second

theorem Lags.refl (call : Except Error α) : Lags call call := .inr rfl

theorem Lags.spent (call : Except Error α) : Lags (.error .outOfFuel) call := .inl rfl

theorem Lags.bind {first second : Except Error α} {rest rest' : α → Except Error β}
    (calls : Lags first second) (rests : ∀ value, Lags (rest value) (rest' value)) :
    Lags (first >>= rest) (second >>= rest') := by
  rcases calls with rfl | rfl
  · exact .inl rfl
  · cases first with
    | error reason => exact .inr rfl
    | ok value => exact rests value

theorem Lags.yields {first second : Except Error α} (lags : Lags first second) :
    Yields first second := by
  rcases lags with rfl | rfl
  · exact Yields.error _ _
  · exact Yields.refl _

end

variable {graph : Graph} {options : CompareOptions} {fuel fuel' : Nat}

theorem resolveQualifiers_lags (enough : fuel ≤ fuel') (id : Id) (qualifiers : Qualifiers) :
    Lags (resolveQualifiers graph fuel id qualifiers)
      (resolveQualifiers graph fuel' id qualifiers) := by
  induction fuel generalizing fuel' id qualifiers with
  | zero => exact Lags.spent _
  | succ fuel ih =>
    obtain ⟨fuel', rfl⟩ : ∃ more, fuel' = more + 1 := ⟨fuel' - 1, by omega⟩
    refine Lags.bind (Lags.refl _) fun node => ?_
    split
    · exact ih (by omega) _ _
    · exact Lags.refl _

theorem resolveQualifiers_yields (enough : fuel ≤ fuel') (id : Id) (qualifiers : Qualifiers) :
    Yields (resolveQualifiers graph fuel id qualifiers)
      (resolveQualifiers graph fuel' id qualifiers) :=
  (resolveQualifiers_lags enough id qualifiers).yields

theorem resolveTypedefs_lags (enough : fuel ≤ fuel') (id : Id) (typedefs : List String) :
    Lags (resolveTypedefs graph fuel id typedefs) (resolveTypedefs graph fuel' id typedefs) := by
  induction fuel generalizing fuel' id typedefs with
  | zero => exact Lags.spent _
  | succ fuel ih =>
    obtain ⟨fuel', rfl⟩ : ∃ more, fuel' = more + 1 := ⟨fuel' - 1, by omega⟩
    refine Lags.bind (Lags.refl _) fun node => ?_
    split
    · exact ih (by omega) _ _
    · exact Lags.refl _

theorem resolveTypedefs_yields (enough : fuel ≤ fuel') (id : Id) (typedefs : List String) :
    Yields (resolveTypedefs graph fuel id typedefs) (resolveTypedefs graph fuel' id typedefs) :=
  (resolveTypedefs_lags enough id typedefs).yields

theorem firstKey_lags {key key' : Id → Except Error String}
    (keys : ∀ id, Lags (key id) (key' id)) (members : List Id) :
    Lags (firstKey key members) (firstKey key' members) := by
  induction members with
  | nil => exact Lags.refl _
  | cons member _ ih =>
    refine Lags.bind (keys member) fun recursive => ?_
    split
    · exact Lags.refl _
    · exact ih

theorem firstKey_yields {key key' : Id → Except Error String} {members members' : List Id}
    (keys : List.Forall₂ (fun id id' => Yields (key id) (key' id')) members members') :
    Yields (firstKey key members) (firstKey key' members') := by
  induction keys with
  | nil => exact Yields.refl _
  | cons own _ ih =>
    refine Yields.bind own fun recursive => ?_
    split
    · exact Yields.refl _
    · exact ih

theorem matchingKey_lags (enough : fuel ≤ fuel') (id : Id) :
    Lags (matchingKey graph fuel id) (matchingKey graph fuel' id) := by
  induction fuel generalizing fuel' id with
  | zero => exact Lags.spent _
  | succ fuel ih =>
    obtain ⟨fuel', rfl⟩ : ∃ more, fuel' = more + 1 := ⟨fuel' - 1, by omega⟩
    have deeper : ∀ id, Lags (matchingKey graph fuel id) (matchingKey graph fuel' id) :=
      fun id => ih (by omega) id
    refine Lags.bind (Lags.refl _) fun node => ?_
    cases node with
    | baseClass node => exact deeper _
    | member node =>
      dsimp only
      split
      · exact Lags.refl _
      · exact deeper _
    | structUnion node =>
      dsimp only
      split
      · exact Lags.refl _
      · split
        · exact firstKey_lags deeper _
        · exact Lags.refl _
    | _ => exact Lags.refl _

theorem matchingKey_yields (enough : fuel ≤ fuel') (id : Id) :
    Yields (matchingKey graph fuel id) (matchingKey graph fuel' id) :=
  (matchingKey_lags enough id).yields

theorem indexKeys_yields {key key' : Id → Except Error String} {nodes nodes' : List Id}
    (keys : List.Forall₂ (fun id id' => Yields (key id) (key' id')) nodes nodes')
    (ix anonymousIx : Nat) :
    Yields (indexKeys key ix anonymousIx nodes) (indexKeys key' ix anonymousIx nodes') := by
  induction keys generalizing ix anonymousIx with
  | nil => exact Yields.refl _
  | cons own _ ih =>
    refine Yields.bind own fun own => ?_
    split
    · exact Yields.bind (ih _ _) fun _ => Yields.refl _
    · exact Yields.bind (ih _ _) fun _ => Yields.refl _

theorem matchingKeys_yields (enough : fuel ≤ fuel') (nodes : List Id) :
    Yields (matchingKeys graph fuel nodes) (matchingKeys graph fuel' nodes) :=
  Yields.bind (indexKeys_yields (List.forall₂_same.mpr fun id _ =>
    matchingKey_yields enough id) 0 0)
    fun _ => Yields.refl _

theorem nodeSteps_yields (enough : fuel ≤ fuel') (nodes1 nodes2 : List Id) (reordered : Bool) :
    Yields (nodeSteps graph fuel nodes1 nodes2 reordered)
      (nodeSteps graph fuel' nodes1 nodes2 reordered) :=
  Yields.bind (matchingKeys_yields enough nodes1) fun _ =>
    Yields.bind (matchingKeys_yields enough nodes2) fun _ => Yields.refl _

theorem StructUnion.plan_yields (enough : fuel ≤ fuel') (self other : StructUnion) :
    Yields (self.plan graph options fuel other) (self.plan graph options fuel' other) := by
  unfold StructUnion.plan
  split
  · exact Yields.refl _
  split
  · exact Yields.bind (nodeSteps_yields enough _ _ _) fun _ =>
      Yields.bind (nodeSteps_yields enough _ _ _) fun _ =>
        Yields.bind (nodeSteps_yields enough _ _ _) fun _ => Yields.refl _
  · exact Yields.refl _

theorem Node.plan_yields (enough : fuel ≤ fuel') (self other : Node) :
    Yields (self.plan graph options fuel other) (self.plan graph options fuel' other) := by
  unfold Node.plan
  split
  case h_11 => exact StructUnion.plan_yields enough _ _
  all_goals exact Yields.refl _

theorem planOf_yields (enough : fuel ≤ fuel') (node1 node2 : Id) :
    Yields (planOf graph options fuel node1 node2) (planOf graph options fuel' node1 node2) := by
  refine Yields.bind (resolveQualifiers_yields enough _ _) fun ⟨unqualified1, qualifiers1⟩ => ?_
  refine Yields.bind (resolveQualifiers_yields enough _ _) fun ⟨unqualified2, qualifiers2⟩ => ?_
  dsimp only
  split
  · exact Yields.refl _
  refine Yields.bind (resolveTypedefs_yields enough _ _) fun ⟨resolved1, typedefs1⟩ => ?_
  refine Yields.bind (resolveTypedefs_yields enough _ _) fun ⟨resolved2, typedefs2⟩ => ?_
  dsimp only
  split
  · exact Yields.refl _
  refine Yields.bind (Yields.refl _) fun type1 => Yields.bind (Yields.refl _) fun type2 => ?_
  split
  · exact Yields.refl _
  · exact Node.plan_yields enough _ _

/-- The plan of a comparison, with whatever fuel it takes to find it. -/
def Plans (graph : Graph) (options : CompareOptions) (comparison : Comparison) (plan : Plan) :
    Prop :=
  ∃ node1 node2 fuel, comparison = (some node1, some node2) ∧
    planOf graph options fuel node1 node2 = .ok plan

theorem Plans.unique {comparison : Comparison} {plan plan' : Plan}
    (plans : Plans graph options comparison plan) (plans' : Plans graph options comparison plan') :
    plan = plan' := by
  obtain ⟨node1, node2, fuel, rfl, planned⟩ := plans
  obtain ⟨_, _, fuel', same, planned'⟩ := plans'
  cases same
  exact agree_of_yields (fun _ _ enough => planOf_yields enough node1 node2) planned planned'

end Stg
