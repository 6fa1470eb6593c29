import Stg.AbiXml.Placing
import Stg.AbiXml.Reads
import Stg.AbiXml.Reordering

set_option autoImplicit false

/- What has been said before matters to an element only where the element itself has
something to say. -/
namespace Stg.AbiXml

/-- Something that can have been said: the definition of a type, the parts of an owner
or a declaration for an ELF symbol id. -/
inductive Resource where
  | type (typeId : String)
  | parts (owner : Owner)
  | symbol (symbolId : String)

namespace Meaning

theorem nextPart_append (owner : Owner) (before after : List Address) :
    nextPart owner (before ++ after) = max (nextPart owner before) (nextPart owner after) := by
  unfold nextPart
  rw [List.map_append, List.foldr_append]
  generalize (after.map (partEnd owner)).foldr max 0 = last
  induction before with
  | nil => simp
  | cons address before ih =>
    rw [List.map_cons, List.foldr_cons, List.foldr_cons, ih, max_assoc]

theorem nextPart_perm (owner : Owner) {addresses addresses' : List Address}
    (perm : addresses.Perm addresses') : nextPart owner addresses = nextPart owner addresses' := by
  unfold nextPart
  exact (perm.map _).foldr_op_eq

/-- Nothing but its parts counts for an owner. -/
theorem nextPart_absent {owner : Owner} {addresses : List Address}
    (absent : ∀ role index, .part role owner index ∉ addresses) : nextPart owner addresses = 0 := by
  induction addresses with
  | nil => rfl
  | cons address addresses ih =>
    have rest := ih fun role index among => absent role index (List.mem_cons_of_mem _ among)
    have first : partEnd owner address = 0 := by
      cases address with
      | type => rfl
      | variadic => rfl
      | part role other index =>
        apply if_neg
        rintro rfl
        exact absent role index List.mem_cons_self
    change max (partEnd owner address) (nextPart owner addresses) = 0
    rw [first, rest]
    rfl

end Meaning

namespace Contents

/-- There is at most one declaration for each symbol. -/
def DeclaresOnce (contents : Contents) : Prop := (contents.declarations.map (·.1)).Nodup

/-- The same has been said of these. -/
structure Agree (these : Resource → Prop) (said said' : Contents) : Prop where
  types : ∀ typeId, these (.type typeId) →
    (Address.type typeId ∈ said.addresses ↔ Address.type typeId ∈ said'.addresses)
  parts : ∀ owner, these (.parts owner) →
    Meaning.nextPart owner said.addresses = Meaning.nextPart owner said'.addresses
  symbols : ∀ symbolId, these (.symbol symbolId) →
    said.declarations.lookup symbolId = said'.declarations.lookup symbolId

/-- Nothing is said but of these. -/
structure Within (these : Resource → Prop) (more : Contents) : Prop where
  types : ∀ typeId, Address.type typeId ∈ more.addresses → these (.type typeId)
  parts : ∀ role owner index, Address.part role owner index ∈ more.addresses →
    these (.parts owner)
  symbols : ∀ declaration ∈ more.declarations, these (.symbol declaration.1)

variable {these those : Resource → Prop} {said said' more first later : Contents}

theorem Agree.mono (agree : Agree those said said')
    (fewer : ∀ resource, these resource → those resource) :
    Agree these said said' where
  types typeId among := agree.types typeId (fewer _ among)
  parts owner among := agree.parts owner (fewer _ among)
  symbols symbolId among := agree.symbols symbolId (fewer _ among)

theorem Agree.append (agree : Agree these said said') (more : Contents) :
    Agree these (said ++ more) (said' ++ more) where
  types typeId among := by
    rw [addresses_append, addresses_append, List.mem_append, List.mem_append,
      agree.types typeId among]
  parts owner among := by
    rw [addresses_append, addresses_append, Meaning.nextPart_append, Meaning.nextPart_append,
      agree.parts owner among]
  symbols symbolId among := by
    rw [declarations_append, declarations_append, List.lookup_append, List.lookup_append,
      agree.symbols symbolId among]

/-- What is said of others makes no difference. -/
theorem Within.agree (within : Within those more)
    (apart : ∀ resource, those resource → ¬ these resource) : Agree these (said ++ more) said where
  types typeId among := by
    rw [addresses_append, List.mem_append]
    constructor
    · rintro (before | own)
      · exact before
      · exact absurd among (apart _ (within.types typeId own))
    · exact .inl
  parts owner among := by
    have none : Meaning.nextPart owner more.addresses = 0 := by
      apply Meaning.nextPart_absent
      intro role index own
      exact apart _ (within.parts role owner index own) among
    rw [addresses_append, Meaning.nextPart_append, none, Nat.max_zero]
  symbols symbolId among := by
    have absent : more.declarations.lookup symbolId = none := by
      apply List.lookup_eq_none_iff.mpr
      intro declaration own
      apply bne_iff_ne.mpr
      rintro rfl
      exact apart _ (within.symbols declaration own) among
    rw [declarations_append, List.lookup_append, absent, Option.or_none]

theorem Within.mono (within : Within these more)
    (fewer : ∀ resource, these resource → those resource) :
    Within those more where
  types typeId among := fewer _ (within.types typeId among)
  parts role owner index among := fewer _ (within.parts role owner index among)
  symbols declaration among := fewer _ (within.symbols declaration among)

theorem Within.append (one : Within these first) (two : Within these later) :
    Within these (first ++ later) where
  types typeId among := by
    rw [addresses_append] at among
    exact (List.mem_append.mp among).elim (one.types typeId) (two.types typeId)
  parts role owner index among := by
    rw [addresses_append] at among
    exact (List.mem_append.mp among).elim (one.parts role owner index) (two.parts role owner index)
  symbols declaration among :=
    (List.mem_append.mp among).elim (one.symbols declaration) (two.symbols declaration)

theorem DeclaresOnce.silent (once : said.DeclaresOnce) (declarations : more.declarations = []) :
    (said ++ more).DeclaresOnce := by
  unfold DeclaresOnce
  rw [declarations_append, declarations, List.append_nil]
  exact once

/-- What only mentions is within anything. -/
theorem Within.silent (entries : more.entries = []) (declarations : more.declarations = []) :
    Within these more where
  types typeId among := by
    rw [addresses, entries] at among
    cases among
  parts role owner index among := by
    rw [addresses, entries] at among
    cases among
  symbols declaration among := by
    rw [declarations] at among
    cases among

end Contents

open Contents (Agree Within)

/-- What has been said of other things than it `reads` makes no difference to the
meaning, and it says nothing but of what it `writes`. No symbol is declared twice. -/
structure Local (reads writes : Resource → Prop) {β : Type} (meaning : Meaning β) : Prop where
  same : ∀ said said', Agree reads said said' → meaning said = meaning said'
  within : ∀ said value more, meaning said = .ok (value, more) → Within writes more
  once : ∀ said value more, meaning said = .ok (value, more) →
    said.DeclaresOnce → (said ++ more).DeclaresOnce

namespace Local

variable {β δ : Type} {reads reads' writes writes' : Resource → Prop} {meaning meaning' : Meaning β}
  {rest : β → Meaning δ}

theorem mono (near : Local reads writes meaning)
    (more : ∀ resource, reads resource → reads' resource)
    (more' : ∀ resource, writes resource → writes' resource) : Local reads' writes' meaning where
  same said said' agree := near.same said said' (agree.mono more)
  within said value more means := (near.within said value more means).mono more'
  once := near.once

/-- What depends on nothing and only mentions is local. -/
theorem silent {meaning : Meaning β} (same : ∀ said said', meaning said = meaning said')
    (entries : ∀ said value more, meaning said = .ok (value, more) → more.entries = [])
    (declarations : ∀ said value more, meaning said = .ok (value, more) → more.declarations = []) :
    Local reads writes meaning where
  same said said' _ := same said said'
  within said value more means :=
    .silent (entries said value more means) (declarations said value more means)
  once said value more means once := once.silent (declarations said value more means)

theorem pure (value : β) : Local reads writes (Pure.pure value) := by
  apply silent (fun _ _ => rfl)
  · intro said value' more means
    cases means
    rfl
  · intro said value' more means
    cases means
    rfl

theorem throw (reason : Error) : Local reads writes (MonadExcept.throw reason : Meaning β) :=
  silent (fun _ _ => rfl) (fun _ _ _ => nofun) (fun _ _ _ => nofun)

theorem bind (first : Local reads writes meaning)
    (second : ∀ value, Local reads writes (rest value)) :
    Local reads writes (meaning >>= rest) where
  same said said' agree := by
    change Meaning.andThen meaning rest said = Meaning.andThen meaning rest said'
    unfold Meaning.andThen
    rw [first.same said said' agree]
    cases meaning said' with
    | error reason => rfl
    | ok result =>
      dsimp only
      rw [(second result.1).same _ _ (agree.append result.2)]
  within said value more means := by
    obtain ⟨middle, one, two, meansOne, meansTwo, all⟩ := Meaning.ok_of_bind means
    cases all
    exact (first.within said middle one meansOne).append
      ((second middle).within (said ++ one) value two meansTwo)
  once said value more means once := by
    obtain ⟨middle, one, two, meansOne, meansTwo, all⟩ := Meaning.ok_of_bind means
    cases all
    have later := (second middle).once (said ++ one) value two meansTwo
      (first.once said middle one meansOne once)
    rwa [Contents.append_assoc] at later

theorem ite {condition : Prop} [Decidable condition] (yes : condition → Local reads writes meaning)
    (no : ¬ condition → Local reads writes meaning') :
    Local reads writes (if condition then meaning else meaning') := by
  by_cases holds : condition
  · rw [if_pos holds]
    exact yes holds
  · rw [if_neg holds]
    exact no holds

theorem ofExcept (result : Except Error β) : Local reads writes (Stg.ofExcept result) := by
  cases result with
  | ok value => exact pure value
  | error reason => exact throw reason

/-- The rest need only be local for the value that there is. -/
theorem ofExcept_bind {result : Except Error β}
    (second : ∀ value, result = .ok value → Local reads writes (rest value)) :
    Local reads writes (Stg.ofExcept result >>= rest) := by
  cases result with
  | ok value =>
    rw [ofExcept_ok, pure_bind]
    exact second value rfl
  | error reason => exact throw reason

theorem check (ok : Bool) (message : String) :
    Local reads writes (Stg.check ok message : Meaning Unit) := by
  cases ok with
  | true => exact pure ()
  | false => exact throw _

theorem die (message : String) : Local reads writes (Stg.die message : Meaning β) := throw _

theorem mentioning (mentions : Mentions β) : Local reads writes (Meaning.mentioning mentions) := by
  unfold Meaning.mentioning
  apply silent (fun _ _ => rfl)
  · intro said value more means
    cases mentions with
    | error reason => cases means
    | ok result =>
      cases means
      rfl
  · intro said value more means
    cases mentions with
    | error reason => cases means
    | ok result =>
      cases means
      rfl

theorem unlinked (content : Content) : Local reads writes (Meaning.unlinked content) := by
  apply silent (fun _ _ => rfl)
  · intro said value more means
    cases means
    rfl
  · intro said value more means
    cases means
    rfl

variable {typeId : String}

theorem define (content : Content) (among : reads (.type typeId)) (own : writes (.type typeId)) :
    Local reads writes (Meaning.define (.type typeId) content) where
  same said said' agree := by
    unfold Meaning.define
    simp only [agree.types typeId among]
  within said value more means := by
    unfold Meaning.define at means
    split at means
    · cases means
    · cases means
      constructor
      · intro other present
        cases List.mem_singleton.mp present
        exact own
      · intro role owner index present
        cases List.mem_singleton.mp present
      · exact List.forall_mem_nil _
  once said value more means once := by
    unfold Meaning.define at means
    split at means
    · cases means
    · cases means
      exact once.silent rfl

theorem part {owner : Owner} (role : Role) (content : Content) (among : reads (.parts owner))
    (own : writes (.parts owner)) : Local reads writes (Meaning.part role owner content) where
  same said said' agree := by
    unfold Meaning.part
    rw [agree.parts owner among]
  within said value more means := by
    cases means
    constructor
    · intro typeId present
      cases List.mem_singleton.mp present
    · intro role' owner' index present
      cases List.mem_singleton.mp present
      exact own
    · exact List.forall_mem_nil _
  once said value more means once := by
    cases means
    exact once.silent rfl

theorem declare {symbolId : Option String} (type : Address) (name : String)
    (among : ∀ given ∈ symbolId.toList, reads (.symbol given))
    (own : ∀ given ∈ symbolId.toList, writes (.symbol given)) :
    Local reads writes (Meaning.declare symbolId type name) := by
  cases symbolId with
  | none => exact pure ()
  | some symbolId =>
    constructor
    · intro said said' agree
      unfold Meaning.declare
      simp only [agree.symbols symbolId (among symbolId (List.mem_singleton_self _))]
    · intro said value more means
      unfold Meaning.declare at means
      dsimp only at means
      split at means
      · split at means
        · cases means
          exact .silent rfl rfl
        · cases means
      · cases means
        constructor
        · exact fun _ => nofun
        · exact fun _ _ _ => nofun
        · intro declaration present
          cases List.mem_singleton.mp present
          exact own symbolId (List.mem_singleton_self _)
    · intro said value more means once
      unfold Meaning.declare at means
      dsimp only at means
      split at means
      · split at means
        · cases means
          exact once.silent rfl
        · cases means
      · rename_i absent
        cases means
        unfold Contents.DeclaresOnce
        rw [Contents.declarations_append, List.map_append]
        apply List.nodup_append'.mpr
        refine ⟨once, List.nodup_singleton _, List.disjoint_singleton.mpr fun present => ?_⟩
        obtain ⟨declaration, earlier, rfl⟩ := List.mem_map.mp present
        exact absurd rfl (bne_iff_ne.mp (List.lookup_eq_none_iff.mp absent declaration earlier))

theorem unlessDefined {definition : Address → Meaning Unit} (among : reads (.type typeId))
    (near : Local reads writes (definition (.type typeId))) :
    Local reads writes (Meaning.unlessDefined typeId definition) := by
  apply bind (mentioning _)
  intro _
  constructor
  · intro said said' agree
    unfold Meaning.unlessIn
    simp only [agree.types typeId among, near.same said said' agree]
  · intro said value more means
    unfold Meaning.unlessIn at means
    split at means
    · cases means
      exact .silent rfl rfl
    · exact near.within said value more means
  · intro said value more means once
    unfold Meaning.unlessIn at means
    split at means
    · cases means
      exact once.silent rfl
    · exact near.once said value more means once

end Local

end Stg.AbiXml
