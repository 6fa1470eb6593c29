import Stg.AbiXml.Reads

set_option autoImplicit false

/- The steps of the reader on the graph and on the maps of `Typing` and `Corpus`. -/
namespace Stg.AbiXml

open Emplace (emplace)

variable {place : Place} {address : Address} {id : Id} {content : Content} {node : Node}

/-- The id is that of the address of a type. -/
def LinksType (place : Place) (id : Id) (address : Address) : Prop :=
  place address = some id ∧ address.IsType

theorem getNode_notes (typeId : String) :
    Notes place (getNode typeId) (.ok ((), [.type typeId]) : Mentions Unit)
      (fun after id _ => after (.type typeId) = some id) := by
  intro base s said before grows holds
  unfold getNode
  apply EStateM.Ends.get_bind
  have type := holds.type typeId
  cases known : s.typeIds.lookup typeId with
  | some id =>
    rw [known] at type
    apply EStateM.Ends.pure
    refine ⟨(), _, before, rfl, .refl _, type.symm, ?_, .refl _⟩
    apply holds.mention
    · rw [← type]
      exact Option.some_ne_none id
    · exact .inr ⟨typeId, rfl⟩
  | none =>
    rw [known] at type
    have fresh := type.symm
    have unsaid : Address.type typeId ∉ said.addresses := holds.absent fresh
    apply EStateM.Ends.get_bind
    apply EStateM.Ends.modify_bind
    apply EStateM.Ends.pure
    refine ⟨(), { mentions := [.type typeId] }, before.update (.type typeId) ⟨s.graph.nodes.length⟩,
      rfl, Place.extends_update fresh, Place.update_same, ?_, ⟨rfl, rfl⟩⟩
    apply holds.placed fresh rfl
    · intro other
      change (emplace s.typeIds typeId _).lookup other = _
      by_cases same : other = typeId
      · subst same
        rw [Emplace.lookup_emplace_new known, Place.update_same]
      · rw [Emplace.lookup_emplace_ne same, holds.type, Place.update_ne]
        exact fun equal => same (Address.type.inj equal)
    · exact holds.variadic.trans (Place.update_ne (Address.type_ne_variadic typeId).symm).symm
    · rfl
    · exact fun other _ => Contents.content?_append_of_silent rfl other
    · have silent : said.content? (.type typeId) = none := by
        rw [Contents.content?, if_neg (Address.type_ne_variadic typeId),
          Contents.lookup_eq_none_iff.mpr unsaid]
      rw [Contents.content?_append_of_silent rfl, silent]
      rfl
    · intro content held
      rw [Contents.content?_append_of_silent rfl, Contents.content?,
        if_neg (Address.type_ne_variadic typeId), Contents.lookup_eq_none_iff.mpr unsaid] at held
      cases held
    · intro other
      simp [Contents.Knows, Contents.addresses]
    · rfl
    · rw [Contents.addresses_append_of_silent rfl]
      exact holds.unique
    · rw [Contents.addresses_append_of_silent rfl]
      exact holds.variadicImplicit
    · intro other among
      exact .inr ⟨typeId, List.mem_singleton.mp among⟩
    · exact List.forall_mem_nil _
    · rfl

theorem getEdge_notes (element : Element) :
    Notes place (getEdge element) (.edge element) LinksType := by
  have unfolded : Mentions.edge element = (do
      let typeId ← ofExcept (getAttributeOrDie element "type-id")
      (.ok ((), [.type typeId]) : Mentions Unit)
      return .type typeId) := by
    unfold Mentions.edge
    cases getAttributeOrDie element "type-id" <;> rfl
  rw [unfolded, ← bind_pure (getEdge element)]
  unfold getEdge
  rw [bind_assoc]
  apply Notes.bind (Notes.ofExcept _)
  rintro typeId _ after _ ⟨rfl, _⟩
  apply Notes.bind (getNode_notes typeId)
  intro id _ after' _ placed
  exact Notes.pure fun later grows => ⟨grows _ _ placed, trivial⟩

theorem getVariadic_notes : Notes place getVariadic .variadic LinksType := by
  intro base s said before grows holds
  have shared := holds.variadic
  refine getShared_ends (fun id known => ?_) fun absent => ?_
  · rw [show s.variadic = some id from known] at shared
    refine ⟨_, _, before, rfl, .refl _, ⟨shared.symm, trivial⟩, ?_, .refl _⟩
    apply holds.mention
    · rw [← shared]
      exact Option.some_ne_none _
    · exact .inl rfl
  · rw [show s.variadic = none from absent] at shared
    have fresh := shared.symm
    refine ⟨.variadic, { mentions := [.variadic] },
      before.update .variadic ⟨s.graph.nodes.length⟩, rfl, Place.extends_update fresh,
      ⟨Place.update_same, trivial⟩, ?_, ⟨rfl, rfl⟩⟩
    apply holds.placed fresh rfl
    · intro other
      exact (holds.type other).trans (Place.update_ne (Address.type_ne_variadic other)).symm
    · exact Place.update_same.symm
    · rfl
    · exact fun other _ => Contents.content?_append_of_silent rfl other
    · rw [Contents.content?, if_pos rfl]
      rfl
    · intro content held
      rw [Contents.content?, if_pos rfl] at held
      cases held
      exact List.forall_mem_nil _
    · intro other
      simp [Contents.Knows, Contents.addresses]
    · rfl
    · rw [Contents.addresses_append_of_silent rfl]
      exact holds.unique
    · rw [Contents.addresses_append_of_silent rfl]
      exact holds.variadicImplicit
    · intro other among
      exact .inl (List.mem_singleton.mp among)
    · exact List.forall_mem_nil _
    · rfl

/- Nodes. -/

theorem partEnd_le_nextPart {owner : Owner} {addresses : List Address}
    (among : address ∈ addresses) :
    Meaning.partEnd owner address ≤ Meaning.nextPart owner addresses := by
  induction addresses with
  | nil => cases among
  | cons first rest ih =>
    change _ ≤ max (Meaning.partEnd owner first) (Meaning.nextPart owner rest)
    rcases List.mem_cons.mp among with rfl | later
    · exact le_max_left _ _
    · exact (ih later).trans (le_max_right _ _)

/-- The next part of an owner is new. -/
theorem nextPart_fresh (role : Role) (owner : Owner) (addresses : List Address) :
    .part role owner (Meaning.nextPart owner addresses) ∉ addresses := by
  intro among
  have bound := @partEnd_le_nextPart _ owner _ among
  simp only [Meaning.partEnd, if_pos] at bound
  omega

theorem part_reads {role : Role} {owner : Owner} (makes : place.Makes content node)
    (fits : ∀ index, content.Fits (.part role owner index)) :
    Reads place (add node) (.part role owner content)
      (fun after id address => after address = some id ∧ address.Plays role) := by
  intro base s said before grows holds
  apply add_ends
  have unsaid := nextPart_fresh role owner said.addresses
  have own := fits (Meaning.nextPart owner said.addresses)
  generalize next : Address.part role owner (Meaning.nextPart owner said.addresses) = address
    at unsaid own
  have explicit : address ≠ .variadic := by
    subst next
    exact Address.part_ne_variadic _ _ _
  have fresh : before address = none := by
    by_contra placed
    rcases (holds.known address).mp placed with mentioned | present
    · rcases holds.mentioned address mentioned with variadic | ⟨typeId, type⟩
      · exact explicit variadic
      · rw [← next] at type
        cases type
    · exact unsaid present
  have here : (said ++ { entries := [(address, content)] } : Contents).content? address =
      some content := by
    rw [Contents.content?, if_neg explicit, Contents.entries_append, List.lookup_append,
      Contents.lookup_eq_none_iff.mpr unsaid]
    simp
  have makes' := grows.makes makes
  refine ⟨address, { entries := [(address, content)] }, before.update address _, ?_,
    Place.extends_update fresh, ⟨Place.update_same, by subst next; rfl⟩, ?_, ⟨rfl, rfl⟩⟩
  · rw [← next]
    rfl
  · apply holds.placed fresh rfl
    · intro other
      have apart : Address.type other ≠ address := by
        subst next
        exact Address.type_ne_part _ _ _ _
      exact (holds.type other).trans (Place.update_ne apart).symm
    · exact holds.variadic.trans (Place.update_ne explicit.symm).symm
    · rfl
    · intro other different
      apply Contents.content?_append_of_absent
      simpa [Contents.addresses] using different
    · rw [here, makes'.node]
      rfl
    · intro content' held
      rw [here] at held
      cases held
      exact makes'.references
    · intro other
      simp [Contents.Knows, Contents.addresses]
    · rfl
    · rw [Contents.addresses_append]
      exact List.nodup_append'.mpr ⟨holds.unique, List.nodup_singleton _,
        List.disjoint_singleton.mpr unsaid⟩
    · rw [Contents.addresses_append, List.mem_append, not_or]
      refine ⟨holds.variadicImplicit, ?_⟩
      simpa [Contents.addresses] using explicit.symm
    · exact List.forall_mem_nil _
    · intro entry among
      cases List.mem_singleton.mp among
      exact own
    · rfl

theorem unlinked_reads (makes : place.Makes content node)
    (fits : content.Fits (.part .function .document 0)) :
    Reads place (add node) (.unlinked content) (fun _ _ _ => True) := by
  intro base s said before grows holds
  apply add_ends
  exact ⟨(), { unlinked := [content] }, before, rfl, .refl _, trivial,
    holds.unlinked (grows.makes makes) fits, ⟨rfl, rfl⟩⟩

theorem define_reads {typeId : String} (placed : place (.type typeId) = some id)
    (makes : place.Makes content node) (fits : content.Fits (.type typeId)) :
    Reads place (set id node) (.define (.type typeId) content) (fun _ _ _ => True) := by
  intro base s said before grows holds
  have placed' := grows _ _ placed
  have slot := holds.slot _ _ placed'
  have makes' := grows.makes makes
  rw [Contents.content?, if_neg (Address.type_ne_variadic typeId)] at slot
  unfold set
  apply EStateM.Ends.get_bind
  by_cases defined : Address.type typeId ∈ said.addresses
  · obtain ⟨held, kept⟩ : ∃ held, said.entries.lookup (.type typeId) = some held :=
      Option.ne_none_iff_exists'.mp fun none => Contents.lookup_eq_none_iff.mp none defined
    rw [kept] at slot
    rw [Graph.set, slot]
    exact ⟨⟨_, rfl⟩, _, if_pos defined⟩
  · rw [Contents.lookup_eq_none_iff.mpr defined] at slot
    rw [Graph.set, slot]
    refine ⟨(), { entries := [(.type typeId, content)] }, before, if_neg defined, .refl _, trivial,
      ?_, ⟨rfl, rfl⟩⟩
    exact holds.set placed' defined (Address.type_ne_variadic typeId) makes'.references fits
      (by rw [makes'.node]) rfl

/- Declarations. -/

theorem linkSymbol_reads (symbolId : Option String) (name : String)
    (linked : LinksType place id address) :
    Reads place (linkSymbol symbolId id name) (.declare symbolId address name)
      (fun _ _ _ => True) := by
  intro base s said before grows holds
  have placed := grows _ _ linked.1
  cases symbolId with
  | none =>
    apply EStateM.Ends.pure
    refine ⟨(), {}, before, rfl, .refl _, trivial, ?_, .refl _⟩
    rwa [Contents.append_empty]
  | some symbolId =>
    unfold linkSymbol
    apply EStateM.Ends.get_bind
    apply EStateM.Ends.modify_bind
    have declared := holds.declared symbolId
    cases known : said.declarations.lookup symbolId with
    | none =>
      rw [known] at declared
      rw [declared]
      have fits : decide (((none : Option Id)).getD id = id) = true := by simp
      change (check (decide (((none : Option Id)).getD id = id)) _ : Reading Unit).Ends _ _ _
      rw [fits]
      apply EStateM.Ends.pure
      refine ⟨(), { declarations := [(symbolId, address, name)] }, before, ?_, .refl _, trivial,
        holds.declare known placed linked.2, ⟨rfl, rfl⟩⟩
      simp only [Meaning.declare, known]
    | some declaration =>
      obtain ⟨other, otherName⟩ := declaration
      obtain ⟨placedOther, _⟩ := holds.declaredPlaced symbolId other otherName known
      obtain ⟨otherId, heldOther⟩ := Option.ne_none_iff_exists'.mp placedOther
      rw [known] at declared
      have present : symbolId ∈ s.symbolIdAndFullName := by
        rw [← AList.lookup_isSome, declared]
        rfl
      rw [declared, Emplace.emplace, if_pos present]
      have found : before.at_ other = otherId := by
        rw [Place.at_, heldOther]
        rfl
      by_cases same : other = address
      · subst same
        cases placed.symm.trans heldOther
        have agree : decide ((Option.map (fun x : Id × String => x.1)
            (Option.map (fun declaration : Address × String => (before.at_ declaration.1,
              declaration.2)) (some (other, otherName)))).getD id = id) = true := by
          simp [found]
        rw [agree]
        apply EStateM.Ends.pure
        refine ⟨(), {}, before, ?_, .refl _, trivial, ?_, .refl _⟩
        · simp [Meaning.declare, known]
        · rwa [Contents.append_empty]
      · have differ : otherId ≠ id := by
          rintro rfl
          exact same (holds.injective other address otherId heldOther placed)
        have conflict : decide ((Option.map (fun x : Id × String => x.1)
            (Option.map (fun declaration : Address × String => (before.at_ declaration.1,
              declaration.2)) (some (other, otherName)))).getD id = id) = false := by
          simp [found, differ]
        rw [conflict]
        apply EStateM.Ends.throw
        exact ⟨⟨_, rfl⟩, .exception ("conflicting types for '" ++ symbolId ++ "'"),
          by simp [Meaning.declare, known, same]⟩

end Stg.AbiXml
