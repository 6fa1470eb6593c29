import Stg.Follows

set_option autoImplicit false

/- The members of equal structs and unions correspond. They are matched by their keys,
and a member without a name takes its key from its type. -/
namespace Stg

variable {graph : Graph} {options : CompareOptions} {fuel : Nat} {id id1 id2 : Id}

/-- What a node is matched by: its key, or a number if it has none. -/
def Labels (graph : Graph) (id : Id) (label : String) : Prop :=
  ∃ fuel key, matchingKey graph fuel id = .ok key ∧
    (key ≠ "" ∧ label = key ∨ key = "" ∧ ∃ ix : Nat, label = "#anon#" ++ toString ix)

/-- The two lists of members are in bijection, and members that correspond are related. -/
def MembersCorrespond (graph : Graph) (P : Member → Member → Prop) (members1 members2 : List Id) :
    Prop :=
  ∃ pairs : List (Id × Id), (pairs.map Prod.fst).Perm members1 ∧
    (pairs.map Prod.snd).Perm members2 ∧
      ∀ pair ∈ pairs, ∀ member1 member2 : Member, graph.get pair.1 = .ok (.member member1) →
        graph.get pair.2 = .ok (.member member2) → P member1 member2

/-- One name, or no name and a type that is matched by the name of the other. -/
def Member.NamesAgree (graph : Graph) (self other : Member) : Prop :=
  self.name = other.name ∨ self.name = "" ∧ Labels graph self.typeId other.name ∨
    other.name = "" ∧ Labels graph other.typeId self.name

section Labels

variable {nodes nodes1 nodes2 : List Id} {entries : List (String × Id)}

theorem indexKeys_labels {ix anonymousIx : Nat} {keys : KeyIndexPairs}
    (found : indexKeys (matchingKey graph fuel) ix anonymousIx nodes = .ok keys) :
    ∀ key ∈ keys, ∃ node, nodes[key.2 - ix]? = some node ∧ ix ≤ key.2 ∧
      Labels graph node key.1 := by
  induction nodes generalizing ix anonymousIx keys with
  | nil =>
    cases found
    intro key present
    cases present
  | cons node nodes ih =>
    obtain ⟨own, keyed, found⟩ := bind_eq_ok found
    have later : ∀ {anonymousIx' rest}, indexKeys (matchingKey graph fuel)
        (ix + 1) anonymousIx' nodes =
        .ok rest → ∀ key ∈ rest, ∃ node', (node :: nodes)[key.2 - ix]? = some node' ∧ ix ≤ key.2 ∧
          Labels graph node' key.1 := by
      intro anonymousIx' rest foundRest key present
      obtain ⟨node', at_, after, labels⟩ := ih foundRest key present
      refine ⟨node', ?_, by omega, labels⟩
      have next : key.2 - ix = key.2 - (ix + 1) + 1 := by omega
      rw [next, List.getElem?_cons_succ, at_]
    split at found
    · rename_i none_
      obtain ⟨rest, foundRest, found⟩ := bind_eq_ok found
      cases found
      intro key present
      rcases List.mem_cons.mp present with rfl | present
      · exact ⟨node, by simp, le_refl _, fuel, own, keyed, .inr ⟨none_, anonymousIx, rfl⟩⟩
      · exact later foundRest key present
    · rename_i some_
      obtain ⟨rest, foundRest, found⟩ := bind_eq_ok found
      cases found
      intro key present
      rcases List.mem_cons.mp present with rfl | present
      · exact ⟨node, by simp, le_refl _, fuel, own, keyed, .inl ⟨some_, rfl⟩⟩
      · exact later foundRest key present

theorem Keyed.labels (keyed : Keyed graph nodes entries) :
    ∀ item ∈ entries, Labels graph item.2 item.1 := by
  obtain ⟨fuel, keys, found, rfl⟩ := keyed
  obtain ⟨indexed, foundIndexed, found⟩ := bind_eq_ok found
  cases found
  intro item present
  obtain ⟨key, among, rfl⟩ := List.mem_map.mp present
  obtain ⟨node, at_, _, labels⟩ :=
    indexKeys_labels foundIndexed key ((sortPairs_perm indexed).mem_iff.mp among)
  rw [Nat.sub_zero] at at_
  simpa [entry, at_] using labels

theorem Keyed.perm (keyed : Keyed graph nodes entries) : (entries.map (·.2)).Perm nodes := by
  obtain ⟨fuel, keys, found, rfl⟩ := keyed
  have perm := (matchingKeys_perm found).map fun ix => nodes.getD ix ⟨0⟩
  have whole : (List.range nodes.length).map (fun ix => nodes.getD ix ⟨0⟩) = nodes := by
    apply List.ext_getElem?
    intro i
    rw [List.getElem?_map]
    by_cases inside : i < nodes.length
    · simp [inside]
    · rw [List.getElem?_eq_none (by simpa using inside), List.getElem?_eq_none (by omega)]
      rfl
  rw [whole, List.map_map] at perm
  rwa [List.map_map]

/-- A member is matched by its name, or by what its type is matched by. -/
theorem Labels.of_member {member : Member} {label : String}
    (got : graph.get id = .ok (.member member)) (labels : Labels graph id label) :
    member.name ≠ "" ∧ label = member.name ∨ member.name = "" ∧
      Labels graph member.typeId label := by
  obtain ⟨fuel, key, found, labelled⟩ := labels
  cases fuel with
  | zero => cases found
  | succ fuel =>
    unfold matchingKey at found
    rw [got] at found
    by_cases named : member.name = ""
    · exact .inr ⟨named, fuel, key, by simpa [named, bind, Except.bind] using found, labelled⟩
    · have own : key = member.name := by
        simp [named, bind, Except.bind, pure, Except.pure] at found
        exact found.symm
      rcases labelled with ⟨_, same⟩ | ⟨none_, _⟩
      · exact .inl ⟨named, same.trans own⟩
      · exact absurd (own.symm.trans none_) named

theorem Member.namesAgree_of_labels {member1 member2 : Member} {label : String}
    (got1 : graph.get id1 = .ok (.member member1)) (got2 : graph.get id2 = .ok (.member member2))
    (labels1 : Labels graph id1 label) (labels2 : Labels graph id2 label) :
    member1.NamesAgree graph member2 := by
  rcases labels1.of_member got1 with ⟨_, named1⟩ | ⟨none1, inner1⟩
  · rcases labels2.of_member got2 with ⟨_, named2⟩ | ⟨none2, inner2⟩
    · exact .inl (named1.symm.trans named2)
    · exact .inr (.inr ⟨none2, named1 ▸ inner2⟩)
  · rcases labels2.of_member got2 with ⟨_, named2⟩ | ⟨none2, _⟩
    · exact .inr (.inl ⟨none1, named2 ▸ inner1⟩)
    · exact .inl (none1.trans none2.symm)

end Labels

section Correspond

variable {S : Id → Id → Prop} {members1 members2 : List Id}

theorem nodesMatch_pairs (matched : NodesMatch graph S members1 members2) :
    ∃ pairs : List (Id × Id), (pairs.map Prod.fst).Perm members1 ∧
      (pairs.map Prod.snd).Perm members2 ∧ ∀ pair ∈ pairs, S pair.1 pair.2 ∧
        ∃ label, Labels graph pair.1 label ∧ Labels graph pair.2 label := by
  obtain ⟨entries1, entries2, keyed1, keyed2, related⟩ := matched
  refine ⟨(entries1.zip entries2).map fun both => (both.1.2, both.2.2), ?_, ?_, ?_⟩
  · have same := congrArg (List.map (·.2)) (List.map_fst_zip (le_of_eq related.length_eq))
    rw [List.map_map] at same ⊢
    exact same ▸ keyed1.perm
  · have same := congrArg (List.map (·.2)) (List.map_snd_zip (le_of_eq related.length_eq.symm))
    rw [List.map_map] at same ⊢
    exact same ▸ keyed2.perm
  · intro pair present
    obtain ⟨⟨entry1, entry2⟩, among, rfl⟩ := List.mem_map.mp present
    obtain ⟨label, holds⟩ := List.forall₂_zip related among
    have among1 := List.of_mem_zip among
    exact ⟨holds, entry1.1, keyed1.labels entry1 among1.1, label ▸ keyed2.labels entry2 among1.2⟩

theorem Equal.members_match {member1 member2 : Member} (equal : Equal graph options id1 id2)
    (got1 : graph.get id1 = .ok (.member member1)) (got2 : graph.get id2 = .ok (.member member2)) :
    member1.offset = member2.offset ∧ member1.bitsize = member2.bitsize ∧
      Equal graph options member1.typeId member2.typeId := by
  have settled1 : graph.Settled id1 (.member member1) := ⟨got1, nofun, nofun⟩
  have settled2 : graph.Settled id2 (.member member2) := ⟨got2, nofun, nofun⟩
  obtain ⟨type1, type2, got1', got2', matched⟩ := equal.same.matches_of_settled settled1.unqualified
    settled2.unqualified settled1.resolved settled2.resolved
  cases got1.symm.trans got1'
  cases got2.symm.trans got2'
  cases matched with
  | member offset bitsize child => exact ⟨offset, bitsize, child⟩

/-- The members of equal structs and unions with definitions correspond: same offset, same size,
equal types, and the same name or the name of one for what the type of the other is matched by. -/
theorem equal_structs_members {struct1 struct2 : StructUnion}
    {definition1 definition2 : StructUnion.Definition}
    (got1 : graph.get id1 = .ok (.structUnion struct1))
    (got2 : graph.get id2 = .ok (.structUnion struct2))
    (defined1 : struct1.definition = some definition1)
    (defined2 : struct2.definition = some definition2)
    (finds : Finds graph options id1 id2 true) :
    MembersCorrespond graph (fun member1 member2 => member1.NamesAgree graph member2 ∧
      member1.offset = member2.offset ∧ member1.bitsize = member2.bitsize ∧
        Finds graph options member1.typeId member2.typeId true)
      definition1.members definition2.members := by
  have equal := finds_equal_iff.mp finds
  have settled1 : graph.Settled id1 (.structUnion struct1) := ⟨got1, nofun, nofun⟩
  have settled2 : graph.Settled id2 (.structUnion struct2) := ⟨got2, nofun, nofun⟩
  obtain ⟨type1, type2, got1', got2', matched⟩ := equal.same.matches_of_settled settled1.unqualified
    settled2.unqualified settled1.resolved settled2.resolved
  cases got1.symm.trans got1'
  cases got2.symm.trans got2'
  cases matched with
  | structUnion kind name definitions =>
    rw [defined1, defined2] at definitions
    obtain ⟨_, _, _, members⟩ := definitions
    obtain ⟨pairs, perm1, perm2, each⟩ := nodesMatch_pairs members
    refine ⟨pairs, perm1, perm2, fun pair present member1 member2 gotMember1 gotMember2 => ?_⟩
    obtain ⟨equalMembers, label, labels1, labels2⟩ := each pair present
    obtain ⟨offset, bitsize, types⟩ := equalMembers.members_match gotMember1 gotMember2
    exact ⟨Member.namesAgree_of_labels gotMember1 gotMember2 labels1 labels2, offset, bitsize,
      finds_equal_iff.mpr types⟩

end Correspond

theorem finds_of_verdict {verdict : Bool}
    (ran : (runCompare graph options fuel {} id1 id2).toOption.map (·.1.1) = some verdict) :
    Finds graph options id1 id2 verdict := by
  cases out : runCompare graph options fuel {} id1 id2 with
  | error reason =>
    rw [out] at ran
    cases ran
  | ok out' =>
    rw [out] at ran
    obtain ⟨⟨found, comparison⟩, s⟩ := out'
    cases ran
    exact ⟨fuel, comparison, s, out⟩

/-- A struct with a member of an anonymous struct type, once with and once without a name. -/
def unnamedMember : Graph where
  nodes := [
    some (.structUnion ⟨.struct, "outer", some ⟨4, [], [], [⟨1⟩]⟩⟩),
    some (.member ⟨"x", ⟨2⟩, 0, 0⟩),
    some (.structUnion ⟨.struct, "", some ⟨4, [], [], [⟨3⟩]⟩⟩),
    some (.member ⟨"x", ⟨4⟩, 0, 0⟩),
    some (.integer ⟨"int", .signedInteger, 32, 4⟩),
    some (.structUnion ⟨.struct, "outer", some ⟨4, [], [], [⟨6⟩]⟩⟩),
    some (.member ⟨"", ⟨2⟩, 0, 0⟩)]

theorem unnamedMember_equal : Finds unnamedMember {} ⟨0⟩ ⟨5⟩ true := by
  have ran : (runCompare unnamedMember {} 6 {} ⟨0⟩ ⟨5⟩).toOption.map (·.1.1) = some true := by
    decide +kernel
  exact finds_of_verdict ran

theorem equal_structs_members_unnamed :
    MembersCorrespond unnamedMember (fun member1 member2 =>
      member1.NamesAgree unnamedMember member2 ∧ member1.offset = member2.offset ∧
        member1.bitsize = member2.bitsize ∧
          Finds unnamedMember {} member1.typeId member2.typeId true) [⟨1⟩] [⟨6⟩] := by
  have got1 : unnamedMember.get ⟨0⟩ =
      .ok (.structUnion ⟨.struct, "outer", some ⟨4, [], [], [⟨1⟩]⟩⟩) := rfl
  have got2 : unnamedMember.get ⟨5⟩ =
      .ok (.structUnion ⟨.struct, "outer", some ⟨4, [], [], [⟨6⟩]⟩⟩) := rfl
  exact equal_structs_members got1 got2 rfl rfl unnamedMember_equal

/-- The member loses its name and the structs are found equal. -/
theorem member_unnamed_silently : Finds unnamedMember {} ⟨0⟩ ⟨5⟩ true ∧
    ¬ MembersCorrespond unnamedMember (fun member1 member2 => member1.name = member2.name)
      [⟨1⟩] [⟨6⟩] := by
  refine ⟨unnamedMember_equal, ?_⟩
  rintro ⟨pairs, perm1, perm2, same⟩
  obtain ⟨pair, rfl, first⟩ := List.map_eq_singleton_iff.mp (List.perm_singleton.mp perm1)
  have second : pair.2 = ⟨6⟩ := by simpa using perm2
  have equal := same pair (by simp) ⟨"x", ⟨2⟩, 0, 0⟩ ⟨"", ⟨2⟩, 0, 0⟩ (by rw [first]; rfl)
    (by rw [second]; rfl)
  exact absurd equal (by decide)

end Stg
