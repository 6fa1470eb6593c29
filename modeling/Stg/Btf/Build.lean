import Stg.Btf.Linking

set_option autoImplicit false

/- Each step that allocates, adds or sets a node keeps the invariant, and so does
each kind of record. -/
namespace Stg.Btf

variable {input : Input} {base : Graph} {records : List Record} {record : Record}
  {pending pending' : List RawMember} {s s' : Structs} {index : UInt32} {node : Node}

theorem Structs.denotes_positive {id : Id} (positive : index ≠ 0) :
    s.Denotes index id ↔ s.btfTypeIds.lookup index = some id := by
  unfold Structs.Denotes
  rw [if_neg positive]

theorem Structs.denotesParameter_positive {id : Id} (positive : index ≠ 0) :
    s.DenotesParameter index id ↔ s.btfTypeIds.lookup index = some id := by
  unfold Structs.DenotesParameter
  rw [if_neg positive]

/-- What the reader adds keeps the invariant when it says where the node comes from. -/
theorem Inv.added (inv : Inv input base records pending s) (grows : s.Grows s')
    (graph : s'.graph = ⟨s.graph.nodes ++ [some node]⟩) (slots : s'.btfTypeIds = s.btfTypeIds)
    (reads : s'.reads = s.reads)
    (void : ∀ id, s'.void = some id →
      s.void = some id ∨ id = ⟨s.graph.nodes.length⟩ ∧ node = .void)
    (variadic : ∀ id, s'.variadic = some id →
      s.variadic = some id ∨ id = ⟨s.graph.nodes.length⟩ ∧ node = .variadic)
    (more : ∀ raw ∈ pending, raw ∈ pending')
    (made : s'.Made records pending' ⟨s.graph.nodes.length⟩ node) :
    Inv input base records pending' s' where
  kept := inv.kept.trans grows.graph
  void := by
    intro id shared
    rcases void id shared with old | ⟨rfl, rfl⟩
    · obtain ⟨new, got⟩ := inv.void id old
      exact ⟨new, grows.graph.got got⟩
    · constructor
      · exact inv.kept.length
      · rw [Graph.get_eq_ok, graph]
        simp
  variadic := by
    intro id shared
    rcases variadic id shared with old | ⟨rfl, rfl⟩
    · obtain ⟨new, got⟩ := inv.variadic id old
      exact ⟨new, grows.graph.got got⟩
    · constructor
      · exact inv.kept.length
      · rw [Graph.get_eq_ok, graph]
        simp
  slot := by
    intro index id slot
    rw [slots] at slot
    obtain ⟨positive, new, inside⟩ := inv.slot index id slot
    exact ⟨positive, new, inside.trans_le grows.graph.length⟩
  injective := by
    rw [slots]
    exact inv.injective
  unset := by
    intro index id slot undefined
    rw [slots] at slot
    rw [graph, List.getElem?_append_left (inv.slot index id slot).2.2]
    exact inv.unset index id slot undefined
  linked := by
    intro index record defined
    obtain ⟨id, node', slot, got, describes⟩ := inv.linked index record defined
    exact ⟨id, node', grows.slots index id slot, grows.graph.got got, grows.describes describes⟩
  made := by
    intro id node' new got
    rw [Graph.get_eq_ok, graph] at got
    rcases Nat.lt_trichotomy id.ix s.graph.nodes.length with before | last | after
    · rw [List.getElem?_append_left before] at got
      exact (inv.made id node' new (Graph.get_eq_ok.mpr got)).grow grows.toLinks more
    · have same : id = ⟨s.graph.nodes.length⟩ := by
        cases id
        exact congrArg Id.mk last
      subst same
      have nodes : node = node' := by simpa using got
      subst nodes
      exact made
    · have outside : (s.graph.nodes ++ [some node]).length ≤ id.ix := by
        rw [List.length_append]
        exact after
      rw [List.getElem?_eq_none outside] at got
      cases got
  reads := by
    rw [reads]
    exact inv.reads

theorem getVoid_keeps (inv : Inv input base records pending s) :
    Keeps input base records pending s getVoid (fun id s' => s'.Denotes 0 id) := by
  refine getShared_ends (fun id shared => ⟨inv, .refl s, shared⟩) fun absent => ?_
  have grows : s.Grows { s with
      graph := ⟨s.graph.nodes ++ [some .void]⟩, void := some ⟨s.graph.nodes.length⟩ } := by
    refine ⟨⟨Graph.extends_append _ _, ?_, fun _ held => held, fun _ _ held => held⟩, rfl⟩
    intro id held
    cases absent.symm.trans held
  refine ⟨inv.added grows rfl rfl rfl ?_ (fun _ => .inl) (fun _ => id) (.void rfl), grows, rfl⟩
  rintro id held
  cases held
  exact .inr ⟨rfl, rfl⟩

theorem getVariadic_keeps (inv : Inv input base records pending s) :
    Keeps input base records pending s getVariadic (fun id s' => s'.DenotesParameter 0 id) := by
  refine getShared_ends (fun id shared => ⟨inv, .refl s, shared⟩) fun absent => ?_
  have grows : s.Grows { s with
      graph := ⟨s.graph.nodes ++ [some .variadic]⟩, variadic := some ⟨s.graph.nodes.length⟩ } := by
    refine ⟨⟨Graph.extends_append _ _, fun _ held => held, ?_, fun _ _ held => held⟩, rfl⟩
    intro id held
    cases absent.symm.trans held
  refine ⟨inv.added grows rfl rfl rfl (fun _ => .inl) ?_ (fun _ => id) (.variadic rfl), grows, rfl⟩
  rintro id held
  cases held
  exact .inr ⟨rfl, rfl⟩

theorem Inv.allocated (inv : Inv input base records pending s) (positive : index ≠ 0)
    (absent : s.btfTypeIds.lookup index = none)
    (grows : s.Grows s') (graph : s'.graph = ⟨s.graph.nodes ++ [none]⟩)
    (slots : s'.btfTypeIds = Emplace.emplace s.btfTypeIds index ⟨s.graph.nodes.length⟩)
    (void : s'.void = s.void) (variadic : s'.variadic = s.variadic) (reads : s'.reads = s.reads) :
    Inv input base records pending s' := by
  have cases_slot : ∀ index' id, s'.btfTypeIds.lookup index' = some id →
      s.btfTypeIds.lookup index' = some id ∨ index' = index ∧ id = ⟨s.graph.nodes.length⟩ := by
    intro index' id slot
    rw [slots] at slot
    by_cases same : index' = index
    · subst same
      rw [Emplace.lookup_emplace_new absent] at slot
      cases slot
      exact .inr ⟨rfl, rfl⟩
    · rw [Emplace.lookup_emplace_ne same] at slot
      exact .inl slot
  refine ⟨inv.kept.trans grows.graph, ?_, ?_, ?_, ?_, ?_, ?_, ?_, ?_⟩
  · intro id shared
    rw [void] at shared
    obtain ⟨new, got⟩ := inv.void id shared
    exact ⟨new, grows.graph.got got⟩
  · intro id shared
    rw [variadic] at shared
    obtain ⟨new, got⟩ := inv.variadic id shared
    exact ⟨new, grows.graph.got got⟩
  · intro index' id slot
    rcases cases_slot index' id slot with old | ⟨rfl, rfl⟩
    · obtain ⟨positive', new, inside⟩ := inv.slot index' id old
      exact ⟨positive', new, inside.trans_le grows.graph.length⟩
    · refine ⟨positive, inv.kept.length, ?_⟩
      rw [graph]
      simp
  · intro index₁ index₂ id slot₁ slot₂
    rcases cases_slot index₁ id slot₁ with old₁ | ⟨rfl, rfl⟩
    · rcases cases_slot index₂ id slot₂ with old₂ | ⟨rfl, rfl⟩
      · exact inv.injective index₁ index₂ id old₁ old₂
      · exact absurd (inv.slot index₁ _ old₁).2.2 (lt_irrefl _)
    · rcases cases_slot index₂ _ slot₂ with old₂ | ⟨rfl, _⟩
      · exact absurd (inv.slot index₂ _ old₂).2.2 (lt_irrefl _)
      · rfl
  · intro index' id slot undefined
    rw [graph]
    rcases cases_slot index' id slot with old | ⟨rfl, rfl⟩
    · rw [List.getElem?_append_left (inv.slot index' id old).2.2]
      exact inv.unset index' id old undefined
    · simp
  · intro index' record defined
    obtain ⟨id, node, slot, got, describes⟩ := inv.linked index' record defined
    exact ⟨id, node, grows.slots index' id slot, grows.graph.got got, grows.describes describes⟩
  · intro id node new got
    rw [Graph.get_eq_ok, graph] at got
    have old : s.graph.get id = .ok node := by
      rw [Graph.get_eq_ok]
      by_cases inside : id.ix < s.graph.nodes.length
      · rwa [List.getElem?_append_left inside] at got
      · rw [List.getElem?_append_right (by omega)] at got
        cases List.mem_singleton.mp (List.mem_of_getElem? got)
    exact (inv.made id node new old).grow grows.toLinks fun _ listed => listed
  · rw [reads]
    exact inv.reads

theorem getIdRaw_keeps (inv : Inv input base records pending s) (positive : index ≠ 0) :
    Keeps input base records pending s (getIdRaw index)
      (fun id s' => s'.btfTypeIds.lookup index = some id) := by
  unfold getIdRaw
  apply EStateM.Ends.get_bind
  split
  · rename_i id slot
    exact Keeps.pure inv slot
  · rename_i absent
    have grows : s.Grows { s with
        graph := ⟨s.graph.nodes ++ [none]⟩
        btfTypeIds := Emplace.emplace s.btfTypeIds index ⟨s.graph.nodes.length⟩ } := by
      refine ⟨⟨Graph.extends_append _ _, fun _ held => held, fun _ held => held, ?_⟩, rfl⟩
      intro index' id held
      by_cases same : index' = index
      · rw [same, absent] at held
        cases held
      · rwa [Emplace.lookup_emplace_ne same]
    exact ⟨inv.allocated positive absent grows rfl rfl rfl rfl rfl, grows,
      Emplace.lookup_emplace_new absent⟩

theorem getId_keeps (inv : Inv input base records pending s) (index : UInt32) :
    Keeps input base records pending s (getId index) (fun id s' => s'.Denotes index id) := by
  unfold getId
  by_cases zero : index = 0
  · subst zero
    exact getVoid_keeps inv
  · rw [if_pos zero]
    apply (getIdRaw_keeps inv zero).imp
    · rintro id s' ⟨inv', grows, slot⟩
      exact ⟨inv', grows, (Structs.denotes_positive zero).mpr slot⟩
    · exact fun _ _ raised => raised

theorem getParameterId_keeps (inv : Inv input base records pending s) (index : UInt32) :
    Keeps input base records pending s (getParameterId index)
      (fun id s' => s'.DenotesParameter index id) := by
  unfold getParameterId
  by_cases zero : index = 0
  · subst zero
    exact getVariadic_keeps inv
  · rw [if_pos zero]
    apply (getIdRaw_keeps inv zero).imp
    · rintro id s' ⟨inv', grows, slot⟩
      exact ⟨inv', grows, (Structs.denotesParameter_positive zero).mpr slot⟩
    · exact fun _ _ raised => raised

/- Setting the node of a record. -/

theorem definition_append (records : List Record) (record : Record) (index : UInt32) :
    definition (records ++ [record]) index =
      if index.toNat = records.length + 1 then (some record).filter Record.defines
      else definition records index := by
  unfold definition
  by_cases zero : index = 0
  · subst zero
    simp
  have positive : 0 < index.toNat := by
    apply Nat.pos_of_ne_zero
    intro none
    exact zero (UInt32.toNat_inj.mp none)
  rw [if_neg zero, if_neg zero]
  split
  · rename_i last
    rw [last]
    simp
  · rename_i other
    rcases Nat.lt_or_ge (index.toNat - 1) records.length with before | after
    · rw [List.getElem?_append_left before]
    · rw [List.getElem?_eq_none after,
        List.getElem?_eq_none (by rw [List.length_append]; simp; omega)]

theorem Inv.defined (inv : Inv input base records pending s) {id : Id}
    (next : index.toNat = records.length + 1) (defines : record.defines = true)
    (slot : s.btfTypeIds.lookup index = some id) (describes : s.Describes base record node)
    (listed : ∀ raw ∈ pending, raw ∈ record.members) :
    Inv input base (records ++ [record]) []
      { s with graph := ⟨s.graph.nodes.set id.ix (some node)⟩ } := by
  have own : definition (records ++ [record]) index = some record := by
    rw [definition_append, if_pos next, Option.filter_some, if_pos defines]
  have others : ∀ index', index' ≠ index →
      definition (records ++ [record]) index' = definition records index' := by
    intro index' other
    rw [definition_append, if_neg]
    intro same
    exact other (UInt32.toNat_inj.mp (same.trans next.symm))
  have undefined : definition records index = none := by
    unfold definition
    split
    · rfl
    · rw [next, Nat.add_sub_cancel, List.getElem?_eq_none (le_refl _)]
      rfl
  have still : ∀ index' record', definition records index' = some record' →
      definition (records ++ [record]) index' = some record' := by
    intro index' record' defined
    rw [others index' (fun same => by rw [same, undefined] at defined; cases defined), defined]
  have empty := inv.unset index id slot undefined
  have extends_ : s.graph.Extends ⟨s.graph.nodes.set id.ix (some node)⟩ :=
    Graph.extends_set empty node
  have grows : s.Grows { s with graph := ⟨s.graph.nodes.set id.ix (some node)⟩ } :=
    ⟨⟨extends_, fun _ held => held, fun _ held => held, fun _ _ held => held⟩, rfl⟩
  have here : (⟨s.graph.nodes.set id.ix (some node)⟩ : Graph).get id = .ok node := by
    rw [Graph.get_eq_ok]
    simp [(inv.slot index id slot).2.2]
  refine ⟨inv.kept.trans extends_, ?_, ?_, ?_, inv.injective, ?_, ?_, ?_, inv.reads⟩
  · intro id' shared
    exact ⟨(inv.void id' shared).1, extends_.got (inv.void id' shared).2⟩
  · intro id' shared
    exact ⟨(inv.variadic id' shared).1, extends_.got (inv.variadic id' shared).2⟩
  · intro index' id' slot'
    obtain ⟨positive, new, inside⟩ := inv.slot index' id' slot'
    exact ⟨positive, new, by simpa using inside⟩
  · intro index' id' slot' undefined'
    have other : index' ≠ index := by
      intro same
      rw [same, own] at undefined'
      cases undefined'
    have apart : id.ix ≠ id'.ix := by
      intro same
      have ids : id = id' := by
        cases id
        cases id'
        exact congrArg Id.mk same
      subst ids
      exact other (inv.injective index' index id slot' slot)
    rw [others index' other] at undefined'
    have old := inv.unset index' id' slot' undefined'
    simpa [List.getElem?_set_ne apart] using old
  · intro index' record' defined
    by_cases same : index' = index
    · subst same
      rw [own] at defined
      cases defined
      exact ⟨id, node, slot, here, grows.describes describes⟩
    · rw [others index' same] at defined
      obtain ⟨id', node', slot', got, describes'⟩ := inv.linked index' record' defined
      exact ⟨id', node', slot', extends_.got got, grows.describes describes'⟩
  · intro id' node' new got
    by_cases same : id' = id
    · subst same
      exact .record own slot
    · have apart : id.ix ≠ id'.ix := by
        intro ixs
        apply same
        cases id
        cases id'
        exact congrArg Id.mk ixs.symm
      rw [Graph.get_eq_ok, List.getElem?_set_ne apart] at got
      cases inv.made id' node' new (Graph.get_eq_ok.mpr got) with
      | void shared => exact .void shared
      | variadic shared => exact .variadic shared
      | record defined slot' => exact .record (still _ _ defined) slot'
      | member listed' described =>
        apply Structs.Made.member _ (grows.describesMember described)
        right
        rcases listed' with now | ⟨index', record', defined, among⟩
        · exact ⟨index, record, own, listed _ now⟩
        · exact ⟨index', record', still _ _ defined, among⟩

theorem define_keeps (inv : Inv input base records pending s)
    (next : index.toNat = records.length + 1) (defines : record.defines = true)
    (describes : s.Describes base record node) (listed : ∀ raw ∈ pending, raw ∈ record.members) :
    Keeps input base (records ++ [record]) [] s (define index node) (fun _ _ => True) := by
  have positive : index ≠ 0 := by
    intro zero
    rw [zero] at next
    cases next
  have undefined : definition records index = none := by
    unfold definition
    rw [if_neg positive, next, Nat.add_sub_cancel, List.getElem?_eq_none (le_refl _)]
    rfl
  unfold define
  apply (getIdRaw_keeps inv positive).bind
  intro id s' inv' grows slot
  apply EStateM.Ends.get_bind
  unfold Graph.set
  rw [inv'.unset index id slot undefined]
  have extends_ := Graph.extends_set (inv'.unset index id slot undefined) node
  have grows' : s'.Grows { s' with graph := ⟨s'.graph.nodes.set id.ix (some node)⟩ } :=
    ⟨⟨extends_, fun _ held => held, fun _ held => held, fun _ _ held => held⟩, rfl⟩
  exact ⟨inv'.defined next defines slot (grows.describes describes) listed, grows', trivial⟩

end Stg.Btf
