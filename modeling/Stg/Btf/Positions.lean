import Stg.Btf.Process

set_option autoImplicit false

/- What the graph holds after an input has been accepted: every record is linked by
its position. -/
namespace Stg.Btf

/-- The graph that has been made of the records. -/
structure LinkedByPosition (data : List UInt8) (base : Graph) (records : List Record) (root : Id)
    (s : Structs) : Prop where
  sectioned : Sectioned data records
  /-- The record at each position defines the node of its index. -/
  defined : ∀ k record, records[k]? = some record → record.defines = true →
    ∃ id node, s.btfTypeIds.lookup (k + 1).toUInt32 = some id ∧ base.nodes.length ≤ id.ix ∧
      s.graph.get id = .ok node ∧ s.Describes base record node
  /-- No two indexes share a node. -/
  injective : ∀ index index' id, s.btfTypeIds.lookup index = some id →
    s.btfTypeIds.lookup index' = some id → index = index'
  undefined : ∀ index id, s.btfTypeIds.lookup index = some id → definition records index = none →
    ¬ s.graph.Is id
  void : ∀ id, base.nodes.length ≤ id.ix → (s.graph.get id = .ok .void ↔ s.void = some id)
  variadic : ∀ id, base.nodes.length ≤ id.ix →
    (s.graph.get id = .ok .variadic ↔ s.variadic = some id)
  /-- There are no other nodes. -/
  made : ∀ id node, base.nodes.length ≤ id.ix → s.graph.get id = .ok node →
    id = root ∨ s.Made records [] id node
  symbols : ∃ symbols, s.graph.get root = .ok (.symbols symbols) ∧
    ∀ key id, (key, id) ∈ symbols.symbols ↔
      ∃ index record name, definition records index = some record ∧
        record.symbolName = some name ∧ key = ⟨"", name⟩ ∧ s.btfTypeIds.lookup index = some id
  distinct : ∀ index index' record record' name, definition records index = some record →
    definition records index' = some record' → record.symbolName = some name →
    record'.symbolName = some name → index = index'
  kept : ∀ id node, base.get id = .ok node → s.graph.get id = .ok node

variable {data : List UInt8} {base : Graph} {records : List Record} {root : Id}
  {linked s : Structs}

theorem Sectioned.short (sectioned : Sectioned data records) : records.length < 2 ^ 32 := by
  have le := sectioned.le
  have := (headerAt data).typeLen.toNat_lt
  unfold BtfHeader.typeSection at le
  dsimp only at le
  omega

theorem definition_at (short : records.length < 2 ^ 32) {k : Nat} {record : Record}
    (held : records[k]? = some record) (defines : record.defines = true) :
    definition records (k + 1).toUInt32 = some record := by
  have inside := (List.getElem?_eq_some_iff.mp held).1
  have exactly : (k + 1).toUInt32.toNat = k + 1 := by
    rw [Nat.toUInt32, UInt32.toNat_ofNat']
    exact Nat.mod_eq_of_lt (by omega)
  unfold definition
  rw [if_neg, exactly, Nat.add_sub_cancel, held, Option.filter_some, if_pos defines]
  intro zero
  rw [zero] at exactly
  cases exactly

/-- The last node of the graph is the map of symbols. -/
theorem Finished.graph_eq (finished : Finished data base records linked root s) :
    s.graph = ⟨linked.graph.nodes ++ [some (.symbols linked.btfSymbols)]⟩ := by
  obtain ⟨reads, rfl, _⟩ := finished.rest
  rfl

theorem Finished.links (finished : Finished data base records linked root s) :
    linked.Links s := by
  obtain ⟨reads, rfl, _⟩ := finished.rest
  exact ⟨Graph.extends_append _ _, fun _ held => held, fun _ held => held, fun _ _ held => held⟩

theorem Finished.lookup_eq (finished : Finished data base records linked root s) :
    s.btfTypeIds = linked.btfTypeIds ∧ s.void = linked.void ∧ s.variadic = linked.variadic := by
  obtain ⟨reads, rfl, _⟩ := finished.rest
  exact ⟨rfl, rfl, rfl⟩

theorem Finished.got_root (finished : Finished data base records linked root s) :
    s.graph.get root = .ok (.symbols linked.btfSymbols) := by
  rw [Graph.get_eq_ok, finished.graph_eq, finished.root_eq]
  simp

/-- Every other node was there before. -/
theorem Finished.got_before (finished : Finished data base records linked root s) {id : Id}
    {node : Node} (got : s.graph.get id = .ok node) (other : id ≠ root) :
    linked.graph.get id = .ok node := by
  rw [Graph.get_eq_ok, finished.graph_eq] at got
  rw [Graph.get_eq_ok]
  rcases Nat.lt_trichotomy id.ix linked.graph.nodes.length with before | last | after
  · rwa [List.getElem?_append_left before] at got
  · apply absurd _ other
    rw [finished.root_eq]
    cases id
    exact congrArg Id.mk last
  · have outside : (linked.graph.nodes ++ [some (Node.symbols linked.btfSymbols)]).length ≤
      id.ix := by
      rw [List.length_append]
      exact after
    rw [List.getElem?_eq_none outside] at got
    cases got

theorem Inv.describes_record {input : Input} (inv : Inv input base records [] s) {index : UInt32}
    {record : Record} {id : Id} {node : Node} (defined : definition records index = some record)
    (slot : s.btfTypeIds.lookup index = some id) (got : s.graph.get id = .ok node) :
    s.Describes base record node := by
  obtain ⟨id', node', slot', got', describes⟩ := inv.linked index record defined
  cases slot.symm.trans slot'
  cases got.symm.trans got'
  exact describes

/-- The two nodes that no record says are the shared ones. -/
theorem Inv.shared {input : Input} (inv : Inv input base records [] s) {id : Id} {node : Node}
    (new : base.nodes.length ≤ id.ix) (got : s.graph.get id = .ok node)
    (plain : node = .void ∨ node = .variadic) :
    node = .void ∧ s.void = some id ∨ node = .variadic ∧ s.variadic = some id := by
  cases inv.made id node new got with
  | void shared => exact .inl ⟨rfl, shared⟩
  | variadic shared => exact .inr ⟨rfl, shared⟩
  | record defined slot =>
    rename_i record
    have describes := inv.describes_record defined slot got
    rcases plain with rfl | rfl
    all_goals cases record <;> simp [Structs.Describes] at describes
  | member listed described =>
    obtain ⟨_, _, rfl⟩ := described
    rcases plain with made | made
    all_goals cases made

theorem Finished.linked_at (finished : Finished data base records linked root s) {index : UInt32}
    {record : Record} (defined : definition records index = some record) :
    ∃ id node, s.btfTypeIds.lookup index = some id ∧ base.nodes.length ≤ id.ix ∧
      s.graph.get id = .ok node ∧ s.Describes base record node := by
  have links := finished.links
  obtain ⟨id, node, slot, got, describes⟩ := finished.inv.linked index record defined
  have new := (finished.inv.slot index id slot).2.1
  exact ⟨id, node, links.slots index id slot, new, links.graph.got got, links.describes describes⟩

theorem Finished.linkedByPosition (finished : Finished data base records linked root s) :
    LinkedByPosition data base records root s := by
  have inv := finished.inv
  have links := finished.links
  obtain ⟨slots, void, variadic⟩ := finished.lookup_eq
  have other : ∀ id {node : Node}, node ≠ .symbols linked.btfSymbols → s.graph.get id = .ok node →
      id ≠ root := by
    rintro _ node different got rfl
    rw [finished.got_root] at got
    cases got
    exact different rfl
  constructor
  · exact finished.sectioned
  · intro k record held defines
    exact finished.linked_at (definition_at finished.sectioned.short held defines)
  · rw [slots]
    exact inv.injective
  · rw [slots]
    rintro index id slot undefined ⟨node, got⟩
    have empty := inv.unset index id slot undefined
    have before : id ≠ root := by
      rintro rfl
      have inside := (inv.slot index _ slot).2.2
      rw [finished.root_eq] at inside
      exact absurd inside (lt_irrefl _)
    have got := finished.got_before got before
    rw [Graph.get_eq_ok, empty] at got
    cases got
  · intro id new
    rw [void]
    constructor
    · intro got
      have before := finished.got_before got (other id (by simp) got)
      rcases inv.shared new before (.inl rfl) with ⟨_, shared⟩ | ⟨absurd, _⟩
      · exact shared
      · cases absurd
    · intro shared
      exact links.graph.got (inv.void id shared).2
  · intro id new
    rw [variadic]
    constructor
    · intro got
      have before := finished.got_before got (other id (by simp) got)
      rcases inv.shared new before (.inr rfl) with ⟨absurd, _⟩ | ⟨_, shared⟩
      · cases absurd
      · exact shared
    · intro shared
      exact links.graph.got (inv.variadic id shared).2
  · intro id node new got
    by_cases same : id = root
    · exact .inl same
    · have before := inv.made id node new (finished.got_before got same)
      exact .inr (before.grow links fun _ listed => listed)
  · refine ⟨linked.btfSymbols, finished.got_root, ?_⟩
    rw [slots]
    exact finished.named.entries
  · exact finished.named.distinct
  · intro id node got
    exact links.graph.got (inv.kept.got got)

/-- Whatever the order of the references, an accepted input is linked by position, and
whether or not the input is accepted no slot is set twice. -/
theorem process_links (data : List UInt8) (base : Graph) (verbose : Bool) (fuel : Nat)
    (enough : data.length < fuel) :
    (process data fuel verbose).Ends { graph := base }
      (fun root s => ∃ records, LinkedByPosition data base records root s)
      (fun reason _ => reason ≠ .exception "node value already set") := by
  apply (process_ends data base verbose enough).imp
  · rintro root s ⟨records, linked, finished⟩
    exact ⟨records, finished.linkedByPosition⟩
  · rintro _ s ⟨⟨message, rfl, other⟩, _⟩ same
    cases same
    exact other rfl

theorem process_links_forwardPointer :
    ∃ root s, (process forwardPointer 100 true).run { graph := ⟨[some .void]⟩ } = .ok root s ∧
      ∃ records, LinkedByPosition forwardPointer ⟨[some .void]⟩ records root s := by
  have ran : made ((process forwardPointer 100 true).run { graph := ⟨[some .void]⟩ }) =
      some (⟨3⟩, [some .void, some (.elfSymbol ⟨"a", none, true, .object, .global, .default, none,
        some ⟨2⟩, none⟩), some (.pointerReference ⟨.pointer, ⟨1⟩⟩),
        some (.symbols ⟨[(⟨"", "a"⟩, ⟨1⟩)], by decide⟩)]) := by
    decide +kernel
  obtain ⟨s, ran, _⟩ := returns_of_made ran
  have ends := process_links forwardPointer ⟨[some .void]⟩ true 100 (by decide +kernel)
  exact ⟨⟨3⟩, s, ran, ends.returns ran⟩

end Stg.Btf
