import Stg.AbiXml.Accounts
import Stg.AbiXml.Closed
import Stg.Btf.Closed

set_option autoImplicit false

/- The sizes of the integers that the readers make. -/
namespace Stg

/-- The storage size is the number of bits in bytes, rounded up. -/
def Integer.Stored (node : Integer) : Prop := node.bytesize.toNat = (node.bitsize.toNat + 7) / 8

instance (node : Integer) : Decidable node.Stored :=
  inferInstanceAs (Decidable (node.bytesize.toNat = (node.bitsize.toNat + 7) / 8))

/-- The two agree in all that is compared. -/
structure Integer.Alike (self other : Integer) : Prop where
  encoding : self.encoding = other.encoding
  bitsize : self.bitsize = other.bitsize
  bytesize : self.bytesize = other.bytesize

/-- Every integer that has been added to the graph has the number of bits that the input gives
for it, and the bytes that these take. Those that compare equal are alike. -/
structure IntegersDocumented (base graph : Graph) (given : Id → Nat → Prop) : Prop where
  stored : ∀ id node, base.nodes.length ≤ id.ix → graph.get id = .ok (.integer node) → node.Stored
  given : ∀ id node, base.nodes.length ≤ id.ix → graph.get id = .ok (.integer node) →
    given id node.bitsize.toNat ∧ ∀ bits, given id bits → node.bitsize.toNat = bits
  alike : ∀ id id' node node' result, base.nodes.length ≤ id.ix → base.nodes.length ≤ id'.ix →
    graph.get id = .ok (.integer node) → graph.get id' = .ok (.integer node') →
    (node.equals node' : Except Error Result) = .ok result → result.equals = true → node.Alike node'

/-- The byte sizes need not be compared where they follow from the bit sizes. -/
theorem Integer.equals_alike {self other : Integer} {result : Result} (stored : self.Stored)
    (stored' : other.Stored) (compared : (self.equals other : Except Error Result) = .ok result)
    (equal : result.equals = true) : self.Alike other := by
  have settled : self.encoding = other.encoding ∧ self.bitsize = other.bitsize := by
    by_contra differ
    have first : ((({} : Result).maybeAddNodeDiff "encoding" self.encoding other.encoding
        ).maybeAddNodeDiff "bit size" self.bitsize other.bitsize).equals = false := by
      rw [not_and_or] at differ
      unfold Result.maybeAddNodeDiff
      by_cases bits : self.bitsize = other.bitsize
      · have codes := differ.resolve_right (not_not.mpr bits)
        simp [bits, codes, Result.addNodeDiff]
      · simp [bits, Result.addNodeDiff]
    unfold Integer.equals at compared
    dsimp only at compared
    split at compared
    · cases compared
      unfold Result.maybeAddNodeDiff at equal
      split at equal
      · cases equal
      · exact Bool.false_ne_true (first.symm.trans equal)
    · cases compared
      exact Bool.false_ne_true (first.symm.trans equal)
  refine ⟨settled.1, settled.2, UInt32.toNat_inj.mp ?_⟩
  rw [stored, stored', settled.2]

theorem IntegersDocumented.of_stored {base graph : Graph} {given : Id → Nat → Prop}
    (stored : ∀ id node, base.nodes.length ≤ id.ix → graph.get id = .ok (.integer node) →
      node.Stored)
    (sized : ∀ id node, base.nodes.length ≤ id.ix → graph.get id = .ok (.integer node) →
      given id node.bitsize.toNat ∧ ∀ bits, given id bits → node.bitsize.toNat = bits) :
    IntegersDocumented base graph given where
  stored := stored
  given := sized
  alike := by
    intro id id' node node' result new new' got got' compared equal
    exact Integer.equals_alike (stored id node new got) (stored id' node' new' got') compared equal

namespace AbiXml

/-- The type declaration that is processed for the node gives this number of bits. -/
def GivenBits (root : Element) (s : Corpus) (id : Id) (bits : Nat) : Prop :=
  ∃ typeId scopeName element size, .definition typeId scopeName element ∈ processedRoot root ∧
    element.name = "type-decl" ∧ s.typeIds.lookup typeId = some id ∧
    readAttribute parseUInt64 element "size-in-bits" 0 = .ok size ∧ size.toNat = bits

/-- The sizes of all integers are below 2^32. -/
def SizesFit (root : Element) : Prop :=
  ∀ typeId scopeName element name size, .definition typeId scopeName element ∈ processedRoot root →
    element.name = "type-decl" → getAttribute element "name" = some name →
    scopeName ++ name ≠ "void" → readAttribute parseUInt64 element "size-in-bits" 0 = .ok size →
    size.toNat < 2 ^ 32

/-- The integer that is made of these. -/
def integerOf (name : String) (size : UInt64) : Integer :=
  ⟨name, integerEncoding name, size.toUInt32, ((size + 7) / 8).toUInt32⟩

variable {typeId scopeName : String} {element root : Element} {node : Integer} {size : UInt64}

theorem readTypeDecl_integer_iff : readTypeDecl scopeName element = .ok (.integer node) ↔
    ∃ name size, getAttribute element "name" = some name ∧ scopeName ++ name ≠ "void" ∧
      readAttribute parseUInt64 element "size-in-bits" 0 = .ok size ∧
      node = integerOf (scopeName ++ name) size := by
  unfold readTypeDecl
  constructor
  · intro read
    obtain ⟨name, named, read⟩ := bind_eq_ok read
    obtain ⟨size, sized, read⟩ := bind_eq_ok read
    dsimp only at read
    split at read
    · cases read
    · rename_i other
      cases read
      exact ⟨name, size, getAttribute_of_ok named, other, sized, rfl⟩
  · rintro ⟨name, size, named, other, sized, rfl⟩
    have given : getAttributeOrDie element "name" = .ok name := by rw [getAttributeOrDie, named]
    rw [given, sized]
    exact if_neg other

theorem integerOf_fits_iff (name : String) (size : UInt64) :
    (integerOf name size).bitsize.toNat = size.toNat ↔ size.toNat < 2 ^ 32 := by
  unfold integerOf
  rw [UInt64.toNat_toUInt32]
  omega

theorem integerOf_stored (name : String) {size : UInt64} (fits : size.toNat < 2 ^ 32) :
    (integerOf name size).Stored := by
  unfold Integer.Stored integerOf
  simp only [UInt64.toNat_toUInt32, UInt64.toNat_div, UInt64.toNat_add]
  have seven : (7 : UInt64).toNat = 7 := rfl
  have eight : (8 : UInt64).toNat = 8 := rfl
  rw [seven, eight]
  omega

theorem integer?_eq_some {part : Processed} {address : Address} :
    part.integer? = some (address, node) ↔ ∃ typeId scopeName element,
      part = .definition typeId scopeName element ∧ address = .type typeId ∧
      element.name = "type-decl" ∧ readTypeDecl scopeName element = .ok (.integer node) := by
  constructor
  · intro found
    cases part with
    | declaration => cases found
    | definition typeId scopeName element =>
      unfold Processed.integer? at found
      dsimp only at found
      split at found
      · rename_i named
        split at found
        · rename_i read
          cases found
          exact ⟨typeId, scopeName, element, rfl, rfl, named, read⟩
        · cases found
      · cases found
  · rintro ⟨typeId, scopeName, element, rfl, rfl, named, read⟩
    unfold Processed.integer?
    dsimp only
    rw [if_pos named, read]

section

variable {base : Graph} {s : Corpus} {contents : Contents} {place : Place} {address : Address}

theorem Contents.mem_integers :
    (address, node) ∈ contents.integers ↔ (address, .integer node) ∈ contents.entries := by
  unfold Contents.integers
  rw [List.mem_filterMap]
  constructor
  · rintro ⟨⟨other, content⟩, among, found⟩
    cases content with
    | integer =>
      cases found
      exact among
    | _ => cases found
  · intro among
    exact ⟨_, among, rfl⟩

/-- An integer is said where a type declaration is processed. -/
theorem Tallies.integer_iff {parts : List Processed} (tallies : Tallies parts contents) :
    (address, .integer node) ∈ contents.entries ↔ ∃ typeId scopeName element,
      .definition typeId scopeName element ∈ parts ∧ address = .type typeId ∧
        element.name = "type-decl" ∧ readTypeDecl scopeName element = .ok (.integer node) := by
  rw [← Contents.mem_integers, tallies.integers, List.mem_filterMap]
  constructor
  · rintro ⟨part, among, found⟩
    obtain ⟨typeId, scopeName, element, rfl, same, rest⟩ := integer?_eq_some.mp found
    exact ⟨typeId, scopeName, element, among, same, rest⟩
  · rintro ⟨typeId, scopeName, element, among, same, rest⟩
    exact ⟨_, among, integer?_eq_some.mpr ⟨typeId, scopeName, element, rfl, same, rest⟩⟩

/-- An integer that has been added is one that is said. -/
theorem Holds.integer_said (holds : Holds base s.cleared contents place) {id : Id}
    (new : base.nodes.length ≤ id.ix) (got : s.graph.get id = .ok (.integer node)) :
    ∃ address, place address = some id ∧ (address, .integer node) ∈ contents.entries := by
  have inside : id.ix < s.graph.nodes.length := (Graph.Is.lt ⟨_, got⟩)
  rcases holds.made id new inside with ⟨address, placed⟩ | ⟨made, content, among, got', makes⟩
  · obtain ⟨content, known, same⟩ := holds.content placed got
    cases content with
    | integer =>
      cases same
      unfold Contents.content? at known
      split at known
      · cases known
      · exact ⟨address, placed, Lookup.mem_of_lookup known⟩
    | _ => cases same
  · have fits := holds.unlinkedFits content among
    cases got.symm.trans got'
    have same := makes.node
    cases content with
    | integer => exact False.elim fits
    | _ => cases same

/-- The integers of the graph are those of the type declarations that are processed. -/
theorem Holds.integer_iff (holds : Holds base s.cleared contents place)
    (tallies : Tallies (processedRoot root) contents) {id : Id} :
    base.nodes.length ≤ id.ix ∧ s.graph.get id = .ok (.integer node) ↔
      ∃ typeId scopeName element, .definition typeId scopeName element ∈ processedRoot root ∧
        element.name = "type-decl" ∧ s.typeIds.lookup typeId = some id ∧
        readTypeDecl scopeName element = .ok (.integer node) := by
  constructor
  · rintro ⟨new, got⟩
    obtain ⟨address, placed, present⟩ := holds.integer_said new got
    obtain ⟨typeId, scopeName, element, among, rfl, named, read⟩ := tallies.integer_iff.mp present
    exact ⟨typeId, scopeName, element, among, named, (holds.type typeId).trans placed, read⟩
  · rintro ⟨typeId, scopeName, element, among, named, slot, read⟩
    have placed : place (.type typeId) = some id := (holds.type typeId).symm.trans slot
    have present := tallies.integer_iff.mpr ⟨typeId, scopeName, element, among, rfl, named, read⟩
    exact ⟨(holds.new _ id placed).1, holds.get placed (holds.content_of_mem present)⟩

/-- A type that is defined has an id. -/
theorem Holds.defined_slot (holds : Holds base s.cleared contents place)
    (tallies : Tallies (processedRoot root) contents)
    (among : .definition typeId scopeName element ∈ processedRoot root) :
    ∃ id, s.typeIds.lookup typeId = some id := by
  have defined : typeId ∈ contents.typeIds := by
    rw [tallies.types]
    exact List.mem_filterMap.mpr ⟨_, among, rfl⟩
  have placed := (holds.known _).mpr (.inr (Contents.mem_typeIds.mp defined))
  obtain ⟨id, held⟩ := Option.ne_none_iff_exists'.mp placed
  exact ⟨id, (holds.type typeId).trans held⟩

/-- No type is defined twice. -/
theorem Holds.definition_unique (holds : Holds base s.cleared contents place)
    (tallies : Tallies (processedRoot root) contents) {part part' : Processed}
    (among : part ∈ processedRoot root) (among' : part' ∈ processedRoot root)
    (defines : part.typeId? = some typeId) (defines' : part'.typeId? = some typeId) :
    part = part' := by
  have distinct : (definedTypes (processedRoot root)).Nodup := by
    rw [← tallies.types, Contents.typeIds]
    refine holds.unique.filterMap ?_
    intro address other typeId first second
    cases address with
    | type =>
      cases first
      cases other with
      | type =>
        cases second
        rfl
      | variadic | part => cases second
    | variadic | part => cases first
  have symmetric : Std.Symm fun part part' : Processed => ∀ typeId, part.typeId? = some typeId →
      ∀ typeId', part'.typeId? = some typeId' → typeId ≠ typeId' :=
    ⟨fun _ _ apart _ first _ second same => apart _ second _ first same.symm⟩
  by_contra different
  have apart := (List.pairwise_filterMap.mp distinct).forall among among' different
  exact apart _ defines _ defines' rfl

end

theorem processRoot_integers_iff {base : Graph} {iteration : Iteration} {fuel : Nat} {rootId : Id}
    {s : Corpus} (accepted :
      (processRoot iteration fuel root).run { graph := base } = .ok rootId s) :
    IntegersDocumented base s.graph (GivenBits root s) ↔ SizesFit root := by
  obtain ⟨address, contents, place, means, _, _, holds⟩ :=
    (processRoot_reads base iteration fuel root).returns accepted
  have tallies := read_tallies means
  constructor
  · intro documented typeId scopeName element name size among named own other sized
    obtain ⟨id, slot⟩ := holds.defined_slot tallies among
    have read := readTypeDecl_integer_iff.mpr ⟨name, size, own, other, sized, rfl⟩
    obtain ⟨new, got⟩ := (holds.integer_iff tallies).mpr
      ⟨typeId, scopeName, element, among, named, slot, read⟩
    have same := (documented.given id _ new got).2 size.toNat
      ⟨typeId, scopeName, element, size, among, named, slot, sized, rfl⟩
    exact (integerOf_fits_iff _ size).mp same
  · intro fits
    apply IntegersDocumented.of_stored
    · intro id node new got
      obtain ⟨typeId, scopeName, element, among, named, slot, read⟩ :=
        (holds.integer_iff tallies).mp ⟨new, got⟩
      obtain ⟨name, size, own, other, sized, rfl⟩ := readTypeDecl_integer_iff.mp read
      exact integerOf_stored _ (fits _ _ _ _ _ among named own other sized)
    · intro id node new got
      obtain ⟨typeId, scopeName, element, among, named, slot, read⟩ :=
        (holds.integer_iff tallies).mp ⟨new, got⟩
      obtain ⟨name, size, own, other, sized, rfl⟩ := readTypeDecl_integer_iff.mp read
      have exactly := (integerOf_fits_iff (scopeName ++ name) size).mpr
        (fits _ _ _ _ _ among named own other sized)
      refine ⟨⟨typeId, scopeName, element, size, among, named, slot, sized, exactly.symm⟩, ?_⟩
      rintro bits ⟨typeId', scopeName', element', size', among', _, slot', sized', rfl⟩
      have same := holds.injective _ _ id ((holds.type _).symm.trans slot)
        ((holds.type _).symm.trans slot')
      cases same
      cases holds.definition_unique tallies among among' rfl rfl
      cases sized.symm.trans sized'
      exact exactly

end AbiXml

namespace Btf

/-- The INT record of the node gives this number of bits. -/
def GivenBits (records : List Record) (s : Structs) (id : Id) (bits : Nat) : Prop :=
  ∃ index name encoding bitsize bytesize,
    definition records index = some (.int name encoding bitsize bytesize) ∧
    s.btfTypeIds.lookup index = some id ∧ bitsize.toNat = bits

/-- The two sizes of each INT record agree. -/
def SizesAgree (records : List Record) : Prop :=
  ∀ name encoding bitsize bytesize, .int name encoding bitsize bytesize ∈ records →
    bytesize.toNat = (bitsize.toNat + 7) / 8

variable {data : List UInt8} {base : Graph} {records : List Record} {root : Id}
  {linked s : Structs} {record : Record}

theorem mem_of_definition {index : UInt32} (defined : definition records index = some record) :
    record ∈ records := by
  unfold definition at defined
  split at defined
  · cases defined
  · exact List.mem_of_getElem? (Option.filter_eq_some_iff.mp defined).1

/-- The integers of the graph are those of the INT records. -/
theorem Finished.integer_iff (finished : Finished data base records linked root s) {id : Id}
    {node : Integer} : base.nodes.length ≤ id.ix ∧ s.graph.get id = .ok (.integer node) ↔
      ∃ index, definition records index =
          some (.int node.name node.encoding node.bitsize node.bytesize) ∧
        s.btfTypeIds.lookup index = some id := by
  constructor
  · rintro ⟨new, got⟩
    rcases finished.linkedByPosition.made id _ new got with rfl | made
    · cases finished.got_root.symm.trans got
    · cases made with
      | record defined slot =>
        rename_i index record
        obtain ⟨id', node', slot', _, got', describes⟩ := finished.linked_at defined
        cases slot.symm.trans slot'
        cases got.symm.trans got'
        cases record with
        | int =>
          cases describes
          exact ⟨index, defined, slot⟩
        | enum | forward | datasec => cases describes
        | ptr | typedef | qualified | array | structUnion | symbol =>
          obtain ⟨_, _, same⟩ := describes
          cases same
        | funcProto =>
          obtain ⟨_, _, _, _, same⟩ := describes
          cases same
      | member _ described =>
        obtain ⟨_, _, same⟩ := described
        cases same
  · rintro ⟨index, defined, slot⟩
    obtain ⟨id', node', slot', new, got, describes⟩ := finished.linked_at defined
    cases slot.symm.trans slot'
    cases describes
    exact ⟨new, got⟩

theorem process_integers_iff (finished : Finished data base records linked root s) :
    IntegersDocumented base s.graph (GivenBits records s) ↔ SizesAgree records := by
  constructor
  · intro documented name encoding bitsize bytesize among
    obtain ⟨k, held⟩ := List.mem_iff_getElem?.mp among
    have defined := definition_at (Sectioned.short finished.sectioned) held rfl
    obtain ⟨id, node, slot, new, got, describes⟩ := finished.linked_at defined
    cases describes
    exact documented.stored id _ new got
  · intro agree
    apply IntegersDocumented.of_stored
    · intro id node new got
      obtain ⟨index, defined, _⟩ := finished.integer_iff.mp ⟨new, got⟩
      exact agree _ _ _ _ (mem_of_definition defined)
    · intro id node new got
      obtain ⟨index, defined, slot⟩ := finished.integer_iff.mp ⟨new, got⟩
      refine ⟨⟨index, _, _, _, _, defined, slot, rfl⟩, ?_⟩
      rintro bits ⟨index', _, _, _, _, defined', slot', rfl⟩
      cases finished.linkedByPosition.injective index index' id slot slot'
      cases defined.symm.trans defined'
      rfl

end Btf

/-- The integers that are read from ABI XML are as documented if and only if all sizes that are
processed are below 2^32, and those from BTF if and only if the two sizes of each record agree.
Integers whose sizes agree compare equal only if they are alike. -/
theorem integers_documented_iff (base : Graph) (iteration : AbiXml.Iteration)
    (element : AbiXml.Element) (data : List UInt8) (verbose : Bool) (fuel : Nat)
    (self other : Integer) :
    (∀ rootId s, (AbiXml.processRoot iteration fuel element).run { graph := base } = .ok rootId s →
      (IntegersDocumented base s.graph (AbiXml.GivenBits element s) ↔ AbiXml.SizesFit element)) ∧
    (∀ root s, data.length < fuel →
      (Btf.process data fuel verbose).run { graph := base } = .ok root s →
      ∃ records, Btf.Sectioned data records ∧
        (IntegersDocumented base s.graph (Btf.GivenBits records s) ↔ Btf.SizesAgree records)) ∧
    (∀ result, self.Stored → other.Stored →
      (self.equals other : Except Error Result) = .ok result → result.equals = true →
      self.Alike other) := by
  refine ⟨?_, ?_, ?_⟩
  · intro rootId s accepted
    exact AbiXml.processRoot_integers_iff accepted
  · intro root s enough accepted
    obtain ⟨records, linked, finished⟩ :=
      (Btf.process_ends data base verbose enough).returns accepted
    exact ⟨records, finished.sectioned, Btf.process_integers_iff finished⟩
  · intro result stored stored' compared equal
    exact Integer.equals_alike stored stored' compared equal

/-- A corpus with a variable of an integer type of the size. -/
def intDocument (size : String) : AbiXml.Element :=
  AbiXml.variableOf "i" [.mk "type-decl" [("id", "i"), ("name", "int"), ("size-in-bits", size)] []]

theorem processedRoot_intDocument (size : String) : AbiXml.processedRoot (intDocument size) =
    [.declaration true "" (.mk "var-decl" [("name", "x"), ("type-id", "i"),
        ("elf-symbol-id", "x")] []),
      .definition "i" "" (.mk "type-decl" [("id", "i"), ("name", "int"),
        ("size-in-bits", size)] [])] := rfl

/-- An INT record of 32 bits in so many bytes. -/
def intRecord (bytesize : UInt32) : List UInt8 := Btf.assemble [1, 0x01000000, bytesize, 32] [0, 97, 0]

theorem integers_documented_int :
    (∃ rootId s, (AbiXml.processRoot .inOrder 0 (intDocument "32")).run { graph := ⟨[]⟩ } =
        .ok rootId s ∧
      IntegersDocumented ⟨[]⟩ s.graph (AbiXml.GivenBits (intDocument "32") s)) ∧
    ∃ root s records, (Btf.process (intRecord 4) 100 false).run { graph := ⟨[]⟩ } = .ok root s ∧
      Btf.Sectioned (intRecord 4) records ∧
      (IntegersDocumented ⟨[]⟩ s.graph (Btf.GivenBits records s) ↔ Btf.SizesAgree records) := by
  constructor
  · obtain ⟨s, ran⟩ := AbiXml.returns_of_returned (show AbiXml.returned? ((AbiXml.processRoot
      .inOrder 0 (intDocument "32")).run { graph := ⟨[]⟩ }) = some ⟨2⟩ by decide +kernel)
    obtain ⟨documented, _⟩ := integers_documented_iff ⟨[]⟩ .inOrder (intDocument "32") [] false 0
      ⟨"int", .signedInteger, 32, 4⟩ ⟨"int", .signedInteger, 32, 4⟩
    refine ⟨_, s, ran, (documented _ s ran).mpr ?_⟩
    intro typeId scopeName element name size among named own other sized
    rw [processedRoot_intDocument] at among
    rcases List.mem_cons.mp among with same | among
    · cases same
    · cases List.mem_singleton.mp among
      have given : AbiXml.readAttribute AbiXml.parseUInt64 (.mk "type-decl" [("id", "i"),
        ("name", "int"), ("size-in-bits", "32")] []) "size-in-bits" 0 = .ok 32 := by decide +kernel
      cases given.symm.trans sized
      decide
  · have ran : made ((Btf.process (intRecord 4) 100 false).run { graph := ⟨[]⟩ }) =
        some (⟨1⟩, [some (.integer ⟨"a", .unsignedInteger, 32, 4⟩),
          some (.symbols ⟨[], by decide⟩)]) := by decide +kernel
    obtain ⟨s, ran, _⟩ := returns_of_made ran
    obtain ⟨_, agree, _⟩ := integers_documented_iff ⟨[]⟩ .inOrder (intDocument "32") (intRecord 4)
      false 100 ⟨"a", .unsignedInteger, 32, 4⟩ ⟨"a", .unsignedInteger, 32, 4⟩
    obtain ⟨records, sectioned, documented⟩ := agree ⟨1⟩ s (by decide +kernel) ran
    exact ⟨⟨1⟩, s, records, ran, sectioned, documented⟩

/-- A size of 2^32 + 32 bits becomes one of 32 bits, and a record of 32 bits in 8 bytes becomes
an integer that compares equal with one in 4 bytes. -/
theorem integers_undocumented :
    (∃ rootId s, (AbiXml.processRoot .inOrder 0 (intDocument "4294967328")).run { graph := ⟨[]⟩ } =
        .ok rootId s ∧
      s.graph.get ⟨0⟩ = .ok (.integer ⟨"int", .signedInteger, 32, 536870916⟩) ∧
      ¬ IntegersDocumented ⟨[]⟩ s.graph (AbiXml.GivenBits (intDocument "4294967328") s)) ∧
    ∃ root s root' s', (Btf.process (intRecord 8) 100 false).run { graph := ⟨[]⟩ } = .ok root s ∧
      (Btf.process (intRecord 4) 100 false).run { graph := ⟨[]⟩ } = .ok root' s' ∧
      s.graph.get ⟨0⟩ = .ok (.integer ⟨"a", .unsignedInteger, 32, 8⟩) ∧
      s'.graph.get ⟨0⟩ = .ok (.integer ⟨"a", .unsignedInteger, 32, 4⟩) ∧
      ¬ (⟨"a", .unsignedInteger, 32, 8⟩ : Integer).Stored ∧
      (Integer.equals ⟨"a", .unsignedInteger, 32, 8⟩ ⟨"a", .unsignedInteger, 32, 4⟩ :
        Except Error Result) = .ok {} := by
  constructor
  · have ran : made ((AbiXml.processRoot .inOrder 0 (intDocument "4294967328")).run
        { graph := ⟨[]⟩ }) = some (⟨2⟩, [some (.integer ⟨"int", .signedInteger, 32, 536870916⟩),
          some (.elfSymbol ⟨"x", none, true, .object, .global, .default, none, some ⟨0⟩, some "x"⟩),
          some (.symbols ⟨[(⟨"", "x"⟩, ⟨1⟩)], by decide⟩)]) := by decide +kernel
    obtain ⟨s, ran, nodes⟩ := returns_of_made ran
    change s.graph.nodes = _ at nodes
    refine ⟨⟨2⟩, s, ran, ?_, ?_⟩
    · rw [Graph.get_eq_ok, nodes]
      rfl
    · intro documented
      have fits := (AbiXml.processRoot_integers_iff ran).mp documented "i" "" _ "int" 4294967328
        (by rw [processedRoot_intDocument]; exact List.mem_cons_of_mem _ List.mem_cons_self)
        rfl rfl (by decide) (by decide +kernel)
      exact absurd fits (by decide)
  · have ran8 : made ((Btf.process (intRecord 8) 100 false).run { graph := ⟨[]⟩ }) =
        some (⟨1⟩, [some (.integer ⟨"a", .unsignedInteger, 32, 8⟩),
          some (.symbols ⟨[], by decide⟩)]) := by decide +kernel
    have ran4 : made ((Btf.process (intRecord 4) 100 false).run { graph := ⟨[]⟩ }) =
        some (⟨1⟩, [some (.integer ⟨"a", .unsignedInteger, 32, 4⟩),
          some (.symbols ⟨[], by decide⟩)]) := by decide +kernel
    obtain ⟨s, ran8, nodes⟩ := returns_of_made ran8
    change s.graph.nodes = _ at nodes
    obtain ⟨s', ran4, nodes'⟩ := returns_of_made ran4
    change s'.graph.nodes = _ at nodes'
    refine ⟨⟨1⟩, s, ⟨1⟩, s', ran8, ran4, ?_, ?_, by decide, by decide +kernel⟩
    · rw [Graph.get_eq_ok, nodes]
      rfl
    · rw [Graph.get_eq_ok, nodes']
      rfl

end Stg
