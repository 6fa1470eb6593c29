import Stg.Btf.Loop

set_option autoImplicit false

/- The whole of `Process`. -/
namespace Stg.Btf

theorem definition_nil (index : UInt32) : definition [] index = none := by
  unfold definition
  split
  · rfl
  · rfl

theorem Inv.initial (input : Input) (base : Graph) {reads : List Access}
    (allowed : ∀ access ∈ reads, input.Allows access) :
    Inv input base [] [] { graph := base, reads := reads } where
  kept := .refl base
  void := nofun
  variadic := nofun
  slot := nofun
  injective := nofun
  unset := nofun
  linked := by
    intro index record defined
    rw [definition_nil] at defined
    cases defined
  made := by
    intro id node new got
    have inside := Graph.Is.lt ⟨node, got⟩
    dsimp only at inside
    omega
  reads := allowed

theorem Named.initial (graph : Graph) (reads : List Access) :
    Named [] { graph := graph, reads := reads } where
  entries := by
    intro key id
    constructor
    · exact nofun
    · rintro ⟨index, record, name, defined, _⟩
      rw [definition_nil] at defined
      cases defined
  distinct := by
    intro index index' record record' name defined
    rw [definition_nil] at defined
    cases defined

/-- The input that a well-formed header describes. -/
def BtfHeader.Formed.toInput {data : List UInt8} (formed : (headerAt data).Formed data) : Input where
  data := data
  types := (headerAt data).typeSection
  strings := (headerAt data).stringSection
  typesInside := by
    have := formed.strings
    have := formed.stringsEnd
    have := formed.inside
    omega
  stringsInside := formed.inside

/-- What may be read of an input, whatever its header says. -/
def Allowed (data : List UInt8) (access : Access) : Prop :=
  access.offset + access.size ≤ data.length ∧
    match access.region with
    | .header => access.offset + access.size ≤ 24
    | .types => (headerAt data).typeSection.start ≤ access.offset ∧
        access.offset + access.size ≤ (headerAt data).typeSection.limit
    | .strings => (headerAt data).stringSection.start ≤ access.offset ∧
        access.offset + access.size ≤ (headerAt data).stringSection.limit

theorem HeaderAccess.allowed {data : List UInt8} {access : Access}
    (header : HeaderAccess data access) : Allowed data access := by
  obtain ⟨region, within, inside⟩ := header
  refine ⟨inside, ?_⟩
  rw [region]
  exact within

/-- The type section as a sequence of records. -/
def Sectioned (data : List UInt8) (records : List Record) : Prop :=
  Records data (headerAt data).stringSection (headerAt data).typeSection.start
    (headerAt data).typeSection.limit records

/-- What `Process` returns with: `linked` is the state after the last record. -/
structure Finished (data : List UInt8) (base : Graph) (records : List Record) (linked : Structs)
    (root : Id) (s : Structs) : Prop where
  formed : (headerAt data).Formed data
  sectioned : Sectioned data records
  inv : Inv formed.toInput base records [] linked
  named : Named records linked
  root_eq : root = ⟨linked.graph.nodes.length⟩
  rest : Untouched (Allowed data)
    { linked with graph := ⟨linked.graph.nodes ++ [some (.symbols linked.btfSymbols)]⟩ } s

theorem Untouched.raised {data : List UInt8} {allowed : Access → Prop} {before : Structs}
    (weaker : ∀ access, allowed access → Allowed data access) (reason : Error) (s : Structs)
    (raised : Thrown reason ∧ Untouched allowed before s) :
    Thrown reason ∧ ∀ access ∈ s.reads, Allowed data access := by
  obtain ⟨thrown, reads, rfl, each⟩ := raised
  exact ⟨thrown, fun access among => weaker access (each access among)⟩

/-- The loop of `BuildTypes` on the type section, after the header has been checked. -/
theorem sectionRecords_ends {data : List UInt8} (base : Graph) {reads : List Access} {fuel : Nat}
    (formed : (headerAt data).Formed data) (header : ∀ access ∈ reads, HeaderAccess data access)
    (enough : data.length < fuel) :
    (buildRecords data (headerAt data).stringSection fuel 1 (headerAt data).typeSection).Ends
      { graph := base, reads := reads }
      (fun memory linked =>
        memory = ⟨(headerAt data).typeSection.limit, (headerAt data).typeSection.limit⟩ ∧
          ∃ records, Sectioned data records ∧ Inv formed.toInput base records [] linked ∧
            Named records linked)
      (Raised formed.toInput) := by
  have types : (headerAt data).typeSection.limit ≤ data.length := formed.toInput.typesInside
  have short : (headerAt data).typeSection.limit - (headerAt data).typeSection.start < 2 ^ 32 := by
    have := (headerAt data).typeLen.toNat_lt
    unfold BtfHeader.typeSection
    dsimp only
    omega
  have initial := Inv.initial formed.toInput base fun access among => (header access among).allowed
  have built := @buildRecords_ends formed.toInput base [] _ 1 _ fuel initial
    (Named.initial base reads) rfl (le_refl _) formed.typesEnd (by simp) short
    (lt_of_le_of_lt ((Nat.sub_le _ _).trans types) enough)
  exact built

theorem buildTypes_ends {data : List UInt8} (base : Graph) {reads : List Access} {fuel : Nat}
    (formed : (headerAt data).Formed data) (header : ∀ access ∈ reads, HeaderAccess data access)
    (enough : data.length < fuel) :
    (buildTypes data (headerAt data).stringSection fuel (headerAt data).typeSection).Ends
      { graph := base, reads := reads }
      (fun root s => ∃ records linked, Finished data base records linked root s)
      (fun reason s => Thrown reason ∧ ∀ access ∈ s.reads, Allowed data access) := by
  unfold buildTypes
  apply EStateM.Ends.bind (sectionRecords_ends base formed header enough)
  rintro _ linked ⟨rfl, records, sectioned, inv, named⟩
  apply EStateM.Ends.get_bind
  exact add_ends _ ⟨records, linked, formed, sectioned, inv, named, rfl, linked.reads,
    rfl, inv.reads⟩

theorem process_ends (data : List UInt8) (base : Graph) (verbose : Bool) {fuel : Nat}
    (enough : data.length < fuel) :
    (process data fuel verbose).Ends { graph := base }
      (fun root s => ∃ records linked, Finished data base records linked root s)
      (fun reason s => Thrown reason ∧ ∀ access ∈ s.reads, Allowed data access) := by
  have untouched : Untouched (HeaderAccess data) { graph := base } { graph := base } :=
    ⟨[], rfl, nofun⟩
  have early := fun before => @Untouched.raised data _ before fun _ => HeaderAccess.allowed
  unfold process
  apply EStateM.Ends.bind ((readHeader_peeks untouched verbose).imp (fun _ _ => id) (early _))
  rintro _ s₁ ⟨untouched₁, rfl⟩
  apply EStateM.Ends.bind ((checkSections_peeks untouched₁ _).imp (fun _ _ => id) (early _))
  rintro _ _ ⟨⟨reads, rfl, header⟩, formed⟩
  apply EStateM.Ends.bind (buildTypes_ends base formed header enough)
  rintro root s ⟨records, linked, finished⟩
  have printed : Peeks formed.toInput.Allows
      { linked with graph := ⟨linked.graph.nodes ++ [some (.symbols linked.btfSymbols)]⟩ } s
      (ifVerbose verbose (printStrings data fuel (headerAt data).stringSection))
      (fun _ => True) := by
    cases verbose with
    | false => exact Peeks.pure finished.rest trivial
    | true =>
      have strings : (headerAt data).stringSection.limit ≤ data.length := formed.inside
      exact @printStrings_peeks formed.toInput _ s fuel _ finished.rest (le_refl _)
        formed.stringsEnd (lt_of_le_of_lt ((Nat.sub_le _ _).trans strings) enough)
  apply EStateM.Ends.bind (printed.imp (fun _ _ => id) (Untouched.raised fun _ allowed => allowed))
  rintro _ s' ⟨untouched', _⟩
  exact ⟨records, linked, finished.formed, finished.sectioned, finished.inv, finished.named,
    finished.root_eq, untouched'⟩

/-- Whatever the bytes are, the reader returns or throws; each of its reads lies inside
the input and inside its section; and the loop over the records ends at the end of
the type section. -/
theorem process_inside (data : List UInt8) (base : Graph) (verbose : Bool) (fuel : Nat)
    (enough : data.length < fuel) :
    (process data fuel verbose).Ends { graph := base }
        (fun _ s => (∀ access ∈ s.reads, Allowed data access) ∧ (headerAt data).Formed data ∧
          ∃ records, Sectioned data records)
        (fun reason s => (∃ message, reason = .exception message) ∧
          ∀ access ∈ s.reads, Allowed data access) ∧
      ((headerAt data).Formed data → ∀ reads : List Access,
        (∀ access ∈ reads, HeaderAccess data access) →
        (buildRecords data (headerAt data).stringSection fuel 1 (headerAt data).typeSection).Ends
          { graph := base, reads := reads }
          (fun memory _ => memory.start = (headerAt data).typeSection.limit ∧
            memory.limit = (headerAt data).typeSection.limit)
          (fun reason _ => ∃ message, reason = .exception message)) := by
  constructor
  · apply (process_ends data base verbose enough).imp
    · rintro root s ⟨records, linked, finished⟩
      obtain ⟨reads, rfl, allowed⟩ := finished.rest
      exact ⟨allowed, finished.formed, records, finished.sectioned⟩
    · rintro reason s ⟨⟨message, thrown, _⟩, allowed⟩
      exact ⟨⟨message, thrown⟩, allowed⟩
  · intro formed reads header
    apply (sectionRecords_ends base formed header enough).imp
    · rintro _ linked ⟨rfl, _⟩
      exact ⟨rfl, rfl⟩
    · rintro reason s ⟨⟨message, thrown, _⟩, _⟩
      exact ⟨message, thrown⟩

/- Inputs made of words. -/

def word (value : UInt32) : List UInt8 :=
  [value.toUInt8, (value >>> 8).toUInt8, (value >>> 16).toUInt8, (value >>> 24).toUInt8]

/-- An input with the given type section and string section after a header. -/
def assemble (types : List UInt32) (strings : List UInt8) : List UInt8 :=
  [0x9F, 0xEB, 1, 0] ++
    [24, 0, 4 * types.length, 4 * types.length, strings.length].flatMap
      (fun value => word value.toUInt32) ++
    types.flatMap word ++ strings

/-- A pointer to the record after the next, a skipped record and a variable. -/
def forwardPointer : List UInt8 :=
  assemble [0, 0x02000000, 3, 0, 0x0f000000, 0, 1, 0x0e000000, 1, 0] [0, 97, 0]

theorem forwardPointer_formed : (headerAt forwardPointer).Formed forwardPointer := by
  constructor <;> decide +kernel

theorem process_inside_forwardPointer :
    (process forwardPointer 100 true).Ends { graph := ⟨[]⟩ }
        (fun _ s => (∀ access ∈ s.reads, Allowed forwardPointer access) ∧
          (headerAt forwardPointer).Formed forwardPointer ∧
          ∃ records, Sectioned forwardPointer records)
        (fun reason s => (∃ message, reason = .exception message) ∧
          ∀ access ∈ s.reads, Allowed forwardPointer access) ∧
      (buildRecords forwardPointer (headerAt forwardPointer).stringSection 100 1
          (headerAt forwardPointer).typeSection).Ends { graph := ⟨[]⟩, reads := [] }
        (fun memory _ => memory.start = (headerAt forwardPointer).typeSection.limit ∧
          memory.limit = (headerAt forwardPointer).typeSection.limit)
        (fun reason _ => ∃ message, reason = .exception message) :=
  have inside := process_inside forwardPointer ⟨[]⟩ true 100 (by decide +kernel)
  ⟨inside.1, inside.2 forwardPointer_formed [] nofun⟩

end Stg.Btf
