import Stg.Reporting

set_option autoImplicit false

/- Which exceptions the printers can raise. On outcomes whose edges all lead to
entries, a missing comparison is not one of them. -/
namespace Stg

/-- The call does not throw the exception. -/
def Avoids {α : Type} (message : String) (call : Except Error α) : Prop :=
  call ≠ .error (.exception message)

section Calls

variable {α β σ : Type} {message : String}

theorem Avoids.ok (value : α) : Avoids message (.ok value : Except Error α) := nofun

/-- A sequence avoids what both of its parts avoid. -/
theorem Avoids.bind {call : Except Error α} {rest : α → Except Error β}
    (first : Avoids message call) (second : ∀ value, Avoids message (rest value)) :
    Avoids message (call >>= rest) := by
  cases call with
  | error reason => exact fun raised => first (by cases raised; rfl)
  | ok value => exact second value

/-- The call does not throw the exception from any name cache. -/
def NameM.Avoids (message : String) (call : NameM α) : Prop :=
  ∀ names, Stg.Avoids message (call.run names)

theorem NameM.Avoids.bind {call : NameM α} {rest : α → NameM β}
    (first : NameM.Avoids message call) (second : ∀ value, NameM.Avoids message (rest value)) :
    NameM.Avoids message (call >>= rest) := fun names =>
  Stg.Avoids.bind (first names) fun out => second out.1 out.2

theorem NameM.Avoids.pure (value : α) : NameM.Avoids message (Pure.pure value) := fun _ =>
  Stg.Avoids.ok _

theorem NameM.Avoids.ofExcept {value : Except Error α} (avoids : Stg.Avoids message value) :
    NameM.Avoids message (Stg.ofExcept value) := by
  cases value with
  | error reason => exact fun _ raised => avoids (by cases raised; rfl)
  | ok value => exact NameM.Avoids.pure value

/-- From states of the printer with the property, the call does not throw the
exception, and it keeps the property. -/
def PrinterAvoids (P : σ → Prop) (message : String) (call : StateT σ NameM α) : Prop :=
  ∀ s names, P s →
    match (call.run s).run names with
    | .ok out => P out.1.2
    | .error reason => reason ≠ .exception message

variable {P : σ → Prop}

theorem PrinterAvoids.raises_not {call : StateT σ NameM α} (avoids : PrinterAvoids P message call)
    {s : σ} {names : NameCache} (holds : P s) :
    (call.run s).run names ≠ .error (.exception message) := by
  intro raised
  have ran := avoids s names holds
  rw [raised] at ran
  exact ran rfl

/-- The first part keeps the property, so the second starts with it. -/
theorem PrinterAvoids.bind {call : StateT σ NameM α} {rest : α → StateT σ NameM β}
    (first : PrinterAvoids P message call)
    (second : ∀ value, PrinterAvoids P message (rest value)) :
    PrinterAvoids P message (call >>= rest) := by
  intro s names holds
  have ran := first s names holds
  rw [StateT.run_bind, StateT.run_bind]
  cases called : (call.run s).run names with
  | error reason => rw [called] at ran; exact ran
  | ok out => rw [called] at ran; exact second out.1.1 out.1.2 out.2 ran

theorem PrinterAvoids.pure (value : α) :
    PrinterAvoids P message (Pure.pure value : StateT σ NameM α) := fun _ _ holds => holds

theorem PrinterAvoids.named {call : NameM α} (avoids : NameM.Avoids message call) :
    PrinterAvoids P message (liftM call : StateT σ NameM α) := by
  intro s names holds
  have ran := avoids names
  change match (call >>= fun value => Pure.pure (value, s)).run names with
    | .ok out => P out.1.2
    | .error reason => reason ≠ .exception message
  rw [StateT.run_bind]
  cases called : call.run names with
  | error reason => exact fun raised => ran (by rw [called, raised])
  | ok out => exact holds

/-- A change of state throws nothing, but has to keep the property. -/
theorem printerAvoids_modify {f : σ → σ} (keeps : ∀ s, P s → P (f s)) :
    PrinterAvoids P message (modify f : StateT σ NameM PUnit) := fun s _ holds => keeps s holds

theorem printerAvoids_get_bind {rest : σ → StateT σ NameM α}
    (second : ∀ s, P s → PrinterAvoids P message (rest s)) :
    PrinterAvoids P message (get >>= rest) := fun s names holds => second s holds s names holds

theorem PrinterAvoids.ofExcept {value : Except Error α} (avoids : Stg.Avoids message value) :
    PrinterAvoids P message (Stg.ofExcept value : StateT σ NameM α) := by
  cases value with
  | error reason => exact fun _ _ _ raised => avoids (by rw [raised])
  | ok value => exact PrinterAvoids.pure value

theorem printerAvoids_throw {reason : Error} (other : reason ≠ .exception message) :
    PrinterAvoids P message (throw reason : StateT σ NameM α) := fun _ _ _ => other

end Calls

section Naming

variable {graph : Graph} {fuel : Nat} {message : String}

theorem get_avoids (id : Id) : Avoids message (graph.get id) := by
  unfold Graph.get Avoids
  split <;> simp

/-- Walks over the graph throw no exception. -/
theorem resolveQualifiers_avoids (id : Id) (qualifiers : Qualifiers) :
    Avoids message (resolveQualifiers graph fuel id qualifiers) := by
  induction fuel generalizing id qualifiers with
  | zero => exact nofun
  | succ fuel ih =>
    refine Avoids.bind (get_avoids id) fun node => ?_
    split
    · exact ih _ _
    · exact Avoids.ok _

theorem resolveTypedefs_avoids (id : Id) (typedefs : List String) :
    Avoids message (resolveTypedefs graph fuel id typedefs) := by
  induction fuel generalizing id typedefs with
  | zero => exact nofun
  | succ fuel ih =>
    refine Avoids.bind (get_avoids id) fun node => ?_
    split
    · exact ih _ _
    · exact Avoids.ok _

theorem firstKey_avoids {key : Id → Except Error String} (keys : ∀ id, Avoids message (key id))
    (members : List Id) : Avoids message (firstKey key members) := by
  induction members with
  | nil => exact Avoids.ok _
  | cons member members ih =>
    refine Avoids.bind (keys member) fun own => ?_
    split
    · exact Avoids.ok _
    · exact ih

theorem matchingKey_avoids (id : Id) : Avoids message (matchingKey graph fuel id) := by
  induction fuel generalizing id with
  | zero => exact nofun
  | succ fuel ih =>
    refine Avoids.bind (get_avoids id) fun node => ?_
    cases node with
    | baseClass node => exact ih _
    | member node =>
      dsimp only
      split
      · exact Avoids.ok _
      · exact ih _
    | structUnion node =>
      dsimp only
      split
      · exact Avoids.ok _
      · split
        · exact firstKey_avoids ih _
        · exact Avoids.ok _
    | _ => exact Avoids.ok _

/-- Naming throws one exception, which is another. -/
theorem Name.qualify_avoids (name : Name) (qualifiers : Qualifiers)
    (other : message ≠ "qualifiers found for inappropriate node") :
    Avoids message (name.qualify qualifiers) := by
  unfold Name.qualify
  split
  · exact Avoids.ok _
  · split
    · exact Avoids.ok _
    · exact Avoids.ok _
    · exact fun raised => other (by cases raised; rfl)

variable {describe : Id → NameM Name}

theorem describeAll_avoids (names : ∀ id, NameM.Avoids message (describe id))
    (before after : String) (ids : List Id) :
    NameM.Avoids message (describeAll describe before after ids) := by
  induction ids with
  | nil => exact NameM.Avoids.pure _
  | cons id ids ih =>
    exact NameM.Avoids.bind (names id) fun _ => NameM.Avoids.bind ih fun _ => NameM.Avoids.pure _

theorem StructUnion.describeBody_avoids (names : ∀ id, NameM.Avoids message (describe id))
    (self : StructUnion) : NameM.Avoids message (self.describeBody describe) := by
  unfold StructUnion.describeBody
  split
  · exact NameM.Avoids.pure _
  · split
    · exact NameM.Avoids.bind (describeAll_avoids names _ _ _) fun _ => NameM.Avoids.pure _
    · exact NameM.Avoids.pure _

theorem describeParameters_avoids (names : ∀ id, NameM.Avoids message (describe id))
    (ids : List Id) : NameM.Avoids message (describeParameters describe ids) := by
  unfold describeParameters
  split
  · exact NameM.Avoids.pure _
  · exact NameM.Avoids.bind (names _) fun _ =>
      NameM.Avoids.bind (describeAll_avoids names _ _ _) fun _ => NameM.Avoids.pure _

/-- A description throws what its parts throw, or the exception of qualifiers. -/
theorem Node.makeDescription_avoids (names : ∀ id, NameM.Avoids message (describe id))
    (other : message ≠ "qualifiers found for inappropriate node") (node : Node) :
    NameM.Avoids message (node.makeDescription graph fuel describe) := by
  cases node with
  | void | variadic | typedef | integer | method | enumeration | symbols =>
    exact NameM.Avoids.pure _
  | pointerReference node | array node =>
    exact NameM.Avoids.bind (names _) fun _ => NameM.Avoids.pure _
  | qualified node =>
    refine NameM.Avoids.bind (NameM.Avoids.ofExcept (resolveQualifiers_avoids _ _)) fun found => ?_
    exact NameM.Avoids.bind (names _) fun name =>
      NameM.Avoids.ofExcept (name.qualify_avoids _ other)
  | baseClass node =>
    exact NameM.Avoids.bind (NameM.Avoids.ofExcept (matchingKey_avoids _)) fun _ =>
      NameM.Avoids.pure _
  | member node => exact NameM.Avoids.bind (names _) fun _ => NameM.Avoids.pure _
  | structUnion node =>
    exact NameM.Avoids.bind (node.describeBody_avoids names) fun _ => NameM.Avoids.pure _
  | function node =>
    exact NameM.Avoids.bind (describeParameters_avoids names _) fun _ =>
      NameM.Avoids.bind (names _) fun _ => NameM.Avoids.pure _
  | elfSymbol node =>
    unfold Node.makeDescription
    dsimp only
    split
    · exact NameM.Avoids.bind (names _) fun _ => NameM.Avoids.pure _
    · exact NameM.Avoids.pure _

/-- So names avoid every other exception, by induction on the fuel. -/
theorem getDescription_avoids (other : message ≠ "qualifiers found for inappropriate node")
    (id : Id) : NameM.Avoids message (getDescription graph fuel id) := by
  induction fuel generalizing id with
  | zero => exact nofun
  | succ fuel ih =>
    refine NameM.Avoids.bind (fun _ => Avoids.ok _) fun names => ?_
    split
    · exact NameM.Avoids.pure _
    · refine NameM.Avoids.bind (fun _ => Avoids.ok _) fun _ => ?_
      refine NameM.Avoids.bind (NameM.Avoids.ofExcept (get_avoids id)) fun node => ?_
      exact NameM.Avoids.bind (node.makeDescription_avoids ih other) fun _ =>
        NameM.Avoids.bind (fun _ => Avoids.ok _) fun _ => NameM.Avoids.pure _

theorem getResolvedDescription_avoids
    (other : message ≠ "qualifiers found for inappropriate node") (id : Id) :
    NameM.Avoids message (getResolvedDescription graph fuel id) :=
  NameM.Avoids.bind (NameM.Avoids.ofExcept (resolveTypedefs_avoids _ _)) fun _ =>
    NameM.Avoids.bind (getDescription_avoids other _) fun _ =>
      NameM.Avoids.bind (NameM.Avoids.ofExcept (get_avoids _)) fun _ => NameM.Avoids.pure _

theorem printComparison_avoids (other : message ≠ "qualifiers found for inappropriate node")
    (c : Comparison) : NameM.Avoids message (printComparison graph fuel c) := by
  unfold printComparison
  split
  · exact NameM.Avoids.bind (NameM.Avoids.ofExcept (get_avoids _)) fun _ =>
      NameM.Avoids.bind (getDescription_avoids other _) fun _ => NameM.Avoids.pure _
  · exact NameM.Avoids.bind (NameM.Avoids.ofExcept (get_avoids _)) fun _ =>
      NameM.Avoids.bind (getDescription_avoids other _) fun _ => NameM.Avoids.pure _
  · exact NameM.Avoids.bind (NameM.Avoids.ofExcept (get_avoids _)) fun _ =>
      NameM.Avoids.bind (getResolvedDescription_avoids other _) fun _ =>
        NameM.Avoids.bind (getResolvedDescription_avoids other _) fun _ => NameM.Avoids.pure _
  · exact nofun

end Naming

/-- Every edge of an entry leads to an entry. -/
def Outcomes.Closed (outcomes : Outcomes) : Prop :=
  ∀ c diff, outcomes.lookup c = some diff → ∀ detail ∈ diff.details,
    ∀ edge, detail.edge = some edge → outcomes.lookup edge ≠ none

section Printers

variable {graph : Graph} {outcomes : Outcomes} {fuel : Nat}

theorem naming_is_other : missingComparison ≠ "qualifiers found for inappropriate node" := by decide

theorem printDetails_avoids {print : Comparison → Nat → PlainM (List Piece)} {c : Comparison}
    {indent : Nat} {details : List DiffDetail}
    (edges : ∀ detail ∈ details, ∀ edge, detail.edge = some edge →
      ∀ indent, PrinterAvoids (fun _ => True) missingComparison (print edge indent)) :
    PrinterAvoids (fun _ => True) missingComparison (printDetails print c indent details) := by
  induction details with
  | nil => exact PrinterAvoids.pure _
  | cons detail details ih =>
    have own : PrinterAvoids (fun _ => True) missingComparison
        (printDetail print c indent detail) := by
      unfold printDetail
      split
      · exact PrinterAvoids.pure _
      · rename_i edge held
        exact PrinterAvoids.bind (edges detail (by simp) edge held indent) fun _ =>
          PrinterAvoids.pure _
    have rest := ih fun detail present => edges detail (by simp [present])
    exact PrinterAvoids.bind own fun _ => PrinterAvoids.bind rest fun _ => PrinterAvoids.pure _

/-- An edge leads to an entry, so the missing comparison is never met. -/
theorem printPlain_avoids (closed : outcomes.Closed) (c : Comparison)
    (present : outcomes.lookup c ≠ none) (indent : Nat) :
    PrinterAvoids (fun _ => True) missingComparison
      (printPlain graph outcomes fuel c indent) := by
  induction fuel generalizing c indent with
  | zero => exact printerAvoids_throw nofun
  | succ fuel ih =>
    refine PrinterAvoids.bind
      (PrinterAvoids.named (printComparison_avoids naming_is_other c)) fun described => ?_
    dsimp only
    split
    · exact PrinterAvoids.pure _
    split
    · rename_i missing
      exact absurd missing present
    · rename_i diff held
      have details : PrinterAvoids (fun _ => True) missingComparison (printDetails
          (printPlain graph outcomes fuel) c (indent + indentIncrement) diff.details) :=
        printDetails_avoids fun detail among edge isEdge =>
          ih edge (closed c diff held detail among edge isEdge)
      refine printerAvoids_get_bind fun seen _ => ?_
      split
      · exact PrinterAvoids.pure _
      · exact PrinterAvoids.pure _
      · exact PrinterAvoids.bind (printerAvoids_modify fun _ _ => trivial) fun _ =>
          PrinterAvoids.bind details fun _ =>
            PrinterAvoids.bind (printerAvoids_modify fun _ _ => trivial) fun _ =>
              PrinterAvoids.pure _

theorem reportPlain_avoids (closed : outcomes.Closed) (c : Comparison) :
    PrinterAvoids (fun _ => True) missingComparison (reportPlain graph outcomes fuel c) := by
  unfold reportPlain
  split
  · exact printerAvoids_throw (by decide)
  · rename_i diff held
    exact printDetails_avoids fun detail among edge isEdge =>
      printPlain_avoids closed edge (closed c diff held detail among edge isEdge)

/-- Only comparisons with an entry are queued. -/
def Queue.Inside (outcomes : Outcomes) (queue : Queue) : Prop :=
  ∀ c ∈ queue.todo, outcomes.lookup c ≠ none

/-- What is pushed has an entry, and so all that waits still has one. -/
theorem Queue.Inside.push {queue : Queue} (inside : queue.Inside outcomes) {c : Comparison}
    (present : outcomes.lookup c ≠ none) : (queue.push c).Inside outcomes := by
  unfold Queue.push
  split
  · exact inside
  · exact List.forall_mem_append.mpr ⟨inside, List.forall_mem_singleton.mpr present⟩

theorem foldlM_avoids {σ α β : Type} {P : σ → Prop} {body : β → α → StateT σ NameM β}
    {items : List α}
    (each : ∀ b, ∀ a ∈ items, PrinterAvoids P missingComparison (body b a)) (b : β) :
    PrinterAvoids P missingComparison (items.foldlM body b) := by
  induction items generalizing b with
  | nil => exact PrinterAvoids.pure _
  | cons a items ih =>
    rw [List.foldlM_cons]
    exact PrinterAvoids.bind (each b a (by simp)) fun b' =>
      ih (fun b a present => each b a (by simp [present])) b'

theorem flatPrint_avoids {full : Bool} (closed : outcomes.Closed) (c : Comparison)
    (present : outcomes.lookup c ≠ none) (stop : Bool) (indent : Nat) :
    PrinterAvoids (Queue.Inside outcomes) missingComparison
      (flatPrint graph outcomes full fuel c stop indent) := by
  induction fuel generalizing c stop indent with
  | zero => exact printerAvoids_throw nofun
  | succ fuel ih =>
    refine PrinterAvoids.bind
      (PrinterAvoids.named (printComparison_avoids naming_is_other c)) fun described => ?_
    dsimp only
    split
    · exact PrinterAvoids.pure _
    split
    · rename_i missing
      exact absurd missing present
    · rename_i diff held
      split
      · exact PrinterAvoids.bind (printerAvoids_modify fun _ inside => inside.push present)
          fun _ => PrinterAvoids.pure _
      split
      · exact printerAvoids_throw (by decide)
      · refine foldlM_avoids (fun state detail among => ?_) _
        unfold flatDetails
        split
        · exact PrinterAvoids.pure _
        · rename_i edge isEdge
          exact PrinterAvoids.bind (ih edge (closed c diff held detail among edge isEdge) _ _)
            fun _ => PrinterAvoids.pure _

theorem flatRoots_avoids {P : Queue → Prop} {print : Comparison → FlatM (Bool × List Piece)}
    {full : Bool} {details : List DiffDetail}
    (edges : ∀ detail ∈ details, ∀ edge, detail.edge = some edge →
      PrinterAvoids P missingComparison (print edge)) :
    PrinterAvoids P missingComparison (flatRoots print full details) := by
  induction details with
  | nil => exact PrinterAvoids.pure _
  | cons detail details ih =>
    rw [flatRoots]
    cases held : detail.edge with
    | none => exact fun _ _ _ => (nofun : Error.undefined ≠ .exception missingComparison)
    | some edge =>
      rw [deref, pure_bind]
      exact PrinterAvoids.bind (edges detail (by simp) edge held) fun _ =>
        PrinterAvoids.bind (ih fun detail present => edges detail (by simp [present])) fun _ =>
          PrinterAvoids.pure _

/-- What waits has an entry, and printing it makes others with entries wait. -/
theorem flatQueue_avoids {print : Comparison → FlatM (Bool × List Piece)} {full : Bool}
    (prints : ∀ c, outcomes.lookup c ≠ none →
      PrinterAvoids (Queue.Inside outcomes) missingComparison (print c)) :
    PrinterAvoids (Queue.Inside outcomes) missingComparison (flatQueue print full fuel) := by
  induction fuel with
  | zero => exact printerAvoids_throw nofun
  | succ fuel ih =>
    refine printerAvoids_get_bind fun queue inside => ?_
    split
    · exact PrinterAvoids.pure _
    · rename_i c todo held
      have insideAll : ∀ d ∈ c :: todo, outcomes.lookup d ≠ none := held ▸ inside
      refine PrinterAvoids.bind (printerAvoids_modify fun _ _ d present =>
        insideAll d (List.mem_cons_of_mem c present)) fun _ => ?_
      exact PrinterAvoids.bind (prints c (insideAll c (by simp))) fun _ =>
        PrinterAvoids.bind ih fun _ => PrinterAvoids.pure _

theorem reportFlat_avoids {full : Bool} (closed : outcomes.Closed) (c : Comparison) :
    PrinterAvoids (Queue.Inside outcomes) missingComparison
      (reportFlat graph outcomes full fuel c) := by
  unfold reportFlat
  split
  · exact printerAvoids_throw (by decide)
  · rename_i diff held
    refine PrinterAvoids.bind (flatRoots_avoids fun detail among edge isEdge =>
      flatPrint_avoids closed edge (closed c diff held detail among edge isEdge) _ _) fun _ => ?_
    exact PrinterAvoids.bind (flatQueue_avoids fun c present =>
      flatPrint_avoids closed c present _ _) fun _ => PrinterAvoids.pure _

theorem vizId_avoids (c : Comparison) :
    PrinterAvoids (fun _ => True) missingComparison (vizId c) := by
  refine printerAvoids_get_bind fun viz _ => ?_
  split
  · exact PrinterAvoids.pure _
  · exact fun _ _ _ => trivial

theorem vizDetails_avoids {print : Comparison → VizM String} {node index : Nat}
    {details : List DiffDetail}
    (edges : ∀ detail ∈ details, ∀ edge, detail.edge = some edge →
      PrinterAvoids (fun _ => True) missingComparison (print edge)) :
    PrinterAvoids (fun _ => True) missingComparison (vizDetails print node index details) := by
  induction details generalizing index with
  | nil => exact PrinterAvoids.pure _
  | cons detail details ih =>
    have rest : ∀ index, PrinterAvoids (fun _ => True) missingComparison
        (vizDetails print node index details) :=
      fun _ => ih fun detail present => edges detail (by simp [present])
    unfold vizDetails
    split
    · exact PrinterAvoids.bind (rest _) fun _ => PrinterAvoids.pure _
    · rename_i edge held
      exact PrinterAvoids.bind (edges detail (by simp) edge held) fun _ =>
        PrinterAvoids.bind (vizId_avoids edge) fun _ =>
          PrinterAvoids.bind (rest _) fun _ => PrinterAvoids.pure _

/-- Each comparison drawn has an entry, like those its edges lead to. -/
theorem vizPrint_avoids (closed : outcomes.Closed) (c : Comparison)
    (present : outcomes.lookup c ≠ none) :
    PrinterAvoids (fun _ => True) missingComparison (vizPrint graph outcomes fuel c) := by
  induction fuel generalizing c with
  | zero => exact printerAvoids_throw nofun
  | succ fuel ih =>
    refine printerAvoids_get_bind fun viz _ => ?_
    split
    · exact PrinterAvoids.pure _
    refine PrinterAvoids.bind (printerAvoids_modify fun _ _ => trivial) fun _ =>
      PrinterAvoids.bind (vizId_avoids c) fun node => ?_
    split
    · exact PrinterAvoids.bind (PrinterAvoids.named (getDescription_avoids naming_is_other _))
        fun _ => PrinterAvoids.bind (PrinterAvoids.ofExcept (get_avoids _)) fun _ =>
          PrinterAvoids.pure _
    · exact PrinterAvoids.bind (PrinterAvoids.named (getDescription_avoids naming_is_other _))
        fun _ => PrinterAvoids.bind (PrinterAvoids.ofExcept (get_avoids _)) fun _ =>
          PrinterAvoids.pure _
    · exact printerAvoids_throw nofun
    split
    · rename_i missing
      exact absurd missing present
    · rename_i diff held
      refine PrinterAvoids.bind
        (PrinterAvoids.named (getResolvedDescription_avoids naming_is_other _)) fun _ =>
        PrinterAvoids.bind
          (PrinterAvoids.named (getResolvedDescription_avoids naming_is_other _)) fun _ => ?_
      exact PrinterAvoids.bind (vizDetails_avoids fun detail among edge isEdge =>
        ih edge (closed _ diff held detail among edge isEdge)) fun _ => PrinterAvoids.pure _

theorem reportViz_avoids (closed : outcomes.Closed) (c : Comparison)
    (present : outcomes.lookup c ≠ none) :
    PrinterAvoids (fun _ => True) missingComparison (reportViz graph outcomes fuel c) :=
  PrinterAvoids.bind (vizPrint_avoids closed c present) fun _ => PrinterAvoids.pure _

end Printers

end Stg
