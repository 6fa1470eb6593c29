import Stg.MovedCompare
import Stg.Reporting

set_option autoImplicit false

/- Nodes under other ids have the same names, and the reports about them the same texts. -/
namespace Stg

open Relational (Lifting)
open Relabel (relabel)

variable {π : Equiv.Perm Id} {graph graph' : Graph} {inside : Id → Prop} {fuel : Nat}

section Naming

/-- The cache under the other ids: its keys move and the names stay. -/
def NameCache.move (π : Equiv.Perm Id) (names : NameCache) : NameCache :=
  relabel π.toEmbedding id names

theorem NameCache.lookup_move (names : NameCache) (node : Id) :
    (NameCache.move π names).lookup (π node) = names.lookup node := by
  have found := Relabel.lookup_relabel π.toEmbedding id names node
  rwa [Option.map_id] at found

theorem NameCache.insert_move (names : NameCache) (node : Id) (name : Name) :
    NameCache.move π (names.insert node name) = (NameCache.move π names).insert (π node) name :=
  Relabel.relabel_insert π.toEmbedding id names node name

/-- Computations over a cache of names that do the same and end in the same way. -/
abbrev naming (π : Equiv.Perm Id) : Lifting Error NameM NameM :=
  (Lifting.exactly Error).state fun names names' => names' = NameCache.move π names

abbrev Equally {α : Type} (value value' : α) : Prop := value' = value

/-- The two computations return the same. -/
abbrev Echoes (π : Equiv.Perm Id) {α : Type} (call call' : NameM α) : Prop :=
  (naming π).rel Equally call call'

/-- After calls that return the same, both go on with it. -/
theorem Echoes.bind {α β : Type} {call call' : NameM α} {rest rest' : α → NameM β}
    (first : Echoes π call call') (second : ∀ value, Echoes π (rest value) (rest' value)) :
    Echoes π (call >>= rest) (call' >>= rest') := by
  refine (naming π).bind first ?_
  rintro _ value rfl
  exact second value

theorem Echoes.pure {α : Type} (value : α) : Echoes π (Pure.pure value) (Pure.pure value) :=
  (naming π).pure rfl

variable {describe describe' : Id → NameM Name}

/-- A list of children is described child by child, in the same order. -/
theorem describeAll_move {ids : List Id}
    (describes : ∀ id ∈ ids, Echoes π (describe id) (describe' (π id))) (before after : String) :
    Echoes π (describeAll describe before after ids)
      (describeAll describe' before after (ids.map π)) := by
  induction ids with
  | nil => exact .pure _
  | cons id ids ih =>
    refine .bind (describes id List.mem_cons_self) fun name => ?_
    refine .bind (ih fun id among => describes id (List.mem_cons_of_mem _ among)) fun rest => ?_
    exact .pure _

theorem describeParameters_move {ids : List Id}
    (describes : ∀ id ∈ ids, Echoes π (describe id) (describe' (π id))) :
    Echoes π (describeParameters describe ids) (describeParameters describe' (ids.map π)) := by
  cases ids with
  | nil => exact .pure _
  | cons first others =>
    refine .bind (describes first List.mem_cons_self) fun name => ?_
    refine .bind (describeAll_move (fun id among =>
      describes id (List.mem_cons_of_mem _ among)) _ _)
      fun rest => ?_
    exact .pure _

/-- Only an unnamed definition describes its members. -/
theorem StructUnion.describeBody_move {self : StructUnion}
    (describes : ∀ id ∈ (Node.structUnion self).references, Echoes π (describe id)
      (describe' (π id))) :
    Echoes π (self.describeBody describe)
      (StructUnion.describeBody describe' { self with definition := self.definition.map (·.rename π) }) := by
  unfold StructUnion.describeBody
  dsimp only
  split
  · exact .pure _
  · cases held : self.definition with
    | none => exact .pure _
    | some definition =>
      refine .bind (describeAll_move (fun id among => describes id ?_) _ _) fun members => .pure _
      simp [Node.references, held, among]

/-- A description asks for the node's own references, which are inside. -/
theorem Node.makeDescription_move (moved : graph.Moved graph' π inside) {node : Node}
    (within : ∀ id ∈ node.references, inside id)
    (describes : ∀ id, inside id → Echoes π (describe id) (describe' (π id))) :
    Echoes π (node.makeDescription graph fuel describe)
      ((node.rename π).makeDescription graph' fuel describe') := by
  cases node with
  | pointerReference node =>
    exact .bind (describes _ (within _ (by simp [Node.references]))) fun pointee => .pure _
  | qualified node =>
    have child := within node.qualifiedTypeId (by simp [Node.references])
    refine (naming π).bind (ofExcept_along (moved.resolveQualifiers fuel child _)) ?_
    rintro ⟨under, qualifiers⟩ _ ⟨under', rfl⟩
    exact Echoes.bind (describes under under') fun name => ofExcept_same rfl
  | array node =>
    exact .bind (describes _ (within _ (by simp [Node.references]))) fun element => .pure _
  | baseClass node =>
    have child := within node.typeId (by simp [Node.references])
    exact .bind (ofExcept_same (moved.matchingKey fuel child)) fun key => .pure _
  | member node =>
    exact .bind (describes _ (within _ (by simp [Node.references]))) fun description => .pure _
  | structUnion node =>
    refine .bind (StructUnion.describeBody_move fun id among => describes id (within id among))
      fun body => .pure _
  | function node =>
    have parameters : (node.parameters.map (Parameter.move π)).map (·.typeId) =
        (node.parameters.map (·.typeId)).map π := by
      simp [Parameter.move]
    have among : ∀ id ∈ node.parameters.map (·.typeId), inside id := fun id among =>
      within id (List.mem_cons_of_mem _ among)
    have text : Echoes π (describeParameters describe (node.parameters.map (·.typeId)))
        (describeParameters describe'
          ((node.parameters.map (Parameter.move π)).map (·.typeId))) := by
      rw [parameters]
      exact describeParameters_move fun id held => describes id (among id held)
    refine .bind text fun text => ?_
    exact .bind (describes _ (within _ List.mem_cons_self)) fun returned => .pure _
  | elfSymbol node =>
    unfold Node.makeDescription Node.rename
    dsimp only
    cases held : node.typeId with
    | none => exact .pure _
    | some typeId =>
      exact .bind (describes typeId (within typeId (by simp [Node.references, held]))) fun type =>
        .pure _
  | void | variadic | typedef | integer | method | enumeration | symbols => exact .pure _

@[simp] theorem Node.extraDescription_rename (f : Id → Id) (node : Node) :
    (node.rename f).extraDescription = node.extraDescription := by
  cases node <;> rfl

@[simp] theorem Node.getKindDescription_rename (f : Id → Id) (node : Node) :
    (node.rename f).getKindDescription = node.getKindDescription := by
  cases node <;> rfl

/-- The black hole is put under the moved id, so a cycle is cut at the same node. -/
theorem getDescription_move (moved : graph.Moved graph' π inside) {id : Id} (within : inside id) :
    Echoes π (getDescription graph fuel id) (getDescription graph' fuel (π id)) := by
  induction fuel generalizing id with
  | zero => exact (naming π).throw _
  | succ fuel ih =>
    refine (naming π).bind Lifting.get ?_
    rintro names _ rfl
    rw [names.lookup_move id]
    cases names.lookup id with
    | some cached => exact Echoes.pure cached
    | none =>
      refine (naming π).bind (Lifting.modify ?_) fun _ _ _ => ?_
      · rintro names _ rfl
        exact (names.insert_move id blackHole).symm
      refine (naming π).bind (ofExcept_along (moved.got within)) ?_
      rintro node _ ⟨rfl, references⟩
      refine Echoes.bind (Node.makeDescription_move moved references fun _ => ih) fun name => ?_
      refine (naming π).bind (Lifting.modify ?_) fun _ _ _ => Echoes.pure _
      rintro names _ rfl
      exact (names.insert_move id name).symm

end Naming

/- The printers, for any way of relating computations over names. -/

section Printers

variable {L : Lifting Error NameM NameM} {outcomes : Outcomes}

/-- Only the comparisons that a piece is marked with move; its text stays. -/
def Piece.move (π : Equiv.Perm Id) : Piece → Piece
  | .text content => .text content
  | .comparison c content => .comparison (Comparison.move π c) content
  | .change c content => .change (Comparison.move π c) content

abbrev PiecesMove (π : Equiv.Perm Id) (pieces pieces' : List Piece) : Prop :=
  pieces' = pieces.map (Piece.move π)

theorem render_move (pieces : List Piece) : render (pieces.map (Piece.move π)) = render pieces := by
  unfold render
  rw [List.map_map]
  congr 1
  apply List.map_congr_left
  intro piece _
  cases piece <;> rfl

/-- The ids that a comparison is of are inside. -/
def Comparison.Inside (inside : Id → Prop) (c : Comparison) : Prop :=
  (∀ id ∈ c.1, inside id) ∧ ∀ id ∈ c.2, inside id

/-- What is inside has the same names, and comparisons of what is inside lead to such
comparisons. -/
structure PrintsMove (L : Lifting Error NameM NameM) (π : Equiv.Perm Id) (graph graph' : Graph)
    (outcomes : Outcomes) (inside : Id → Prop) : Prop where
  moved : graph.Moved graph' π inside
  describes : ∀ fuel id, inside id →
    L.rel Equally (getDescription graph fuel id) (getDescription graph' fuel (π id))
  edges : ∀ c diff, c.Inside inside → outcomes.lookup c = some diff → ∀ detail ∈ diff.details,
    ∀ edge ∈ detail.edge, Comparison.Inside inside edge

/-- Typedefs are followed to the moved type, and both are described. -/
theorem PrintsMove.resolved (moves : PrintsMove L π graph graph' outcomes inside)
    (fuel : Nat) {id : Id}
    (within : inside id) :
    L.rel Equally (getResolvedDescription graph fuel id)
      (getResolvedDescription graph' fuel (π id)) := by
  refine L.bind (ofExcept_along (moves.moved.resolveTypedefs fuel within [])) ?_
  rintro ⟨resolved, typedefs⟩ _ ⟨within, rfl⟩
  refine L.bind (moves.describes fuel resolved within) ?_
  rintro _ description rfl
  refine L.bind (ofExcept_along (moves.moved.got within)) ?_
  rintro node _ ⟨rfl, _⟩
  exact L.pure (by rw [Equally, Node.extraDescription_rename])

/-- Each of the three forms of a comparison prints the same text. -/
theorem PrintsMove.prints (moves : PrintsMove L π graph graph' outcomes inside) (fuel : Nat)
    {c : Comparison} (within : c.Inside inside) :
    L.rel Equally (printComparison graph fuel c)
      (printComparison graph' fuel (Comparison.move π c)) := by
  match c, within with
  | (some id1, none), within =>
    refine L.bind (ofExcept_along (moves.moved.got (within.1 id1 rfl))) ?_
    rintro node _ ⟨rfl, _⟩
    refine L.bind (moves.describes fuel id1 (within.1 id1 rfl)) ?_
    rintro _ description rfl
    exact L.pure (by rw [Equally, Node.getKindDescription_rename, Node.extraDescription_rename])
  | (none, some id2), within =>
    refine L.bind (ofExcept_along (moves.moved.got (within.2 id2 rfl))) ?_
    rintro node _ ⟨rfl, _⟩
    refine L.bind (moves.describes fuel id2 (within.2 id2 rfl)) ?_
    rintro _ description rfl
    exact L.pure (by rw [Equally, Node.getKindDescription_rename, Node.extraDescription_rename])
  | (some id1, some id2), within =>
    refine L.bind (ofExcept_along (moves.moved.got (within.1 id1 rfl))) ?_
    rintro node _ ⟨rfl, _⟩
    refine L.bind (moves.resolved fuel (within.1 id1 rfl)) ?_
    rintro _ description1 rfl
    refine L.bind (moves.resolved fuel (within.2 id2 rfl)) ?_
    rintro _ description2 rfl
    exact L.pure (by rw [Equally, Node.getKindDescription_rename])
  | (none, none), _ => exact L.throw _

theorem Outcomes.lookup_move (outcomes : Outcomes) (c : Comparison) :
    (Outcomes.move π outcomes).lookup (Comparison.move π c) =
      (outcomes.lookup c).map (Diff.move π) := Relabel.lookup_relabel _ _ _ _

section Plain

abbrev SeenMoves (π : Equiv.Perm Id) (seen seen' : Seen) : Prop :=
  seen' = relabel (Comparison.move π) id seen

/-- Details in order, those with an edge by the recursion. -/
theorem printDetails_move {print print' : Comparison → Nat → PlainM (List Piece)} {c : Comparison}
    {indent : Nat} {details : List DiffDetail}
    (prints : ∀ detail ∈ details, ∀ edge ∈ detail.edge, (L.state (SeenMoves π)).rel (PiecesMove π)
      (print edge indent) (print' (Comparison.move π edge) indent)) :
    (L.state (SeenMoves π)).rel (PiecesMove π) (printDetails print c indent details)
      (printDetails print' (Comparison.move π c) indent (details.map (DiffDetail.move π))) := by
  induction details with
  | nil => exact (L.state _).pure rfl
  | cons detail details ih =>
    have own : (L.state (SeenMoves π)).rel (PiecesMove π) (printDetail print c indent detail)
        (printDetail print' (Comparison.move π c) indent (detail.move π)) := by
      unfold printDetail
      have each := prints detail List.mem_cons_self
      obtain ⟨text, edge⟩ := detail
      cases edge with
      | none => exact (L.state _).pure rfl
      | some edge =>
        refine (L.state _).bind (each edge rfl) ?_
        rintro pieces _ rfl
        exact (L.state _).pure rfl
    refine (L.state _).bind own ?_
    rintro own _ rfl
    refine (L.state _).bind (ih fun detail among => prints detail (List.mem_cons_of_mem _ among)) ?_
    rintro rest _ rfl
    refine (L.state _).pure ?_
    split <;> simp [PiecesMove, Piece.move]

/-- A comparison is marked as seen in both or in neither. -/
theorem seen_insert_move (diff : Diff) (c : Comparison) (seen : Seen) (finished : Bool) :
    SeenMoves π (if diff.holdsChanges then seen.insert c finished else seen)
      (if (diff.move π).holdsChanges then
        (relabel (Comparison.move π) id seen).insert (Comparison.move π c) finished
      else relabel (Comparison.move π) id seen) := by
  unfold SeenMoves
  rw [Diff.move_holdsChanges]
  split
  · exact (Relabel.relabel_insert (Comparison.move π) id seen c finished).symm
  · rfl

/-- The same mark is found at each comparison, so both go down or stop together. -/
theorem printPlain_move (moves : PrintsMove L π graph graph' outcomes inside) (fuel : Nat)
    {c : Comparison} (within : c.Inside inside) (indent : Nat) :
    (L.state (SeenMoves π)).rel (PiecesMove π) (printPlain graph outcomes fuel c indent)
      (printPlain graph' (Outcomes.move π outcomes) fuel (Comparison.move π c) indent) := by
  induction fuel generalizing c indent with
  | zero => exact (L.state _).throw _
  | succ fuel ih =>
    refine (L.state _).bind (Lifting.lift (moves.prints fuel within)) ?_
    rintro ⟨oneSided, content⟩ _ rfl
    cases oneSided with
    | true => exact (L.state _).pure rfl
    | false =>
      rw [Outcomes.lookup_move]
      cases held : outcomes.lookup c with
      | none => exact (L.state _).throw _
      | some diff =>
        refine (L.state _).bind Lifting.get ?_
        rintro seen _ rfl
        have mark : (if (diff.move π).holdsChanges then
              (relabel (Comparison.move π) id seen).lookup (Comparison.move π c) else none) =
            if diff.holdsChanges then seen.lookup c else none := by
          rw [Relabel.lookup_relabel, Option.map_id]
          rfl
        rw [mark]
        cases (if diff.holdsChanges then seen.lookup c else none) with
        | some finished =>
          cases finished with
          | false => exact (L.state _).pure rfl
          | true =>
            refine (L.state _).pure ?_
            simp [PiecesMove, Piece.move]
        | none =>
          refine (L.state _).bind (Lifting.modify ?_) fun _ _ _ => ?_
          · rintro seen _ rfl
            exact seen_insert_move diff c seen false
          refine (L.state _).bind (printDetails_move fun detail among edge held' =>
            ih (moves.edges c diff within held detail among edge held') _) ?_
          rintro details _ rfl
          refine (L.state _).bind (Lifting.modify ?_) fun _ _ _ => ?_
          · rintro seen _ rfl
            exact seen_insert_move diff c seen true
          exact (L.state _).pure rfl

theorem reportPlain_move (moves : PrintsMove L π graph graph' outcomes inside) (fuel : Nat)
    {c : Comparison} (within : c.Inside inside) :
    (L.state (SeenMoves π)).rel (PiecesMove π) (reportPlain graph outcomes fuel c)
      (reportPlain graph' (Outcomes.move π outcomes) fuel (Comparison.move π c)) := by
  unfold reportPlain
  rw [Outcomes.lookup_move]
  cases held : outcomes.lookup c with
  | none => exact (L.state _).throw _
  | some diff =>
    exact printDetails_move fun detail among edge held' =>
      printPlain_move moves fuel (moves.edges c diff within held detail among edge held') 0

end Plain

section Flat

/-- The queue of the flat report under the other ids. -/
def Queue.move (π : Equiv.Perm Id) (queue : Queue) : Queue where
  seen := queue.seen.map (Comparison.move π)
  todo := queue.todo.map (Comparison.move π)

/-- The queues are the same under the other ids, and what waits is in question. -/
abbrev QueueMoves (π : Equiv.Perm Id) (inside : Id → Prop) (queue queue' : Queue) : Prop :=
  queue' = queue.move π ∧ ∀ c ∈ queue.todo, Comparison.Inside inside c

abbrev PrintedMoves (π : Equiv.Perm Id) (out out' : Bool × List Piece) : Prop :=
  out' = (out.1, out.2.map (Piece.move π))

/-- What has been seen before is not pushed again, in either queue. -/
theorem Queue.push_move (queue : Queue) (c : Comparison) :
    (queue.push c).move π = (queue.move π).push (Comparison.move π c) := by
  have among : Comparison.move π c ∈ queue.seen.map (Comparison.move π) ↔ c ∈ queue.seen := by
    rw [List.mem_map_of_injective (Comparison.move π).injective]
  unfold Queue.push
  rw [apply_ite (Queue.move π)]
  simp only [Queue.move, among, List.map_append, List.map_cons, List.map_nil]

theorem Queue.push_within {queue : Queue} {c : Comparison}
    (waiting : ∀ d ∈ queue.todo, Comparison.Inside inside d)
    (within : c.Inside inside) : ∀ d ∈ (queue.push c).todo, Comparison.Inside inside d := by
  unfold Queue.push
  split
  · exact waiting
  · exact List.forall_mem_append.mpr ⟨waiting, List.forall_mem_singleton.mpr within⟩

def Section.move (π : Equiv.Perm Id) (part : Section) : Section :=
  ⟨Comparison.move π part.comparison, part.pieces.map (Piece.move π)⟩

/-- A section is shown or left out for what was printed, not for its ids. -/
theorem makeSection_move (full : Bool) (c : Comparison) (printed : Bool × List Piece) :
    (makeSection full c printed).move π =
      makeSection full (Comparison.move π c) (printed.1, printed.2.map (Piece.move π)) := by
  unfold makeSection Section.move
  dsimp only
  split <;> simp [Piece.move]

def FlatReport.move (π : Equiv.Perm Id) (report : FlatReport) : FlatReport :=
  ⟨report.roots.map (Section.move π), report.queued.map (Section.move π)⟩

theorem FlatReport.pieces_move (report : FlatReport) :
    (report.move π).pieces = report.pieces.map (Piece.move π) := by
  unfold FlatReport.pieces FlatReport.move
  rw [← List.map_append, List.flatMap_map, List.map_flatMap]
  rfl

/-- Whether a detail is of interest does not depend on ids. -/
theorem flatDetails_move {print print' : Comparison → FlatM (Bool × List Piece)} (full : Bool)
    (c : Comparison) (indent : Nat) {detail : DiffDetail}
    (prints : ∀ edge ∈ detail.edge, (L.state (QueueMoves π inside)).rel (PrintedMoves π)
      (print edge) (print' (Comparison.move π edge)))
    {state state' : Bool × List Piece} (same : PrintedMoves π state state') :
    (L.state (QueueMoves π inside)).rel (PrintedMoves π)
      (flatDetails print full c indent state detail)
      (flatDetails print' full (Comparison.move π c) indent state' (detail.move π)) := by
  subst same
  unfold flatDetails
  obtain ⟨text, edge⟩ := detail
  cases edge with
  | none =>
    refine (L.state _).pure ?_
    simp only [PrintedMoves, List.map_append]
    rfl
  | some edge =>
    refine (L.state _).bind (prints edge rfl) ?_
    rintro ⟨interesting, pieces⟩ _ rfl
    refine (L.state _).pure ?_
    dsimp only [PrintedMoves]
    split
    · rw [List.map_append]
      rfl
    · rfl

/-- A comparison that holds changes is queued in both, and any other is printed in place. -/
theorem flatPrint_move (moves : PrintsMove L π graph graph' outcomes inside) (full : Bool)
    (fuel : Nat) {c : Comparison} (within : c.Inside inside) (stop : Bool) (indent : Nat) :
    (L.state (QueueMoves π inside)).rel (PrintedMoves π)
      (flatPrint graph outcomes full fuel c stop indent)
      (flatPrint graph' (Outcomes.move π outcomes) full fuel (Comparison.move π c)
        stop indent) := by
  induction fuel generalizing c stop indent with
  | zero => exact (L.state _).throw _
  | succ fuel ih =>
    refine (L.state _).bind (Lifting.lift (moves.prints fuel within)) ?_
    rintro ⟨oneSided, content⟩ _ rfl
    cases oneSided with
    | true => exact (L.state _).pure rfl
    | false =>
      rw [Outcomes.lookup_move]
      cases held : outcomes.lookup c with
      | none => exact (L.state _).throw _
      | some diff =>
        obtain ⟨holdsChanges, hasChanges, details⟩ := diff
        by_cases queued : (holdsChanges && stop) = true
        · simp only [Option.map_some, Diff.move, queued, ↓reduceIte]
          refine (L.state _).bind (Lifting.modify ?_) fun _ _ _ => (L.state _).pure rfl
          rintro queue _ ⟨rfl, waiting⟩
          exact ⟨(Queue.push_move queue c).symm, Queue.push_within waiting within⟩
        by_cases bad : (!holdsChanges && !stop) = true
        · simp only [Option.map_some, Diff.move, queued, bad, ↓reduceIte]
          exact (L.state _).throw _
        · simp only [Option.map_some, Diff.move, queued, bad]
          refine Lifting.foldlM (R := fun detail detail' => detail ∈ details ∧
            detail' = detail.move π) (forall₂_map fun detail among => ⟨among, rfl⟩) ?_ rfl
          rintro state state' detail _ same ⟨among, rfl⟩
          exact flatDetails_move full c _ (fun edge held' =>
            ih (moves.edges c _ within held detail among edge held') true _) same

theorem flatRoots_move {print print' : Comparison → FlatM (Bool × List Piece)} (full : Bool)
    {details : List DiffDetail}
    (prints : ∀ detail ∈ details, ∀ edge ∈ detail.edge,
      (L.state (QueueMoves π inside)).rel (PrintedMoves π)
      (print edge) (print' (Comparison.move π edge))) :
    (L.state (QueueMoves π inside)).rel (fun parts parts' => parts' = parts.map (Section.move π))
      (flatRoots print full details)
      (flatRoots print' full (details.map (DiffDetail.move π))) := by
  induction details with
  | nil => exact (L.state _).pure rfl
  | cons detail details ih =>
    have each := prints detail List.mem_cons_self
    obtain ⟨text, edge⟩ := detail
    refine (L.state _).bind (deref_map edge) ?_
    rintro edge _ ⟨rfl, rfl⟩
    refine (L.state _).bind (each edge rfl) ?_
    rintro printed _ rfl
    refine (L.state _).bind (ih fun detail among => prints detail (List.mem_cons_of_mem _ among)) ?_
    rintro rest _ rfl
    refine (L.state _).pure ?_
    rw [List.map_cons, makeSection_move]

/-- What waits is inside, so its sections are the same text in the same order. -/
theorem flatQueue_move {print print' : Comparison → FlatM (Bool × List Piece)} (full : Bool)
    (prints : ∀ c, Comparison.Inside inside c →
      (L.state (QueueMoves π inside)).rel (PrintedMoves π) (print c)
      (print' (Comparison.move π c))) (fuel : Nat) :
    (L.state (QueueMoves π inside)).rel (fun parts parts' => parts' = parts.map (Section.move π))
      (flatQueue print full fuel) (flatQueue print' full fuel) := by
  induction fuel with
  | zero => exact (L.state _).throw _
  | succ fuel ih =>
    refine (L.state _).bind Lifting.get ?_
    rintro queue _ ⟨rfl, waiting⟩
    obtain ⟨seen, todo⟩ := queue
    cases todo with
    | nil => exact (L.state _).pure rfl
    | cons c todo =>
      have rest : ∀ d ∈ todo, Comparison.Inside inside d := fun d among =>
        waiting d (List.mem_cons_of_mem _ among)
      refine (L.state _).bind (Lifting.modify ?_) fun _ _ _ => ?_
      · rintro queue _ ⟨rfl, _⟩
        exact ⟨rfl, rest⟩
      refine (L.state _).bind (prints c (waiting c List.mem_cons_self)) ?_
      rintro printed _ rfl
      refine (L.state _).bind ih ?_
      rintro parts _ rfl
      refine (L.state _).pure ?_
      rw [List.map_cons, makeSection_move]

theorem reportFlat_move (moves : PrintsMove L π graph graph' outcomes inside) (full : Bool)
    (fuel : Nat) {c : Comparison} (within : c.Inside inside) :
    (L.state (QueueMoves π inside)).rel (fun report report' => report' = report.move π)
      (reportFlat graph outcomes full fuel c)
      (reportFlat graph' (Outcomes.move π outcomes) full fuel (Comparison.move π c)) := by
  unfold reportFlat
  rw [Outcomes.lookup_move]
  cases held : outcomes.lookup c with
  | none => exact (L.state _).throw _
  | some diff =>
    refine (L.state _).bind (flatRoots_move full fun detail among edge held' =>
      flatPrint_move moves full fuel
        (moves.edges c diff within held detail among edge held') true 0) ?_
    rintro roots _ rfl
    refine (L.state _).bind (flatQueue_move full (fun c within =>
      flatPrint_move moves full fuel within false 0) fuel) ?_
    rintro queued _ rfl
    exact (L.state _).pure rfl

end Flat

section Viz

/-- The nodes of the drawing under the other ids; their numbers are the places in the list. -/
def Viz.move (π : Equiv.Perm Id) (viz : Viz) : Viz where
  seen := viz.seen.map (Comparison.move π)
  ids := viz.ids.map (Comparison.move π)

abbrev VizMoves (π : Equiv.Perm Id) (viz viz' : Viz) : Prop := viz' = viz.move π

theorem mem_map_move {comparisons : List Comparison} {c : Comparison} :
    Comparison.move π c ∈ comparisons.map (Comparison.move π) ↔ c ∈ comparisons := by
  rw [List.mem_map_of_injective (Comparison.move π).injective]

/-- A comparison keeps its place in the list, and so its number. -/
theorem idxOf_map_move (comparisons : List Comparison) (c : Comparison) :
    (comparisons.map (Comparison.move π)).idxOf (Comparison.move π c) = comparisons.idxOf c := by
  induction comparisons with
  | nil => rfl
  | cons d comparisons ih =>
    rw [List.map_cons, List.idxOf_cons, List.idxOf_cons, ih]
    simp only [beq_iff_eq, (Comparison.move π).injective.eq_iff, cond_eq_ite]

theorem vizId_move (c : Comparison) :
    (L.state (VizMoves π)).rel Equally (vizId c) (vizId (Comparison.move π c)) := by
  refine (L.state _).bind Lifting.get ?_
  rintro viz _ rfl
  have among : Comparison.move π c ∈ (viz.move π).ids ↔ c ∈ viz.ids := mem_map_move
  by_cases numbered : c ∈ viz.ids
  · rw [if_pos numbered, if_pos (among.mpr numbered)]
    exact (L.state _).pure (idxOf_map_move viz.ids c)
  · rw [if_neg numbered, if_neg (fun held => numbered (among.mp held))]
    refine (L.state _).bind (Lifting.set ?_) fun _ _ _ => (L.state _).pure (List.length_map _)
    simp [VizMoves, Viz.move]

/-- An edge names the numbers of both ends. -/
theorem vizDetails_move {print print' : Comparison → VizM String} {node : Nat}
    {details : List DiffDetail}
    (prints : ∀ detail ∈ details, ∀ edge ∈ detail.edge,
      (L.state (VizMoves π)).rel Equally (print edge) (print' (Comparison.move π edge)))
        (index : Nat) :
    (L.state (VizMoves π)).rel Equally (vizDetails print node index details)
      (vizDetails print' node index (details.map (DiffDetail.move π))) := by
  induction details generalizing index with
  | nil => exact (L.state _).pure rfl
  | cons detail details ih =>
    have each := prints detail List.mem_cons_self
    have later := ih fun detail among => prints detail (List.mem_cons_of_mem _ among)
    obtain ⟨text, edge⟩ := detail
    cases edge with
    | none =>
      refine (L.state _).bind (later (index + 1)) ?_
      rintro _ rest rfl
      exact (L.state _).pure rfl
    | some edge =>
      refine (L.state _).bind (each edge rfl) ?_
      rintro _ sub rfl
      refine (L.state _).bind (vizId_move edge) ?_
      rintro _ target rfl
      refine (L.state _).bind (later index) ?_
      rintro _ rest rfl
      exact (L.state _).pure rfl

/-- Each comparison is drawn once, at the same moment. -/
theorem vizPrint_move (moves : PrintsMove L π graph graph' outcomes inside) (fuel : Nat)
    {c : Comparison} (within : c.Inside inside) :
    (L.state (VizMoves π)).rel Equally (vizPrint graph outcomes fuel c)
      (vizPrint graph' (Outcomes.move π outcomes) fuel (Comparison.move π c)) := by
  induction fuel generalizing c with
  | zero => exact (L.state _).throw _
  | succ fuel ih =>
    refine (L.state _).bind Lifting.get ?_
    rintro viz _ rfl
    have among : Comparison.move π c ∈ (viz.move π).seen ↔ c ∈ viz.seen := mem_map_move
    by_cases visited : c ∈ viz.seen
    · rw [if_pos visited, if_pos (among.mpr visited)]
      exact (L.state _).pure rfl
    rw [if_neg visited, if_neg (fun held => visited (among.mp held))]
    refine (L.state _).bind (Lifting.modify ?_) fun _ _ _ => ?_
    · rintro viz _ rfl
      simp [VizMoves, Viz.move]
    refine (L.state _).bind (vizId_move c) ?_
    rintro _ node rfl
    match c, within with
    | (some id1, none), within =>
      refine (L.state _).bind (Lifting.lift (moves.describes fuel id1 (within.1 id1 rfl))) ?_
      rintro _ description rfl
      refine (L.state _).bind (ofExcept_along (moves.moved.got (within.1 id1 rfl))) ?_
      rintro node1 _ ⟨rfl, _⟩
      exact (L.state _).pure (by rw [Equally, Node.extraDescription_rename])
    | (none, some id2), within =>
      refine (L.state _).bind (Lifting.lift (moves.describes fuel id2 (within.2 id2 rfl))) ?_
      rintro _ description rfl
      refine (L.state _).bind (ofExcept_along (moves.moved.got (within.2 id2 rfl))) ?_
      rintro node2 _ ⟨rfl, _⟩
      exact (L.state _).pure (by rw [Equally, Node.extraDescription_rename])
    | (none, none), _ => exact (L.state _).throw _
    | (some id1, some id2), within =>
      have looked := @Outcomes.lookup_move π outcomes (some id1, some id2)
      simp only [Comparison.move_mk, Option.map_some] at looked ⊢
      rw [looked]
      cases held : outcomes.lookup (some id1, some id2) with
      | none => exact (L.state _).throw _
      | some diff =>
        refine (L.state _).bind (Lifting.lift (moves.resolved fuel (within.1 id1 rfl))) ?_
        rintro _ description1 rfl
        refine (L.state _).bind (Lifting.lift (moves.resolved fuel (within.2 id2 rfl))) ?_
        rintro _ description2 rfl
        refine (L.state _).bind (vizDetails_move (fun detail among edge held' =>
          ih (moves.edges _ diff within held detail among edge held')) 0) ?_
        rintro _ details rfl
        exact (L.state _).pure rfl

theorem reportViz_move (moves : PrintsMove L π graph graph' outcomes inside) (fuel : Nat)
    {c : Comparison} (within : c.Inside inside) :
    (L.state (VizMoves π)).rel Equally (reportViz graph outcomes fuel c)
      (reportViz graph' (Outcomes.move π outcomes) fuel (Comparison.move π c)) := by
  refine (L.state _).bind (vizPrint_move moves fuel within) ?_
  rintro _ body rfl
  exact (L.state _).pure rfl

end Viz

end Printers

end Stg
