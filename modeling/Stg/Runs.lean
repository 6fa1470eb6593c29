import Stg.MovedRuns
import Stg.Readings
import Stg.Mirror
import Stg.Options
import Stg.AbiXml.Isomorphic
import Mathlib.Logic.Equiv.Fintype

set_option autoImplicit false

/- Runs of the program on inputs that are the same, in another order, or the other way
round. -/
namespace Stg

open Relation (ReflTransGen)

variable {π : Equiv.Perm Id} {graph graph' : Graph} {inside : Id → Prop} {options : CompareOptions}
  {fuel : Nat} {root root' : Id} {f : Id → Id}

/-- Ids for the nodes of a part are ids for all nodes: the rest gets what is left. -/
theorem Graph.Region.extend (region : graph.Region inside)
    (injective : ∀ a b, inside a → inside b → f a = f b → a = b)
    (get : ∀ id, inside id → graph'.get (f id) = (graph.get id).map (Node.rename f)) :
    ∃ π : Equiv.Perm Id, graph.Moved graph' π inside ∧ ∀ id, inside id → π id = f id := by
  obtain ⟨bound, below⟩ := region.bounded
  let number (id : {id // inside id}) : Fin bound := ⟨id.1.ix, below id.1 id.2⟩
  have finite : Finite {id // inside id} := by
    apply Finite.of_injective number
    rintro ⟨⟨ix⟩, _⟩ ⟨⟨ix'⟩, _⟩ same
    cases Fin.mk.inj same
    rfl
  obtain ⟨π, extends_⟩ := Equiv.Perm.exists_extending_pair (Subtype.val (p := inside))
    (fun id => f id.1) Subtype.val_injective fun a b same =>
      Subtype.ext (injective a.1 b.1 a.2 b.2 same)
  have agrees : ∀ id, inside id → π id = f id := fun id within => extends_ ⟨id, within⟩
  refine ⟨π, ⟨fun id within => ?_, region.closed⟩, agrees⟩
  rw [agrees id within, get id within]
  cases got : graph.get id with
  | error => rfl
  | ok node =>
    have same : node.rename f = node.rename π := Node.rename_congr fun next among =>
      (agrees next (region.closed id next within ⟨node, got, among⟩)).symm
    rw [Except.map, same]
    rfl

/-- `Compare` answers `true` exactly when no comparison that it makes finds a difference. -/
theorem runCompare_alike {node1 node2 : Id} {answer : Answer} {s : State}
    (ran : runCompare graph options fuel {} node1 node2 = .ok (answer, s)) :
    answer.1 = true ↔ Alike graph options (some node1, some node2) := by
  obtain ⟨inv, _, _, known, rfl⟩ := runCompare_fresh ran
  exact inv.verdict_iff known

section Isomorphism

theorem Graph.Isomorphism.get (isomorphism : graph.Isomorphism graph' root root' f) {id : Id}
    (reach : ReflTransGen graph.Refers root id) :
    graph'.get (f id) = (graph.get id).map (Node.rename f) := by
  unfold Graph.get
  rw [isomorphism.slots id reach]
  rcases graph.nodes[id.ix]? with _ | _ | node <;> rfl

theorem Graph.Isomorphism.reach (isomorphism : graph.Isomorphism graph' root root' f) {id : Id}
    (reach : ReflTransGen graph.Refers root id) : ReflTransGen graph'.Refers root' (f id) := by
  induction reach with
  | refl => exact isomorphism.roots ▸ .refl
  | tail reach refers ih =>
    obtain ⟨node, got, among⟩ := refers
    refine ih.tail ⟨node.rename f, ?_, ?_⟩
    · rw [isomorphism.get reach, got]
      rfl
    · rw [Node.references_rename]
      exact List.mem_map_of_mem among

theorem Graph.Isomorphism.refl (graph : Graph) (root : Id) :
    graph.Isomorphism graph root root id where
  roots := rfl
  injective _ _ _ _ same := same
  onto id reach := ⟨id, reach, rfl⟩
  slots own _ := by
    rw [id_eq]
    rcases graph.nodes[own.ix]? with _ | _ | node <;> simp

end Isomorphism

section Joined

variable {first second first' second' : Graph} {root1 root2 root1' root2' : Id} {f1 f2 : Id → Id}

/-- What is reached from the roots of two graphs when one follows the other. -/
def Graph.Joined (first second : Graph) (root1 root2 id : Id) : Prop :=
  ReflTransGen first.Refers root1 id ∨
    ∃ own, ReflTransGen second.Refers root2 own ∧ id = first.beyond own

theorem Graph.refers_beyond {own next : Id}
    (refers : (first.beneath second).Refers (first.beyond own) next) :
    ∃ next', second.Refers own next' ∧ next = first.beyond next' := by
  obtain ⟨node, got, among⟩ := refers
  rw [Graph.over_get] at got
  cases held : second.get own with
  | error => simp [held, Except.map] at got
  | ok node' =>
    rw [held] at got
    cases got
    rw [Node.references_rename] at among
    obtain ⟨next', among', rfl⟩ := List.mem_map.mp among
    exact ⟨next', ⟨node', held, among'⟩, rfl⟩

theorem Graph.refers_below {id next : Id} (below : id.ix < first.nodes.length) :
    (first.beneath second).Refers id next ↔ first.Refers id next := by
  unfold Graph.Refers
  rw [Graph.over_get_below first second below]

theorem Graph.Whole.region (whole1 : first.Whole root1) (whole2 : second.Whole root2) :
    (first.beneath second).Region (first.Joined second root1 root2) where
  closed := by
    rintro id next (reach | ⟨own, reach, rfl⟩) refers
    · exact .inl (reach.tail ((Graph.refers_below (whole1.reached reach)).mp refers))
    · obtain ⟨next', refers', rfl⟩ := Graph.refers_beyond refers
      exact .inr ⟨next', reach.tail refers', rfl⟩
  bounded := by
    refine ⟨first.nodes.length + second.nodes.length, ?_⟩
    rintro id (reach | ⟨own, reach, rfl⟩)
    · exact Nat.lt_of_lt_of_le (whole1.reached reach) (Nat.le_add_right _ _)
    · exact Nat.add_lt_add_left (whole2.reached reach) _

/-- Two pairs of graphs that are the same but for the ids are the same when joined. -/
theorem Graph.Isomorphism.joined (whole1 : first.Whole root1) (whole2 : second.Whole root2)
    (whole1' : first'.Whole root1') (iso1 : first.Isomorphism first' root1 root1' f1)
    (iso2 : second.Isomorphism second' root2 root2' f2) :
    ∃ π : Equiv.Perm Id,
      (first.beneath second).Moved (first'.beneath second') π (first.Joined second root1 root2) ∧
      π root1 = root1' ∧ π (first.beyond root2) = first'.beyond root2' := by
  let f (id : Id) : Id := if id.ix < first.nodes.length then f1 id else
    first'.beyond (f2 ⟨id.ix - first.nodes.length⟩)
  have f_below : ∀ id, ReflTransGen first.Refers root1 id → f id = f1 id := fun id reach =>
    if_pos (whole1.reached reach)
  have f_beyond : ∀ own, f (first.beyond own) = first'.beyond (f2 own) := by
    intro own
    simp only [f, Graph.beyond_ix, Nat.not_lt.mpr (Nat.le_add_right _ _), ↓reduceIte,
      Nat.add_sub_cancel_left]
  have apart : ∀ a own, ReflTransGen first.Refers root1 a → f a ≠ f (first.beyond own) := by
    intro a own reach same
    rw [f_below a reach, f_beyond] at same
    have below := whole1'.reached (iso1.reach reach)
    rw [same, Graph.beyond_ix] at below
    omega
  obtain ⟨π, moved, agrees⟩ :=
    @Graph.Region.extend _ (first'.beneath second') _ f (whole1.region whole2)
    (by
      rintro a b (reachA | ⟨ownA, reachA, rfl⟩) (reachB | ⟨ownB, reachB, rfl⟩) same
      · rw [f_below a reachA, f_below b reachB] at same
        exact iso1.injective a b reachA reachB same
      · exact absurd same (apart a ownB reachA)
      · exact absurd same.symm (apart b ownA reachB)
      · rw [f_beyond, f_beyond] at same
        rw [iso2.injective ownA ownB reachA reachB (first'.beyond.injective same)])
    (by
      rintro id (reach | ⟨own, reach, rfl⟩)
      · rw [f_below id reach, Graph.over_get_below _ _ (whole1'.reached (iso1.reach reach)),
          Graph.over_get_below _ _ (whole1.reached reach), iso1.get reach]
        cases got : first.get id with
        | error => rfl
        | ok node =>
          have same : node.rename f1 = node.rename f := Node.rename_congr fun next among =>
            (f_below next (reach.tail ⟨node, got, among⟩)).symm
          rw [Except.map, same]
          rfl
      · rw [f_beyond, Graph.over_get, Graph.over_get, iso2.get reach]
        cases second.get own with
        | error => rfl
        | ok node =>
          simp only [Except.map, Node.rename_rename]
          congr 2
          funext next
          exact (f_beyond next).symm)
  refine ⟨π, moved, ?_, ?_⟩
  · rw [agrees root1 (.inl .refl), f_below root1 .refl, iso1.roots]
  · rw [agrees _ (.inr ⟨root2, .refl, rfl⟩), f_beyond, iso2.roots]

/-- Two graphs that follow each other are the same in either order. -/
theorem Graph.Whole.swapped (whole1 : first.Whole root1) (whole2 : second.Whole root2) :
    ∃ π : Equiv.Perm Id,
      (first.beneath second).Moved (second.beneath first) π (first.Joined second root1 root2) ∧
      π root1 = second.beyond root1 ∧ π (first.beyond root2) = root2 := by
  let f (id : Id) : Id := if id.ix < first.nodes.length then second.beyond id else
    ⟨id.ix - first.nodes.length⟩
  have f_below : ∀ id, ReflTransGen first.Refers root1 id → f id = second.beyond id :=
    fun id reach =>
    if_pos (whole1.reached reach)
  have f_beyond : ∀ own, f (first.beyond own) = own := by
    intro own
    simp only [f, Graph.beyond_ix, Nat.not_lt.mpr (Nat.le_add_right _ _), ↓reduceIte,
      Nat.add_sub_cancel_left]
  have apart : ∀ a own, ReflTransGen first.Refers root1 a → ReflTransGen second.Refers root2 own →
      f a ≠ f (first.beyond own) := by
    intro a own reach reach' same
    rw [f_below a reach, f_beyond] at same
    have below := whole2.reached reach'
    rw [← same, Graph.beyond_ix] at below
    omega
  obtain ⟨π, moved, agrees⟩ :=
    @Graph.Region.extend _ (second.beneath first) _ f (whole1.region whole2)
    (by
      rintro a b (reachA | ⟨ownA, reachA, rfl⟩) (reachB | ⟨ownB, reachB, rfl⟩) same
      · rw [f_below a reachA, f_below b reachB] at same
        exact second.beyond.injective same
      · exact absurd same (apart a ownB reachA reachB)
      · exact absurd same.symm (apart b ownA reachB reachA)
      · rw [f_beyond, f_beyond] at same
        rw [same])
    (by
      rintro id (reach | ⟨own, reach, rfl⟩)
      · rw [f_below id reach, Graph.over_get, Graph.over_get_below _ _ (whole1.reached reach)]
        cases got : first.get id with
        | error => rfl
        | ok node =>
          have same : node.rename second.beyond = node.rename f :=
            Node.rename_congr fun next among =>
            (f_below next (reach.tail ⟨node, got, among⟩)).symm
          rw [Except.map, same]
          rfl
      · rw [f_beyond, Graph.over_get_below _ _ (whole2.reached reach), Graph.over_get]
        cases second.get own with
        | error => rfl
        | ok node =>
          have same : (f ∘ first.beyond) = id := funext f_beyond
          simp only [Except.map, Node.rename_rename, same, Node.rename_id])
  refine ⟨π, moved, ?_, ?_⟩
  · rw [agrees root1 (.inl .refl), f_below root1 .refl]
  · rw [agrees _ (.inr ⟨root2, .refl, rfl⟩), f_beyond]

/-- A graph that is the same follows as a copy. -/
theorem Graph.Isomorphism.copies_over (whole1 : first.Whole root1)
    (iso : first.Isomorphism second root1 root2 f) :
    (first.beneath second).Copies root1 (first.beyond root2) fun id => first.beyond (f id) where
  root := by rw [iso.roots]
  nodes id node reach got := by
    have own : ∀ id, ReflTransGen (first.beneath second).Refers root1 id →
        ReflTransGen first.Refers root1 id := by
      intro id reach
      induction reach with
      | refl => exact .refl
      | tail _ refers ih => exact ih.tail ((Graph.refers_below (whole1.reached ih)).mp refers)
    rw [Graph.over_get_below _ _ (whole1.reached (own id reach))] at got
    rw [Graph.over_get, iso.get (own id reach), got]
    simp only [Except.map, Node.rename_rename]
    rfl

end Joined

namespace Stgdiff

open AbiXml (Element DocumentReordered DocumentSingle)

variable {env env' : Environment} {input1 input2 input1' input2' : InputFormat × String}
  {outputs : Outputs}

/-- Where the first input can be read, so can the second, and the graph is the same but
for the ids. -/
def ReadsAlike (env env' : Environment) (fuel : Nat) (input input' : InputFormat × String) : Prop :=
  ∀ root graph, env.reads fuel input = .ok (root, graph) →
    ∃ root' graph' f, env'.reads fuel input' = .ok (root', graph') ∧
      graph.Isomorphism graph' root root' f

theorem ReadsAlike.refl (env : Environment) (fuel : Nat) (input : InputFormat × String) :
    ReadsAlike env env fuel input input :=
  fun root graph reads => ⟨root, graph, id, reads, .refl graph root⟩

/-- The file holds a document, and the other file holds it in another order. -/
structure FilesReordered (env env' : Environment) (file file' : String) (document document' : Element) :
    Prop where
  xml : env.xml file = .ok (some (some document))
  xml' : env'.xml file' = .ok (some (some document'))
  reordered : DocumentReordered document document'
  single : DocumentSingle document

theorem FilesReordered.readsAlike {file file' : String} {document document' : Element}
    (files : FilesReordered env env' file file' document document') (fuel : Nat) :
    ReadsAlike env env' fuel (.abi, file) (.abi, file') := by
  intro root graph reads
  simp only [Environment.reads, readInput, readAbi, files.xml] at reads
  split at reads
  · rename_i id s accepted
    cases reads
    obtain ⟨root', s', accepted', alike⟩ := AbiXml.processRoot_alike ⟨[]⟩ ⟨[]⟩ env.iteration
      env'.iteration fuel fuel files.reordered files.single accepted
    obtain ⟨f, isomorphism⟩ := alike.isomorphic
    refine ⟨root', s'.graph, f, ?_, isomorphism⟩
    simp only [Environment.reads, readInput, readAbi, files.xml', accepted']
    rfl
  · cases reads

/-- What is left of a run when both inputs are read. -/
def compareReport (env : Environment) (fuel : Nat) (graph : Graph) (root1 root2 : Id)
    (outputs : Outputs) (options : CompareOptions) : Running Bool := do
  let ((equals, comparison), state) ← ofExcept (runCompare graph options fuel {} root1 root2)
  check (sccEmpty state.scc) "internal error: SCC state broken"
  writeReports env graph state.outcomes fuel comparison outputs ∅
  return equals

theorem run_pair (env : Environment) (fuel : Nat) (input1 input2 : InputFormat × String)
    (outputs : Outputs) (options : CompareOptions) :
    run env fuel [input1, input2] outputs options = (do
      let (root1, graph1) ← ofExcept (env.reads fuel input1)
      let (root2, graph2) ← ofExcept (env.reads fuel input2)
      compareReport env fuel (graph1.beneath graph2) root1 (graph1.beyond root2)
        outputs options) := by
  unfold run
  rw [readInputs_pair]
  cases env.reads fuel input1 with
  | error => rfl
  | ok out1 =>
    obtain ⟨root1, graph1⟩ := out1
    simp only [ofExcept_ok, bind, Except.bind]
    cases env.reads fuel input2 <;> rfl

theorem ok_of_ofExcept_bind {α β σ : Type} {result : Except Error α} {rest : α → EStateM Error σ β}
    {s s' : σ} {last : β} (ran : (ofExcept result >>= rest).run s = .ok last s') :
    ∃ value, result = .ok value ∧ (rest value).run s = .ok last s' := by
  cases result with
  | error => cases ran
  | ok value => exact ⟨value, rfl, ran⟩

theorem readInputs_of_reads {root1 root2 : Id} {graph1 graph2 : Graph}
    (reads1 : env.reads fuel input1 = .ok (root1, graph1))
    (reads2 : env.reads fuel input2 = .ok (root2, graph2)) :
    readInputs env fuel [input1, input2] ⟨[]⟩ =
      .ok ([root1, graph1.beyond root2], graph1.beneath graph2) := by
  rw [readInputs_pair, reads1]
  simp only [bind, Except.bind]
  rw [reads2]
  rfl

/-- A run on inputs that read alike does the same. -/
theorem run_alike (writes : env'.writes = env.writes)
    (alike1 : ReadsAlike env env' fuel input1 input1')
    (alike2 : ReadsAlike env env' fuel input2 input2') {root1 root2 : Id} {graph1 graph2 : Graph}
    (reads1 : env.reads fuel input1 = .ok (root1, graph1))
    (reads2 : env.reads fuel input2 = .ok (root2, graph2)) (outputs : Outputs) :
    run env' fuel [input1', input2'] outputs options = run env fuel [input1, input2]
      outputs options := by
  obtain ⟨root1', graph1', f1, reads1', iso1⟩ := alike1 root1 graph1 reads1
  obtain ⟨root2', graph2', f2, reads2', iso2⟩ := alike2 root2 graph2 reads2
  obtain ⟨π, moved, roots1, roots2⟩ := Graph.Isomorphism.joined (reads_whole reads1)
    (reads_whole reads2)
    (reads_whole reads1') iso1 iso2
  refine run_move moved ((reads_whole reads1).region (reads_whole reads2)) (.inl .refl)
    (.inr ⟨root2, .refl, rfl⟩) writes (readInputs_of_reads reads1 reads2) ?_ outputs
  rw [roots1, roots2]
  exact readInputs_of_reads reads1' reads2'

theorem check_run {ok : Bool} {message : String} {value : Unit}
    {written written' : List (String × String)}
    (checked : (check ok message : Running Unit).run written = .ok value written') :
    written = written' := by
  unfold check at checked
  split at checked
  · cases checked
    rfl
  · cases checked

/-- What a run that returns has done. -/
theorem run_returns {equals : Bool} {written written' : List (String × String)}
    (ran : (run env fuel [input1, input2] outputs options).run written = .ok equals written') :
    ∃ root1 graph1 root2 graph2 comparison s, env.reads fuel input1 = .ok (root1, graph1) ∧
      env.reads fuel input2 = .ok (root2, graph2) ∧
      runCompare (graph1.beneath graph2) options fuel {} root1 (graph1.beyond root2) =
        .ok ((equals, comparison), s) ∧
      (writeReports env (graph1.beneath graph2) s.outcomes fuel comparison outputs ∅).run written =
        .ok () written' := by
  rw [run_pair] at ran
  obtain ⟨⟨root1, graph1⟩, reads1, ran⟩ := ok_of_ofExcept_bind ran
  obtain ⟨⟨root2, graph2⟩, reads2, ran⟩ := ok_of_ofExcept_bind ran
  obtain ⟨⟨⟨verdict, comparison⟩, s⟩, compares, ran⟩ := ok_of_ofExcept_bind ran
  obtain ⟨_, unchanged, checked, ran⟩ := EStateM.ok_of_run_bind ran
  obtain ⟨_, after, wrote, ran⟩ := EStateM.ok_of_run_bind ran
  cases ran
  obtain rfl := check_run checked
  exact ⟨root1, graph1, root2, graph2, comparison, s, reads1, reads2, compares, wrote⟩

theorem writeReports_none {graph : Graph} {outcomes : Outcomes} {names : NameCache}
    {written written' : List (String × String)}
    (ran : (writeReports env graph outcomes fuel none outputs names).run written = .ok ()
      written') :
    written' = written ++ outputs.map fun output => (output.2, "") := by
  induction outputs generalizing names written with
  | nil =>
    cases ran
    exact (List.append_nil _).symm
  | cons output outputs ih =>
    obtain ⟨format, filename⟩ := output
    obtain ⟨_, empty, ran⟩ := ok_of_ofExcept_bind ran
    cases empty
    obtain ⟨_, unchanged, checked, ran⟩ := EStateM.ok_of_run_bind ran
    obtain ⟨_, after, wrote, ran⟩ := EStateM.ok_of_run_bind ran
    obtain rfl := check_run checked
    cases wrote
    rw [ih ran, List.map_cons, List.append_assoc]
    rfl

/-- An input compared with itself, or with the same in another order, is found equal, and
every output is left empty. -/
theorem run_alike_equal (alike : ReadsAlike env env fuel input1 input2) {equals : Bool}
    {written written' : List (String × String)}
    (ran : (run env fuel [input1, input2] outputs options).run written = .ok equals written') :
    equals = true ∧ written' = written ++ outputs.map fun output => (output.2, "") := by
  obtain ⟨root1, graph1, root2, graph2, comparison, s, reads1, reads2, compares, wrote⟩ :=
    run_returns ran
  obtain ⟨root2', graph2', f, reads2', isomorphism⟩ := alike root1 graph1 reads1
  cases reads2.symm.trans reads2'
  have copies := isomorphism.copies_over (reads_whole reads1)
  obtain ⟨found, _⟩ := copies.found_equal compares
  cases found
  exact ⟨rfl, writeReports_none wrote⟩

/-- The exit status does not depend on which input comes first. -/
theorem run_swapped {equals equals' : Bool} {fuel fuel' : Nat} {outputs outputs' : Outputs}
    {written written' after after' : List (String × String)}
    (ran : (run env fuel [input1, input2] outputs options).run written = .ok equals after)
    (swapped : (run env fuel' [input2, input1] outputs' options).run written' =
      .ok equals' after') :
    equals' = equals := by
  obtain ⟨root1, graph1, root2, graph2, comparison, s, reads1, reads2, compares, _⟩ :=
    run_returns ran
  obtain ⟨root2', graph2', root1', graph1', comparison', s', reads2', reads1', compares', _⟩ :=
    run_returns swapped
  cases reads_unique reads1 reads1'
  cases reads_unique reads2 reads2'
  obtain ⟨π, moved, roots1, roots2⟩ := (reads_whole reads1).swapped (reads_whole reads2)
  have again : runCompare (graph2.beneath graph1) options fuel (State.move π {}) (π root1)
      (π (graph1.beyond root2)) = _ :=
    runCompare_move moved (.inl .refl) (.inr ⟨root2, .refl, rfl⟩) {}
  rw [roots1, roots2, compares] at again
  obtain ⟨_, _, verdict, known, answer⟩ := runCompare_fresh again
  obtain ⟨_, _, verdict', known', answer'⟩ := runCompare_fresh compares'
  have mirrored := known_mirrored again compares' known
  calc equals' = verdict' := congrArg Prod.fst answer'
    _ = verdict := Option.some.inj (known'.symm.trans mirrored)
    _ = equals := (congrArg Prod.fst answer).symm

/-- Ignoring more does not make a difference where there was none. -/
theorem run_options {options options' : CompareOptions} (within : options.Within options')
    {equals : Bool} {fuel fuel' : Nat} {outputs outputs' : Outputs}
    {written written' after after' : List (String × String)}
    (ran : (run env fuel [input1, input2] outputs options).run written = .ok true after)
    (again : (run env fuel' [input1, input2] outputs' options').run written' = .ok equals after') :
    equals = true := by
  obtain ⟨root1, graph1, root2, graph2, comparison, s, reads1, reads2, compares, _⟩ :=
    run_returns ran
  obtain ⟨root1', graph1', root2', graph2', comparison', s', reads1', reads2', compares', _⟩ :=
    run_returns again
  cases reads_unique reads1 reads1'
  cases reads_unique reads2 reads2'
  exact (runCompare_alike compares').mpr (within.alike ((runCompare_alike compares).mp rfl))

end Stgdiff

end Stg
