import Stg.Status
import Stg.MoreFuel
import Stg.Unheld
import Stg.OffsetChanges
import Stg.SymbolGroups

set_option autoImplicit false

/- The program as a whole: it ends, and its exit status and its outputs tell whether the
inputs differ. -/
namespace Stg

open Relation (ReflTransGen TransGen)
open Getline (getlines)

variable {graph : Graph} {outcomes : Outcomes} {fuel : Nat}

section Texts

theorem join_eq_empty {texts : List String} : String.join texts = "" ↔
    ∀ text ∈ texts, text = "" := by
  induction texts with
  | nil => simp
  | cons text texts ih =>
    rw [String.join_cons, String.append_eq_empty_iff, ih, List.forall_mem_cons]

theorem render_ne_empty_of_mem {pieces : List Piece} {piece : Piece} (among : piece ∈ pieces)
    (filled : piece.content ≠ "") : render pieces ≠ "" := fun empty =>
  filled (join_eq_empty.mp empty _ (List.mem_map_of_mem among))

/-- Every detail of the root makes the plain report longer. -/
theorem plainPieces_written {root : Comparison} {details : List DiffDetail} {forest : PlainForest}
    {path before : List Comparison} (walks : PlainWalks graph outcomes path before details forest)
    (some_ : details ≠ []) : render (plainPieces root 0 forest) ≠ "" := by
  have among : Piece.text "\n" ∈ plainPieces root 0 forest := by
    cases walks with
    | nil => exact absurd rfl some_
    | leaf => simp [plainPieces, spacing]
    | visit => simp [plainPieces, spacing]
  exact render_ne_empty_of_mem among (by decide)

theorem getlines_ne_nil {delimiter : Char} {item text : List Char} (some_ : item ≠ [] ∨ text ≠ []) :
    getlines delimiter item text ≠ [] := by
  induction text generalizing item with
  | nil =>
    have filled : item ≠ [] := some_.resolve_right fun more => more rfl
    rw [getlines, if_neg filled]
    exact List.cons_ne_nil _ _
  | cons c text ih =>
    unfold getlines
    split
    · exact List.cons_ne_nil _ _
    · exact ih (.inl (List.cons_ne_nil _ _))

theorem streamLines_ne_empty {lines : List String} (some_ : lines ≠ []) :
    streamLines lines ≠ "" := by
  obtain ⟨line, lines, rfl⟩ := List.exists_cons_of_ne_nil some_
  intro empty
  have first := join_eq_empty.mp empty (line ++ "\n") List.mem_cons_self
  exact absurd (String.append_eq_empty_iff.mp first).2 (by decide)

end Texts

/- The passes of the short report leave nothing empty that was not. -/

section PostProcessing

theorem emitCRCOnly_ne_nil {limit : Nat} {pending : List (String × String)} (some_ : pending ≠ []) :
    emitCRCOnly limit pending ≠ [] := by
  obtain ⟨change, pending, rfl⟩ := List.exists_cons_of_ne_nil some_
  cases limit with
  | zero => simp [emitCRCOnly]
  | succ limit => simp [emitCRCOnly]

theorem summariseCRCLoop_ne_nil {limit : Nat} {report : List String}
    {pending : List (String × String)}
    {newReport : List String} (some_ : report ≠ [] ∨ pending ≠ [] ∨ newReport ≠ []) :
    summariseCRCLoop limit report pending newReport ≠ [] := by
  fun_induction summariseCRCLoop limit report pending newReport with
  | case1 pending newReport =>
    rcases some_ with absurd | some_ | some_
    · exact (absurd rfl).elim
    · exact List.append_ne_nil_of_right_ne_nil _ (emitCRCOnly_ne_nil some_)
    · exact List.append_ne_nil_of_left_ne_nil some_ _
  | case2 _ _ _ _ _ _ _ ih => exact ih (.inl (List.cons_ne_nil _ _))
  | case3 _ _ _ _ _ _ _ _ ih => exact ih (.inr (.inl (by simp)))
  | case4 _ _ _ _ _ _ _ _ ih => exact ih (.inl (List.cons_ne_nil _ _))
  | case5 _ _ _ _ _ _ ih => exact ih (.inr (.inr (by simp)))
  | case6 _ _ _ _ _ _ ih => exact ih (.inr (.inr (by simp)))

theorem SymbolPart.lines_ne_nil (part : SymbolPart) : part.lines ≠ [] := by
  cases part <;> exact List.cons_ne_nil _ _

theorem groupRemovedAddedSymbols_ne_nil {report : List String} (some_ : report ≠ []) :
    groupRemovedAddedSymbols report ≠ [] := by
  obtain ⟨parts, made, _, kept, listed⟩ := groupRemovedAddedSymbols_regroups report
  rw [made]
  intro empty
  cases parts with
  | cons part parts =>
    rw [List.flatMap_cons] at empty
    exact part.lines_ne_nil (List.append_eq_nil_iff.mp empty).1
  | nil =>
    have unlisted := List.nil_perm.mp listed
    have read : symbolTokens report ≠ [] := by
      unfold symbolTokens
      split
      · exact absurd rfl some_
      · split <;> exact List.cons_ne_nil _ _
      · exact List.cons_ne_nil _ _
    obtain ⟨token, tokens, tokenized⟩ := List.exists_cons_of_ne_nil read
    rw [tokenized, List.flatMap_cons] at unlisted kept
    cases token with
    | symbol => cases unlisted
    | kept => cases kept

theorem offsetLines_ne_nil {indent : Nat} {offset : Int} {vars : List String} (some_ : vars ≠ []) :
    offsetLines indent offset vars ≠ [] := by
  obtain ⟨first, rest, rfl⟩ := List.exists_cons_of_ne_nil some_
  exact List.cons_ne_nil _ _

theorem summariseOffsetLoop_ne_nil {report : List String} {state last : OffsetState}
    (ran : summariseOffsetLoop report state = .ok last)
    (some_ : report ≠ [] ∨ state.vars ≠ [] ∨ state.newReport ≠ []) : last.newReport ≠ [] := by
  fun_induction summariseOffsetLoop report state with
  | case1 state =>
    cases ran
    rcases some_ with absurd | some_ | some_
    · exact (absurd rfl).elim
    · exact List.append_ne_nil_of_right_ne_nil _ (offsetLines_ne_nil some_)
    · exact List.append_ne_nil_of_left_ne_nil some_ _
  | case2 line1 line2 line3 rest state changed kept =>
    obtain ⟨change, _, ran⟩ := bind_eq_ok ran
    cases change with
    | some change => exact changed change ran (.inl (List.cons_ne_nil _ _))
    | none => exact kept ran (.inl (List.cons_ne_nil _ _))
  | case3 line report state other ih =>
    exact ih ran (.inr (.inr (by simp [OffsetState.pushLine])))

/-- What is left of a report that is not empty is not empty, unless it holds an offset that
is out of range. -/
theorem postProcess_ends {report : List String} (some_ : report ≠ []) (limit : Nat) :
    (∃ lines, postProcess report limit = .ok lines ∧ lines ≠ []) ∨
      postProcess report limit = .error outOfRange := by
  have grouped : groupRemovedAddedSymbols (summariseCRCChanges report limit) ≠ [] :=
    groupRemovedAddedSymbols_ne_nil (summariseCRCLoop_ne_nil (.inl some_))
  unfold postProcess summariseOffsetChanges
  dsimp only
  cases ran :
      summariseOffsetLoop (groupRemovedAddedSymbols (summariseCRCChanges report limit)) {} with
  | ok last => exact .inl ⟨_, rfl, summariseOffsetLoop_ne_nil ran (.inl grouped)⟩
  | error reason =>
    rw [summariseOffsetLoop_throws ran]
    exact .inr rfl

end PostProcessing

section Direct

/-- No walk goes on from the node. -/
def Node.direct : Node → Bool
  | .typedef _ | .qualified _ | .baseClass _ | .member _ | .structUnion _ => false
  | _ => true

theorem Graph.get_of_mem {id : Id} {node : Node} (got : graph.get id = .ok node) :
    some node ∈ graph.nodes :=
  List.mem_of_getElem? (Graph.get_eq_ok.mp got)

/-- Where all references are set and no walk goes on, all nodes can be named. -/
theorem nameable_of_direct (direct : ∀ slot ∈ graph.nodes, ∀ node ∈ slot, node.direct = true ∧
    ∀ reference ∈ node.references, (graph.nodes[reference.ix]?.join).isSome = true) :
      graph.Nameable := by
  refine ⟨fun id node got reference among => ?_, ⟨?_, ?_, ?_⟩, fun id node _ _ _ _ got => ?_⟩
  · obtain ⟨target, held⟩ := Option.isSome_iff_exists.mp
      ((direct _ (Graph.get_of_mem got) node rfl).2 reference among)
    exact ⟨target, Graph.get_eq_ok.mpr (Option.join_eq_some_iff.mp held)⟩
  · rintro id ⟨node, got⟩
    have stops := (direct _ (Graph.get_of_mem got) node rfl).1
    refine ⟨1, ?_⟩
    rw [resolveQualifiers, got]
    cases node with
    | typedef | qualified | baseClass | member | structUnion => cases stops
    | _ => exact ⟨_, rfl⟩
  · rintro id ⟨node, got⟩
    have stops := (direct _ (Graph.get_of_mem got) node rfl).1
    refine ⟨1, ?_⟩
    rw [resolveTypedefs, got]
    cases node with
    | typedef | qualified | baseClass | member | structUnion => cases stops
    | _ => exact ⟨_, rfl⟩
  · rintro id ⟨node, got⟩
    have stops := (direct _ (Graph.get_of_mem got) node rfl).1
    refine ⟨1, ?_⟩
    rw [matchingKey, got]
    cases node with
    | typedef | qualified | baseClass | member | structUnion => cases stops
    | _ => exact ⟨_, rfl⟩
  · cases (direct _ (Graph.get_of_mem got) _ rfl).1

end Direct

section Reports

variable {root : Comparison}

/-- What a report relies on: the root leads to a change, and unless the format is `viz`
every cycle passes a comparison that holds changes. -/
structure Reportable (graph : Graph) (outcomes : Outcomes) (root : Comparison) (format : OutputFormat) :
    Prop where
  nameable : graph.Nameable
  sound : outcomes.Sound graph
  cycles : format ≠ .viz → outcomes.CyclesHold
  rooted : ∃ diff, outcomes.lookup root = some diff ∧ ∀ detail ∈ diff.details, detail.edge ≠ none
  changes : ∃ d, TransGen outcomes.Edge root d ∧ outcomes.Changed d

/-- The call returns with a text, and leaves a sound cache of names. -/
def Tells (graph : Graph) (call : NameM String) : Prop :=
  ∀ names : NameCache, names.Sound graph → ∃ text names', call.run names = .ok (text, names') ∧
    NameCache.Sound graph names' ∧ text ≠ ""

theorem Reportable.plain (reportable : Reportable graph outcomes root .plain) (limit : Nat) :
    ∃ enough, ∀ fuel, enough ≤ fuel →
      Tells graph (report graph outcomes ⟨.plain, limit⟩ fuel root) := by
  obtain ⟨diff, held, _⟩ := reportable.rooted
  obtain ⟨d, path, _⟩ := reportable.changes
  obtain ⟨enough, does⟩ := reportPlain_does reportable.sound
    (reportable.sound.nameable reportable.nameable)
    (fun _ : True => reportable.cycles nofun) (show outcomes.lookup root ≠ none by simp [held])
  refine ⟨enough, fun fuel more names sound => ?_⟩
  obtain ⟨_, seen, names', ran, sound', forest, walks, rfl⟩ :=
    (does fuel fun _ => more).returns sound
  have detailed : outcomes.details root ≠ [] := by
    obtain ⟨e, edge, _⟩ := TransGen.head'_iff.mp path
    intro none_
    simpa [none_] using Outcomes.edge_iff.mp edge
  refine ⟨render (plainPieces root 0 forest), names', ?_, sound',
    plainPieces_written walks detailed⟩
  simp only [report, StateT.run_bind, ran]
  rfl

theorem Reportable.flat (reportable : Reportable graph outcomes root .flat) (full : Bool) :
    ∃ enough, ∀ fuel, enough ≤ fuel → ∀ names : NameCache, names.Sound graph →
      ∃ report queue names',
      ((reportFlat graph outcomes full fuel root).run {}).run names = .ok
        ((report, queue), names') ∧
      NameCache.Sound graph names' ∧ render report.pieces ≠ "" := by
  obtain ⟨diff, held, rooted⟩ := reportable.rooted
  obtain ⟨d, path, changed⟩ := reportable.changes
  obtain ⟨enough, does⟩ := reportFlat_does full reportable.sound
    (reportable.sound.nameable reportable.nameable)
    (fun _ : True => reportable.cycles nofun) held rooted
  refine ⟨enough, fun fuel more names sound => ?_⟩
  obtain ⟨flat, queue, names', ran, sound', covers⟩ := (does fuel fun _ => more).returns sound
  exact ⟨flat, queue, names', ran, sound', (covers.described path (.inr changed)).render_ne_empty⟩

theorem Reportable.viz (reportable : Reportable graph outcomes root .viz) (limit : Nat) :
    ∃ enough, ∀ fuel, enough ≤ fuel →
      Tells graph (report graph outcomes ⟨.viz, limit⟩ fuel root) := by
  obtain ⟨diff, held, _⟩ := reportable.rooted
  obtain ⟨enough, does⟩ := reportViz_does reportable.sound reportable.nameable
    (show outcomes.lookup root ≠ none by simp [held])
  refine ⟨enough, fun fuel more names sound => ?_⟩
  obtain ⟨text, viz, names', ran, sound', statements, made, _⟩ := (does fuel more).returns sound
  refine ⟨text, names', ?_, sound', ?_⟩
  · simp only [report, StateT.run_bind, ran]
    rfl
  · rw [made, String.append_assoc]
    intro empty
    exact absurd (String.append_eq_empty_iff.mp empty).1 (by decide)

/-- With enough fuel a report is written, unless an offset in a short one is out of range. -/
theorem Reportable.ends {format : OutputFormat} (reportable : Reportable graph outcomes root format)
    (limit : Nat) : ∃ enough, ∀ fuel, enough ≤ fuel → ∀ names : NameCache, names.Sound graph →
      (∃ text names', (report graph outcomes ⟨format, limit⟩ fuel root).run names = .ok
        (text, names') ∧
        NameCache.Sound graph names' ∧ text ≠ "") ∨
      format = .short ∧ (report graph outcomes ⟨format, limit⟩ fuel root).run names =
        .error outOfRange := by
  obtain ⟨nameable, sound, cycles, rooted, changes⟩ := reportable
  cases format with
  | plain =>
    obtain ⟨enough, tells⟩ := Reportable.plain ⟨nameable, sound, cycles, rooted, changes⟩ limit
    exact ⟨enough, fun fuel more names held => .inl (tells fuel more names held)⟩
  | viz =>
    obtain ⟨enough, tells⟩ := Reportable.viz ⟨nameable, sound, cycles, rooted, changes⟩ limit
    exact ⟨enough, fun fuel more names held => .inl (tells fuel more names held)⟩
  | flat =>
    obtain ⟨enough, tells⟩ := Reportable.flat ⟨nameable, sound, cycles, rooted, changes⟩ true
    refine ⟨enough, fun fuel more names held => ?_⟩
    obtain ⟨flat, queue, names', ran, sound', written⟩ := tells fuel more names held
    refine .inl ⟨_, names', ?_, sound', written⟩
    simp only [report, StateT.run_bind, ran]
    rfl
  | small =>
    obtain ⟨enough, tells⟩ :=
      Reportable.flat ⟨nameable, sound, fun _ => cycles nofun, rooted, changes⟩ false
    refine ⟨enough, fun fuel more names held => ?_⟩
    obtain ⟨flat, queue, names', ran, sound', written⟩ := tells fuel more names held
    refine .inl ⟨_, names', ?_, sound', written⟩
    simp only [report, StateT.run_bind, ran]
    rfl
  | short =>
    obtain ⟨enough, tells⟩ :=
      Reportable.flat ⟨nameable, sound, fun _ => cycles nofun, rooted, changes⟩ false
    refine ⟨enough, fun fuel more names held => ?_⟩
    obtain ⟨flat, queue, names', ran, sound', written⟩ := tells fuel more names held
    have lines : getlines '\n' [] (render flat.pieces).toList ≠ [] :=
      getlines_ne_nil (.inr fun none_ => written (String.toList_eq_nil_iff.mp none_))
    have shortened : (report graph outcomes ⟨.short, limit⟩ fuel root).run names =
        ((ofExcept (postProcess (getlines '\n' [] (render flat.pieces).toList) limit) : NameM _) >>=
          fun lines => pure (streamLines lines)).run names' := by
      rw [report, StateT.run_bind, ran]
      rfl
    rw [shortened]
    rcases postProcess_ends lines limit with ⟨left, processed, some_⟩ | raised
    · rw [processed]
      exact .inl ⟨_, names', rfl, sound', streamLines_ne_empty some_⟩
    · rw [raised]
      exact .inr ⟨rfl, rfl⟩

end Reports

namespace Stgdiff

variable {env : Environment} {outputs : Outputs}

/-- With enough fuel every output is written, unless an offset in a short one is out of
range. -/
theorem writeReports_ends {root : Comparison} (writes : ∀ file text, env.writes file text = true)
    (reportable : ∀ output ∈ outputs, Reportable graph outcomes root output.1) :
    ∃ enough, ∀ fuel, enough ≤ fuel → ∀ names : NameCache, names.Sound graph → ∀ written,
      (∃ texts, (writeReports env graph outcomes fuel (some root) outputs names).run written =
          .ok () (written ++ texts) ∧ texts.map Prod.fst = outputs.map Prod.snd ∧
        ∀ text ∈ texts, text.2 ≠ "") ∨
      (∃ output ∈ outputs, output.1 = .short) ∧ ∃ written',
        (writeReports env graph outcomes fuel (some root) outputs names).run written =
          .error outOfRange written' := by
  induction outputs with
  | nil =>
    exact ⟨0, fun fuel _ names _ written => .inl ⟨[], by rw [List.append_nil]; rfl, rfl, nofun⟩⟩
  | cons output outputs ih =>
    obtain ⟨first, rest⟩ := List.forall_mem_cons.mp reportable
    obtain ⟨format, filename⟩ := output
    obtain ⟨enough, ends⟩ := first.ends maxCRCOnlyChanges
    obtain ⟨enough', later⟩ := ih rest
    refine ⟨max enough enough', fun fuel more names sound written => ?_⟩
    have step (text : String) (names' : NameCache)
        (ran : (report graph outcomes ⟨format, maxCRCOnlyChanges⟩ fuel root).run names = .ok
          (text, names')) :
        (writeReports env graph outcomes fuel (some root)
          ((format, filename) :: outputs) names).run written =
          (writeReports env graph outcomes fuel (some root) outputs names').run
            (written ++ [(filename, text)]) := by
      simp only [writeReports, reportDiffs, ran, ofExcept_ok, pure_bind, writes, check, ↓reduceIte]
      rfl
    rcases ends fuel (le_trans (le_max_left _ _) more) names sound with
      ⟨text, names', ran, sound', filled⟩ | ⟨short, raised⟩
    · rw [step text names' ran]
      rcases later fuel (le_trans (le_max_right _ _) more) names' sound'
        (written ++ [(filename, text)])
        with ⟨texts, wrote, files, each⟩ | ⟨⟨output, among, short⟩, raised⟩
      · refine .inl ⟨(filename, text) :: texts, ?_, ?_, List.forall_mem_cons.mpr ⟨filled, each⟩⟩
        · rw [wrote, List.append_assoc]
          rfl
        · rw [List.map_cons, List.map_cons, files]
      · exact .inr ⟨⟨output, List.mem_cons_of_mem _ among, short⟩, raised⟩
    · refine .inr ⟨⟨_, List.mem_cons_self, short⟩, written, ?_⟩
      simp only [writeReports, reportDiffs, raised]
      rfl

theorem sccEmpty_of_empty {ν : Type} [DecidableEq ν] {scc : Scc ν} (empty : scc.empty) :
    sccEmpty scc = true := by
  obtain ⟨open_, isOpen, rootIndex⟩ := empty
  simp [sccEmpty, open_, isOpen, rootIndex]

variable {options : CompareOptions} {root1 root2 : Id} {symbols1 symbols2 : Symbols}
  {input1 input2 : InputFormat × String}

/-- What the outcomes of a comparison of different symbol tables have in store for a report
on them. -/
theorem reportable_of_unequal {s : State}
    (inv : s.Inv graph options (ReflTransGen (ChildEdge graph options) (some root1, some root2)))
    (nameable : graph.Nameable) (got1 : graph.get root1 = .ok (.symbols symbols1))
    (got2 : graph.get root2 = .ok (.symbols symbols2))
    (unequal : s.known.lookup (some root1, some root2) = some false) {format : OutputFormat}
    (cycles : format ≠ .viz → CyclesAlike graph options (some root1, some root2)) :
    Reportable graph s.outcomes (some root1, some root2) format := by
  obtain ⟨diff, held, rooted, unchanged⟩ := inv.symbols_entry got1 got2 unequal
  refine ⟨nameable, inv.outcomes_sound nameable.references nameable.resolves,
    fun printed => (inv.cyclesHold_iff (by simp [unequal])).mpr (cycles printed),
      ⟨diff, held, rooted⟩, ?_⟩
  obtain ⟨d, path, changed⟩ := inv.reaches_change unequal
  rcases Relation.reflTransGen_iff_eq_or_transGen.mp path with rfl | leads
  · exact absurd changed unchanged
  · exact ⟨d, leads, changed⟩

/-- Nothing has been left open by a comparison, and the outcomes do not depend on the fuel. -/
theorem compareReport_compares {answer : Answer} {s : State}
    (compares : runCompare graph options fuel {} root1 root2 = .ok (answer, s)) {enough : Nat}
    (more : fuel ≤ enough) (outputs : Outputs) :
    compareReport env enough graph root1 root2 outputs options = (do
      writeReports env graph s.outcomes enough answer.2 outputs ∅
      return answer.1) := by
  obtain ⟨inv, idle, _⟩ := runCompare_fresh compares
  have closed := sccEmpty_of_empty (inv.valid.empty_iff.mpr idle)
  unfold compareReport
  rw [runCompare_more more _ _ _ _ compares, ofExcept_ok, pure_bind]
  simp only [closed, check, ↓reduceIte, pure_bind]

theorem writeReports_equal (writes : ∀ file text, env.writes file text = true) {names : NameCache}
    (written : List (String × String)) :
    (writeReports env graph outcomes fuel none outputs names).run written =
      .ok () (written ++ outputs.map fun output => (output.2, "")) := by
  induction outputs generalizing written with
  | nil => exact congrArg _ (List.append_nil _).symm
  | cons output outputs ih =>
    obtain ⟨format, filename⟩ := output
    have step : (writeReports env graph outcomes fuel none ((format, filename) :: outputs)
      names).run written =
        (writeReports env graph outcomes fuel none outputs names).run
          (written ++ [(filename, "")]) := by
      simp only [writeReports, reportDiffs, writes, check, ↓reduceIte]
      rfl
    rw [step, ih, List.append_assoc]
    rfl

/-- The files of a run are those that were asked for, and each of them is left empty if and
only if the inputs are found the same. -/
structure Wrote (outputs : Outputs) (equals : Bool) (written : List (String × String)) : Prop where
  files : written.map Prod.fst = outputs.map Prod.snd
  texts : ∀ text ∈ written, text.2 = "" ↔ equals = true

/-- With enough fuel the comparison ends, and all outputs are written, unless a short one
has an offset that is out of range. -/
theorem compareReport_ends (writes : ∀ file text, env.writes file text = true)
    (nameable : graph.Nameable)
    (got1 : graph.get root1 = .ok (.symbols symbols1))
    (got2 : graph.get root2 = .ok (.symbols symbols2))
    (cycles : ∀ output ∈ outputs, output.1 ≠ .viz →
      CyclesAlike graph options (some root1, some root2)) :
    ∃ equals, (equals = true ↔ Alike graph options (some root1, some root2)) ∧ ∃ enough, ∀ fuel,
      enough ≤ fuel → (∃ written,
        (compareReport env fuel graph root1 root2 outputs options).run [] = .ok equals written ∧
          Wrote outputs equals written) ∨
      (∃ output ∈ outputs, output.1 = .short) ∧ ∃ written,
        (compareReport env fuel graph root1 root2 outputs options).run
          [] = .error outOfRange written := by
  obtain ⟨first, returns⟩ := runCompare_returns nameable.references nameable.resolves options
  obtain ⟨⟨equals, comparison⟩, s, compares⟩ :=
    returns first le_rfl {} .new root1 root2 ⟨_, got1⟩ ⟨_, got2⟩
  refine ⟨equals, runCompare_alike compares, ?_⟩
  obtain ⟨inv, _, verdict, known, answered⟩ := runCompare_fresh compares
  obtain rfl : equals = verdict := congrArg Prod.fst answered
  obtain rfl : comparison = if equals then none else _ := congrArg Prod.snd answered
  cases equals with
  | true =>
    refine ⟨first, fun fuel more => .inl ⟨outputs.map fun output => (output.2, ""), ?_, ?_, ?_⟩⟩
    · rw [compareReport_compares compares more]
      exact EStateM.run_bind_of_ok (writeReports_equal writes [])
    · rw [List.map_map]
      rfl
    · intro text among
      obtain ⟨output, _, rfl⟩ := List.mem_map.mp among
      exact iff_of_true rfl rfl
  | false =>
    have reportable : ∀ output ∈ outputs,
        Reportable graph s.outcomes (some root1, some root2) output.1 := fun output among =>
      reportable_of_unequal inv nameable got1 got2 known (cycles output among)
    obtain ⟨second, ends⟩ := writeReports_ends writes reportable
    refine ⟨max first second, fun fuel more => ?_⟩
    rw [compareReport_compares compares (le_trans (le_max_left _ _) more)]
    rcases ends fuel (le_trans (le_max_right _ _) more) ∅ nofun [] with
      ⟨texts, wrote, files, each⟩ | ⟨short, written, raised⟩
    · refine .inl ⟨texts, ?_, files, fun text among => iff_of_false (each text among) nofun⟩
      exact EStateM.run_bind_of_ok wrote
    · exact .inr ⟨short, written, EStateM.run_bind_of_error raised⟩

section Spins

/-- A report that prints a cycle of differences that it does not leave. -/
theorem report_spins {format : OutputFormat} (printed : format ≠ .viz) {root : Comparison}
    (plain : Spins graph (fun fuel => reportPlain graph outcomes fuel root) ∅)
    (flat : ∀ full, Spins graph (fun fuel => reportFlat graph outcomes full fuel root) {})
    {names : NameCache} (sound : names.Sound graph) (limit : Nat) :
    (report graph outcomes ⟨format, limit⟩ fuel root).run names = .error .outOfFuel := by
  cases format with
  | plain => simp only [report, StateT.run_bind, plain fuel names sound]; rfl
  | flat => simp only [report, StateT.run_bind, flat true fuel names sound]; rfl
  | small => simp only [report, StateT.run_bind, flat false fuel names sound]; rfl
  | short => simp only [report, StateT.run_bind, flat false fuel names sound]; rfl
  | viz => exact absurd rfl printed

/-- The outputs before the first that is not `viz` are written, and that one never is. -/
theorem writeReports_spins {root : Comparison} (writes : ∀ file text, env.writes file text = true)
    (drawn : Reportable graph outcomes root .viz)
    (plain : Spins graph (fun fuel => reportPlain graph outcomes fuel root) ∅)
    (flat : ∀ full, Spins graph (fun fuel => reportFlat graph outcomes full fuel root) {})
    (printed : ∃ output ∈ outputs, output.1 ≠ .viz) :
    ∃ enough, ∀ fuel, enough ≤ fuel → ∀ names : NameCache, names.Sound graph →
      ∀ written, ∃ written',
      (writeReports env graph outcomes fuel (some root) outputs names).run written =
        .error .outOfFuel written' := by
  obtain ⟨enough, ends⟩ := drawn.viz maxCRCOnlyChanges
  refine ⟨enough, fun fuel more names sound written => ?_⟩
  induction outputs generalizing names written with
  | nil => exact absurd printed (by simp)
  | cons output outputs ih =>
    obtain ⟨format, filename⟩ := output
    by_cases viz : format = .viz
    · subst viz
      obtain ⟨text, names', ran, sound', _⟩ := ends fuel more names sound
      have step : (writeReports env graph outcomes fuel (some root)
        ((.viz, filename) :: outputs) names).run
          written = (writeReports env graph outcomes fuel (some root) outputs names').run
            (written ++ [(filename, text)]) := by
        simp only [writeReports, reportDiffs, ran, ofExcept_ok, pure_bind, writes, check,
          ↓reduceIte]
        rfl
      rw [step]
      exact ih (by simpa using printed) names' sound' _
    · refine ⟨written, ?_⟩
      simp only [writeReports, reportDiffs, report_spins viz plain flat sound maxCRCOnlyChanges]
      rfl

/-- Where a cycle of differences is not left, the run never ends. -/
theorem compareReport_spins (writes : ∀ file text, env.writes file text = true)
    (nameable : graph.Nameable)
    (got1 : graph.get root1 = .ok (.symbols symbols1))
    (got2 : graph.get root2 = .ok (.symbols symbols2))
    (cycling : ¬ CyclesAlike graph options (some root1, some root2))
    (printed : ∃ output ∈ outputs, output.1 ≠ .viz) :
    ∃ enough, ∀ fuel, enough ≤ fuel → ∃ written,
      (compareReport env fuel graph root1 root2 outputs options).run
        [] = .error .outOfFuel written := by
  obtain ⟨first, returns⟩ := runCompare_returns nameable.references nameable.resolves options
  obtain ⟨⟨equals, comparison⟩, s, compares⟩ :=
    returns first le_rfl {} .new root1 root2 ⟨_, got1⟩ ⟨_, got2⟩
  obtain ⟨inv, _, verdict, known, answered⟩ := runCompare_fresh compares
  obtain rfl : equals = verdict := congrArg Prod.fst answered
  obtain rfl : comparison = if equals then none else _ := congrArg Prod.snd answered
  cases equals with
  | true =>
    have alike := (inv.verdict_iff known).mp rfl
    exact absurd (fun c path _ d below => alike d (path.trans below)) cycling
  | false =>
    have cycles := inv.cyclesHold_iff (by simp [known])
    have sound := inv.outcomes_sound nameable.references nameable.resolves
    obtain ⟨plain, flat⟩ := inv.reports_spin sound (sound.nameable nameable) got1 got2 known
      fun hold => cycling (cycles.mp hold)
    have drawn : Reportable graph s.outcomes (some root1, some root2) .viz :=
      reportable_of_unequal inv nameable got1 got2 known fun printed => absurd rfl printed
    obtain ⟨second, spins⟩ := writeReports_spins writes drawn plain flat printed
    refine ⟨max first second, fun fuel more => ?_⟩
    rw [compareReport_compares compares (le_trans (le_max_left _ _) more)]
    obtain ⟨written, raised⟩ := spins fuel (le_trans (le_max_right _ _) more) ∅ nofun []
    exact ⟨written, EStateM.run_bind_of_error raised⟩

end Spins

section Main

variable {program : String} {arguments : List String} {settings : Settings}

/-- How the program ends when it succeeds: the status and all the outputs tell whether the
inputs are alike. -/
structure Answers (outputs : Outputs) (alike : Prop) (ending : Ending) : Prop where
  stderr : ending.stderr = ""
  equal : alike → ending.status = 0
  different : ¬ alike → ending.status = abiChange
  files : ending.written.map Prod.fst = outputs.map Prod.snd
  texts : ∀ text ∈ ending.written, text.2 = "" ↔ alike

theorem main_eq (parsed : processArguments arguments = some settings)
    (inputs : settings.inputs = [input1, input2]) : main env fuel program arguments =
      match (run env fuel [input1, input2] settings.outputs settings.compareOptions).run [] with
      | .ok equals written => .ok { status := status equals, written }
      | .error (.exception message) written =>
        .ok { status := 1, stderr := message ++ "\n", written }
      | .error reason _ => .error reason := by
  unfold main
  rw [parsed]
  dsimp only
  rw [inputs]
  rfl

theorem readInputs_of_nodes {inputs : Inputs} {roots : List Id}
    (given : (readInputs env fuel inputs ⟨[]⟩).toOption.map (fun out => (out.1, out.2.nodes)) =
      some (roots, graph.nodes)) : readInputs env fuel inputs ⟨[]⟩ = .ok (roots, graph) := by
  cases read : readInputs env fuel inputs ⟨[]⟩ with
  | error =>
    rw [read] at given
    cases given
  | ok out =>
    rw [read] at given
    obtain ⟨given, nodes⟩ := out
    obtain ⟨nodes'⟩ := graph
    cases given
    rfl

/-- Once the inputs have been read into a graph whose nodes can be compared and named, the
program ends, and its status and each of its outputs tell whether the inputs are alike.
Printed outputs rely on cycles of differences that pass a node that holds changes; an
offset of 2^63 or more ends the program where a short output is made. -/
theorem main_completes (parsed : processArguments arguments = some settings)
    (inputs : settings.inputs = [input1, input2])
    (reads : readInputs env fuel [input1, input2] ⟨[]⟩ = .ok ([root1, root2], graph))
    (nameable : graph.Nameable) (writes : ∀ file text, env.writes file text = true)
    (cycles : ∀ output ∈ settings.outputs, output.1 ≠ .viz →
      CyclesAlike graph settings.compareOptions (some root1, some root2)) :
    ∃ enough, ∀ fuel, enough ≤ fuel →
      (∃ ending, main env fuel program arguments = .ok ending ∧
        Answers settings.outputs (Alike graph settings.compareOptions (some root1, some root2)) ending) ∨
      (∃ output ∈ settings.outputs, output.1 = .short) ∧
        main env fuel program arguments = .error outOfRange := by
  obtain ⟨⟨symbols1, got1⟩, ⟨symbols2, got2⟩, same⟩ := run_of_readInputs reads
  obtain ⟨equals, alike, enough, ends⟩ := compareReport_ends writes nameable got1 got2 cycles
  refine ⟨max fuel enough, fun fuel' more => ?_⟩
  rw [main_eq parsed inputs, same fuel' (le_trans (le_max_left _ _) more)]
  rcases ends fuel' (le_trans (le_max_right _ _) more) with ⟨written, ran, wrote⟩ |
    ⟨short, _, raised⟩
  · rw [ran]
    refine .inl ⟨_, rfl, rfl, fun same => ?_, fun different =>
      ?_, wrote.files, fun text among => ?_⟩
    · rw [alike.mpr same]
      rfl
    · rw [Bool.eq_false_iff.mpr fun found => different (alike.mp found)]
      rfl
    · exact (wrote.texts text among).trans alike
  · rw [raised]
    exact .inr ⟨short, rfl⟩

/-- A variable that points to an integer, and one that is an integer. -/
def pointerThenInt : Graph where
  nodes := [
    some (.pointerReference ⟨.pointer, ⟨1⟩⟩), some (.integer ⟨"int", .signedInteger, 32, 4⟩),
    some (.elfSymbol ⟨"x", none, true, .object, .global, .default, none, some ⟨0⟩, some "x"⟩),
    some (.symbols ⟨[(⟨"", "x"⟩, ⟨2⟩)], List.pairwise_singleton _ _⟩),
    some (.integer ⟨"int", .signedInteger, 32, 4⟩), some (.pointerReference ⟨.pointer, ⟨4⟩⟩),
    some (.elfSymbol ⟨"x", none, true, .object, .global, .default, none, some ⟨4⟩, some "x"⟩),
    some (.symbols ⟨[(⟨"", "x"⟩, ⟨6⟩)], List.pairwise_singleton _ _⟩)]

theorem pointerThenInt_nameable : pointerThenInt.Nameable := nameable_of_direct (by decide)

theorem pointerThenInt_plans :
    Plans pointerThenInt {} (some ⟨3⟩, some ⟨7⟩) ⟨true, [.compare "" ⟨2⟩ ⟨6⟩]⟩ ∧
    Plans pointerThenInt {} (some ⟨2⟩, some ⟨6⟩) ⟨false, [.compare "" ⟨0⟩ ⟨4⟩]⟩ ∧
    Plans pointerThenInt {} (some ⟨0⟩, some ⟨4⟩) ⟨false, [.incomparable]⟩ := by
  refine ⟨⟨_, _, 3, rfl, ?_⟩, ⟨_, _, 3, rfl, ?_⟩, ⟨_, _, 3, rfl, ?_⟩⟩
  all_goals decide +kernel

/-- Two types of other kinds are looked into no further. -/
theorem pointerThenInt_cycles : CyclesAlike pointerThenInt {} (some ⟨3⟩, some ⟨7⟩) := by
  obtain ⟨root, symbol, type⟩ := pointerThenInt_plans
  have leaf : ∀ d, ¬ ChildEdge pointerThenInt {} (some ⟨0⟩, some ⟨4⟩) d := fun d edge =>
    absurd (type.childEdge.mp edge) (by simp [Plan.children, Step.child])
  have second : ∀ d, ChildEdge pointerThenInt {} (some ⟨2⟩, some ⟨6⟩) d →
      d = (some ⟨0⟩, some ⟨4⟩) :=
    fun d edge => by simpa [Plan.children, Step.child] using symbol.childEdge.mp edge
  have first : ∀ d, ChildEdge pointerThenInt {} (some ⟨3⟩, some ⟨7⟩) d → d = (some ⟨2⟩, some ⟨6⟩) :=
    fun d edge => by simpa [Plan.children, Step.child] using root.childEdge.mp edge
  intro c path cycle
  have below : TransGen (ChildEdge pointerThenInt {}) c c :=
    TransGen.mono (fun _ _ edge => edge.1) c c cycle
  have typeless : ∀ d, ¬ TransGen (ChildEdge pointerThenInt {}) (some ⟨0⟩, some ⟨4⟩) d := by
    intro d walk
    obtain ⟨e, edge, _⟩ := TransGen.head'_iff.mp walk
    exact leaf e edge
  have symbolic : ∀ d, TransGen (ChildEdge pointerThenInt {}) (some ⟨2⟩, some ⟨6⟩) d →
      d = (some ⟨0⟩, some ⟨4⟩) := by
    intro d walk
    obtain ⟨e, edge, rest⟩ := TransGen.head'_iff.mp walk
    obtain rfl := second e edge
    rcases Relation.reflTransGen_iff_eq_or_transGen.mp rest with same | walk
    · exact same
    · exact absurd walk (typeless d)
  rcases Relation.reflTransGen_iff_eq_or_transGen.mp path with rfl | path
  · obtain ⟨e, edge, rest⟩ := TransGen.head'_iff.mp below
    obtain rfl := first e edge
    rcases Relation.reflTransGen_iff_eq_or_transGen.mp rest with same | walk
    · cases same
    · cases symbolic _ walk
  · obtain ⟨e, edge, rest⟩ := TransGen.head'_iff.mp path
    obtain rfl := first e edge
    rcases Relation.reflTransGen_iff_eq_or_transGen.mp rest with rfl | walk
    · cases symbolic _ below
    · cases symbolic _ walk
      exact absurd below (typeless _)

theorem main_completes_variables : ∃ enough, ∀ fuel, enough ≤ fuel →
    (∃ ending, main variableFiles fuel "stgdiff" ["forwards.xml", "int.xml", "--output", "report"] =
      .ok ending ∧ Answers [(.plain, "report")] (Alike pointerThenInt {} (some ⟨3⟩, some ⟨7⟩)) ending) ∨
    (∃ output ∈ [(OutputFormat.plain, "report")], output.1 = .short) ∧
      main variableFiles fuel "stgdiff" ["forwards.xml", "int.xml", "--output", "report"] =
        .error outOfRange := by
  have parsed : processArguments ["forwards.xml", "int.xml", "--output", "report"] = some {
      inputs := [(.abi, "forwards.xml"), (.abi, "int.xml")]
      outputs := [(.plain, "report")] } := by decide
  have reads : readInputs variableFiles 20 [(.abi, "forwards.xml"), (.abi, "int.xml")] ⟨[]⟩ =
      .ok ([⟨3⟩, ⟨7⟩], pointerThenInt) := readInputs_of_nodes (by decide +kernel)
  exact main_completes parsed rfl reads pointerThenInt_nameable (fun _ _ => rfl)
    fun _ _ _ => pointerThenInt_cycles

/-- Where something different is below a cycle of nodes that do not hold changes, an output
that is printed is never finished. -/
theorem main_spins (parsed : processArguments arguments = some settings)
    (inputs : settings.inputs = [input1, input2])
    (reads : readInputs env fuel [input1, input2] ⟨[]⟩ = .ok ([root1, root2], graph))
    (nameable : graph.Nameable) (writes : ∀ file text, env.writes file text = true)
    (cycling : ¬ CyclesAlike graph settings.compareOptions (some root1, some root2))
    (printed : ∃ output ∈ settings.outputs, output.1 ≠ .viz) :
    ∃ enough, ∀ fuel, enough ≤ fuel → main env fuel program arguments = .error .outOfFuel := by
  obtain ⟨⟨symbols1, got1⟩, ⟨symbols2, got2⟩, same⟩ := run_of_readInputs reads
  obtain ⟨enough, spins⟩ := compareReport_spins writes nameable got1 got2 cycling printed
  refine ⟨max fuel enough, fun fuel' more => ?_⟩
  obtain ⟨written, raised⟩ := spins fuel' (le_trans (le_max_right _ _) more)
  rw [main_eq parsed inputs, same fuel' (le_trans (le_max_left _ _) more), raised]

section Callbacks

open AbiXml (Element variableOf)

/-- A variable that points to a function that takes such a pointer. -/
def callback (result size : String) : Element :=
  variableOf "p" [
    .mk "pointer-type-def" [("id", "p"), ("type-id", "f")] [],
    .mk "function-type" [("id", "f")] [
      .mk "parameter" [("type-id", "p")] [],
      .mk "return" [("type-id", "i")] []],
    .mk "type-decl" [("id", "i"), ("name", result), ("size-in-bits", size)] []]

def callbackFiles : Environment where
  xml file :=
    if file = "int.xml" then .ok (some (some (callback "int" "32")))
    else if file = "long.xml" then .ok (some (some (callback "long" "64")))
    else .error "No such file or directory"
  elf _ := .unopened
  elfVersionMatches := true
  iteration := .inOrder
  writes _ _ := true

/-- What the two files give. -/
def callbacks : Graph where
  nodes := [
    some (.pointerReference ⟨.pointer, ⟨1⟩⟩), some (.function ⟨⟨2⟩, [⟨"", ⟨0⟩⟩]⟩),
    some (.integer ⟨"int", .signedInteger, 32, 4⟩),
    some (.elfSymbol ⟨"x", none, true, .object, .global, .default, none, some ⟨0⟩, some "x"⟩),
    some (.symbols ⟨[(⟨"", "x"⟩, ⟨3⟩)], List.pairwise_singleton _ _⟩),
    some (.pointerReference ⟨.pointer, ⟨6⟩⟩), some (.function ⟨⟨7⟩, [⟨"", ⟨5⟩⟩]⟩),
    some (.integer ⟨"long", .signedInteger, 64, 8⟩),
    some (.elfSymbol ⟨"x", none, true, .object, .global, .default, none, some ⟨5⟩, some "x"⟩),
    some (.symbols ⟨[(⟨"", "x"⟩, ⟨8⟩)], List.pairwise_singleton _ _⟩)]

theorem callbacks_nameable : callbacks.Nameable := nameable_of_direct (by decide)

theorem callbacks_plans :
    Plans callbacks {} (some ⟨4⟩, some ⟨9⟩) ⟨true, [.compare "" ⟨3⟩ ⟨8⟩]⟩ ∧
    Plans callbacks {} (some ⟨3⟩, some ⟨8⟩) ⟨false, [.compare "" ⟨0⟩ ⟨5⟩]⟩ ∧
    Plans callbacks {} (some ⟨0⟩, some ⟨5⟩) ⟨false, [.compare "pointed-to" ⟨1⟩ ⟨6⟩]⟩ ∧
    Plans callbacks {} (some ⟨1⟩, some ⟨6⟩)
      ⟨false, [.compare "return" ⟨2⟩ ⟨7⟩, .compare "parameter 1" ⟨0⟩ ⟨5⟩]⟩ ∧
    ∃ plan, Plans callbacks {} (some ⟨2⟩, some ⟨7⟩) plan ∧ plan.clean = false := by
  refine ⟨⟨_, _, 3, rfl, ?_⟩, ⟨_, _, 3, rfl, ?_⟩, ⟨_, _, 3, rfl, ?_⟩, ⟨_, _, 3, rfl, ?_⟩,
    ⟨_, ⟨_, _, 3, rfl, rfl⟩, ?_⟩⟩
  all_goals decide +kernel

/-- The pointer and the function are a cycle of comparisons that do not hold changes, and
what the function returns is different. -/
theorem callbacks_unlike : ¬ CyclesAlike callbacks {} (some ⟨4⟩, some ⟨9⟩) := by
  intro alike
  obtain ⟨root, symbol, pointer, function, plan, result, differs⟩ := callbacks_plans
  have cycle : TransGen (UnheldEdge callbacks {}) (some ⟨0⟩, some ⟨5⟩) (some ⟨0⟩, some ⟨5⟩) :=
    .head (unheldEdge_of_plans pointer function (by decide) rfl rfl)
      (.single (unheldEdge_of_plans function pointer (by decide) rfl rfl))
  have first := root.childEdge.mpr (by decide : (some ⟨3⟩, some ⟨8⟩) ∈ Plan.children _)
  have second := symbol.childEdge.mpr (by decide : (some ⟨0⟩, some ⟨5⟩) ∈ Plan.children _)
  have third := pointer.childEdge.mpr (by decide : (some ⟨1⟩, some ⟨6⟩) ∈ Plan.children _)
  have fourth := function.childEdge.mpr (by decide : (some ⟨2⟩, some ⟨7⟩) ∈ Plan.children _)
  exact alike _ (.tail (.single first) second) cycle _ (.tail (.single third) fourth)
    (result.localDifference.mpr differs)

theorem main_spins_callbacks : ∃ enough, ∀ fuel, enough ≤ fuel →
    main callbackFiles fuel "stgdiff" ["int.xml", "long.xml", "--output", "report"] = .error .outOfFuel := by
  have parsed : processArguments ["int.xml", "long.xml", "--output", "report"] = some {
      inputs := [(.abi, "int.xml"), (.abi, "long.xml")]
      outputs := [(.plain, "report")] } := by decide
  have reads : readInputs callbackFiles 20 [(.abi, "int.xml"), (.abi, "long.xml")] ⟨[]⟩ =
      .ok ([⟨4⟩, ⟨9⟩], callbacks) := readInputs_of_nodes (by decide +kernel)
  exact main_spins parsed rfl reads callbacks_nameable (fun _ _ => rfl) callbacks_unlike (by decide)

end Callbacks

end Main

end Stgdiff

end Stg
