import Stg.Lags
import Stg.PlanRefines
import Stg.Runs

set_option autoImplicit false

/- More fuel never changes what the program does when it ends. -/
namespace Stg

variable {graph : Graph} {options : CompareOptions} {outcomes : Outcomes} {fuel fuel' : Nat}

section Compare

variable {σ α β : Type}

/-- Where the first call returns, so does the second, and the same. -/
def Grows (call call' : StateT σ (Except Error) α) : Prop := ∀ s, Yields (call.run s) (call'.run s)

theorem Grows.refl (call : StateT σ (Except Error) α) : Grows call call := fun _ => Yields.refl _

/-- More of both parts is more of the sequence. -/
theorem Grows.bind {call call' : StateT σ (Except Error) α}
    {rest rest' : α → StateT σ (Except Error) β}
    (calls : Grows call call') (rests : ∀ value, Grows (rest value) (rest' value)) :
    Grows (call >>= rest) (call' >>= rest') := fun s =>
  Yields.bind (calls s) fun out => rests out.1 out.2

variable {nested nested' : Id → Id → CompareM Answer}
  (calls : ∀ node1 node2, Grows (nested node1 node2) (nested' node1 node2))

include calls

theorem runSteps_grows (steps : List Step) (result : Result) :
    Grows (runSteps ⟨nested, removed, added⟩ steps result)
      (runSteps ⟨nested', removed, added⟩ steps result) := by
  induction steps generalizing result with
  | nil => exact Grows.refl _
  | cons step steps ih =>
    refine Grows.bind ?_ ih
    cases step with
    | note | incomparable | removed | added => exact Grows.refl _
    | compare text node1 node2 => exact Grows.bind (calls node1 node2) fun _ => Grows.refl _

/-- The examination walks with its own fuel, and a walk that ends does so with more. -/
theorem examine_grows (enough : fuel ≤ fuel') (node1 node2 : Id) :
    Grows (examine ⟨nested, removed, added⟩ graph options fuel node1 node2)
      (examine ⟨nested', removed, added⟩ graph options fuel' node1 node2) := by
  intro s out ran
  obtain ⟨plan, planned⟩ := plan_of_returns ⟨s, out, ran⟩
  rw [examine_eq _ planned] at ran
  rw [examine_eq _ (planOf_yields enough _ _ _ planned)]
  exact runSteps_grows calls _ _ s out ran

omit calls

theorem compareBody_grows {examination examination' : Id → Id → CompareM Result} {node1 node2 : Id}
    (examinations : Grows (examination node1 node2) (examination' node1 node2)) :
    Grows (compareBody examination node1 node2) (compareBody examination' node1 node2) := by
  refine Grows.bind (Grows.refl _) fun s => ?_
  split
  · exact Grows.refl _
  · exact Grows.refl _
  · refine Grows.bind (Grows.refl _) fun s => ?_
    refine Grows.bind (Grows.refl _) fun opened => ?_
    refine Grows.bind (Grows.refl _) fun _ => ?_
    split
    · exact Grows.refl _
    · exact Grows.bind examinations fun _ => Grows.refl _

/-- By induction on the fuel, the calls inside being the same with more. -/
theorem compare_grows (enough : fuel ≤ fuel') (node1 node2 : Id) :
    Grows (compare graph options fuel node1 node2) (compare graph options fuel' node1 node2) := by
  induction fuel generalizing fuel' node1 node2 with
  | zero => exact fun _ _ ran => by cases ran
  | succ fuel ih =>
    obtain ⟨fuel', rfl⟩ : ∃ more, fuel' = more + 1 := ⟨fuel' - 1, by omega⟩
    have less := Nat.le_of_succ_le_succ enough
    rw [compare, compare]
    exact compareBody_grows
      (examine_grows (fun node1 node2 => ih less node1 node2) less node1 node2)

theorem runCompare_more (enough : fuel ≤ fuel') (s : State) (node1 node2 : Id) :
    Yields (runCompare graph options fuel s node1 node2)
      (runCompare graph options fuel' s node1 node2) :=
  compare_grows enough node1 node2 s

end Compare

section Reports

variable {σ α β : Type}

/-- From all states the first call runs out of fuel or does what the second does. -/
def Trails (call call' : StateT σ NameM α) : Prop := ∀ s, NameM.Lags (call.run s) (call'.run s)

theorem Trails.refl (call : StateT σ NameM α) : Trails call call := fun _ => NameM.Lags.refl _

theorem Trails.spent (call : StateT σ NameM α) : Trails (throw .outOfFuel) call :=
  fun _ _ => Stg.Lags.spent _

/-- A sequence whose first part has run out of fuel has run out itself. -/
theorem Trails.bind {call call' : StateT σ NameM α} {rest rest' : α → StateT σ NameM β}
    (calls : Trails call call') (rests : ∀ value, Trails (rest value) (rest' value)) :
    Trails (call >>= rest) (call' >>= rest') := fun s =>
  NameM.Lags.bind (calls s) fun out => rests out.1 out.2

theorem Trails.named {call call' : NameM α} (lags : NameM.Lags call call') :
    Trails (monadLift call : StateT σ NameM α) (monadLift call') := by
  intro s
  change NameM.Lags (call >>= fun value => pure (value, s)) (call' >>= fun value => pure (value, s))
  exact NameM.Lags.bind lags fun _ => NameM.Lags.refl _

theorem Trails.foldlM {step step' : β → α → StateT σ NameM β} {items : List α}
    (steps : ∀ value item, Trails (step value item) (step' value item)) (value : β) :
    Trails (items.foldlM step value) (items.foldlM step' value) := by
  induction items generalizing value with
  | nil => exact Trails.refl _
  | cons item items ih => exact Trails.bind (steps value item) ih

section Plain

theorem printDetails_trails {print print' : Comparison → Nat → PlainM (List Piece)} {c : Comparison}
    {indent : Nat} (prints : ∀ edge indent, Trails (print edge indent) (print' edge indent))
    (details : List DiffDetail) :
    Trails (printDetails print c indent details) (printDetails print' c indent details) := by
  induction details with
  | nil => exact Trails.refl _
  | cons detail details ih =>
    refine Trails.bind ?_ fun own => Trails.bind ih fun rest => Trails.refl _
    unfold printDetail
    split
    · exact Trails.refl _
    · exact Trails.bind (prints _ _) fun _ => Trails.refl _

/-- Fuel is only ever handed down, so a printer that ends has had enough. -/
theorem printPlain_trails (enough : fuel ≤ fuel') (c : Comparison) (indent : Nat) :
    Trails (printPlain graph outcomes fuel c indent)
      (printPlain graph outcomes fuel' c indent) := by
  induction fuel generalizing fuel' c indent with
  | zero => exact Trails.spent _
  | succ fuel ih =>
    obtain ⟨fuel', rfl⟩ : ∃ more, fuel' = more + 1 := ⟨fuel' - 1, by omega⟩
    have less := Nat.le_of_succ_le_succ enough
    rw [printPlain, printPlain]
    refine Trails.bind (Trails.named (printComparison_lags less c)) fun out => ?_
    split
    split
    · exact Trails.refl _
    · split
      · exact Trails.refl _
      · refine Trails.bind (Trails.refl _) fun seen => ?_
        split
        · exact Trails.refl _
        · exact Trails.refl _
        · refine Trails.bind (Trails.refl _) fun _ => ?_
          refine Trails.bind (printDetails_trails (fun edge indent => ih less edge indent) _)
            fun _ => ?_
          exact Trails.refl _

theorem reportPlain_trails (enough : fuel ≤ fuel') (c : Comparison) :
    Trails (reportPlain graph outcomes fuel c) (reportPlain graph outcomes fuel' c) := by
  unfold reportPlain
  split
  · exact Trails.refl _
  · exact printDetails_trails (fun edge indent => printPlain_trails enough edge indent) _

end Plain

section Flat

variable {full : Bool}

/-- The same for the flat report, and for its queue below. -/
theorem flatPrint_trails (enough : fuel ≤ fuel') (c : Comparison) (stop : Bool) (indent : Nat) :
    Trails (flatPrint graph outcomes full fuel c stop indent)
      (flatPrint graph outcomes full fuel' c stop indent) := by
  induction fuel generalizing fuel' c stop indent with
  | zero => exact Trails.spent _
  | succ fuel ih =>
    obtain ⟨fuel', rfl⟩ : ∃ more, fuel' = more + 1 := ⟨fuel' - 1, by omega⟩
    have less := Nat.le_of_succ_le_succ enough
    rw [flatPrint, flatPrint]
    refine Trails.bind (Trails.named (printComparison_lags less c)) fun out => ?_
    split
    split
    · exact Trails.refl _
    · split
      · exact Trails.refl _
      · dsimp only
        split
        · exact Trails.refl _
        · split
          · exact Trails.refl _
          · refine Trails.foldlM (fun state detail => ?_) _
            unfold flatDetails
            split
            · exact Trails.refl _
            · exact Trails.bind (ih less _ _ _) fun _ => Trails.refl _

theorem flatRoots_trails {print print' : Comparison → FlatM (Bool × List Piece)}
    (prints : ∀ edge, Trails (print edge) (print' edge)) (details : List DiffDetail) :
    Trails (flatRoots print full details) (flatRoots print' full details) := by
  induction details with
  | nil => exact Trails.refl _
  | cons detail details ih =>
    refine Trails.bind (Trails.refl _) fun edge => ?_
    exact Trails.bind (prints edge) fun _ => Trails.bind ih fun _ => Trails.refl _

theorem flatQueue_trails {print print' : Comparison → FlatM (Bool × List Piece)}
    (prints : ∀ c, Trails (print c) (print' c)) (enough : fuel ≤ fuel') :
    Trails (flatQueue print full fuel) (flatQueue print' full fuel') := by
  induction fuel generalizing fuel' with
  | zero => exact Trails.spent _
  | succ fuel ih =>
    obtain ⟨fuel', rfl⟩ : ∃ more, fuel' = more + 1 := ⟨fuel' - 1, by omega⟩
    have less := Nat.le_of_succ_le_succ enough
    refine Trails.bind (Trails.refl _) fun queue => ?_
    split
    · exact Trails.refl _
    · refine Trails.bind (Trails.refl _) fun _ => ?_
      exact Trails.bind (prints _) fun _ => Trails.bind (ih less) fun _ => Trails.refl _

theorem reportFlat_trails (enough : fuel ≤ fuel') (c : Comparison) :
    Trails (reportFlat graph outcomes full fuel c) (reportFlat graph outcomes full fuel' c) := by
  unfold reportFlat
  split
  · exact Trails.refl _
  · refine Trails.bind (flatRoots_trails (fun edge => flatPrint_trails enough edge _ _) _) fun _ =>
      ?_
    refine Trails.bind (flatQueue_trails (fun c => flatPrint_trails enough c _ _) enough) fun _ =>
      ?_
    exact Trails.refl _

end Flat

section Viz

theorem vizDetails_trails {print print' : Comparison → VizM String} {node : Nat}
    (prints : ∀ edge, Trails (print edge) (print' edge)) (index : Nat) (details : List DiffDetail) :
    Trails (vizDetails print node index details) (vizDetails print' node index details) := by
  induction details generalizing index with
  | nil => exact Trails.refl _
  | cons detail details ih =>
    unfold vizDetails
    split
    · exact Trails.bind (ih _) fun _ => Trails.refl _
    · refine Trails.bind (prints _) fun _ => Trails.bind (Trails.refl _) fun _ => ?_
      exact Trails.bind (ih _) fun _ => Trails.refl _

/-- The same for the drawing. -/
theorem vizPrint_trails (enough : fuel ≤ fuel') (c : Comparison) :
    Trails (vizPrint graph outcomes fuel c) (vizPrint graph outcomes fuel' c) := by
  induction fuel generalizing fuel' c with
  | zero => exact Trails.spent _
  | succ fuel ih =>
    obtain ⟨fuel', rfl⟩ : ∃ more, fuel' = more + 1 := ⟨fuel' - 1, by omega⟩
    have less := Nat.le_of_succ_le_succ enough
    rw [vizPrint, vizPrint]
    refine Trails.bind (Trails.refl _) fun viz => ?_
    split
    · exact Trails.refl _
    · refine Trails.bind (Trails.refl _) fun _ => Trails.bind (Trails.refl _) fun node => ?_
      split
      · exact Trails.bind (Trails.named (getDescription_lags less _)) fun _ => Trails.refl _
      · exact Trails.bind (Trails.named (getDescription_lags less _)) fun _ => Trails.refl _
      · exact Trails.refl _
      · split
        · exact Trails.refl _
        · refine Trails.bind (Trails.named (getResolvedDescription_lags less _)) fun _ => ?_
          refine Trails.bind (Trails.named (getResolvedDescription_lags less _)) fun _ => ?_
          refine Trails.bind (vizDetails_trails (fun edge => ih less edge) _ _) fun _ => ?_
          exact Trails.refl _

theorem reportViz_trails (enough : fuel ≤ fuel') (c : Comparison) :
    Trails (reportViz graph outcomes fuel c) (reportViz graph outcomes fuel' c) :=
  Trails.bind (vizPrint_trails enough c) fun _ => Trails.refl _

end Viz

theorem report_lags (enough : fuel ≤ fuel') (options : ReportingOptions) (c : Comparison) :
    NameM.Lags (report graph outcomes options fuel c) (report graph outcomes options fuel' c) := by
  unfold report
  split
  · exact NameM.Lags.bind (reportPlain_trails enough c _) fun _ => NameM.Lags.refl _
  · exact NameM.Lags.bind (reportFlat_trails enough c _) fun _ => NameM.Lags.refl _
  · exact NameM.Lags.bind (reportFlat_trails enough c _) fun _ => NameM.Lags.refl _
  · exact NameM.Lags.bind (reportFlat_trails enough c _) fun _ => NameM.Lags.refl _
  · exact NameM.Lags.bind (reportViz_trails enough c _) fun _ => NameM.Lags.refl _

end Reports

namespace Stgdiff

variable {env : Environment}

/-- A report that was written is written with more fuel, and is the same. -/
theorem reportDiffs_more (enough : fuel ≤ fuel') {comparison : Option Comparison}
    {format : OutputFormat}
    {names : NameCache} {out : String × NameCache}
    (reported : (reportDiffs graph outcomes fuel comparison format).run names = .ok out) :
    (reportDiffs graph outcomes fuel' comparison format).run names = .ok out := by
  cases comparison with
  | none => exact reported
  | some c => exact (report_lags enough _ c names).yields _ reported

theorem writeReports_more (enough : fuel ≤ fuel') {comparison : Option Comparison}
    {outputs : Outputs}
    {names : NameCache} {written written' : List (String × String)}
    (ran : (writeReports env graph outcomes fuel comparison outputs names).run written = .ok ()
      written') :
    (writeReports env graph outcomes fuel' comparison outputs names).run written = .ok ()
      written' := by
  induction outputs generalizing names written with
  | nil => exact ran
  | cons output outputs ih =>
    obtain ⟨format, filename⟩ := output
    rw [writeReports] at ran ⊢
    obtain ⟨⟨text, names'⟩, reported, ran⟩ := ok_of_ofExcept_bind ran
    have again := reportDiffs_more enough reported
    obtain ⟨_, _, checked, ran⟩ := EStateM.ok_of_run_bind ran
    obtain ⟨_, _, noted, ran⟩ := EStateM.ok_of_run_bind ran
    rw [again, ofExcept_ok, pure_bind, EStateM.run_bind_of_ok checked, EStateM.run_bind_of_ok noted]
    exact ih ran

/-- Only the reading of BTF and the merging of symbols use fuel. -/
theorem readInputs_more (enough : fuel ≤ fuel') {inputs : Inputs} {base : Graph}
    {out : List Id × Graph}
    (reads : readInputs env fuel inputs base = .ok out) :
    readInputs env fuel' inputs base = .ok out := by
  induction inputs generalizing base out with
  | nil => exact reads
  | cons input inputs ih =>
    rw [readInputs, readInput_over] at reads ⊢
    obtain ⟨⟨root, graph⟩, first, reads⟩ := bind_eq_ok reads
    obtain ⟨⟨roots, last⟩, rest, reads⟩ := bind_eq_ok reads
    obtain ⟨own, read, same⟩ : ∃ own, env.reads fuel input = .ok own ∧
        (base.beyond own.1, base.beneath own.2) = (root, graph) := by
      cases read : env.reads fuel input with
      | error =>
        rw [read] at first
        cases first
      | ok own =>
        rw [read] at first
        exact ⟨own, rfl, Except.ok.inj first⟩
    rw [reads_more enough read]
    simp only [Except.map, bind, Except.bind, same]
    rw [ih rest]
    exact reads

/-- A run that ends does the same with more fuel. -/
theorem run_more (enough : fuel ≤ fuel') {inputs : Inputs} {outputs : Outputs} {equals : Bool}
    {written written' : List (String × String)}
    (ran : (run env fuel inputs outputs options).run written = .ok equals written') :
    (run env fuel' inputs outputs options).run written = .ok equals written' := by
  unfold run at ran ⊢
  obtain ⟨⟨roots, graph⟩, reads, ran⟩ := ok_of_ofExcept_bind ran
  obtain ⟨root1, _, first, ran⟩ := EStateM.ok_of_run_bind ran
  obtain ⟨root2, _, second, ran⟩ := EStateM.ok_of_run_bind ran
  obtain ⟨⟨⟨verdict, comparison⟩, s⟩, compares, ran⟩ := ok_of_ofExcept_bind ran
  obtain ⟨_, _, checked, ran⟩ := EStateM.ok_of_run_bind ran
  obtain ⟨_, _, wrote, ran⟩ := EStateM.ok_of_run_bind ran
  rw [readInputs_more enough reads, ofExcept_ok, pure_bind]
  dsimp only
  rw [EStateM.run_bind_of_ok first, EStateM.run_bind_of_ok second,
    runCompare_more enough _ _ _ _ compares, ofExcept_ok, pure_bind]
  dsimp only
  rw [EStateM.run_bind_of_ok checked, EStateM.run_bind_of_ok (writeReports_more enough wrote)]
  exact ran

/-- With more fuel the inputs are read as before, and the symbols that they give are
compared. -/
theorem run_of_readInputs {input1 input2 : InputFormat × String} {root1 root2 : Id}
    {outputs : Outputs}
    (reads : readInputs env fuel [input1, input2] ⟨[]⟩ = .ok ([root1, root2], graph)) :
    (∃ symbols1, graph.get root1 = .ok (.symbols symbols1)) ∧
      (∃ symbols2, graph.get root2 = .ok (.symbols symbols2)) ∧ ∀ fuel', fuel ≤ fuel' →
        run env fuel' [input1, input2] outputs options =
          compareReport env fuel' graph root1 root2 outputs options := by
  rw [readInputs_pair] at reads
  obtain ⟨⟨own1, graph1⟩, reads1, reads⟩ := bind_eq_ok reads
  obtain ⟨⟨own2, graph2⟩, reads2, reads⟩ := bind_eq_ok reads
  cases reads
  obtain ⟨symbols1, got1⟩ := reads_symbols reads1
  obtain ⟨symbols2, got2⟩ := reads_symbols reads2
  refine ⟨⟨symbols1, ?_⟩, ⟨symbols2.rename graph1.beyond, ?_⟩, fun fuel' more => ?_⟩
  · rwa [Graph.over_get_below _ _ ((reads_whole reads1).reached .refl)]
  · rw [Graph.over_get, got2]
    rfl
  · rw [run_pair, reads_more more reads1, reads_more more reads2]
    rfl

end Stgdiff

end Stg
