import Stg.Plain

set_option autoImplicit false

/- What the graph printer does: a depth-first traversal that opens every comparison once. -/
namespace Stg

open Traversal (Scheme Forest Need)

/-- What the report has in it, below its first line. -/
inductive VizStatement where
  | node (c : Comparison) (attributes : String)
  | edge (c : Comparison) (text : String) (target : Comparison)
  /-- The implicit edge and node of a change. -/
  | change (c : Comparison) (index : Nat) (text : String)
  deriving DecidableEq, Repr

namespace VizStatement

def subject : VizStatement → Comparison
  | node c _ => c
  | edge c _ _ => c
  | change c _ _ => c

def render (number : Comparison → Nat) : VizStatement → String
  | node c attributes => "  \"" ++ toString (number c) ++ "\" [" ++ attributes ++ "]\n"
  | edge c text target =>
    "  \"" ++ toString (number c) ++ "\" -> \"" ++ toString (number target) ++ "\" [label=\"" ++
      text ++ "\"]\n"
  | change c index text =>
    let implicit := "\"" ++ toString (number c) ++ ":" ++ toString index ++ "\""
    "  \"" ++ toString (number c) ++ "\" -> " ++ implicit ++ "\n  " ++ implicit ++
      " [color=red, label=\"" ++ text ++ "\"]\n"

/-- The comparisons that it is about have numbers. -/
def Within (ids : List Comparison) : VizStatement → Prop
  | node c _ => c ∈ ids
  | edge c _ target => c ∈ ids ∧ target ∈ ids
  | change c _ _ => c ∈ ids

end VizStatement

/-- The text of the statements; the numbers are positions in the list. -/
def renderAll (ids : List Comparison) (statements : List VizStatement) : String :=
  String.join (statements.map (VizStatement.render ids.idxOf))

section Labels

variable (graph : Graph)

def DescribedAs (id : Id) (description : Name) : Prop :=
  ∃ fuel names names', (getDescription graph fuel id).run names = .ok (description, names')

def ResolvedAs (id : Id) (description : String) : Prop :=
  ∃ fuel names names', (getResolvedDescription graph fuel id).run names = .ok (description, names')

/-- What stands in the brackets of a node. -/
inductive VizAttributes (outcomes : Outcomes) : Comparison → String → Prop where
  | removed {id1 : Id} {node1 : Node} {description : Name} :
    graph.get id1 = .ok node1 → DescribedAs graph id1 description →
    VizAttributes outcomes (some id1, none) ("color=red, label=\"removed(" ++ print description ++
      node1.extraDescription ++ ")\"")
  | added {id2 : Id} {node2 : Node} {description : Name} :
    graph.get id2 = .ok node2 → DescribedAs graph id2 description →
    VizAttributes outcomes (none, some id2) ("color=red, label=\"added(" ++ print description ++
      node2.extraDescription ++ ")\"")
  | changed {id1 id2 : Id} {diff : Diff} {description1 description2 : String} :
    outcomes.lookup (some id1, some id2) = some diff → ResolvedAs graph id1 description1 →
    ResolvedAs graph id2 description2 →
    VizAttributes outcomes (some id1, some id2) ((if diff.hasChanges then "color=red, " else "") ++
      (if diff.holdsChanges then "shape=rectangle, " else "") ++ "label=\"" ++
      (if description1 = description2 then description1
        else description1 ++ " -> " ++ description2) ++ "\"")

/-- A comparison has attributes at its first visit only. -/
def VizLabelled (outcomes : Outcomes) (_ before : List Comparison) (c : Comparison) :
    Option String → Prop
  | none => c ∈ before
  | some attributes => c ∉ before ∧ VizAttributes graph outcomes c attributes

end Labels

abbrev VizForest := Forest Comparison DiffDetail (Option String)

def nodeStatements (c : Comparison) (label : Option String) : List VizStatement :=
  label.elim [] fun attributes => [.node c attributes]

/-- The statements of a traversal of the details of a comparison. -/
def vizStatements : Comparison → Nat → VizForest → List VizStatement
  | _, _, .nil => []
  | owner, index, .leaf detail rest =>
    .change owner index detail.text :: vizStatements owner (index + 1) rest
  | owner, index, .visit detail c label nested rest =>
    nodeStatements c label ++ vizStatements c 0 nested ++
      .edge owner detail.text c :: vizStatements owner index rest

/-- One statement for each detail. -/
def detailStatements (owner : Comparison) : Nat → List DiffDetail → List VizStatement
  | _, [] => []
  | index, detail :: details =>
    match detail.edge with
    | none => .change owner index detail.text :: detailStatements owner (index + 1) details
    | some edge => .edge owner detail.text edge :: detailStatements owner index details

/-- The comparisons are all opened only once. -/
def Outcomes.vizScheme (outcomes : Outcomes) : Scheme Comparison DiffDetail :=
  outcomes.scheme fun _ => true

abbrev VizWalks (graph : Graph) (outcomes : Outcomes) :=
  outcomes.vizScheme.Walks (VizLabelled graph outcomes)

variable {graph : Graph} {outcomes : Outcomes} {fuel : Nat} {c d owner : Comparison}
  {path before : List Comparison}

section Statements

variable {details : List DiffDetail} {forest : VizForest}

/-- The statements about one comparison. -/
def about (d : Comparison) (statements : List VizStatement) : List VizStatement :=
  statements.filter fun statement => statement.subject = d

theorem about_append (statements more : List VizStatement) :
    about d (statements ++ more) = about d statements ++ about d more := List.filter_append _ _

theorem about_cons_same (statement : VizStatement) (statements : List VizStatement) :
    about statement.subject (statement :: statements) = statement :: about statement.subject
      statements := by
  simp [about]

theorem about_cons_other {statement : VizStatement} (other : statement.subject ≠ d)
    (statements : List VizStatement) : about d (statement :: statements) = about d statements := by
  simp [about, other]

theorem about_nodeStatements_other (other : d ≠ c) (label : Option String) :
    about d (nodeStatements c label) = [] := by
  cases label with
  | none => rfl
  | some attributes => exact about_cons_other (Ne.symm other) []

/-- A repeated visit says nothing. -/
theorem statements_repeated {label : Option String} (visited : c ∈ before)
    (labelled : VizLabelled graph outcomes path before c label)
    (inside : VizWalks graph outcomes (c :: path) (before ++ [c])
      (outcomes.vizScheme.opened before c) forest) :
    nodeStatements c label ++ vizStatements c 0 forest = [] := by
  have unopened : outcomes.vizScheme.opened before c = [] :=
    Traversal.Scheme.opened_of_repeated rfl visited
  rw [unopened] at inside
  cases inside
  cases label with
  | none => rfl
  | some attributes => exact absurd visited labelled.1

/-- Nothing is said about what was visited before, but for the comparison itself. -/
theorem about_visited (walks : VizWalks graph outcomes path before details forest) (index : Nat)
    (visited : d ∈ before) (other : d ≠ owner) :
    about d (vizStatements owner index forest) = [] := by
  induction walks generalizing owner index with
  | nil => rfl
  | leaf _ _ ih =>
    rw [vizStatements, about_cons_other (Ne.symm other)]
    exact ih _ visited other
  | @visit _ before detail _ p label nested rest _ labelled inside _ ihNested ihRest =>
    rw [vizStatements, about_append, about_cons_other (Ne.symm other),
      ihRest _ (List.mem_append_left _ visited) other, List.append_nil]
    by_cases same : d = p
    · subst same
      rw [statements_repeated visited labelled inside]
      rfl
    · rw [about_append, about_nodeStatements_other same,
        ihNested _ (List.mem_append_left _ visited) same]
      rfl

/-- About the comparison itself there is one statement for each detail. -/
theorem about_owner (walks : VizWalks graph outcomes path before details forest) (index : Nat)
    (visited : owner ∈ before) :
    about owner (vizStatements owner index forest) = detailStatements owner index details := by
  induction walks generalizing index with
  | nil => rfl
  | @leaf _ _ detail _ _ unlinked _ ih =>
    have held : detail.edge = none := unlinked
    rw [vizStatements, detailStatements, held]
    exact (about_cons_same _ _).trans (congrArg _ (ih _ visited))
  | @visit _ before detail details p label nested rest linked labelled inside walks _ ihRest =>
    have own : about owner (nodeStatements p label ++ vizStatements p 0 nested) = [] := by
      by_cases same : owner = p
      · subst same
        rw [statements_repeated visited labelled inside]
        rfl
      · rw [about_append, about_nodeStatements_other same,
          about_visited inside _ (List.mem_append_left _ visited) same]
        rfl
    have held : detail.edge = some p := linked
    rw [vizStatements, about_append, own, List.nil_append, detailStatements, held]
    exact (about_cons_same _ _).trans (congrArg _ (ihRest _ (List.mem_append_left _ visited)))

/-- About a comparison visited for the first time there are its node and one statement for
each detail. -/
theorem about_fresh (walks : VizWalks graph outcomes path before details forest) (index : Nat)
    (owned : owner ∈ before) (fresh : d ∉ before) :
    (d ∈ forest.visits → ∃ attributes, VizAttributes graph outcomes d attributes ∧
      about d (vizStatements owner index forest) =
        .node d attributes :: detailStatements d 0 (outcomes.details d)) ∧
    (d ∉ forest.visits → about d (vizStatements owner index forest) = []) := by
  have other : ∀ {owner : Comparison} {before : List Comparison}, owner ∈ before → d ∉ before →
      d ≠ owner := by
    rintro owner before owned fresh rfl
    exact fresh owned
  induction walks generalizing owner index with
  | nil => exact ⟨nofun, fun _ => rfl⟩
  | leaf _ _ ih =>
    have apart := other owned fresh
    rw [vizStatements, about_cons_other (Ne.symm apart)]
    exact ih _ owned fresh
  | @visit _ before detail details p label nested rest linked labelled inside after
    ihNested ihRest =>
    have apart := other owned fresh
    rw [vizStatements, about_append, about_cons_other (Ne.symm apart)]
    have mine : p ∈ before ++ [p] := by simp
    by_cases same : d = p
    · subst same
      have opens : outcomes.vizScheme.opened before d = outcomes.details d :=
        Traversal.Scheme.opened_of_fresh fun _ => fresh
      rw [about_visited after _ (by simp) apart, List.append_nil, about_append,
        about_owner inside 0 mine, opens]
      refine ⟨fun _ => ?_, fun unvisited => absurd (by simp [Forest.visits]) unvisited⟩
      cases label with
      | none => exact absurd labelled fresh
      | some attributes =>
        refine ⟨attributes, labelled.2, ?_⟩
        have node : about d (nodeStatements d (some attributes)) = [.node d attributes] :=
          about_cons_same _ _
        rw [node]
        rfl
    · have fresh' : d ∉ before ++ [p] := by simp [fresh, same]
      obtain ⟨visited, unvisited⟩ := ihNested 0 mine fresh'
      rw [about_append, about_nodeStatements_other same, List.nil_append]
      by_cases below : d ∈ nested.visits
      · rw [about_visited after _ (by simp [below]) apart, List.append_nil]
        exact ⟨fun _ => visited below, fun none_ => absurd (by simp [Forest.visits, below]) none_⟩
      · have fresh'' : d ∉ before ++ p :: nested.visits := by simp [fresh, same, below]
        have rest_ := ihRest index (List.mem_append_left _ owned) fresh''
        rw [unvisited below, List.nil_append]
        simpa [Forest.visits, same, below] using rest_

end Statements

section Numbers

variable {ids ids' : List Comparison} {statements more : List VizStatement}

theorem renderAll_cons (statement : VizStatement) :
    renderAll ids (statement :: statements) =
      statement.render ids.idxOf ++ renderAll ids statements := by
  simp [renderAll]

theorem renderAll_append :
    renderAll ids (statements ++ more) = renderAll ids statements ++ renderAll ids more := by
  simp [renderAll]

theorem idxOf_extend (extends_ : ids <+: ids') (among : c ∈ ids) : ids'.idxOf c = ids.idxOf c := by
  obtain ⟨new, rfl⟩ := extends_
  exact List.idxOf_append_of_mem among

theorem VizStatement.Within.mono {statement : VizStatement} (within : statement.Within ids)
    (extends_ : ids <+: ids') : statement.Within ids' := by
  cases statement with
  | node => exact extends_.subset within
  | edge => exact ⟨extends_.subset within.1, extends_.subset within.2⟩
  | change => exact extends_.subset within

/-- Numbers that are added do not change the text. -/
theorem renderAll_extend (within : ∀ statement ∈ statements, statement.Within ids)
    (extends_ : ids <+: ids') : renderAll ids' statements = renderAll ids statements := by
  unfold renderAll
  refine congrArg String.join (List.map_congr_left fun statement among => ?_)
  have inside := within statement among
  cases statement with
  | node => rw [VizStatement.render, VizStatement.render, idxOf_extend extends_ inside]
  | edge =>
    rw [VizStatement.render, VizStatement.render, idxOf_extend extends_ inside.1,
      idxOf_extend extends_ inside.2]
  | change => rw [VizStatement.render, VizStatement.render, idxOf_extend extends_ inside]

end Numbers

section Print

variable {viz viz' : Viz} {details : List DiffDetail} {forest : VizForest}

/-- What was visited is seen and has a number of its own. -/
structure VizTracks (before : List Comparison) (viz : Viz) : Prop where
  seen : ∀ c, c ∈ viz.seen ↔ c ∈ before
  numbered : ∀ c ∈ before, c ∈ viz.ids
  nodup : viz.ids.Nodup

/-- The text consists of the statements, and their comparisons have numbers. -/
structure Drawn (statements : List VizStatement) (text : String) (viz viz' : Viz) : Prop where
  text : text = renderAll viz'.ids statements
  within : ∀ statement ∈ statements, statement.Within viz'.ids
  extends_ : viz.ids <+: viz'.ids

theorem Drawn.text_eq {statements : List VizStatement} {text : String} {viz'' : Viz}
    (drawn : Drawn statements text viz viz') (extends_ : viz'.ids <+: viz''.ids) :
    text = renderAll viz''.ids statements := by
  rw [renderAll_extend drawn.within extends_]
  exact drawn.text

theorem vizId_does (c : Comparison) (viz : Viz) : Does graph True (vizId c) viz fun number viz' =>
    viz'.seen = viz.seen ∧ number = viz'.ids.idxOf c ∧ c ∈ viz'.ids ∧ viz.ids <+: viz'.ids ∧
      (viz.ids.Nodup → viz'.ids.Nodup) := by
  unfold vizId
  refine Does.bind Does.get ?_
  rintro _ viz ⟨rfl, rfl⟩
  by_cases among : c ∈ viz.ids
  · rw [if_pos among]
    exact Does.pure ⟨rfl, rfl, among, List.prefix_refl _, id⟩
  · rw [if_neg among]
    have stored : Does graph True (set { viz with ids := viz.ids ++ [c] } : VizM PUnit) viz
        fun _ viz' => viz' = { viz with ids := viz.ids ++ [c] } :=
      fun names sound => .inl ⟨⟨⟩, _, names, rfl, sound, rfl⟩
    refine Does.bind stored ?_
    rintro _ _ rfl
    refine Does.pure ⟨rfl, ?_, by simp, List.prefix_append _ _, fun nodup => ?_⟩
    · simp [List.idxOf_append, among]
    · simpa using nodup.concat among

/-- A visit was printed. -/
def VizVisited (graph : Graph) (outcomes : Outcomes) (path before : List Comparison)
    (c : Comparison) (viz : Viz) (text : String) (viz' : Viz) : Prop :=
  ∃ label nested, VizLabelled graph outcomes path before c label ∧
    VizWalks graph outcomes (c :: path) (before ++ [c]) (outcomes.vizScheme.opened before c) nested ∧
    VizTracks (before ++ c :: nested.visits) viz' ∧
    Drawn (nodeStatements c label ++ vizStatements c 0 nested) text viz viz'

/-- Printing the details is traversing them. -/
theorem vizDetails_does {print : Comparison → VizM String} (index : Nat)
    (prints : ∀ e ∈ details.filterMap (·.edge), ∀ more viz, VizTracks (before ++ more) viz →
      Does graph True (print e) viz (VizVisited graph outcomes path (before ++ more) e viz))
    (tracks : VizTracks before viz) (owned : owner ∈ viz.ids) :
    Does graph True (vizDetails print (viz.ids.idxOf owner) index details) viz fun text viz' =>
      ∃ forest, VizWalks graph outcomes path before details forest ∧
        VizTracks (before ++ forest.visits) viz' ∧
        Drawn (vizStatements owner index forest) text viz viz' := by
  induction details generalizing before viz index with
  | nil =>
    exact Does.pure ⟨.nil, .nil, by simpa [Forest.visits] using tracks, rfl, nofun,
      List.prefix_refl _⟩
  | cons detail details ih =>
    rw [vizDetails]
    cases held : detail.edge with
    | none =>
      rw [List.filterMap_cons_none held] at prints
      refine Does.bind (ih (index + 1) prints tracks owned) fun rest viz' post => Does.pure ?_
      obtain ⟨forest, walks, tracks', drawn⟩ := post
      have owned' := drawn.extends_.subset owned
      refine ⟨.leaf detail forest, .leaf held walks, tracks', ?_, ?_, drawn.extends_⟩
      · rw [vizStatements, renderAll_cons, ← drawn.text, VizStatement.render,
          idxOf_extend drawn.extends_ owned]
      · exact List.forall_mem_cons.mpr ⟨owned', drawn.within⟩
    | some edge =>
      rw [List.filterMap_cons_some held] at prints
      have first := prints edge (by simp) [] viz (by simpa using tracks)
      rw [List.append_nil] at first
      refine Does.bind first fun sub viz₁ visited => ?_
      obtain ⟨label, nested, labelled, inside, tracks₁, drawn₁⟩ := visited
      refine Does.bind (vizId_does edge viz₁) fun target viz₂ numbered => ?_
      obtain ⟨seen, isTarget, among, extends₂, nodup⟩ := numbered
      have tracks₂ : VizTracks (before ++ edge :: nested.visits) viz₂ :=
        ⟨fun c => seen ▸ tracks₁.seen c, fun c visited =>
          extends₂.subset (tracks₁.numbered c visited),
          nodup tracks₁.nodup⟩
      have later : ∀ e ∈ details.filterMap (·.edge), ∀ more viz,
          VizTracks (before ++ edge :: nested.visits ++ more) viz → Does graph True (print e) viz
            (VizVisited graph outcomes path (before ++ edge :: nested.visits ++ more) e viz) := by
        intro e listed more viz
        rw [List.append_assoc]
        exact prints e (by simp [listed]) _ viz
      have extends₀ := drawn₁.extends_.trans extends₂
      have own := idxOf_extend extends₀ owned
      rw [← own]
      refine Does.bind (ih index later tracks₂ (extends₀.subset owned)) fun rest viz₃ post =>
        Does.pure ?_
      obtain ⟨forest, walks, tracks₃, drawn₃⟩ := post
      refine ⟨.visit detail edge label nested forest, .visit held labelled inside walks, ?_,
        ?_, ?_, ?_⟩
      · simpa [Forest.visits] using tracks₃
      · rw [vizStatements, renderAll_append, renderAll_cons, ← drawn₃.text, VizStatement.render,
          ← drawn₁.text_eq (extends₂.trans drawn₃.extends_), isTarget,
          idxOf_extend drawn₃.extends_ among,
          idxOf_extend drawn₃.extends_ (extends₀.subset owned)]
        simp only [String.append_assoc]
      · rw [vizStatements]
        refine List.forall_mem_append.mpr ⟨fun statement listed => ?_, List.forall_mem_cons.mpr
          ⟨⟨?_, ?_⟩, drawn₃.within⟩⟩
        · exact (drawn₁.within statement listed).mono (extends₂.trans drawn₃.extends_)
        · exact drawn₃.extends_.subset (extends₀.subset owned)
        · exact drawn₃.extends_.subset among
      · exact extends₀.trans drawn₃.extends_

theorem VizTracks.visit (tracks : VizTracks before viz) (visited : c ∈ before) :
    VizTracks (before ++ [c]) viz where
  seen d := by
    rw [tracks.seen d, List.mem_append, List.mem_singleton]
    exact ⟨.inl, fun either => either.elim id fun same => same ▸ visited⟩
  numbered d among := by
    rcases List.mem_append.mp among with among | same
    · exact tracks.numbered d among
    · exact tracks.numbered d (List.mem_singleton.mp same ▸ visited)
  nodup := tracks.nodup

theorem describedAs_of (enough : graph.NamesWithin fuel) {id : Id} (set : graph.Is id) :
    Named graph (fun _ => False) (getDescription graph fuel id) (DescribedAs graph id) := by
  intro names sound present
  obtain ⟨name, names', ran, sound', keeps, _⟩ := enough.2 id set names sound present
  exact ⟨name, names', ran, sound', keeps, fuel, names, names', ran⟩

theorem resolvedAs_of (enough : graph.NamesWithin fuel) {id : Id} (set : graph.Is id) :
    Named graph (fun _ => False) (getResolvedDescription graph fuel id) (ResolvedAs graph id) := by
  intro names sound present
  obtain ⟨out, walked⟩ := enough.1.typedefs id set
  obtain ⟨node, got, _⟩ := resolveTypedefs_end walked
  obtain ⟨text, names', ran, sound', keeps, _⟩ :=
    getResolvedDescription_named enough.2 walked ⟨node, got⟩ names sound present
  exact ⟨text, names', ran, sound', keeps, fuel, names, names', ran⟩

variable {need : List Comparison → Comparison → Nat} {bound enough : Nat}

/-- With fuel for naming and for going as deep as needed, a visit is printed. -/
theorem vizPrint_does (sound : outcomes.Sound graph)
    (names : ∀ fuel, enough ≤ fuel → graph.NamesWithin fuel)
    (needs : Need outcomes.vizScheme need bound)
    (plenty : enough + need before c < fuel) (present : outcomes.lookup c ≠ none)
    (tracks : VizTracks before viz) :
    Does graph True (vizPrint graph outcomes fuel c) viz
      (VizVisited graph outcomes path before c viz) := by
  induction fuel generalizing before c path viz with
  | zero => exact absurd plenty (Nat.not_lt_zero _)
  | succ fuel ih =>
    rw [vizPrint]
    refine Does.bind Does.get ?_
    rintro _ viz ⟨rfl, rfl⟩
    by_cases repeated : c ∈ before
    · rw [if_pos ((tracks.seen c).mpr repeated)]
      have nothing : outcomes.vizScheme.opened before c = [] :=
        Scheme.opened_of_repeated rfl repeated
      refine Does.pure ⟨none, .nil, repeated, ?_, tracks.visit repeated, rfl, nofun,
        List.prefix_refl _⟩
      rw [nothing]
      exact .nil
    rw [if_neg fun seen => repeated ((tracks.seen c).mp seen)]
    have marked : Does graph True
        (modify fun viz => { viz with seen := viz.seen ++ [c] } : VizM PUnit) viz fun _ viz' => viz' = { viz with seen := viz.seen ++ [c] } := Does.modify rfl
    refine Does.bind marked ?_
    rintro _ _ rfl
    refine Does.bind (vizId_does c _) fun number viz₂ numbered => ?_
    obtain ⟨seen, isNumber, among, extends₂, nodup⟩ := numbered
    subst isNumber
    have tracks₂ : VizTracks (before ++ [c]) viz₂ := by
      refine ⟨fun d => ?_, fun d visited => ?_, nodup tracks.nodup⟩
      · rw [seen, List.mem_append, List.mem_append, tracks.seen d]
      · rcases List.mem_append.mp visited with visited | same
        · exact extends₂.subset (tracks.numbered d visited)
        · exact List.mem_singleton.mp same ▸ among
    have alone : ∀ attributes, VizAttributes graph outcomes c attributes → OneSided c →
        VizVisited graph outcomes path before c viz
          ("  \"" ++ toString (viz₂.ids.idxOf c) ++ "\" [" ++ attributes ++ "]\n") viz₂ := by
      intro attributes drawn oneSided
      have nothing : outcomes.vizScheme.opened before c = [] := by
        rw [Scheme.opened_of_fresh fun _ => repeated]
        exact sound.details_oneSided oneSided
      refine ⟨some attributes, .nil, ⟨repeated, drawn⟩, ?_, tracks₂, ?_, ?_, extends₂⟩
      · rw [nothing]
        exact .nil
      · simp [nodeStatements, vizStatements, renderAll, VizStatement.render]
      · simpa [nodeStatements, vizStatements, VizStatement.Within] using among
    have enoughNames := names fuel (by omega)
    have looks : ∀ id node viz, graph.get id = .ok node → Does graph True
        (ofExcept (graph.get id) : VizM Node) viz fun node' viz' => node' = node ∧ viz' = viz := by
      intro id node viz got
      rw [got]
      exact Does.pure ⟨rfl, rfl⟩
    have closing : ")\"]\n" = ")\"" ++ "]\n" := rfl
    cases sound.compares c present with
    | removed set1 =>
      obtain ⟨node1, got1⟩ := set1
      refine Does.bind (Does.named (NameM.Lags.refl _)
        (describedAs_of enoughNames ⟨node1, got1⟩) fun _ => rfl) ?_
      rintro description _ ⟨rfl, described⟩
      refine Does.bind (looks _ _ _ got1) ?_
      rintro _ _ ⟨rfl, rfl⟩
      have visited := alone _ (.removed got1 described) (.inr rfl)
      have opening : "\" [color=red, label=\"removed(" =
          "\" [" ++ "color=red, label=\"removed(" := rfl
      refine Does.pure ?_
      rw [opening, closing]
      simpa only [String.append_assoc] using visited
    | added set2 =>
      obtain ⟨node2, got2⟩ := set2
      refine Does.bind (Does.named (NameM.Lags.refl _)
        (describedAs_of enoughNames ⟨node2, got2⟩) fun _ => rfl) ?_
      rintro description _ ⟨rfl, described⟩
      refine Does.bind (looks _ _ _ got2) ?_
      rintro _ _ ⟨rfl, rfl⟩
      have visited := alone _ (.added got2 described) (.inl rfl)
      have opening : "\" [color=red, label=\"added(" = "\" [" ++ "color=red, label=\"added(" := rfl
      refine Does.pure ?_
      rw [opening, closing]
      simpa only [String.append_assoc] using visited
    | @both id1 id2 set1 set2 =>
      cases held : outcomes.lookup (some id1, some id2) with
      | none => exact absurd held present
      | some diff =>
        have details := Outcomes.details_eq held
        dsimp only
        refine Does.bind (Does.named (NameM.Lags.refl _) (resolvedAs_of enoughNames set1) fun _ =>
          rfl) ?_
        rintro description1 _ ⟨rfl, resolved1⟩
        refine Does.bind (Does.named (NameM.Lags.refl _) (resolvedAs_of enoughNames set2) fun _ =>
          rfl) ?_
        rintro description2 viz₂ ⟨rfl, resolved2⟩
        have fresh : outcomes.vizScheme.once (some id1, some id2) = true →
            (some id1, some id2) ∉ before := fun _ => repeated
        have prints : ∀ e ∈ diff.details.filterMap (·.edge), ∀ more viz,
            VizTracks (before ++ [(some id1, some id2)] ++ more) viz →
            Does graph True (vizPrint graph outcomes fuel e) viz (VizVisited graph outcomes
              ((some id1, some id2) :: path) (before ++ [(some id1, some id2)] ++ more) e viz) := by
          intro e listed more viz tracks
          have edge : outcomes.Edge (some id1, some id2) e :=
            Outcomes.edge_iff.mpr (details ▸ listed)
          have lower := needs.below before _ e (Outcomes.scheme_edge.mpr edge) fresh
          have less := needs.anti (before ++ [(some id1, some id2)]) more e
          exact ih (by omega) (sound.closed.present edge) tracks
        refine Does.bind (vizDetails_does 0 prints tracks₂ among) fun text viz₃ post => Does.pure ?_
        obtain ⟨nested, walks, tracks₃, drawn⟩ := post
        refine ⟨some _, nested, ⟨repeated, .changed held resolved1 resolved2⟩, ?_, ?_, ?_⟩
        · rw [Scheme.opened_of_fresh fresh]
          change VizWalks graph outcomes _ _ (outcomes.details _) nested
          rw [details]
          exact walks
        · simpa using tracks₃
        · refine ⟨?_, ?_, extends₂.trans drawn.extends_⟩
          · rw [nodeStatements, Option.elim, List.singleton_append, renderAll_cons, ← drawn.text,
              VizStatement.render, idxOf_extend drawn.extends_ among]
            have closing : "\"]\n" = "\"" ++ "]\n" := rfl
            rw [closing]
            simp only [String.append_assoc]
          · exact List.forall_mem_cons.mpr ⟨drawn.extends_.subset among, drawn.within⟩

end Print

section Report

open Relation (ReflTransGen)

variable {root : Comparison}

/-- The statements of the whole report: what they say about each comparison. -/
structure VizCovers (graph : Graph) (outcomes : Outcomes) (root : Comparison)
    (statements : List VizStatement) : Prop where
  reached : ∀ c, ReflTransGen outcomes.Edge root c → ∃ attributes,
    VizAttributes graph outcomes c attributes ∧
      about c statements = .node c attributes :: detailStatements c 0 (outcomes.details c)
  unreached : ∀ c, ¬ ReflTransGen outcomes.Edge root c → about c statements = []

theorem vizCovers_of_walks {forest : VizForest} {attributes : String}
    (drawn : VizAttributes graph outcomes root attributes)
    (walks : VizWalks graph outcomes path [root] (outcomes.details root) forest) :
    VizCovers graph outcomes root (.node root attributes :: vizStatements root 0 forest) := by
  have owner := about_owner walks 0 (List.mem_singleton_self root)
  have others : ∀ c, c ≠ root →
      (ReflTransGen outcomes.Edge root c ↔ c ∈ forest.visits) := by
    intro c other
    constructor
    · intro leads
      have visited : ∀ d, ReflTransGen outcomes.Edge root d → d = root ∨ d ∈ forest.visits := by
        intro d leads
        induction leads with
        | refl => exact .inl rfl
        | @tail d e _ edge ih =>
          right
          rcases ih with rfl | among
          · exact walks.targets_subset e (Outcomes.edge_iff.mp edge)
          · rcases walks.closed d among with ⟨_, same⟩ | covers
            · rw [List.mem_singleton.mp same] at edge
              exact walks.targets_subset e (Outcomes.edge_iff.mp edge)
            · exact covers e (Outcomes.scheme_edge.mpr edge)
      exact (visited c leads).resolve_left other
    · intro among
      obtain ⟨d, target, leads⟩ := walks.reaches c among
      rw [Outcomes.vizScheme, Outcomes.scheme_edge_eq] at leads
      exact .head (Outcomes.edge_iff.mpr target) leads
  have fresh : ∀ c, c ≠ root → c ∉ [root] := fun c other => by simpa using other
  constructor
  · intro c leads
    by_cases same : c = root
    · subst same
      exact ⟨attributes, drawn, (about_cons_same _ _).trans (congrArg _ owner)⟩
    · rw [about_cons_other (Ne.symm same)]
      exact (about_fresh walks 0 (List.mem_singleton_self root) (fresh c same)).1
        ((others c same).mp leads)
  · intro c unreached
    have same : c ≠ root := by
      rintro rfl
      exact unreached .refl
    rw [about_cons_other (Ne.symm same)]
    exact (about_fresh walks 0 (List.mem_singleton_self root) (fresh c same)).2
      fun among => unreached ((others c same).mpr among)

/-- The report is completed, whatever the cycles are: its statements cover what can be
reached. -/
theorem reportViz_does (sound : outcomes.Sound graph) (nameable : graph.Nameable)
    (present : outcomes.lookup root ≠ none) :
    ∃ enough, ∀ fuel, enough ≤ fuel → Does graph True (reportViz graph outcomes fuel root) {}
      fun text viz => ∃ statements,
        text = "digraph \"ABI diff\" \x7b\n" ++ renderAll viz.ids statements ++ "\x7d\n" ∧
        (∀ statement ∈ statements, statement.Within viz.ids) ∧
        VizCovers graph outcomes root statements := by
  obtain ⟨enough, names⟩ := nameable.within
  have acyclic : ∀ c, ¬ Relation.TransGen outcomes.vizScheme.Again c c := by
    intro c cycle
    obtain ⟨d, again, _⟩ := Relation.TransGen.head'_iff.mp cycle
    cases again.2.1
  obtain ⟨need, bound, needs⟩ := Traversal.exists_need outcomes.vizScheme outcomes.keys.toFinset
    (fun c d edge => Outcomes.mem_keys_of_present
      (sound.closed.present (Outcomes.scheme_edge.mp edge)))
    (fun c d edge => Outcomes.mem_keys_of_present (Outcomes.scheme_edge.mp edge).present) acyclic
  refine ⟨enough + bound + 1, fun fuel more => ?_⟩
  have start : VizTracks [] {} := ⟨by simp, nofun, List.nodup_nil⟩
  have limit := needs.bounded [] root
  have visits : Does graph True (vizPrint graph outcomes fuel root) {}
      (VizVisited graph outcomes [] [] root {}) :=
    vizPrint_does sound names needs (by omega) present start
  refine Does.bind visits fun text viz visited => Does.pure ?_
  obtain ⟨label, nested, labelled, walks, _, drawn⟩ := visited
  cases label with
  | none => cases labelled
  | some attributes =>
    rw [Scheme.opened_of_fresh (by simp)] at walks
    refine ⟨_, ?_, drawn.within, vizCovers_of_walks labelled.2 walks⟩
    rw [drawn.text]

end Report

end Stg
