import Stg.Flat
import Stg.Lib.Traversal

set_option autoImplicit false

/- What the plain printer does: a depth-first traversal that opens the comparisons that
hold changes once, and all others at every visit. -/
namespace Stg

open Relation (ReflTransGen TransGen)
open Traversal (Scheme Forest Need)

instance : LawfulBEq Comparison := inferInstance

instance : DecidablePred OneSided := fun c => inferInstanceAs (Decidable (c.1 = none ∨ c.2 = none))

namespace Outcomes

variable (outcomes : Outcomes)

def holds (c : Comparison) : Bool := (outcomes.lookup c).any (·.holdsChanges)

/-- The details of the comparisons, with some that are opened only once. -/
def scheme (once : Comparison → Bool) : Scheme Comparison DiffDetail :=
  ⟨outcomes.details, DiffDetail.edge, once⟩

variable {outcomes} {c d : Comparison} {once : Comparison → Bool}

theorem holder_iff : outcomes.Holder c ↔ outcomes.holds c = true := by
  simp only [Holder, holds, Option.any_eq_true]

theorem scheme_edge : (outcomes.scheme once).Edge c d ↔ outcomes.Edge c d := edge_iff.symm

theorem scheme_edge_eq : (outcomes.scheme once).Edge = outcomes.Edge :=
  funext fun _ => funext fun _ => propext scheme_edge

/-- The comparisons that are opened at every visit are those that do not hold changes. -/
theorem once_eq_false : (outcomes.scheme outcomes.holds).once c = false ↔ ¬ outcomes.Holder c := by
  rw [holder_iff, Bool.not_eq_true]
  rfl

theorem again_iff : (outcomes.scheme outcomes.holds).Again c d ↔ outcomes.Through c d := by
  unfold Scheme.Again Through Inner
  rw [scheme_edge, once_eq_false, once_eq_false]
  constructor
  · exact fun ⟨edge, first, second⟩ => ⟨⟨edge, second⟩, first⟩
  · exact fun ⟨⟨edge, second⟩, first⟩ => ⟨edge, first, second⟩

/-- A closed map without cycles that avoid the comparisons that hold changes limits how
deep the plain printer can go. -/
theorem Closed.exists_need (closed : outcomes.Closed) (cycles : outcomes.CyclesHold) :
    ∃ need bound, Need (outcomes.scheme outcomes.holds) need bound := by
  refine Traversal.exists_need _ outcomes.keys.toFinset (fun c d edge => ?_) (fun c d edge => ?_)
    fun c cycle => ?_
  · exact mem_keys_of_present (closed.present (scheme_edge.mp edge))
  · exact mem_keys_of_present (scheme_edge.mp edge).present
  · exact cycles c (TransGen.mono (fun _ _ again => again_iff.mp again) c c cycle)

end Outcomes

/-- How the line of a comparison ends. -/
inductive Mark where
  | oneSided
  /-- Not one that holds changes: its details are printed at each visit. -/
  | passed
  | expanded
  | beingReported
  | alreadyReported
  /-- As already reported, but there were no details and the line is not ended. -/
  | unended
  deriving DecidableEq, Repr

def Mark.pieces : Mark → List Piece
  | oneSided => []
  | passed => [.text "\n"]
  | expanded => [.text "\n"]
  | beingReported => [.text " (being reported)\n"]
  | alreadyReported => [.text " (already reported)\n"]
  | unended => [.text ""]

/-- The mark at a visit, from the comparisons on the print path and those visited before. -/
def Outcomes.mark (outcomes : Outcomes) (path before : List Comparison) (c : Comparison) : Mark :=
  if OneSided c then .oneSided
  else if outcomes.holds c = false then .passed
  else if c ∉ before then .expanded
  else if c ∈ path then .beingReported
  else if outcomes.details c ≠ [] then .alreadyReported
  else .unended

section Marks

variable {outcomes : Outcomes} {path before : List Comparison} {c : Comparison}

theorem Outcomes.mark_oneSided_iff : outcomes.mark path before c = .oneSided ↔ OneSided c := by
  unfold Outcomes.mark
  split
  · simp [*]
  · simp only [*, iff_false]
    repeat' split
    all_goals simp

end Marks

structure PlainLabel where
  content : String
  mark : Mark
  deriving DecidableEq, Repr

abbrev PlainForest := Forest Comparison DiffDetail PlainLabel

def spacing (indent : Nat) : List Piece := if indent = 0 then [.text "\n"] else []

/-- The text of a traversal of the details of a comparison. -/
def plainPieces : Comparison → Nat → PlainForest → List Piece
  | _, _, .nil => []
  | owner, indent, .leaf detail rest =>
    changeLine owner indent detail :: spacing indent ++ plainPieces owner indent rest
  | owner, indent, .visit detail c label nested rest =>
    edgeText indent detail.text :: .comparison c label.content :: label.mark.pieces ++
      plainPieces c (indent + indentIncrement) nested ++ spacing indent ++
      plainPieces owner indent rest

/-- What is written about a comparison at a visit. -/
def PlainLabelled (graph : Graph) (outcomes : Outcomes) (path before : List Comparison)
    (c : Comparison) (label : PlainLabel) : Prop :=
  Written graph c label.content ∧ label.mark = outcomes.mark path before c

/-- The report is a traversal of the details. -/
abbrev PlainWalks (graph : Graph) (outcomes : Outcomes) :=
  (outcomes.scheme outcomes.holds).Walks (PlainLabelled graph outcomes)

variable {graph : Graph} {outcomes : Outcomes} {fuel indent : Nat} {c d : Comparison}
  {path before : List Comparison} {seen seen' : Seen}

section Invariant

/-- Those are seen that hold changes and were visited, and those are started, but not
finished, that are on the path. -/
structure Tracks (outcomes : Outcomes) (path before : List Comparison) (seen : Seen) : Prop where
  visited : ∀ c, outcomes.holds c = true → (seen.lookup c = none ↔ c ∉ before)
  started : ∀ c, seen.lookup c = some false ↔ outcomes.holds c = true ∧ c ∈ path

theorem Tracks.start : Tracks outcomes [] [] ∅ := ⟨by simp, by simp⟩

/-- A visit without a new comparison that holds changes. -/
theorem Tracks.visit (tracks : Tracks outcomes path before seen)
    (known : outcomes.holds c = true → c ∈ before) : Tracks outcomes path (before ++ [c]) seen where
  visited d holds := by
    rw [tracks.visited d holds, List.mem_append, List.mem_singleton]
    constructor
    · rintro fresh (repeated | rfl)
      · exact fresh repeated
      · exact fresh (known holds)
    · exact fun fresh repeated => fresh (.inl repeated)
  started := tracks.started

theorem Tracks.pass (tracks : Tracks outcomes path before seen)
    (passed : outcomes.holds c = false) :
    Tracks outcomes (c :: path) before seen where
  visited := tracks.visited
  started d := by
    rw [tracks.started, List.mem_cons]
    constructor
    · exact fun ⟨holds, among⟩ => ⟨holds, .inr among⟩
    · rintro ⟨holds, rfl | among⟩
      · simp [passed] at holds
      · exact ⟨holds, among⟩

theorem Tracks.leave (tracks : Tracks outcomes (c :: path) before seen)
    (passed : outcomes.holds c = false) : Tracks outcomes path before seen where
  visited := tracks.visited
  started d := by
    rw [tracks.started, List.mem_cons]
    constructor
    · rintro ⟨holds, rfl | among⟩
      · simp [passed] at holds
      · exact ⟨holds, among⟩
    · exact fun ⟨holds, among⟩ => ⟨holds, .inr among⟩

theorem Tracks.open_ (tracks : Tracks outcomes path before seen) (holds : outcomes.holds c = true) :
    Tracks outcomes (c :: path) (before ++ [c]) (seen.insert c false) where
  visited d holds' := by
    by_cases same : d = c
    · subst same
      simp
    · rw [AList.lookup_insert_ne same, tracks.visited d holds']
      simp [same]
  started d := by
    by_cases same : d = c
    · subst same
      simp [holds]
    · rw [AList.lookup_insert_ne same, tracks.started]
      simp [same]

theorem Tracks.close (tracks : Tracks outcomes (c :: path) before seen) (among : c ∈ before)
    (outside : c ∉ path) : Tracks outcomes path before (seen.insert c true) where
  visited d holds := by
    by_cases same : d = c
    · subst same
      simp [among]
    · rw [AList.lookup_insert_ne same, tracks.visited d holds]
  started d := by
    by_cases same : d = c
    · subst same
      simp [outside]
    · rw [AList.lookup_insert_ne same, tracks.started]
      simp [same]

/-- The comparisons on the path were visited. -/
theorem Tracks.visited_of_path (tracks : Tracks outcomes path before seen)
    (holds : outcomes.holds c = true) (among : c ∈ path) : c ∈ before := by
  have started := (tracks.started c).mpr ⟨holds, among⟩
  by_contra fresh
  rw [(tracks.visited c holds).mpr fresh] at started
  cases started

theorem Tracks.mark (tracks : Tracks outcomes path before seen) (twoSided : ¬ OneSided c)
    (holds : outcomes.holds c = true) :
    outcomes.mark path before c = match seen.lookup c with
      | none => .expanded
      | some false => .beingReported
      | some true => if outcomes.details c ≠ [] then .alreadyReported else .unended := by
  unfold Outcomes.mark
  rw [if_neg twoSided, if_neg (by simp [holds])]
  cases looked : seen.lookup c with
  | none => rw [if_pos ((tracks.visited c holds).mp looked)]
  | some finished =>
    have repeated : c ∈ before := by
      by_contra fresh
      simp [(tracks.visited c holds).mpr fresh] at looked
    rw [if_neg fun fresh => fresh repeated]
    cases finished with
    | false => rw [if_pos ((tracks.started c).mp looked).2]
    | true =>
      rw [if_neg]
      intro among
      simp [(tracks.started c).mpr ⟨holds, among⟩] at looked

end Invariant

section Print

variable {ample : Prop} {owner : Comparison} {detail : DiffDetail} {details : List DiffDetail}

/-- A visit was printed: its label is right, and below it is a traversal of what it opens. -/
def Visited (graph : Graph) (outcomes : Outcomes) (path before : List Comparison) (c : Comparison)
    (indent : Nat) (pieces : List Piece) (seen' : Seen) : Prop :=
  ∃ label nested, PlainLabelled graph outcomes path before c label ∧
    PlainWalks graph outcomes (c :: path) (before ++ [c])
      ((outcomes.scheme outcomes.holds).opened before c) nested ∧
    pieces = .comparison c label.content :: label.mark.pieces ++
      plainPieces c (indent + indentIncrement) nested ∧
    Tracks outcomes path (before ++ c :: nested.visits) seen'

theorem Visited.closed {content : String} (indent : Nat)
    (nothing : (outcomes.scheme outcomes.holds).opened before c = [])
    (written : Written graph c content) (tracks : Tracks outcomes path (before ++ [c]) seen) :
    Visited graph outcomes path before c indent
      (.comparison c content :: (outcomes.mark path before c).pieces) seen := by
  refine ⟨⟨content, outcomes.mark path before c⟩, .nil, ⟨written, rfl⟩, ?_, ?_, tracks⟩
  · rw [nothing]
    exact .nil
  · simp [plainPieces]

/-- Printing the details is traversing them. -/
theorem printDetails_does {print : Comparison → Nat → PlainM (List Piece)}
    (prints : ∀ e ∈ details.filterMap (·.edge), ∀ more seen,
      Tracks outcomes path (before ++ more) seen → Does graph ample (print e indent) seen
        (Visited graph outcomes path (before ++ more) e indent))
    (tracks : Tracks outcomes path before seen) :
    Does graph ample (printDetails print owner indent details) seen fun pieces seen' =>
      ∃ forest, PlainWalks graph outcomes path before details forest ∧
        pieces = plainPieces owner indent forest ∧
        Tracks outcomes path (before ++ forest.visits) seen' := by
  induction details generalizing before seen with
  | nil => exact Does.pure ⟨.nil, .nil, rfl, by simpa [Forest.visits] using tracks⟩
  | cons detail details ih =>
    rw [printDetails, printDetail]
    cases held : detail.edge with
    | none =>
      rw [List.filterMap_cons_none held] at prints
      rw [pure_bind]
      refine Does.bind (ih prints tracks) fun rest seen' post => Does.pure ?_
      obtain ⟨forest, walks, text, tracks'⟩ := post
      exact ⟨.leaf detail forest, .leaf held walks, by simp [plainPieces, spacing, text], tracks'⟩
    | some edge =>
      rw [List.filterMap_cons_some held] at prints
      have first := prints edge (by simp) [] seen (by simpa using tracks)
      rw [bind_assoc]
      refine Does.bind first fun pieces seen₁ visited => ?_
      rw [pure_bind]
      rw [List.append_nil] at visited
      obtain ⟨label, nested, labelled, inside, text, tracks₁⟩ := visited
      have later : ∀ e ∈ details.filterMap (·.edge), ∀ more seen,
          Tracks outcomes path (before ++ edge :: nested.visits ++ more) seen →
          Does graph ample (print e indent) seen
            (Visited graph outcomes path (before ++ edge :: nested.visits ++ more) e indent) := by
        intro e among more seen
        rw [List.append_assoc]
        exact prints e (by simp [among]) _ seen
      refine Does.bind (ih later tracks₁) fun rest seen₂ post => Does.pure ?_
      obtain ⟨forest, walks, text', tracks₂⟩ := post
      refine ⟨.visit detail edge label nested forest, .visit held labelled inside walks, ?_, ?_⟩
      · simp [plainPieces, spacing, text, text']
      · simpa [Forest.visits] using tracks₂

variable {need : List Comparison → Comparison → Nat} {bound enough : Nat}

/-- A visit is printed, if it returns; and it does with fuel for naming and for going as
deep as needed. -/
theorem printPlain_does (sound : outcomes.Sound graph)
    (names : ∀ fuel, enough ≤ fuel → outcomes.NamedWithin graph fuel)
    (needs : ample → Need (outcomes.scheme outcomes.holds) need bound)
    (plenty : ample → enough + need before c < fuel) (present : outcomes.lookup c ≠ none)
    (tracks : Tracks outcomes path before seen) :
    Does graph ample (printPlain graph outcomes fuel c indent) seen
      (Visited graph outcomes path before c indent) := by
  induction fuel generalizing before c path seen indent with
  | zero => exact Does.spent fun isAmple => absurd (plenty isAmple) (Nat.not_lt_zero _)
  | succ fuel ih =>
    have within : ample → enough ≤ fuel := by
      intro isAmple
      have more := plenty isAmple
      omega
    refine Does.bind (printComparison_does names within present) ?_
    rintro ⟨oneSided, content⟩ seen₁ ⟨rfl, flag, written⟩
    dsimp only at flag written ⊢
    by_cases isOneSided : OneSided c
    · rw [if_pos (flag.mpr isOneSided)]
      have passed : outcomes.holds c = false := by
        by_contra holds
        exact sound.not_holder isOneSided (Outcomes.holder_iff.mpr (by simpa using holds))
      have nothing : (outcomes.scheme outcomes.holds).opened before c = [] := by
        rw [Traversal.Scheme.opened_of_fresh (by simp [Outcomes.scheme, passed])]
        exact sound.details_oneSided isOneSided
      have visited := Visited.closed indent nothing written
        (tracks.visit (by simp [passed]))
      rw [Outcomes.mark, if_pos isOneSided] at visited
      exact Does.pure visited
    rw [if_neg fun isTrue => isOneSided (flag.mp isTrue)]
    cases held : outcomes.lookup c with
    | none => exact absurd held present
    | some diff =>
      have details := Outcomes.details_eq held
      have holds : outcomes.holds c = diff.holdsChanges := by rw [Outcomes.holds, held]; rfl
      dsimp only
      refine Does.bind Does.get ?_
      rintro _ seen ⟨rfl, rfl⟩
      have opens : (outcomes.holds c = true → c ∉ before) → ∀ seen,
          Tracks outcomes (c :: path) (before ++ [c]) seen → Does graph ample
            (printDetails (printPlain graph outcomes fuel) c (indent + indentIncrement) diff.details)
            seen fun pieces seen' => ∃ nested, PlainWalks graph outcomes (c :: path) (before ++ [c])
              ((outcomes.scheme outcomes.holds).opened before c) nested ∧
              pieces = plainPieces c (indent + indentIncrement) nested ∧
              Tracks outcomes (c :: path) (before ++ [c] ++ nested.visits) seen' := by
        intro fresh seen tracks
        rw [Scheme.opened_of_fresh fresh, ← details]
        refine printDetails_does (fun e among more seen tracks => ?_) tracks
        have edge : outcomes.Edge c e := Outcomes.edge_iff.mpr among
        refine ih (fun isAmple => ?_) (sound.closed.present edge) tracks
        have lower := (needs isAmple).below before c e (Outcomes.scheme_edge.mpr edge) fresh
        have less := (needs isAmple).anti (before ++ [c]) more e
        have most := plenty isAmple
        omega
      cases holder : diff.holdsChanges with
      | false =>
        have passed : outcomes.holds c = false := by rw [holds, holder]
        have fresh : outcomes.holds c = true → c ∉ before := by simp [passed]
        have unmarked : Does graph ample (modify id : PlainM PUnit) seen fun _ seen' =>
            seen' = seen :=
          Does.modify rfl
        refine Does.bind unmarked ?_
        rintro _ _ rfl
        have entered := (tracks.visit (c := c) (by simp [passed])).pass passed
        refine Does.bind (opens fresh _ entered) fun pieces seen₂ post => ?_
        obtain ⟨nested, walks, text, tracks₂⟩ := post
        have unmarked : Does graph ample (modify id : PlainM PUnit) seen₂ fun _ seen' =>
            seen' = seen₂ :=
          Does.modify rfl
        refine Does.bind unmarked ?_
        rintro _ _ rfl
        have mark : outcomes.mark path before c = .passed := by
          rw [Outcomes.mark, if_neg isOneSided, if_pos passed]
        refine Does.pure ⟨⟨content, .passed⟩, nested, ⟨written, mark.symm⟩, walks, ?_, ?_⟩
        · rw [text]
          rfl
        · simpa using tracks₂.leave passed
      | true =>
        have once : outcomes.holds c = true := by rw [holds, holder]
        have mark := tracks.mark isOneSided once
        rw [if_pos rfl]
        cases looked : seen.lookup c with
        | none =>
          rw [looked] at mark
          have fresh := (tracks.visited c once).mp looked
          have started : Does graph ample (modify fun seen : Seen => seen.insert c false :
            PlainM PUnit) seen
              fun _ seen' => seen' = seen.insert c false := Does.modify rfl
          refine Does.bind started ?_
          rintro _ _ rfl
          refine Does.bind (opens (fun _ => fresh) _ (tracks.open_ once)) fun pieces seen₂ post =>
            ?_
          obtain ⟨nested, walks, text, tracks₂⟩ := post
          have finished : Does graph ample (modify fun seen : Seen => seen.insert c true :
            PlainM PUnit) seen₂
              fun _ seen' => seen' = seen₂.insert c true := Does.modify rfl
          refine Does.bind finished ?_
          rintro _ _ rfl
          refine Does.pure ⟨⟨content, .expanded⟩, nested, ⟨written, mark.symm⟩, walks, ?_, ?_⟩
          · rw [text]
            rfl
          · have outside : c ∉ path := fun among => fresh (tracks.visited_of_path once among)
            simpa using tracks₂.close (by simp) outside
        | some finished =>
          have repeated : c ∈ before := by
            by_contra fresh
            simp [(tracks.visited c once).mpr fresh] at looked
          have nothing : (outcomes.scheme outcomes.holds).opened before c = [] :=
            Scheme.opened_of_repeated once repeated
          have visited := Visited.closed indent nothing written
            (tracks.visit fun _ => repeated)
          rw [looked] at mark
          cases finished with
          | false =>
            rw [mark] at visited
            exact Does.pure visited
          | true =>
            dsimp only at mark ⊢
            rw [mark, details] at visited
            by_cases some_ : diff.details ≠ []
            · rw [if_pos some_] at visited ⊢
              exact Does.pure visited
            · rw [if_neg some_] at visited ⊢
              exact Does.pure visited

end Print

section Report

variable {root : Comparison} {forest : PlainForest}

/-- The report is a traversal of the details of the root, if it is completed; and it is
where every cycle passes a comparison that holds changes. -/
theorem reportPlain_does {ample : Prop} (sound : outcomes.Sound graph)
    (nameable : outcomes.Nameable graph) (cycles : ample → outcomes.CyclesHold)
    (present : outcomes.lookup root ≠ none) :
    ∃ enough, ∀ fuel, (ample → enough ≤ fuel) →
      Does graph ample (reportPlain graph outcomes fuel root) ∅
        fun pieces _ => ∃ forest, PlainWalks graph outcomes [] [] (outcomes.details root) forest ∧
          pieces = plainPieces root 0 forest := by
  obtain ⟨enough, names⟩ := nameable
  obtain ⟨need, bound, needs⟩ : ∃ need bound,
      ample → Need (outcomes.scheme outcomes.holds) need bound := by
    by_cases isAmple : ample
    · obtain ⟨need, bound, needs⟩ := sound.closed.exists_need (cycles isAmple)
      exact ⟨need, bound, fun _ => needs⟩
    · exact ⟨fun _ _ => 0, 0, fun holds => absurd holds isAmple⟩
  refine ⟨enough + bound + 1, fun fuel more => ?_⟩
  obtain ⟨diff, held⟩ := Option.ne_none_iff_exists'.mp present
  have details := Outcomes.details_eq held
  rw [details]
  unfold reportPlain
  rw [held]
  have prints : ∀ e ∈ diff.details.filterMap (·.edge), ∀ more seen,
      Tracks outcomes [] ([] ++ more) seen →
        Does graph ample (printPlain graph outcomes fuel e 0) seen
        (Visited graph outcomes [] ([] ++ more) e 0) := by
    intro e among before seen tracks
    have edge : outcomes.Edge root e := Outcomes.edge_iff.mpr (details ▸ among)
    refine printPlain_does sound names needs (fun isAmple => ?_) (sound.closed.present edge) tracks
    have limit := (needs isAmple).bounded ([] ++ before) e
    have most := more isAmple
    omega
  refine (printDetails_does prints Tracks.start).imp fun pieces seen' post => ?_
  obtain ⟨forest, walks, text, _⟩ := post
  exact ⟨forest, walks, text⟩

/-- The pieces have a line of the comparison. -/
def Describes (pieces : List Piece) (c : Comparison) : Prop :=
  ∃ content, .comparison c content ∈ pieces

/-- The line of a visit. -/
def plainLine (label : PlainLabel) : String := label.content ++ render label.mark.pieces

/-- The text ends a line. -/
def Terminated (text : String) : Prop := ∃ body, text = body ++ "\n"

theorem Terminated.append {ending : String} (terminated : Terminated ending) (text : String) :
    Terminated (text ++ ending) := by
  obtain ⟨body, rfl⟩ := terminated
  exact ⟨text ++ body, (String.append_assoc).symm⟩

theorem Written.terminated {content : String} (written : Written graph c content)
    (oneSided : OneSided c) : Terminated content := by
  obtain ⟨fuel, names, flag, names', ran⟩ := written
  rcases c with ⟨_ | id1, _ | id2⟩
  · cases ran
  · obtain ⟨_, _, rest1⟩ := bind_eq_ok ran
    obtain ⟨_, _, rest2⟩ := bind_eq_ok rest1
    cases rest2
    exact Terminated.append ⟨" was added", rfl⟩ _
  · obtain ⟨_, _, rest1⟩ := bind_eq_ok ran
    obtain ⟨_, _, rest2⟩ := bind_eq_ok rest1
    cases rest2
    exact Terminated.append ⟨" was removed", rfl⟩ _
  · rcases oneSided with none_ | none_ <;> cases none_

theorem PlainLabelled.terminated {label : PlainLabel}
    (labelled : PlainLabelled graph outcomes path before c label) (ended : label.mark ≠ .unended) :
    Terminated (plainLine label) := by
  obtain ⟨written, mark⟩ := labelled
  unfold plainLine
  by_cases oneSided : OneSided c
  · rw [mark, Outcomes.mark, if_pos oneSided]
    simpa [Mark.pieces, render] using written.terminated oneSided
  · have marked : label.mark ≠ .oneSided := by
      rw [mark, Ne, Outcomes.mark_oneSided_iff]
      exact oneSided
    apply Terminated.append
    cases held : label.mark with
    | oneSided => exact absurd held marked
    | passed | expanded => exact ⟨"", rfl⟩
    | beingReported => exact ⟨" (being reported)", rfl⟩
    | alreadyReported => exact ⟨" (already reported)", rfl⟩
    | unended => exact absurd held ended

end Report

end Stg
