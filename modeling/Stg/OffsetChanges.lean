import Stg.Lines
import Mathlib.Data.List.SplitBy

set_option autoImplicit false

/- `SummariseOffsetChanges` encodes runs: neighbouring members that move by the same
distance become two lines, and all other lines are kept. -/
namespace Stg

/-- The value of a number in decimal digits. -/
def value (digits : String) : Nat := Nat.ofDigitChars 10 digits.toList 0

/-- All offsets in the report are below 2^63. -/
def OffsetsBounded (report : List String) : Prop :=
  ∀ line ∈ report, ∀ indent old new, IsOffsetChanged line indent old new →
    value old < 2 ^ 63 ∧ value new < 2 ^ 63

/-- The first two lines say that a member has changed and that its offset has, and the third
line is no further detail of the member. -/
def OnlyOffset (line1 line2 line3 : String) (change : OffsetChange) : Prop :=
  IsMemberChanged line1 change.indent change.member ∧
    (∃ old new, IsOffsetChanged line2 (change.indent + 2) old new ∧
      change.offset = (value new : Int) - value old) ∧
    (∀ c ∈ line3.toList, inLine c = true) ∧ indentOf line3 ≤ change.indent

/-- The offsets that are all that has changed in a member are below 2^63. -/
def ReadBounded (report : List String) : Prop :=
  ∀ before line1 line2 line3 after change old new, report = before ++ line1 :: line2 :: line3 :: after →
    OnlyOffset line1 line2 line3 change → IsOffsetChanged line2 (change.indent + 2) old new →
    value old < 2 ^ 63 ∧ value new < 2 ^ 63

inductive OffsetPiece where
  | moved (change : OffsetChange) (line1 line2 : String)
  | other (line : String)
  deriving DecidableEq, Repr

@[simp] def OffsetPiece.lines : OffsetPiece → List String
  | .moved _ line1 line2 => [line1, line2]
  | .other line => [line]

@[simp] def OffsetPiece.change : OffsetPiece → Option OffsetChange
  | .moved change _ _ => some change
  | .other _ => none

/-- The report, taken apart from left to right. -/
inductive Pairs : List String → List OffsetPiece → Prop where
  | nil : Pairs [] []
  | moved {line1 line2 line3 : String} {report : List String} {pieces : List OffsetPiece}
    {change : OffsetChange} : OnlyOffset line1 line2 line3 change →
    Pairs (line3 :: report) pieces →
    Pairs (line1 :: line2 :: line3 :: report) (.moved change line1 line2 :: pieces)
  | other {line : String} {report : List String} {pieces : List OffsetPiece} :
    (∀ line2 line3 rest change, report = line2 :: line3 :: rest →
      ¬ OnlyOffset line line2 line3 change) →
    Pairs report pieces → Pairs (line :: report) (.other line :: pieces)

/-- Two changes with the same indentation and the same distance. -/
def together : OffsetPiece → OffsetPiece → Bool
  | .moved change1 _ _, .moved change2 _ _ =>
    change1.indent = change2.indent && change1.offset = change2.offset
  | _, _ => false

/-- What is made of a run: two lines, or the only line. -/
def runLines : List OffsetPiece → List String
  | [] => []
  | .other line :: _ => [line]
  | .moved change _ _ :: rest =>
    offsetLines change.indent change.offset
      (change.member :: (rest.filterMap OffsetPiece.change).map (·.member))

variable {report : List String} {pieces : List OffsetPiece} {line1 line2 line3 : String}

theorem Pairs.lines (pairs : Pairs report pieces) : pieces.flatMap OffsetPiece.lines = report := by
  induction pairs with
  | nil => rfl
  | moved _ _ ih => simp [ih]
  | other _ _ ih => simp [ih]

theorem stoll_eq {digits : String} (bounded : value digits < 2 ^ 63) :
    stoll digits = .ok (value digits : Int) := by
  unfold stoll
  exact if_pos bounded

/-- An offset that is not below 2^63. -/
abbrev outOfRange : Error := .uncaught "std::out_of_range"

theorem stoll_throws {digits : String} {reason : Error} (raised : stoll digits = .error reason) :
    reason = outOfRange := by
  unfold stoll at raised
  dsimp only at raised
  split at raised <;> cases raised
  rfl

theorem offsetChange_throws {line1 line2 line3 : String} {reason : Error}
    (raised : offsetChange line1 line2 line3 = .error reason) : reason = outOfRange := by
  unfold offsetChange at raised
  split at raised
  · split at raised
    · rename_i old new _ _ _ _ _
      cases newer : stoll new with
      | error =>
        rw [newer] at raised
        cases raised
        exact stoll_throws newer
      | ok =>
        cases older : stoll old with
        | error =>
          rw [newer, older] at raised
          cases raised
          exact stoll_throws older
        | ok =>
          rw [newer, older] at raised
          cases raised
    · cases raised
  · cases raised

theorem summariseOffsetLoop_throws {report : List String} {state : OffsetState} {reason : Error}
    (raised : summariseOffsetLoop report state = .error reason) : reason = outOfRange := by
  fun_induction summariseOffsetLoop report state with
  | case1 => cases raised
  | case2 line1 line2 line3 rest state changed kept =>
    cases read : offsetChange line1 line2 line3 with
    | error =>
      rw [read] at raised
      cases raised
      exact offsetChange_throws read
    | ok change =>
      rw [read] at raised
      cases change with
      | some change => exact changed change raised
      | none => exact kept raised
  | case3 line report state other ih => exact ih raised

theorem OnlyOffset.matches_ {change : OffsetChange}
    (only : OnlyOffset line1 line2 line3 change) : ∃ old new,
      regexMatch memberChangedRe line1 = some [spaces change.indent, change.member] ∧
      regexMatch offsetChangedRe line2 = some [spaces (change.indent + 2), old, new] ∧
      regexMatch indentRe line3 = some [spaces (indentOf line3)] ∧
      change.offset = (value new : Int) - value old := by
  obtain ⟨member, ⟨old, new, offset, distance⟩, inside, _⟩ := only
  exact ⟨old, new, memberChanged_iff.mpr ⟨_, _, member, rfl⟩,
    offsetChanged_iff.mpr
      ⟨_, _, _, offset, rfl⟩, by rw [indent_eq, if_pos (List.all_eq_true.mpr inside)], distance⟩

theorem spaces_injective {indent indent' : Nat} (same : spaces indent = spaces indent') :
    indent = indent' := by
  have lengths := congrArg String.length same
  rwa [length_spaces, length_spaces] at lengths

theorem offsetChange_spec (bounded : ∀ change old new, OnlyOffset line1 line2 line3 change →
      IsOffsetChanged line2 (change.indent + 2) old new → value old < 2 ^ 63 ∧ value new < 2 ^ 63) :
    ∃ found, offsetChange line1 line2 line3 = .ok found ∧
      ∀ change, found = some change ↔ OnlyOffset line1 line2 line3 change := by
  -- where a pattern does not match there is no change
  have nothing : offsetChange line1 line2 line3 = .ok none →
      (∀ change, ¬ OnlyOffset line1 line2 line3 change) → ∃ found,
        offsetChange line1 line2 line3 = .ok found ∧
          ∀ change, found = some change ↔ OnlyOffset line1 line2 line3 change := by
    intro found none_
    refine ⟨none, found, fun change => ?_⟩
    exact iff_of_false (Option.some_ne_none change).symm (none_ change)
  cases held1 : regexMatch memberChangedRe line1 with
  | none =>
    refine nothing (by simp only [offsetChange, held1]; rfl) ?_
    intro change only
    obtain ⟨_, _, found, _⟩ := only.matches_
    cases held1.symm.trans found
  | some captures1 =>
    obtain ⟨indent, member, isMember, rfl⟩ := memberChanged_iff.mp held1
    cases held2 : regexMatch offsetChangedRe line2 with
    | none =>
      refine nothing (by simp only [offsetChange, held1, held2]; rfl) ?_
      intro change only
      obtain ⟨_, _, _, found, _⟩ := only.matches_
      cases held2.symm.trans found
    | some captures2 =>
      obtain ⟨indent2, old, new, isOffset, rfl⟩ := offsetChanged_iff.mp held2
      by_cases inside : ∀ c ∈ line3.toList, inLine c = true
      · have held3 : regexMatch indentRe line3 = some [spaces (indentOf line3)] := by
          rw [indent_eq, if_pos (List.all_eq_true.mpr inside)]
        by_cases nested : indent + 2 = indent2 ∧ indent ≥ indentOf line3
        · have own : OnlyOffset line1 line2 line3 ⟨indent, value new - value old, member⟩ :=
            ⟨isMember, ⟨old, new, nested.1 ▸ isOffset, rfl⟩, inside, nested.2⟩
          obtain ⟨oldBounded, newBounded⟩ := bounded _ old new own (nested.1 ▸ isOffset)
          refine ⟨some ⟨indent, value new - value old, member⟩, ?_, fun change => ?_⟩
          · simp only [offsetChange, held1, held2, held3, length_spaces, if_pos nested,
              stoll_eq oldBounded, stoll_eq newBounded]
            rfl
          · rw [Option.some.injEq]
            constructor
            · rintro rfl
              exact own
            · intro only
              obtain ⟨old', new', found1, found2, _, distance⟩ := only.matches_
              rw [held1, Option.some.injEq, List.cons.injEq, List.cons.injEq] at found1
              rw [held2, Option.some.injEq, List.cons.injEq, List.cons.injEq,
                List.cons.injEq] at found2
              obtain ⟨changeIndent, changeOffset, changeMember⟩ := change
              obtain rfl : indent = changeIndent := spaces_injective found1.1
              obtain rfl : member = changeMember := found1.2.1
              obtain rfl : old = old' := found2.2.1
              obtain rfl : new = new' := found2.2.2.1
              have same : changeOffset = (value new : Int) - value old := distance
              rw [same]
        · refine nothing ?_ ?_
          · simp only [offsetChange, held1, held2, held3, length_spaces, if_neg nested]
            rfl
          · intro change only
            obtain ⟨_, _, found1, found2, _⟩ := only.matches_
            rw [held1, Option.some.injEq, List.cons.injEq] at found1
            rw [held2, Option.some.injEq, List.cons.injEq] at found2
            have same1 := spaces_injective found1.1
            have same2 := spaces_injective found2.1
            have shallow := only.2.2.2
            omega
      · have held3 : regexMatch indentRe line3 = none := by
          rw [indent_eq, if_neg fun all => inside (List.all_eq_true.mp all)]
        refine nothing (by simp only [offsetChange, held1, held2, held3]; rfl) ?_
        intro change only
        exact inside only.2.2.1

section Runs

variable {state : OffsetState} {held : List OffsetPiece}

/-- The pieces of the run that the loop holds back. -/
structure Held (state : OffsetState) (held : List OffsetPiece) : Prop where
  alike : ∀ piece ∈ held, ∃ change line1 line2, piece = .moved change line1 line2 ∧
    change.indent = state.indent ∧ change.offset = state.offset
  vars : state.vars = (held.filterMap OffsetPiece.change).map (·.member)

theorem Held.isChain (isHeld : Held state held) : held.IsChain fun a b => together a b := by
  refine List.Pairwise.isChain (List.pairwise_of_forall_mem_list ?_)
  intro a amongA b amongB
  obtain ⟨changeA, _, _, rfl, indentA, offsetA⟩ := isHeld.alike a amongA
  obtain ⟨changeB, _, _, rfl, indentB, offsetB⟩ := isHeld.alike b amongB
  simp [together, indentA, indentB, offsetA, offsetB]

theorem Held.lines (isHeld : Held state held) :
    (held.splitBy together).flatMap runLines = offsetLines state.indent state.offset
      state.vars := by
  cases held with
  | nil =>
    rw [isHeld.vars]
    rfl
  | cons piece rest =>
    obtain ⟨change, line1, line2, rfl, indent, offset⟩ := isHeld.alike piece List.mem_cons_self
    rw [List.splitBy_of_isChain (List.cons_ne_nil _ _) isHeld.isChain, isHeld.vars, ← indent,
      ← offset]
    simp [runLines]

theorem Held.emit (isHeld : Held state held) :
    state.emitPending.newReport = state.newReport ++ (held.splitBy together).flatMap runLines ∧
      Held state.emitPending [] := by
  rw [isHeld.lines]
  exact ⟨rfl, ⟨by simp, rfl⟩⟩

theorem Held.snoc (isHeld : Held state held) {change : OffsetChange}
    (indent : change.indent = state.indent) (offset : change.offset = state.offset)
    (line1 line2 : String) :
    Held { state with vars := state.vars ++ [change.member] }
      (held ++ [.moved change line1 line2]) where
  alike := by
    intro piece present
    rcases List.mem_append.mp present with old | new
    · exact isHeld.alike piece old
    · exact ⟨change, line1, line2, List.mem_singleton.mp new, indent, offset⟩
  vars := by simp [isHeld.vars]

theorem Held.apart (isHeld : Held state held) {change : OffsetChange}
    (differs : change.indent ≠ state.indent ∨ change.offset ≠ state.offset)
    (line1 line2 : String) :
    ∀ piece ∈ held.getLast?, together piece (.moved change line1 line2) = false := by
  intro piece last
  obtain ⟨change', _, _, rfl, indent, offset⟩ :=
    isHeld.alike piece (List.mem_of_mem_getLast? last)
  rw [Bool.eq_false_iff]
  intro same
  simp only [together, Bool.and_eq_true, decide_eq_true_eq] at same
  exact differs.elim (absurd (same.1.symm.trans indent)) (absurd (same.2.symm.trans offset))

/-- A member is pushed on its run, or the run is completed and a new one starts. -/
theorem Held.pushChange (isHeld : Held state held) (change : OffsetChange) (line1 line2 : String) :
    ∃ held', Held (state.pushChange change) held' ∧ ∀ pieces,
      (state.pushChange change).newReport ++ ((held' ++ pieces).splitBy together).flatMap runLines =
        state.newReport ++
          ((held ++ .moved change line1 line2 :: pieces).splitBy together).flatMap runLines := by
  unfold OffsetState.pushChange
  by_cases differs : change.indent ≠ state.indent ∨ change.offset ≠ state.offset
  · simp only [if_pos differs]
    refine ⟨[.moved change line1 line2], ⟨?_, ?_⟩, ?_⟩
    · intro piece present
      exact ⟨change, line1, line2, List.mem_singleton.mp present, rfl, rfl⟩
    · simp [OffsetState.emitPending]
    · intro pieces
      rw [List.splitBy_append_cons _ (isHeld.apart differs line1 line2), List.flatMap_append,
        ← List.append_assoc, ← isHeld.emit.1]
      rfl
  · rw [not_or, not_not, not_not] at differs
    have same : ¬ (change.indent ≠ state.indent ∨ change.offset ≠ state.offset) := by
      rw [not_or, not_not, not_not]
      exact differs
    simp only [if_neg same]
    refine ⟨_, isHeld.snoc differs.1 differs.2 line1 line2, ?_⟩
    intro pieces
    rw [List.append_assoc, List.singleton_append]

theorem Held.pushLine (isHeld : Held state held) (line : String) :
    Held (state.pushLine line) [] ∧ ∀ pieces,
      (state.pushLine line).newReport ++ (pieces.splitBy together).flatMap runLines =
        state.newReport ++ ((held ++ .other line :: pieces).splitBy together).flatMap runLines := by
  refine ⟨⟨by simp, rfl⟩, ?_⟩
  intro pieces
  have first : ∀ piece ∈ held.getLast?, together piece (.other line) = false := by
    intro piece _
    cases piece <;> rfl
  have alone : ((.other line :: pieces).splitBy together) =
      [.other line] :: pieces.splitBy together := by
    cases pieces with
    | nil => rfl
    | cons piece pieces =>
      have apart : ∀ piece' ∈ [OffsetPiece.other line].getLast?, together piece' piece = false := by
        intro piece' last
        cases last
        rfl
      exact List.splitBy_append_cons pieces apart
  rw [List.splitBy_append_cons _ first, alone, List.flatMap_append, List.flatMap_cons,
    ← List.append_assoc, ← isHeld.emit.1, ← List.append_assoc]
  rfl

/-- A single line, or members that move by the same distance. -/
def IsRun (run : List OffsetPiece) : Prop :=
  (∃ line, run = [.other line]) ∨ ∃ indent offset members, members ≠ [] ∧
    run.map OffsetPiece.change = members.map fun member => some ⟨indent, offset, member⟩

theorem isRun_of_isChain {run : List OffsetPiece} (something : run ≠ [])
    (chain : run.IsChain fun a b => together a b) : IsRun run := by
  induction run with
  | nil => exact absurd rfl something
  | cons piece rest ih =>
    cases rest with
    | nil =>
      cases piece with
      | other line => exact .inl ⟨line, rfl⟩
      | moved change line1 line2 =>
        exact .inr ⟨change.indent, change.offset, [change.member], List.cons_ne_nil _ _, rfl⟩
    | cons next rest =>
      rw [List.isChain_cons_cons] at chain
      cases piece with
      | other line => cases chain.1
      | moved change line1 line2 =>
        cases next with
        | other line => cases chain.1
        | moved change' line1' line2' =>
          rcases ih (List.cons_ne_nil _ _) chain.2 with ⟨line, same⟩ |
            ⟨indent, offset, members, _, same⟩
          · cases same
          · have joined := chain.1
            simp only [together, Bool.and_eq_true, decide_eq_true_eq] at joined
            refine .inr ⟨indent, offset, change.member :: members, List.cons_ne_nil _ _, ?_⟩
            cases members with
            | nil => cases same
            | cons member members =>
              rw [List.map_cons, List.map_cons, List.cons.injEq] at same
              have first : change' = ⟨indent, offset, member⟩ := Option.some.inj same.1
              have own : change = ⟨indent, offset, change.member⟩ := by
                rw [first] at joined
                obtain ⟨changeIndent, changeOffset, changeMember⟩ := change
                obtain rfl : changeIndent = indent := joined.1
                obtain rfl : changeOffset = offset := joined.2
                rfl
              rw [List.map_cons, List.map_cons, List.map_cons, List.map_cons, ← same.2, ← own,
                ← first]
              rfl

/-- The loop completes the run that it holds back and encodes the rest of the report. -/
def LoopRuns (report : List String) : Prop :=
  ReadBounded report → ∀ state held, Held state held → ∃ pieces final, Pairs report pieces ∧
    summariseOffsetLoop report state = .ok final ∧ final.newReport =
      state.newReport ++ ((held ++ pieces).splitBy together).flatMap runLines

theorem OffsetsBounded.readBounded (bounded : OffsetsBounded report) : ReadBounded report := by
  rintro before line1 line2 line3 after change old new rfl _ changed
  exact bounded line2 (by simp) _ old new changed

theorem ReadBounded.tail {line : String} (bounded : ReadBounded (line :: report)) :
    ReadBounded report := by
  rintro before line1 line2 line3 after change old new rfl
  exact bounded (line :: before) line1 line2 line3 after change old new rfl

theorem ReadBounded.head (bounded : ReadBounded (line1 :: line2 :: line3 :: report))
    (change : OffsetChange) (old new : String) (only : OnlyOffset line1 line2 line3 change)
    (changed : IsOffsetChanged line2 (change.indent + 2) old new) :
    value old < 2 ^ 63 ∧ value new < 2 ^ 63 :=
  bounded [] line1 line2 line3 report change old new rfl only changed

/-- A line that does not start a change. -/
theorem LoopRuns.line (runs : LoopRuns report) {line : String}
    (apart : ∀ line2 line3 later change, report = line2 :: line3 :: later →
      ¬ OnlyOffset line line2 line3 change)
    (reads : ∀ state, summariseOffsetLoop (line :: report) state =
      summariseOffsetLoop report (state.pushLine line)) : LoopRuns (line :: report) := by
  intro bounded state held isHeld
  obtain ⟨pushed, lines⟩ := isHeld.pushLine line
  obtain ⟨pieces, final, pairs, ran, made⟩ := runs bounded.tail _ [] pushed
  refine ⟨.other line :: pieces, final, .other apart pairs, (reads state).trans ran, ?_⟩
  rw [made, List.nil_append, lines]

theorem summariseOffsetLoop_some {change : OffsetChange}
    (reads : offsetChange line1 line2 line3 = .ok (some change)) :
    summariseOffsetLoop (line1 :: line2 :: line3 :: report) state =
      summariseOffsetLoop (line3 :: report) (state.pushChange change) := by
  rw [summariseOffsetLoop, reads]
  rfl

theorem summariseOffsetLoop_none (reads : offsetChange line1 line2 line3 = .ok none) :
    summariseOffsetLoop (line1 :: line2 :: line3 :: report) state =
      summariseOffsetLoop (line2 :: line3 :: report) (state.pushLine line1) := by
  rw [summariseOffsetLoop, reads]
  rfl

theorem loopRuns_cons (line1 : String) (runs : LoopRuns report) (later : LoopRuns report.tail) :
    LoopRuns (line1 :: report) := by
  match report with
  | [] => exact runs.line (fun _ _ _ _ short => by cases short) fun _ => rfl
  | [line2] => exact runs.line (fun _ _ _ _ short => by cases short) fun _ => rfl
  | line2 :: line3 :: rest =>
    intro bounded
    have decides : ∃ found, offsetChange line1 line2 line3 = .ok found ∧
        ∀ change, found = some change ↔ OnlyOffset line1 line2 line3 change :=
      offsetChange_spec bounded.head
    obtain ⟨found, reads, spec⟩ := decides
    cases found with
    | none =>
      refine runs.line ?_ (fun _ => summariseOffsetLoop_none reads) bounded
      rintro _ _ _ change ⟨⟩ only
      cases (spec change).mpr only
    | some change =>
      intro state held isHeld
      obtain ⟨held', pushed, lines⟩ := isHeld.pushChange change line1 line2
      obtain ⟨pieces, final, pairs, ran, made⟩ := later bounded.tail.tail _ held' pushed
      refine ⟨.moved change line1 line2 :: pieces, final, .moved ((spec change).mp rfl) pairs,
        (summariseOffsetLoop_some reads).trans ran, ?_⟩
      rw [made, lines]

theorem loopRuns (report : List String) : LoopRuns report := by
  have both : LoopRuns report ∧ LoopRuns report.tail := by
    induction report with
    | nil =>
      have empty : LoopRuns [] := by
        intro _ state held isHeld
        refine ⟨[], state.emitPending, .nil, rfl, ?_⟩
        rw [isHeld.emit.1, List.append_nil]
      exact ⟨empty, empty⟩
    | cons line rest ih => exact ⟨loopRuns_cons line ih.1 ih.2, ih.1⟩
  exact both.1

/-- `SummariseOffsetChanges` takes the report apart into changes of an offset alone and other
lines, and writes two lines for every maximal run of changes that agree. -/
theorem summariseOffsetChanges_runs (report : List String) (bounded : OffsetsBounded report) :
    ∃ (pieces : List OffsetPiece) (runs : List (List OffsetPiece)), Pairs report pieces ∧
      pieces.flatMap OffsetPiece.lines = report ∧ runs.flatten = pieces ∧
      (∀ run ∈ runs, IsRun run) ∧
      (runs.IsChain fun run next => ∃ something something',
        together (run.getLast something) (next.head something') = false) ∧
      summariseOffsetChanges report = .ok (runs.flatMap runLines) := by
  obtain ⟨pieces, final, pairs, ran, made⟩ := loopRuns report bounded.readBounded {} []
    ⟨by simp, rfl⟩
  refine ⟨pieces, pieces.splitBy together, pairs, pairs.lines, List.flatten_splitBy _ _, ?_,
    List.isChain_getLast_head_splitBy _ _, ?_⟩
  · intro run among
    exact isRun_of_isChain (List.ne_nil_of_mem_splitBy among) (List.isChain_of_mem_splitBy among)
  · rw [summariseOffsetChanges, ran]
    exact congrArg Except.ok made

theorem offsetsBounded_of_captures (all : ∀ line ∈ report,
    ∀ digits ∈ ((regexMatch offsetChangedRe line).getD []).drop 1, value digits < 2 ^ 63) :
    OffsetsBounded report := by
  intro line present indent old new isOffset
  have found := offsetChanged_iff.mpr ⟨indent, old, new, isOffset, rfl⟩
  have digits := all line present
  rw [found] at digits
  exact ⟨digits old (by simp), digits new (by simp)⟩

theorem summariseOffsetChanges_runs_members :
    summariseOffsetChanges ["  member 'int b' changed", "    offset changed from 4 to 20",
        "  member 'int c' changed", "    offset changed from 8 to 24", ""] =
      .ok ["  2 members ('int b' .. 'int c') changed", "    offset changed by 16", ""] ∧
    ∃ pieces, Pairs ["  member 'int b' changed", "    offset changed from 4 to 20",
      "  member 'int c' changed", "    offset changed from 8 to 24", ""] pieces := by
  have bounded : OffsetsBounded ["  member 'int b' changed", "    offset changed from 4 to 20",
      "  member 'int c' changed", "    offset changed from 8 to 24", ""] :=
    offsetsBounded_of_captures (by decide +kernel)
  obtain ⟨pieces, _, pairs, _⟩ := summariseOffsetChanges_runs _ bounded
  exact ⟨by decide +kernel, pieces, pairs⟩

/-- The pattern for the third line does not match a carriage return. The change is then kept,
although the member has no further detail. -/
theorem carriage_return_kept :
    IsMemberChanged "member 'int x' changed" 0 "'int x'" ∧
    IsOffsetChanged "  offset changed from 0 to 8" (0 + 2) "0" "8" ∧
    indentOf "enum 'E\r' changed" ≤ 0 ∧
    OffsetsBounded ["member 'int x' changed", "  offset changed from 0 to 8",
      "enum 'E\r' changed"] ∧
    summariseOffsetChanges ["member 'int x' changed", "  offset changed from 0 to 8",
        "enum 'E\r' changed"] =
      .ok ["member 'int x' changed", "  offset changed from 0 to 8", "enum 'E\r' changed"] := by
  refine ⟨⟨rfl, "int x", rfl, List.all_eq_true.mp (by decide +kernel)⟩, ⟨rfl, ?_, ?_⟩, by decide,
    offsetsBounded_of_captures (by decide +kernel), by decide +kernel⟩
  · exact ⟨by decide, List.all_eq_true.mp (by decide +kernel)⟩
  · exact ⟨by decide, List.all_eq_true.mp (by decide +kernel)⟩

end Runs

end Stg
