import Stg.Scc

set_option autoImplicit false

/- The component finder on its own: any calls in which the handles that `Open` returns are
passed to `Close` in last-opened-first-closed order. -/
namespace Stg

inductive Session.Call (ν : Type) where
  | openNode (node : ν)
  | closeNode (ix : Nat)
  deriving DecidableEq, Repr

inductive Session.Answer (ν : Type) where
  | opened (handle : Option Nat)
  | closed (nodes : List ν)
  deriving DecidableEq, Repr

/-- The finder, and the handles that have been returned and not been passed to `closeNode`
yet, the last one first. -/
structure Session (ν : Type) where
  scc : Scc ν := {}
  handles : List Nat := []

namespace Session

variable {ν : Type}

/-- Whether the call keeps to the order of the handles. -/
def allows (self : Session ν) : Call ν → Bool
  | .openNode _ => true
  | .closeNode ix => self.handles.head? = some ix

variable [DecidableEq ν]

def perform (self : Session ν) : Call ν → Except Error (Answer ν × Session ν)
  | .openNode node => do
    let (handle, scc) ← self.scc.openNode node
    return (.opened handle, ⟨scc, handle.toList ++ self.handles⟩)
  | .closeNode ix => do
    let (nodes, scc) ← self.scc.closeNode ix
    return (.closed nodes, ⟨scc, self.handles.erase ix⟩)

def run (self : Session ν) : List (Call ν) → Except Error (Session ν)
  | [] => return self
  | call :: calls => do
    let (_, next) ← self.perform call
    next.run calls

/-- Each of the calls keeps to the order of the handles at its time. -/
def follows (self : Session ν) : List (Call ν) → Bool
  | [] => true
  | call :: calls =>
    self.allows call &&
      match self.perform call with
      | .ok (_, next) => next.follows calls
      | .error _ => true

/-- What is the case between any two calls. -/
structure Sound (session : Session ν) : Prop where
  inverse : ∀ node ix, session.scc.isOpen.lookup node = some ix ↔ session.scc.open_[ix]? = some node
  increasing : session.scc.rootIndex.Pairwise (· < ·)
  first : session.scc.open_ ≠ [] → session.scc.rootIndex.head? = some 0
  inside : ∀ root ∈ session.scc.rootIndex, root < session.scc.open_.length
  settled : session.handles = [] → session.scc.empty

/-- An open node is not opened again, and a handle closes nothing or all from it on. -/
def Answers (self : Session ν) : Call ν → Answer ν → Prop
  | .openNode node, .opened handle =>
    handle = if node ∈ self.scc.open_ then none else some self.scc.open_.length
  | .closeNode ix, .closed nodes => nodes = [] ∨ nodes = self.scc.open_.drop ix
  | _, _ => False

/-- The roots are among the handles, which are nested. -/
structure Nested (session : Session ν) : Prop where
  valid : session.scc.Valid
  descending : session.handles.Pairwise (· > ·)
  inside : ∀ ix ∈ session.handles, ix < session.scc.open_.length
  roots : ∀ root ∈ session.scc.rootIndex, root ∈ session.handles

variable {self : Session ν} {node : ν} {ix : Nat} {rest : List Nat}

theorem Nested.new : Nested ({} : Session ν) where
  valid := .new
  descending := .nil
  inside := List.forall_mem_nil _
  roots := List.forall_mem_nil _

theorem Nested.sound (nested : self.Nested) : self.Sound where
  inverse := nested.valid.indexed
  increasing := nested.valid.stacked.sorted
  first := by
    intro nonempty
    have zero := nested.valid.stacked.first nonempty
    cases roots : self.scc.rootIndex with
    | nil =>
      rw [roots] at zero
      cases zero
    | cons first others =>
      have sorted := nested.valid.stacked.sorted
      rw [roots] at zero sorted
      rcases List.mem_cons.mp zero with rfl | later
      · rfl
      · exact absurd ((List.pairwise_cons.mp sorted).1 0 later) (Nat.not_lt_zero first)
  inside := nested.valid.stacked.inside
  settled := by
    intro closed
    apply nested.valid.empty_iff.mpr
    apply nested.valid.stacked.no_roots.mpr
    apply List.eq_nil_iff_forall_not_mem.mpr
    intro root present
    have among := nested.roots root present
    rw [closed] at among
    cases among

theorem Nested.opened (nested : self.Nested) (node : ν) :
    ∃ answer next, self.perform (.openNode node) = .ok (answer, next) ∧
      self.Answers (.openNode node) answer ∧ next.Nested := by
  by_cases isOpen : node ∈ self.scc.open_
  · obtain ⟨ix, at_⟩ := List.mem_iff_getElem?.mp isOpen
    obtain ⟨reopened, valid⟩ := nested.valid.openNode_open at_
    have answers : self.Answers (.openNode node) (.opened none) := (if_pos isOpen).symm
    refine ⟨.opened none, ⟨{ self.scc with
        rootIndex := self.scc.rootIndex.rdropWhile fun root => decide (ix < root) },
      self.handles⟩, ?_, answers, ?_⟩
    · simp only [perform, reopened]
      rfl
    · refine ⟨valid, nested.descending, nested.inside, fun root present => ?_⟩
      exact nested.roots root ((List.rdropWhile_prefix _ _).subset present)
  · obtain ⟨scc, found, valid, opened, roots⟩ := nested.valid.openNode_fresh isOpen
    have answers : self.Answers (.openNode node) (.opened (some self.scc.open_.length)) :=
      (if_neg isOpen).symm
    refine ⟨_, ⟨scc, self.scc.open_.length :: self.handles⟩, ?_, answers, ?_⟩
    · simp only [perform, found]
      rfl
    · refine ⟨valid, List.pairwise_cons.mpr ⟨nested.inside, nested.descending⟩, ?_, ?_⟩
      · intro ix among
        have grown : scc.open_.length = self.scc.open_.length + 1 := by simp [opened]
        change ix < scc.open_.length
        rcases List.mem_cons.mp among with rfl | before
        · omega
        · have := nested.inside ix before
          omega
      · intro root present
        rw [roots] at present
        rcases List.mem_append.mp present with before | own
        · exact List.mem_cons_of_mem _ (nested.roots root before)
        · rw [List.mem_singleton.mp own]
          exact List.mem_cons_self

/-- The last root is at most the last handle: either it is that handle, or the handle is
no root any more. -/
theorem Nested.closed (nested : self.Nested) (handles : self.handles = ix :: rest) :
    ∃ answer next, self.perform (.closeNode ix) = .ok (answer, next) ∧
      self.Answers (.closeNode ix) answer ∧ next.Nested := by
  have inside : ix < self.scc.open_.length := nested.inside ix (by simp [handles])
  have nonempty : self.scc.open_ ≠ [] := by
    intro none
    rw [none] at inside
    exact absurd inside (Nat.not_lt_zero ix)
  have sorted := nested.valid.stacked.sorted
  have descending := nested.descending
  have among := nested.roots
  rw [handles] at descending among
  obtain ⟨below, descending'⟩ := List.pairwise_cons.mp descending
  have others : self.handles.erase ix = rest := by rw [handles, List.erase_cons_head]
  obtain ⟨root, last⟩ := nested.valid.stacked.last nonempty
  obtain ⟨isRoot, greatest⟩ := PathScc.le_getLast sorted last
  by_cases same : root = ix
  · subst same
    obtain ⟨scc, found, valid, opened, roots⟩ := nested.valid.closeNode_root last
    refine ⟨.closed (self.scc.open_.drop root), ⟨scc, rest⟩, ?_, .inr rfl, ?_⟩
    · simp only [perform, found, others]
      rfl
    · refine ⟨valid, descending', ?_, ?_⟩
      · intro ix earlier
        have lower := below ix earlier
        rw [opened, List.length_take]
        omega
      · intro other present
        rw [roots] at present
        obtain ⟨present, lower⟩ := (PathScc.mem_dropLast sorted last other).mp present
        exact (List.mem_cons.mp (among other present)).resolve_left lower.ne
  · have found := Scc.closeNode_other inside last same
    refine ⟨.closed [], ⟨self.scc, rest⟩, ?_, .inl rfl, ?_⟩
    · simp only [perform, found, others]
      rfl
    · refine ⟨nested.valid, descending', ?_, ?_⟩
      · intro ix earlier
        exact nested.inside ix (by simp [handles, earlier])
      · intro other present
        rcases List.mem_cons.mp (among other present) with rfl | earlier
        · have upper := greatest other present
          rcases List.mem_cons.mp (among root isRoot) with equal | lower
          · exact absurd equal same
          · have := below root lower
            omega
        · exact earlier

theorem Nested.step (nested : self.Nested) {call : Call ν} (allowed : self.allows call = true) :
    ∃ answer next, self.perform call = .ok (answer, next) ∧ self.Answers call answer ∧
      next.Nested := by
  cases call with
  | openNode node => exact nested.opened node
  | closeNode ix =>
    obtain ⟨rest, handles⟩ := List.head?_eq_some_iff.mp (of_decide_eq_true allowed)
    exact nested.closed handles

theorem Nested.run (nested : self.Nested) {calls : List (Call ν)}
    (follows : self.follows calls = true)
    (n : Nat) : ∃ session, self.run (calls.take n) = .ok session ∧ session.Nested ∧
      ∀ call, calls[n]? = some call → session.allows call = true := by
  induction n generalizing self calls with
  | zero =>
    refine ⟨self, rfl, nested, ?_⟩
    intro call next
    cases calls with
    | nil => cases next
    | cons first calls =>
      cases next
      rw [Session.follows, Bool.and_eq_true] at follows
      exact follows.1
  | succ n ih =>
    cases calls with
    | nil => exact ⟨self, rfl, nested, fun _ none => by cases none⟩
    | cons first calls =>
      rw [Session.follows, Bool.and_eq_true] at follows
      obtain ⟨allowed, later⟩ := follows
      obtain ⟨answer, next, performed, _, nested'⟩ := nested.step allowed
      rw [performed] at later
      obtain ⟨session, ran, nested'', last⟩ := ih nested' later
      refine ⟨session, ?_, nested'', last⟩
      rw [List.take_succ_cons, Session.run, performed]
      exact ran

/-- Between any two calls the three containers agree with each other, the next call returns
without an index check that fails or a look at the back of an empty vector, and after the
last handle has been closed the finder is empty. -/
theorem follows_sound {calls : List (Call ν)} (follows : ({} : Session ν).follows calls = true)
    (n : Nat) : ∃ session, ({} : Session ν).run (calls.take n) = .ok session ∧ session.Sound ∧
      ∀ call, calls[n]? = some call → ∃ answer next,
        session.perform call = .ok (answer, next) ∧ session.Answers call answer := by
  obtain ⟨session, ran, nested, allowed⟩ := Nested.new.run follows n
  refine ⟨session, ran, nested.sound, ?_⟩
  intro call next
  obtain ⟨answer, after, performed, answers, _⟩ := nested.step (allowed call next)
  exact ⟨answer, after, performed, answers⟩

/-- Two nodes of a cycle and one that is closed before them. -/
theorem follows_sound_cycle :
    ∃ session, ({} : Session Nat).run [.openNode 7, .openNode 8, .openNode 9, .closeNode 2,
        .openNode 7, .closeNode 1, .closeNode 0] = .ok session ∧ session.Sound ∧
      session.scc.empty := by
  have follows : ({} : Session Nat).follows [.openNode 7, .openNode 8, .openNode 9, .closeNode 2,
      .openNode 7, .closeNode 1, .closeNode 0] = true := by decide +kernel
  obtain ⟨session, ran, sound, _⟩ := follows_sound follows 7
  refine ⟨session, ran, sound, sound.settled ?_⟩
  have handles : (({} : Session Nat).run [.openNode 7, .openNode 8, .openNode 9, .closeNode 2,
      .openNode 7, .closeNode 1, .closeNode 0]).map (·.handles) = .ok [] := by decide +kernel
  have given := congrArg (Except.map (·.handles)) ran
  exact Except.ok.inj (given.symm.trans handles)

end Session

end Stg
