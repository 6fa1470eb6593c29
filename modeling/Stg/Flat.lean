import Stg.Named
import Stg.Lags
import Stg.DiffGraph
import Stg.Lib.Reach

set_option autoImplicit false

/- What the flat printer does: it prints a comparison with everything that can be reached
from it before the next comparison that holds changes, and queues those. -/
namespace Stg

open Relation (ReflTransGen TransGen)

/-- The comparison is of a node that was removed or added. -/
def OneSided (c : Comparison) : Prop := c.1 = none ∨ c.2 = none

/-- The comparison is of set nodes, at least one. -/
inductive Graph.Compares (graph : Graph) : Comparison → Prop where
  | removed {id1 : Id} : graph.Is id1 → graph.Compares (some id1, none)
  | added {id2 : Id} : graph.Is id2 → graph.Compares (none, some id2)
  | both {id1 id2 : Id} : graph.Is id1 → graph.Is id2 → graph.Compares (some id1, some id2)

namespace Outcomes

variable (outcomes : Outcomes)

def details (c : Comparison) : List DiffDetail := (outcomes.lookup c).elim [] (·.details)

def Edge (c d : Comparison) : Prop := ∃ diff, outcomes.lookup c = some diff ∧ d ∈ diff.edges

/-- The comparison can itself hold changes, and so has a section of its own. -/
def Holder (c : Comparison) : Prop := ∃ diff, outcomes.lookup c = some diff ∧ diff.holdsChanges = true

/-- The comparison is of one node only or has changes of its own. -/
def Changed (c : Comparison) : Prop :=
  OneSided c ∨ ∃ diff, outcomes.lookup c = some diff ∧ diff.hasChanges = true

/-- The edges that printing follows. -/
def Inner (c d : Comparison) : Prop := outcomes.Edge c d ∧ ¬ outcomes.Holder d

/-- A change can be reached without passing another comparison that holds changes. -/
def Leads (c : Comparison) : Prop := ∃ d, ReflTransGen outcomes.Inner c d ∧ outcomes.Changed d

/-- The edges that neither begin nor end at a comparison that holds changes. -/
def Through (c d : Comparison) : Prop := outcomes.Inner c d ∧ ¬ outcomes.Holder c

/-- Every cycle passes a comparison that holds changes. -/
def CyclesHold : Prop := ∀ c, ¬ TransGen outcomes.Through c c

/-- What the printers rely on. -/
structure Sound (graph : Graph) : Prop where
  closed : outcomes.Closed
  sided : ∀ c diff, OneSided c → outcomes.lookup c = some diff → diff = {}
  compares : ∀ c, outcomes.lookup c ≠ none → graph.Compares c

end Outcomes

/-- What `PrintComparison` may write about a comparison. -/
def Written (graph : Graph) (c : Comparison) (content : String) : Prop :=
  ∃ fuel names oneSided names',
    (printComparison graph fuel c).run names = .ok ((oneSided, content), names')

def changeLines (c : Comparison) (indent : Nat) (details : List DiffDetail) : List Piece :=
  (details.filter (·.edge.isNone)).map (changeLine c indent)

/-- The pieces have the line of the comparison and below it the lines of its own changes. -/
def Described (graph : Graph) (outcomes : Outcomes) (pieces : List Piece) (c : Comparison) : Prop :=
  ∃ content indent, Written graph c content ∧
    List.Sublist (.comparison c content :: changeLines c indent (outcomes.details c)) pieces

variable {graph : Graph} {outcomes : Outcomes} {fuel : Nat} {c d : Comparison}

section Entries

namespace Outcomes

theorem details_eq {diff : Diff} (held : outcomes.lookup c = some diff) :
    outcomes.details c = diff.details := by
  rw [details, held]
  rfl

theorem holder_eq {diff : Diff} (held : outcomes.lookup c = some diff) :
    outcomes.Holder c ↔ diff.holdsChanges = true := by
  simp only [Holder, held, Option.some.injEq, exists_eq_left']

theorem edge_iff : outcomes.Edge c d ↔ d ∈ (outcomes.details c).filterMap (·.edge) := by
  unfold Edge details
  cases held : outcomes.lookup c with
  | none => simp
  | some diff => simp [Diff.edges]

theorem Edge.present (edge : outcomes.Edge c d) : outcomes.lookup c ≠ none := by
  obtain ⟨diff, held, _⟩ := edge
  simp [held]

theorem Closed.present (closed : outcomes.Closed) (edge : outcomes.Edge c d) :
    outcomes.lookup d ≠ none := by
  obtain ⟨diff, held, among⟩ := edge
  obtain ⟨detail, isDetail, leads⟩ := mem_edges.mp among
  exact closed c diff held detail isDetail d leads

theorem mem_keys_of_present (present : outcomes.lookup c ≠ none) : c ∈ outcomes.keys.toFinset := by
  rw [List.mem_toFinset]
  exact AList.mem_keys.mp (AList.lookup_isSome.mp (Option.isSome_iff_ne_none.mpr present))

theorem Sound.details_oneSided (sound : outcomes.Sound graph) (oneSided : OneSided c) :
    outcomes.details c = [] := by
  cases held : outcomes.lookup c with
  | none => rw [details, held]; rfl
  | some diff => rw [details_eq held, sound.sided c diff oneSided held]

theorem Sound.isolated (sound : outcomes.Sound graph) (oneSided : OneSided c) :
    ¬ outcomes.Edge c d := by
  rw [edge_iff, sound.details_oneSided oneSided]
  exact List.not_mem_nil

theorem Sound.not_holder (sound : outcomes.Sound graph) (oneSided : OneSided c) :
    ¬ outcomes.Holder c := by
  rintro ⟨diff, held, holds⟩
  rw [sound.sided c diff oneSided held] at holds
  cases holds

end Outcomes

end Entries

section Comparisons

theorem Written.ne_empty {content : String} (written : Written graph c content) : content ≠ "" := by
  obtain ⟨fuel, names, oneSided, names', ran⟩ := written
  rcases c with ⟨_ | id1, _ | id2⟩
  · cases ran
  · obtain ⟨_, _, rest1⟩ := bind_eq_ok ran
    obtain ⟨_, _, rest2⟩ := bind_eq_ok rest1
    cases rest2
    simp
  · obtain ⟨_, _, rest1⟩ := bind_eq_ok ran
    obtain ⟨_, _, rest2⟩ := bind_eq_ok rest1
    cases rest2
    simp
  · obtain ⟨_, _, rest1⟩ := bind_eq_ok ran
    obtain ⟨_, _, rest2⟩ := bind_eq_ok rest1
    obtain ⟨_, _, rest3⟩ := bind_eq_ok rest2
    cases rest3
    simp

theorem printComparison_oneSided {out : Bool × String} {names names' : NameCache}
    (ran : (printComparison graph fuel c).run names = .ok (out, names')) :
    out.1 = true ↔ OneSided c := by
  rcases c with ⟨_ | id1, _ | id2⟩
  · cases ran
  · obtain ⟨_, _, rest1⟩ := bind_eq_ok ran
    obtain ⟨_, _, rest2⟩ := bind_eq_ok rest1
    cases rest2
    simp [OneSided]
  · obtain ⟨_, _, rest1⟩ := bind_eq_ok ran
    obtain ⟨_, _, rest2⟩ := bind_eq_ok rest1
    cases rest2
    simp [OneSided]
  · obtain ⟨_, _, rest1⟩ := bind_eq_ok ran
    obtain ⟨_, _, rest2⟩ := bind_eq_ok rest1
    obtain ⟨_, _, rest3⟩ := bind_eq_ok rest2
    cases rest3
    simp [OneSided]

/-- The nodes that a comparison is described by, past their typedefs where there are two, are
as required. -/
inductive Graph.Shows (graph : Graph) (fuel : Nat) (inside : Id → Prop) : Comparison → Prop where
  | removed {id1 : Id} : inside id1 → graph.Shows fuel inside (some id1, none)
  | added {id2 : Id} : inside id2 → graph.Shows fuel inside (none, some id2)
  | both {id1 id2 : Id} {out1 out2 : Id × List String} :
    resolveTypedefs graph fuel id1 [] = .ok out1 → inside out1.1 →
    resolveTypedefs graph fuel id2 [] = .ok out2 → inside out2.1 →
    graph.Shows fuel inside (some id1, some id2)

variable {inside : Id → Prop}

theorem getResolvedDescription_named (named : ∀ id, inside id →
      Named graph (fun _ => False) (getDescription graph fuel id) (graph.Fits id)) {id : Id}
    {out : Id × List String} (walked : resolveTypedefs graph fuel id [] = .ok out)
    (within : inside out.1) :
    Named graph (fun _ => False) (getResolvedDescription graph fuel id) fun _ => True := by
  obtain ⟨resolved, typedefs⟩ := out
  obtain ⟨node, got, _⟩ := resolveTypedefs_end walked
  have walks : Named graph (fun _ => False) (ofExcept (resolveTypedefs graph fuel id []))
      (· = (resolved, typedefs)) := Named.ofExcept walked rfl
  refine Named.bind walks ?_
  rintro _ rfl
  refine Named.bind (named resolved within) fun _ _ => ?_
  have looked : Named graph (fun _ => False) (ofExcept (graph.get resolved)) fun _ => True :=
    Named.ofExcept got trivial
  exact Named.bind looked fun _ _ => Named.pure trivial

theorem printComparison_named (set : ∀ id, inside id → graph.Is id) (named : ∀ id, inside id →
      Named graph (fun _ => False) (getDescription graph fuel id) (graph.Fits id))
    (shows : graph.Shows fuel inside c) :
    Named graph (fun _ => False) (printComparison graph fuel c) fun _ => True := by
  have looks : ∀ id, graph.Is id →
      Named graph (fun _ => False) (ofExcept (graph.get id)) fun _ => True := by
    rintro id ⟨node, got⟩
    exact Named.ofExcept got trivial
  cases shows with
  | removed within1 =>
    refine Named.bind (looks _ (set _ within1)) fun _ _ =>
      Named.bind (named _ within1) fun _ _ => ?_
    exact Named.pure trivial
  | added within2 =>
    refine Named.bind (looks _ (set _ within2)) fun _ _ =>
      Named.bind (named _ within2) fun _ _ => ?_
    exact Named.pure trivial
  | both walked1 within1 walked2 within2 =>
    refine Named.bind (looks _ (resolveTypedefs_start walked1)) fun _ _ => ?_
    refine Named.bind (getResolvedDescription_named named walked1 within1) fun _ _ => ?_
    refine Named.bind (getResolvedDescription_named named walked2 within2) fun _ _ => ?_
    exact Named.pure trivial

/-- The fuel is enough to describe all comparisons of the outcomes. -/
def Outcomes.NamedWithin (outcomes : Outcomes) (graph : Graph) (fuel : Nat) : Prop :=
  ∀ c, outcomes.lookup c ≠ none → Named graph (fun _ => False) (printComparison graph fuel c)
    fun out => (out.1 = true ↔ OneSided c) ∧ Written graph c out.2

/-- There is fuel to describe all comparisons of the outcomes. -/
def Outcomes.Nameable (outcomes : Outcomes) (graph : Graph) : Prop :=
  ∃ enough, ∀ fuel, enough ≤ fuel → outcomes.NamedWithin graph fuel

theorem Outcomes.nameable_of_shows (set : ∀ id, inside id → graph.Is id) {enough : Nat}
    (named : ∀ fuel, enough ≤ fuel → ∀ id, inside id →
      Named graph (fun _ => False) (getDescription graph fuel id) (graph.Fits id))
    (shows : ∀ fuel, enough ≤ fuel → ∀ c, outcomes.lookup c ≠ none → graph.Shows fuel inside c) :
    outcomes.Nameable graph := by
  refine ⟨enough, fun fuel more c present names sound known => ?_⟩
  obtain ⟨out, names', ran, sound', keeps, _⟩ :=
    printComparison_named set (named fuel more) (shows fuel more c present) names sound known
  exact ⟨out, names', ran, sound', keeps, printComparison_oneSided ran, fuel, names, out.1,
    names', ran⟩

/-- Where all nodes of the graph can be named the comparisons can be described. -/
theorem Outcomes.Sound.nameable (sound : outcomes.Sound graph) (nameable : graph.Nameable) :
    outcomes.Nameable graph := by
  obtain ⟨enough, names⟩ := nameable.within
  refine Outcomes.nameable_of_shows (fun _ set => set) (fun fuel more => (names fuel more).2)
    fun fuel more c present => ?_
  obtain ⟨_, typedefs, _⟩ := (names fuel more).1
  cases sound.compares c present with
  | removed set1 => exact .removed set1
  | added set2 => exact .added set2
  | both set1 set2 =>
    obtain ⟨out1, walked1⟩ := typedefs _ set1
    obtain ⟨out2, walked2⟩ := typedefs _ set2
    obtain ⟨node1, got1, _⟩ := resolveTypedefs_end walked1
    obtain ⟨node2, got2, _⟩ := resolveTypedefs_end walked2
    exact .both walked1 ⟨node1, got1⟩ walked2 ⟨node2, got2⟩

end Comparisons

section Calls

variable {σ α β : Type} {ample : Prop} {state : σ}

/-- From any sound cache the call returns, with a value and a state that are as required,
and leaves a sound cache; or it runs out of fuel, which it does not if that is ample. -/
def Does (graph : Graph) (ample : Prop) (call : StateT σ NameM α) (state : σ)
    (post : α → σ → Prop) : Prop :=
  ∀ names : NameCache, names.Sound graph →
    (∃ value state' names', (call.run state).run names = .ok ((value, state'), names') ∧
      NameCache.Sound graph names' ∧ post value state') ∨
    ¬ ample ∧ (call.run state).run names = .error .outOfFuel

theorem Does.returns {call : StateT σ NameM α} {post : α → σ → Prop}
    (does : Does graph True call state post) {names : NameCache} (sound : names.Sound graph) :
    ∃ value state' names', (call.run state).run names = .ok ((value, state'), names') ∧
      NameCache.Sound graph names' ∧ post value state' :=
  (does names sound).resolve_right fun spent => spent.1 trivial

theorem Does.spent {post : α → σ → Prop} (scarce : ¬ ample) :
    Does graph ample (throw .outOfFuel : StateT σ NameM α) state post :=
  fun _ _ => .inr ⟨scarce, rfl⟩

theorem Does.pure {post : α → σ → Prop} {value : α} (holds : post value state) :
    Does graph ample (Pure.pure value) state post :=
  fun names sound => .inl ⟨value, state, names, rfl, sound, holds⟩

theorem Does.bind {call : StateT σ NameM α} {rest : α → StateT σ NameM β} {middle : α → σ → Prop}
    {post : β → σ → Prop} (first : Does graph ample call state middle)
    (second : ∀ value state', middle value state' → Does graph ample (rest value) state' post) :
    Does graph ample (call >>= rest) state post := by
  intro names sound
  rw [StateT.run_bind, StateT.run_bind]
  rcases first names sound with ⟨value, state', names', ran, sound', holds⟩ | ⟨scarce, ran⟩
  · rw [ran]
    exact second value state' holds names' sound'
  · rw [ran]
    exact .inr ⟨scarce, rfl⟩

theorem Does.imp {call : StateT σ NameM α} {post weaker : α → σ → Prop}
    (does : Does graph ample call state post)
    (each : ∀ value state', post value state' → weaker value state') :
    Does graph ample call state weaker := by
  intro names sound
  rcases does names sound with ⟨value, state', names', ran, sound', holds⟩ | spent
  · exact .inl ⟨value, state', names', ran, sound', each value state' holds⟩
  · exact .inr spent

/-- A call for a name, which may run out of fuel where one with more fuel does not. -/
theorem Does.named {call full : NameM α} {property : α → Prop} (lags : NameM.Lags call full)
    (named : Named graph (fun _ => False) full property) (same : ample → call = full) :
    Does graph ample (liftM call : StateT σ NameM α) state
      fun value state' => state' = state ∧ property value := by
  intro names sound
  obtain ⟨value, names', ran, sound', _, holds⟩ := named names sound nofun
  have returned : call.run names = full.run names →
      ((liftM call : StateT σ NameM α).run state).run names = .ok ((value, state), names') := by
    intro agrees
    change (call >>= fun value => Pure.pure (value, state)).run names = _
    rw [StateT.run_bind, agrees, ran]
    rfl
  by_cases isAmple : ample
  · exact .inl ⟨value, state, names', returned (by rw [same isAmple]), sound', rfl, holds⟩
  · rcases lags names with spent | agrees
    · right
      refine ⟨isAmple, ?_⟩
      change (call >>= fun value => Pure.pure (value, state)).run names = _
      rw [StateT.run_bind, spent]
      rfl
    · exact .inl ⟨value, state, names', returned agrees, sound', rfl, holds⟩

theorem Does.get : Does graph ample (get : StateT σ NameM σ) state
    fun value state' => value = state ∧ state' = state :=
  fun names sound => .inl ⟨state, state, names, rfl, sound, rfl, rfl⟩

theorem Does.modify {f : σ → σ} {post : PUnit → σ → Prop} (holds : post ⟨⟩ (f state)) :
    Does graph ample (modify f : StateT σ NameM PUnit) state post :=
  fun names sound => .inl ⟨⟨⟩, f state, names, rfl, sound, holds⟩

/-- Where the fuel is ample for all names, the comparison is described. -/
theorem printComparison_does {enough : Nat}
    (names : ∀ fuel, enough ≤ fuel → outcomes.NamedWithin graph fuel)
    (within : ample → enough ≤ fuel) (present : outcomes.lookup c ≠ none) :
    Does graph ample (liftM (printComparison graph fuel c) : StateT σ NameM _) state
      fun out state' => state' = state ∧ (out.1 = true ↔ OneSided c) ∧ Written graph c out.2 := by
  by_cases isAmple : ample
  · exact Does.named (NameM.Lags.refl _) (names fuel (within isAmple) c present) fun _ => rfl
  · have more : fuel ≤ fuel + enough := Nat.le_add_right _ _
    exact Does.named (printComparison_lags more c) (names _ (Nat.le_add_left _ _) c present)
      fun holds => absurd holds isAmple

end Calls

section Queues

/-- The queue has got further comparisons that hold changes, each for the first time. -/
def Queue.Extends (outcomes : Outcomes) (queue queue' : Queue) : Prop :=
  ∃ new, queue'.seen = queue.seen ++ new ∧ queue'.todo = queue.todo ++ new ∧
    (queue.seen.Nodup → queue'.seen.Nodup) ∧ ∀ d ∈ new, outcomes.Holder d

variable {queue queue' queue'' : Queue}

theorem Queue.Extends.refl : queue.Extends outcomes queue :=
  ⟨[], by simp, by simp, id, nofun⟩

theorem Queue.Extends.trans (first : queue.Extends outcomes queue')
    (second : queue'.Extends outcomes queue'') : queue.Extends outcomes queue'' := by
  obtain ⟨new, seen, todo, nodup, holders⟩ := first
  obtain ⟨new', seen', todo', nodup', holders'⟩ := second
  refine ⟨new ++ new', ?_, ?_, nodup' ∘ nodup, List.forall_mem_append.mpr ⟨holders, holders'⟩⟩
  · rw [seen', seen, List.append_assoc]
  · rw [todo', todo, List.append_assoc]

theorem Queue.Extends.mem (extends_ : queue.Extends outcomes queue') (present : d ∈ queue.seen) :
    d ∈ queue'.seen := by
  obtain ⟨new, seen, _⟩ := extends_
  rw [seen]
  exact List.mem_append_left _ present

theorem Queue.push_extends (queue : Queue) (holder : outcomes.Holder c) :
    queue.Extends outcomes (queue.push c) ∧ c ∈ (queue.push c).seen := by
  unfold Queue.push
  split
  · rename_i present
    exact ⟨.refl, present⟩
  · rename_i absent
    refine ⟨⟨[c], rfl, rfl, fun nodup => ?_, by simpa using holder⟩, by simp⟩
    exact List.nodup_append.mpr ⟨nodup, List.nodup_singleton c, by
      rintro a present _ among rfl
      exact absent (List.mem_singleton.mp among ▸ present)⟩

end Queues

section Specification

variable (graph outcomes) (full : Bool)

/-- A comparison that was printed with what can be reached before the next comparison that
holds changes. -/
structure Printed (c : Comparison) (queue : Queue) (out : Bool × List Piece) (queue' : Queue) :
    Prop where
  interesting : out.1 = true ↔ outcomes.Leads c
  extends_ : queue.Extends outcomes queue'
  border : ∀ d e, ReflTransGen outcomes.Inner c d → outcomes.Edge d e → outcomes.Holder e →
    e ∈ queue'.seen
  described : ∀ d, ReflTransGen outcomes.Inner c d → full = true ∨ outcomes.Changed d →
    Described graph outcomes out.2 d
  lines : ∀ d content, .comparison d content ∈ out.2 → d = c ∨ full = true ∨ outcomes.Leads d
  ends : Acc (fun b a => outcomes.Inner a b) c

/-- What a call of `FlatPrint` does: it queues the comparison or prints it. -/
inductive Visit (c : Comparison) (stop : Bool) (queue : Queue) (out : Bool × List Piece)
    (queue' : Queue) : Prop where
  | queued : outcomes.Holder c → stop = true → out.1 = false → queue.Extends outcomes queue' →
    c ∈ queue'.seen → Visit c stop queue out queue'
  | printed : (outcomes.Holder c → stop = false) → Printed graph outcomes full c queue out queue' →
    Visit c stop queue out queue'

/-- What visiting the edges one after the other does. -/
structure Covers (edges : List Comparison) (pieces : List Piece) (queue' : Queue) : Prop where
  holders : ∀ e ∈ edges, outcomes.Holder e → e ∈ queue'.seen
  border : ∀ e ∈ edges, ¬ outcomes.Holder e → ∀ d f, ReflTransGen outcomes.Inner e d →
    outcomes.Edge d f → outcomes.Holder f → f ∈ queue'.seen
  described : ∀ e ∈ edges, ¬ outcomes.Holder e → ∀ d, ReflTransGen outcomes.Inner e d →
    full = true ∨ outcomes.Changed d → Described graph outcomes pieces d
  lines : ∀ d content, .comparison d content ∈ pieces → full = true ∨ outcomes.Leads d
  ends : ∀ e ∈ edges, ¬ outcomes.Holder e → Acc (fun b a => outcomes.Inner a b) e

end Specification

/-- What was printed is kept if it is interesting or all is, and otherwise no line of it is. -/
structure Emits (full : Bool) (out : Bool × List Piece) (pieces : List Piece) : Prop where
  kept : out.1 = true ∨ full = true → List.Sublist out.2 pieces
  lines : ∀ d content, .comparison d content ∈ pieces →
    (out.1 = true ∨ full = true) ∧ .comparison d content ∈ out.2

section Loops

variable {queue queue' queue'' : Queue} {pieces more : List Piece} {edges : List Comparison}
  {full : Bool} {ample : Prop} {out : Bool × List Piece}

theorem Described.mono (described : Described graph outcomes pieces d)
    (sub : List.Sublist pieces more) : Described graph outcomes more d := by
  obtain ⟨content, indent, written, among⟩ := described
  exact ⟨content, indent, written, among.trans sub⟩

/-- Whoever has to be described makes what is printed interesting, if not all is kept. -/
theorem Printed.keeps (printed : Printed graph outcomes full c queue out queue')
    (path : ReflTransGen outcomes.Inner c d) (changed : full = true ∨ outcomes.Changed d) :
    out.1 = true ∨ full = true := by
  rcases changed with all | changed
  · exact .inr all
  · exact .inl (printed.interesting.mpr ⟨d, path, changed⟩)

theorem Covers.nil : Covers graph outcomes full [] [] queue where
  holders := nofun
  border := nofun
  described := nofun
  lines := nofun
  ends := nofun

/-- A piece that is not the line of a comparison may be added. -/
theorem Covers.piece {piece : Piece} (covers : Covers graph outcomes full edges pieces queue)
    (other : ∀ d content, piece ≠ .comparison d content) :
    Covers graph outcomes full edges (piece :: pieces) queue where
  holders := covers.holders
  border := covers.border
  described e among inner d path changed :=
    (covers.described e among inner d path changed).mono (List.sublist_cons_self _ _)
  lines d content present := by
    rcases List.mem_cons.mp present with same | present
    · exact absurd same.symm (other d content)
    · exact covers.lines d content present
  ends := covers.ends

theorem Covers.cons (visit : Visit graph outcomes full c true queue out queue')
    (emits : Emits full out pieces) (extends_ : queue'.Extends outcomes queue'')
    (covers : Covers graph outcomes full edges more queue'') :
    Covers graph outcomes full (c :: edges) (pieces ++ more) queue'' where
  holders e among holder := by
    rcases List.mem_cons.mp among with rfl | among
    · cases visit with
      | queued _ _ _ _ present => exact extends_.mem present
      | printed cut _ => cases cut holder
    · exact covers.holders e among holder
  border e among inner d f path edge holder := by
    rcases List.mem_cons.mp among with rfl | among
    · cases visit with
      | queued isHolder => exact absurd isHolder inner
      | printed _ printed => exact extends_.mem (printed.border d f path edge holder)
    · exact covers.border e among inner d f path edge holder
  described e among inner d path changed := by
    rcases List.mem_cons.mp among with rfl | among
    · cases visit with
      | queued isHolder => exact absurd isHolder inner
      | printed _ printed =>
        have kept := emits.kept (printed.keeps path changed)
        exact (printed.described d path changed).mono (kept.trans (List.sublist_append_left _ _))
    · exact (covers.described e among inner d path changed).mono (List.sublist_append_right _ _)
  lines d content present := by
    rcases List.mem_append.mp present with present | present
    · obtain ⟨interesting | full, among⟩ := emits.lines d content present
      · cases visit with
        | queued _ _ dull => simp [dull] at interesting
        | printed _ printed =>
          rcases printed.lines d content among with rfl | leads
          · exact .inr (printed.interesting.mp interesting)
          · exact leads
      · exact .inl full
    · exact covers.lines d content present
  ends e among inner := by
    rcases List.mem_cons.mp among with rfl | among
    · cases visit with
      | queued isHolder => exact absurd isHolder inner
      | printed _ printed => exact printed.ends
    · exact covers.ends e among inner

theorem Visit.extends_ {stop : Bool} (visit : Visit graph outcomes full c stop queue out queue') :
    queue.Extends outcomes queue' := by
  cases visit with
  | queued _ _ _ extends_ => exact extends_
  | printed _ printed => exact printed.extends_

theorem Visit.interesting (visit : Visit graph outcomes full c true queue out queue') :
    out.1 = true ↔ ¬ outcomes.Holder c ∧ outcomes.Leads c := by
  cases visit with
  | queued holder _ dull => simp [dull, holder]
  | printed cut printed =>
    have inner : ¬ outcomes.Holder c := fun holder => by cases cut holder
    rw [printed.interesting, and_iff_right inner]

/-- The loop over the details of a comparison visits all edges and writes all changes. -/
theorem flatDetails_does {print : Comparison → FlatM (Bool × List Piece)} {indent : Nat}
    {details : List DiffDetail}
    (prints : ∀ e ∈ details.filterMap (·.edge), ∀ queue,
      Does graph ample (print e) queue (Visit graph outcomes full e true queue))
    (state : Bool × List Piece) (queue : Queue) :
    Does graph ample (details.foldlM (flatDetails print full c indent) state)
      queue fun out queue' =>
      queue.Extends outcomes queue' ∧
      (out.1 = true ↔ state.1 = true ∨
        ∃ e ∈ details.filterMap (·.edge), ¬ outcomes.Holder e ∧ outcomes.Leads e) ∧
      ∃ own, out.2 = state.2 ++ own ∧
        Covers graph outcomes full (details.filterMap (·.edge)) own queue' ∧
        List.Sublist (changeLines c indent details) own := by
  induction details generalizing state queue with
  | nil => exact Does.pure ⟨.refl, by simp, [], by simp, .nil, by simp [changeLines]⟩
  | cons detail details ih =>
    rw [List.foldlM_cons]
    cases held : detail.edge with
    | none =>
      have own : flatDetails print full c indent state detail =
          pure (state.1, state.2 ++ [changeLine c indent detail]) := by
        rw [flatDetails, held]
      rw [own, pure_bind]
      rw [List.filterMap_cons_none held] at prints ⊢
      refine (ih prints _ queue).imp fun out queue' post => ?_
      obtain ⟨extends_, interesting, own, text, covers, lines⟩ := post
      refine ⟨extends_, interesting, changeLine c indent detail :: own, ?_, covers.piece nofun, ?_⟩
      · rw [text, List.append_assoc]
        rfl
      · simpa [changeLines, held] using lines
    | some edge =>
      have own : flatDetails print full c indent state detail = print edge >>= fun sub =>
          pure (state.1 || sub.1, if sub.1 || full then
            state.2 ++ edgeText indent detail.text :: sub.2 else state.2) := by
        simp only [flatDetails, held]
      rw [own, bind_assoc]
      rw [List.filterMap_cons_some held] at prints ⊢
      refine Does.bind (prints edge (by simp) queue) fun sub queue₁ visit => ?_
      rw [pure_bind]
      have rest := ih (fun e among => prints e (by simp [among])) (state.1 || sub.1,
        if sub.1 || full then state.2 ++ edgeText indent detail.text :: sub.2 else state.2) queue₁
      refine rest.imp fun out queue' post => ?_
      obtain ⟨extends_, interesting, own, text, covers, lines⟩ := post
      let emitted := if sub.1 || full then edgeText indent detail.text :: sub.2 else []
      have emits : Emits full sub emitted := by
        refine ⟨fun kept => ?_, fun d content present => ?_⟩
        · rw [← Bool.or_eq_true] at kept
          simp only [emitted, if_pos kept]
          exact List.sublist_cons_self _ _
        · rw [← Bool.or_eq_true]
          by_cases kept : (sub.1 || full) = true
          · simp only [emitted, if_pos kept, List.mem_cons] at present
            exact ⟨kept, present.resolve_left nofun⟩
          · simp only [emitted, if_neg kept, List.not_mem_nil] at present
      refine ⟨visit.extends_.trans extends_, ?_, emitted ++ own, ?_,
        covers.cons visit emits extends_, ?_⟩
      · simp only [interesting, Bool.or_eq_true, visit.interesting, List.mem_cons, exists_eq_or_imp,
          or_assoc]
      · rw [text]
        by_cases kept : (sub.1 || full) = true <;> simp [emitted, kept]
      · have sub : List.Sublist (changeLines c indent details) (emitted ++ own) :=
          lines.trans (List.sublist_append_right _ _)
        simpa [changeLines, held] using sub

theorem emits_makeSection (full : Bool) (c : Comparison) :
    Emits full out (makeSection full c out).pieces where
  kept interesting := by
    rw [← Bool.or_eq_true] at interesting
    simp only [makeSection, interesting, if_true]
    exact List.sublist_append_left _ _
  lines d content present := by
    rw [← Bool.or_eq_true]
    cases interesting : out.1 || full with
    | false => simp [makeSection, interesting] at present
    | true => exact ⟨rfl, by simpa [makeSection, interesting] using present⟩

theorem flatRoots_does {print : Comparison → FlatM (Bool × List Piece)}
    {details : List DiffDetail} (rooted : ∀ detail ∈ details, detail.edge ≠ none)
    (prints : ∀ e ∈ details.filterMap (·.edge), ∀ queue,
      Does graph ample (print e) queue (Visit graph outcomes full e true queue)) (queue : Queue) :
    Does graph ample (flatRoots print full details) queue fun roots queue' =>
      queue.Extends outcomes queue' ∧ Covers graph outcomes full (details.filterMap (·.edge))
        (roots.flatMap Section.pieces) queue' := by
  induction details generalizing queue with
  | nil => exact Does.pure ⟨.refl, .nil⟩
  | cons detail details ih =>
    obtain ⟨edge, held⟩ := Option.ne_none_iff_exists'.mp (rooted detail (by simp))
    rw [flatRoots, held, deref, pure_bind]
    rw [List.filterMap_cons_some held] at prints ⊢
    refine Does.bind (prints edge (by simp) queue) fun out queue₁ visit => ?_
    have rest := ih (fun detail among => rooted detail (by simp [among]))
      (fun e among => prints e (by simp [among])) queue₁
    refine Does.bind rest fun roots queue' post => Does.pure ?_
    exact ⟨visit.extends_.trans post.1, post.2.cons visit (emits_makeSection full edge) post.1⟩

end Loops

section Print

variable {queue : Queue} {full : Bool} {ample : Prop}

/-- Comparisons of one node are printed alone. -/
theorem printed_oneSided (sound : outcomes.Sound graph) (oneSided : OneSided c) {content : String}
    (written : Written graph c content) :
    Printed graph outcomes full c queue (true, [.comparison c content]) queue := by
  have alone : ∀ d, ReflTransGen outcomes.Inner c d → d = c := by
    intro d path
    rcases path.cases_head with same | ⟨e, inner, _⟩
    · exact same.symm
    · exact absurd inner.1 (sound.isolated oneSided)
  refine ⟨?_, .refl, fun d e path edge => ?_, fun d path _ => ?_, fun d other present => ?_,
    Acc.intro c fun d inner => absurd inner.1 (sound.isolated oneSided)⟩
  · exact iff_of_true rfl ⟨c, .refl, .inl oneSided⟩
  · rw [alone d path] at edge
    exact absurd edge (sound.isolated oneSided)
  · rw [alone d path]
    have none_ := sound.details_oneSided oneSided
    exact ⟨content, 0, written, by simp [none_, changeLines]⟩
  · left
    simp only [List.mem_singleton, Piece.comparison.injEq] at present
    exact present.1

/-- Printing a comparison of two nodes is writing its line and visiting its edges. -/
theorem printed_of_covers {diff : Diff} {content : String} {indent : Nat} {out : Bool × List Piece}
    {own : List Piece} {queue' : Queue} (held : outcomes.lookup c = some diff)
    (twoSided : ¬ OneSided c) (written : Written graph c content)
    (extends_ : queue.Extends outcomes queue')
    (interesting : out.1 = true ↔ diff.hasChanges = true ∨
      ∃ e ∈ diff.edges, ¬ outcomes.Holder e ∧ outcomes.Leads e)
    (text : out.2 = [.comparison c content, .text "\n"] ++ own)
    (covers : Covers graph outcomes full diff.edges own queue')
    (lines : List.Sublist (changeLines c indent diff.details) own) :
    Printed graph outcomes full c queue out queue' := by
  have edges : ∀ d, outcomes.Edge c d ↔ d ∈ diff.edges := by
    intro d
    constructor
    · rintro ⟨diff', held', among⟩
      cases held.symm.trans held'
      exact among
    · exact fun among => ⟨diff, held, among⟩
  have changed : outcomes.Changed c ↔ diff.hasChanges = true := by
    simp only [Outcomes.Changed, twoSided, false_or, held, Option.some.injEq, exists_eq_left']
  refine ⟨?_, extends_, fun d e path edge holder => ?_, fun d path isChanged => ?_,
    fun d other present => ?_,
    Acc.intro c fun e inner => covers.ends e ((edges e).mp inner.1) inner.2⟩
  · rw [interesting, ← changed]
    constructor
    · rintro (isChanged | ⟨e, among, inner, d, path, isChanged⟩)
      · exact ⟨c, .refl, isChanged⟩
      · exact ⟨d, .head ⟨(edges e).mpr among, inner⟩ path, isChanged⟩
    · rintro ⟨d, path, isChanged⟩
      rcases path.cases_head with rfl | ⟨e, step, rest⟩
      · exact .inl isChanged
      · exact .inr ⟨e, (edges e).mp step.1, step.2, d, rest, isChanged⟩
  · rcases path.cases_head with rfl | ⟨f, step, rest⟩
    · exact covers.holders e ((edges e).mp edge) holder
    · exact covers.border f ((edges f).mp step.1) step.2 d e rest edge holder
  · rw [text]
    rcases path.cases_head with rfl | ⟨f, step, rest⟩
    · have details := Outcomes.details_eq held
      refine ⟨content, indent, written, ?_⟩
      rw [details]
      exact List.Sublist.cons_cons _ (lines.trans (List.sublist_cons_self _ _))
    · exact (covers.described f ((edges f).mp step.1) step.2 d rest isChanged).mono
        (List.sublist_append_right _ _)
  · rw [text] at present
    rcases List.mem_append.mp present with present | present
    · have same : d = c ∧ other = content := by simpa using present
      exact .inl same.1
    · exact .inr (covers.lines d other present)

variable {rank : Comparison → Nat} {bound enough : Nat}

/-- `FlatPrint` is called on appropriate nodes only; and with fuel for naming and for the
comparisons up to the next ones that hold changes, it returns. -/
theorem flatPrint_does (sound : outcomes.Sound graph)
    (names : ∀ fuel, enough ≤ fuel → outcomes.NamedWithin graph fuel)
    (falls : ample → ∀ c d, outcomes.Through c d → rank d < rank c) (bounded : ∀ c, rank c ≤ bound)
    (present : outcomes.lookup c ≠ none) (stop : Bool) (passing : ¬ outcomes.Holder c → stop = true)
    (room : Nat) (plenty : ample → enough + room < fuel ∧
      (outcomes.Holder c → stop = false → bound + 1 < room) ∧ (¬ outcomes.Holder c → rank c < room))
    (indent : Nat) (queue : Queue) :
    Does graph ample (flatPrint graph outcomes full fuel c stop indent) queue
      (Visit graph outcomes full c stop queue) := by
  induction fuel generalizing room c stop indent queue with
  | zero => exact Does.spent fun isAmple => absurd (plenty isAmple).1 (Nat.not_lt_zero _)
  | succ fuel ih =>
    have within : ample → enough ≤ fuel := by
      intro isAmple
      have more := (plenty isAmple).1
      omega
    refine Does.bind (printComparison_does names within present) ?_
    rintro ⟨oneSided, content⟩ queue₁ ⟨rfl, flag, written⟩
    dsimp only at flag written ⊢
    by_cases isOneSided : OneSided c
    · rw [if_pos (flag.mpr isOneSided)]
      exact Does.pure (.printed (fun holder => absurd holder (sound.not_holder isOneSided))
        (printed_oneSided sound isOneSided written))
    rw [if_neg fun isTrue => isOneSided (flag.mp isTrue)]
    cases held : outcomes.lookup c with
    | none => exact absurd held present
    | some diff =>
      have holder := Outcomes.holder_eq held
      dsimp only
      by_cases cut : (diff.holdsChanges && stop) = true
      · rw [if_pos cut]
        rw [Bool.and_eq_true] at cut
        obtain ⟨extends_, among⟩ := queue₁.push_extends (holder.mpr cut.1)
        have pushed : Does graph ample (modify fun queue => queue.push c : FlatM PUnit) queue₁
            fun _ queue' => queue' = queue₁.push c := Does.modify rfl
        refine Does.bind pushed ?_
        rintro _ _ rfl
        exact Does.pure (.queued (holder.mpr cut.1) cut.2 rfl extends_ among)
      rw [if_neg cut]
      have appropriate : ¬ (!diff.holdsChanges && !stop) = true := by
        cases holds : diff.holdsChanges with
        | true => simp
        | false => simp [passing (by simp [holder, holds])]
      rw [if_neg appropriate]
      have prints : ∀ e ∈ diff.edges, ∀ queue, Does graph ample
          (flatPrint graph outcomes full fuel e true (indent + indentIncrement)) queue
          (Visit graph outcomes full e true queue) := by
        intro e among queue
        have edge : outcomes.Edge c e := ⟨diff, held, among⟩
        refine ih (sound.closed.present edge) true (fun _ => rfl) (room - 1)
          (fun isAmple => ?_) _ queue
        obtain ⟨more, holding, passes⟩ := plenty isAmple
        have left : 0 < room ∧ (¬ outcomes.Holder e → rank e < room - 1) := by
          by_cases isHolder : outcomes.Holder c
          · have open_ : stop = false := by simpa [holder.mp isHolder] using cut
            have above := holding isHolder open_
            have below := bounded e
            exact ⟨by omega, fun _ => by omega⟩
          · have above := passes isHolder
            refine ⟨by omega, fun inner => ?_⟩
            have below := falls isAmple c e ⟨⟨edge, inner⟩, isHolder⟩
            omega
        exact ⟨by omega, nofun, left.2⟩
      refine (flatDetails_does prints _ queue₁).imp fun out queue' post => ?_
      obtain ⟨extends_, interesting, own, text, covers, lines⟩ := post
      refine .printed (fun isHolder => ?_)
        (printed_of_covers held isOneSided written extends_ interesting text covers lines)
      simpa [holder.mp isHolder] using cut

end Print

end Stg
