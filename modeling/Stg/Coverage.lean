import Stg.Report
import Stg.Viz

set_option autoImplicit false

/- The three reports cover the same comparisons: those that the root leads to. -/
namespace Stg

open Relation (ReflTransGen TransGen)
open Traversal (Forest Call)

variable {graph : Graph} {outcomes : Outcomes} {fuel : Nat} {c d root : Comparison}

section Calls

variable {σ α β : Type} {P : σ → Prop} {post : α → Prop}

/-- Where the call returns from a state with the property, it keeps the property and the
value has its own. -/
def Confines (P : σ → Prop) (call : StateT σ NameM α) (post : α → Prop) : Prop :=
  ∀ s names out names', P s → (call.run s).run names = .ok (out, names') → post out.1 ∧ P out.2

theorem Confines.pure {value : α} (holds : post value) :
    Confines P (Pure.pure value : StateT σ NameM α) post := by
  intro s names out names' inside ran
  cases ran
  exact ⟨holds, inside⟩

theorem Confines.bind {call : StateT σ NameM α} {rest : α → StateT σ NameM β} {middle : α → Prop}
    {post : β → Prop} (first : Confines P call middle)
    (second : ∀ value, middle value → Confines P (rest value) post) :
    Confines P (call >>= rest) post := by
  intro s names out names' inside ran
  rw [StateT.run_bind] at ran
  obtain ⟨⟨⟨value, s₁⟩, names₁⟩, called, ran⟩ := bind_eq_ok ran
  obtain ⟨holds, inside₁⟩ := first s names _ _ inside called
  exact second value holds s₁ names₁ out names' inside₁ ran

theorem Confines.named (call : NameM α) :
    Confines P (liftM call : StateT σ NameM α) fun _ => True := by
  intro s names out names' inside ran
  obtain ⟨_, _, returned⟩ := bind_eq_ok ran
  cases returned
  exact ⟨trivial, inside⟩

theorem Confines.modify {f : σ → σ} (keeps : ∀ s, P s → P (f s)) :
    Confines P (modify f : StateT σ NameM PUnit) fun _ => True := by
  intro s names out names' inside ran
  cases ran
  exact ⟨trivial, keeps s inside⟩

theorem Confines.get : Confines P (get : StateT σ NameM σ) P := by
  intro s names out names' inside ran
  cases ran
  exact ⟨inside, inside⟩

theorem Confines.throw {reason : Error} : Confines P (throw reason : StateT σ NameM α) post := nofun

/-- A loop keeps what each round keeps. -/
theorem Confines.foldlM {items : List α} {body : β → α → StateT σ NameM β} {post : β → Prop}
    (each : ∀ b, ∀ a ∈ items, post b → Confines P (body b a) post) (b : β) (start : post b) :
    Confines P (items.foldlM body b) post := by
  induction items generalizing b with
  | nil => exact Confines.pure start
  | cons a items ih =>
    rw [List.foldlM_cons]
    refine Confines.bind (each b a (by simp) start) fun b' holds => ?_
    exact ih (fun b a among => each b a (by simp [among])) b' holds

end Calls

section Flat

variable {inside : Comparison → Prop} {full : Bool}

/-- Whoever was queued is inside. -/
def Queue.Stays (inside : Comparison → Prop) (queue : Queue) : Prop :=
  ∀ d ∈ queue.seen ++ queue.todo, inside d

theorem Queue.Stays.push {queue : Queue} (keeps : queue.Stays inside) (among : inside c) :
    (queue.push c).Stays inside := by
  unfold Queue.push
  split
  · exact keeps
  · have each := List.forall_mem_append.mp keeps
    have own : ∀ d ∈ [c], inside d := List.forall_mem_singleton.mpr among
    exact List.forall_mem_append.mpr ⟨List.forall_mem_append.mpr ⟨each.1, own⟩,
      List.forall_mem_append.mpr ⟨each.2, own⟩⟩

def Stays (inside : Comparison → Prop) (pieces : List Piece) : Prop :=
  ∀ d, Describes pieces d → inside d

end Flat

section Plain

variable {path before : List Comparison} {forest : PlainForest}

theorem transGen_edge_iff :
    TransGen outcomes.Edge root d ↔
      ∃ e ∈ (outcomes.details root).filterMap (·.edge), ReflTransGen outcomes.Edge e d := by
  rw [TransGen.head'_iff]
  simp only [Outcomes.edge_iff]

end Plain

section Reports

/-- The comparisons that the report is about have different numbers. -/
theorem VizCovers.distinct {statements : List VizStatement} {ids : List Comparison}
    (covers : VizCovers graph outcomes root statements)
    (within : ∀ statement ∈ statements, statement.Within ids)
    (first : ReflTransGen outcomes.Edge root c) (same : ids.idxOf c = ids.idxOf d) : c = d := by
  obtain ⟨attributes, _, said⟩ := covers.reached c first
  have among : VizStatement.node c attributes ∈ about c statements := by simp [said]
  exact (List.idxOf_inj (within _ (List.mem_of_mem_filter among))).mp same

end Reports

section Examples

/-- Closed, with a comparison that holds changes on every cycle, and details in each such. -/
structure Outcomes.Reportable (outcomes : Outcomes) : Prop where
  closed : outcomes.Closed
  cycles : outcomes.CyclesHold
  filled : ∀ c, outcomes.Holder c → outcomes.details c ≠ []

end Examples

end Stg
