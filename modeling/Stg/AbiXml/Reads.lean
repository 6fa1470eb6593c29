import Stg.AbiXml.Checked
import Stg.AbiXml.Placing
import Stg.Lib.Ends

set_option autoImplicit false

/- The calls of the reader read what their parts of the document mean. -/
namespace Stg.AbiXml

variable {α β γ δ : Type}

/-- From a state that has what has been said, whatever ids have been added to `place`,
the call returns when the meaning has a value, and then has that too. It throws an
`stg::Exception` when the meaning has none. The values are linked. -/
def Reads (place : Place) (call : Reading α) (meaning : Meaning β)
    (link : Place → α → β → Prop) : Prop :=
  ∀ base s said before, place.Extends before → Holds base s said before →
    call.Ends s
      (fun value s' => ∃ meant more after, meaning said = .ok (meant, more) ∧
        before.Extends after ∧ link after value meant ∧ Holds base s' (said ++ more) after ∧
        s.SameSymbols s')
      (fun raised _ => raised.IsException ∧ ∃ reason, meaning said = .error reason)

/-- The same for what only mentions addresses. -/
def Notes (place : Place) (call : Reading α) (mentions : Mentions β)
    (link : Place → α → β → Prop) : Prop :=
  Reads place call (Meaning.mentioning mentions) link

theorem Corpus.SameSymbols.refl (s : Corpus) : s.SameSymbols s := ⟨rfl, rfl⟩

theorem Corpus.SameSymbols.trans {s s' s'' : Corpus} (first : s.SameSymbols s')
    (second : s'.SameSymbols s'') : s.SameSymbols s'' :=
  ⟨second.symbolInfoMap.trans first.symbolInfoMap, second.aliasToMain.trans first.aliasToMain⟩

namespace Meaning

variable {meaning : Meaning β} {rest : β → Meaning δ} {said more more' : Contents} {meant : β}
  {meant' : δ} {reason : Error}

/-- The value of a sequence is that of its second part, after what the first has said. -/
theorem bind_ok (means : meaning said = .ok (meant, more))
    (means' : rest meant (said ++ more) = .ok (meant', more')) :
    (meaning >>= rest) said = .ok (meant', more ++ more') := by
  change andThen meaning rest said = _
  simp only [andThen, means, means']

theorem bind_ok_error (means : meaning said = .ok (meant, more))
    (fails : rest meant (said ++ more) = .error reason) :
    (meaning >>= rest) said = .error reason := by
  change andThen meaning rest said = _
  simp only [andThen, means, fails]

/-- A sequence fails with its first part, or with its second after the first. -/
theorem bind_error (fails : meaning said = .error reason) :
    (meaning >>= rest) said = .error reason := by
  change andThen meaning rest said = _
  simp only [andThen, fails]

/-- A sequence that has a value has one in both parts, and says what both say. -/
theorem ok_of_bind {last : δ × Contents} (means : (meaning >>= rest) said = .ok last) :
    ∃ value first later, meaning said = .ok (value, first) ∧
      rest value (said ++ first) = .ok (last.1, later) ∧ last.2 = first ++ later := by
  change andThen meaning rest said = _ at means
  unfold andThen at means
  cases one : meaning said with
  | error reason =>
    rw [one] at means
    cases means
  | ok result =>
    rw [one] at means
    dsimp only at means
    cases two : rest result.1 (said ++ result.2) with
    | error reason =>
      rw [two] at means
      cases means
    | ok result' =>
      rw [two] at means
      cases means
      exact ⟨result.1, result.2, result'.2, rfl, two, rfl⟩

/-- The laws of the monad, from those of appending contents. -/
theorem map_id (meaning : Meaning β) : id <$> meaning = meaning := by
  funext said
  change andThen meaning (fun value => pure (id value)) said = _
  unfold andThen
  cases meaning said with
  | error reason => rfl
  | ok result =>
    change Except.ok (result.1, result.2 ++ ({} : Contents)) = _
    rw [Contents.append_empty]

theorem pure_andThen (value : β) (rest : β → Meaning δ) : pure value >>= rest = rest value := by
  funext said
  change andThen (fun _ => .ok (value, {})) rest said = _
  simp only [andThen, Contents.append_empty]
  cases rest value said with
  | error reason => rfl
  | ok result => simp only [Contents.empty_append]

/-- Which of two appends comes first does not matter to what was said. -/
theorem andThen_assoc (meaning : Meaning β) (rest : β → Meaning γ) (rest' : γ → Meaning δ) :
    meaning >>= rest >>= rest' = meaning >>= fun value => rest value >>= rest' := by
  funext said
  change andThen (andThen meaning rest) rest' said =
    andThen meaning (fun value => andThen (rest value) rest') said
  simp only [andThen]
  cases meaning said with
  | error reason => rfl
  | ok result =>
    dsimp only
    cases rest result.1 (said ++ result.2) with
    | error reason => rfl
    | ok result' =>
      dsimp only
      rw [← Contents.append_assoc]
      cases rest' result'.1 (said ++ result.2 ++ result'.2) with
      | error reason => rfl
      | ok result'' => simp only [Contents.append_assoc]

instance : LawfulMonad Meaning := LawfulMonad.mk' Meaning map_id pure_andThen andThen_assoc

end Meaning

section

variable {place : Place} {call : Reading α} {meaning : Meaning β} {mentions : Mentions β}
  {link link' : Place → α → β → Prop} {rest : α → Reading γ} {restMeaning : β → Meaning δ}
  {restMentions : β → Mentions δ} {last : Place → γ → δ → Prop}

namespace Reads

theorem pure {value : α} {meant : β}
    (linked : ∀ after, place.Extends after → link after value meant) :
    Reads place (Pure.pure value) (Pure.pure meant) link := by
  intro base s said before grows holds
  apply EStateM.Ends.pure
  refine ⟨meant, {}, before, rfl, .refl _, linked before grows, ?_, .refl _⟩
  rwa [Contents.append_empty]

theorem throw {reason : Error} (thrown : reason.IsException) (reason' : Error) :
    Reads place (MonadExcept.throw reason) (MonadExcept.throw reason') link := by
  intro base s said before _ _
  exact EStateM.Ends.throw ⟨thrown, reason', rfl⟩

theorem bind (first : Reads place call meaning link)
    (second : ∀ value meant after, place.Extends after → link after value meant →
      Reads after (rest value) (restMeaning meant) last) :
    Reads place (call >>= rest) (meaning >>= restMeaning) last := by
  intro base s said before grows holds
  have failing : (∃ reason, meaning said = .error reason) →
      ∃ reason, (meaning >>= restMeaning) said = .error reason :=
    fun ⟨reason, fails⟩ => ⟨reason, Meaning.bind_error fails⟩
  have ends := (first base s said before grows holds).imp (fun _ _ held => held)
    (fun _ _ => And.imp_right failing)
  apply ends.bind
  rintro value s' ⟨meant, more, after, means, grows', linked, holds', same⟩
  have later := second value meant after (grows.trans grows') linked base s' (said ++ more) after
    (.refl _) holds'
  apply later.imp
  · rintro value' s'' ⟨meant', more', after', means', grows'', linked', holds'', same'⟩
    refine ⟨meant', more ++ more', after', Meaning.bind_ok means means', grows'.trans grows'',
      linked', ?_, same.trans same'⟩
    rwa [← Contents.append_assoc]
  · rintro _ _ ⟨thrown, reason, fails⟩
    exact ⟨thrown, reason, Meaning.bind_ok_error means fails⟩

theorem ite {condition : Prop} [Decidable condition] {call' : Reading α} {meaning' : Meaning β}
    (yes : condition → Reads place call meaning link)
    (no : ¬ condition → Reads place call' meaning' link) :
    Reads place (if condition then call else call') (if condition then meaning else meaning')
      link := by
  by_cases holds : condition
  · rw [if_pos holds, if_pos holds]
    exact yes holds
  · rw [if_neg holds, if_neg holds]
    exact no holds

theorem imp (reads : Reads place call meaning link)
    (weaker : ∀ after value meant, place.Extends after → link after value meant →
      link' after value meant) : Reads place call meaning link' := by
  intro base s said before grows holds
  apply (reads base s said before grows holds).imp
  · rintro value s' ⟨meant, more, after, means, grows', linked, held, same⟩
    exact ⟨meant, more, after, means, grows', weaker after value meant (grows.trans grows') linked,
      held, same⟩
  · exact fun _ _ fails => fails

theorem ofExcept (result : Except Error α) [checked : Checked result] :
    Reads place (Stg.ofExcept result) (Stg.ofExcept result)
      (fun _ value meant => value = meant ∧ result = .ok value) := by
  cases result with
  | ok value => exact pure fun _ _ => ⟨rfl, rfl⟩
  | error reason => exact throw (checked.exception reason rfl) reason

theorem check (ok : Bool) (message : String) :
    Reads place (Stg.check ok message) (Stg.check ok message) (fun _ _ _ => ok = true) := by
  cases ok with
  | true => exact pure fun _ _ => rfl
  | false => exact throw ⟨_, rfl⟩ _

theorem die (message message' : String) :
    Reads place (Stg.die message) (Stg.die message' : Meaning β) link := throw ⟨_, rfl⟩ _

end Reads

/- Mentioning is compatible with the monads. -/

theorem mentioning_pure (value : β) :
    Meaning.mentioning (pure value : Mentions β) = pure value := rfl

/-- Mentioning first and taking the sequence, or the other way round. -/
theorem mentioning_bind (mentions : Mentions β) (rest : β → Mentions δ) :
    Meaning.mentioning (mentions >>= rest) =
      Meaning.mentioning mentions >>= fun value => Meaning.mentioning (rest value) := by
  funext before
  change Meaning.mentioning (Mentions.andThen mentions rest) before =
    Meaning.andThen _ _ before
  cases mentions with
  | error reason => rfl
  | ok result =>
    simp only [Mentions.andThen, Meaning.andThen, Meaning.mentioning]
    cases rest result.1 with
    | error reason => rfl
    | ok result => rfl

namespace Notes

theorem pure {value : α} {meant : β}
    (linked : ∀ after, place.Extends after → link after value meant) :
    Notes place (Pure.pure value) (Pure.pure meant) link := Reads.pure linked

theorem throw {reason : Error} (thrown : reason.IsException) (reason' : Error) :
    Notes place (MonadExcept.throw reason) (MonadExcept.throw reason') link :=
  Reads.throw thrown reason'

theorem bind (first : Notes place call mentions link)
    (second : ∀ value meant after, place.Extends after → link after value meant →
      Notes after (rest value) (restMentions meant) last) :
    Notes place (call >>= rest) (mentions >>= restMentions) last := by
  unfold Notes
  rw [mentioning_bind]
  exact Reads.bind first second

theorem ite {condition : Prop} [Decidable condition] {call' : Reading α} {mentions' : Mentions β}
    (yes : condition → Notes place call mentions link)
    (no : ¬ condition → Notes place call' mentions' link) :
    Notes place (if condition then call else call') (if condition then mentions else mentions')
      link := by
  by_cases holds : condition
  · rw [if_pos holds, if_pos holds]
    exact yes holds
  · rw [if_neg holds, if_neg holds]
    exact no holds

theorem ofExcept (result : Except Error α) [checked : Checked result] :
    Notes place (Stg.ofExcept result) (Stg.ofExcept result)
      (fun _ value meant => value = meant ∧ result = .ok value) := by
  cases result with
  | ok value => exact pure fun _ _ => ⟨rfl, rfl⟩
  | error reason => exact throw (checked.exception reason rfl) reason

theorem check (ok : Bool) (message : String) :
    Notes place (Stg.check ok message) (Stg.check ok message) (fun _ _ _ => ok = true) := by
  cases ok with
  | true => exact pure fun _ _ => rfl
  | false => exact throw ⟨_, rfl⟩ _

theorem die (message message' : String) :
    Notes place (Stg.die message) (Stg.die message' : Mentions β) link := throw ⟨_, rfl⟩ _

end Notes

end

end Stg.AbiXml
