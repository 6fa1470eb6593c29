import Stg.CTypes
import Stg.Lib.Delimited
import Std.Data.String.ToNat

set_option autoImplicit false

/- C types with different meanings have different names. -/
namespace Stg

open Delimited (Marks item Shifts append_inj_of_stop append_inj_of_stop_right)

section Words

/-- The letters, digits and underscores of identifiers. -/
def identifierChar (c : Char) : Bool := c.isAlphanum || c = '_'

/-- An identifier that is not a qualifier. -/
structure IsWord (word : String) : Prop where
  something : word ≠ ""
  identifier : word.toList.all identifierChar = true
  unqualified : ∀ q : Qualifier, word ≠ print q

/-- Words separated by single spaces. -/
def Words (name : String) : Prop :=
  ∃ words : List String, words ≠ [] ∧ (∀ word ∈ words, IsWord word) ∧
    name = " ".intercalate words

/-- Words with a space behind each. -/
def spaced (words : List String) : List Char := words.flatMap fun word => word.toList ++ [' ']

theorem intercalate_spaced {words : List String} (some_ : words ≠ []) :
    (" ".intercalate words).toList ++ [' '] = spaced words := by
  induction words with
  | nil => exact absurd rfl some_
  | cons first rest ih =>
    cases rest with
    | nil => simp [spaced]
    | cons second rest =>
      rw [String.intercalate_cons_cons, String.toList_append, String.toList_append,
        List.append_assoc, List.append_assoc, ih (List.cons_ne_nil _ _)]
      simp [spaced]

theorem spaced_inj {words words' : List String}
    (identifiers : ∀ word ∈ words, word.toList.all identifierChar = true)
    (identifiers' : ∀ word ∈ words', word.toList.all identifierChar = true)
    (same : spaced words = spaced words') : words = words' := by
  induction words generalizing words' with
  | nil =>
    cases words' with
    | nil => rfl
    | cons word' rest' => simp [spaced] at same
  | cons word rest ih =>
    cases words' with
    | nil => simp [spaced] at same
    | cons word' rest' =>
      have split (w : String) (ws : List String) :
          spaced (w :: ws) = w.toList ++ ' ' :: spaced ws := by
        simp [spaced]
      have own := List.forall_mem_cons.mp identifiers
      have own' := List.forall_mem_cons.mp identifiers'
      rw [split, split] at same
      obtain ⟨first, later⟩ := append_inj_of_stop (List.all_eq_true.mp own.1)
        (List.all_eq_true.mp own'.1) (by decide) (by decide) same
      rw [String.toList_inj.mp first, ih own.2 own'.2 (List.cons.inj later).2]

theorem print_qualifier_injective {q q' : Qualifier} (same : print q = print q') : q = q' := by
  cases q <;> cases q' <;> first | rfl | exact absurd same (by decide)

theorem qualifier_identifier (q : Qualifier) :
    (print q).toList.all identifierChar = true := by
  cases q <;> decide

theorem inOrder_injective {qualifiers qualifiers' : Qualifiers}
    (same : qualifiers.inOrder = qualifiers'.inOrder) : qualifiers = qualifiers' := by
  have ordered : ∀ (qualifiers : Qualifiers) (q : Qualifier), q ∈ qualifiers ↔
      q ∈ qualifiers.inOrder := by
    intro qualifiers q
    cases q <;> simp [Qualifiers.inOrder]
  ext q
  rw [ordered, same, ← ordered]

theorem leading_spaced (qualifiers : Qualifiers) :
    qualifiers.leading.toList = spaced (qualifiers.inOrder.map print) := by
  simp [Qualifiers.leading, spaced, String.toList_join, List.flatMap_map]

theorem trailing_spaced (qualifiers : Qualifiers) :
    qualifiers.trailing.toList ++ [' '] = ' ' :: spaced (qualifiers.inOrder.map print) := by
  simp only [Qualifiers.trailing, String.toList_join, List.flatMap_map]
  generalize qualifiers.inOrder = ordered
  induction ordered with
  | nil => rfl
  | cons q ordered ih =>
    rw [List.flatMap_cons, List.append_assoc, ih]
    simp [spaced]

theorem identifiers_of_qualifiers (qualifiers : Qualifiers) :
    ∀ word ∈ qualifiers.inOrder.map print, word.toList.all identifierChar = true := by
  intro word present
  obtain ⟨q, _, rfl⟩ := List.mem_map.mp present
  exact qualifier_identifier q

theorem print_map_injective {ordered ordered' : List Qualifier}
    (same : ordered.map print = ordered'.map print) : ordered = ordered' :=
  List.map_injective_iff.mpr (fun _ _ => print_qualifier_injective) same

theorem trailing_injective {qualifiers qualifiers' : Qualifiers}
    (same : qualifiers.trailing.toList = qualifiers'.trailing.toList) :
    qualifiers = qualifiers' := by
  have spaces := congrArg (· ++ [' ']) same
  simp only [trailing_spaced, List.cons.injEq, true_and] at spaces
  exact inOrder_injective (print_map_injective (spaced_inj (identifiers_of_qualifiers _)
    (identifiers_of_qualifiers _) spaces))

/-- The qualifiers in front of a name end where its words start. -/
theorem leading_injective {qualifiers qualifiers' : Qualifiers} {name name' : String}
    (words : Words name) (words' : Words name')
    (same : (qualifiers.leading ++ name).toList = (qualifiers'.leading ++ name').toList) :
    qualifiers = qualifiers' ∧ name = name' := by
  obtain ⟨ws, some_, are, rfl⟩ := words
  obtain ⟨ws', some_', are', rfl⟩ := words'
  have spaces := congrArg (· ++ [' ']) same
  have joined (q : Qualifiers) (ws : List String) (some_ : ws ≠ []) :
      (q.leading ++ " ".intercalate ws).toList ++ [' '] = spaced (q.inOrder.map print ++ ws) := by
    rw [String.toList_append, List.append_assoc, intercalate_spaced some_, leading_spaced]
    simp [spaced]
  rw [joined _ _ some_, joined _ _ some_'] at spaces
  have identifiers (q : Qualifiers) (ws : List String) (are : ∀ word ∈ ws, IsWord word) :
      ∀ word ∈ q.inOrder.map print ++ ws, word.toList.all identifierChar = true :=
    List.forall_mem_append.mpr ⟨identifiers_of_qualifiers q, fun word present =>
      (are word present).identifier⟩
  have lists := spaced_inj (identifiers _ _ are) (identifiers _ _ are') spaces
  obtain ⟨first, rest, rfl⟩ := List.exists_cons_of_ne_nil some_
  obtain ⟨first', rest', rfl⟩ := List.exists_cons_of_ne_nil some_'
  let isQualifier (word : String) : Bool := word = "const" || word = "volatile" || word = "restrict"
  have qualifier (q : Qualifiers) : ∀ word ∈ q.inOrder.map print, isQualifier word = true := by
    intro word present
    obtain ⟨q, _, rfl⟩ := List.mem_map.mp present
    cases q <;> decide
  have stops (word : String) (isWord : IsWord word) : isQualifier word = false := by
    have const_ : word ≠ "const" := isWord.unqualified .const
    have volatile_ : word ≠ "volatile" := isWord.unqualified .volatile
    have restrict_ : word ≠ "restrict" := isWord.unqualified .restrict
    simp [isQualifier, const_, volatile_, restrict_]
  obtain ⟨quals, rest⟩ := append_inj_of_stop (qualifier _) (qualifier _)
    (stops _ (are _ List.mem_cons_self)) (stops _ (are' _ List.mem_cons_self)) lists
  exact ⟨inOrder_injective (print_map_injective quals), by rw [rest]⟩

end Words

section Parts

/-- The letters and spaces that names and qualifiers are made of. -/
def plainChar (c : Char) : Bool := identifierChar c || c = ' '

def isSign (c : Char) : Bool := c = '*' || c = '&'

namespace CType

def left (type : CType) : List Char := type.name.left.toList

def right (type : CType) : List Char := type.name.right.toList

/-- What stands between the name of the pointee and the sign of a pointer. -/
def gap (type : CType) : Char := if type.isSuffix then '(' else ' '

variable {qualifiers : Qualifiers} {name : String} {kind : PointerReference.Kind} {type : CType}
  {number : UInt64} {parameters : CParameters}

theorem left_base : (base qualifiers name).left = qualifiers.leading.toList ++ name.toList :=
  String.toList_append

theorem left_pointer : (pointerReference qualifiers kind type).left =
    type.left ++ type.gap :: (kind.sign.toList ++ qualifiers.trailing.toList) := by
  rw [left, CType.name, add_pointer]
  cases suffix : type.isSuffix <;> simp [left, gap, suffix]

theorem right_pointer : (pointerReference qualifiers kind type).right =
    (if type.isSuffix then [')'] else []) ++ type.right := by
  rw [right, CType.name, add_pointer]
  cases suffix : type.isSuffix <;> simp [right]

theorem left_array : (array number type).left = type.left := by
  rw [left, CType.name, add_suffix]
  rfl

theorem right_array : (array number type).right =
    '[' :: ((print number).toList ++ ']' :: type.right) := by
  rw [right, CType.name, add_suffix]
  simp [right]

theorem left_function : (function parameters type).left = type.left := by
  rw [left, CType.name, add_suffix]
  rfl

theorem right_function : (function parameters type).right =
    '(' :: (parameters.text.toList ++ ')' :: type.right) := by
  rw [right, CType.name, add_suffix]
  simp [right]

theorem print_toList : (print type.name).toList = type.left ++ type.right := String.toList_append

end CType

mutual

def CType.Worded : CType → Prop
  | .base _ name => Words name
  | .pointerReference _ _ pointee => pointee.Worded
  | .array _ element => element.Worded
  | .function parameters returned => parameters.Worded ∧ returned.Worded

def CParameters.Worded : CParameters → Prop
  | .nil => True
  | .type type rest => type.Worded ∧ rest.Worded
  | .variadic rest => rest.Worded

end

theorem plain_of_identifier {c : Char} (identifier : identifierChar c = true) :
    plainChar c = true := by
  rw [plainChar, identifier]
  rfl

theorem plain_spaced {words : List String}
    (identifiers : ∀ word ∈ words, word.toList.all identifierChar = true) :
    ∀ c ∈ spaced words, plainChar c = true := by
  intro c present
  obtain ⟨word, among, present⟩ := List.mem_flatMap.mp present
  rcases List.mem_append.mp present with present | present
  · exact plain_of_identifier (List.all_eq_true.mp (identifiers word among) c present)
  · rw [List.mem_singleton.mp present]
    rfl

theorem plain_leading (qualifiers : Qualifiers) :
    ∀ c ∈ qualifiers.leading.toList, plainChar c = true := by
  rw [leading_spaced]
  exact plain_spaced (identifiers_of_qualifiers _)

theorem plain_trailing (qualifiers : Qualifiers) :
    ∀ c ∈ qualifiers.trailing.toList, plainChar c = true := by
  intro c present
  have among : c ∈ qualifiers.trailing.toList ++ [' '] := List.mem_append_left _ present
  rw [trailing_spaced] at among
  rcases List.mem_cons.mp among with rfl | among
  · rfl
  · exact plain_spaced (identifiers_of_qualifiers _) c among

theorem plain_words {name : String} (words : Words name) :
    ∀ c ∈ name.toList, plainChar c = true := by
  obtain ⟨ws, some_, are, rfl⟩ := words
  intro c present
  have among : c ∈ (" ".intercalate ws).toList ++ [' '] := List.mem_append_left _ present
  rw [intercalate_spaced some_] at among
  exact plain_spaced (fun word present => (are word present).identifier) c among

theorem plain_base {qualifiers : Qualifiers} {name : String} (words : Words name) :
    ∀ c ∈ (CType.base qualifiers name).left, plainChar c = true := by
  rw [CType.left_base]
  exact List.forall_mem_append.mpr ⟨plain_leading _, plain_words words⟩

/-- A name starts with a letter. -/
theorem CType.left_head : ∀ type : CType, type.Worded →
    ∃ c rest, type.left = c :: rest ∧ identifierChar c = true
  | .base qualifiers name, ⟨ws, some_, are, same⟩ => by
    obtain ⟨first, rest, rfl⟩ := List.exists_cons_of_ne_nil some_
    have joined : (CType.base qualifiers name).left ++ [' '] =
        spaced (qualifiers.inOrder.map print ++ first :: rest) := by
      rw [CType.left_base, List.append_assoc, same, intercalate_spaced some_, leading_spaced]
      simp [spaced]
    have words : ∀ word ∈ qualifiers.inOrder.map print ++ first :: rest,
        word ≠ "" ∧ word.toList.all identifierChar = true := by
      rw [List.forall_mem_append]
      refine ⟨fun word present => ?_, fun word present => ?_⟩
      · obtain ⟨q, _, rfl⟩ := List.mem_map.mp present
        exact ⟨by cases q <;> decide, qualifier_identifier q⟩
      · exact ⟨(are word present).something, (are word present).identifier⟩
    cases held : qualifiers.inOrder.map print ++ first :: rest with
    | nil => simp at held
    | cons word others =>
      rw [held] at joined words
      have own := words word List.mem_cons_self
      cases chars : word.toList with
      | nil => exact absurd (String.toList_inj.mp (chars.trans String.toList_empty.symm)) own.1
      | cons c tail =>
        rw [chars] at own
        cases left : (CType.base qualifiers name).left with
        | nil =>
          rw [left] at joined
          simp [spaced, chars] at joined
        | cons d rest' =>
          rw [left] at joined
          simp only [spaced, List.flatMap_cons, chars, List.cons_append, List.cons.injEq] at joined
          refine ⟨d, rest', rfl, ?_⟩
          rw [joined.1]
          exact List.all_eq_true.mp own.2 c List.mem_cons_self
  | .pointerReference qualifiers kind pointee, worded => by
    obtain ⟨c, rest, same, identifier⟩ := CType.left_head pointee worded
    exact ⟨c, _, by rw [CType.left_pointer, same, List.cons_append], identifier⟩
  | .array number element, worded => by
    rw [CType.left_array]
    exact CType.left_head element worded
  | .function parameters returned, worded => by
    rw [CType.left_function]
    exact CType.left_head returned worded.2

end Parts

section Hole

/-- The text before a declarator: suffixes and the ends of groups stand behind it. -/
def hole : List Char → List Char
  | [] => []
  | c :: cs =>
    if c = ')' ∨ c = '[' ∨ (c = '(' ∧ ¬ cs.head?.any isSign) then [] else c :: hole cs

/-- The text stands before the declarator, whatever follows. -/
def Passes (text : List Char) : Prop := ∀ rest, hole (text ++ rest) = text ++ hole rest

theorem Passes.append {text text' : List Char} (first : Passes text) (second : Passes text') :
    Passes (text ++ text') := by
  intro rest
  rw [List.append_assoc, first, second, List.append_assoc]

theorem passes_of_none {text : List Char} (none_ : ∀ c ∈ text, c ≠ ')' ∧ c ≠ '[' ∧ c ≠ '(') :
    Passes text := by
  intro rest
  induction text with
  | nil => rfl
  | cons c text ih =>
    obtain ⟨own, others⟩ := List.forall_mem_cons.mp none_
    rw [List.cons_append, hole, if_neg (by simp [own]), ih others, List.cons_append]

theorem plain_unmarked {c : Char} (plain : plainChar c = true) :
    c ≠ ')' ∧ c ≠ '[' ∧ c ≠ '(' ∧ c ≠ ',' ∧ c ≠ '*' ∧ c ≠ '&' := by
  refine ⟨?_, ?_, ?_, ?_, ?_, ?_⟩
  all_goals
    rintro rfl
    cases plain

theorem passes_plain {text : List Char} (plain : ∀ c ∈ text, plainChar c = true) : Passes text :=
  passes_of_none fun c present =>
    have unmarked := plain_unmarked (plain c present)
    ⟨unmarked.1, unmarked.2.1, unmarked.2.2.1⟩

theorem sign_split (kind : PointerReference.Kind) : ∃ c rest, kind.sign.toList = c :: rest ∧
    isSign c = true ∧ ∀ d ∈ kind.sign.toList, isSign d = true := by
  cases kind with
  | pointer => exact ⟨'*', [], rfl, rfl, by simp [PointerReference.Kind.sign, isSign]⟩
  | lvalueReference => exact ⟨'&', [], rfl, rfl, by simp [PointerReference.Kind.sign, isSign]⟩
  | rvalueReference => exact ⟨'&', ['&'], rfl, rfl, by simp [PointerReference.Kind.sign, isSign]⟩

theorem sign_unmarked {c : Char} (sign : isSign c = true) :
    c ≠ ')' ∧ c ≠ '[' ∧ c ≠ '(' ∧ c ≠ ',' := by
  refine ⟨?_, ?_, ?_, ?_⟩
  all_goals
    rintro rfl
    cases sign

theorem passes_pointer (type : CType) (kind : PointerReference.Kind) (qualifiers : Qualifiers) :
    Passes (type.gap :: (kind.sign.toList ++ qualifiers.trailing.toList)) := by
  intro rest
  have inner : Passes (kind.sign.toList ++ qualifiers.trailing.toList) := by
    refine Passes.append (passes_of_none fun c present => ?_) (passes_plain (plain_trailing _))
    obtain ⟨_, _, _, _, signs⟩ := sign_split kind
    have unmarked := sign_unmarked (signs c present)
    exact ⟨unmarked.1, unmarked.2.1, unmarked.2.2.1⟩
  have follows : ((kind.sign.toList ++ qualifiers.trailing.toList) ++ rest).head?.any isSign =
      true := by
    obtain ⟨c, tail, same, sign, _⟩ := sign_split kind
    simp [same, sign]
  have gap : type.gap ≠ ')' ∧ type.gap ≠ '[' := by
    cases suffix : type.isSuffix <;> simp [CType.gap, suffix]
  rw [List.cons_append, hole, if_neg (by simp only [follows, gap, not_true]; simp), inner]
  rfl

theorem CType.passes_left : ∀ type : CType, type.Worded → Passes type.left
  | .base qualifiers name, worded => passes_plain (plain_base worded)
  | .pointerReference qualifiers kind pointee, worded => by
    rw [CType.left_pointer]
    exact (CType.passes_left pointee worded).append (passes_pointer pointee kind qualifiers)
  | .array number element, worded => by
    rw [CType.left_array]
    exact CType.passes_left element worded
  | .function parameters returned, worded => by
    rw [CType.left_function]
    exact CType.passes_left returned worded.2

theorem letter_not_sign {c : Char} (identifier : identifierChar c = true) : isSign c = false := by
  have unmarked := plain_unmarked (plain_of_identifier identifier)
  simp [isSign, unmarked]

/-- Parameters do not start with a sign. -/
theorem CParameters.text_head {parameters : CParameters} (worded : parameters.Worded)
    (rest : List Char) : ((parameters.text.toList ++ ')' :: rest).head?.any isSign) = false := by
  cases parameters with
  | nil => simp [CParameters.text, isSign]
  | type first others =>
    obtain ⟨c, tail, same, identifier⟩ := CType.left_head _ worded.1
    rw [CParameters.text, String.toList_append, CType.print_toList, same]
    simp [letter_not_sign identifier]
  | variadic others => simp [CParameters.text, isSign]

theorem CType.hole_right : ∀ type : CType, type.Worded → hole type.right = []
  | .base _ _, _ => rfl
  | .pointerReference qualifiers kind pointee, worded => by
    rw [CType.right_pointer]
    cases suffix : pointee.isSuffix with
    | true => simp [hole]
    | false => simpa [suffix] using CType.hole_right pointee worded
  | .array number element, _ => by
    rw [CType.right_array]
    simp [hole]
  | .function parameters returned, worded => by
    have head := CParameters.text_head worded.1 returned.right
    rw [CType.right_function, hole, if_pos (.inr (.inr ⟨rfl, by rw [head]; exact nofun⟩))]

/-- Where the declarator stands is determined by the name. -/
theorem CType.print_inj {type type' : CType} (worded : type.Worded) (worded' : type'.Worded)
    (same : (print type.name).toList = (print type'.name).toList) :
    type.left = type'.left ∧ type.right = type'.right := by
  rw [CType.print_toList, CType.print_toList] at same
  have holes := congrArg hole same
  rw [CType.passes_left _ worded, CType.passes_left _ worded', CType.hole_right _ worded,
    CType.hole_right _ worded', List.append_nil, List.append_nil] at holes
  rw [holes] at same
  exact ⟨holes, List.append_cancel_left same⟩

end Hole

section Shifts

def marks : Marks Char := ⟨'(', ')', ','⟩

theorem shifts_chars {text : List Char} {depth : Nat}
    (unmarked : ∀ c ∈ text, c ≠ ')' ∧ c ≠ '(' ∧ c ≠ ',') : Shifts marks text depth depth :=
  Delimited.shifts_plain fun c present =>
    have own := unmarked c present
    ⟨own.2.1, own.1, own.2.2⟩

theorem shifts_plain {text : List Char} {depth : Nat} (plain : ∀ c ∈ text, plainChar c = true) :
    Shifts marks text depth depth :=
  shifts_chars fun c present =>
    have unmarked := plain_unmarked (plain c present)
    ⟨unmarked.1, unmarked.2.2.1, unmarked.2.2.2.1⟩

theorem shifts_open {depth : Nat} : Shifts marks ['('] depth (depth + 1) :=
  Delimited.shifts_opening

theorem shifts_close {depth : Nat} : Shifts marks [')'] (depth + 1) depth :=
  Delimited.shifts_closing (by decide)

theorem shifts_comma {depth : Nat} : Shifts marks [',', ' '] (depth + 1) (depth + 1) := by
  have comma : Shifts marks [','] (depth + 1) (depth + 1) :=
    Delimited.shifts_separator (by decide) (by decide)
  have space : Shifts marks [' '] (depth + 1) (depth + 1) := shifts_plain (by simp [plainChar])
  exact comma.append space

theorem shifts_dots {depth : Nat} : Shifts marks "...".toList depth depth :=
  shifts_chars (by simp)

theorem toList_print (number : UInt64) : (print number).toList = Nat.toDigits 10 number.toNat := by
  change (toString number.toNat).toList = _
  rw [Nat.toString_eq_ofList_toDigits, String.toList_ofList]

theorem digits_of_print (number : UInt64) : ∀ c ∈ (print number).toList, c.isDigit = true := by
  intro c present
  rw [toList_print] at present
  exact Nat.isDigit_of_mem_toDigits (by decide) (by decide) present

theorem shifts_bounds (number : UInt64) {depth : Nat} :
    Shifts marks ('[' :: ((print number).toList ++ [']'])) depth depth := by
  refine shifts_chars fun c present => ?_
  rcases List.mem_cons.mp present with rfl | present
  · simp
  · rcases List.mem_append.mp present with present | present
    · have digit := digits_of_print number c present
      refine ⟨?_, ?_, ?_⟩
      all_goals
        rintro rfl
        cases digit
    · rw [List.mem_singleton.mp present]
      simp

mutual

/-- The brackets that a name opens before the declarator are closed behind it. -/
theorem CType.shifts : ∀ type : CType, type.Worded →
    ∃ depth, Shifts marks type.left 0 depth ∧ Shifts marks type.right depth 0
  | .base qualifiers name, worded => ⟨0, shifts_plain (plain_base worded), .nil⟩
  | .pointerReference qualifiers kind pointee, worded => by
    obtain ⟨depth, before, after⟩ := CType.shifts pointee worded
    have pointer (depth : Nat) :
        Shifts marks (kind.sign.toList ++ qualifiers.trailing.toList) depth depth := by
      refine Shifts.append (shifts_chars fun c present => ?_) (shifts_plain (plain_trailing _))
      obtain ⟨_, _, _, _, signs⟩ := sign_split kind
      have unmarked := sign_unmarked (signs c present)
      exact ⟨unmarked.1, unmarked.2.2.1, unmarked.2.2.2⟩
    rw [CType.left_pointer, CType.right_pointer]
    cases suffix : pointee.isSuffix with
    | true =>
      have gap : pointee.gap = '(' := by simp [CType.gap, suffix]
      rw [gap]
      exact ⟨depth + 1, before.append (shifts_open.append (pointer _)), shifts_close.append after⟩
    | false =>
      have gap : pointee.gap = ' ' := by simp [CType.gap, suffix]
      have space : Shifts marks [' '] depth depth := shifts_plain (by simp [plainChar])
      rw [gap]
      exact ⟨depth, before.append (space.append (pointer _)), after⟩
  | .array number element, worded => by
    obtain ⟨depth, before, after⟩ := CType.shifts element worded
    rw [CType.left_array, CType.right_array]
    have bounds := (shifts_bounds number).append after
    exact ⟨depth, before, by simpa using bounds⟩
  | .function parameters returned, worded => by
    obtain ⟨depth, before, after⟩ := CType.shifts returned worded.2
    have text := (CParameters.shifts_text _ worded.1).deeper depth
    rw [Nat.add_comm] at text
    rw [CType.left_function, CType.right_function]
    have group := shifts_open.append (text.append (shifts_close.append after))
    exact ⟨depth, before, by simpa using group⟩

theorem CParameters.shifts_text : ∀ parameters : CParameters, parameters.Worded →
    Shifts marks parameters.text.toList 1 1
  | .nil, _ => .nil
  | .type first rest, worded => by
    obtain ⟨depth, before, after⟩ := CType.shifts first worded.1
    have whole := (before.append after).deeper 1
    rw [CParameters.text, String.toList_append, CType.print_toList]
    exact whole.append (CParameters.shifts_more rest worded.2)
  | .variadic rest, worded => by
    rw [CParameters.text, String.toList_append]
    exact shifts_dots.append (CParameters.shifts_more rest worded)

theorem CParameters.shifts_more : ∀ parameters : CParameters, parameters.Worded →
    Shifts marks parameters.more.toList 1 1
  | .nil, _ => .nil
  | .type first rest, worded => by
    obtain ⟨depth, before, after⟩ := CType.shifts first worded.1
    have whole := (before.append after).deeper 1
    rw [CParameters.more, String.toList_append, String.toList_append, CType.print_toList]
    exact (shifts_comma.append whole).append (CParameters.shifts_more rest worded.2)
  | .variadic rest, worded => by
    rw [CParameters.more, String.toList_append, String.toList_append]
    exact (shifts_comma.append shifts_dots).append
      (CParameters.shifts_more rest worded)

end

end Shifts

section Injective

theorem CType.gap_injective {type type' : CType} (same : type.gap = type'.gap) :
    type.isSuffix = type'.isSuffix := by
  cases suffix : type.isSuffix <;> cases suffix' : type'.isSuffix
  all_goals simp [CType.gap, suffix, suffix'] at same ⊢

theorem CType.gap_not_sign (type : CType) : isSign type.gap = false := by
  cases suffix : type.isSuffix <;> simp [CType.gap, suffix, isSign]

theorem sign_injective {kind kind' : PointerReference.Kind}
    (same : kind.sign.toList = kind'.sign.toList) : kind = kind' := by
  cases kind <;> cases kind' <;> first | rfl | exact absurd same (by decide)

theorem plain_not_sign {c : Char} (plain : plainChar c = true) : (!isSign c) = true := by
  have unmarked := plain_unmarked plain
  simp [isSign, unmarked]

/-- What a pointer adds to the left is determined by the whole. -/
theorem pointer_inj {kind kind' : PointerReference.Kind} {qualifiers qualifiers' : Qualifiers}
    {type type' : CType}
    (same : (CType.pointerReference qualifiers kind type).left =
      (CType.pointerReference qualifiers' kind' type').left) :
    qualifiers = qualifiers' ∧ kind = kind' ∧ type.gap = type'.gap ∧ type.left = type'.left := by
  rw [CType.left_pointer, CType.left_pointer] at same
  have ends (kind : PointerReference.Kind) : ∃ init last, kind.sign.toList = init ++ [last] ∧
      (!isSign last) = false := by
    cases kind with
    | pointer => exact ⟨[], '*', rfl, rfl⟩
    | lvalueReference => exact ⟨[], '&', rfl, rfl⟩
    | rvalueReference => exact ⟨['&'], '&', rfl, rfl⟩
  obtain ⟨init, last, split, sign⟩ := ends kind
  obtain ⟨init', last', split', sign'⟩ := ends kind'
  have grouped : (type.left ++ type.gap :: init) ++ last :: qualifiers.trailing.toList =
      (type'.left ++ type'.gap :: init') ++ last' :: qualifiers'.trailing.toList := by
    rw [split, split'] at same
    simpa using same
  have plain (qualifiers : Qualifiers) : ∀ c ∈ qualifiers.trailing.toList, (!isSign c) = true :=
    fun c present => plain_not_sign (plain_trailing _ c present)
  obtain ⟨trails, _⟩ := append_inj_of_stop_right (plain _) (plain _) sign sign' grouped
  rw [trails, ← List.cons_append, ← List.cons_append, ← List.append_assoc, ← List.append_assoc]
    at same
  obtain ⟨_, _, _, _, signs⟩ := sign_split kind
  obtain ⟨_, _, _, _, signs'⟩ := sign_split kind'
  obtain ⟨kinds, lefts, gaps⟩ := append_inj_of_stop_right signs signs' type.gap_not_sign
    type'.gap_not_sign (List.append_cancel_right same)
  exact ⟨trailing_injective trails, sign_injective kinds, gaps, lefts⟩

theorem pointer_has_sign (qualifiers : Qualifiers) (kind : PointerReference.Kind) (type : CType) :
    ∃ c ∈ (CType.pointerReference qualifiers kind type).left, isSign c = true := by
  obtain ⟨c, rest, same, sign, _⟩ := sign_split kind
  refine ⟨c, ?_, sign⟩
  rw [CType.left_pointer, same]
  simp

theorem base_no_sign {qualifiers qualifiers' : Qualifiers} {name : String}
    {kind : PointerReference.Kind} {type : CType} (words : Words name) :
    (CType.base qualifiers name).left ≠ (CType.pointerReference qualifiers' kind type).left := by
  intro same
  obtain ⟨c, present, sign⟩ := pointer_has_sign qualifiers' kind type
  rw [← same] at present
  have plain := plain_not_sign (plain_base words c present)
  rw [sign] at plain
  cases plain

/-- Where there is no suffix the text behind the declarator is empty or ends a group. -/
theorem CType.right_plain : ∀ type : CType, type.isSuffix = false →
    ∀ c, type.right.head? = some c → c = ')'
  | .base _ _, _, c, head => by cases head
  | .pointerReference qualifiers kind pointee, _, c, head => by
    rw [CType.right_pointer] at head
    cases suffix : pointee.isSuffix with
    | true => simpa [suffix, eq_comm] using head
    | false => exact CType.right_plain pointee suffix c (by simpa [suffix] using head)

theorem bounds_inj {number number' : UInt64} {rest rest' : List Char}
    (same : (print number).toList ++ ']' :: rest = (print number').toList ++ ']' :: rest') :
    number = number' ∧ rest = rest' := by
  obtain ⟨digits, later⟩ := append_inj_of_stop (digits_of_print number) (digits_of_print number')
    (by decide) (by decide) same
  refine ⟨?_, (List.cons.inj later).2⟩
  have shown : number.toNat.repr = number'.toNat.repr := String.toList_inj.mp digits
  exact UInt64.toNat_inj.mp (Nat.repr_injective shown)

theorem item_inj {type type' : CType} (worded : type.Worded) (worded' : type'.Worded) {c c' : Char}
    {rest rest' : List Char} (stop : c = ')' ∨ c = ',') (stop' : c' = ')' ∨ c' = ',')
    (same : (print type.name).toList ++ c :: rest = (print type'.name).toList ++ c' :: rest') :
    (type.left = type'.left ∧ type.right = type'.right) ∧ c :: rest = c' :: rest' := by
  obtain ⟨_, before, after⟩ := CType.shifts _ worded
  obtain ⟨_, before', after'⟩ := CType.shifts _ worded'
  have whole : Shifts marks (print type.name).toList 0 0 := by
    rw [CType.print_toList]
    exact before.append after
  have whole' : Shifts marks (print type'.name).toList 0 0 := by
    rw [CType.print_toList]
    exact before'.append after'
  obtain ⟨prints, later⟩ := whole.inj whole' (by decide) (by decide) (by decide) stop stop' same
  exact ⟨CType.print_inj worded worded' prints, later⟩

/-- What stands behind a parameter: nothing, or a comma and the other parameters. -/
theorem CParameters.more_cases (parameters : CParameters) :
    parameters = .nil ∨ parameters.more = ", " ++ parameters.text := by
  cases parameters with
  | nil => exact .inl rfl
  | type first others =>
    right
    rw [CParameters.more, CParameters.text, String.append_assoc]
  | variadic others =>
    right
    rw [CParameters.more, CParameters.text, String.append_assoc]

theorem CParameters.more_comma {parameters : CParameters}
    (behind : parameters.more = ", " ++ parameters.text) (rest : List Char) :
    parameters.more.toList ++ ')' :: rest =
      ',' :: ' ' :: (parameters.text.toList ++ ')' :: rest) := by
  rw [behind, String.toList_append, List.append_assoc]
  rfl

theorem CParameters.more_head (parameters : CParameters) (rest : List Char) :
    ∃ c tail, parameters.more.toList ++ ')' :: rest = c :: tail ∧ (c = ')' ∨ c = ',') := by
  obtain rfl | behind := parameters.more_cases
  · exact ⟨')', rest, rfl, .inl rfl⟩
  · exact ⟨',', _, CParameters.more_comma behind rest, .inr rfl⟩

theorem CParameters.type_head {first : CType} {others : CParameters}
    (worded : (CParameters.type first others).Worded) (rest : List Char) :
    ∃ c tail, (CParameters.type first others).text.toList ++ rest = c :: tail ∧
      identifierChar c = true := by
  obtain ⟨c, tail, same, identifier⟩ := CType.left_head _ worded.1
  rw [CParameters.text, String.toList_append, CType.print_toList, same]
  exact ⟨c, _, rfl, identifier⟩

theorem CParameters.variadic_head (others : CParameters) (rest : List Char) :
    ∃ tail, (CParameters.variadic others).text.toList ++ rest = '.' :: tail := by
  rw [CParameters.text, String.toList_append]
  exact ⟨_, rfl⟩

theorem CParameters.more_inj {parameters parameters' : CParameters} {rest rest' : List Char}
    (text : ∀ rest rest', parameters.text.toList ++ ')' :: rest =
      parameters'.text.toList ++ ')' :: rest' → parameters = parameters' ∧ rest = rest')
    (same : parameters.more.toList ++ ')' :: rest = parameters'.more.toList ++ ')' :: rest') :
    parameters = parameters' ∧ rest = rest' := by
  obtain rfl | behind := parameters.more_cases
  · obtain rfl | behind' := parameters'.more_cases
    · exact ⟨rfl, (List.cons.inj same).2⟩
    · rw [CParameters.more_comma behind'] at same
      exact absurd (List.cons.inj same).1 (by decide)
  · rw [CParameters.more_comma behind] at same
    obtain rfl | behind' := parameters'.more_cases
    · exact absurd (List.cons.inj same).1 (by decide)
    · rw [CParameters.more_comma behind'] at same
      exact text _ _ (List.cons.inj (List.cons.inj same).2).2

mutual

/-- A type is determined by the two parts of its name. -/
theorem CType.parts_inj : ∀ (type type' : CType), type.Worded → type'.Worded →
    type.left = type'.left → type.right = type'.right → type = type'
  | .base qualifiers name, type', worded, worded', lefts, rights => by
    cases type' with
    | base qualifiers' name' =>
      rw [CType.left_base, CType.left_base, ← String.toList_append, ← String.toList_append] at lefts
      obtain ⟨rfl, rfl⟩ := leading_injective worded worded' lefts
      rfl
    | pointerReference qualifiers' kind' pointee' => exact absurd lefts (base_no_sign worded)
    | array number' element' =>
      rw [CType.right_array] at rights
      cases rights
    | function parameters' returned' =>
      rw [CType.right_function] at rights
      cases rights
  | .pointerReference qualifiers kind pointee, type', worded, worded', lefts, rights => by
    have plain := CType.right_plain (.pointerReference qualifiers kind pointee) rfl
    cases type' with
    | base qualifiers' name' => exact absurd lefts.symm (base_no_sign worded')
    | pointerReference qualifiers' kind' pointee' =>
      obtain ⟨rfl, rfl, gaps, inner⟩ := pointer_inj lefts
      have suffixes := CType.gap_injective gaps
      rw [CType.right_pointer, CType.right_pointer, suffixes] at rights
      rw [CType.parts_inj pointee pointee' worded worded' inner (List.append_cancel_left rights)]
    | array number' element' =>
      rw [rights, CType.right_array] at plain
      exact absurd (plain '[' rfl) (by decide)
    | function parameters' returned' =>
      rw [rights, CType.right_function] at plain
      exact absurd (plain '(' rfl) (by decide)
  | .array number element, type', worded, worded', lefts, rights => by
    rw [CType.left_array] at lefts
    rw [CType.right_array] at rights
    cases type' with
    | base qualifiers' name' => cases rights
    | pointerReference qualifiers' kind' pointee' =>
      have plain := CType.right_plain (.pointerReference qualifiers' kind' pointee') rfl
      rw [← rights] at plain
      exact absurd (plain '[' rfl) (by decide)
    | array number' element' =>
      rw [CType.left_array] at lefts
      rw [CType.right_array] at rights
      obtain ⟨rfl, inner⟩ := bounds_inj (List.cons.inj rights).2
      rw [CType.parts_inj element element' worded worded' lefts inner]
    | function parameters' returned' =>
      rw [CType.right_function] at rights
      exact absurd (List.cons.inj rights).1 (by decide)
  | .function parameters returned, type', worded, worded', lefts, rights => by
    rw [CType.left_function] at lefts
    rw [CType.right_function] at rights
    cases type' with
    | base qualifiers' name' => cases rights
    | pointerReference qualifiers' kind' pointee' =>
      have plain := CType.right_plain (.pointerReference qualifiers' kind' pointee') rfl
      rw [← rights] at plain
      exact absurd (plain '(' rfl) (by decide)
    | array number' element' =>
      rw [CType.right_array] at rights
      exact absurd (List.cons.inj rights).1 (by decide)
    | function parameters' returned' =>
      rw [CType.left_function] at lefts
      rw [CType.right_function] at rights
      obtain ⟨rfl, inner⟩ := CParameters.text_inj parameters parameters' _ _ worded.1 worded'.1
        (List.cons.inj rights).2
      rw [CType.parts_inj returned returned' worded.2 worded'.2 lefts inner]

theorem CParameters.text_inj : ∀ (parameters parameters' : CParameters) (rest rest' : List Char),
    parameters.Worded → parameters'.Worded →
    parameters.text.toList ++ ')' :: rest = parameters'.text.toList ++ ')' :: rest' →
    parameters = parameters' ∧ rest = rest'
  | .nil, parameters', rest, rest', _, worded', same => by
    cases parameters' with
    | nil => exact ⟨rfl, (List.cons.inj same).2⟩
    | type first' others' =>
      obtain ⟨c, tail, starts, identifier⟩ := CParameters.type_head worded' (')' :: rest')
      rw [starts] at same
      obtain rfl : ')' = c := (List.cons.inj same).1
      cases identifier
    | variadic others' =>
      obtain ⟨tail, starts⟩ := CParameters.variadic_head others' (')' :: rest')
      rw [starts] at same
      exact absurd (List.cons.inj same).1 (by decide)
  | .type first others, parameters', rest, rest', worded, worded', same => by
    cases parameters' with
    | nil =>
      obtain ⟨c, tail, starts, identifier⟩ := CParameters.type_head worded (')' :: rest)
      rw [starts] at same
      obtain rfl : c = ')' := (List.cons.inj same).1
      cases identifier
    | type first' others' =>
      simp only [CParameters.text, String.toList_append, List.append_assoc] at same
      obtain ⟨c, tail, starts, stop⟩ := CParameters.more_head others rest
      obtain ⟨c', tail', starts', stop'⟩ := CParameters.more_head others' rest'
      rw [starts, starts'] at same
      obtain ⟨⟨lefts, rights⟩, later⟩ := item_inj worded.1 worded'.1 stop stop' same
      obtain rfl := CType.parts_inj first first' worded.1 worded'.1 lefts rights
      rw [← starts, ← starts'] at later
      obtain ⟨rfl, ends⟩ := CParameters.more_inj (fun rest rest' =>
        CParameters.text_inj others others' rest rest' worded.2 worded'.2) later
      exact ⟨rfl, ends⟩
    | variadic others' =>
      obtain ⟨c, tail, starts, identifier⟩ := CParameters.type_head worded (')' :: rest)
      obtain ⟨tail', starts'⟩ := CParameters.variadic_head others' (')' :: rest')
      rw [starts, starts'] at same
      obtain rfl : c = '.' := (List.cons.inj same).1
      cases identifier
  | .variadic others, parameters', rest, rest', worded, worded', same => by
    obtain ⟨tail, starts⟩ := CParameters.variadic_head others (')' :: rest)
    cases parameters' with
    | nil =>
      rw [starts] at same
      exact absurd (List.cons.inj same).1 (by decide)
    | type first' others' =>
      obtain ⟨c, tail', starts', identifier⟩ := CParameters.type_head worded' (')' :: rest')
      rw [starts, starts'] at same
      obtain rfl : '.' = c := (List.cons.inj same).1
      cases identifier
    | variadic others' =>
      simp only [CParameters.text, String.toList_append, List.append_assoc] at same
      obtain ⟨rfl, ends⟩ := CParameters.more_inj (fun rest rest' =>
        CParameters.text_inj others others' rest rest' worded worded')
          (List.append_cancel_left same)
      exact ⟨rfl, ends⟩

end

end Injective

mutual

/-- The base types are named by words. -/
def TypeTree.Worded : TypeTree → Prop
  | .base name => Words name
  | .qualified _ type => type.Worded
  | .pointerReference _ pointee => pointee.Worded
  | .array _ element => element.Worded
  | .function parameters returned => parameters.Worded ∧ returned.Worded

def ParameterTrees.Worded : ParameterTrees → Prop
  | .nil => True
  | .type type rest => type.Worded ∧ rest.Worded
  | .variadic rest => rest.Worded

end

mutual

theorem TypeTree.merge_worded : ∀ (tree : TypeTree) (qualifiers : Qualifiers), tree.Worded →
    (tree.merge qualifiers).Worded
  | .base _, _, worded => worded
  | .qualified qualifier type, qualifiers, worded =>
    TypeTree.merge_worded type (insert qualifier qualifiers) worded
  | .pointerReference _ pointee, _, worded => TypeTree.merge_worded pointee ∅ worded
  | .array _ element, _, worded => TypeTree.merge_worded element ∅ worded
  | .function parameters returned, _, worded =>
    ⟨ParameterTrees.merge_worded parameters worded.1, TypeTree.merge_worded returned ∅ worded.2⟩

theorem ParameterTrees.merge_worded : ∀ trees : ParameterTrees, trees.Worded → trees.merge.Worded
  | .nil, _ => trivial
  | .type type rest, worded =>
    ⟨TypeTree.merge_worded type ∅ worded.1, ParameterTrees.merge_worded rest worded.2⟩
  | .variadic rest, worded => ParameterTrees.merge_worded rest worded

end

section Unambiguous

theorem CType.print_injective {type type' : CType} (worded : type.Worded) (worded' : type'.Worded)
    (same : print type.name = print type'.name) : type = type' := by
  obtain ⟨lefts, rights⟩ := CType.print_inj worded worded' (congrArg String.toList same)
  exact CType.parts_inj type type' worded worded' lefts rights

/-- Types are described without an error and as C declares them, and types with different
meanings are described differently. -/
theorem type_names_unambiguous {graph graph' : Graph} {id id' : Id} {tree tree' : TypeTree}
    (at_ : tree.At graph id) (at_' : tree'.At graph' id') (worded : tree.Worded)
    (worded' : tree'.Worded) : ∃ name name',
      Caching graph [] (fun fuel => getDescription graph fuel id) name ∧
      Caching graph' [] (fun fuel => getDescription graph' fuel id') name' ∧
      print name = tree.type.declare "" ∧ print name' = tree'.type.declare "" ∧
      (print name = print name' ↔ tree.type = tree'.type) := by
  refine ⟨tree.type.name, tree'.type.name, at_.cached nofun, at_'.cached nofun,
    tree.type.print_eq, tree'.type.print_eq, ?_, ?_⟩
  · exact CType.print_injective (tree.merge_worded ∅ worded) (tree'.merge_worded ∅ worded')
  · intro same
    rw [same]

/-- A pointer to a constant integer and a constant pointer to an integer. -/
def twoPointersToInt : Graph where
  nodes := [some (.integer ⟨"int", .signedInteger, 32, 4⟩), some (.qualified ⟨.const, ⟨0⟩⟩),
    some (.pointerReference ⟨.pointer, ⟨1⟩⟩), some (.pointerReference ⟨.pointer, ⟨0⟩⟩),
    some (.qualified ⟨.const, ⟨3⟩⟩)]

theorem words_int : Words "int" :=
  ⟨["int"], by decide, by simpa using ⟨by decide, by decide, fun q => by cases q <;> decide⟩, rfl⟩

theorem type_names_unambiguous_const : ∃ name name',
    Caching twoPointersToInt [] (fun fuel => getDescription twoPointersToInt fuel ⟨2⟩) name ∧
    Caching twoPointersToInt [] (fun fuel => getDescription twoPointersToInt fuel ⟨4⟩) name' ∧
    print name = "const int *" ∧ print name' = "int * const" := by
  have int : (TypeTree.base "int").At twoPointersToInt ⟨0⟩ := ⟨_, rfl, rfl⟩
  have at_ : (TypeTree.pointerReference .pointer (.qualified .const (.base "int"))).At
      twoPointersToInt ⟨2⟩ := ⟨_, rfl, rfl, _, rfl, rfl, int⟩
  have at_' : (TypeTree.qualified .const (.pointerReference .pointer (.base "int"))).At
      twoPointersToInt ⟨4⟩ := ⟨_, rfl, rfl, _, rfl, rfl, int⟩
  obtain ⟨name, name', caching, caching', shown, shown', _⟩ :=
    type_names_unambiguous at_ at_' words_int words_int
  refine ⟨name, name', caching, caching', shown.trans ?_, shown'.trans ?_⟩
  · decide +kernel
  · decide +kernel

end Unambiguous

end Stg
