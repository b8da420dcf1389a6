import GenericSignature.Proofs.Reading.Loop
import GenericSignature.Proofs.WellFormed

/-! The readings of names. -/

set_option autoImplicit false

namespace GenericSignature

variable {depth : Nat} {read text : List Char} {next : Option Char}

def Language.names : Language String where
  chars := String.toList
  Admits := Identifier.IsName
  Ends _ next := ∀ char ∈ next, Identifier.isNameChar char = false

def Language.identifiers : Language Identifier where
  chars identifier := identifier.text.toList
  Admits identifier := Identifier.IsName identifier.text
  Ends _ next := ∀ char ∈ next, Identifier.isNameChar char = false

theorem Parser.yields_name {place : NamePlace} (nonempty : read ≠ [])
    (inside : ∀ char ∈ read, Identifier.isNameChar char = true)
    (ends : ∀ char ∈ next, Identifier.isNameChar char = false) :
    (name place).Yields depth read next (.ok (String.ofList read)) := by
  intro before faithful _ tail ahead head
  have taken : before.rest.takeWhile Identifier.isNameChar = read := by
    rw [ahead]
    exact Text.takeWhile_append inside (head ▸ ends)
  obtain ⟨first, rest, rfl⟩ := List.exists_cons_of_ne_nil nonempty
  refine ⟨_, Cursor.advance_passes faithful ahead, ?_⟩
  simp only [name, taken]
  rfl

theorem Parser.yields_name_empty {place : NamePlace}
    (ends : ∀ char ∈ next, Identifier.isNameChar char = false) :
    (name place).Yields depth [] next (.error (.emptyIdentifier place)) := by
  intro before faithful level tail ahead head
  have taken : before.rest.takeWhile Identifier.isNameChar = [] := by
    rw [ahead]
    exact Text.takeWhile_append (by simp) (head ▸ ends)
  obtain ⟨after, passes, failed⟩ :=
    yields_fail (.emptyIdentifier place) before faithful level tail ahead head
  refine ⟨after, passes, ?_⟩
  simp only [name, taken]
  exact failed

theorem Identifier.isName_ofList (nonempty : read ≠ [])
    (inside : ∀ char ∈ read, isNameChar char = true) : IsName (String.ofList read) := by
  refine ⟨fun empty => ?_, ?_⟩
  · have none : (String.ofList read).toList = [] := String.toList_eq_nil_iff.mpr empty
    rw [String.toList_ofList] at none
    exact nonempty none
  · rw [String.toList_ofList]
    exact inside

/-- Any name will do to complete a text that stops where a name has to begin. -/
theorem Identifier.isName_sample : IsName "A" :=
  isName_ofList (List.cons_ne_nil 'A' []) (List.forall_mem_singleton.mpr rfl)

theorem Parser.name_recognizes (place : NamePlace) :
    (name place).Recognizes depth Language.names where
  reads text next isName ends := by
    have nonempty : text.toList ≠ [] := fun none => isName.1 (String.toList_eq_nil_iff.mp none)
    have yields : (name place).Yields depth text.toList next (.ok (String.ofList text.toList)) :=
      yields_name nonempty isName.2 ends
    rwa [String.ofList_toList] at yields
  explains text := by
    obtain ⟨read, tail, split, inside, ends⟩ := Text.exists_takeWhile Identifier.isNameChar text
    by_cases empty : read = []
    · subst empty
      exact ⟨[], tail, _, split, yields_name_empty ends, "A", Identifier.isName_sample,
        List.nil_prefix⟩
    · refine ⟨read, tail, _, split, yields_name empty inside ends, ?_⟩
      exact ⟨String.toList_ofList.symm, Identifier.isName_ofList empty inside, ends⟩

/-- Whether or not the name was read before, it comes back with its own text. -/
theorem Parser.yields_shared (text : String) :
    (shared text).Yields depth [] next (.ok ⟨text⟩) := by
  intro before faithful _ tail ahead _
  unfold shared
  cases known : before.names[text]? with
  | some identifier =>
    have same : identifier = ⟨text⟩ := by
      rw [← faithful text identifier known]
    subst same
    exact ⟨before, faithful.passes, rfl⟩
  | none =>
    refine ⟨{ before with names := before.names.insert text ⟨text⟩ }, ⟨rfl, rfl, rfl, ?_⟩, rfl⟩
    intro other identifier kept
    rw [Std.HashMap.getElem?_insert] at kept
    split at kept
    · next same =>
      cases kept
      exact eq_of_beq same
    · exact faithful other identifier kept

theorem Parser.identifier_recognizes (place : NamePlace) :
    (identifier place).Recognizes depth Language.identifiers where
  reads known next isName ends := by
    have yields : (identifier place).Yields depth (known.text.toList ++ []) next (.ok known) :=
      (name_recognizes place).yields_bind known.text isName ends (yields_shared known.text)
    rwa [List.append_nil] at yields
  explains text := by
    apply (name_recognizes place).meets_bind
    · intro name tail _ isName ends
      refine ⟨[], tail, _, rfl, yields_shared name, ?_⟩
      exact ⟨List.append_nil _, isName, ends⟩
    · intro name read next fault isName begins
      exact ⟨⟨name⟩, isName, begins⟩

/-! ## Binary names -/

def Language.binaryNames : Language String where
  chars := String.toList
  Admits := ClassType.IsBinaryName
  Ends _ next := ∀ char ∈ next, Identifier.isNameChar char = false ∧ char ≠ '/'

/-- The names of a binary name after the first. -/
def Loop.names : Loop String := marked Language.names '/'

theorem Loop.names_lawful : names.Lawful :=
  marked_lawful fun _ _ => by
    rintro char ⟨⟩
    decide

theorem ClassType.toList_binaryName (first : String) (others : List String) :
    ("/".intercalate (first :: others)).toList = first.toList ++ Loop.names.chars others := by
  induction others generalizing first with
  | nil => simp [Loop.names, Loop.marked, Loop.chars]
  | cons second rest ih =>
    rw [String.intercalate_cons_cons, String.toList_append, String.toList_append, ih,
      Loop.chars_cons, List.append_assoc]
    rfl

theorem ClassType.isBinaryName_cons {first : String} {others : List String}
    (isName : Identifier.IsName first) (areNames : ∀ name ∈ others, Identifier.IsName name) :
    IsBinaryName ("/".intercalate (first :: others)) := by
  refine ⟨first :: others, List.cons_ne_nil first others, ?_, rfl⟩
  rw [List.forall_mem_cons]
  exact ⟨isName, areNames⟩

theorem Parser.binaryName_recognizes : binaryName.Recognizes depth Language.binaryNames where
  reads binaryName next isName ends := by
    obtain ⟨names, nonempty, areNames, rfl⟩ := isName
    obtain ⟨first, others, rfl⟩ := List.exists_cons_of_ne_nil nonempty
    have admits := (Loop.names.language_admits_iff fun _ _ => trivial).mpr areNames
    obtain ⟨isName, -, admitsOthers⟩ := Loop.admits_cons.mp admits
    -- A slash would start another name, and any other name character would prolong the last.
    have endsOthers : (Loop.names.language (some first)).Ends others next :=
      ⟨fun slash => (ends '/' slash).2 rfl, fun _ _ char stands => (ends char stands).1⟩
    have endsFirst := Loop.ends_item Loop.names_lawful isName admitsOthers endsOthers
    have yieldsOthers : (repeatWhile (consume '/') (name .binaryName)).Yields depth
        (Loop.names.chars others) next (.ok others) :=
      repeatWhile_yields Loop.marked_guardedBy Loop.names_lawful (name_recognizes .binaryName)
        admitsOthers endsOthers
    change Parser.binaryName.Yields depth ("/".intercalate (first :: others)).toList next _
    rw [ClassType.toList_binaryName]
    exact (name_recognizes .binaryName).yields_bind first isName endsFirst yieldsOthers.bind_pure
  explains text := by
    apply (name_recognizes .binaryName).meets_bind
    · intro first tail _ isName ends
      have others : (repeatWhile (consume '/') (name .binaryName)).Meets depth tail
          (Loop.names.language (some first)).Explains :=
        repeatWhile_meets Loop.marked_guardedBy Loop.names_lawful (name_recognizes .binaryName)
          (by rintro _ ⟨⟩; exact isName) (by rintro _ ⟨⟩; exact ends)
      apply others.bind
      · rintro _ rest others - ⟨rfl, areNames, noSlash, ends⟩
        apply meets_pure
        rw [List.append_nil]
        refine ⟨(ClassType.toList_binaryName first others).symm,
          ClassType.isBinaryName_cons isName areNames.1, fun char stands => ⟨?_, ?_⟩⟩
        · exact ends _ (List.getLast?_eq_some_getLast (List.cons_ne_nil first others)) char stands
        · rintro rfl
          exact noSlash stands
      · intro read next fault ⟨others, areNames, begins⟩
        refine ⟨_, ClassType.isBinaryName_cons isName areNames.1, ?_⟩
        change first.toList ++ read <+: ("/".intercalate (first :: others)).toList
        rw [ClassType.toList_binaryName]
        exact (List.prefix_append_right_inj _).mpr begins
    · intro name read next fault isName begins
      refine ⟨_, ClassType.isBinaryName_cons isName (List.forall_mem_nil _), ?_⟩
      change read <+: ("/".intercalate [name]).toList
      rw [ClassType.toList_binaryName]
      exact begins.trans (List.prefix_append _ _)

end GenericSignature
