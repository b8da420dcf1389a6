import GenericSignature.Proofs.Reading.Repetition

/-! Languages of repeated items. -/

set_option autoImplicit false

namespace GenericSignature

variable {α : Type}

/-- Every item stands after `opening`, and `closing` stands after the last one. The next character
says by `Goes` whether there is another item, and `Joins` says which items may be neighbours. -/
structure Loop (α : Type) where
  item : Language α
  opening : List Char
  closing : List Char
  Goes : Option Char → Prop
  Joins : α → α → Prop

def Loop.itemChars (loop : Loop α) (value : α) : List Char := loop.opening ++ loop.item.chars value

def Loop.chars (loop : Loop α) (items : List α) : List Char :=
  items.flatMap loop.itemChars ++ loop.closing

/-- The items after `previous`, which the first of them has to join. -/
def Loop.language (loop : Loop α) (previous : Option α) : Language (List α) where
  chars := loop.chars
  Admits items := (∀ value ∈ items, loop.item.Admits value) ∧
    (previous.toList ++ items).IsChain loop.Joins
  Ends items next := ¬ loop.Goes (loop.closing.head?.or next) ∧
    ∀ last ∈ (previous.toList ++ items).getLast?, loop.item.Ends last (loop.closing.head?.or next)

/-- An item shows by its first character that it is one, and whether it can follow another. -/
structure Loop.Lawful (loop : Loop α) : Prop where
  nonempty : ∀ value, loop.item.Admits value → loop.itemChars value ≠ []
  starts : ∀ value, loop.item.Admits value → loop.Goes (loop.itemChars value).head?
  joins : ∀ first second, loop.item.Admits first → loop.item.Admits second →
    (loop.item.Ends first (loop.itemChars second).head? ↔ loop.Joins first second)

/-- The parser reads what stands before an item or after the last one, and tells which it is. -/
structure Loop.GuardedBy (loop : Loop α) (more : Parser Bool) (depth : Nat) : Prop where
  goes : ∀ next, loop.Goes (loop.opening.head?.or next) →
    more.Yields depth loop.opening next (.ok true)
  stops : ∀ next, ¬ loop.Goes (loop.closing.head?.or next) →
    more.Yields depth loop.closing next (.ok false)
  opens : ∀ text : List Char, loop.Goes text.head? → loop.opening <+: text
  closes : ∀ text : List Char, ¬ loop.Goes text.head? → loop.closing <+: text

section Items

variable {loop : Loop α} {previous : Option α} {value : α} {items : List α} {next : Option Char}

theorem Loop.chars_cons (loop : Loop α) (value : α) (items : List α) :
    loop.chars (value :: items) = loop.itemChars value ++ loop.chars items := by
  rw [chars, List.flatMap_cons, List.append_assoc, ← chars]

-- For completions: an item begun, and items read before an unfinished rest.
theorem Loop.begins_single (loop : Loop α) (value : α) :
    loop.itemChars value <+: loop.chars [value] := by
  rw [chars_cons]
  exact List.prefix_append _ _

theorem Loop.admits_cons : (loop.language previous).Admits (value :: items) ↔
    loop.item.Admits value ∧ (∀ before ∈ previous, loop.Joins before value) ∧
      (loop.language (some value)).Admits items := by
  cases previous with
  | none => simp [language, and_assoc]
  | some before => simp [language, List.isChain_cons_cons, and_assoc, and_left_comm]

theorem Loop.ends_cons : (loop.language previous).Ends (value :: items) next ↔
    (loop.language (some value)).Ends items next := by
  cases previous <;> simp [language, List.getLast?_cons_cons]

theorem Loop.ends_item (lawful : loop.Lawful) (admitsValue : loop.item.Admits value)
    (admits : (loop.language (some value)).Admits items)
    (ends : (loop.language (some value)).Ends items next) :
    loop.item.Ends value ((loop.chars items).head?.or next) := by
  cases items with
  | nil => exact ends.2 value rfl
  | cons second rest =>
    obtain ⟨admitsSecond, joins, -⟩ := admits_cons.mp admits
    have ends := (lawful.joins value second admitsValue admitsSecond).mpr (joins value rfl)
    obtain ⟨first, others, shape⟩ :=
      List.exists_cons_of_ne_nil (lawful.nonempty second admitsSecond)
    rw [chars_cons, shape]
    rw [shape] at ends
    exact ends

theorem Loop.admits_nil : (loop.language previous).Admits [] := by
  cases previous <;> simp [language]

theorem Loop.joins_of_ends (lawful : loop.Lawful) (admitsValue : loop.item.Admits value)
    (admits : ∀ before ∈ previous, loop.item.Admits before) {read : List Char}
    (nonempty : read ≠ []) (begins : read <+: loop.itemChars value)
    (ends : ∀ before ∈ previous, loop.item.Ends before (read.head?.or next)) :
    ∀ before ∈ previous, loop.Joins before value := by
  intro before same
  obtain ⟨char, others, rfl⟩ := List.exists_cons_of_ne_nil nonempty
  obtain ⟨others', shape⟩ := begins
  apply (lawful.joins before value (admits before same) admitsValue).mp
  rw [← shape]
  exact ends before same

/-- A list that stops inside an item is completed with that item, or without it if nothing of the
item was read. -/
theorem Loop.explains_fail (lawful : loop.Lawful) (admitsValue : loop.item.Admits value)
    (admits : ∀ before ∈ previous, loop.item.Admits before) {read : List Char} {fault : Fault}
    (begins : read <+: loop.item.chars value)
    (ends : ∀ before ∈ previous, loop.item.Ends before ((loop.opening ++ read).head?.or next)) :
    (loop.language previous).Explains (loop.opening ++ read) next (.error fault) := by
  by_cases empty : loop.opening ++ read = []
  · exact ⟨[], admits_nil, empty ▸ List.nil_prefix⟩
  · have begins : loop.opening ++ read <+: loop.itemChars value :=
      (List.prefix_append_right_inj loop.opening).mpr begins
    refine ⟨[value], admits_cons.mpr ⟨admitsValue, ?_, admits_nil⟩, ?_⟩
    · exact joins_of_ends lawful admitsValue admits empty begins ends
    · exact begins.trans (loop.begins_single value)

theorem Loop.begins_cons {read : List Char}
    (begins : read <+: loop.chars items) :
    loop.itemChars value ++ read <+: loop.chars (value :: items) := by
  rw [chars_cons]
  exact (List.prefix_append_right_inj _).mpr begins

theorem Loop.explains_step (admitsValue : loop.item.Admits value)
    (joins : ∀ before ∈ previous, loop.Joins before value) {read : List Char}
    {outcome : Except Fault (List α)}
    (explained : (loop.language (some value)).Explains read next outcome) :
    (loop.language previous).Explains (loop.itemChars value ++ read) next
      (outcome.map (value :: ·)) := by
  cases outcome with
  | ok rest =>
    obtain ⟨rfl, admits, ends⟩ := explained
    exact ⟨(loop.chars_cons value rest).symm, admits_cons.mpr ⟨admitsValue, joins, admits⟩,
      ends_cons.mpr ends⟩
  | error fault =>
    obtain ⟨rest, admits, begins⟩ := explained
    exact ⟨value :: rest, admits_cons.mpr ⟨admitsValue, joins, admits⟩, begins_cons begins⟩

end Items

section Readings

variable {loop : Loop α} {more : Parser Bool} {item : Parser α} {depth : Nat}
  {previous : Option α} {next : Option Char} {items : List α} {text : List Char}

theorem Loop.reads (guarded : loop.GuardedBy more depth) (lawful : loop.Lawful)
    (recognizes : item.Recognizes depth loop.item) (admits : (loop.language previous).Admits items)
    (ends : (loop.language previous).Ends items next) :
    Parser.RoundsYield more item depth (loop.chars items) next (.ok items) := by
  induction items generalizing previous with
  | nil => exact .stop (guarded.stops next ends.1)
  | cons value rest ih =>
    obtain ⟨admitsValue, -, admitsRest⟩ := admits_cons.mp admits
    have endsRest := ends_cons.mp ends
    have starts := lawful.starts value admitsValue
    obtain ⟨first, others, shape⟩ := List.exists_cons_of_ne_nil (lawful.nonempty value admitsValue)
    rw [chars_cons, itemChars, List.append_assoc]
    -- What stands ahead of the opening is the first character of the item with its opening.
    refine .step (guarded.goes _ ?_)
      (recognizes.reads value _ admitsValue (ends_item lawful admitsValue admitsRest endsRest))
      (lawful.nonempty value admitsValue) (ih admitsRest endsRest)
    rw [← Option.or_assoc, ← List.head?_append, ← List.append_assoc, ← itemChars, shape]
    rw [shape] at starts
    exact starts

theorem Loop.meets_stop (guarded : loop.GuardedBy more depth) (stops : ¬ loop.Goes text.head?)
    (ends : ∀ before ∈ previous, loop.item.Ends before text.head?) :
    Parser.RoundsMeet more item depth text (loop.language previous).Explains := by
  obtain ⟨tail, rfl⟩ := guarded.closes text stops
  rw [List.head?_append] at stops ends
  refine ⟨loop.closing, tail, .ok [], rfl, .stop (guarded.stops _ stops), rfl, admits_nil, stops,
    ?_⟩
  cases previous with
  | none => nofun
  | some before =>
    intro last same
    cases same
    exact ends before rfl

theorem Loop.meets_fail (guarded : loop.GuardedBy more depth) (lawful : loop.Lawful)
    {value : α} {fault : Fault} {read tail : List Char}
    (goes : loop.Goes (loop.opening ++ (read ++ tail)).head?)
    (yields : item.Yields depth read tail.head? (.error fault))
    (admitsValue : loop.item.Admits value) (begins : read <+: loop.item.chars value)
    (admits : ∀ before ∈ previous, loop.item.Admits before)
    (ends : ∀ before ∈ previous,
      loop.item.Ends before (loop.opening ++ (read ++ tail)).head?) :
    Parser.RoundsMeet more item depth (loop.opening ++ (read ++ tail))
      (loop.language previous).Explains := by
  rw [← List.append_assoc, List.head?_append] at ends
  rw [List.head?_append, List.head?_append] at goes
  exact ⟨loop.opening ++ read, tail, .error fault, (List.append_assoc _ _ _).symm,
    .fail (guarded.goes _ goes) yields, explains_fail lawful admitsValue admits begins ends⟩

theorem Loop.meets_step (guarded : loop.GuardedBy more depth) (lawful : loop.Lawful) {value : α}
    {tail : List Char} (goes : loop.Goes (loop.itemChars value ++ tail).head?)
    (yields : item.Yields depth (loop.item.chars value) tail.head? (.ok value))
    (admitsValue : loop.item.Admits value)
    (admits : ∀ before ∈ previous, loop.item.Admits before)
    (ends : ∀ before ∈ previous, loop.item.Ends before (loop.itemChars value ++ tail).head?)
    (others : Parser.RoundsMeet more item depth tail (loop.language (some value)).Explains) :
    Parser.RoundsMeet more item depth (loop.itemChars value ++ tail)
      (loop.language previous).Explains := by
  obtain ⟨read, rest, outcome, rfl, yieldsOthers, explained⟩ := others
  have progress := lawful.nonempty value admitsValue
  rw [List.head?_append] at ends
  have joins := joins_of_ends lawful admitsValue admits progress List.prefix_rfl ends
  rw [List.head?_append] at yields
  rw [itemChars, List.append_assoc, List.head?_append, ← List.append_assoc,
    List.head?_append] at goes
  refine ⟨loop.itemChars value ++ read, rest, _, (List.append_assoc _ _ _).symm, ?_,
    explains_step admitsValue joins explained⟩
  rw [itemChars, List.append_assoc]
  exact .step (guarded.goes _ goes) yields progress yieldsOthers

theorem Loop.meets (guarded : loop.GuardedBy more depth) (lawful : loop.Lawful)
    (recognizes : item.Recognizes depth loop.item) (previous : Option α) (text : List Char)
    (admits : ∀ before ∈ previous, loop.item.Admits before)
    (ends : ∀ before ∈ previous, loop.item.Ends before text.head?) :
    Parser.RoundsMeet more item depth text (loop.language previous).Explains := by
  -- An item takes at least a character, so the text left behind it is shorter.
  induction size : text.length using Nat.strongRecOn generalizing text previous with
  | ind length ih =>
    subst size
    by_cases goes : loop.Goes text.head?
    · obtain ⟨ahead, rfl⟩ := guarded.opens text goes
      obtain ⟨read, tail, outcome, rfl, yields, explained⟩ := recognizes.explains ahead
      cases outcome with
      | error fault =>
        obtain ⟨value, admitsValue, begins⟩ := explained
        exact meets_fail guarded lawful goes yields admitsValue begins admits ends
      | ok value =>
        obtain ⟨rfl, admitsValue, endsValue⟩ := explained
        have taken := List.length_pos_iff.mpr (lawful.nonempty value admitsValue)
        rw [← List.append_assoc, ← itemChars] at goes ends ih ⊢
        -- The item found is the neighbour that the rest has to join.
        have others := ih tail.length (by rw [List.length_append]; omega) (some value) tail
          (by rintro _ ⟨⟩; exact admitsValue) (by rintro _ ⟨⟩; exact endsValue) rfl
        exact meets_step guarded lawful goes yields admitsValue admits ends others
    · exact meets_stop guarded goes ends

theorem Parser.repeatWhile_yields {loop : Loop α} (guarded : loop.GuardedBy more depth)
    (lawful : loop.Lawful) (recognizes : item.Recognizes depth loop.item)
    (admits : (loop.language previous).Admits items)
    (ends : (loop.language previous).Ends items next) :
    (repeatWhile more item).Yields depth (loop.chars items) next (.ok items) :=
  (loop.reads guarded lawful recognizes admits ends).repeatWhile

theorem Parser.repeatWhile_meets {loop : Loop α} (guarded : loop.GuardedBy more depth)
    (lawful : loop.Lawful) (recognizes : item.Recognizes depth loop.item)
    (admits : ∀ before ∈ previous, loop.item.Admits before)
    (ends : ∀ before ∈ previous, loop.item.Ends before text.head?) :
    (repeatWhile more item).Meets depth text (loop.language previous).Explains :=
  (loop.meets guarded lawful recognizes previous text admits ends).repeatWhile

theorem Parser.repeatWhile_recognizes {loop : Loop α} (guarded : loop.GuardedBy more depth)
    (lawful : loop.Lawful) (recognizes : item.Recognizes depth loop.item) :
    (repeatWhile more item).Recognizes depth (loop.language none) where
  reads _ _ admits ends := repeatWhile_yields guarded lawful recognizes admits ends
  explains _ := repeatWhile_meets guarded lawful recognizes (by simp) (by simp)

end Readings

/-! ## The three sorts of repetition -/

section Sorts

variable {item : Language α} {mark : Char} {depth : Nat} {Joins : α → α → Prop}

def Loop.marked (item : Language α) (mark : Char) : Loop α where
  item := item
  opening := [mark]
  closing := []
  Goes next := next = some mark
  Joins _ _ := True

def Loop.starting (item : Language α) (first : Char) : Loop α where
  item := item
  opening := []
  closing := []
  Goes next := next = some first
  Joins _ _ := True

def Loop.closed (item : Language α) (closing : Char) (Joins : α → α → Prop) : Loop α where
  item := item
  opening := []
  closing := [closing]
  Goes next := next ≠ some closing
  Joins := Joins

theorem Loop.marked_guardedBy : (marked item mark).GuardedBy (Parser.consume mark) depth where
  goes _ _ := Parser.yields_consume_hit
  stops _ stops := Parser.yields_consume_miss stops
  opens text goes := by
    obtain ⟨tail, rfl⟩ := List.head?_eq_some_iff.mp goes
    exact List.prefix_append [mark] tail
  closes _ _ := List.nil_prefix

theorem Loop.starting_guardedBy :
    (starting item mark).GuardedBy ((· = some mark) <$> Parser.peek) depth where
  goes next goes := by
    have stands : next = some mark := goes
    have answer : ((fun head => decide (head = some mark)) <$> Parser.peek).Yields depth [] next
        (.ok (decide (next = some mark))) := Parser.yields_peek.map
    rwa [decide_eq_true stands] at answer
  stops next stops := by
    have differs : next ≠ some mark := stops
    have answer : ((fun head => decide (head = some mark)) <$> Parser.peek).Yields depth [] next
        (.ok (decide (next = some mark))) := Parser.yields_peek.map
    rwa [decide_eq_false differs] at answer
  opens _ _ := List.nil_prefix
  closes _ _ := List.nil_prefix

theorem Loop.closed_guardedBy :
    (closed item mark Joins).GuardedBy (not <$> Parser.consume mark) depth where
  goes _ goes := (Parser.yields_consume_miss goes).map
  stops _ _ := Parser.yields_consume_hit.map
  opens _ _ := List.nil_prefix
  closes text stops := by
    obtain ⟨tail, rfl⟩ := List.head?_eq_some_iff.mp (Decidable.not_not.mp stops)
    exact List.prefix_append [mark] tail

theorem Loop.marked_lawful (ends : ∀ value, item.Admits value → item.Ends value (some mark)) :
    (marked item mark).Lawful where
  nonempty value _ := List.cons_ne_nil mark (item.chars value)
  starts _ _ := rfl
  joins first _ admits _ := ⟨fun _ => trivial, fun _ => ends first admits⟩

theorem Loop.starting_lawful
    (heads : ∀ value, item.Admits value → (item.chars value).head? = some mark)
    (ends : ∀ value, item.Admits value → item.Ends value (some mark)) :
    (starting item mark).Lawful where
  nonempty value admits empty := by
    have head := heads value admits
    have none : item.chars value = [] := empty
    rw [none] at head
    contradiction
  starts value admits := heads value admits
  joins first second admitsFirst admitsSecond := by
    have head : ((starting item mark).itemChars second).head? = some mark :=
      heads second admitsSecond
    rw [head]
    exact ⟨fun _ => trivial, fun _ => ends first admitsFirst⟩

theorem Loop.closed_lawful
    (heads : ∀ value, item.Admits value → ∃ char ∈ (item.chars value).head?, char ≠ mark)
    (joins : ∀ first second, item.Admits first → item.Admits second →
      (item.Ends first (item.chars second).head? ↔ Joins first second)) :
    (closed item mark Joins).Lawful where
  nonempty value admits := by
    obtain ⟨char, head, -⟩ := heads value admits
    exact List.ne_nil_of_mem (List.mem_of_mem_head? head)
  starts value admits := by
    obtain ⟨char, head, differs⟩ := heads value admits
    change (item.chars value).head? ≠ some mark
    rw [Option.mem_def.mp head]
    exact fun same => differs (Option.some.inj same)
  joins first second admitsFirst admitsSecond := joins first second admitsFirst admitsSecond

/-- Where neighbours do not matter, a list is admitted if its items are. -/
theorem Loop.language_admits_iff (loop : Loop α) (joins : ∀ first second, loop.Joins first second)
    {items : List α} :
    (loop.language none).Admits items ↔ ∀ value ∈ items, loop.item.Admits value := by
  have chain : ([] ++ items).IsChain loop.Joins := (List.pairwise_of_forall joins).isChain
  exact ⟨fun admits => admits.1, fun admits => ⟨admits, chain⟩⟩

/-- The lists of at least one item. -/
def Loop.someLanguage (loop : Loop α) : Language (List α) where
  chars := loop.chars
  Admits items := items ≠ [] ∧ (loop.language none).Admits items
  Ends := (loop.language none).Ends

theorem Parser.someUntil_recognizes {parser : Parser α}
    (lawful : (Loop.closed item mark Joins).Lawful) (recognizes : parser.Recognizes depth item) :
    (someUntil mark parser).Recognizes depth (Loop.closed item mark Joins).someLanguage where
  reads items next admits ends := by
    obtain ⟨nonempty, admits⟩ := admits
    obtain ⟨first, others, rfl⟩ := List.exists_cons_of_ne_nil nonempty
    obtain ⟨admitsFirst, -, admitsOthers⟩ := Loop.admits_cons.mp admits
    have endsOthers := Loop.ends_cons.mp ends
    have endsFirst := Loop.ends_item lawful admitsFirst admitsOthers endsOthers
    have yieldsOthers : (repeatUntil mark parser).Yields depth
        ((Loop.closed item mark Joins).chars others) next (.ok others) :=
      repeatWhile_yields Loop.closed_guardedBy lawful recognizes admitsOthers endsOthers
    change (someUntil mark parser).Yields depth
      ((Loop.closed item mark Joins).chars (first :: others)) next _
    rw [Loop.chars_cons]
    exact recognizes.yields_bind first admitsFirst endsFirst yieldsOthers.bind_pure
  explains text := by
    apply recognizes.meets_bind
    · intro first tail _ admitsFirst endsFirst
      -- The first item is the neighbour that the others have to join.
      have others : (repeatUntil mark parser).Meets depth tail
          ((Loop.closed item mark Joins).language (some first)).Explains :=
        repeatWhile_meets Loop.closed_guardedBy lawful recognizes
          (by rintro _ ⟨⟩; exact admitsFirst) (by rintro _ ⟨⟩; exact endsFirst)
      apply others.bind
      · rintro _ rest others - ⟨rfl, admits, ends⟩
        apply meets_pure
        rw [List.append_nil]
        refine ⟨((Loop.closed item mark Joins).chars_cons first others).symm, ⟨?_, ?_⟩, ?_⟩
        · exact List.cons_ne_nil first others
        · exact Loop.admits_cons.mpr ⟨admitsFirst, by simp, admits⟩
        · exact Loop.ends_cons.mpr ends
      · intro read next fault ⟨others, admits, begins⟩
        refine ⟨first :: others, ⟨?_, ?_⟩, ?_⟩
        · exact List.cons_ne_nil first others
        · exact Loop.admits_cons.mpr ⟨admitsFirst, by simp, admits⟩
        · exact Loop.begins_cons begins
    · intro first read next fault admitsFirst begins
      refine ⟨[first], ⟨List.cons_ne_nil first [], ?_⟩, ?_⟩
      · exact Loop.admits_cons.mpr ⟨admitsFirst, by simp, Loop.admits_nil⟩
      · exact begins.trans ((Loop.closed item mark Joins).begins_single first)

/-! A list may also be absent, and then nothing of it is written. -/

def Loop.enclosed (loop : Loop α) (opening : Char) : Language (List α) where
  chars
    | [] => []
    | items => opening :: loop.chars items
  Admits := (loop.language none).Admits
  Ends items next := items = [] → next ≠ some opening

theorem Loop.enclosed_chars {loop : Loop α} {opening : Char} {items : List α}
    (nonempty : items ≠ []) :
    (loop.enclosed opening).chars items = opening :: loop.chars items := by
  obtain ⟨first, others, rfl⟩ := List.exists_cons_of_ne_nil nonempty
  rfl

/-- The body may be read at another depth than the list as a whole. -/
theorem Parser.enclosed_recognizes {parser body : Parser (List α)} {opening : Char} {inner : Nat}
    (recognizes : body.Recognizes inner (Loop.closed item mark Joins).someLanguage)
    (ends : ∀ value, item.Ends value (some mark))
    (absent : ∀ next, next ≠ some opening → parser.Yields depth [] next (.ok []))
    (present : ∀ read next outcome, body.Yields inner read next outcome →
      parser.Yields depth (opening :: read) next outcome) :
    parser.Recognizes depth ((Loop.closed item mark Joins).enclosed opening) where
  reads items next admits endsItems := by
    by_cases empty : items = []
    · subst empty
      exact absent next (endsItems rfl)
    · have endsBody : (Loop.closed item mark Joins).someLanguage.Ends items next :=
        ⟨fun goes => goes rfl, fun last _ => ends last⟩
      rw [Loop.enclosed_chars empty]
      exact present _ _ _ (recognizes.reads items next ⟨empty, admits⟩ endsBody)
  explains text := by
    by_cases opens : text.head? = some opening
    · obtain ⟨tail, rfl⟩ := List.head?_eq_some_iff.mp opens
      obtain ⟨read, rest, outcome, rfl, yields, explained⟩ := recognizes.explains tail
      refine ⟨opening :: read, rest, outcome, rfl, present read _ outcome yields, ?_⟩
      cases outcome with
      | ok items =>
        obtain ⟨rfl, ⟨nonempty, admits⟩, -⟩ := explained
        exact ⟨(Loop.enclosed_chars nonempty).symm, admits, fun empty => absurd empty nonempty⟩
      | error fault =>
        obtain ⟨items, ⟨nonempty, admits⟩, begins⟩ := explained
        refine ⟨items, admits, ?_⟩
        rw [Loop.enclosed_chars nonempty]
        exact (List.prefix_append_right_inj [opening]).mpr begins
    · exact ⟨[], text, .ok [], rfl, absent _ opens, rfl, Loop.admits_nil, fun _ => opens⟩

end Sorts

end GenericSignature
