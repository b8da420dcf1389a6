import GenericSignature.Proofs.Nesting.Overrun

/-! Parsers that follow a marked text.

Such a parser reads the text as a whole if it keeps to the limits, and otherwise stops in front of
the first character that exceeds one. Both are readings, so what comes later in the text makes no
difference to the latter.
-/

set_option autoImplicit false

namespace GenericSignature

variable {α β : Type}

/-- The reading that the marks of a text ask for. -/
def Glyph.Guides (glyphs : List Glyph) (next : Option Char) (value : α)
    (reading : List Char → Option Char → Except Fault α → Prop) : Prop :=
  match overrun? glyphs with
  | none => reading (chars glyphs) next (.ok value)
  | some overrun =>
    reading overrun.read (some overrun.found) (.error (.nestedTooDeeply overrun.limit))

def Parser.Follows (parser : Parser α) (depth : Nat) (glyphs : List Glyph) (next : Option Char)
    (value : α) : Prop :=
  Glyph.Guides glyphs next value (parser.Yields depth)

def Parser.RoundsFollow (more : Parser Bool) (item : Parser α) (depth : Nat) (glyphs : List Glyph)
    (next : Option Char) (items : List α) : Prop :=
  Glyph.Guides glyphs next items (RoundsYield more item depth)

theorem Glyph.guides_of_none {glyphs : List Glyph} {next : Option Char} {value : α}
    {reading : List Char → Option Char → Except Fault α → Prop}
    (within : overrun? glyphs = none) :
    Guides glyphs next value reading ↔ reading (chars glyphs) next (.ok value) := by
  rw [Guides, within]

theorem Glyph.guides_of_some {glyphs : List Glyph} {overrun : Overrun} {next : Option Char}
    {value : α} {reading : List Char → Option Char → Except Fault α → Prop}
    (exceeds : overrun? glyphs = some overrun) :
    Guides glyphs next value reading ↔
      reading overrun.read (some overrun.found) (.error (.nestedTooDeeply overrun.limit)) := by
  rw [Guides, exceeds]

/-- The head of a text is also that of the part of it that is read. -/
theorem Glyph.head_eq {glyphs : List Glyph} {overrun : Overrun} (next : Option Char)
    (exceeds : overrun? glyphs = some overrun) :
    (chars glyphs).head?.or next = overrun.read.head?.or (some overrun.found) := by
  rw [← head_of_overrun? exceeds]
  cases overrun.read <;> rfl

/-- What stands before a text may keep to the limits, and is then always read. -/
theorem Glyph.Guides.after {first second : List Glyph} {next : Option Char} {value : α}
    {reading : List Char → Option Char → Except Fault α → Prop} (within : overrun? first = none)
    (guides : Guides second next value fun read => reading (chars first ++ read)) :
    Guides (first ++ second) next value reading := by
  have whole := overrun?_append first second
  rw [within, Option.none_or] at whole
  cases exceeds : overrun? second with
  | none =>
    rw [exceeds] at whole
    rw [guides_of_none exceeds] at guides
    rw [guides_of_none whole, chars_append]
    exact guides
  | some overrun =>
    rw [exceeds] at whole
    rw [guides_of_some exceeds] at guides
    rw [guides_of_some whole]
    exact guides

/-- The reading that is asked for begins as the text does. -/
theorem Glyph.Guides.imp {glyphs : List Glyph} {next : Option Char} {value : α}
    {stronger weaker : List Char → Option Char → Except Fault α → Prop}
    (guides : Guides glyphs next value stronger)
    (implies : ∀ read following outcome,
      read.head?.or following = (chars glyphs).head?.or next →
        stronger read following outcome → weaker read following outcome) :
    Guides glyphs next value weaker := by
  cases exceeds : overrun? glyphs with
  | none =>
    rw [guides_of_none exceeds] at guides ⊢
    exact implies _ _ _ rfl guides
  | some overrun =>
    rw [guides_of_some exceeds] at guides ⊢
    exact implies _ _ _ (head_eq next exceeds).symm guides

section Sequences

variable {parser other : Parser α} {continuation : α → Parser β} {depth : Nat}
  {first second glyphs : List Glyph} {text : List Char} {next : Option Char} {value : α}
  {result : β}

theorem Parser.Yields.follows (yields : parser.Yields depth text next (.ok value)) :
    parser.Follows depth (text.map .plain) next value := by
  rw [Follows, Glyph.guides_of_none (Glyph.overrun?_plain text), Glyph.chars_plain]
  exact yields

theorem Parser.Follows.bind
    (left : parser.Follows depth first ((Glyph.chars second).head?.or next) value)
    (right : (continuation value).Follows depth second next result) :
    Follows (parser >>= continuation) depth (first ++ second) next result := by
  cases exceeds : Glyph.overrun? first with
  | some overrun =>
    have whole := Glyph.overrun?_append first second
    rw [exceeds, Option.some_or] at whole
    rw [Follows, Glyph.guides_of_some exceeds] at left
    rw [Follows, Glyph.guides_of_some whole]
    exact left.bind_error
  | none =>
    rw [Follows, Glyph.guides_of_none exceeds] at left
    apply Glyph.Guides.after exceeds
    apply right.imp
    intro read following outcome head yields
    rw [← head] at left
    exact left.bind yields

theorem Parser.Follows.bind_pure {finish : α → β}
    (follows : parser.Follows depth glyphs next value) :
    Follows (parser >>= fun value => pure (finish value)) depth glyphs next (finish value) := by
  have finishes : (pure (finish value) : Parser β).Follows depth [] next (finish value) :=
    (yields_pure (finish value)).follows
  have whole : Follows (parser >>= fun value => pure (finish value)) depth (glyphs ++ []) next
      (finish value) := Follows.bind follows finishes
  rwa [List.append_nil] at whole

theorem Parser.Follows.map {transform : α → β} (follows : parser.Follows depth glyphs next value) :
    Follows (transform <$> parser) depth glyphs next (transform value) := by
  rw [map_eq_pure_bind]
  exact follows.bind_pure

theorem Parser.Follows.pair {left : Parser α} {right : Parser β}
    (followsFirst : left.Follows depth first ((Glyph.chars second).head?.or next) value)
    (followsSecond : right.Follows depth second next result) :
    (left.pair right).Follows depth (first ++ second) next (value, result) :=
  followsFirst.bind followsSecond.bind_pure

theorem Parser.Follows.peek_bind {continuation : Option Char → Parser β}
    (right : (continuation ((Glyph.chars glyphs).head?.or next)).Follows depth glyphs next
      result) :
    Follows (peek >>= continuation) depth glyphs next result := by
  apply right.imp
  intro read following outcome head yields
  rw [← head] at yields
  exact yields.peek_bind

theorem Parser.Follows.skip_char_bind {char : Char} {bytes : Nat} {continuation : Unit → Parser β}
    (size : char.utf8Size = bytes)
    (right : (continuation ()).Follows depth glyphs next result) :
    Follows (skip bytes >>= continuation) depth (.plain char :: glyphs) next result := by
  have single : Text.byteLength [char] = bytes := by
    rw [Text.byteLength_cons, Text.byteLength_nil, Nat.add_zero, size]
  exact (yields_skip single).follows.bind right

theorem Parser.Follows.congr {other : Parser α} (follows : other.Follows depth glyphs next value)
    (same : ∀ cursor : Cursor, cursor.depth = depth → parser cursor = other cursor) :
    parser.Follows depth glyphs next value :=
  follows.imp fun _ _ _ _ yields => yields.congr same

end Sequences

/-! ## Rounds -/

section Rounds

variable {more : Parser Bool} {item : Parser α} {depth : Nat} {first : List Char}
  {second third glyphs : List Glyph} {next : Option Char} {value : α} {items : List α}

theorem Parser.RoundsFollow.stop {text : List Char}
    (ends : more.Yields depth text next (.ok false)) :
    RoundsFollow more item depth (text.map .plain) next [] := by
  rw [RoundsFollow, Glyph.guides_of_none (Glyph.overrun?_plain text), Glyph.chars_plain]
  exact .stop ends

theorem Parser.RoundsFollow.step
    (goes : more.Yields depth first ((Glyph.chars (second ++ third)).head?.or next) (.ok true))
    (follows : item.Follows depth second ((Glyph.chars third).head?.or next) value)
    (progress : first ++ Glyph.chars second ≠ [])
    (others : RoundsFollow more item depth third next items) :
    RoundsFollow more item depth (first.map .plain ++ (second ++ third)) next (value :: items) := by
  have round := Glyph.overrun?_append second third
  apply Glyph.Guides.after (Glyph.overrun?_plain first)
  rw [Glyph.chars_plain]
  cases exceeds : Glyph.overrun? second with
  | some overrun =>
    rw [exceeds, Option.some_or] at round
    rw [Glyph.head_eq next round] at goes
    rw [Follows, Glyph.guides_of_some exceeds] at follows
    rw [Glyph.guides_of_some round]
    exact .fail goes follows
  | none =>
    rw [exceeds, Option.none_or] at round
    rw [Follows, Glyph.guides_of_none exceeds] at follows
    cases exceedsOthers : Glyph.overrun? third with
    | some overrun =>
      rw [exceedsOthers] at round
      rw [Glyph.head_eq next round] at goes
      rw [Glyph.head_eq next exceedsOthers] at follows
      rw [RoundsFollow, Glyph.guides_of_some exceedsOthers] at others
      rw [Glyph.guides_of_some round]
      exact .step goes follows progress others
    | none =>
      rw [exceedsOthers] at round
      rw [Glyph.chars_append] at goes
      rw [RoundsFollow, Glyph.guides_of_none exceedsOthers] at others
      rw [Glyph.guides_of_none round, Glyph.chars_append]
      exact .step goes follows progress others

end Rounds

/-! ## Languages

A language without limits on nesting admits values that are not read back. What the parser does on
the text of any admitted value is told by the marks.
-/

structure Parser.Traces (parser : Parser α) (depth : Nat) (language : Language α)
    (marks : α → List Glyph) : Prop where
  written : ∀ value, Glyph.chars (marks value) = language.chars value
  follows : ∀ value next, language.Admits value → language.Ends value next →
    parser.Follows depth (marks value) next value

theorem Parser.Recognizes.traces {parser : Parser α} {depth : Nat} {language : Language α}
    (recognizes : parser.Recognizes depth language) :
    parser.Traces depth language fun value => (language.chars value).map .plain where
  written value := Glyph.chars_plain (language.chars value)
  follows value next admits ends := (recognizes.reads value next admits ends).follows

section Parts

variable {parser : Parser α} {other : Parser β} {depth : Nat} {marks : α → List Glyph}

theorem Parser.Traces.pair {first : Language α} {second : Language β}
    {otherMarks : β → List Glyph} (left : parser.Traces depth first marks)
    (right : other.Traces depth second otherMarks) :
    (parser.pair other).Traces depth (first.pair second)
      fun values => marks values.1 ++ otherMarks values.2 where
  written values := by
    rw [Glyph.chars_append, left.written, right.written]
    rfl
  follows values next admits ends := by
    have endsFirst : first.Ends values.1 ((Glyph.chars (otherMarks values.2)).head?.or next) := by
      rw [right.written]
      exact ends.1
    exact (left.follows values.1 _ admits.1 endsFirst).pair
      (right.follows values.2 next admits.2 ends.2)

/-- For nodes that are put together from their parts. -/
theorem Parser.Traces.map {parts : Language α} {whole : Language β} {build : α → β}
    {wholeMarks : β → List Glyph} (traces : parser.Traces depth parts marks)
    (builds : ∀ value, ∃ part, build part = value)
    (written : ∀ value, Glyph.chars (wholeMarks value) = whole.chars value)
    (marked : ∀ part, wholeMarks (build part) = marks part)
    (admits : ∀ part, whole.Admits (build part) → parts.Admits part)
    (ends : ∀ part next, whole.Ends (build part) next → parts.Ends part next) :
    (build <$> parser).Traces depth whole wholeMarks where
  written := written
  follows value next isAdmitted endsValue := by
    obtain ⟨part, rfl⟩ := builds value
    rw [marked]
    exact (traces.follows part next (admits part isAdmitted) (ends part next endsValue)).map

end Parts

/-! ## Loops -/

section Loops

variable {loop : Loop α} {more : Parser Bool} {item : Parser α} {depth : Nat}
  {marks : α → List Glyph}

def Loop.itemGlyphs (loop : Loop α) (marks : α → List Glyph) (value : α) : List Glyph :=
  loop.opening.map .plain ++ marks value

def Loop.glyphs (loop : Loop α) (marks : α → List Glyph) (items : List α) : List Glyph :=
  items.flatMap (loop.itemGlyphs marks) ++ loop.closing.map .plain

theorem Loop.glyphs_cons (loop : Loop α) (marks : α → List Glyph) (value : α)
    (items : List α) :
    loop.glyphs marks (value :: items) =
      loop.opening.map .plain ++ (marks value ++ loop.glyphs marks items) := by
  rw [Loop.glyphs, List.flatMap_cons, List.append_assoc, ← Loop.glyphs, itemGlyphs,
    List.append_assoc]

theorem Loop.chars_glyphs (traces : item.Traces depth loop.item marks) (items : List α) :
    Glyph.chars (loop.glyphs marks items) = loop.chars items := by
  induction items with
  | nil => exact Glyph.chars_plain loop.closing
  | cons value rest ih =>
    rw [glyphs_cons, Glyph.chars_append, Glyph.chars_append, Glyph.chars_plain, traces.written, ih,
      chars_cons, itemChars, List.append_assoc]

theorem Loop.follows {previous : Option α} {items : List α} {next : Option Char}
    (guarded : loop.GuardedBy more depth) (lawful : loop.Lawful)
    (traces : item.Traces depth loop.item marks) (admits : (loop.language previous).Admits items)
    (ends : (loop.language previous).Ends items next) :
    Parser.RoundsFollow more item depth (loop.glyphs marks items) next items := by
  induction items generalizing previous with
  | nil => exact .stop (guarded.stops next ends.1)
  | cons value rest ih =>
    obtain ⟨admitsValue, -, admitsRest⟩ := admits_cons.mp admits
    have endsRest := ends_cons.mp ends
    have endsValue := ends_item lawful admitsValue admitsRest endsRest
    have progress := lawful.nonempty value admitsValue
    have starts := lawful.starts value admitsValue
    obtain ⟨first, others, shape⟩ := List.exists_cons_of_ne_nil progress
    rw [← chars_glyphs traces] at endsValue
    rw [glyphs_cons]
    refine .step (guarded.goes _ ?_) (traces.follows value _ admitsValue endsValue) ?_
      (ih admitsRest endsRest)
    · -- What stands ahead of the opening is the first character of the item with its opening.
      rw [Glyph.chars_append, traces.written, ← Option.or_assoc, ← List.head?_append,
        ← List.append_assoc, ← itemChars, shape]
      rw [shape] at starts
      exact starts
    · rw [traces.written]
      exact progress

theorem Parser.repeatWhile_follows {previous : Option α} {items : List α} {next : Option Char}
    (guarded : loop.GuardedBy more depth) (lawful : loop.Lawful)
    (traces : item.Traces depth loop.item marks) (admits : (loop.language previous).Admits items)
    (ends : (loop.language previous).Ends items next) :
    (repeatWhile more item).Follows depth (loop.glyphs marks items) next items :=
  (loop.follows guarded lawful traces admits ends).imp fun _ _ _ _ yields => yields.repeatWhile

theorem Parser.repeatWhile_traces (guarded : loop.GuardedBy more depth) (lawful : loop.Lawful)
    (traces : item.Traces depth loop.item marks) :
    (repeatWhile more item).Traces depth (loop.language none) (loop.glyphs marks) where
  written := loop.chars_glyphs traces
  follows _ _ admits ends := repeatWhile_follows guarded lawful traces admits ends

section Closed

variable {language : Language α} {closing : Char} {Joins : α → α → Prop} {parser : Parser α}

theorem Parser.someUntil_traces (lawful : (Loop.closed language closing Joins).Lawful)
    (traces : parser.Traces depth language marks) :
    (someUntil closing parser).Traces depth (Loop.closed language closing Joins).someLanguage
      ((Loop.closed language closing Joins).glyphs marks) where
  written := Loop.chars_glyphs traces
  follows items next admits ends := by
    obtain ⟨nonempty, admits⟩ := admits
    obtain ⟨first, others, rfl⟩ := List.exists_cons_of_ne_nil nonempty
    obtain ⟨admitsFirst, -, admitsOthers⟩ := Loop.admits_cons.mp admits
    have endsOthers := Loop.ends_cons.mp ends
    have endsFirst := Loop.ends_item lawful admitsFirst admitsOthers endsOthers
    have followsOthers : (repeatUntil closing parser).Follows depth
        ((Loop.closed language closing Joins).glyphs marks others) next others :=
      repeatWhile_follows Loop.closed_guardedBy lawful traces admitsOthers endsOthers
    rw [← Loop.chars_glyphs traces] at endsFirst
    rw [Loop.glyphs_cons]
    exact (traces.follows first _ admitsFirst endsFirst).bind followsOthers.bind_pure

/-- The mark at the opening keeps to the limits; what the marks inside do is up to the body. -/
theorem Parser.enclosed_traces {parser body : Parser (List α)} {inner : Nat} {opening : Glyph}
    {enclosed inside : List α → List Glyph}
    (traces : body.Traces inner (Loop.closed language closing Joins).someLanguage inside)
    (ends : ∀ value, language.Ends value (some closing))
    (within : opening.limit? = none)
    (nil : enclosed [] = [])
    (cons : ∀ items, items ≠ [] → enclosed items = opening :: inside items)
    (absent : ∀ next, next ≠ some opening.char → parser.Yields depth [] next (.ok []))
    (present : ∀ read next outcome, body.Yields inner read next outcome →
      parser.Yields depth (opening.char :: read) next outcome) :
    parser.Traces depth ((Loop.closed language closing Joins).enclosed opening.char) enclosed where
  written items := by
    by_cases empty : items = []
    · subst empty
      rw [nil]
      rfl
    · rw [cons items empty, Glyph.chars_cons, traces.written, Loop.enclosed_chars empty]
      rfl
  follows items next admits endsItems := by
    by_cases empty : items = []
    · subst empty
      rw [nil]
      exact (absent next (endsItems rfl)).follows
    · have endsBody : (Loop.closed language closing Joins).someLanguage.Ends items next :=
        ⟨fun goes => goes rfl, fun last _ => ends last⟩
      rw [cons items empty]
      have kept : Glyph.overrun? [opening] = none := by simp [within]
      refine Glyph.Guides.after kept ?_
      exact (traces.follows items next ⟨empty, admits⟩ endsBody).imp fun _ _ _ _ => present _ _ _

end Closed

end Loops

end GenericSignature
