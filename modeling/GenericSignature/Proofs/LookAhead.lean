import GenericSignature.Proofs.CursorPlace

/-! Looking ahead of a cursor.

The character at an offset, the next offset of a character and the text between two offsets are read
off the bytes that remain, and agree with each other. Looks may stand between the moves of a cursor
in any order. Each sees what the moves before it have left, and none of them is a move.
-/

set_option autoImplicit false

namespace GenericSignature

inductive Cursor.Look where
  | charAt (offset : Nat)
  | indexOf (wanted : Char) (start : Nat)
  | substring (start stop : Nat)
  deriving DecidableEq, Repr

inductive Cursor.Sight where
  | char (found : Option Char)
  | offset (found : Option Nat)
  | text (found : Option String)
  deriving DecidableEq, Repr

def Cursor.look (cursor : Cursor) : Look → Sight
  | .charAt offset => .char (cursor.charAt? offset)
  | .indexOf wanted start => .offset (cursor.indexOf? wanted start)
  | .substring start stop => .text (cursor.substring? start stop)

inductive Cursor.Step where
  | look (look : Look)
  | move (action : Action)
  deriving DecidableEq, Repr

def Cursor.Step.action? : Step → Option Action
  | .look _ => none
  | .move action => some action

def Cursor.moves (steps : List Step) : List Action := steps.filterMap Step.action?

def Cursor.follow (cursor : Cursor) : Step → Option Sight × Cursor
  | .look look => (some (cursor.look look), cursor)
  | .move action => (none, cursor.act action)

/-- What each step has shown, in order, and the cursor at the end. -/
def Cursor.session (cursor : Cursor) : List Step → List (Option Sight) × Cursor
  | [] => ([], cursor)
  | first :: rest =>
    ((cursor.follow first).1 :: ((cursor.follow first).2.session rest).1,
      ((cursor.follow first).2.session rest).2)

/-- The character begins at the offset of the text. -/
def Text.StartsAt (text : List Char) (offset : Nat) (char : Char) : Prop :=
  ∃ before after, text = before ++ char :: after ∧ byteLength before = offset

/-- What is seen ahead of a cursor over the text. Every offset counts from the position. -/
structure Cursor.SeesAhead (cursor : Cursor) (text : String) : Prop where
  remaining : Text.bytes cursor.remaining = (Text.bytes text).drop cursor.position
  boundaries : ∀ offset, Text.IsBoundary cursor.rest offset ↔
    Text.IsBoundary text.toList (cursor.position + offset)
  substring_isSome : ∀ start stop, (cursor.substring? start stop).isSome ↔
    start ≤ stop ∧ stop ≤ cursor.remaining.utf8ByteSize ∧
      Text.IsBoundary cursor.rest start ∧ Text.IsBoundary cursor.rest stop
  substring : ∀ start stop selected, cursor.substring? start stop = some selected →
    Text.bytes selected = (Text.bytes cursor.remaining).extract start stop
  charAt : ∀ offset char, cursor.charAt? offset = some char ↔
    Text.StartsAt cursor.rest offset char
  charAt_isSome : ∀ offset, (cursor.charAt? offset).isSome ↔
    Text.IsBoundary cursor.rest offset ∧ offset < cursor.remaining.utf8ByteSize
  charAt_substring : ∀ offset char, cursor.charAt? offset = some char ↔
    cursor.substring? offset (offset + char.utf8Size) = some (String.singleton char)
  indexOf : ∀ wanted start found, cursor.indexOf? wanted start = some found ↔
    Text.IsBoundary cursor.rest start ∧
      IsLeast {offset | start ≤ offset ∧ cursor.charAt? offset = some wanted} found
  before_index : ∀ wanted start found, cursor.indexOf? wanted start = some found →
    ∃ selected, cursor.substring? start found = some selected ∧ wanted ∉ selected.toList
  peek : Parser.peek cursor = .ok (cursor.charAt? 0) cursor

/-! ## Texts -/

namespace Text

variable {text read tail : List Char} {char wanted : Char} {offset found : Nat}

theorem exists_startsAt_iff :
    (∃ char, StartsAt text offset char) ↔ IsBoundary text offset ∧ offset < byteLength text := by
  constructor
  · rintro ⟨char, before, after, rfl, rfl⟩
    have positive := char.utf8Size_pos
    refine ⟨⟨before, char :: after, rfl, rfl⟩, ?_⟩
    rw [byteLength_append, byteLength_cons]
    omega
  · rintro ⟨⟨before, after, rfl, rfl⟩, inside⟩
    cases after with
    | nil =>
      rw [List.append_nil] at inside
      omega
    | cons char after => exact ⟨char, before, after, rfl, rfl⟩

theorem startsAt_append_iff (far : byteLength read ≤ offset) :
    StartsAt (read ++ tail) offset char ↔ StartsAt tail (offset - byteLength read) char := by
  unfold StartsAt
  rw [exists_comm]
  exact (exists_congr fun after => exists_cut_append_iff far).trans exists_comm

/-- A beginning of a text holds exactly the characters that begin before its end. -/
theorem mem_iff_exists_startsAt :
    char ∈ read ↔ ∃ offset < byteLength read, StartsAt (read ++ tail) offset char := by
  constructor
  · intro occurs
    obtain ⟨before, after, rfl⟩ := List.append_of_mem occurs
    have positive := char.utf8Size_pos
    refine ⟨byteLength before, ?_, before, after ++ tail, ?_, rfl⟩
    · rw [byteLength_append, byteLength_cons]
      omega
    · rw [List.append_assoc, List.cons_append]
  · rintro ⟨offset, inside, before, after, same, rfl⟩
    obtain ⟨more, rfl, rest⟩ := exists_append_of_le same.symm (Nat.le_of_lt inside)
    cases more with
    | nil =>
      rw [List.append_nil] at inside
      omega
    | cons first more =>
      obtain ⟨rfl, -⟩ := List.cons.inj rest
      exact List.mem_append_right _ List.mem_cons_self

theorem byteIndexFrom?_eq_some_iff :
    byteIndexFrom? wanted offset text = some found ↔
      ∃ before after, text = before ++ wanted :: after ∧ wanted ∉ before ∧
        offset + byteLength before = found := by
  induction text generalizing offset with
  | nil => simp [byteIndexFrom?]
  | cons first rest ih =>
    rw [byteIndexFrom?]
    split
    next same =>
      subst same
      constructor
      · intro here
        exact ⟨[], rest, rfl, List.not_mem_nil, Option.some.inj here⟩
      · rintro ⟨before, after, split, absent, rfl⟩
        cases before with
        | nil => rfl
        | cons char before =>
          obtain ⟨rfl, -⟩ := List.cons.inj split
          exact absurd List.mem_cons_self absent
    next differs =>
      rw [ih]
      constructor
      · rintro ⟨before, after, rfl, absent, rfl⟩
        refine ⟨first :: before, after, rfl, ?_, by rw [byteLength_cons, Nat.add_assoc]⟩
        exact List.not_mem_cons_of_ne_of_not_mem (Ne.symm differs) absent
      · rintro ⟨before, after, split, absent, rfl⟩
        cases before with
        | nil => exact absurd (List.cons.inj split).1 differs
        | cons char before =>
          obtain ⟨rfl, rfl⟩ := List.cons.inj split
          exact ⟨before, after, rfl, fun later => absent (List.mem_cons_of_mem _ later),
            by rw [byteLength_cons, Nat.add_assoc]⟩

end Text

/-! ## Looks -/

section Looks

variable {cursor : Cursor} {char wanted : Char} {offset start stop found : Nat}
  {selected text : String} {before : List Char}

theorem Cursor.charAt?_eq_some_iff :
    cursor.charAt? offset = some char ↔ Text.StartsAt cursor.rest offset char := by
  constructor
  · intro stands
    obtain ⟨⟨before, ahead⟩, split, head⟩ := Option.bind_eq_some_iff.mp stands
    obtain ⟨whole, length⟩ := Text.splitBytes?_eq_some_iff.mp split
    obtain ⟨after, rfl⟩ := List.head?_eq_some_iff.mp head
    exact ⟨before, after, whole, length⟩
  · rintro ⟨before, after, whole, rfl⟩
    rw [charAt?, whole, Text.splitBytes?_append]
    rfl

theorem Cursor.substring?_eq_some_iff :
    cursor.substring? start stop = some selected ↔
      ∃ before after, cursor.rest = before ++ (selected.toList ++ after) ∧
        Text.byteLength before = start ∧ start + Text.byteLength selected.toList = stop := by
  constructor
  · intro cut
    rw [substring?] at cut
    split at cut
    next ordered =>
      obtain ⟨⟨before, ahead⟩, first, cut⟩ := Option.bind_eq_some_iff.mp cut
      obtain ⟨⟨between, after⟩, second, cut⟩ := Option.bind_eq_some_iff.mp cut
      obtain rfl : String.ofList between = selected := Option.some.inj cut
      obtain ⟨whole, length⟩ := Text.splitBytes?_eq_some_iff.mp first
      obtain ⟨rfl, more⟩ := Text.splitBytes?_eq_some_iff.mp second
      rw [String.toList_ofList]
      exact ⟨before, after, whole, length, by omega⟩
    next => cases cut
  · rintro ⟨before, after, whole, rfl, rfl⟩
    rw [substring?, if_pos (Nat.le_add_right _ _), whole, Text.splitBytes?_append,
      Nat.add_sub_cancel_left]
    change (Text.splitBytes? _ (selected.toList ++ after)).bind _ = _
    rw [Text.splitBytes?_append]
    exact congrArg some String.ofList_toList

theorem Cursor.indexOf?_eq_some_iff :
    cursor.indexOf? wanted start = some found ↔
      ∃ before between after, cursor.rest = before ++ (between ++ wanted :: after) ∧
        Text.byteLength before = start ∧ wanted ∉ between ∧
          start + Text.byteLength between = found := by
  constructor
  · intro stands
    obtain ⟨⟨before, ahead⟩, split, index⟩ := Option.bind_eq_some_iff.mp stands
    obtain ⟨whole, length⟩ := Text.splitBytes?_eq_some_iff.mp split
    obtain ⟨between, after, rfl, absent, place⟩ := Text.byteIndexFrom?_eq_some_iff.mp index
    exact ⟨before, between, after, whole, length, absent, place⟩
  · rintro ⟨before, between, after, whole, rfl, absent, place⟩
    rw [indexOf?, whole, Text.splitBytes?_append]
    exact Text.byteIndexFrom?_eq_some_iff.mpr ⟨between, after, rfl, absent, place⟩

/-- A character is what stands between its two ends. -/
theorem Cursor.charAt?_eq_some_iff_substring? :
    cursor.charAt? offset = some char ↔
      cursor.substring? offset (offset + char.utf8Size) = some (String.singleton char) := by
  have single : (String.singleton char).toList = [char] := String.toList_singleton char
  rw [charAt?_eq_some_iff, substring?_eq_some_iff, single]
  constructor
  · rintro ⟨before, after, whole, length⟩
    exact ⟨before, after, whole, length, by rw [Text.byteLength_cons, Text.byteLength_nil]; rfl⟩
  · rintro ⟨before, after, whole, length, -⟩
    exact ⟨before, after, whole, length⟩

theorem Cursor.isSome_charAt?_iff :
    (cursor.charAt? offset).isSome ↔
      Text.IsBoundary cursor.rest offset ∧ offset < cursor.remaining.utf8ByteSize := by
  rw [remaining, Text.utf8ByteSize_ofList, ← Text.exists_startsAt_iff, Option.isSome_iff_exists]
  exact exists_congr fun char => charAt?_eq_some_iff

theorem Cursor.isSome_substring?_iff :
    (cursor.substring? start stop).isSome ↔
      start ≤ stop ∧ stop ≤ cursor.remaining.utf8ByteSize ∧
        Text.IsBoundary cursor.rest start ∧ Text.IsBoundary cursor.rest stop := by
  rw [remaining, Text.utf8ByteSize_ofList, Option.isSome_iff_exists]
  constructor
  · rintro ⟨selected, cut⟩
    obtain ⟨before, after, whole, rfl, rfl⟩ := substring?_eq_some_iff.mp cut
    refine ⟨Nat.le_add_right _ _, ?_, ⟨before, _, whole, rfl⟩,
      ⟨before ++ selected.toList, after, ?_, Text.byteLength_append _ _⟩⟩
    · rw [whole, Text.byteLength_append, Text.byteLength_append]
      omega
    · rw [whole, List.append_assoc]
  · rintro ⟨ordered, -, ⟨before, ahead, whole, rfl⟩, ⟨longer, after, same, rfl⟩⟩
    rw [whole] at same
    obtain ⟨between, rfl, rfl⟩ := Text.exists_append_of_le same ordered
    refine ⟨String.ofList between, substring?_eq_some_iff.mpr ⟨before, after, ?_, rfl, ?_⟩⟩
    · rw [whole, String.toList_ofList]
    · rw [String.toList_ofList, Text.byteLength_append]

theorem Cursor.remaining_append {read tail : List Char} (whole : cursor.rest = read ++ tail) :
    cursor.remaining = String.ofList read ++ String.ofList tail := by
  rw [remaining, whole, String.ofList_append]

theorem Cursor.bytes_substring? (cut : cursor.substring? start stop = some selected) :
    Text.bytes selected = (Text.bytes cursor.remaining).extract start stop := by
  obtain ⟨before, after, whole, rfl, rfl⟩ := substring?_eq_some_iff.mp cut
  have first : (Text.bytes (String.ofList before)).length = Text.byteLength before := by
    rw [Text.length_bytes, Text.utf8ByteSize_ofList]
  have second : (Text.bytes selected).length = Text.byteLength selected.toList := by
    rw [Text.length_bytes, Text.byteLength_toList]
  rw [remaining_append whole, String.ofList_append, String.ofList_toList, Text.bytes_append,
    Text.bytes_append, List.extract, Nat.add_sub_cancel_left, List.drop_left' first,
    List.take_left' second]

theorem Cursor.indexOf?_eq_some_iff_isLeast :
    cursor.indexOf? wanted start = some found ↔
      Text.IsBoundary cursor.rest start ∧
        IsLeast {offset | start ≤ offset ∧ cursor.charAt? offset = some wanted} found := by
  simp only [charAt?_eq_some_iff]
  constructor
  · intro stands
    obtain ⟨before, between, after, whole, rfl, absent, rfl⟩ := indexOf?_eq_some_iff.mp stands
    rw [whole]
    refine ⟨⟨before, _, rfl, rfl⟩, ⟨Nat.le_add_right _ _, ?_⟩, ?_⟩
    · refine ⟨before ++ between, after, ?_, Text.byteLength_append _ _⟩
      rw [List.append_assoc]
    · rintro offset ⟨far, other⟩
      -- Were it nearer, it would be one of the characters that lie between.
      refine Nat.le_of_not_lt fun nearer => absent ?_
      have inside : offset - Text.byteLength before < Text.byteLength between := by omega
      exact Text.mem_iff_exists_startsAt.mpr
        ⟨_, inside, (Text.startsAt_append_iff far).mp other⟩
  · rintro ⟨⟨before, ahead, whole, rfl⟩, ⟨far, stands⟩, least⟩
    rw [whole, Text.startsAt_append_iff far] at stands
    obtain ⟨between, after, rfl, length⟩ := stands
    refine indexOf?_eq_some_iff.mpr ⟨before, between, after, whole, rfl, fun occurs => ?_,
      by omega⟩
    obtain ⟨offset, inside, other⟩ := Text.mem_iff_exists_startsAt.mp occurs
    have later := Nat.le_add_right (Text.byteLength before) offset
    have nearer : Text.StartsAt cursor.rest (Text.byteLength before + offset) wanted := by
      rw [whole, Text.startsAt_append_iff later, Nat.add_sub_cancel_left]
      exact other
    have bound := least ⟨later, nearer⟩
    omega

theorem Cursor.exists_substring?_of_indexOf? (stands : cursor.indexOf? wanted start = some found) :
    ∃ selected, cursor.substring? start found = some selected ∧ wanted ∉ selected.toList := by
  obtain ⟨before, between, after, whole, length, absent, place⟩ := indexOf?_eq_some_iff.mp stands
  refine ⟨String.ofList between, substring?_eq_some_iff.mpr ⟨before, wanted :: after, ?_⟩, ?_⟩
  · rw [String.toList_ofList]
    exact ⟨whole, length, place⟩
  · rw [String.toList_ofList]
    exact absent

theorem Parser.peek_eq (cursor : Cursor) : peek cursor = .ok (cursor.charAt? 0) cursor := by
  have cut : Text.splitBytes? 0 cursor.rest = some ([], cursor.rest) :=
    Text.splitBytes?_append [] cursor.rest
  rw [peek, Cursor.charAt?, cut]
  rfl

theorem Cursor.Passes.seesAhead (passes : (ofText text).Passes before cursor) :
    cursor.SeesAhead text where
  remaining := by
    have whole : text = String.ofList before ++ cursor.remaining := by
      have split : text.toList = before ++ cursor.rest := passes.rest
      rw [Cursor.remaining, ← String.ofList_append, ← split, String.ofList_toList]
    have length : (Text.bytes (String.ofList before)).length = cursor.position := by
      rw [Text.length_bytes, Text.utf8ByteSize_ofList, passes.position_ofText]
    rw [whole, Text.bytes_append, List.drop_left' length]
  boundaries offset := by
    have whole : text.toList = before ++ cursor.rest := passes.rest
    rw [whole, passes.position_ofText, Text.isBoundary_append_iff (Nat.le_add_right _ _),
      Nat.add_sub_cancel_left]
  substring_isSome _ _ := isSome_substring?_iff
  substring _ _ _ := bytes_substring?
  charAt _ _ := charAt?_eq_some_iff
  charAt_isSome _ := isSome_charAt?_iff
  charAt_substring _ _ := charAt?_eq_some_iff_substring?
  indexOf _ _ _ := indexOf?_eq_some_iff_isLeast
  before_index _ _ _ := exists_substring?_of_indexOf?
  peek := Parser.peek_eq cursor

end Looks

/-! ## Sessions -/

section Sessions

variable {steps : List Cursor.Step} {time : Nat} {look : Cursor.Look}

theorem Cursor.session_end (cursor : Cursor) (steps : List Step) :
    (cursor.session steps).2 = cursor.run (moves steps) := by
  induction steps generalizing cursor with
  | nil => rfl
  | cons first rest ih =>
    cases first with
    | look look => exact ih cursor
    | move action => exact ih (cursor.act action)

/-- A look sees what the moves before it have left, whatever was looked for before. -/
theorem Cursor.session_look (cursor : Cursor) (asked : steps[time]? = some (.look look)) :
    (cursor.session steps).1[time]? =
      some (some ((cursor.run (moves (steps.take time))).look look)) := by
  induction steps generalizing cursor time with
  | nil => cases asked
  | cons first rest ih =>
    cases time with
    | zero =>
      cases asked
      rfl
    | succ time =>
      cases first with
      | look other => exact ih cursor asked
      | move action => exact ih (cursor.act action) asked

end Sessions

theorem Cursor.session_sees_ahead (text : String) (steps : List Step) :
    ((ofText text).session steps).2 = (ofText text).run (moves steps) ∧
      (∀ time look, steps[time]? = some (.look look) →
        ((ofText text).session steps).1[time]? =
          some (some (((ofText text).run (moves (steps.take time))).look look))) ∧
      ((ofText text).session steps).2.SeesAhead text := by
  refine ⟨(ofText text).session_end steps, fun _ _ => (ofText text).session_look, ?_⟩
  rw [(ofText text).session_end steps]
  obtain ⟨before, passes⟩ := (settled_ofText text).exists_passes_run (moves steps)
  exact passes.seesAhead

example :
    let cursor := ((Cursor.ofText "é=xé;").session [.look (.charAt 1), .move (.advance 1)]).2
    cursor.position = 2 ∧ cursor.indexOf? 'é' 0 = some 2 ∧ cursor.substring? 0 2 = some "=x" ∧
      cursor.substring? 0 3 = none := by
  -- Behind a character of two bytes, offsets count from there on.
  decide

end GenericSignature
