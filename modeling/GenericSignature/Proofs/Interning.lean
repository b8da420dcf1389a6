import GenericSignature.Arena
import Mathlib.Data.List.Induction

/-! An arena keeps the first of equal values, and its identifiers lead back to them.

This holds at the end of any run of requests. Requests that only read leave the arena as it is, so
what is found at the end of a run is found from then on until the next value is stored.
-/

set_option autoImplicit false

namespace GenericSignature

/-- What can be asked of an arena. A shared handle to a value is the value itself. -/
inductive Arena.Request (α : Type) where
  | intern (value : α)
  | lookup (value : α)
  | get (id : ArenaId)
  | share (id : ArenaId)
  | index (id : ArenaId)
  | size
  | isEmpty
  | list
  deriving DecidableEq, Repr

inductive Arena.Answer (α : Type) where
  | id (id : ArenaId)
  | found (id : Option ArenaId)
  | value (value : Option α)
  | indexed (result : Except OutOfBounds α)
  | size (size : Nat)
  | isEmpty (empty : Bool)
  | list (values : List α)

section Requests

variable {α : Type} [BEq α] [Hashable α]

def Arena.serve (arena : Arena α) : Request α → Answer α × Arena α
  | .intern value => ((.id (arena.intern value).1), (arena.intern value).2)
  | .lookup value => (.found (arena.lookup? value), arena)
  | .get id | .share id => (.value (arena.get? id), arena)
  | .index id => (.indexed (arena.get id), arena)
  | .size => (.size arena.size, arena)
  | .isEmpty => (.isEmpty arena.isEmpty, arena)
  | .list => (.list arena.toList, arena)

def Arena.run (arena : Arena α) : List (Request α) → List (Answer α) × Arena α
  | [] => ([], arena)
  | first :: rest =>
    ((arena.serve first).1 :: ((arena.serve first).2.run rest).1,
      ((arena.serve first).2.run rest).2)

def Arena.Request.interned? : Request α → Option α
  | .intern value => some value
  | _ => none

def Arena.interned (requests : List (Request α)) : List α := requests.filterMap Request.interned?

end Requests

/-! ## Distinct values -/

section Distinct

variable {α : Type} [BEq α] [EquivBEq α]

theorem Arena.filter_any_of_differs {first value : α} (differs : (first == value) = false)
    (values : List α) :
    (values.filter fun other => !other == first).any (· == value) = values.any (· == value) := by
  rw [Bool.eq_iff_iff, List.any_eq_true, List.any_eq_true]
  constructor
  · intro ⟨other, member, same⟩
    exact ⟨other, (List.mem_filter.mp member).1, same⟩
  · intro ⟨other, member, same⟩
    refine ⟨other, List.mem_filter.mpr ⟨member, ?_⟩, same⟩
    have apart : (other == first) = false := by
      rw [BEq.congr_left same, BEq.comm, differs]
    rw [apart, Bool.not_false]

/-- A value at the end is new or has been there before. The induction is on the length, since
each value that is kept takes its later copies out of the list. -/
theorem Arena.eraseDups_concat (values : List α) (value : α) :
    (values ++ [value]).eraseDups =
      values.eraseDups ++ if values.any (· == value) then [] else [value] := by
  induction size : values.length using Nat.strongRecOn generalizing values with
  | ind length ih =>
    subst size
    cases values with
    | nil => simp [List.eraseDups_cons]
    | cons first rest =>
      have shorter := Nat.lt_succ_of_le (List.length_filter_le (fun other => !other == first) rest)
      rw [List.cons_append, List.eraseDups_cons, List.eraseDups_cons, List.filter_append,
        List.any_cons, List.cons_append]
      cases same : first == value with
      | true =>
        have copy : (value == first) = true := BEq.symm same
        simp [copy]
      | false =>
        have differs : (value == first) = false := by rw [BEq.comm, same]
        have stays : [value].filter (fun other => !other == first) = [value] := by simp [differs]
        rw [stays, ih _ shorter _ rfl, filter_any_of_differs same, Bool.false_or]

theorem Arena.any_eraseDups (values : List α) (value : α) :
    values.eraseDups.any (· == value) = values.any (· == value) := by
  induction values using List.reverseRecOn with
  | nil => rfl
  | append_singleton values last ih =>
    rw [eraseDups_concat, List.any_append, List.any_append, ih]
    by_cases known : values.any (· == last) = true
    · -- A copy of the last value stands for it.
      rw [if_pos known, List.any_nil, Bool.or_false, List.any_cons, List.any_nil, Bool.or_false]
      cases same : last == value with
      | false => rw [Bool.or_false]
      | true =>
        obtain ⟨before, member, copy⟩ := List.any_eq_true.mp known
        have copies : (before == value) = true := BEq.trans (b := last) copy same
        rw [List.any_eq_true.mpr ⟨before, member, copies⟩, Bool.true_or]
    · rw [if_neg known]

end Distinct

section Tables

variable {α : Type} [BEq α] [Hashable α] {arena : Arena α} {interned : List α}
  {requests : List (Arena.Request α)} {value : α}

/-- The two tables of an arena in which the given values have been interned. -/
structure Arena.Holds (arena : Arena α) (interned : List α) : Prop where
  values : arena.toList = interned.eraseDups
  ids : ∀ (value : α) (index : Nat), arena.ids[value]? = some index ↔
    ∃ stored, arena.toList[index]? = some stored ∧ (stored == value) = true

theorem Arena.lookup?_eq_some_iff {index : Nat} :
    arena.lookup? value = some ⟨index⟩ ↔ arena.ids[value]? = some index := by
  simp [lookup?]

theorem Arena.get?_eq (arena : Arena α) (id : ArenaId) : arena.get? id = arena.toList[id.index]? :=
  Array.getElem?_toList.symm

theorem Arena.get_of_get? {id : ArenaId} (found : arena.get? id = some value) :
    arena.get id = .ok value := by
  rw [get, found]

theorem Arena.holds_empty : (empty : Arena α).Holds [] where
  values := rfl
  ids value index := by simp [empty, toList]

theorem Arena.Holds.ids_isSome_iff (holds : arena.Holds interned) (value : α) :
    (∃ index, arena.ids[value]? = some index) ↔ arena.toList.any (· == value) = true := by
  rw [List.any_eq_true]
  constructor
  · intro ⟨index, found⟩
    obtain ⟨stored, place, same⟩ := (holds.ids value index).mp found
    exact ⟨stored, List.mem_of_getElem? place, same⟩
  · intro ⟨stored, member, same⟩
    obtain ⟨index, place⟩ := List.mem_iff_getElem?.mp member
    exact ⟨index, (holds.ids value index).mpr ⟨stored, place, same⟩⟩

/-- The place that the table of identifiers gives is the first one with an equal value. -/
theorem Arena.Holds.idxOf?_eq (holds : arena.Holds interned) (value : α) :
    arena.toList.idxOf? value = arena.ids[value]? := by
  cases found : arena.toList.idxOf? value with
  | some index =>
    obtain ⟨inside, same, -⟩ := List.findIdx?_eq_some_iff_getElem.mp found
    exact ((holds.ids value index).mpr ⟨_, List.getElem?_eq_getElem inside, same⟩).symm
  | none =>
    symm
    rw [Option.eq_none_iff_forall_ne_some]
    intro index kept
    obtain ⟨stored, member, same⟩ :=
      List.any_eq_true.mp ((holds.ids_isSome_iff value).mp ⟨index, kept⟩)
    have differs := List.findIdx?_eq_none_iff.mp found stored member
    rw [differs] at same
    cases same

theorem Arena.intern_of_known {id : ArenaId} (known : arena.lookup? value = some id) :
    arena.intern value = (id, arena) := by
  rw [intern, known]

theorem Arena.intern_of_new (new : arena.lookup? value = none) :
    arena.intern value = (⟨arena.values.size⟩,
      ⟨arena.values.push value, arena.ids.insert value arena.values.size⟩) := by
  rw [intern, new]

theorem Arena.toList_intern_of_new (new : arena.lookup? value = none) :
    (arena.intern value).2.toList = arena.toList ++ [value] := by
  rw [intern_of_new new, toList, Array.toList_push, toList]

theorem Arena.serve_extends (arena : Arena α) (request : Request α) :
    arena.toList <+: (arena.serve request).2.toList := by
  cases request with
  | intern value =>
    change arena.toList <+: (arena.intern value).2.toList
    cases known : arena.lookup? value with
    | some id =>
      have same : (arena.intern value).2.toList = arena.toList := by rw [intern_of_known known]
      exact same ▸ List.prefix_rfl
    | none =>
      rw [toList_intern_of_new known]
      exact List.prefix_append _ _
  | _ => exact List.prefix_rfl

theorem Arena.run_extends (arena : Arena α) (requests : List (Request α)) :
    arena.toList <+: (arena.run requests).2.toList := by
  induction requests generalizing arena with
  | nil => exact List.prefix_rfl
  | cons first rest ih => exact (arena.serve_extends first).trans (ih _)

end Tables

/-! ## Runs -/

theorem Arena.getElem?_concat_eq_some_iff {α : Type} {values : List α} {last stored : α}
    {index : Nat} :
    (values ++ [last])[index]? = some stored ↔
      values[index]? = some stored ∨ index = values.length ∧ last = stored := by
  rcases Nat.lt_trichotomy index values.length with inside | atEnd | outside
  · rw [List.getElem?_append_left inside]
    simp [Nat.ne_of_lt inside]
  · subst atEnd
    simp
  · rw [List.getElem?_eq_none (by simp; omega), List.getElem?_eq_none (Nat.le_of_lt outside)]
    simp [Nat.ne_of_gt outside]

section Runs

variable {α : Type} [BEq α] [Hashable α] [EquivBEq α] [LawfulHashable α] {arena : Arena α}
  {interned : List α}

omit [LawfulHashable α] in
theorem Arena.Holds.any_interned (holds : arena.Holds interned) (value : α) :
    interned.any (· == value) = true ↔ ∃ index, arena.ids[value]? = some index := by
  rw [holds.ids_isSome_iff, holds.values, any_eraseDups]

omit [LawfulHashable α] in
theorem Arena.Holds.intern_known (holds : arena.Holds interned) {value : α} {id : ArenaId}
    (known : arena.lookup? value = some id) :
    (arena.intern value).2.Holds (interned ++ [value]) := by
  have before := (holds.any_interned value).mpr ⟨id.index, lookup?_eq_some_iff.mp known⟩
  rw [intern_of_known known]
  refine ⟨?_, holds.ids⟩
  rw [eraseDups_concat, if_pos before, List.append_nil]
  exact holds.values

theorem Arena.Holds.index_eq_iff (holds : arena.Holds interned) {value other : α}
    {index otherIndex : Nat} (found : arena.ids[value]? = some index)
    (foundOther : arena.ids[other]? = some otherIndex) :
    index = otherIndex ↔ (value == other) = true := by
  constructor
  · rintro rfl
    obtain ⟨stored, place, same⟩ := (holds.ids value index).mp found
    obtain ⟨otherStored, otherPlace, sameOther⟩ := (holds.ids other index).mp foundOther
    cases place.symm.trans otherPlace
    exact BEq.trans (BEq.symm same) sameOther
  · intro same
    rw [Std.HashMap.getElem?_congr same, foundOther] at found
    exact (Option.some.inj found).symm

theorem Arena.Holds.intern_new (holds : arena.Holds interned) {value : α}
    (new : arena.lookup? value = none) :
    (arena.intern value).2.Holds (interned ++ [value]) := by
  have absent : ∀ index, arena.ids[value]? ≠ some index := by
    intro index found
    rw [lookup?_eq_some_iff.mpr found] at new
    cases new
  have unknown : ¬ interned.any (· == value) = true := by
    rw [holds.any_interned value]
    exact fun ⟨index, found⟩ => absent index found
  refine ⟨?_, fun other index => ?_⟩
  · rw [toList_intern_of_new new, eraseDups_concat, if_neg unknown, holds.values]
  · have size : arena.toList.length = arena.values.size := Array.length_toList
    rw [toList_intern_of_new new, intern_of_new new, Std.HashMap.getElem?_insert]
    simp only [getElem?_concat_eq_some_iff, or_and_right, exists_or, ← holds.ids other index, size]
    cases same : value == other with
    | true =>
      -- A value equal to the new one has not been there either.
      have absentOther : arena.ids[other]? ≠ some index := by
        rw [← Std.HashMap.getElem?_congr same]
        exact absent index
      simp [absentOther, same, eq_comm]
    | false => simp [same]

theorem Arena.Holds.serve (holds : arena.Holds interned) (request : Request α) :
    (arena.serve request).2.Holds (interned ++ request.interned?.toList) := by
  cases request with
  | intern value =>
    change (arena.intern value).2.Holds (interned ++ [value])
    cases known : arena.lookup? value with
    | some id => exact holds.intern_known known
    | none => exact holds.intern_new known
  | _ =>
    change arena.Holds (interned ++ [])
    rw [List.append_nil]
    exact holds

theorem Arena.Holds.run (holds : arena.Holds interned) (requests : List (Request α)) :
    (arena.run requests).2.Holds (interned ++ Arena.interned requests) := by
  induction requests generalizing arena interned with
  | nil =>
    change arena.Holds (interned ++ [])
    rw [List.append_nil]
    exact holds
  | cons first rest ih =>
    have served := ih (holds.serve first)
    have split : Arena.interned (first :: rest) =
        first.interned?.toList ++ Arena.interned rest := by
      rw [Arena.interned, List.filterMap_cons]
      cases first.interned? <;> rfl
    rw [split, ← List.append_assoc]
    exact served

omit [LawfulHashable α] in
/-- The identifier that is handed out leads to a value equal to the one interned. -/
theorem Arena.Holds.get?_intern (holds : arena.Holds interned) (value : α) :
    ∃ stored, (arena.intern value).2.get? (arena.intern value).1 = some stored ∧
      (stored == value) = true := by
  cases known : arena.lookup? value with
  | some id =>
    rw [intern_of_known known, get?_eq]
    exact (holds.ids value id.index).mp (lookup?_eq_some_iff.mp known)
  | none =>
    refine ⟨value, ?_, BEq.rfl⟩
    rw [get?_eq, toList_intern_of_new known, intern_of_new known]
    exact List.getElem?_concat_length

/-- It does so at the end of the run as well. -/
theorem Arena.Holds.run_intern (holds : arena.Holds interned) {requests : List (Request α)}
    {time : Nat} {value : α} (asked : requests[time]? = some (.intern value)) :
    ∃ index stored, (arena.run requests).1[time]? = some (.id ⟨index⟩) ∧
      (arena.run requests).2.toList[index]? = some stored ∧ (stored == value) = true := by
  induction requests generalizing arena interned time with
  | nil => cases asked
  | cons first rest ih =>
    cases time with
    | zero =>
      cases asked
      obtain ⟨stored, found, same⟩ := holds.get?_intern value
      obtain ⟨later, whole⟩ := (arena.intern value).2.run_extends rest
      rw [get?_eq] at found
      have inside := (List.getElem?_eq_some_iff.mp found).1
      refine ⟨(arena.intern value).1.index, stored, rfl, ?_, same⟩
      change ((arena.intern value).2.run rest).2.toList[_]? = _
      rw [← whole, List.getElem?_append_left inside, found]
    | succ time =>
      rw [List.getElem?_cons_succ] at asked
      exact ih (holds.serve first) asked

/-- What the answers to a run of requests, and the arena at its end, have to do with the values
that were interned. Two values may be equal without being the same. -/
structure Arena.KeepsFirst (requests : List (Request α)) (answers : List (Answer α))
    (arena : Arena α) : Prop where
  values : arena.toList = (Arena.interned requests).eraseDups
  ids : ∀ (value : α) (index : Nat), arena.ids[value]? = some index ↔
    ∃ stored, arena.toList[index]? = some stored ∧ (stored == value) = true
  position : ∀ (time : Nat) (value : α), requests[time]? = some (.intern value) →
    ∃ index, answers[time]? = some (.id ⟨index⟩) ∧ arena.toList.idxOf? value = some index
  sameId : ∀ (time otherTime : Nat) (value other : α) (id otherId : ArenaId),
    requests[time]? = some (.intern value) → requests[otherTime]? = some (.intern other) →
    answers[time]? = some (.id id) → answers[otherTime]? = some (.id otherId) →
    (id = otherId ↔ (value == other) = true)
  stays : ∀ (time : Nat) (value : α) (id : ArenaId), requests[time]? = some (.intern value) →
    answers[time]? = some (.id id) →
    ∃ stored, (stored == value) = true ∧ (arena.serve (.get id)).1 = .value (some stored) ∧
      (arena.serve (.share id)).1 = .value (some stored) ∧
      (arena.serve (.index id)).1 = .indexed (.ok stored)
  lookup : ∀ (value : α) (index : Nat), arena.lookup? value = some ⟨index⟩ ↔
    (∃ known ∈ Arena.interned requests, (known == value) = true) ∧
      arena.toList.idxOf? value = some index
  size : arena.size = (Arena.interned requests).eraseDups.length
  absent : ∀ id : ArenaId, arena.get? id = none ↔ arena.size ≤ id.index

theorem Arena.run_keepsFirst (requests : List (Request α)) :
    KeepsFirst requests ((empty : Arena α).run requests).1 ((empty : Arena α).run requests).2 := by
  have holds := holds_empty.run requests
  rw [List.nil_append] at holds
  -- The identifier handed out at any time is the one in the table at the end.
  have answered : ∀ {time : Nat} {value : α}, requests[time]? = some (.intern value) →
      ∃ index, ((empty : Arena α).run requests).1[time]? = some (.id ⟨index⟩) ∧
        ((empty : Arena α).run requests).2.ids[value]? = some index := by
    intro time value asked
    obtain ⟨index, stored, answer, found, same⟩ := holds_empty.run_intern asked
    exact ⟨index, answer, (holds.ids value index).mpr ⟨stored, found, same⟩⟩
  generalize ((empty : Arena α).run requests).1 = answers at *
  generalize ((empty : Arena α).run requests).2 = arena at *
  refine ⟨holds.values, holds.ids, ?_, ?_, ?_, ?_, ?_, ?_⟩
  · intro time value asked
    obtain ⟨index, answer, found⟩ := answered asked
    exact ⟨index, answer, (holds.idxOf?_eq value).trans found⟩
  · intro time otherTime value other id otherId asked askedOther answer answerOther
    obtain ⟨index, sameAnswer, found⟩ := answered asked
    obtain ⟨otherIndex, sameOther, foundOther⟩ := answered askedOther
    cases answer.symm.trans sameAnswer
    cases answerOther.symm.trans sameOther
    rw [ArenaId.mk.injEq]
    exact holds.index_eq_iff found foundOther
  · intro time value id asked answer
    obtain ⟨index, sameAnswer, found⟩ := answered asked
    cases answer.symm.trans sameAnswer
    obtain ⟨stored, place, same⟩ := (holds.ids value index).mp found
    have get : arena.get? ⟨index⟩ = some stored := (arena.get?_eq _).trans place
    exact ⟨stored, same, congrArg Answer.value get, congrArg Answer.value get,
      congrArg Answer.indexed (get_of_get? get)⟩
  · intro value index
    rw [lookup?_eq_some_iff, holds.idxOf?_eq]
    constructor
    · intro found
      exact ⟨List.any_eq_true.mp ((holds.any_interned value).mpr ⟨index, found⟩), found⟩
    · exact fun ⟨_, found⟩ => found
  · rw [← holds.values]
    exact Array.length_toList.symm
  · intro id
    exact Array.getElem?_eq_none_iff

end Runs

theorem Arena.run_keepsFirst_repeated :
    let requests : List (Request String) := [.intern "b", .intern "a", .lookup "c", .intern "b",
      .get ⟨1⟩, .intern "c", .size, .intern "a", .index ⟨7⟩, .intern "b"]
    EquivBEq String ∧ LawfulHashable String ∧
      KeepsFirst requests (empty.run requests).1 (empty.run requests).2 :=
  ⟨inferInstance, inferInstance, run_keepsFirst _⟩

end GenericSignature
