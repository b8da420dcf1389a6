import GenericSignature.Proofs.ChainShape
import GenericSignature.Proofs.ExposedVariable

/-! What the log says of a type variable.

The records are those of the chain of bounds: that it leaves the method, and, if there is no bound
at its end, why. The reason is one of three, each for one shape of the chain on the level on which
it stops.
-/

set_option autoImplicit false

namespace GenericSignature

/-- The level on which a chain stops, and the variable at which the chain comes to this level. It
goes on to the next outer level, if there is one, where it leaves. -/
inductive Scope.StopsOn : Scope → TypeVariable → List TypeParameter → TypeVariable → Prop where
  | here {declared : List TypeParameter} {outer : Scope} {start : TypeVariable} :
      (outer ≠ [] → ∀ last, ¬TypeParameter.LeavesAt declared start last) →
      StopsOn (declared :: outer) start declared start
  | outwards {declared level : List TypeParameter} {outer : Scope}
      {start last entry : TypeVariable} :
      outer ≠ [] → TypeParameter.LeavesAt declared start last → StopsOn outer last level entry →
      StopsOn (declared :: outer) start level entry

/-- The records of a variable: the name at which its chain falls back on the class, and the reason
why there is no bound. -/
structure Scope.Explains (scope : Scope) (start : TypeVariable) (fallback : Option TypeVariable)
    (reason : Option LogRecord) : Prop where
  log : (scope.resolveVariable start).log =
    (fallback.map fun last => .undeclaredByMethod last.name).toList ++ reason.toList
  traced : ∀ record ∈ (scope.resolveVariable start).log, record.level = .trace
  unresolved : reason.isSome ↔ (scope.resolveVariable start).value = none
  sorts : ∀ record, reason = some record → ∃ name,
    record = .cyclicBound name ∨ record = .unbounded name ∨ record = .undeclared name
  cyclic : ∀ name, reason = some (.cyclicBound name) ↔
    ∃ level entry, scope.StopsOn start level entry ∧ TypeParameter.Revisits level entry ∧
      entry.name = name
  unbounded : ∀ name, reason = some (.unbounded name) ↔
    ∃ level entry, scope.StopsOn start level entry ∧
      ∃ parameter, TypeParameter.StopsUnbounded level entry parameter ∧ parameter.name = name
  undeclared : ∀ name, reason = some (.undeclared name) ↔
    ∃ level entry, scope.StopsOn start level entry ∧
      ∃ last, TypeParameter.LeavesAt level entry last ∧ last.name = name

def ChainEnd.reason? (entry : TypeVariable) : ChainEnd → Option LogRecord
  | .bound _ => none
  | .unbounded last => some (.unbounded last.name)
  | .undeclared last => some (.undeclared last.name)
  | .cyclic => some (.cyclicBound entry.name)

section Levels

variable {declared level : List TypeParameter} {scope outer : Scope}
  {start last entry : TypeVariable} {name : Identifier}

theorem Scope.StopsOn.unique {otherLevel : List TypeParameter} {otherEntry : TypeVariable}
    (first : scope.StopsOn start level entry)
    (second : scope.StopsOn start otherLevel otherEntry) :
    level = otherLevel ∧ entry = otherEntry := by
  induction first with
  | here stays =>
    cases second with
    | here _ => exact ⟨rfl, rfl⟩
    | outwards further leaves _ => exact absurd leaves (stays further _)
  | outwards further leaves _ ih =>
    cases second with
    | here stays => exact absurd leaves (stays further _)
    | outwards _ leaves' rest =>
      cases leaves.eq leaves'
      exact ih rest

theorem Scope.StopsOn.stopsOn_iff (stops : scope.StopsOn start level entry)
    {otherLevel : List TypeParameter} {otherEntry : TypeVariable} :
    scope.StopsOn start otherLevel otherEntry ↔ otherLevel = level ∧ otherEntry = entry := by
  refine ⟨fun stops' => stops'.unique stops, ?_⟩
  rintro ⟨rfl, rfl⟩
  exact stops

theorem TypeParameter.reason?_eq_cyclicBound_iff :
    (chainEnd declared entry).reason? entry = some (.cyclicBound name) ↔
      Revisits declared entry ∧ entry.name = name := by
  rw [← chainEnd_eq_cyclic_iff]
  cases chainEnd declared entry <;> simp [ChainEnd.reason?]

theorem TypeParameter.reason?_eq_unbounded_iff :
    (chainEnd declared entry).reason? entry = some (.unbounded name) ↔
      ∃ parameter, StopsUnbounded declared entry parameter ∧ parameter.name = name := by
  rw [← exists_chainEnd_eq_unbounded_iff]
  cases chainEnd declared entry <;> simp [ChainEnd.reason?]

theorem TypeParameter.reason?_eq_undeclared_iff :
    (chainEnd declared entry).reason? entry = some (.undeclared name) ↔
      ∃ last, LeavesAt declared entry last ∧ last.name = name := by
  simp only [← chainEnd_eq_undeclared_iff]
  cases chainEnd declared entry <;> simp [ChainEnd.reason?]

theorem ChainEnd.exists_of_reason? {stop : ChainEnd} {record : LogRecord}
    (given : stop.reason? entry = some record) :
    ∃ name, record = .cyclicBound name ∨ record = .unbounded name ∨ record = .undeclared name := by
  cases stop with
  | bound => cases given
  | unbounded last =>
    cases given
    exact ⟨last.name, .inr (.inl rfl)⟩
  | undeclared last =>
    cases given
    exact ⟨last.name, .inr (.inr rfl)⟩
  | cyclic =>
    cases given
    exact ⟨entry.name, .inl rfl⟩

theorem Scope.resolveVariable_here
    (stays : outer ≠ [] → ∀ last, ¬TypeParameter.LeavesAt declared start last) :
    let reason := (TypeParameter.chainEnd declared start).reason? start
    (resolveVariable (declared :: outer) start).log = reason.toList ∧
      (reason.isSome ↔ (resolveVariable (declared :: outer) start).value = none) := by
  rw [resolveVariable]
  cases ends : TypeParameter.chainEnd declared start with
  | bound | unbounded | cyclic => simp [ChainEnd.reason?]
  | undeclared last =>
    -- An undeclared name is a reason only where there is no level further out.
    cases outer with
    | nil => simp [ChainEnd.reason?, resolveVariable]
    | cons next outer =>
      have leaves := TypeParameter.chainEnd_eq_undeclared_iff.mp ends
      exact absurd leaves (stays (List.cons_ne_nil next outer) last)

theorem Scope.resolveVariable_outwards (further : outer ≠ [])
    (leaves : TypeParameter.LeavesAt declared start last) :
    resolveVariable (declared :: outer) start =
      ⟨(resolveVariable outer last).value,
        .undeclaredByMethod last.name :: (resolveVariable outer last).log⟩ := by
  have inner : outer.isEmpty = false := by simpa using further
  simp [resolveVariable, TypeParameter.chainEnd_eq_undeclared_iff.mpr leaves, inner]

theorem Scope.explains_of_stopsOn {fallback : Option TypeVariable}
    (stops : scope.StopsOn start level entry)
    (log : (scope.resolveVariable start).log =
      (fallback.map fun last => .undeclaredByMethod last.name).toList ++
        ((TypeParameter.chainEnd level entry).reason? entry).toList)
    (unresolved : ((TypeParameter.chainEnd level entry).reason? entry).isSome ↔
      (scope.resolveVariable start).value = none) :
    scope.Explains start fallback ((TypeParameter.chainEnd level entry).reason? entry) where
  log := log
  traced record member := by
    simp only [log, List.mem_append, Option.mem_toList, Option.map_eq_some_iff] at member
    rcases member with ⟨_, _, rfl⟩ | given
    · rfl
    · obtain ⟨_, rfl | rfl | rfl⟩ := ChainEnd.exists_of_reason? given <;> rfl
  unresolved := unresolved
  sorts _ := ChainEnd.exists_of_reason?
  cyclic _ := by
    simp [TypeParameter.reason?_eq_cyclicBound_iff, stops.stopsOn_iff, and_assoc]
  unbounded _ := by
    simp [TypeParameter.reason?_eq_unbounded_iff, stops.stopsOn_iff, and_assoc]
  undeclared _ := by
    simp [TypeParameter.reason?_eq_undeclared_iff, stops.stopsOn_iff, and_assoc]

theorem Scope.explains_level (declared : List TypeParameter) (start : TypeVariable) :
    ∃ reason, Explains [declared] start none reason := by
  have stays : ([] : Scope) ≠ [] → ∀ last, ¬TypeParameter.LeavesAt declared start last :=
    fun further => absurd rfl further
  obtain ⟨log, unresolved⟩ := resolveVariable_here stays
  exact ⟨_, explains_of_stopsOn (.here stays) log unresolved⟩

theorem Scope.explains_levels (declared outermost : List TypeParameter) (start : TypeVariable) :
    ∃ fallback reason, Explains [declared, outermost] start fallback reason ∧
      ∀ last, fallback = some last ↔ TypeParameter.LeavesAt declared start last := by
  by_cases leaves : ∃ last, TypeParameter.LeavesAt declared start last
  · -- The reason is that of the outer level, which is entered where the inner one is left.
    obtain ⟨last, leaves⟩ := leaves
    have stays : ([] : Scope) ≠ [] → ∀ final, ¬TypeParameter.LeavesAt outermost last final :=
      fun further => absurd rfl further
    obtain ⟨log, unresolved⟩ := resolveVariable_here stays
    have outwards := resolveVariable_outwards (List.cons_ne_nil outermost []) leaves
    refine ⟨some last, _,
      explains_of_stopsOn (.outwards (List.cons_ne_nil _ _) leaves (.here stays)) ?_ ?_, ?_⟩
    · simp [outwards, log]
    · simpa [outwards] using unresolved
    · -- The inner level is left at one variable at most.
      intro final
      constructor
      · rintro ⟨⟩
        exact leaves
      · exact fun leaves' => congrArg some (leaves.eq leaves')
  · have stays : [outermost] ≠ [] → ∀ last, ¬TypeParameter.LeavesAt declared start last :=
      fun _ => not_exists.mp leaves
    obtain ⟨log, unresolved⟩ := resolveVariable_here stays
    refine ⟨none, _, explains_of_stopsOn (.here stays) log unresolved, fun last => ?_⟩
    exact ⟨nofun, fun leaves' => absurd ⟨last, leaves'⟩ leaves⟩

end Levels

/-- Types have the records of the variable that they expose, if there is one, and no others. -/
structure Scope.LogsExposed (scope : Scope) : Prop where
  type : ∀ type, (scope.resolveType type).log = scope.recordsOf type.exposed?
  reference : ∀ type,
    (scope.resolveReference type).log = scope.recordsOf (JavaType.reference type).exposed?
  array : ∀ array,
    (scope.resolveArray array).log = scope.recordsOf (JavaType.ofArray array).exposed?
  argument : ∀ argument, (scope.resolveArgument argument).log = scope.recordsOf argument.exposed?

theorem Scope.logsExposed (scope : Scope) : scope.LogsExposed where
  type := scope.log_resolveType
  reference := scope.log_resolveReference
  array := scope.log_resolveArray
  argument := scope.log_resolveArgument

/-- Only a method has something to fall back on. -/
theorem Scope.variables_explained (declaring : ClassSignature) (method : MethodSignature)
    (field : FieldSignature) :
    (∀ start, ∃ reason, declaring.scope.Explains start none reason) ∧
    (∀ start, ∃ reason, (FieldMember.mk declaring field).scope.Explains start none reason) ∧
    (∀ start, ∃ fallback reason,
      (MethodMember.mk declaring method).scope.Explains start fallback reason ∧
        ∀ last, fallback = some last ↔
          TypeParameter.LeavesAt method.typeParameters start last) ∧
    declaring.scope.LogsExposed ∧ (FieldMember.mk declaring field).scope.LogsExposed ∧
      (MethodMember.mk declaring method).scope.LogsExposed :=
  ⟨explains_level _, explains_level _, explains_levels _ _, logsExposed _, logsExposed _,
    logsExposed _⟩

example :
    let declaring : ClassSignature :=
      ⟨[⟨⟨"B"⟩, some (.variable ⟨⟨"C"⟩⟩), []⟩, ⟨⟨"C"⟩, some (.variable ⟨⟨"C"⟩⟩), []⟩], .object, []⟩
    let method : MethodSignature := ⟨[⟨⟨"A"⟩, some (.variable ⟨⟨"B"⟩⟩), []⟩], [], .void, []⟩
    ((MethodMember.mk declaring method).scope.resolveVariable ⟨⟨"A"⟩⟩).log =
      [.undeclaredByMethod ⟨"B"⟩, .cyclicBound ⟨"B"⟩] := by
  -- The class is entered at `B`, which is not on the circle itself.
  decide +kernel

end GenericSignature
