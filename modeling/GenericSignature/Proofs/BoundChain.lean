import GenericSignature.Scope.Member

/-! Chains of bounds.

A variable is resolved to the bound at the end of its chain, and not at all if the chain has no end
or ends without a bound. Here the chains are a relation that knows nothing of visited names.
-/

set_option autoImplicit false

namespace GenericSignature

/-- The chain that starts at the variable ends in the bound. It leaves the innermost level at the
first name that is not declared there. -/
inductive Scope.Chain : Scope → TypeVariable → ReferenceType → Prop where
  | stop {declared : List TypeParameter} {outer : Scope} {start : TypeVariable}
      {parameter : TypeParameter} {bound : ReferenceType} :
      TypeParameter.find? declared start.name = some parameter → parameter.bound? = some bound →
      (∀ next, bound ≠ .variable next) → Chain (declared :: outer) start bound
  | follow {declared : List TypeParameter} {outer : Scope} {start next : TypeVariable}
      {parameter : TypeParameter} {bound : ReferenceType} :
      TypeParameter.find? declared start.name = some parameter →
      parameter.bound? = some (.variable next) → Chain (declared :: outer) next bound →
      Chain (declared :: outer) start bound
  | leave {declared : List TypeParameter} {outer : Scope} {start : TypeVariable}
      {bound : ReferenceType} :
      TypeParameter.find? declared start.name = none → Chain outer start bound →
      Chain (declared :: outer) start bound

/-! ## One level -/

def TypeParameter.onward (declared : List TypeParameter) (current : TypeVariable) :
    ChainEnd ⊕ TypeVariable :=
  match find? declared current.name with
  | none => .inl (.undeclared current)
  | some parameter =>
    match parameter.bound? with
    | some (.variable next) => .inr next
    | some bound => .inl (.bound bound)
    | none => .inl (.unbounded current)

/-- The part of a chain on one level, with the number of steps on it. -/
inductive TypeParameter.Settles (declared : List TypeParameter) :
    Nat → TypeVariable → ChainEnd → Prop where
  | stop {start : TypeVariable} {last : ChainEnd} :
      onward declared start = .inl last → Settles declared 0 start last
  | follow {steps : Nat} {start next : TypeVariable} {last : ChainEnd} :
      onward declared start = .inr next → Settles declared steps next last →
      Settles declared (steps + 1) start last

section Levels

variable {declared : List TypeParameter} {outer : Scope} {unvisited : List Identifier}
  {steps otherSteps : Nat} {start next : TypeVariable} {last : ChainEnd} {type : ReferenceType}

theorem TypeParameter.onward_eq_next_iff :
    onward declared start = .inr next ↔
      ∃ parameter, find? declared start.name = some parameter ∧
        parameter.bound? = some (.variable next) := by
  unfold onward
  cases found : find? declared start.name with
  | none => simp
  | some parameter =>
    rcases bound : parameter.bound? with _ | (_ | _ | _) <;> simp [bound]

theorem TypeParameter.onward_eq_bound_iff :
    onward declared start = .inl (.bound type) ↔
      ∃ parameter, find? declared start.name = some parameter ∧ parameter.bound? = some type ∧
        ∀ next, type ≠ .variable next := by
  unfold onward
  cases found : find? declared start.name with
  | none => simp
  | some parameter =>
    rcases bound : parameter.bound? with _ | (_ | _ | other) <;> simp [bound]
    · rintro rfl next ⟨⟩
    · rintro rfl next ⟨⟩
    · exact fun same => ⟨other, same.symm⟩

theorem TypeParameter.onward_eq_undeclared_iff {final : TypeVariable} :
    onward declared start = .inl (.undeclared final) ↔
      find? declared start.name = none ∧ start = final := by
  unfold onward
  cases found : find? declared start.name with
  | none => simp
  | some parameter =>
    rcases bound : parameter.bound? with _ | (_ | _ | _) <;> simp [bound]

theorem TypeParameter.Settles.steps_eq {otherLast : ChainEnd}
    (first : Settles declared steps start last)
    (second : Settles declared otherSteps start otherLast) : steps = otherSteps := by
  induction first generalizing otherSteps with
  | stop ends =>
    cases second with
    | stop _ => rfl
    | follow goes _ => cases ends.symm.trans goes
  | follow goes _ ih =>
    cases second with
    | stop ends => cases ends.symm.trans goes
    | follow goes' rest =>
      cases goes.symm.trans goes'
      rw [ih rest]

theorem TypeParameter.chainEndWithin_of_mem (visits : start.name ∈ unvisited) :
    chainEndWithin declared unvisited start =
      match onward declared start with
      | .inl last => last
      | .inr next => chainEndWithin declared (unvisited.erase start.name) next := by
  rw [chainEndWithin, onward]
  cases find? declared start.name with
  | none => rfl
  | some parameter =>
    simp only [if_pos visits]
    rcases parameter.bound? with _ | (_ | _ | _) <;> rfl

theorem TypeParameter.mem_of_find?_eq_some {name : Identifier} {parameter : TypeParameter}
    (found : find? declared name = some parameter) :
    parameter ∈ declared ∧ parameter.name = name := by
  rw [find?] at found
  have chosen := List.find?_some found
  exact ⟨List.mem_of_find?_eq_some found, of_decide_eq_true chosen⟩

theorem TypeParameter.mem_names_of_isSome_find? {name : Identifier}
    (isDeclared : (find? declared name).isSome) : name ∈ declared.map (·.name) := by
  obtain ⟨parameter, found⟩ := Option.isSome_iff_exists.mp isDeclared
  obtain ⟨member, rfl⟩ := mem_of_find?_eq_some found
  exact List.mem_map_of_mem member

theorem TypeParameter.eq_or_visited_of_erase {name current : Identifier}
    (visited : name ∉ unvisited.erase current) : name = current ∨ name ∉ unvisited := by
  by_cases same : name = current
  · exact .inl same
  · exact .inr fun member => visited ((List.mem_erase_of_ne same).mpr member)

/-- What the visited names have in common: they all lie further back on the chain. -/
def TypeParameter.VisitedBefore (declared : List TypeParameter) (unvisited : List Identifier)
    (steps : Nat) : Prop :=
  ∀ name, name ∉ unvisited → (find? declared name).isSome →
    ∃ more last, steps < more ∧ Settles declared more ⟨name⟩ last

theorem TypeParameter.visitedBefore_of_all
    (all : ∀ name, (find? declared name).isSome → name ∈ unvisited) :
    VisitedBefore declared unvisited steps :=
  fun name visited isDeclared => absurd (all name isDeclared) visited

theorem TypeParameter.VisitedBefore.mem_unvisited (before : VisitedBefore declared unvisited steps)
    (settles : Settles declared steps start last)
    (isDeclared : (find? declared start.name).isSome) :
    start.name ∈ unvisited := by
  refine Decidable.byContradiction fun visited => ?_
  obtain ⟨more, _, longer, again⟩ := before start.name visited isDeclared
  exact Nat.ne_of_lt longer (settles.steps_eq again)

theorem TypeParameter.VisitedBefore.erase (before : VisitedBefore declared unvisited (steps + 1))
    (settles : Settles declared (steps + 1) start last) :
    VisitedBefore declared (unvisited.erase start.name) steps := by
  intro name visited isDeclared
  -- The name that is struck now is itself one step further back than what follows.
  rcases eq_or_visited_of_erase visited with rfl | visited
  · exact ⟨steps + 1, last, Nat.lt_succ_self steps, settles⟩
  · obtain ⟨more, end', longer, settlesName⟩ := before name visited isDeclared
    exact ⟨more, end', Nat.lt_of_succ_lt longer, settlesName⟩

theorem TypeParameter.Settles.chainEndWithin_eq (settles : Settles declared steps start last)
    (before : VisitedBefore declared unvisited steps) :
    chainEndWithin declared unvisited start = last := by
  -- Step by step along the chain, the visited names stay behind.
  induction settles generalizing unvisited with
  | @stop start last ends =>
    cases found : find? declared start.name with
    | none =>
      have same := ends.symm.trans (onward_eq_undeclared_iff.mpr ⟨found, rfl⟩)
      cases same
      rw [chainEndWithin, found]
    | some parameter =>
      have visits := before.mem_unvisited (.stop ends) (by rw [found]; rfl)
      rw [chainEndWithin_of_mem visits, ends]
  | @follow steps start next last goes rest ih =>
    obtain ⟨parameter, found, -⟩ := onward_eq_next_iff.mp goes
    have visits := before.mem_unvisited (.follow goes rest) (by rw [found]; rfl)
    rw [chainEndWithin_of_mem visits, goes]
    exact ih (before.erase (.follow goes rest))

theorem TypeParameter.Settles.chainEnd_eq (settles : Settles declared steps start last) :
    chainEnd declared start = last := by
  -- At the start, every declared name is unvisited.
  apply settles.chainEndWithin_eq
  exact visitedBefore_of_all fun _ isDeclared => mem_names_of_isSome_find? isDeclared

theorem TypeParameter.exists_settles (declared : List TypeParameter) (unvisited : List Identifier)
    (start : TypeVariable) (ends : chainEndWithin declared unvisited start ≠ .cyclic) :
    ∃ steps, Settles declared steps start (chainEndWithin declared unvisited start) := by
  fun_induction chainEndWithin declared unvisited start with
  | case1 unvisited start found =>
    exact ⟨0, .stop (onward_eq_undeclared_iff.mpr ⟨found, rfl⟩)⟩
  | case2 unvisited start parameter found visits next bound ih =>
    obtain ⟨steps, settles⟩ := ih ends
    exact ⟨steps + 1, .follow (onward_eq_next_iff.mpr ⟨parameter, found, bound⟩) settles⟩
  | case3 unvisited start parameter found visits type plain bound =>
    exact ⟨0, .stop (onward_eq_bound_iff.mpr ⟨parameter, found, bound, plain⟩)⟩
  | case4 unvisited start parameter found visits bound =>
    have ends : onward declared start = .inl (.unbounded start) := by
      rw [onward, found]
      simp only [bound]
    exact ⟨0, .stop ends⟩
  | case5 unvisited start parameter found visited => exact absurd rfl ends

/-! ## All levels -/

theorem Scope.Chain.of_settles (settles : TypeParameter.Settles declared steps start last)
    (ends : last = .bound type ∨ ∃ final, last = .undeclared final ∧ Chain outer final type) :
    Chain (declared :: outer) start type := by
  induction settles with
  | stop stops =>
    rcases ends with rfl | ⟨final, rfl, chain⟩
    · obtain ⟨parameter, found, bound, plain⟩ := TypeParameter.onward_eq_bound_iff.mp stops
      exact .stop found bound plain
    · obtain ⟨absent, rfl⟩ := TypeParameter.onward_eq_undeclared_iff.mp stops
      exact .leave absent chain
  | follow goes _ ih =>
    obtain ⟨parameter, found, bound⟩ := TypeParameter.onward_eq_next_iff.mp goes
    exact .follow found bound (ih ends)

theorem Scope.Chain.exists_settles {scope : Scope} (chain : Chain scope start type)
    (level : scope = declared :: outer) :
    ∃ steps last, TypeParameter.Settles declared steps start last ∧
      (last = .bound type ∨ ∃ final, last = .undeclared final ∧ Chain outer final type) := by
  induction chain with
  | stop found bound plain =>
    cases level
    exact ⟨0, _, .stop (TypeParameter.onward_eq_bound_iff.mpr ⟨_, found, bound, plain⟩), .inl rfl⟩
  | follow found bound _ ih =>
    obtain ⟨steps, last, settles, ends⟩ := ih level
    cases level
    exact ⟨steps + 1, last,
      .follow (TypeParameter.onward_eq_next_iff.mpr ⟨_, found, bound⟩) settles, ends⟩
  | leave absent chain _ =>
    cases level
    exact ⟨0, _, .stop (TypeParameter.onward_eq_undeclared_iff.mpr ⟨absent, rfl⟩),
      .inr ⟨_, rfl, chain⟩⟩

theorem Scope.Chain.exists_bound {scope : Scope} (chain : Chain scope start type) :
    ∃ declared ∈ scope, ∃ parameter ∈ declared, parameter.bound? = some type := by
  induction chain with
  | stop found bound _ =>
    obtain ⟨isDeclared, -⟩ := TypeParameter.mem_of_find?_eq_some found
    exact ⟨_, List.mem_cons_self, _, isDeclared, bound⟩
  | follow _ _ _ ih => exact ih
  | leave _ _ ih =>
    obtain ⟨declared, level, bounded⟩ := ih
    exact ⟨declared, List.mem_cons_of_mem _ level, bounded⟩

/-- A chain through several levels, cut where it leaves the first of them. -/
theorem Scope.chain_cons_iff :
    Chain (declared :: outer) start type ↔
      TypeParameter.chainEnd declared start = .bound type ∨
        ∃ final, TypeParameter.chainEnd declared start = .undeclared final ∧
          Chain outer final type := by
  constructor
  · intro chain
    obtain ⟨steps, last, settles, ends⟩ := chain.exists_settles rfl
    rw [settles.chainEnd_eq]
    exact ends
  · intro ends
    -- Neither a bound nor a name beyond the level is a circle.
    have settles : TypeParameter.chainEnd declared start ≠ .cyclic := by
      rcases ends with ends | ⟨final, ends, -⟩ <;>
      · rw [ends]
        nofun
    obtain ⟨steps, settles⟩ := TypeParameter.exists_settles declared _ start settles
    exact .of_settles settles ends

theorem Scope.resolveVariable_value_iff (scope : Scope) (start : TypeVariable) :
    (scope.resolveVariable start).value = some type ↔ Chain scope start type := by
  induction scope generalizing start with
  | nil =>
    refine ⟨nofun, fun chain => ?_⟩
    cases chain
  | cons declared outer ih =>
    rw [chain_cons_iff, resolveVariable]
    cases TypeParameter.chainEnd declared start with
    | bound found => simp
    | unbounded final => simp
    | undeclared final => simp [ih]
    | cyclic => simp

end Levels

/-- A method has two levels. A field has only that of its class, and so has the class itself. -/
theorem Scope.resolves_to_chain_end (declaring : ClassSignature) (method : MethodSignature)
    (field : FieldSignature) (start : TypeVariable) (type : ReferenceType) :
    (((MethodMember.mk declaring method).scope.resolveVariable start).value = some type ↔
      Chain [method.typeParameters, declaring.typeParameters] start type) ∧
    ((declaring.scope.resolveVariable start).value = some type ↔
      Chain [declaring.typeParameters] start type) ∧
    (((FieldMember.mk declaring field).scope.resolveVariable start).value = some type ↔
      Chain [declaring.typeParameters] start type) :=
  ⟨resolveVariable_value_iff _ start, resolveVariable_value_iff _ start,
    resolveVariable_value_iff _ start⟩

end GenericSignature
