import GenericSignature.Proofs.BoundChain
import Mathlib.Data.List.Dedup
import Mathlib.Logic.Relation

/-! The shapes of a chain of bounds on one level.

A chain stops at a bound, stops at a parameter that has none, leaves the level at a name that is
not declared there, or comes back to a name. Each shape is told by the variables that the chain
comes to; no chain has two of them, and none has another one.

Since the shape alone decides, the loop that gathers the visited names comes to the same end as the
one that strikes them from a list.
-/

set_option autoImplicit false

namespace GenericSignature

def TypeParameter.Precedes (declared : List TypeParameter) (current next : TypeVariable) : Prop :=
  ∃ parameter, find? declared current.name = some parameter ∧
    parameter.bound? = some (.variable next)

def TypeParameter.Reaches (declared : List TypeParameter) : TypeVariable → TypeVariable → Prop :=
  Relation.ReflTransGen (Precedes declared)

def TypeParameter.LeavesAt (declared : List TypeParameter) (start last : TypeVariable) : Prop :=
  Reaches declared start last ∧ find? declared last.name = none

/-- The chain comes to the parameter, which has neither a class bound nor interface bounds. -/
def TypeParameter.StopsUnbounded (declared : List TypeParameter) (start : TypeVariable)
    (parameter : TypeParameter) : Prop :=
  (∃ last, Reaches declared start last ∧ find? declared last.name = some parameter) ∧
    parameter.classBound = none ∧ parameter.interfaceBounds = []

/-- The chain comes to a name that it later comes to again. It need not be the first one. -/
def TypeParameter.Revisits (declared : List TypeParameter) (start : TypeVariable) : Prop :=
  ∃ again, Reaches declared start again ∧ Relation.TransGen (Precedes declared) again again

section Shapes

variable {declared : List TypeParameter} {unvisited : List Identifier} {steps : Nat}
  {start next last final : TypeVariable} {stop : ChainEnd}

theorem TypeParameter.bound?_eq_none_iff {parameter : TypeParameter} :
    parameter.bound? = none ↔ parameter.classBound = none ∧ parameter.interfaceBounds = [] := by
  simp [bound?]

theorem TypeParameter.onward_eq_unbounded_iff :
    onward declared start = .inl (.unbounded last) ↔
      ∃ parameter, find? declared start.name = some parameter ∧ parameter.bound? = none ∧
        start = last := by
  unfold onward
  cases found : find? declared start.name with
  | none => simp
  | some parameter =>
    rcases bound : parameter.bound? with _ | (_ | _ | _) <;> simp [bound]

/-! ## Chains that stop -/

theorem TypeParameter.Settles.exists_reaches (settles : Settles declared steps start stop) :
    ∃ final, Reaches declared start final ∧ onward declared final = .inl stop := by
  induction settles with
  | stop ends => exact ⟨_, .refl, ends⟩
  | follow goes _ ih =>
    obtain ⟨final, reaches, ends⟩ := ih
    exact ⟨final, .head (onward_eq_next_iff.mp goes) reaches, ends⟩

theorem TypeParameter.Reaches.exists_settles (reaches : Reaches declared start final)
    (ends : onward declared final = .inl stop) : ∃ steps, Settles declared steps start stop := by
  induction reaches using Relation.ReflTransGen.head_induction_on with
  | refl => exact ⟨0, .stop ends⟩
  | head goes _ ih =>
    obtain ⟨steps, settles⟩ := ih
    exact ⟨steps + 1, .follow (onward_eq_next_iff.mpr goes) settles⟩

theorem TypeParameter.chainEnd_eq_iff (stops : stop ≠ .cyclic) :
    chainEnd declared start = stop ↔
      ∃ final, Reaches declared start final ∧ onward declared final = .inl stop := by
  constructor
  · rintro rfl
    obtain ⟨steps, settles⟩ := exists_settles declared _ start stops
    exact settles.exists_reaches
  · rintro ⟨final, reaches, ends⟩
    obtain ⟨steps, settles⟩ := reaches.exists_settles ends
    exact settles.chainEnd_eq

theorem TypeParameter.chainEnd_eq_undeclared_iff :
    chainEnd declared start = .undeclared last ↔ LeavesAt declared start last := by
  have stops : ChainEnd.undeclared last ≠ .cyclic := nofun
  simp only [chainEnd_eq_iff stops, onward_eq_undeclared_iff]
  constructor
  · rintro ⟨_, reaches, absent, rfl⟩
    exact ⟨reaches, absent⟩
  · rintro ⟨reaches, absent⟩
    exact ⟨last, reaches, absent, rfl⟩

theorem TypeParameter.LeavesAt.eq (first : LeavesAt declared start last)
    (second : LeavesAt declared start final) : last = final := by
  have ends := chainEnd_eq_undeclared_iff.mpr first
  rw [chainEnd_eq_undeclared_iff.mpr second] at ends
  exact (ChainEnd.undeclared.inj ends).symm

theorem TypeParameter.exists_chainEnd_eq_unbounded_iff {name : Identifier} :
    (∃ last, chainEnd declared start = .unbounded last ∧ last.name = name) ↔
      ∃ parameter, StopsUnbounded declared start parameter ∧ parameter.name = name := by
  have stops (last : TypeVariable) : ChainEnd.unbounded last ≠ .cyclic := nofun
  simp only [chainEnd_eq_iff (stops _), onward_eq_unbounded_iff, StopsUnbounded,
    ← bound?_eq_none_iff]
  constructor
  · rintro ⟨_, ⟨last, reaches, parameter, found, bare, rfl⟩, rfl⟩
    exact ⟨parameter, ⟨⟨last, reaches, found⟩, bare⟩, (mem_of_find?_eq_some found).2⟩
  · rintro ⟨parameter, ⟨⟨last, reaches, found⟩, bare⟩, rfl⟩
    exact ⟨last, ⟨last, reaches, parameter, found, bare, rfl⟩, (mem_of_find?_eq_some found).2.symm⟩

/-! ## Chains that go round in a circle -/

theorem TypeParameter.Settles.of_precedes (settles : Settles declared steps start stop)
    (precedes : Precedes declared start next) :
    ∃ fewer, fewer < steps ∧ Settles declared fewer next stop := by
  have goes := onward_eq_next_iff.mpr precedes
  cases settles with
  | stop ends => cases ends.symm.trans goes
  | follow goes' rest =>
    cases goes.symm.trans goes'
    exact ⟨_, Nat.lt_succ_self _, rest⟩

theorem TypeParameter.Settles.of_transGen (settles : Settles declared steps start stop)
    (ahead : Relation.TransGen (Precedes declared) start next) :
    ∃ fewer, fewer < steps ∧ Settles declared fewer next stop := by
  induction ahead with
  | single precedes => exact settles.of_precedes precedes
  | tail _ precedes ih =>
    obtain ⟨fewer, less, rest⟩ := ih
    obtain ⟨fewest, lesser, rest⟩ := rest.of_precedes precedes
    exact ⟨fewest, Nat.lt_trans lesser less, rest⟩

theorem TypeParameter.Revisits.not_settles (revisits : Revisits declared start) :
    ¬Settles declared steps start stop := by
  intro settles
  obtain ⟨again, reaches, round⟩ := revisits
  -- From the name that recurs, the chain would have two lengths.
  obtain ⟨fewer, -, rest⟩ := settles.of_transGen (.trans_right reaches round)
  obtain ⟨fewest, less, restAgain⟩ := rest.of_transGen round
  exact Nat.ne_of_lt less (restAgain.steps_eq rest)

theorem TypeParameter.revisits_of_chainEndWithin
    (before : ∀ name, name ∉ unvisited → (find? declared name).isSome →
      Relation.TransGen (Precedes declared) ⟨name⟩ start)
    (circle : chainEndWithin declared unvisited start = .cyclic) : Revisits declared start := by
  fun_induction chainEndWithin declared unvisited start with
  | case1 => cases circle
  | case2 unvisited start parameter found visits next bound ih =>
    have goes : Precedes declared start next := ⟨parameter, found, bound⟩
    have beforeNext (name : Identifier) (visited : name ∉ unvisited.erase start.name)
        (isDeclared : (find? declared name).isSome) :
        Relation.TransGen (Precedes declared) ⟨name⟩ next := by
      rcases eq_or_visited_of_erase visited with rfl | visited
      · exact .single goes
      · exact (before name visited isDeclared).tail goes
    obtain ⟨again, reaches, round⟩ := ih beforeNext circle
    exact ⟨again, .head goes reaches, round⟩
  | case3 => cases circle
  | case4 => cases circle
  | case5 unvisited start parameter found visited =>
    -- To come to a declared name that is no longer unvisited is to come to it again.
    exact ⟨start, .refl, before start.name visited (by rw [found]; rfl)⟩

theorem TypeParameter.chainEnd_eq_cyclic_iff :
    chainEnd declared start = .cyclic ↔ Revisits declared start := by
  constructor
  · apply revisits_of_chainEndWithin
    exact fun name visited isDeclared => absurd (mem_names_of_isSome_find? isDeclared) visited
  · intro revisits
    refine Decidable.byContradiction fun stops => ?_
    obtain ⟨steps, settles⟩ := exists_settles declared _ start stops
    exact revisits.not_settles settles

/-! ## Visited names -/

theorem TypeParameter.chainEndWithin_eq_chainEnd
    (all : ∀ name, (find? declared name).isSome → name ∈ unvisited) :
    chainEndWithin declared unvisited start = chainEnd declared start := by
  by_cases circle : chainEndWithin declared unvisited start = .cyclic
  · refine Decidable.byContradiction fun differs => ?_
    rw [circle] at differs
    obtain ⟨steps, settles⟩ := exists_settles declared _ start (Ne.symm differs)
    rw [settles.chainEndWithin_eq (visitedBefore_of_all all)] at circle
    exact differs circle.symm
  · obtain ⟨steps, settles⟩ := exists_settles declared unvisited start circle
    exact settles.chainEnd_eq.symm

def TypeParameter.namesAhead (declared : List TypeParameter) (visited : List Identifier) :
    List Identifier :=
  (declared.map (·.name)).filter (· ∉ visited)

theorem TypeParameter.length_namesAhead_lt {name : Identifier} {visited : List Identifier}
    (isDeclared : (find? declared name).isSome) (fresh : name ∉ visited) :
    (namesAhead declared (name :: visited)).length < (namesAhead declared visited).length := by
  have fewer : namesAhead declared (name :: visited) =
      (namesAhead declared visited).filter (· ≠ name) := by
    simp [namesAhead, List.filter_filter]
  rw [fewer, List.length_filter_lt_length_iff_exists]
  refine ⟨name, List.mem_filter.mpr ⟨mem_names_of_isSome_find? isDeclared, ?_⟩, ?_⟩
  · exact decide_eq_true fresh
  · simp

/-- Follows bounds that are themselves variables, and keeps the names that have been followed, the
last one first. To come to one of them again is to go round in a circle. -/
def TypeParameter.chainEndAfter (declared : List TypeParameter) (visited : List Identifier)
    (current : TypeVariable) : ChainEnd :=
  match _ : find? declared current.name with
  | none => .undeclared current
  | some parameter =>
    if current.name ∈ visited then .cyclic
    else
      match parameter.bound? with
      | some (.variable next) => chainEndAfter declared (current.name :: visited) next
      | some bound => .bound bound
      | none => .unbounded current
-- Every round uses up one of the declared names, and there are only so many of them.
termination_by (namesAhead declared visited).length
decreasing_by
  rename_i found fresh
  exact length_namesAhead_lt (by rw [found]; rfl) fresh

theorem TypeParameter.chainEndAfter_eq_chainEndWithin {visited : List Identifier}
    (distinct : unvisited.Nodup)
    (complement : ∀ name, (find? declared name).isSome → (name ∈ unvisited ↔ name ∉ visited)) :
    chainEndAfter declared visited start = chainEndWithin declared unvisited start := by
  fun_induction chainEndAfter declared visited start generalizing unvisited with
  | case1 visited start found => rw [chainEndWithin, found]
  | case2 visited start parameter found visits =>
    have struck : start.name ∉ unvisited :=
      fun kept => (complement start.name (by rw [found]; rfl)).mp kept visits
    rw [chainEndWithin, found]
    simp only [if_neg struck]
  | case3 visited start parameter found fresh next bound ih =>
    have kept := (complement start.name (by rw [found]; rfl)).mpr fresh
    rw [chainEndWithin_of_mem kept, onward_eq_next_iff.mpr ⟨parameter, found, bound⟩]
    -- Without repetitions, striking a name once leaves no other copy of it.
    refine ih (distinct.erase _) fun name isDeclared => ?_
    rw [distinct.mem_erase_iff, complement name isDeclared, List.mem_cons, not_or]
  | case4 visited start parameter found fresh type plain bound =>
    have kept := (complement start.name (by rw [found]; rfl)).mpr fresh
    rw [chainEndWithin_of_mem kept, onward_eq_bound_iff.mpr ⟨parameter, found, bound, plain⟩]
  | case5 visited start parameter found fresh bound =>
    have kept := (complement start.name (by rw [found]; rfl)).mpr fresh
    rw [chainEndWithin_of_mem kept,
      onward_eq_unbounded_iff.mpr ⟨parameter, found, bound, rfl⟩]

/-- It makes no difference whether names are struck from a list or gathered in one. -/
theorem TypeParameter.chainEnd_eq_chainEndAfter (declared : List TypeParameter)
    (start : TypeVariable) : chainEnd declared start = chainEndAfter declared [] start := by
  have all (name : Identifier) (isDeclared : (find? declared name).isSome) :
      name ∈ (declared.map (·.name)).dedup :=
    List.mem_dedup.mpr (mem_names_of_isSome_find? isDeclared)
  rw [chainEndAfter_eq_chainEndWithin (List.nodup_dedup _), chainEndWithin_eq_chainEnd all]
  exact fun name isDeclared => iff_of_true (all name isDeclared) List.not_mem_nil

end Shapes

end GenericSignature
