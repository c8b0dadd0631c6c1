import Script.Standard.Collections
import Mathlib.Algebra.Order.Floor.Div

namespace Script

namespace Standard

/-- How many steps lead from `start` to a point before `stop`. -/
def stepCount (start stop step : Int) : Nat :=
  let distance := if 0 < step then stop - start else start - stop
  ((distance + step.natAbs - 1) / step.natAbs).toNat

/-- The integers from `start` on in steps of `step`, as long as they lie before `stop`. -/
def progression (start stop step : Int) : List Int :=
  (List.range (stepCount start stop step)).map fun (k : Nat) => start + k * step

/-- The integers `start + k * step`, in this order, exactly those that lie before `stop`. -/
structure IsProgression (start stop step : Int) (ns : List Int64) : Prop where
  value : ∀ (k : Nat) (h : k < ns.length), ns[k].toInt = start + k * step
  counts : ∀ k : Nat, k < ns.length ↔ LiesBefore stop step (start + k * step)
  strict : ns.Pairwise fun a b => 0 < step ∧ a < b ∨ step < 0 ∧ b < a
  length : ns.length =
    if LiesBefore stop step start then (stop - start).natAbs ⌈/⌉ step.natAbs else 0

variable {start stop step : Int}

theorem lt_toNat_ediv {distance size : Int} (positive : 0 < size) (k : Nat) :
    k < ((distance + size - 1) / size).toNat ↔ k * size < distance := by
  have bound : (k : Int) + 1 ≤ (distance + size - 1) / size ↔
      ((k : Int) + 1) * size ≤ distance + size - 1 := Int.le_ediv_iff_mul_le positive
  rw [Int.add_mul, Int.one_mul] at bound
  omega

theorem lt_stepCount (moves : step ≠ 0) (k : Nat) :
    k < stepCount start stop step ↔ LiesBefore stop step (start + k * step) := by
  have positive : 0 < (step.natAbs : Int) := by omega
  rw [stepCount, lt_toNat_ediv positive, LiesBefore]
  rcases Int.lt_or_gt_of_ne moves with down | up
  · have size : (step.natAbs : Int) = -step := by omega
    rw [size, Int.mul_neg, if_neg (by omega)]
    omega
  · have size : (step.natAbs : Int) = step := by omega
    rw [size, if_pos up]
    omega

theorem stepCount_eq (moves : step ≠ 0) : stepCount start stop step =
    if LiesBefore stop step start then (stop - start).natAbs ⌈/⌉ step.natAbs else 0 := by
  have first : 0 < stepCount start stop step ↔ LiesBefore stop step (start + (0 : Nat) * step) :=
    lt_stepCount moves 0
  rw [Int.natCast_zero, Int.zero_mul, Int.add_zero] at first
  split
  next before =>
    have distance : (if 0 < step then stop - start else start - stop) =
        ((stop - start).natAbs : Int) := by
      unfold LiesBefore at before
      split <;> omega
    rw [Nat.ceilDiv_eq_add_pred_div, stepCount, distance]
    have natural : ((stop - start).natAbs : Int) + step.natAbs - 1 =
        ((stop - start).natAbs + step.natAbs - 1 : Nat) := by omega
    rw [natural, ← Int.natCast_ediv, Int.toNat_natCast]
  next past => exact Nat.eq_zero_of_not_pos fun counted => past (first.mp counted)

theorem progression_of_not_before (moves : step ≠ 0) (past : ¬LiesBefore stop step start) :
    progression start stop step = [] := by
  rw [progression, stepCount_eq moves, if_neg past]
  rfl

theorem progression_of_before (moves : step ≠ 0) (before : LiesBefore stop step start) :
    progression start stop step = start :: progression (start + step) stop step := by
  have later (k : Nat) : start + (k + 1 : Nat) * step = start + step + k * step := by
    rw [Int.natCast_add, Int.add_mul]
    omega
  have count : stepCount start stop step = stepCount (start + step) stop step + 1 := by
    refine eq_of_forall_lt_iff fun k => ?_
    cases k with
    | zero =>
      have first : LiesBefore stop step (start + (0 : Nat) * step) := by simpa using before
      exact iff_of_true ((lt_stepCount moves 0).mpr first) (Nat.succ_pos _)
    | succ k => rw [Nat.succ_lt_succ_iff, lt_stepCount moves, lt_stepCount moves, later]
  simp only [progression, count, List.range_succ_eq_map, List.map_cons, List.map_map,
    Function.comp_def, Nat.succ_eq_add_one, later]
  simp

/-- The walk goes through the whole progression: where a sum leaves 64 bits, it has passed `stop`,
which 64 bits hold. -/
theorem map_walk {stop step : Int64} (moves : step ≠ 0) (points : Array Int64) (point : Int64) :
    (walk stop step points point).toList.map Int64.toInt =
      points.toList.map Int64.toInt ++ progression point.toInt stop.toInt step.toInt := by
  have moves : step.toInt ≠ 0 := fun zero => moves (Int64.toInt_inj.mp zero)
  fun_induction walk stop step points point with
  | case1 points point before next sum ih =>
    rw [ih, progression_of_before moves before, ← toInt_of_int64? sum]
    simp
  | case2 points point before sum =>
    have leaves := int64?_eq_none_iff.mp sum
    have low := stop.le_toInt
    have high := stop.toInt_lt
    have low' := point.le_toInt
    have high' := point.toInt_lt
    have past : ¬LiesBefore stop.toInt step.toInt (point.toInt + step.toInt) := by
      unfold LiesBefore at before ⊢
      omega
    rw [progression_of_before moves before, progression_of_not_before moves past]
    simp
  | case3 points point past =>
    rw [progression_of_not_before moves past, List.append_nil]

theorem isProgression_of_map {ns : List Int64} (moves : step ≠ 0)
    (points : ns.map Int64.toInt = progression start stop step) :
    IsProgression start stop step ns := by
  have count : ns.length = stepCount start stop step := by
    rw [← List.length_map Int64.toInt, points, progression, List.length_map, List.length_range]
  have value (k : Nat) (h : k < ns.length) : ns[k].toInt = start + k * step := by
    have there : (ns.map Int64.toInt)[k]? = (progression start stop step)[k]? := by rw [points]
    simpa [progression, h, count ▸ h] using there
  refine ⟨value, fun k => ?_, ?_, ?_⟩
  · rw [count, lt_stepCount moves]
  · rw [List.pairwise_iff_getElem]
    intro i j hi hj less
    rw [Int64.lt_iff_toInt_lt, Int64.lt_iff_toInt_lt, value i hi, value j hj]
    have further : (i : Int) < j := by omega
    rcases Int.lt_or_gt_of_ne moves with down | up
    · exact .inr ⟨down, Int.add_lt_add_left (Int.mul_lt_mul_of_neg_right further down) _⟩
    · exact .inl ⟨up, Int.add_lt_add_left (Int.mul_lt_mul_of_pos_right further up) _⟩
  · rw [count, stepCount_eq moves]

theorem isProgression_walk {start stop step : Int64} (moves : step ≠ 0) :
    IsProgression start.toInt stop.toInt step.toInt (walk stop step #[] start).toList :=
  isProgression_of_map (fun zero => moves (Int64.toInt_inj.mp zero)) (map_walk moves #[] start)

theorem range_three (start stop step : Int64) :
    range [.int start, .int stop, .int step] = rangeOf start stop step := rfl

theorem range_two (start stop : Int64) : range [.int start, .int stop] =
    range [.int start, .int stop, .int (if start ≤ stop then 1 else -1)] := by
  have chosen : range [.int start, .int stop] =
      rangeStep [.int start, .int stop] start stop (rangeOf start stop) := rfl
  rw [chosen, range_three]
  rfl

theorem range_one (stop : Int64) : range [.int stop] = range [.int 0, .int stop] := by
  have chosen : range [.int stop] = rangeStep [.int stop] 0 stop (rangeOf 0 stop) := rfl
  rw [chosen]
  rfl

theorem expectInt_refuses {function : String} {x y : Value} {others : List Value}
    {next : Int64 → HostAction} (first : (y :: others).find? (·.int?.isNone) = some x)
    (later : others.find? (·.int?.isNone) = some x → ∀ n,
      next n = HostAction.refuse (.wrongKind function "Int" x.kind)) :
    expectInt function y next = HostAction.refuse (.wrongKind function "Int" x.kind) := by
  cases y with
  | int n => exact later first n
  | _ =>
    obtain rfl := Option.some.inj first
    rfl

theorem range_of_not_int {arguments : List Value} {x : Value} (given : arguments.length ≤ 3)
    (first : arguments.find? (·.int?.isNone) = some x) :
    range arguments = HostAction.refuse (.wrongKind "range" "Int" x.kind) := by
  rcases arguments with _ | ⟨a, _ | ⟨b, _ | ⟨c, _ | ⟨d, rest⟩⟩⟩⟩
  · cases first
  · exact expectInt_refuses first nofun
  · exact expectInt_refuses first fun first _ => expectInt_refuses first nofun
  · exact expectInt_refuses first fun first _ => expectInt_refuses first fun first _ =>
      expectInt_refuses first nofun
  · simp only [List.length_cons] at given
    omega

/-- `range` gives exactly the integers `start + k * step` that lie before `stop`, in this order: the
walk by checked additions comes to an end, and it leaves none of them out. Without a step the
integers run toward `stop` one by one, without a start from zero on. A step of zero is refused, and
so is the first argument that is no integer. -/
theorem range_progression (start stop : Int64) :
    (∀ step : Int64, step ≠ 0 →
      range [.int start, .int stop, .int step] =
        HostAction.ok (.array ((walk stop step #[] start).toList.map .int)) ∧
      IsProgression start.toInt stop.toInt step.toInt (walk stop step #[] start).toList) ∧
    range [.int start, .int stop] =
      range [.int start, .int stop, .int (if start ≤ stop then 1 else -1)] ∧
    range [.int stop] = range [.int 0, .int stop] ∧
    range [.int start, .int stop, .int 0] = HostAction.refuse .zeroStep ∧
    ∀ arguments x, arguments.length ≤ 3 → arguments.find? (·.int?.isNone) = some x →
      range arguments = HostAction.refuse (.wrongKind "range" "Int" x.kind) := by
  refine ⟨fun step moves => ⟨?_, isProgression_walk moves⟩, range_two start stop, range_one stop,
    ?_, fun _ _ => range_of_not_int⟩
  · rw [range_three, rangeOf, if_neg moves]
  · rw [range_three, rangeOf, if_pos rfl]

/-- The addition behind the last point leaves 64 bits. -/
theorem range_progression_at_the_edge :
    (2 : Int64) ≠ 0 ∧ int64? (9223372036854775806 + 2) = none ∧
    range [.int 9223372036854775804, .int 9223372036854775807, .int 2] =
      HostAction.ok (.array [.int 9223372036854775804, .int 9223372036854775806]) ∧
    IsProgression 9223372036854775804 9223372036854775807 2
      [9223372036854775804, 9223372036854775806] ∧
    range [.int 1, .null] = HostAction.refuse (.wrongKind "range" "Int" .null) := by
  have moves : (2 : Int64) ≠ 0 := by decide
  have points : (walk 9223372036854775807 2 #[] 9223372036854775804).toList =
      [9223372036854775804, 9223372036854775806] :=
    List.map_injective_iff.mpr (fun _ _ => Int64.toInt_inj.mp) (map_walk moves #[] _)
  have result := (range_progression 9223372036854775804 9223372036854775807).1 2 moves
  rw [points] at result
  have refused := (range_progression 0 0).2.2.2.2 [.int 1, .null] .null (by decide) rfl
  exact ⟨moves, by decide, result.1, result.2, refused⟩

end Standard

end Script
