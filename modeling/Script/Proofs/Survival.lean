import Mathlib.Data.List.Induction
import Mathlib.Data.List.Infix
import Script.Proofs.Scoping
import Script.Proofs.Unmentioned

namespace Script

namespace Environment

/-- What can be done to the scopes of an environment, or asked of them. -/
inductive Step where
  | push
  | pop
  | set (name : String) (value : Value)
  | setGlobal (name : String) (value : Value)
  /-- Overwrites the nearest binding, if there is one. -/
  | assign (name : String) (value : Value)
  | get (name : String)
  | has (name : String)

namespace Step

def apply (e : Environment) : Step → Environment
  | push => e.push
  | pop => e.pop
  | set name value => e.set name value
  | setGlobal name value => e.setGlobal name value
  | assign name value => (e.assign? name value).getD e
  | get _ | has _ => e

def isPush : Step → Bool
  | push => true
  | _ => false

def isPop : Step → Bool
  | pop => true
  | _ => false

end Step

/-- The environment after steps, one after the other. -/
def after (e : Environment) (steps : List Step) : Environment := steps.foldl Step.apply e

/-- Whether one of the scopes above the first so many binds a name. -/
def bindsAbove (e : Environment) (depth : Nat) (x : String) : Bool :=
  ((e.bindings x).drop depth).any Option.isSome

/-- Whether a step writes to what the last of the first so many scopes binds a name to. -/
def Step.writes (e : Environment) (depth : Nat) (x : String) : Step → Bool
  | set name _ => name = x ∧ e.depth = depth
  | setGlobal name _ => name = x ∧ depth = 1
  | assign name _ => name = x ∧ !e.bindsAbove depth x
  | push | pop | get _ | has _ => false

/-- Whether no beginning of the steps leaves more scopes than it has opened. -/
def Level (steps : List Step) : Prop :=
  ∀ before, before <+: steps → before.countP Step.isPop ≤ before.countP Step.isPush

theorem Level.of_earlier {steps before : List Step} (level : Level steps) (hb : before <+: steps) :
    Level before := fun front hf => level front (hf.trans hb)

theorem Level.room {before : List Step} {step : Step} (level : Level (before ++ [step]))
    (pops : step.isPop) : before.countP Step.isPop < before.countP Step.isPush := by
  have now := level _ List.prefix_rfl
  cases step with
  | pop =>
    have pop : [Step.pop].countP Step.isPop = 1 := rfl
    have push : [Step.pop].countP Step.isPush = 0 := rfl
    rw [List.countP_append, List.countP_append, pop, push] at now
    omega
  | _ => cases pops

variable {e updated : Environment} {x name : String} {value : Value} {depth : Nat}

@[simp]
theorem after_concat (e : Environment) (steps : List Step) (step : Step) :
    e.after (steps ++ [step]) = step.apply (e.after steps) := by
  simp [after]

@[simp]
theorem length_bindings (e : Environment) (x : String) : (e.bindings x).length = e.depth := by
  simp [bindings, scopes, Environment.depth]

theorem one_le_depth (e : Environment) : 1 ≤ e.depth := by
  simp [Environment.depth]

theorem not_isGlobal_of_depth (h : 1 < e.depth) : ¬e.isGlobal := by
  intro outermost
  have shallow : e.depth = 1 := by simpa [Environment.depth, isGlobal] using outermost
  omega

theorem bindings_push (e : Environment) (x : String) :
    e.push.bindings x = e.bindings x ++ [none] := by
  simp [bindings_eq, push, Dictionary.get?]

theorem bindings_pop_of_not_isGlobal (inner : ¬e.isGlobal) (x : String) :
    e.pop.bindings x = (e.bindings x).dropLast := by
  rcases e with ⟨globals, _ | ⟨scope, outer⟩⟩
  · exact absurd rfl inner
  · simp only [bindings_eq, pop, List.map_cons, List.reverse_cons, List.tail_cons]
    rw [← List.cons_append, List.dropLast_concat]

/-- Whether bindings differ from others in one place, which is now bound to a value. -/
structure Replaces (value : Value) (old new below above : List (Option Value)) : Prop where
  old : ∃ binding, old = below ++ binding :: above
  new : new = below ++ some value :: above

theorem Replaces.getElem?_of_ne {old new below above : List (Option Value)}
    (h : Replaces value old new below above) {i : Nat} (hi : i ≠ below.length) :
    new[i]? = old[i]? := by
  obtain ⟨⟨binding, rfl⟩, rfl⟩ := h
  rcases Nat.lt_or_gt_of_ne hi with low | high
  · rw [List.getElem?_append_left low, List.getElem?_append_left low]
  · obtain ⟨k, rfl⟩ : ∃ k, i = below.length + (k + 1) := ⟨i - below.length - 1, by omega⟩
    simp only [List.getElem?_append_right (Nat.le_add_right _ _), Nat.add_sub_cancel_left,
      List.getElem?_cons_succ]

theorem replaces_set (e : Environment) (x : String) (value : Value) :
    ∃ below, Replaces value (e.bindings x) ((e.set x value).bindings x) below [] := by
  rcases e with ⟨globals, _ | ⟨scope, outer⟩⟩
  · refine ⟨[], ⟨globals.get? x, ?_⟩, ?_⟩ <;>
      simp [bindings_eq, set, Dictionary.get?_insert]
  · refine ⟨globals.get? x :: (outer.map (·.get? x)).reverse, ⟨scope.get? x, ?_⟩, ?_⟩ <;>
      simp [bindings_eq, set, Dictionary.get?_insert]

theorem replaces_setGlobal (e : Environment) (x : String) (value : Value) :
    ∃ above, Replaces value (e.bindings x) ((e.setGlobal x value).bindings x) [] above := by
  refine ⟨(e.locals.map (·.get? x)).reverse, ⟨e.globals.get? x, ?_⟩, ?_⟩ <;>
    simp [bindings_eq, setGlobal, Dictionary.get?_insert]

theorem find?_eq_findSome? (scopes : List Scope) (x : String) :
    find? scopes x = (scopes.map (·.get? x)).findSome? id := by
  induction scopes with
  | nil => rfl
  | cons scope outer ih => cases hs : scope.get? x <;> simp [find?, hs, ih]

theorem get?_eq_findSome? (e : Environment) (x : String) :
    e.get? x = (e.bindings x).reverse.findSome? id := by
  rw [bindings_eq, List.reverse_cons, List.reverse_reverse, List.findSome?_append,
    ← find?_eq_findSome?, get?]
  cases find? e.locals x <;> simp

theorem replaces_overwrite? {scopes updated : List Scope}
    (h : overwrite? scopes x value = some updated) :
    ∃ above below, Replaces value (scopes.map (·.get? x)) (updated.map (·.get? x)) above below ∧
      ∀ binding ∈ above, binding = none := by
  induction scopes generalizing updated with
  | nil => simp [overwrite?] at h
  | cons scope outer ih =>
    unfold overwrite? at h
    split at h
    · obtain rfl := Option.some.inj h
      refine ⟨[], outer.map (·.get? x), ⟨⟨scope.get? x, rfl⟩, ?_⟩, by simp⟩
      simp [Dictionary.get?_insert]
    next unbound =>
      obtain ⟨rest, hr, rfl⟩ := Option.map_eq_some_iff.mp h
      obtain ⟨above, below, ⟨⟨binding, old⟩, new⟩, free⟩ := ih hr
      have unbound : scope.get? x = none := by simpa [Dictionary.has] using unbound
      refine ⟨none :: above, below, ⟨⟨binding, ?_⟩, ?_⟩, by simpa using free⟩
      · simp [old, unbound]
      · simp [new, unbound]

theorem replaces_assign? (h : e.assign? x value = some updated) :
    ∃ below above, Replaces value (e.bindings x) (updated.bindings x) below above ∧
      ∀ binding ∈ above, binding = none := by
  unfold assign? at h
  split at h
  next locals hl =>
    obtain rfl := Option.some.inj h
    obtain ⟨above, below, ⟨⟨binding, old⟩, new⟩, free⟩ := replaces_overwrite? hl
    refine ⟨e.globals.get? x :: below.reverse, above.reverse, ⟨⟨binding, ?_⟩, ?_⟩,
      by simpa using free⟩
    · simp [bindings_eq, old]
    · simp [bindings_eq, new]
  next hl =>
    split at h
    · obtain rfl := Option.some.inj h
      obtain ⟨above, replaced⟩ := replaces_setGlobal e x value
      refine ⟨[], above, replaced, ?_⟩
      have unbound : find? e.locals x = none := by
        have same := isSome_overwrite? e.locals x value
        simpa [hl] using same.symm
      obtain ⟨⟨binding, old⟩, -⟩ := replaced
      have locals : above = (e.locals.map (·.get? x)).reverse := by
        simpa [bindings_eq, eq_comm] using congrArg List.tail old
      rw [find?_eq_findSome?, List.findSome?_eq_none_iff] at unbound
      simpa [locals] using unbound
    · cases h

theorem get?_of_bindings {below above : List (Option Value)} {v : Value}
    (h : e.bindings x = below ++ some v :: above) (free : ∀ binding ∈ above, binding = none) :
    e.get? x = some v := by
  have none_above : above.reverse.findSome? id = none := by
    rw [List.findSome?_eq_none_iff]
    exact fun binding hb => free binding (List.mem_reverse.mp hb)
  rw [get?_eq_findSome?, h, List.reverse_append, List.findSome?_append, List.reverse_cons,
    List.findSome?_append, none_above]
  rfl

theorem get?_of_not_bindsAbove {v : Value} (positive : 1 ≤ depth)
    (bound : (e.bindings x)[depth - 1]? = some (some v)) (free : e.bindsAbove depth x = false) :
    e.get? x = some v := by
  obtain ⟨inside, here⟩ := List.getElem?_eq_some_iff.mp bound
  have split := List.take_append_drop (depth - 1) (e.bindings x)
  rw [List.drop_eq_getElem_cons inside, here, Nat.sub_add_cancel positive] at split
  refine get?_of_bindings split.symm fun binding hb => ?_
  simp only [bindsAbove, List.any_eq_false] at free
  simpa using free binding hb

theorem Step.keeps {step : Step} {v : Value} (positive : 1 ≤ depth)
    (bound : (e.bindings x)[depth - 1]? = some (some v)) (spared : step.writes e depth x = false)
    (stays : step.isPop → depth < e.depth) :
    ((step.apply e).bindings x)[depth - 1]? = some (some v) := by
  have inside : depth - 1 < e.depth := by
    have := (List.getElem?_eq_some_iff.mp bound).1
    simpa using this
  cases step with
  | push =>
    rw [apply, bindings_push, List.getElem?_append_left (by simpa using inside)]
    exact bound
  | pop =>
    have deeper := stays rfl
    have inner : ¬e.isGlobal := not_isGlobal_of_depth (by omega)
    have still : depth - 1 < (e.bindings x).length - 1 := by
      rw [length_bindings]
      omega
    rw [apply, bindings_pop_of_not_isGlobal inner, List.getElem?_dropLast, if_pos still]
    exact bound
  | set name value =>
    by_cases hn : name = x
    · subst hn
      obtain ⟨below, replaced⟩ := replaces_set e name value
      have length : e.depth = below.length + 1 := by
        obtain ⟨⟨binding, old⟩, -⟩ := replaced
        rw [← length_bindings e name, old]
        simp
      have other : e.depth ≠ depth := by simpa [writes] using spared
      rw [apply, replaced.getElem?_of_ne (by omega)]
      exact bound
    · rw [apply, bindings_set e hn]
      exact bound
  | setGlobal name value =>
    by_cases hn : name = x
    · subst hn
      obtain ⟨above, replaced⟩ := replaces_setGlobal e name value
      have other : depth ≠ 1 := by simpa [writes] using spared
      rw [apply, replaced.getElem?_of_ne (by simp only [List.length_nil]; omega)]
      exact bound
    · rw [apply, bindings_setGlobal e hn]
      exact bound
  | assign name value =>
    cases ha : e.assign? name value with
    | none => simpa [apply, ha] using bound
    | some updated =>
      simp only [apply, ha, Option.getD_some]
      by_cases hn : name = x
      · subst hn
        obtain ⟨below, above, replaced, free⟩ := replaces_assign? ha
        have shadowed : e.bindsAbove depth name = true := by simpa [writes] using spared
        have high : depth ≤ below.length := by
          by_contra low
          obtain ⟨⟨binding, old⟩, -⟩ := replaced
          obtain ⟨k, hk⟩ : ∃ k, depth = below.length + (k + 1) :=
            ⟨depth - below.length - 1, by omega⟩
          rw [bindsAbove, old, hk, List.drop_append, List.drop_eq_nil_of_le (by omega),
            Nat.add_sub_cancel_left, List.drop_succ_cons, List.nil_append, List.any_eq_true]
            at shadowed
          obtain ⟨found, hf, some_found⟩ := shadowed
          rw [free found (List.mem_of_mem_drop hf)] at some_found
          cases some_found
        rw [replaced.getElem?_of_ne (by omega)]
        exact bound
      · rw [bindings_of_assign? hn ha]
        exact bound
  | get | has => exact bound

theorem Step.depth_apply {step : Step} (stays : step.isPop → 1 < e.depth) :
    (step.apply e).depth + [step].countP isPop = e.depth + [step].countP isPush := by
  cases step with
  | pop => exact depth_pop (not_isGlobal_of_depth (stays rfl))
  | assign name value =>
    cases ha : e.assign? name value with
    | none => simp [apply, ha, isPop, isPush]
    | some updated => simp [apply, ha, isPop, isPush, depth_of_assign? ha]
  | _ => simp [apply, isPop, isPush]

theorem depth_after {steps : List Step} (level : Level steps) (e : Environment) :
    (e.after steps).depth + steps.countP Step.isPop = e.depth + steps.countP Step.isPush := by
  induction steps using List.reverseRecOn with
  | nil => rfl
  | append_singleton before step ih =>
    have count := ih (level.of_earlier (List.prefix_append _ _))
    have least := one_le_depth e
    have depth_step : (step.apply (e.after before)).depth + [step].countP Step.isPop =
        (e.after before).depth + [step].countP Step.isPush := by
      refine step.depth_apply fun pops => ?_
      have room := level.room pops
      omega
    simp only [after_concat, List.countP_append]
    omega

/-- Steps that go no lower than they began, and do not write to a binding in the innermost scope
where they began, leave it as it is. -/
theorem bindings_after {steps : List Step} {v : Value} (level : Level steps)
    (bound : (e.bindings x)[e.depth - 1]? = some (some v))
    (spared : ∀ before step rest, steps = before ++ step :: rest →
      step.writes (e.after before) e.depth x = false) :
    ((e.after steps).bindings x)[e.depth - 1]? = some (some v) := by
  induction steps using List.reverseRecOn with
  | nil => exact bound
  | append_singleton before step ih =>
    have earlier := level.of_earlier (List.prefix_append before [step])
    have kept := ih earlier fun front other rest hs =>
      spared front other (rest ++ [step]) (by simp [hs])
    rw [after_concat]
    refine step.keeps (one_le_depth e) kept (spared before step [] rfl) fun pops => ?_
    have count := depth_after earlier e
    have room := level.room pops
    omega

theorem globals_after (e : Environment) (steps : List Step) :
    e.globals.keys <+: (e.after steps).globals.keys := by
  induction steps using List.reverseRecOn with
  | nil => exact List.prefix_rfl
  | append_singleton before step ih =>
    refine ih.trans ?_
    rw [after_concat]
    cases step with
    | set name value => exact (extends_set _ name value).globals
    | setGlobal name value => exact (retains_setGlobal _ name value).globals
    | assign name value =>
      cases ha : (e.after before).assign? name value with
      | none => simp [Step.apply, ha]
      | some updated => simpa [Step.apply, ha] using (retains_assign? ha).globals
    | _ => exact List.prefix_rfl

/-- What a name was set to in the innermost scope, that scope binds it to until something is written
there or the scope is left, whatever is done in scopes above it; and that is what the name stands
for wherever no scope above binds it. No steps, not even those that leave more scopes than there
are, take the global scope away. -/
theorem binding_survives :
    (∀ (e : Environment) (x : String) (v : Value) (steps : List Step), Level steps →
      let start := e.set x v
      (∀ before step rest, steps = before ++ step :: rest →
        step.writes (start.after before) e.depth x = false) →
      (∀ before, before <+: steps →
        let now := start.after before
        e.depth ≤ now.depth ∧ (now.bindings x)[e.depth - 1]? = some (some v) ∧
          (now.bindsAbove e.depth x = false → now.get? x = some v)) ∧
      (steps.countP Step.isPop = steps.countP Step.isPush →
        (start.after steps).depth = e.depth ∧ (start.after steps).get? x = some v)) ∧
    ∀ (e : Environment) (steps : List Step),
      (e.after steps).scopes ≠ [] ∧ e.globals.keys <+: (e.after steps).globals.keys := by
  refine ⟨?_, fun e steps => ⟨by simp [scopes], globals_after e steps⟩⟩
  intro e x v steps level start spared
  have same : start.depth = e.depth := depth_set e x v
  have bound : (start.bindings x)[start.depth - 1]? = some (some v) := by
    obtain ⟨below, -, new⟩ := replaces_set e x v
    have length : start.depth = below.length + 1 := by
      rw [← length_bindings start x, new]
      simp
    rw [new, length, Nat.add_sub_cancel, List.getElem?_append_right (Nat.le_refl _), Nat.sub_self]
    rfl
  have throughout (before : List Step) (hb : before <+: steps) :
      ((start.after before).bindings x)[e.depth - 1]? = some (some v) := by
    obtain ⟨rest, hr⟩ := hb
    rw [← same]
    refine bindings_after (level.of_earlier ⟨rest, hr⟩) bound fun front step others hs => ?_
    rw [same]
    exact spared front step (others ++ rest) (by simp [← hr, hs])
  have depths (before : List Step) (hb : before <+: steps) :
      (start.after before).depth + before.countP Step.isPop =
        e.depth + before.countP Step.isPush := by
    rw [← same]
    exact depth_after (level.of_earlier hb) start
  refine ⟨fun before hb => ⟨?_, throughout before hb, ?_⟩, fun closed => ?_⟩
  · have count := depths before hb
    have stays := level before hb
    omega
  · exact get?_of_not_bindsAbove (one_le_depth e) (throughout before hb)
  · have count := depths steps List.prefix_rfl
    have depth : (start.after steps).depth = e.depth := by omega
    refine ⟨depth, get?_of_not_bindsAbove (one_le_depth e) (throughout steps List.prefix_rfl) ?_⟩
    have none_above : ((start.after steps).bindings x).drop e.depth = [] := by
      rw [List.drop_eq_nil_iff, length_bindings]
      omega
    rw [bindsAbove, none_above]
    rfl

/-- Two scopes, each with a variable. -/
def nested : Environment := ⟨[("x", .int 1)], [[("y", .int 2)]]⟩

/-- Steps that shadow a variable, overwrite the shadow and the global variable behind, leave all
that they have entered, and write to another variable. -/
def shadowing : List Step := [
  .push, .set "x" (.int 4), .push, .assign "x" (.int 5), .setGlobal "x" (.int 6), .pop, .pop,
  .assign "y" (.int 7), .get "x"]

theorem binding_survives_shadowing :
    (nested.set "x" (.int 3) |>.after shadowing).get? "x" = some (.int 3) ∧
      ((nested.set "x" (.int 3) |>.after (shadowing.take 4)).bindings "x")[1]? =
        some (some (.int 3)) ∧
      (nested.after (shadowing ++ [.pop, .pop, .pop])).scopes ≠ [] := by
  have level : Level shadowing := by
    have counts : ∀ before ∈ shadowing.inits,
        before.countP Step.isPop ≤ before.countP Step.isPush := by decide
    exact fun before hb => counts before ((List.mem_inits _ _).mpr hb)
  have spared (before : List Step) (step : Step) (rest : List Step)
      (hs : shadowing = before ++ step :: rest) :
      step.writes ((nested.set "x" (.int 3)).after before) 2 "x" = false := by
    have each : ∀ i : Fin shadowing.length,
        (shadowing[i]).writes ((nested.set "x" (.int 3)).after (shadowing.take i)) 2 "x" =
          false := by decide +kernel
    have here := each ⟨before.length, by simp [hs]⟩
    simpa [hs] using here
  obtain ⟨throughout, closed⟩ :=
    binding_survives.1 nested "x" (.int 3) shadowing level spared
  have underway := throughout _ ⟨_, shadowing.take_append_drop 4⟩
  exact ⟨(closed (by decide)).2, underway.2.1, (binding_survives.2 nested _).1⟩

end Environment

end Script
