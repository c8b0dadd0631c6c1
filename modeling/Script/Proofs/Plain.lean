import Mathlib.Data.List.Basic
import Script.Standard

namespace Script

/-- A host function that leaves variables, functions and modules alone, and fails with nothing but
errors of its own whose place is open. -/
inductive HostAction.Plain : HostAction → Prop where
  | ok (value : Value) : Plain (.ok value)
  | refuse (error : BuiltinError) : Plain (.refuse error)
  | observe {next : View → HostAction} (hn : ∀ view, Plain (next view)) : Plain (.observe next)
  | setLimit (limit : Nat) {next : HostAction} (hn : Plain next) : Plain (.setLimit limit next)
  | print (text : String) {next : HostAction} (hn : Plain next) : Plain (.print text next)
  | readLine {next : InputLine → HostAction} (hn : ∀ line, line ≠ .unread → Plain (next line)) :
    Plain (.readLine next)

/-- A plain host function that sees nothing of an interpreter but its calls, and the recursion limit
only if it `reads` it, and that changes the limit only if it `sets` it. -/
inductive HostAction.Modest (reads sets : Prop) : HostAction → Prop where
  | ok (value : Value) : Modest reads sets (.ok value)
  | refuse (error : BuiltinError) : Modest reads sets (.refuse error)
  | observe {next : CallStack → HostAction}
    (same : reads ∨ ∀ calls limit, next { calls with limit := limit } = next calls)
    (hn : ∀ calls, Modest reads sets (next calls)) :
    Modest reads sets (.observe fun view => next view.calls)
  | setLimit (allowed : sets) (limit : Nat) {next : HostAction} (hn : Modest reads sets next) :
    Modest reads sets (.setLimit limit next)
  | print (text : String) {next : HostAction} (hn : Modest reads sets next) :
    Modest reads sets (.print text next)
  | readLine {next : InputLine → HostAction}
    (hn : ∀ line, line ≠ .unread → Modest reads sets (next line)) :
    Modest reads sets (.readLine next)

@[simp]
theorem Arity.unmet?_exactly_eq_none {count given : Nat} :
    (exactly count).unmet? given = none ↔ given = count := by
  simp [unmet?]

namespace HostAction

theorem Modest.plain {reads sets : Prop} {action : HostAction} (h : action.Modest reads sets) :
    action.Plain := by
  induction h with
  | ok value => exact .ok value
  | refuse error => exact .refuse error
  | observe same hn ih => exact .observe fun view => ih view.calls
  | setLimit allowed limit hn ih => exact .setLimit limit ih
  | print text hn ih => exact .print text ih
  | readLine hn ih => exact .readLine ih

variable {reads sets : Prop}

theorem Modest.imp {reads' sets' : Prop} {action : HostAction} (h : action.Modest reads sets)
    (hr : reads → reads') (hs : sets → sets') : action.Modest reads' sets' := by
  induction h with
  | ok value => exact .ok value
  | refuse error => exact .refuse error
  | observe same hn ih => exact .observe (same.imp_left hr) ih
  | setLimit allowed limit hn ih => exact .setLimit (hs allowed) limit ih
  | print text hn ih => exact .print text ih
  | readLine hn ih => exact .readLine ih

theorem modest_orRefuse (error : BuiltinError) (result : Option Value) :
    (orRefuse error result).Modest reads sets := by
  cases result with
  | some value => exact .ok value
  | none => exact .refuse error

theorem modest_argument {position : Nat} {arguments : List Value} {act : Value → HostAction}
    (given : position < arguments.length) (h : ∀ x, (act x).Modest reads sets) :
    (argument position arguments act).Modest reads sets := by
  rw [argument, List.getElem?_eq_getElem given]
  exact h _

theorem modest_nullary {act : HostAction} (h : act.Modest reads sets) {values : List Value} :
    (nullary act values).Modest reads sets := h

theorem modest_unary {act : Value → HostAction} (h : ∀ x, (act x).Modest reads sets)
    {values : List Value} (hv : values.length = 1) : (unary act values).Modest reads sets :=
  modest_argument (by omega) h

theorem modest_binary {act : Value → Value → HostAction} (h : ∀ x y, (act x y).Modest reads sets)
    {values : List Value} (hv : values.length = 2) : (binary act values).Modest reads sets :=
  modest_argument (by omega) fun x => modest_argument (by omega) (h x)

theorem modest_counted {function : String} {least most : Nat} {arguments : List Value}
    {act : HostAction}
    (h : least ≤ arguments.length → arguments.length ≤ most → act.Modest reads sets) :
    (counted function least most arguments act).Modest reads sets := by
  unfold counted
  split
  · exact .refuse _
  next enough => exact h (by omega) (by omega)

end HostAction

namespace Standard

open HostAction

variable {reads sets : Prop}

theorem modest_expectNumber {function : String} {x : Value} {next : Float → HostAction}
    (hn : ∀ y, (next y).Modest reads sets) : (expectNumber function x next).Modest reads sets := by
  unfold expectNumber
  split
  · exact hn _
  · exact .refuse _

theorem modest_expectInt {function : String} {x : Value} {next : Int64 → HostAction}
    (hn : ∀ n, (next n).Modest reads sets) : (expectInt function x next).Modest reads sets := by
  unfold expectInt
  split
  · exact hn _
  · exact .refuse _

theorem modest_answerLine {line : InputLine} (hl : line ≠ .unread) :
    (answerLine line).Modest reads sets := by
  cases line with
  | line text => exact .ok _
  | endOfInput => exact .ok _
  | invalid => exact .refuse _
  | unread => exact absurd rfl hl

theorem modest_input (values : List Value) : (input values).Modest reads sets := by
  refine modest_counted fun _ _ => ?_
  split
  · exact .print _ (.readLine fun _ => modest_answerLine)
  · exact .readLine fun _ => modest_answerLine

theorem modest_len {values : List Value} : values.length = 1 → (len values).Modest reads sets := by
  refine modest_unary fun x => ?_
  split
  · exact .ok _
  · exact .ok _
  · exact .refuse _

theorem modest_push {values : List Value} :
    values.length = 2 → (push values).Modest reads sets := by
  refine modest_binary fun x y => ?_
  split
  · exact .ok _
  · exact .refuse _

theorem modest_rangeEnds {arguments : List Value} {next : Int64 → Int64 → HostAction}
    (given : 1 ≤ arguments.length) (hn : ∀ start stop, (next start stop).Modest reads sets) :
    (rangeEnds arguments next).Modest reads sets := by
  unfold rangeEnds
  split
  · exact modest_expectInt (hn 0)
  next several =>
    have more : 1 < arguments.length := by
      refine Nat.lt_of_le_of_ne given fun one => ?_
      obtain ⟨stop, rfl⟩ := List.length_eq_one_iff.mp one.symm
      exact several stop rfl
    refine modest_argument (by omega) fun _ => modest_expectInt fun start => ?_
    exact modest_argument more fun _ => modest_expectInt (hn start)

theorem modest_rangeStep {arguments : List Value} {start stop : Int64}
    {next : Int64 → HostAction} (hn : ∀ step, (next step).Modest reads sets) :
    (rangeStep arguments start stop next).Modest reads sets := by
  unfold rangeStep
  split
  · exact modest_expectInt hn
  · exact hn _

theorem modest_rangeOf (start stop step : Int64) : (rangeOf start stop step).Modest reads sets := by
  unfold rangeOf
  split
  · exact .refuse _
  · exact .ok _

theorem modest_range (values : List Value) : (range values).Modest reads sets :=
  modest_counted fun given _ => modest_rangeEnds given fun start stop =>
    modest_rangeStep (modest_rangeOf start stop)

theorem modest_int {values : List Value} : values.length = 1 → (int values).Modest reads sets := by
  refine modest_unary fun x => ?_
  cases x with
  | int n => exact .ok _
  | bool b => exact .ok _
  | float y => exact modest_orRefuse _ _
  | string s => exact modest_orRefuse _ _
  | null => exact .refuse _
  | array vs => exact .refuse _

theorem modest_float {values : List Value} :
    values.length = 1 → (float values).Modest reads sets := by
  refine modest_unary fun x => ?_
  cases x with
  | int n => exact .ok _
  | float y => exact .ok _
  | string s => exact modest_orRefuse _ _
  | null => exact .refuse _
  | bool b => exact .refuse _
  | array vs => exact .refuse _

theorem modest_abs {values : List Value} : values.length = 1 → (abs values).Modest reads sets := by
  refine modest_unary fun x => ?_
  cases x with
  | int n => exact modest_orRefuse _ _
  | _ => exact modest_expectNumber fun _ => .ok _

theorem modest_sqrt {values : List Value} :
    values.length = 1 → (sqrt values).Modest reads sets := by
  refine modest_unary fun x => modest_expectNumber fun y => ?_
  split
  · exact .refuse _
  · exact .ok _

theorem modest_pow {values : List Value} : values.length = 2 → (pow values).Modest reads sets := by
  refine modest_binary fun x y => ?_
  split
  · exact .ok _
  · exact modest_expectNumber fun _ => modest_expectNumber fun _ => .ok _

theorem modest_assert (values : List Value) : (assert values).Modest reads sets := by
  refine modest_counted fun given _ => modest_argument given fun condition => ?_
  split
  · exact .ok _
  · exact .refuse _

theorem modest_setRecursionLimit (allowed : sets) {values : List Value} :
    values.length = 1 → (setRecursionLimit values).Modest reads sets := by
  refine modest_unary fun x => ?_
  split
  · split
    · exact .setLimit allowed _ (.ok _)
    · exact .refuse _
  · exact .refuse _

theorem modest_getRecursionLimit (allowed : reads) (values : List Value) :
    (getRecursionLimit values).Modest reads sets :=
  modest_nullary
    (@Modest.observe _ _ (fun calls => .ok (ofCount calls.limit)) (.inl allowed) fun _ => .ok _)

theorem modest_callDepth (values : List Value) : (callDepth values).Modest reads sets :=
  modest_nullary
    (@Modest.observe _ _ (fun calls => .ok (ofCount calls.depth)) (.inr fun _ _ => rfl)
      fun _ => .ok _)

theorem modest_stackTrace (values : List Value) : (stackTrace values).Modest reads sets :=
  modest_nullary
    (@Modest.observe _ _ (fun calls => .ok (.array (calls.trace.map fun f => .string f.text)))
      (.inr fun _ _ => rfl) fun _ => .ok _)

/-- Called with as many arguments as they take, the standard builtins are modest, and the recursion
limit is the business of two of them only. -/
theorem modest_of_mem {b : Builtin} (hb : b ∈ builtins) {values : List Value}
    (hv : b.arity.unmet? values.length = none) :
    (b.call values).Modest (b.name = "get_recursion_limit") (b.name = "set_recursion_limit") := by
  simp only [builtins, List.mem_cons, List.not_mem_nil, or_false] at hb
  rcases hb with rfl | rfl | rfl | rfl | rfl | rfl | rfl | rfl | rfl | rfl | rfl | rfl | rfl |
    rfl | rfl | rfl | rfl | rfl | rfl
  all_goals simp only [Arity.unmet?_exactly_eq_none] at hv
  · exact .print _ (.ok _)
  · exact .print _ (.ok _)
  · exact modest_input values
  · exact modest_len hv
  · exact modest_push hv
  · exact modest_range values
  · exact modest_unary (fun _ => .ok _) hv
  · exact modest_int hv
  · exact modest_float hv
  · exact modest_unary (fun _ => .ok _) hv
  · exact modest_abs hv
  · exact modest_sqrt hv
  · exact modest_pow hv
  · exact modest_assert values
  · exact modest_unary (fun _ => .refuse _) hv
  · exact modest_setRecursionLimit rfl hv
  · exact modest_getRecursionLimit rfl values
  · exact modest_callDepth values
  · exact modest_stackTrace values

theorem plain_of_mem {b : Builtin} (hb : b ∈ builtins) {values : List Value}
    (hv : b.arity.unmet? values.length = none) : (b.call values).Plain :=
  (modest_of_mem hb hv).plain

end Standard

end Script
