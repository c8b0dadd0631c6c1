import Script.Interpreter.Creation
import Script.Proofs.Keeping
import Script.Proofs.Plain

namespace Script

theorem FunctionTable.mem_or_of_foldl_addBuiltin {bs : List Builtin} {t : FunctionTable}
    {name : String} {b : Builtin}
    (h : (bs.foldl addBuiltin t).builtins.get? name = some b) :
    b ∈ bs ∧ b.name = name ∨ t.builtins.get? name = some b := by
  induction bs generalizing t with
  | nil => exact .inr h
  | cons c bs ih =>
    rcases ih h with ⟨hb, hn⟩ | hb
    · exact .inl ⟨List.mem_cons_of_mem c hb, hn⟩
    · rcases Dictionary.get?_of_insert hb with ⟨hn, rfl⟩ | ⟨-, hb⟩
      · exact .inl ⟨by simp, hn⟩
      · exact .inr hb

namespace Interpreter

variable {m : Interpreter} {P Q : Builtin → Prop}

/-- Whether all builtins of an interpreter are of one kind. -/
def OffersOnly (P : Builtin → Prop) (m : Interpreter) : Prop :=
  ∀ name b, m.functions.builtins.get? name = some b → P b

theorem OffersOnly.imp (h : m.OffersOnly P) (hpq : ∀ b, P b → Q b) : m.OffersOnly Q :=
  fun name b hb => hpq b (h name b hb)

theorem OffersOnly.of_eq (h : m.OffersOnly P) {m' : Interpreter}
    (functions : m'.functions = m.functions) : m'.OffersOnly P := by
  intro name b hb
  exact h name b (functions ▸ hb)

theorem OffersOnly.of_resolve (h : m.OffersOnly P) {name : String} {b : Builtin}
    (hr : m.functions.resolve name = some (.builtin b)) : P b :=
  h name b (FunctionTable.builtins_of_resolve hr)

theorem OffersOnly.apply (h : m.OffersOnly P) {c : Change} (hc : ∀ b, c ≠ .addBuiltin b) :
    (c.apply m).OffersOnly P := by
  cases c with
  | addBuiltin b => exact absurd rfl (hc b)
  | _ => exact h

theorem OffersOnly.addBuiltin (h : m.OffersOnly P) {b : Builtin} (hb : P b) :
    ((Change.addBuiltin b).apply m).OffersOnly P := by
  intro name other ho
  rcases Dictionary.get?_of_insert ho with ⟨-, rfl⟩ | ⟨-, ho⟩
  · exact hb
  · exact h name other ho

@[simp]
theorem trace_apply (c : Change) : (c.apply m).calls.trace = m.calls.trace := by
  cases c <;> rfl

/-- Whether each builtin of an interpreter is the standard one of that name. -/
def OffersStandard (m : Interpreter) : Prop :=
  ∀ name b, m.functions.builtins.get? name = some b → b ∈ Standard.builtins ∧ b.name = name

theorem OffersStandard.offersOnly (h : m.OffersStandard) :
    m.OffersOnly (· ∈ Standard.builtins) :=
  fun name b hb => (h name b hb).1

theorem OffersStandard.of_eq (h : m.OffersStandard) {m' : Interpreter}
    (functions : m'.functions = m.functions) : m'.OffersStandard := by
  intro name b hb
  exact h name b (functions ▸ hb)

theorem OffersStandard.apply (h : m.OffersStandard) {c : Change} (hc : ∀ b, c ≠ .addBuiltin b) :
    (c.apply m).OffersStandard := by
  cases c with
  | addBuiltin b => exact absurd rfl (hc b)
  | _ => exact h

theorem OffersStandard.modest_of_resolve (h : m.OffersStandard) {name : String} {b : Builtin}
    (hr : m.functions.resolve name = some (.builtin b)) {values : List Value}
    (hv : b.arity.unmet? values.length = none) :
    (b.call values).Modest (name = "get_recursion_limit") (name = "set_recursion_limit") := by
  obtain ⟨hb, rfl⟩ := h name b (FunctionTable.builtins_of_resolve hr)
  exact Standard.modest_of_mem hb hv

theorem offersStandard_bare (settings : Settings) (source : ModuleSource) (world : World) :
    (bare settings source world).OffersStandard := by
  intro name b h
  refine (FunctionTable.mem_or_of_foldl_addBuiltin h).resolve_right fun he => ?_
  cases he

theorem offersOnly_bare (settings : Settings) (source : ModuleSource) (world : World) :
    (bare settings source world).OffersOnly (· ∈ Standard.builtins) :=
  (offersStandard_bare settings source world).offersOnly

/-- A new interpreter that finds no modules and has nothing to read. -/
def fresh : Interpreter := bare .default (.table []) ⟨.ofInput [], []⟩

theorem offersOnly_fresh : fresh.OffersOnly (· ∈ Standard.builtins) := offersOnly_bare _ _ _

end Interpreter

/-- Whether a change leaves the builtins and the module source as they are. -/
def Change.KeepsHost : Change → Prop
  | addBuiltin _ | setSource _ => False
  | _ => True

theorem Change.KeepsHost.ne_addBuiltin {c : Change} (h : c.KeepsHost) (b : Builtin) :
    c ≠ .addBuiltin b := by
  rintro rfl
  exact h

@[simp]
theorem Interpreter.source_apply {m : Interpreter} {c : Change} (h : c.KeepsHost) :
    (c.apply m).source = m.source := by
  cases c with
  | setSource source => exact h.elim
  | _ => rfl

theorem Change.IsOwn.keepsHost {c : Change} (h : c.IsOwn) : c.KeepsHost := by
  cases c <;> trivial

def Change.IsPlain : Change → Prop
  | setLimit _ | print _ => True
  | _ => False

theorem Change.IsPlain.keepsHost {c : Change} (h : c.IsPlain) : c.KeepsHost := by
  cases c <;> trivial

namespace Contract

variable {C : Contract} {i : C.Ghost} {m : Interpreter} {h : History}

theorem step_of_plain {action : HostAction} (plain : action.Plain) (inv : C.Inv i m h)
    (acts : ∀ {action m}, action.Plain → C.Acts i i action m)
    (changed : ∀ {c : Change}, c.IsPlain → C.Inv i (c.apply m) (h ++ [.changed c]))
    (read : ∀ console, C.Inv i (m.withConsole console) h)
    (refused : ∀ error, C.HostFail i (.unplaced (.builtin error)) m h) :
    C.Step i i m h action := by
  cases plain with
  | ok value => exact inv
  | refuse error => exact refused error
  | observe hn => exact acts (hn m.view)
  | setLimit limit hn => exact ⟨i, changed (c := .setLimit limit) trivial, acts hn⟩
  | print text hn => exact ⟨i, changed (c := .print text) trivial, acts hn⟩
  | readLine hn => exact fun line console _ hl => ⟨i, read console, acts (hn line hl)⟩

end Contract

end Script
