import Mathlib.Tactic
import SmallLisp.Proofs.Eval.Depth
import SmallLisp.Proofs.Eval.Protect

/-!
# Evaluation within a room

How jobs end that have a given room, whatever the number of passes that they take. The parts of a
form that are evaluated in nested activations have to end within a smaller room; what is in tail
position has the room of the form.
-/

namespace SmallLisp.Eval

open Filter Template

variable {room : Nat} {job job' : Job} {s s' s₁ : Store} {r : Result Value} {scope : ScopeId}

/-- Doing a job within a room ends with an outcome, however many passes that takes. -/
def EndsWithin (room : Nat) (job : Job) (s : Store) (r : Result Value) : Prop :=
  Ended r ∧ ∃ passes, run passes room job s = r

theorem EndsWithin.endsWith (h : EndsWithin room job s r) : EndsWith job s r :=
  ⟨h.1, h.2.imp fun _ hrun => ⟨room, hrun⟩⟩

theorem EndsWithin.eventually (h : EndsWithin room job s r) :
    ∀ᶠ passes in atTop, run passes room job s = r := by
  obtain ⟨hended, passes, rfl⟩ := h
  exact eventually_atTop.2 ⟨passes, fun passes' hpasses =>
    approximates_run (c := .both) id hpasses room job s hended⟩

theorem EndsWithin.eventually_nested (h : EndsWithin room job s r) :
    ∀ᶠ passes in atTop, nestedRun passes (room + 1) job s = r := h.eventually

/-- A job ends as the job does that a pass hands back. -/
theorem endsWithin_of_next (hpass : ∀ᶠ passes in atTop,
      pass (nestedRun passes room) passes job s = .ok (.next job') s₁)
    (h : EndsWithin room job' s₁ r) : EndsWithin room job s r := by
  obtain ⟨passes, hpass, hrun⟩ := (hpass.and h.eventually).exists
  refine ⟨h.1, passes + 1, ?_⟩
  rw [run_succ]
  exact (bind_of_ok hpass).trans hrun

theorem endsWithin_of_done {v : Value} (hpass : ∀ᶠ passes in atTop,
    pass (nestedRun passes room) passes job s = .ok (.done v) s') :
    EndsWithin room job s (.ok v s') := by
  obtain ⟨passes, hpass⟩ := hpass.exists
  refine ⟨trivial, passes + 1, ?_⟩
  rw [run_succ]
  exact bind_of_ok hpass

theorem endsWithin_of_error {stop : Stop} (hended : Ended (.error stop s' : Result Value))
    (hpass : ∀ᶠ passes in atTop, pass (nestedRun passes room) passes job s = .error stop s') :
    EndsWithin room job s (.error stop s') := by
  obtain ⟨passes, hpass⟩ := hpass.exists
  refine ⟨hended, passes + 1, ?_⟩
  rw [run_succ]
  exact bind_of_error hpass

theorem endsWithin_symbol {name : String} {owner : ScopeId} {v : Value}
    (h : s.lookup? scope name = some (owner, v)) (room : Nat) :
    EndsWithin room (.eval (.sym name) scope) s (.ok v s) := by
  refine endsWithin_of_done (.of_forall fun passes => ?_)
  have hlookup : lookup scope name s = .ok v s := by
    unfold lookup
    rw [get_bind, h]
    rfl
  exact bind_of_ok hlookup

theorem eventually_evalAll {args vs : List Value}
    (h : List.Forall₂ (fun arg v => EndsWithin room (.eval arg scope) s (.ok v s)) args vs) :
    ∀ᶠ passes in atTop, (nestedRun passes (room + 1)).evalAll args scope s = .ok vs s := by
  induction h with
  | nil => exact .of_forall fun passes => rfl
  | cons harg _ ih =>
    filter_upwards [harg.eventually_nested, ih] with passes harg hargs
    unfold Nested.evalAll at hargs ⊢
    rw [List.mapM_cons]
    exact (bind_of_ok harg).trans ((bind_of_ok hargs).trans rfl)

theorem pass_application {id : Identity} {head info : Value} {args : List Value} {marked : Bool}
    (hcalled : macroCall? s (.list id (head :: args) marked info) scope = none)
    (hname : head.symbol?.bind SpecialForm.ofName? = none) (nested : Nested) (limit : Nat) :
    pass nested limit (.eval (.list id (head :: args) marked info) scope) s =
      (nested.eval head scope >>= fun f => nested.evalAll args scope >>= fun vs =>
        pure (.next (.call f vs))) s := by
  refine (bind_of_ok (expandOnce_of_none hcalled nested)).trans ?_
  unfold evalList
  simp only [hname]

/-- An application takes room for its head and its operands, and the call is in tail position. -/
theorem endsWithin_application {id : Identity} {head f info : Value} {args vs : List Value}
    {marked : Bool} (hcalled : macroCall? s (.list id (head :: args) marked info) scope = none)
    (hname : head.symbol?.bind SpecialForm.ofName? = none)
    (hhead : EndsWithin room (.eval head scope) s (.ok f s))
    (hargs : List.Forall₂ (fun arg v => EndsWithin room (.eval arg scope) s (.ok v s)) args vs)
    (hcall : EndsWithin (room + 1) (.call f vs) s r) :
    EndsWithin (room + 1) (.eval (.list id (head :: args) marked info) scope) s r := by
  refine endsWithin_of_next ?_ hcall
  filter_upwards [hhead.eventually_nested, eventually_evalAll hargs] with passes hhead hargs
  rw [pass_application hcalled hname]
  exact (bind_of_ok hhead).trans (bind_of_ok hargs)

theorem endsWithin_builtin {f : Builtin} {args : List Value}
    (h : ∀ nested limit, runBuiltin f nested limit args s = r) (hended : Ended r) (room : Nat)
    (wrapped : Bool) (id : Identity) (info : Value) :
    EndsWithin room (.call (.builtin f wrapped id info) args) s r := by
  cases r with
  | ok v s' => exact endsWithin_of_done (.of_forall fun passes => bind_of_ok (h _ _))
  | error stop s' =>
    exact endsWithin_of_error hended (.of_forall fun passes => bind_of_error (h _ _))

/-- The body of a closure is in tail position. -/
theorem endsWithin_closure {id : Identity} {params : List String} {body info : Value}
    {captured inner : ScopeId} {isMacro : Bool} {args : List Value}
    (henter : enterCall captured params args s = .ok inner s₁)
    (h : EndsWithin room (.eval body inner) s₁ r) :
    EndsWithin room (.call (.closure id params body captured isMacro info) args) s r :=
  endsWithin_of_next (.of_forall fun _ => (bind_of_ok henter).trans rfl) h

section

variable {id : Identity} {parts : List Value} {marked : Bool} {info : Value}

theorem pass_special {name : String} {form : SpecialForm} (hplain : NoMacro scope s name)
    (hname : SpecialForm.ofName? name = some form) (nested : Nested) (limit : Nat) :
    pass nested limit (.eval (.list id (.sym name :: parts) marked info) scope) s =
      form.run nested parts scope s := by
  have hlist : evalList nested (.sym name) parts scope = form.run nested parts scope := by
    unfold evalList
    simp only [Value.symbol?, Option.bind_some, hname]
  refine (bind_of_ok (expandOnce_eq hplain nested id parts marked info)).trans ?_
  rw [hlist]

theorem endsWithin_consequent {condition consequent v : Value} {alternatives : List Value}
    (hplain : NoMacro scope s "if") (hlength : alternatives.length ≤ 1)
    (hcondition : EndsWithin room (.eval condition scope) s (.ok v s)) (hv : v.isTruthy = true)
    (hbranch : EndsWithin (room + 1) (.eval consequent scope) s r) :
    EndsWithin (room + 1)
      (.eval (.list id (.sym "if" :: condition :: consequent :: alternatives) marked info) scope)
      s r := by
  refine endsWithin_of_next ?_ hbranch
  filter_upwards [hcondition.eventually_nested] with passes hcondition
  rw [pass_special hplain (show _ = some .conditional from rfl)]
  match alternatives, hlength with
  | [], _ | [_], _ =>
    refine (bind_of_ok hcondition).trans ?_
    rw [if_pos hv]
    rfl

theorem endsWithin_alternative {condition consequent alternative v : Value}
    (hplain : NoMacro scope s "if")
    (hcondition : EndsWithin room (.eval condition scope) s (.ok v s)) (hv : v.isTruthy = false)
    (hbranch : EndsWithin (room + 1) (.eval alternative scope) s r) :
    EndsWithin (room + 1)
      (.eval (.list id [.sym "if", condition, consequent, alternative] marked info) scope) s r := by
  refine endsWithin_of_next ?_ hbranch
  filter_upwards [hcondition.eventually_nested] with passes hcondition
  rw [pass_special hplain (show _ = some .conditional from rfl)]
  refine (bind_of_ok hcondition).trans ?_
  rw [hv]
  rfl

theorem eventually_runBody {forms : List Value} {last : Value}
    (h : ∀ form ∈ forms, ∃ v, EndsWithin room (.eval form scope) s (.ok v s)) :
    ∀ᶠ passes in atTop, SpecialForm.runBody (nestedRun passes (room + 1)) (forms ++ [last]) scope s =
      .ok (.next (.eval last scope)) s := by
  induction forms with
  | nil => exact .of_forall fun passes => rfl
  | cons form forms ih =>
    obtain ⟨⟨v, hform⟩, hforms⟩ := List.forall_mem_cons.1 h
    filter_upwards [hform.eventually_nested, ih hforms] with passes hform hforms
    rw [List.cons_append, SpecialForm.runBody.eq_3 _ _ _ _ (by simp), discard_bind]
    exact (bind_of_ok hform).trans hforms

theorem endsWithin_sequence {forms : List Value} {last : Value} (hplain : NoMacro scope s "do")
    (hforms : ∀ form ∈ forms, ∃ v, EndsWithin room (.eval form scope) s (.ok v s))
    (hlast : EndsWithin (room + 1) (.eval last scope) s r) :
    EndsWithin (room + 1) (.eval (.list id (.sym "do" :: (forms ++ [last])) marked info) scope)
      s r := by
  refine endsWithin_of_next ?_ hlast
  filter_upwards [eventually_runBody hforms] with passes hforms
  rw [pass_special hplain (show _ = some .sequence from rfl)]
  exact hforms

theorem endsWithin_bindings {binders last : Value} {items forms : List Value}
    (hplain : NoMacro scope s "let") (hbinders : binders.sequence? = some items)
    (heven : items.length % 2 = 0)
    (hitems : ∀ᶠ passes in atTop,
      SpecialForm.bindEach (nestedRun passes (room + 1)) s.scopes.size items
        (s.addScope (some scope) "let").2 = .ok () s₁)
    (hforms : ∀ form ∈ forms, ∃ v, EndsWithin room (.eval form s.scopes.size) s₁ (.ok v s₁))
    (hlast : EndsWithin (room + 1) (.eval last s.scopes.size) s₁ r) :
    EndsWithin (room + 1)
      (.eval (.list id (.sym "let" :: binders :: (forms ++ [last])) marked info) scope) s r := by
  refine endsWithin_of_next ?_ hlast
  filter_upwards [hitems, eventually_runBody hforms] with passes hitems hforms
  rw [pass_special hplain (show _ = some .bindings from rfl)]
  unfold SpecialForm.run SpecialForm.runBindings
  simp only [hbinders, heven]
  exact (bind_of_ok rfl).trans ((bind_of_ok hitems).trans hforms)

theorem endsWithin_handler {form body handler : Value} {name : String} {cause : Fault}
    (h : IsProtect form body name handler) (hplain : NoMacro scope s "try") (hname : name ≠ "&")
    (hbody : EndsWithin room (.eval body scope) s (.error (.fault cause) s₁))
    (hhandler : EndsWithin (room + 1) (.eval handler s₁.scopes.size)
      (s₁.catching scope name cause) r) :
    EndsWithin (room + 1) (.eval form scope) s r := by
  refine endsWithin_of_next ?_ hhandler
  filter_upwards [hbody.eventually_nested] with passes hbody
  rw [pass_protect h hplain hname]
  unfold Nested.eval
  rw [hbody]

end

end SmallLisp.Eval
