import Mathlib.Tactic
import SmallLisp.Proofs.Discipline.Store
import SmallLisp.Proofs.Eval.Parameters
import SmallLisp.Proofs.Eval.Within
import SmallLisp.Proofs.Template.Misfit

/-!
# Malformed special forms

Every special form asks for a shape of its parts. A form that does not have it is rejected before
any of its parts is evaluated, and what exists stays as it is. The one exception is a `let` whose
first misplaced name stands behind some pairs, which are bound before it is met.
-/

namespace SmallLisp

/-- The names and forms of bindings, by turns. -/
def byTurns (pairs : List (String × Value)) : List Value := pairs.flatMap fun p => [.sym p.1, p.2]

def IsParameterList (v : Value) : Prop :=
  ∃ names : List String, v.sequence? = some (names.map .sym) ∧ PlacesRest names

namespace SpecialForm

/-- The parts of a special form have the shape that the form asks for. -/
inductive Shaped : SpecialForm → List Value → Prop
  | define {name : String} {form : Value} : Shaped .define [.sym name, form]
  | bindings {binders : Value} {pairs : List (String × Value)} {forms : List Value} :
      binders.sequence? = some (byTurns pairs) → Shaped .bindings (binders :: forms)
  | quotation {form : Value} : Shaped .quotation [form]
  | template {form : Value} : ¬ Template.Misfit form → Shaped .template [form]
  | defineMacro {name : String} {params : Value} {forms : List Value} :
      IsParameterList params → Shaped .defineMacro (.sym name :: params :: forms)
  | expansion {form : Value} : Shaped .expansion [form]
  | unguarded {form : Value} : Shaped .protect [form]
  | guarded {id : Identity} {form handler info : Value} {name : String} {marked : Bool} :
      Shaped .protect [form, .list id [.sym "catch", .sym name, handler] marked info]
  | sequence {forms : List Value} : Shaped .sequence forms
  | consequent {condition consequent : Value} : Shaped .conditional [condition, consequent]
  | alternative {condition consequent alternative : Value} :
      Shaped .conditional [condition, consequent, alternative]
  | function {params : Value} {forms : List Value} :
      IsParameterList params → Shaped .function (params :: forms)
  | scopeChain : Shaped .scopeChain []
  | scopesOf {name : String} : Shaped .scopesOf [.sym name]

/-- A value stands where a special form asks for a symbol that it binds. In a `let` it is the first
one of its kind, and stands behind some pairs. -/
inductive Misnamed : SpecialForm → List Value → List (String × Value) → Value → Prop
  | define {target form : Value} : target.symbol? = none → Misnamed .define [target, form] [] target
  | defineMacro {target params : Value} {forms : List Value} :
      target.symbol? = none → Misnamed .defineMacro (target :: params :: forms) [] target
  | bindings {binders target form : Value} {items forms : List Value}
      {pairs : List (String × Value)} :
      binders.sequence? = some (byTurns pairs ++ target :: form :: items) →
      items.length % 2 = 0 → target.symbol? = none →
      Misnamed .bindings (binders :: forms) pairs target

end SpecialForm

namespace Store

variable {s s' : Store}

theorem untouched_of_sameState (h : Template.SameState s s') : s.Untouched s' := by
  unfold Template.SameState at h
  rw [h]
  exact ⟨fun _ _ h => h, rfl, rfl, rfl⟩

/-- What a representation shows of a store are the contents of atoms. -/
theorem representFrom_of_contents (h : s'.contents = s.contents) (depth : Nat)
    (opened : List Identity) (v : Value) :
    s'.representFrom depth opened v = s.representFrom depth opened v := by
  induction depth generalizing opened v with
  | zero => rfl
  | succ depth ih =>
    unfold representFrom content?
    simp only [h, ih]

theorem represent_of_contents (h : s'.contents = s.contents) (v : Value) :
    s'.represent v = s.represent v := by
  unfold represent
  exact representFrom_of_contents h representDepth [] v

end Store

namespace SpecialForm

open Eval Template

variable {scope : ScopeId} {s s₁ : Store} {parts items : List Value} {target form : Value}
  {nested : Nested}

theorem represent_of_ok {v : Value} {shown : String} (h : s.represent v = .ok shown) :
    represent v s = .ok shown s := by
  unfold represent
  rw [get_bind, h]
  rfl

theorem bindEach_misnamed (htarget : target.symbol? = none) (nested : Nested) (scope : ScopeId) :
    bindEach nested scope (target :: form :: items) =
      represent target >>= fun shown => throw (.form (.letName shown)) := by
  cases target with
  | sym name => cases htarget
  | _ => rfl

/-- Pairs are bound one after the other, in front of all that stands behind them. -/
theorem bindEach_byTurns (nested : Nested) (scope : ScopeId) (pairs : List (String × Value))
    (items : List Value) :
    bindEach nested scope (byTurns pairs ++ items) =
      (pairs.forM fun p => nested.eval p.2 scope >>= bindValue scope (.sym p.1)) >>= fun _ =>
        bindEach nested scope items := by
  induction pairs with
  | nil => rfl
  | cons p pairs ih =>
    have hitems : byTurns (p :: pairs) ++ items =
        .sym p.1 :: p.2 :: (byTurns pairs ++ items) := rfl
    rw [hitems, bindEach, ih]
    simp only [List.forM_eq_forM, List.forM_cons, bind_assoc]

theorem length_byTurns (pairs : List (String × Value)) :
    (byTurns pairs).length = 2 * pairs.length := by
  induction pairs with
  | nil => rfl
  | cons p pairs ih =>
    change (byTurns pairs).length + 2 = _
    rw [ih, List.length_cons]
    omega

/-- Items in even number are pairs, or there is a first name that is misplaced. -/
theorem byTurns_or_misnamed : (items : List Value) → items.length % 2 = 0 →
    (∃ pairs, items = byTurns pairs) ∨
      ∃ pairs target form rest, items = byTurns pairs ++ target :: form :: rest ∧
        rest.length % 2 = 0 ∧ target.symbol? = none
  | [], _ => .inl ⟨[], rfl⟩
  | target :: form :: rest, h => by
    have hrest : rest.length % 2 = 0 := by
      simp only [List.length_cons] at h
      omega
    cases htarget : target.symbol? with
    | none => exact .inr ⟨[], target, form, rest, rfl, hrest, htarget⟩
    | some name =>
      obtain rfl := Value.eq_sym_of_symbol? htarget
      obtain ⟨pairs, rfl⟩ | ⟨pairs, target, form', rest, rfl, hlength, htarget⟩ :=
        byTurns_or_misnamed rest hrest
      · exact .inl ⟨(name, form) :: pairs, rfl⟩
      · exact .inr ⟨(name, form) :: pairs, target, form', rest, rfl, hlength, htarget⟩

theorem length_misnamed (pairs : List (String × Value)) (target form : Value)
    (heven : items.length % 2 = 0) :
    (byTurns pairs ++ target :: form :: items).length % 2 ≠ 1 := by
  simp only [List.length_append, List.length_cons, length_byTurns]
  omega

/-- A `let` with a misplaced name evaluates the forms of the pairs in front of it, each in the new
scope, and binds them there. -/
theorem runBindings_misnamed {pairs : List (String × Value)}
    (h : Misnamed .bindings parts pairs target) (nested : Nested) (scope : ScopeId) (s : Store) :
    runBindings nested parts scope s =
      ((pairs.forM fun p =>
          nested.eval p.2 s.scopes.size >>= bindValue s.scopes.size (.sym p.1)) >>= fun _ =>
        represent target >>= fun shown => throw (.form (.letName shown)))
        (s.addScope (some scope) "let").2 := by
  cases h with
  | @bindings binders _ form items forms _ hbinders heven htarget =>
    unfold runBindings
    simp only [hbinders]
    rw [if_neg (by simpa using length_misnamed pairs target form heven)]
    refine (bind_of_ok rfl).trans ?_
    rw [bindEach_byTurns, bindEach_misnamed htarget]
    simp only [bind_assoc, throw_bind]
    rfl

/-- A special form stops because its parts do not have the right shape, whatever the activations
would do that it could start. -/
def Rejected (f : SpecialForm) (parts : List Value) (scope : ScopeId) (s : Store) : Prop :=
  ∃ cause s', s.Untouched s' ∧ ∀ nested, f.run nested parts scope s = .error (.form cause) s'

/-- A misplaced name, if there is one, has no pairs in front of it and can be shown in the
message. -/
def Showable (f : SpecialForm) (parts : List Value) (s : Store) : Prop :=
  ∀ pairs target, Misnamed f parts pairs target →
    pairs = [] ∧ ∃ shown, s.represent target = .ok shown

theorem rejected_define (h : ¬ Shaped .define parts) (hshown : Showable .define parts s) :
    Rejected .define parts scope s := by
  match parts with
  | [target, form] =>
    cases htarget : target.symbol? with
    | some name =>
      obtain rfl := Value.eq_sym_of_symbol? htarget
      exact absurd .define h
    | none =>
      obtain ⟨-, shown, hshown⟩ := hshown [] target (.define htarget)
      refine ⟨.defName shown, s, .refl s, fun nested => ?_⟩
      have hrun : runDefine nested [target, form] scope =
          represent target >>= fun shown => throw (.form (.defName shown)) := by
        cases target with
        | sym name => cases htarget
        | _ => rfl
      exact (congrFun hrun s).trans (bind_of_ok (represent_of_ok hshown))
  | [] => exact ⟨.defShape, s, .refl s, fun _ => rfl⟩
  | [_] | _ :: _ :: _ :: _ =>
    refine ⟨.defShape, s, .refl s, fun nested => ?_⟩
    exact congrFun (runDefine.eq_3 nested _ scope (by simp) (by simp)) s

theorem makeClosure_misshaped {params : Value} (h : ¬ IsParameterList params) (form : String)
    (isMacro : Bool) (forms : List Value) (scope : ScopeId) :
    ∃ cause, makeClosure form isMacro (params :: forms) scope = throw (.form cause) := by
  cases hnames : parameterNames? params with
  | none => exact ⟨.parameterSymbols form, by simp only [makeClosure, hnames]⟩
  | some names =>
    have hplaced : restMarkPlaced names ≠ true := fun hplaced =>
      h ⟨names, parameterNames?_eq_some_iff.1 hnames, restMarkPlaced_iff.1 hplaced⟩
    exact ⟨.restPlace form, by simp only [makeClosure, hnames, if_neg hplaced]⟩

theorem rejected_defineMacro (h : ¬ Shaped .defineMacro parts)
    (hshown : Showable .defineMacro parts s) : Rejected .defineMacro parts scope s := by
  match parts with
  | target :: params :: forms =>
    cases htarget : target.symbol? with
    | some name =>
      obtain rfl := Value.eq_sym_of_symbol? htarget
      have hparams : ¬ IsParameterList params := fun hparams => h (.defineMacro hparams)
      obtain ⟨cause, hclosure⟩ :=
        makeClosure_misshaped hparams defineMacro.name true forms scope
      refine ⟨cause, s, .refl s, fun nested => bind_of_error ?_⟩
      rw [hclosure]
      rfl
    | none =>
      obtain ⟨-, shown, hshown⟩ := hshown [] target (.defineMacro htarget)
      refine ⟨.macroName shown, s, .refl s, fun nested => ?_⟩
      have hrun : runDefineMacro (target :: params :: forms) scope =
          represent target >>= fun shown => throw (.form (.macroName shown)) := by
        cases target with
        | sym name => cases htarget
        | _ => rfl
      exact (congrFun hrun s).trans (bind_of_ok (represent_of_ok hshown))
  | [] => exact ⟨.defmacroShape, s, .refl s, fun _ => rfl⟩
  | [_] =>
    refine ⟨.defmacroShape, s, .refl s, fun nested => ?_⟩
    exact congrFun (runDefineMacro.eq_3 _ scope (by simp) (by simp)) s

theorem rejected_function (h : ¬ Shaped .function parts) : Rejected .function parts scope s := by
  match parts with
  | [] => exact ⟨.noParameters function.name, s, .refl s, fun _ => rfl⟩
  | params :: forms =>
    have hparams : ¬ IsParameterList params := fun hparams => h (.function hparams)
    obtain ⟨cause, hclosure⟩ := makeClosure_misshaped hparams function.name false forms scope
    refine ⟨cause, s, .refl s, fun nested => bind_of_error ?_⟩
    rw [hclosure]
    rfl

/-- A name that is misplaced in the first pair is met before anything is evaluated. -/
theorem rejected_bindings (h : ¬ Shaped .bindings parts) (hshown : Showable .bindings parts s) :
    Rejected .bindings parts scope s := by
  match parts with
  | [] => exact ⟨.letShape, s, .refl s, fun _ => rfl⟩
  | binders :: forms =>
    cases hbinders : binders.sequence? with
    | none =>
      refine ⟨.letList, s, .refl s, fun nested => ?_⟩
      simp only [run, runBindings, hbinders]
      rfl
    | some items =>
      by_cases hodd : items.length % 2 = 1
      · refine ⟨.letPairs, s, .refl s, fun nested => ?_⟩
        simp only [run, runBindings, hbinders]
        rw [if_pos (by simpa using hodd)]
        rfl
      · obtain ⟨pairs, rfl⟩ | ⟨pairs, target, form, rest, rfl, heven, htarget⟩ :=
          byTurns_or_misnamed items (by omega)
        · exact absurd (.bindings hbinders) h
        · have hmisnamed : Misnamed .bindings (binders :: forms) pairs target :=
            .bindings hbinders heven htarget
          obtain ⟨rfl, shown, hshown⟩ := hshown pairs target hmisnamed
          have huntouched : s.Untouched (s.addScope (some scope) "let").2 :=
            Store.untouched_of_scopes rfl rfl rfl rfl
          have hshown : (s.addScope (some scope) "let").2.represent target = .ok shown := by
            rw [Store.represent_of_contents huntouched.contents, hshown]
          refine ⟨.letName shown, _, huntouched, fun nested => ?_⟩
          refine (runBindings_misnamed hmisnamed nested scope s).trans ?_
          exact (bind_of_ok rfl).trans (bind_of_ok (represent_of_ok hshown))

theorem rejected_template (h : ¬ Shaped .template parts) : Rejected .template parts scope s := by
  match parts with
  | [form] =>
    have hmisfit : Misfit form := by
      by_contra hmisfit
      exact h (.template hmisfit)
    obtain ⟨cause, s', hcode, hsame⟩ := hmisfit.rejects s
    exact ⟨cause, s', Store.untouched_of_sameState hsame, fun nested => bind_of_error hcode⟩
  | [] | _ :: _ :: _ => exact ⟨.quasiquoteShape, s, .refl s, fun _ => rfl⟩

theorem rejected_protect (h : ¬ Shaped .protect parts) : Rejected .protect parts scope s := by
  match parts with
  | [_] => exact absurd .unguarded h
  | [form, clause] =>
    have hclause : catchClause? clause = none := by
      unfold catchClause?
      split
      · next id head name handler marked info =>
        refine if_neg fun hhead => h ?_
        rw [eq_sym_of_isSymbol hhead]
        exact .guarded
      · rfl
    refine ⟨.catchShape, s, .refl s, fun nested => ?_⟩
    simp only [run, runProtect, hclause]
    rfl
  | [] | _ :: _ :: _ :: _ => exact ⟨.tryShape, s, .refl s, fun _ => rfl⟩

theorem rejected_scopesOf (h : ¬ Shaped .scopesOf parts) : Rejected .scopesOf parts scope s := by
  refine ⟨.whichEnvShape, s, .refl s, fun nested => ?_⟩
  refine congrFun (runScopesOf.eq_2 parts scope ?_) s
  rintro name rfl
  exact h .scopesOf

/-- A special form whose parts do not have its shape is rejected, unless a misplaced name stands
behind some pairs. -/
theorem rejected_of_not_shaped {f : SpecialForm} (h : ¬ Shaped f parts)
    (hshown : Showable f parts s) : Rejected f parts scope s := by
  cases f with
  | define => exact rejected_define h hshown
  | bindings => exact rejected_bindings h hshown
  | quotation =>
    match parts with
    | [_] => exact absurd .quotation h
    | [] | _ :: _ :: _ => exact ⟨.quoteShape, s, .refl s, fun _ => rfl⟩
  | template => exact rejected_template h
  | defineMacro => exact rejected_defineMacro h hshown
  | expansion =>
    match parts with
    | [_] => exact absurd .expansion h
    | [] | _ :: _ :: _ => exact ⟨.macroexpandShape, s, .refl s, fun _ => rfl⟩
  | protect => exact rejected_protect h
  | sequence => exact absurd .sequence h
  | conditional =>
    match parts with
    | [_, _] => exact absurd .consequent h
    | [_, _, _] => exact absurd .alternative h
    | [] | [_] | _ :: _ :: _ :: _ :: _ => exact ⟨.ifShape, s, .refl s, fun _ => rfl⟩
  | function => exact rejected_function h
  | scopeChain =>
    match parts with
    | [] => exact absurd .scopeChain h
    | _ :: _ => exact ⟨.envChainShape, s, .refl s, fun _ => rfl⟩
  | scopesOf => exact rejected_scopesOf h

end SpecialForm

namespace Eval

open Filter SpecialForm Template

variable {scope : ScopeId} {s : Store} {f : SpecialForm} {parts : List Value}

theorem Bound.append {items rest : List Value} {s' : Store} (h : Bound scope items s rest s')
    (others : List Value) : Bound scope (items ++ others) s (rest ++ others) s' := by
  induction h with
  | none => exact .none
  | next hform _ ih => exact .next hform ih

/-- A `let` fails at a misplaced name when the pairs in front of it have been bound. -/
theorem endsWith_misnamed {name shown : String} {target : Value} {pairs : List (String × Value)}
    {s' : Store} (hplain : NoMacro scope s name) (hname : ofName? name = some .bindings)
    (hparts : Misnamed .bindings parts pairs target)
    (hbound : Bound s.scopes.size (byTurns pairs) (s.addScope (some scope) "let").2 [] s')
    (hshown : s'.represent target = .ok shown) (id : Identity) (marked : Bool) (info : Value) :
    EndsWith (.eval (.list id (.sym name :: parts) marked info) scope) s
      (.error (.form (.letName shown)) s') := by
  cases hparts with
  | @bindings binders _ form items forms _ hbinders heven htarget =>
    have hended : Ended (.error (.form (.letName shown)) s' : Result Value) := trivial
    apply endsWith_of_eventually hended
    filter_upwards [(hbound.append (target :: form :: items)).eventually_bindEach]
      with depth hbound
    refine (Direct.form_of_special (macroCall?_eq_none hplain id _ marked info) hname _).trans ?_
    have hlength := length_misnamed pairs target form heven
    refine (bindings_of_even hbinders hlength _).trans (bind_of_error ?_)
    rw [hbound, List.nil_append, bindEach_misnamed htarget]
    exact bind_of_ok (represent_of_ok hshown)

/-- A special form whose parts do not have the shape that it asks for is rejected: whatever the
activations would do that it could start, it stops with the same arity fault, and nothing that
exists has been touched. The one exception is a `let` in which a misplaced name stands behind some
pairs. It evaluates the forms of these pairs in order, each in the new scope, and binds the values
there, before it meets the name. -/
theorem malformed_rejected {name : String} (hplain : NoMacro scope s name)
    (hname : ofName? name = some f) (hshape : ¬ f.Shaped parts) (id : Identity) (marked : Bool)
    (info : Value) :
    let job : Job := .eval (.list id (.sym name :: parts) marked info) scope
    (f.Showable parts s → ∃ cause s', s.Untouched s' ∧
      (∀ nested limit, pass nested limit job s = .error (.form cause) s') ∧
      ∀ passes room, run (passes + 1) room job s = .error (.form cause) s') ∧
    ∀ pairs target, f.Misnamed parts pairs target → pairs ≠ [] →
      (∀ nested limit, pass nested limit job s =
        ((pairs.forM fun p =>
            nested.eval p.2 s.scopes.size >>= bindValue s.scopes.size (.sym p.1)) >>= fun _ =>
          represent target >>= fun shown => throw (.form (.letName shown)))
          (s.addScope (some scope) "let").2) ∧
      ∀ s' shown,
        Bound s.scopes.size (byTurns pairs) (s.addScope (some scope) "let").2 [] s' →
        s'.represent target = .ok shown → EndsWith job s (.error (.form (.letName shown)) s') := by
  intro job
  have hpass (nested : Nested) (limit : Nat) :
      pass nested limit job s = f.run nested parts scope s := pass_special hplain hname nested limit
  constructor
  · intro hshown
    obtain ⟨cause, s', huntouched, hrejected⟩ := rejected_of_not_shaped hshape hshown
    have hpass (nested : Nested) (limit : Nat) :
        pass nested limit job s = .error (.form cause) s' :=
      (hpass nested limit).trans (hrejected nested)
    refine ⟨cause, s', huntouched, hpass, fun passes room => ?_⟩
    rw [run_succ]
    exact bind_of_error (hpass _ _)
  · intro pairs target hmisnamed hpairs
    -- Only a `let` has pairs in front of a name.
    obtain rfl : f = .bindings := by
      cases hmisnamed with
      | define | defineMacro => exact absurd rfl hpairs
      | bindings => rfl
    constructor
    · intro nested limit
      exact (hpass nested limit).trans (runBindings_misnamed hmisnamed nested scope s)
    · intro s' shown hbound hshown
      exact endsWith_misnamed hplain hname hmisnamed hbound hshown id marked info

/-- A template with an empty `unquote` inside, and a `let` whose second name is nil. -/
theorem malformed_rejected_nested :
    let s : Store := { Store.empty 40 with scopes := #[⟨"repl", none, []⟩] }
    let template : Value := .plainList 1 [.int 1, .plainList 2 [.sym "unquote"]]
    let binders : Value := .plainList 1 [.sym "a", .int 1, .nil, .int 2]
    (∃ cause s', s.Untouched s' ∧ ∀ passes room,
      run (passes + 1) room (.eval (.plainList 3 [.sym "quasiquote", template]) rootScope) s =
        .error (.form cause) s') ∧
    ∃ s', s'.own? 1 "a" = some (.int 1) ∧
      EndsWith (.eval (.plainList 3 [.sym "let", binders, .sym "a"]) rootScope) s
        (.error (.form (.letName "nil")) s') := by
  intro s template binders
  have hplain (name : String) : NoMacro rootScope s name := by
    intro owner value h
    cases h
  constructor
  · have hshape : ¬ Shaped .template [template] := by
      intro h
      cases h with
      | template h =>
        exact h (.sequence rfl (.rest rfl (.item rfl (.sequence rfl (.unquote (by decide))))))
    have hshown : Showable .template [template] s := by
      intro pairs target h
      cases h
    obtain ⟨cause, s', huntouched, -, hrun⟩ :=
      (malformed_rejected (hplain "quasiquote") rfl hshape 3 false .nil).1 hshown
    exact ⟨cause, s', huntouched, hrun⟩
  · have hmisnamed : Misnamed .bindings [binders, .sym "a"] [("a", .int 1)] .nil :=
      .bindings rfl rfl rfl
    have hshape : ¬ Shaped .bindings [binders, .sym "a"] := by
      intro h
      cases h with
      | @bindings _ pairs _ h =>
        obtain _ | ⟨p, _ | ⟨q, pairs⟩⟩ := pairs <;> simp [byTurns, binders, Value.sequence?] at h
    obtain ⟨-, hends⟩ := (malformed_rejected (hplain "let") rfl hshape 3 false .nil).2
      [("a", .int 1)] .nil hmisnamed (by simp)
    have hone : EndsWith (.eval (.int 1) 1) (s.addScope (some rootScope) "let").2
        (.ok (.int 1) (s.addScope (some rootScope) "let").2) := ⟨trivial, 1, 0, rfl⟩
    exact ⟨_, rfl, hends _ "nil" (.next hone .none) rfl⟩

/-- What a literal reading of the shapes leaves out is accepted: a rest mark in the last place that
names the rest parameter, a template that is itself headed by a splice and an empty `unquote` in a
map. -/
theorem unplaced_marks_accepted :
    let s : Store := { Store.empty 40 with
      scopes := #[⟨"repl", none, [("cons", .builtin (.core .cons) false Value.literalNan .nil)]⟩] }
    let names : Value := .plainList 1 [.sym "&", .sym "&"]
    let splice : Value := .plainList 1 [.sym "splice-unquote"]
    let entries : Value := .plainMap 1 [(.kw "a", .plainList 2 [.sym "unquote"])]
    (∃ v s', v.isFunction ∧
      EndsWith (.eval (.plainList 3 [.sym "fn", names, .int 1]) rootScope) s (.ok v s')) ∧
    (∃ v s', v.sequence? = splice.sequence? ∧
      EndsWith (.eval (.plainList 3 [.sym "quasiquote", splice]) rootScope) s (.ok v s')) ∧
    ∃ s', EndsWith (.eval (.plainList 3 [.sym "quasiquote", entries]) rootScope) s
      (.ok entries s') := by
  refine ⟨⟨_, _, ?_, trivial, 2, 2, rfl⟩, ⟨_, _, ?_, trivial, 4, 2, rfl⟩, ⟨_, trivial, 3, 3, rfl⟩⟩
  · rfl
  · rfl

end Eval

end SmallLisp
