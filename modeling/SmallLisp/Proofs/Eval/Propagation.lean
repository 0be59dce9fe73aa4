import Mathlib.Tactic
import SmallLisp.Proofs.Discipline.Store
import SmallLisp.Proofs.Eval.Parts

/-!
# Faults of parts

A fault that ends a part of a job ends the job, unchanged and in the same store. The part may be
reached through any number of jobs that started one another, as long as none of them guards it.
-/

namespace SmallLisp

namespace Store

variable {s : Store}

theorem scopes_record (level : Nat) (logger message : String) :
    (s.record level logger message).scopes = s.scopes := by
  unfold Store.record
  split_ifs <;> rfl

theorem bind_addScope {outer : Option ScopeId} {scopeName name : String} {v : Value} :
    (s.addScope outer scopeName).2.bind s.scopes.size name v =
      { s with scopes := s.scopes.push ⟨scopeName, outer, [(name, v)]⟩ } :=
  bind_push s ⟨scopeName, outer, []⟩ name v

theorem scope?_catching (scope : ScopeId) (name : String) (cause : Fault) :
    (s.catching scope name cause).scope? s.scopes.size =
      some ⟨"catch", some scope, [(name, cause.caught)]⟩ := by
  unfold catching scope?
  dsimp only
  rw [scopes_record, Array.getElem?_push_size]

end Store

namespace Eval

open Filter

variable {job : Job} {scope : ScopeId} {s s' s₁ : Store}

theorem EndsWith.eventually_direct {r : Result Value} (h : EndsWith job s r) :
    ∀ᶠ depth in atTop, Direct.run depth job s = r := by
  obtain ⟨depth, hdepth⟩ := ((endsWith_iff_direct job s r).1 h).eventually
  exact eventually_atTop.2 ⟨depth, hdepth⟩

theorem endsWith_of_direct {depth : ℕ} {r : Result Value} (h : Direct.run depth job s = r)
    (hended : Ended r) : EndsWith job s r :=
  (endsWith_iff_direct job s r).2 ⟨hended, depth, h⟩

theorem eventually_of_step {r : Result Value}
    (h : ∀ᶠ depth in atTop, Direct.step (Direct.run depth) depth job s = r) :
    ∀ᶠ depth in atTop, Direct.run depth job s = r := by
  obtain ⟨depth, hdepth⟩ := eventually_atTop.1 h
  refine eventually_atTop.2 ⟨depth + 1, fun depth' hdepth' => ?_⟩
  obtain ⟨depth', rfl⟩ := Nat.exists_eq_add_of_le' (Nat.one_le_of_lt hdepth')
  exact hdepth depth' (Nat.le_of_succ_le_succ hdepth')

/-- A job ends as the direct steps to great depths do. -/
theorem endsWith_of_eventually {r : Result Value} (hended : Ended r)
    (h : ∀ᶠ depth in atTop, Direct.step (Direct.run depth) depth job s = r) : EndsWith job s r := by
  obtain ⟨depth, hdepth⟩ := (eventually_of_step h).exists
  exact endsWith_of_direct hdepth hended

/-- A job whose direct steps go on with another job in their place ends as that one does. -/
theorem endsWith_iff_of_step {job' : Job}
    (h : ∀ᶠ depth in atTop, Direct.step (Direct.run depth) depth job s = Direct.run depth job' s₁)
    (r : Result Value) : EndsWith job s r ↔ EndsWith job' s₁ r := by
  constructor
  · intro hjob
    -- The step to one depth more is the job, which has its final outcome at both depths.
    obtain ⟨depth, hdepth⟩ := eventually_atTop.1 (h.and hjob.eventually_direct)
    obtain ⟨hstep, -⟩ := hdepth depth le_rfl
    obtain ⟨-, hjob'⟩ := hdepth (depth + 1) (Nat.le_succ depth)
    exact endsWith_of_direct (hstep.symm.trans hjob') hjob.1
  · intro hjob
    apply endsWith_of_eventually hjob.1
    filter_upwards [h, hjob.eventually_direct] with depth hstep hjob
    exact hstep.trans hjob

theorem EndsWith.eq_of_eventually {r r' : Result Value} (h : EndsWith job s r)
    (h' : ∀ᶠ depth in atTop, Direct.run depth job s = r') : r = r' := by
  obtain ⟨depth, hdepth, hdepth'⟩ := (h.eventually_direct.and h').exists
  exact hdepth.symm.trans hdepth'

theorem evalAll_cons (nested : Nested) (form : Value) (forms : List Value) (scope : ScopeId) :
    nested.evalAll (form :: forms) scope =
      nested.eval form scope >>= fun v => nested.evalAll forms scope >>= fun vs => pure (v :: vs) :=
  List.mapM_cons

theorem body_cons (recur : Nested) (form : Value) {forms : List Value} (h : forms ≠ [])
    (scope : ScopeId) : Direct.body recur (form :: forms) scope =
      recur.eval form scope >>= fun _ => Direct.body recur forms scope :=
  Direct.body.eq_3 recur scope form forms h

section

variable {forms vs rest : List Value} {form : Value} {stop : Stop}

theorem Evaluated.eventually_values (h : Evaluated scope forms s vs [] s') :
    ∀ᶠ depth in atTop, Nested.evalAll (Direct.run depth) forms scope s = .ok vs s' := by
  generalize hrest : ([] : List Value) = rest at h
  induction h with
  | none =>
    subst hrest
    exact .of_forall fun depth => rfl
  | next hform _ ih =>
    filter_upwards [hform.eventually_direct, ih hrest] with depth hform ih
    rw [evalAll_cons]
    exact (bind_of_ok hform).trans (bind_of_ok ih)

theorem Evaluated.eventually_stops (h : Evaluated scope forms s vs (form :: rest) s₁)
    (hform : EndsWith (.eval form scope) s₁ (.error stop s')) :
    ∀ᶠ depth in atTop, Nested.evalAll (Direct.run depth) forms scope s = .error stop s' := by
  generalize hrest : form :: rest = rest' at h
  induction h with
  | none =>
    subst hrest
    filter_upwards [hform.eventually_direct] with depth hform
    rw [evalAll_cons]
    exact bind_of_error hform
  | next hfirst _ ih =>
    filter_upwards [hfirst.eventually_direct, ih hform hrest] with depth hfirst ih
    rw [evalAll_cons]
    exact (bind_of_ok hfirst).trans (bind_of_error ih)

theorem Evaluated.eventually_body_stops (h : Evaluated scope forms s vs (form :: rest) s₁)
    (hform : EndsWith (.eval form scope) s₁ (.error stop s')) :
    ∀ᶠ depth in atTop, Direct.body (Direct.run depth) forms scope s = .error stop s' := by
  generalize hrest : form :: rest = rest' at h
  induction h with
  | none =>
    subst hrest
    filter_upwards [hform.eventually_direct] with depth hform
    cases rest with
    | nil => exact hform
    | cons next rest =>
      rw [body_cons _ _ (List.cons_ne_nil next rest)]
      exact bind_of_error hform
  | @next _ _ forms _ _ _ _ _ hfirst hforms ih =>
    -- A form in front is not the last one, which would be in tail position.
    have hne : forms ≠ [] := by
      rintro rfl
      cases hforms
      cases hrest
    filter_upwards [hfirst.eventually_direct, ih hform hrest] with depth hfirst ih
    rw [body_cons _ _ hne]
    exact (bind_of_ok hfirst).trans ih

theorem Bound.eventually_bindEach {items : List Value} (h : Bound scope items s rest s') :
    ∀ᶠ depth in atTop, SpecialForm.bindEach (Direct.run depth) scope items s =
      SpecialForm.bindEach (Direct.run depth) scope rest s' := by
  induction h with
  | none => exact .of_forall fun depth => rfl
  | next hform _ ih =>
    filter_upwards [hform.eventually_direct, ih] with depth hform ih
    rw [SpecialForm.bindEach]
    exact (bind_of_ok hform).trans ih

theorem EvaluatedEntries.eventually_stops {entries others : List (Value × Value)}
    (h : EvaluatedEntries scope entries s others s₁)
    (hothers : ∀ᶠ depth in atTop,
      evalEntries (Direct.run depth) scope others s₁ = .error stop s') :
    ∀ᶠ depth in atTop, evalEntries (Direct.run depth) scope entries s = .error stop s' := by
  induction h with
  | none => exact hothers
  | next hk hv hkey _ ih =>
    filter_upwards [hk.eventually_direct, hv.eventually_direct, ih hothers] with depth hk hv ih
    rw [evalEntries]
    refine (bind_of_ok hk).trans ((bind_of_ok hv).trans ?_)
    rw [if_neg (by simpa [Option.isSome_iff_ne_none] using hkey)]
    exact bind_of_error ih

end

section

variable {form : Value}

theorem expandOnce_of_call {call : MacroCall} (h : macroCall? s form scope = some call)
    (nested : Nested) : expandOnce nested form scope s =
      (enterCall call.scope call.params call.args >>= fun inner =>
        nested.eval call.body inner >>= fun expanded => pure (some expanded))
        (s.record debugLevel expansionLogger ("Expanding macro " ++ call.name)) := by
  unfold expandOnce
  rw [get_bind, h]
  rfl

theorem expandOnce_of_entered {call : MacroCall} {inner : ScopeId} {nested : Nested}
    (h : Entered form scope s call inner s₁) :
    expandOnce nested form scope s =
      (nested.eval call.body inner >>= fun expanded => pure (some expanded)) s₁ :=
  (expandOnce_of_call h.1 nested).trans (bind_of_ok h.2)

theorem form_of_entered {call : MacroCall} {inner : ScopeId}
    (h : Entered form scope s call inner s₁) (recur : Nested) :
    Direct.form recur form scope s =
      (recur.eval call.body inner >>= fun expanded => recur.eval expanded scope) s₁ := by
  obtain ⟨id, name, args, marked, info, rfl⟩ :
      ∃ id name args marked info, form = .list id (.sym name :: args) marked info := by
    have hcall := h.1
    unfold macroCall? at hcall
    split at hcall
    · exact ⟨_, _, _, _, _, rfl⟩
    · cases hcall
  unfold Direct.form
  simp only [Bind.bind, EStateM.bind, expandOnce_of_entered h]
  cases recur.eval call.body inner s₁ <;> rfl

theorem expand_of_entered {call : MacroCall} {inner : ScopeId}
    (h : Entered form scope s call inner s₁) (recur : Nested) :
    Direct.expand recur form scope s =
      (recur.eval call.body inner >>= fun expanded => recur (.expand expanded scope)) s₁ := by
  unfold Direct.expand
  simp only [Bind.bind, EStateM.bind, expandOnce_of_entered h]
  cases recur.eval call.body inner s₁ <;> rfl

end

theorem bindings_of_even {binders : Value} {items forms : List Value}
    (hitems : binders.sequence? = some items) (heven : items.length % 2 ≠ 1) (recur : Nested) :
    Direct.bindings recur (binders :: forms) scope s =
      (SpecialForm.bindEach recur s.scopes.size items >>= fun _ =>
        Direct.body recur forms s.scopes.size) (s.addScope (some scope) "let").2 := by
  unfold Direct.bindings
  simp only [hitems]
  rw [if_neg (by simpa using heven)]
  rfl

theorem enter_single {outer : Option ScopeId} {scopeName name : String} (hname : name ≠ "&")
    (v : Value) (s : Store) :
    enter outer scopeName [.sym name] [v] s =
      .ok s.scopes.size { s with scopes := s.scopes.push ⟨scopeName, outer, [(name, v)]⟩ } := by
  have hmark : isRestMark (.sym name) = false := by simpa [isRestMark] using hname
  rw [← Store.bind_addScope]
  unfold enter bindParameters bindRest
  rw [hmark]
  rfl

/-- A handler is entered in the store that `Store.catching` says. -/
theorem enter_catch {name : String} (hname : name ≠ "&") (cause : Fault) :
    enter (some scope) "catch" [.sym name] [cause.caught]
        (s.record debugLevel SpecialForm.protectLogger
          ("try caught " ++ cause.kind ++ ": " ++ cause.message)) =
      .ok s.scopes.size (s.catching scope name cause) := by
  rw [enter_single hname]
  unfold Store.catching
  dsimp only
  rw [Store.scopes_record]

theorem attempt_of_fault {α : Type} {x : Eval α} {cause : Fault}
    (h : x s = .error (.fault cause) s') : attempt x s = .ok (.error cause) s' := by
  simp only [attempt, h]

theorem inside_of_fault {α : Type} {x : Eval α} {function : String} {cause : Fault}
    (h : x s = .error (.fault cause) s') : inside function x s = .error (.fault cause) s' := by
  simp only [inside, h, Stop.inside]

end Eval

open Eval Filter

theorem SpecialForm.Starts.eventually_stops {form : SpecialForm} {parts : List Value}
    {scope : ScopeId} {s s₁ s₂ : Store} {job : Job} {stop : Stop}
    (h : form.Starts parts scope s job s₁) (hjob : EndsWith job s₁ (.error stop s₂)) :
    ∀ᶠ depth in atTop,
      Direct.special (Direct.run depth) form parts scope s = .error stop s₂ := by
  have hjob' := hjob.eventually_direct
  cases h with
  | value =>
    filter_upwards [hjob'] with depth hjob
    exact bind_of_error hjob
  | binding hitems heven hbound =>
    filter_upwards [hjob', hbound.eventually_bindEach] with depth hjob hbound
    refine (bindings_of_even hitems heven _).trans (bind_of_error (hbound.trans ?_))
    exact bind_of_error hjob
  | bodyForm hitems heven hbound hforms =>
    filter_upwards [hbound.eventually_bindEach, hforms.eventually_body_stops hjob]
      with depth hbound hbody
    exact (bindings_of_even hitems heven _).trans ((bind_of_ok hbound).trans hbody)
  | form hforms => exact hforms.eventually_body_stops hjob
  | @condition _ _ alternatives _ _ hcount =>
    filter_upwards [hjob'] with depth hjob
    match alternatives, hcount with
    | [], _ => exact bind_of_error hjob
    | [_], _ => exact bind_of_error hjob
  | @consequent _ _ _ alternatives _ _ _ hcount hcondition hv =>
    filter_upwards [hcondition.eventually_direct, hjob'] with depth hcondition hjob
    match alternatives, hcount with
    | [], _ =>
      refine (bind_of_ok hcondition).trans ?_
      rw [if_pos hv]
      exact hjob
    | [_], _ =>
      refine (bind_of_ok hcondition).trans ?_
      rw [if_pos hv]
      exact hjob
  | alternative hcondition hv =>
    filter_upwards [hcondition.eventually_direct, hjob'] with depth hcondition hjob
    refine (bind_of_ok hcondition).trans ?_
    rw [if_neg hv]
    exact hjob
  | template hcode =>
    filter_upwards [hjob'] with depth hjob
    exact (bind_of_ok hcode).trans hjob
  | expansion => exact hjob'
  | unguarded => exact hjob'
  | handler hclause hname hform =>
    filter_upwards [hform.eventually_direct, hjob'] with depth hform hjob
    unfold Direct.special Direct.protect
    simp only [hclause]
    refine (bind_of_ok (attempt_of_fault hform)).trans ?_
    exact (bind_of_ok rfl).trans ((bind_of_ok (enter_catch hname _)).trans hjob)

namespace Job

/-- A fault that ends a part of a job ends the job. -/
theorem Starts.fault {job job' : Job} {s s' s₁ : Store} {cause : Fault}
    (h : Starts job s job' s₁) (hjob : EndsWith job' s₁ (.error (.fault cause) s')) :
    EndsWith job s (.error (.fault cause) s') := by
  have hjob' := hjob.eventually_direct
  refine endsWith_of_eventually hjob.1 ?_
  cases h with
  | macroBody hcall =>
    filter_upwards [hjob'] with depth hjob
    exact (form_of_entered hcall _).trans (bind_of_error hjob)
  | expanded hcall hbody =>
    filter_upwards [hbody.eventually_direct, hjob'] with depth hbody hjob
    exact (form_of_entered hcall _).trans ((bind_of_ok hbody).trans hjob)
  | special hplain hname hstarts =>
    filter_upwards [hstarts.eventually_stops hjob] with depth hjob
    exact (Direct.form_of_special hplain hname _).trans hjob
  | head hplain hname =>
    filter_upwards [hjob'] with depth hjob
    exact (Direct.form_of_application hplain hname _).trans (bind_of_error hjob)
  | operand hplain hname hhead hargs =>
    filter_upwards [hhead.eventually_direct, hargs.eventually_stops hjob] with depth hhead hargs
    refine (Direct.form_of_application hplain hname _).trans ?_
    exact (bind_of_ok hhead).trans (bind_of_error hargs)
  | application hplain hname hhead hargs =>
    filter_upwards [hhead.eventually_direct, hargs.eventually_values, hjob']
      with depth hhead hargs hjob
    refine (Direct.form_of_application hplain hname _).trans ?_
    exact (bind_of_ok hhead).trans ((bind_of_ok hargs).trans hjob)
  | element hitems =>
    filter_upwards [hitems.eventually_stops hjob] with depth hitems
    exact bind_of_error hitems
  | key hentries =>
    have hkey := hentries.eventually_stops (hjob'.mono fun depth hjob => bind_of_error hjob)
    filter_upwards [hkey] with depth hkey
    exact bind_of_error hkey
  | entry hentries hkey =>
    have hvalue := hentries.eventually_stops
      ((hkey.eventually_direct.and hjob').mono fun depth h =>
        (bind_of_ok h.1).trans (bind_of_error h.2))
    filter_upwards [hvalue] with depth hvalue
    exact bind_of_error hvalue
  | expandBody hcall =>
    filter_upwards [hjob'] with depth hjob
    exact (expand_of_entered hcall _).trans (bind_of_error hjob)
  | expandOn hcall hbody =>
    filter_upwards [hbody.eventually_direct, hjob'] with depth hbody hjob
    exact (expand_of_entered hcall _).trans ((bind_of_ok hbody).trans hjob)
  | closureBody henter =>
    filter_upwards [hjob'] with depth hjob
    exact (bind_of_ok henter).trans hjob
  | applied hspread =>
    filter_upwards [hjob'] with depth hjob
    exact inside_of_fault ((bind_of_ok hspread).trans hjob)
  | swapped =>
    filter_upwards [hjob'] with depth hjob
    exact inside_of_fault ((bind_of_ok rfl).trans ((bind_of_ok rfl).trans (bind_of_error hjob)))
  | evaluated =>
    filter_upwards [hjob'] with depth hjob
    exact inside_of_fault hjob

theorem Reaches.fault {job job' : Job} {s s' s₁ : Store} {cause : Fault}
    (h : Reaches job s job' s₁) (hjob : EndsWith job' s₁ (.error (.fault cause) s')) :
    EndsWith job s (.error (.fault cause) s') := by
  induction h with
  | refl => exact hjob
  | starts hstarts _ ih => exact hstarts.fault (ih hjob)

end Job

end SmallLisp
