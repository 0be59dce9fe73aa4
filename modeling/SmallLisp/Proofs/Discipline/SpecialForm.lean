import Mathlib.Tactic
import SmallLisp.Proofs.Discipline.Scope
import SmallLisp.Proofs.Eval.Trampoline

/-!
# Special forms keep a discipline

A special form keeps the discipline when the activations that it starts do. The job that it hands
back is one that may be done in the store in which it is handed back.
-/

namespace SmallLisp

namespace Discipline

open Eval

variable {D : Discipline} {s : Store} {nested : Nested}

def JobHolds (D : Discipline) (s : Store) : Job → Prop
  | .eval form scope => D.Holds s form ∧ D.Current s scope
  | .expand form scope => D.Holds s form ∧ D.Current s scope
  | .call f args => D.Holds s f ∧ D.AllHold s args

def StepHolds (D : Discipline) (s : Store) : Step → Prop
  | .done v => D.Holds s v
  | .next job => D.JobHolds s job

/-- Activations that keep the discipline on every job that may be done. -/
def NestedKeeps (D : Discipline) (nested : Nested) : Prop :=
  ∀ s job, D.JobHolds s job → D.Keeps s (nested job) D.Holds

theorem Holds.sequence {v : Value} {items : List Value} (h : D.Holds s v)
    (hitems : v.sequence? = some items) : D.AllHold s items := by
  cases h with
  | list hall _ =>
    obtain rfl := Option.some.inj hitems
    exact hall
  | vec hall _ =>
    obtain rfl := Option.some.inj hitems
    exact hall
  | _ => cases hitems

section

variable (hnested : D.NestedKeeps nested)
include hnested

theorem keeps_eval {form : Value} {scope : ScopeId} (hform : D.Holds s form)
    (hscope : D.Current s scope) : D.Keeps s (nested.eval form scope) D.Holds :=
  hnested s (.eval form scope) ⟨hform, hscope⟩

theorem keeps_evalAll {forms : List Value} {scope : ScopeId} (hforms : D.AllHold s forms)
    (hscope : D.Current s scope) : D.Keeps s (nested.evalAll forms scope) D.AllHold := by
  refine keeps_mapM (fun s form => D.Holds s form ∧ D.Current s scope) ?_ ?_ ?_ ?_
  · exact fun form s s' hlater h => ⟨h.1.later hlater, h.2.later hlater⟩
  · exact fun v s s' hlater h => h.later hlater
  · exact fun form s h => keeps_eval hnested h.1 h.2
  · exact fun form hform => ⟨hforms form hform, hscope⟩

end

section

variable (hnested : D.NestedKeeps nested)
include hnested

theorem keeps_runDefine {parts : List Value} {scope : ScopeId} (hparts : D.AllHold s parts)
    (hscope : D.Current s scope) :
    D.Keeps s (SpecialForm.runDefine nested parts scope) D.StepHolds := by
  unfold SpecialForm.runDefine
  split
  · next name form =>
    have hform : D.Holds s form := hparts form (by simp)
    apply (keeps_eval hnested hform hscope).bind
    intro value s₁ hs₁ hvalue
    apply (keeps_bindValue (hscope.later hs₁) _ hvalue).bind
    intro _ s₂ hs₂ _
    exact keeps_pure (hvalue.later hs₂)
  · exact (keeps_represent _).bind fun _ _ _ _ => keeps_throw trivial
  · exact keeps_throw trivial

end

theorem keeps_bodyOf {forms : List Value} (hforms : D.AllHold s forms) :
    D.Keeps s (SpecialForm.bodyOf forms) D.Holds := by
  unfold SpecialForm.bodyOf
  split
  · exact keeps_pure .nil
  · exact keeps_pure (hforms _ (by simp))
  · exact keeps_newList (List.forall_mem_cons.2 ⟨.sym "do", hforms⟩)

theorem keeps_makeClosure (form : String) (isMacro : Bool) {parts : List Value}
    {scope : ScopeId} (hparts : D.AllHold s parts) (hscope : D.Current s scope) :
    D.Keeps s (SpecialForm.makeClosure form isMacro parts scope) D.Holds := by
  unfold SpecialForm.makeClosure
  split
  · exact keeps_throw trivial
  · next params forms =>
    have hforms := (List.forall_mem_cons.1 hparts).2
    split
    · exact keeps_throw trivial
    · next names _ =>
      split_ifs with hplaced
      · apply (keeps_bodyOf hforms).bind
        intro body s₁ hs₁ hbody
        refine keeps_fresh.bind fun id s₂ hs₂ _ => keeps_pure ?_
        have hcaptured := D.captured_of_current ((hscope.later hs₁).later hs₂)
        exact .closure (D.params_ok hplaced) (hbody.later hs₂) hcaptured .nil
      · exact keeps_throw trivial

theorem keeps_runFunction {parts : List Value} {scope : ScopeId} (hparts : D.AllHold s parts)
    (hscope : D.Current s scope) : D.Keeps s (SpecialForm.runFunction parts scope) D.StepHolds :=
  (keeps_makeClosure _ _ hparts hscope).bind fun _ _ _ hvalue => keeps_pure hvalue

theorem keeps_runDefineMacro {parts : List Value} {scope : ScopeId} (hparts : D.AllHold s parts)
    (hscope : D.Current s scope) :
    D.Keeps s (SpecialForm.runDefineMacro parts scope) D.StepHolds := by
  unfold SpecialForm.runDefineMacro
  split
  · next name part parts =>
    have hparts := (List.forall_mem_cons.1 hparts).2
    apply (keeps_makeClosure _ _ hparts hscope).bind
    intro value s₁ hs₁ hvalue
    apply (keeps_bindValue (hscope.later hs₁) _ hvalue).bind
    intro _ s₂ hs₂ _
    exact keeps_pure (hvalue.later hs₂)
  · exact (keeps_represent _).bind fun _ _ _ _ => keeps_throw trivial
  · exact keeps_throw trivial

theorem holds_handler {clause handler : Value} {name : String} (h : D.Holds s clause)
    (hcatch : SpecialForm.catchClause? clause = some (name, handler)) : D.Holds s handler := by
  unfold SpecialForm.catchClause? at hcatch
  split at hcatch
  · split_ifs at hcatch
    obtain ⟨-, rfl⟩ := Prod.mk.inj (Option.some.inj hcatch)
    exact h.sequence rfl _ (by simp)
  · cases hcatch

theorem holds_caught {cause : Fault} (h : D.StopHolds s (.fault cause)) :
    D.Holds s cause.caught := by
  cases cause with
  | raised value shown => exact h
  | _ => exact .str _

section

variable (hnested : D.NestedKeeps nested)
include hnested

theorem keeps_runBody {forms : List Value} {scope : ScopeId} (hforms : D.AllHold s forms)
    (hscope : D.Current s scope) :
    D.Keeps s (SpecialForm.runBody nested forms scope) D.StepHolds := by
  fun_induction SpecialForm.runBody nested forms scope generalizing s with
  | case1 => exact keeps_pure .nil
  | case2 form => exact keeps_pure ⟨hforms form (by simp), hscope⟩
  | case3 form forms _ ih =>
    have hforms := List.forall_mem_cons.1 hforms
    apply (keeps_eval hnested hforms.1 hscope).discard.bind
    intro _ s₁ hs₁ _
    exact ih (AllHold.later hforms.2 hs₁) (hscope.later hs₁)

theorem keeps_runConditional {parts : List Value} {scope : ScopeId}
    (hparts : D.AllHold s parts) (hscope : D.Current s scope) :
    D.Keeps s (SpecialForm.runConditional nested parts scope) D.StepHolds := by
  unfold SpecialForm.runConditional
  split
  · next condition consequent =>
    have hcondition : D.Holds s condition := hparts condition (by simp)
    have hconsequent : D.Holds s consequent := hparts consequent (by simp)
    apply (keeps_eval hnested hcondition hscope).bind
    intro value s₁ hs₁ _
    split_ifs
    · exact keeps_pure ⟨hconsequent.later hs₁, hscope.later hs₁⟩
    · exact keeps_pure .nil
  · next condition consequent alternative =>
    have hcondition : D.Holds s condition := hparts condition (by simp)
    have hconsequent : D.Holds s consequent := hparts consequent (by simp)
    have halternative : D.Holds s alternative := hparts alternative (by simp)
    apply (keeps_eval hnested hcondition hscope).bind
    intro value s₁ hs₁ _
    split_ifs
    · exact keeps_pure ⟨hconsequent.later hs₁, hscope.later hs₁⟩
    · exact keeps_pure ⟨halternative.later hs₁, hscope.later hs₁⟩
  · exact keeps_throw trivial

theorem keeps_bindEach {items : List Value} {scope : ScopeId} (hitems : D.AllHold s items)
    (hscope : D.Current s scope) :
    D.Keeps s (SpecialForm.bindEach nested scope items) fun _ _ => True := by
  fun_induction SpecialForm.bindEach nested scope items generalizing s with
  | case1 name form rest ih =>
    have hform : D.Holds s form := hitems form (by simp)
    have hrest : D.AllHold s rest := fun v hv => hitems v (by simp [hv])
    apply (keeps_eval hnested hform hscope).bind
    intro value s₁ hs₁ hvalue
    apply (keeps_bindValue (hscope.later hs₁) _ hvalue).bind
    intro _ s₂ hs₂ _
    exact ih ((hrest.later hs₁).later hs₂) ((hscope.later hs₁).later hs₂)
  | case2 target form rest _ => exact (keeps_represent _).bind fun _ _ _ _ => keeps_throw trivial
  | case3 => exact keeps_pure trivial

theorem keeps_runBindings {parts : List Value} {scope : ScopeId} (hparts : D.AllHold s parts)
    (hscope : D.Current s scope) :
    D.Keeps s (SpecialForm.runBindings nested parts scope) D.StepHolds := by
  unfold SpecialForm.runBindings
  split
  · exact keeps_throw trivial
  · next binders body =>
    have hparts := List.forall_mem_cons.1 hparts
    split
    · exact keeps_throw trivial
    · next items hitems =>
      have hitems := Holds.sequence hparts.1 hitems
      split_ifs
      · exact keeps_throw trivial
      · have hcaptured := D.captured_of_current hscope
        apply (keeps_addScope hcaptured "let").bind
        intro inner s₁ hs₁ hinner
        apply (keeps_bindEach hnested (hitems.later hs₁) hinner).bind
        intro _ s₂ hs₂ _
        have hbody := AllHold.later (AllHold.later hparts.2 hs₁) hs₂
        exact keeps_runBody hnested hbody (hinner.later hs₂)

theorem keeps_runProtect {parts : List Value} {scope : ScopeId} (hparts : D.AllHold s parts)
    (hscope : D.Current s scope) :
    D.Keeps s (SpecialForm.runProtect nested parts scope) D.StepHolds := by
  unfold SpecialForm.runProtect
  split
  · next body =>
    have hbody : D.Holds s body := hparts body (by simp)
    exact (keeps_eval hnested hbody hscope).bind fun _ _ _ hvalue => keeps_pure hvalue
  · next body clause =>
    have hbody : D.Holds s body := hparts body (by simp)
    have hclause : D.Holds s clause := hparts clause (by simp)
    split
    · exact keeps_throw trivial
    · next name handler hcatch =>
      have hhandler : D.Holds s handler := holds_handler hclause hcatch
      apply (keeps_eval hnested hbody hscope).attempt.bind
      intro outcome s₁ hs₁ houtcome
      cases outcome with
      | ok value => exact keeps_pure houtcome
      | error cause =>
        apply (keeps_debug _ _).bind
        intro _ s₂ hs₂ _
        have hcaught := (holds_caught houtcome).later hs₂
        have hcaptured := D.captured_of_current ((hscope.later hs₁).later hs₂)
        refine (keeps_enter hcaptured "catch" _ (List.forall_mem_singleton.2 hcaught)).bind
          fun inner s₃ hs₃ hinner => ?_
        exact keeps_pure ⟨((hhandler.later hs₁).later hs₂).later hs₃, hinner⟩
  · exact keeps_throw trivial

end

theorem keeps_templateForm (head : String) {args : List Value} (hargs : D.AllHold s args) :
    D.Keeps s (Template.form head args) D.Holds :=
  keeps_newList (List.forall_mem_cons.2 ⟨.sym head, hargs⟩)

theorem AllHold.spliced {head : Value} {forms : List Value} (h : D.Holds s head)
    (hspliced : Template.spliced? head = some forms) : D.AllHold s forms := by
  unfold Template.spliced? at hspliced
  split at hspliced
  · next first args hsequence =>
    split_ifs at hspliced
    obtain rfl := Option.some.inj hspliced
    exact (List.forall_mem_cons.1 (h.sequence hsequence)).2
  · cases hspliced

mutual

/-- The code of a template is made of the parts of the template. -/
theorem keeps_code : (t : Value) → {s : Store} → D.Holds s t →
    D.Keeps s (Template.code t) D.Holds
  | .list id items marked info, s, h => by
    unfold Template.code
    split_ifs
    · exact keeps_templateForm "quote" (List.forall_mem_singleton.2 h)
    · exact keeps_codeOfItems items (h.sequence rfl)
  | .vec id items info, s, h => by
    unfold Template.code
    split_ifs
    · exact keeps_templateForm "quote" (List.forall_mem_singleton.2 h)
    · exact keeps_codeOfItems items (h.sequence rfl)
  | .nil, _, h | .bool _, _, h | .int _, _, h | .float _, _, h | .nan _, _, h | .str _, _, h
  | .sym _, _, h | .kw _, _, h | .map .., _, h | .pair .., _, h | .atom _, _, h
  | .closure .., _, h | .builtin .., _, h =>
    keeps_templateForm "quote" (List.forall_mem_singleton.2 h)

theorem keeps_codeOfItems : (items : List Value) → {s : Store} → D.AllHold s items →
    D.Keeps s (Template.codeOfItems items) D.Holds
  | [], s, _ => by
    unfold Template.codeOfItems
    apply (keeps_newList (List.forall_mem_nil _)).bind
    intro v s₁ _ hv
    exact keeps_templateForm "quote" (List.forall_mem_singleton.2 hv)
  | head :: rest, s, h => by
    have h := List.forall_mem_cons.1 h
    unfold Template.codeOfItems
    split_ifs
    · split
      · exact keeps_pure (h.2 _ (by simp))
      · exact keeps_throw trivial
    · split
      · next sequence hspliced =>
        have hsequence := AllHold.spliced h.1 hspliced sequence (by simp)
        apply (keeps_codeOfItems rest h.2).bind
        intro tail s₁ hs₁ htail
        exact keeps_templateForm "concat" (List.forall_mem_cons.2
          ⟨hsequence.later hs₁, List.forall_mem_singleton.2 htail⟩)
      · exact keeps_throw trivial
      · apply (keeps_code head h.1).bind
        intro first s₁ hs₁ hfirst
        apply (keeps_codeOfItems rest (AllHold.later h.2 hs₁)).bind
        intro tail s₂ hs₂ htail
        exact keeps_templateForm "cons" (List.forall_mem_cons.2
          ⟨hfirst.later hs₂, List.forall_mem_singleton.2 htail⟩)

end

theorem keeps_special (hnested : D.NestedKeeps nested) (form : SpecialForm) {parts : List Value}
    {scope : ScopeId} (hparts : D.AllHold s parts) (hscope : D.Current s scope) :
    D.Keeps s (form.run nested parts scope) D.StepHolds := by
  cases form with
  | define => exact keeps_runDefine hnested hparts hscope
  | bindings => exact keeps_runBindings hnested hparts hscope
  | defineMacro => exact keeps_runDefineMacro hparts hscope
  | protect => exact keeps_runProtect hnested hparts hscope
  | sequence => exact keeps_runBody hnested hparts hscope
  | conditional => exact keeps_runConditional hnested hparts hscope
  | function => exact keeps_runFunction hparts hscope
  | quotation =>
    unfold SpecialForm.run SpecialForm.runQuotation
    dsimp only
    split
    · exact keeps_pure (hparts _ (by simp))
    · exact keeps_throw trivial
  | template =>
    unfold SpecialForm.run SpecialForm.runTemplate
    dsimp only
    split
    · next form =>
      have hform : D.Holds s form := hparts form (by simp)
      apply (keeps_code form hform).bind
      intro code s₁ hs₁ hcode
      exact keeps_pure ⟨hcode, hscope.later hs₁⟩
    · exact keeps_throw trivial
  | expansion =>
    unfold SpecialForm.run SpecialForm.runExpansion
    dsimp only
    split
    · exact keeps_pure ⟨hparts _ (by simp), hscope⟩
    · exact keeps_throw trivial
  | scopeChain =>
    unfold SpecialForm.run SpecialForm.runScopeChain
    dsimp only
    split
    · exact keeps_get (keeps_pure (.str _))
    · exact keeps_throw trivial
  | scopesOf =>
    unfold SpecialForm.run SpecialForm.runScopesOf
    dsimp only
    split
    · exact keeps_get (keeps_pure (.str _))
    · exact keeps_throw trivial

end Discipline

end SmallLisp
