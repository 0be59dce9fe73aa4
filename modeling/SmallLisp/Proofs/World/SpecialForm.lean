import Mathlib.Tactic
import SmallLisp.Proofs.World.Scope

/-!
# Special forms run alike

A special form runs alike on matching parts when the activations that it starts do. The jobs that it
hands back match.
-/

namespace SmallLisp.World

open Eval

variable {root root' : ScopeId} {W W' : World root root'} {nested nested' : Nested}
  {v w : Value} {vs ws parts parts' : List Value} {scope scope' : ScopeId}

inductive JobMatches (W : World root root') : Job → Job → Prop
  | eval {form form' : Value} {scope scope' : ScopeId} :
      W.Matches form form' → W.pairs .scope scope scope' →
      JobMatches W (.eval form scope) (.eval form' scope')
  | expand {form form' : Value} {scope scope' : ScopeId} :
      W.Matches form form' → W.pairs .scope scope scope' →
      JobMatches W (.expand form scope) (.expand form' scope')
  | call {f f' : Value} {args args' : List Value} :
      W.Matches f f' → W.AllMatch args args' → JobMatches W (.call f args) (.call f' args')

inductive StepMatches (W : World root root') : Step → Step → Prop
  | done {v w : Value} : W.Matches v w → StepMatches W (.done v) (.done w)
  | next {job job' : Job} : W.JobMatches job job' → StepMatches W (.next job) (.next job')

/-- Activations that do matching jobs alike, whatever the world. -/
def NestedAlike (root root' : ScopeId) (nested nested' : Nested) : Prop :=
  ∀ {W : World root root'} {job job' : Job}, W.JobMatches job job' →
    W.Alike (nested job) (nested' job') Matches

section

variable (hnested : NestedAlike root root' nested nested')
include hnested

theorem alike_eval (hform : W.Matches v w) (hscope : W.pairs .scope scope scope') :
    W.Alike (nested.eval v scope) (nested'.eval w scope') Matches :=
  hnested (.eval hform hscope)

theorem alike_evalAll (hforms : W.AllMatch vs ws) (hscope : W.pairs .scope scope scope') :
    W.Alike (nested.evalAll vs scope) (nested'.evalAll ws scope') AllMatch := by
  refine alike_mapM (fun W v w => W.Matches v w ∧ W.pairs .scope scope scope') ?_ ?_ ?_ ?_
  · exact fun hlater h => ⟨h.1.later hlater, hlater.mono h.2⟩
  · exact fun hlater h => h.later hlater
  · exact fun h => alike_eval hnested h.1 h.2
  · exact hforms.imp fun _ _ h => ⟨h, hscope⟩

end

theorem mapM_symbol?_eq (h : W.AllMatch vs ws) :
    vs.mapM Value.symbol? = ws.mapM Value.symbol? := by
  induction h with
  | nil => rfl
  | cons hv _ ih => rw [List.mapM_cons, List.mapM_cons, hv.symbol?_eq, ih]

theorem parameterNames?_eq (h : W.Matches v w) :
    SpecialForm.parameterNames? v = SpecialForm.parameterNames? w := by
  have hitems := h.sequence
  unfold SpecialForm.parameterNames?
  generalize v.sequence? = items, w.sequence? = items' at hitems
  cases hitems with
  | some hitems => exact mapM_symbol?_eq hitems
  | none => rfl

theorem alike_bodyOf (hforms : W.AllMatch vs ws) :
    W.Alike (SpecialForm.bodyOf vs) (SpecialForm.bodyOf ws) Matches := by
  rcases hforms with _ | ⟨hform, _ | ⟨hnext, hrest⟩⟩
  · exact alike_pure .nil
  · exact alike_pure hform
  · exact alike_newList (.cons (.sym "do") (.cons hform (.cons hnext hrest)))

theorem alike_makeClosure (form : String) (isMacro : Bool) (hparts : W.AllMatch parts parts')
    (hscope : W.pairs .scope scope scope') :
    W.Alike (SpecialForm.makeClosure form isMacro parts scope)
      (SpecialForm.makeClosure form isMacro parts' scope') Matches := by
  cases hparts with
  | nil => exact alike_stop trivial
  | cons hparams hforms =>
    unfold SpecialForm.makeClosure
    dsimp only
    rw [parameterNames?_eq hparams]
    split
    · exact alike_stop trivial
    · next names _ =>
      split_ifs
      · apply (alike_bodyOf hforms).bind
        intro body body' W₁ hW₁ hbody
        apply alike_fresh.bind
        intro i j W₂ hW₂ hij
        have hscope₂ := hW₂.mono (hW₁.mono hscope)
        exact alike_pure (.closure names isMacro hij (hbody.later hW₂) hscope₂ .nil)
      · exact alike_stop trivial

theorem alike_runFunction (hparts : W.AllMatch parts parts')
    (hscope : W.pairs .scope scope scope') :
    W.Alike (SpecialForm.runFunction parts scope) (SpecialForm.runFunction parts' scope')
      StepMatches :=
  (alike_makeClosure _ _ hparts hscope).bind fun _ _ _ _ hvalue => alike_pure (.done hvalue)

theorem alike_runDefineMacro (hparts : W.AllMatch parts parts')
    (hscope : W.pairs .scope scope scope') :
    W.Alike (SpecialForm.runDefineMacro parts scope) (SpecialForm.runDefineMacro parts' scope')
      StepMatches := by
  rcases hparts with _ | ⟨htarget, _ | ⟨hpart, hrest⟩⟩
  · exact alike_stop trivial
  · cases htarget <;> exact alike_stop trivial
  · have hmatches := htarget
    cases htarget with
    | sym name =>
      apply (alike_makeClosure _ true (.cons hpart hrest) hscope).bind
      intro value value' W₁ hW₁ hvalue
      apply (alike_bindValue (hW₁.mono hscope) (.sym name) hvalue).bind
      intro _ _ W₂ hW₂ _
      exact alike_pure (.done (hvalue.later hW₂))
    | _ =>
      exact alike_refusal (fun shown => .form (.macroName shown)) (fun _ => trivial) hmatches

section

variable (hnested : NestedAlike root root' nested nested')
include hnested

theorem alike_runDefine (hparts : W.AllMatch parts parts')
    (hscope : W.pairs .scope scope scope') :
    W.Alike (SpecialForm.runDefine nested parts scope)
      (SpecialForm.runDefine nested' parts' scope') StepMatches := by
  rcases hparts with _ | ⟨htarget, _ | ⟨hform, _ | _⟩⟩
  · exact alike_stop trivial
  · cases htarget <;> exact alike_stop trivial
  · have hmatches := htarget
    cases htarget with
    | sym name =>
      apply (alike_eval hnested hform hscope).bind
      intro value value' W₁ hW₁ hvalue
      apply (alike_bindValue (hW₁.mono hscope) (.sym name) hvalue).bind
      intro _ _ W₂ hW₂ _
      exact alike_pure (.done (hvalue.later hW₂))
    | _ => exact alike_refusal (fun shown => .form (.defName shown)) (fun _ => trivial) hmatches
  · cases htarget <;> exact alike_stop trivial

theorem alike_runBody (hforms : W.AllMatch parts parts') (hscope : W.pairs .scope scope scope') :
    W.Alike (SpecialForm.runBody nested parts scope) (SpecialForm.runBody nested' parts' scope')
      StepMatches := by
  induction parts generalizing W parts' with
  | nil =>
    cases hforms
    exact alike_pure (.done .nil)
  | cons form forms ih =>
    rcases hforms with _ | ⟨hform, _ | ⟨hnext, hrest⟩⟩
    · exact alike_pure (.next (.eval hform hscope))
    · unfold SpecialForm.runBody
      apply (alike_eval hnested hform hscope).discard.bind
      intro _ _ W₁ hW₁ _
      exact ih (AllMatch.later (.cons hnext hrest) hW₁) (hW₁.mono hscope)

theorem alike_runConditional (hparts : W.AllMatch parts parts')
    (hscope : W.pairs .scope scope scope') :
    W.Alike (SpecialForm.runConditional nested parts scope)
      (SpecialForm.runConditional nested' parts' scope') StepMatches := by
  rcases hparts with _ | ⟨hcondition, _ | ⟨hconsequent, _ | ⟨halternative, _ | _⟩⟩⟩
  · exact alike_stop trivial
  · exact alike_stop trivial
  · apply (alike_eval hnested hcondition hscope).bind
    intro value value' W₁ hW₁ hvalue
    rw [hvalue.isTruthy_eq]
    split_ifs
    · exact alike_pure (.next (.eval (hconsequent.later hW₁) (hW₁.mono hscope)))
    · exact alike_pure (.done .nil)
  · apply (alike_eval hnested hcondition hscope).bind
    intro value value' W₁ hW₁ hvalue
    rw [hvalue.isTruthy_eq]
    split_ifs
    · exact alike_pure (.next (.eval (hconsequent.later hW₁) (hW₁.mono hscope)))
    · exact alike_pure (.next (.eval (halternative.later hW₁) (hW₁.mono hscope)))
  · exact alike_stop trivial

theorem alike_bindEach (hitems : W.AllMatch parts parts') (hscope : W.pairs .scope scope scope') :
    W.Alike (SpecialForm.bindEach nested scope parts) (SpecialForm.bindEach nested' scope' parts')
      Same := by
  fun_induction SpecialForm.bindEach nested scope parts generalizing W parts' with
  | case1 name form rest ih =>
    rcases hitems with _ | ⟨htarget, _ | ⟨hform, hrest⟩⟩
    cases htarget
    apply (alike_eval hnested hform hscope).bind
    intro value value' W₁ hW₁ hvalue
    apply (alike_bindValue (hW₁.mono hscope) (.sym name) hvalue).bind
    intro _ _ W₂ hW₂ _
    exact ih (AllMatch.later hrest (hW₁.trans hW₂)) (hW₂.mono (hW₁.mono hscope))
  | case2 target form rest hsymbol =>
    rcases hitems with _ | ⟨htarget, _ | ⟨hform, hrest⟩⟩
    have hmatches := htarget
    cases htarget with
    | sym name => exact absurd rfl (hsymbol name)
    | _ => exact alike_refusal (fun shown => .form (.letName shown)) (fun _ => trivial) hmatches
  | case3 items _ htwo =>
    rcases hitems with _ | ⟨htarget, _ | ⟨hform, hrest⟩⟩
    · exact alike_pure rfl
    · cases htarget <;> exact alike_pure rfl
    · exact absurd rfl (htwo _ _ _)

theorem alike_runBindings (hparts : W.AllMatch parts parts')
    (hscope : W.pairs .scope scope scope') :
    W.Alike (SpecialForm.runBindings nested parts scope)
      (SpecialForm.runBindings nested' parts' scope') StepMatches := by
  cases hparts with
  | nil => exact alike_stop trivial
  | @cons binders binders' _ _ hbinders hbody =>
    have hitems := hbinders.sequence
    unfold SpecialForm.runBindings
    dsimp only
    generalize binders.sequence? = items, binders'.sequence? = items' at hitems
    cases hitems with
    | none => exact alike_stop trivial
    | some hitems =>
      dsimp only
      rw [hitems.length_eq]
      split_ifs
      · exact alike_stop trivial
      · apply (alike_addScope hscope "let").bind
        intro inner inner' W₁ hW₁ hinner
        apply (alike_bindEach hnested (AllMatch.later hitems hW₁) hinner).bind
        intro _ _ W₂ hW₂ _
        exact alike_runBody hnested (AllMatch.later hbody (hW₁.trans hW₂)) (hW₂.mono hinner)

def ClausesMatch (W : World root root') (c c' : String × Value) : Prop :=
  c.1 = c'.1 ∧ W.Matches c.2 c'.2

omit hnested in
theorem catchClause?_rel (h : W.Matches v w) :
    Option.Rel W.ClausesMatch (SpecialForm.catchClause? v) (SpecialForm.catchClause? w) := by
  cases h with
  | list _ _ hlength hzip _ =>
    have hitems := List.forall₂_iff_zip.2 ⟨hlength, hzip⟩
    rcases hitems with _ | ⟨hhead, _ | ⟨hname, _ | ⟨hhandler, _ | _⟩⟩⟩
    · exact .none
    · exact .none
    · cases hname <;> exact .none
    · cases hname with
      | sym name =>
        unfold SpecialForm.catchClause? Value.isSymbol
        dsimp only
        rw [hhead.symbol?_eq]
        split_ifs
        · exact .some ⟨rfl, hhandler⟩
        · exact .none
      | _ => exact .none
    · cases hname <;> exact .none
  | _ => exact .none

omit hnested in
theorem StopsMatch.caught {cause cause' : Fault}
    (h : W.StopsMatch (.fault cause) (.fault cause')) :
    cause.kind = cause'.kind ∧ cause.message = cause'.message ∧
      W.Matches cause.caught cause'.caught := by
  cases h with
  | raised shown hvw => exact ⟨rfl, rfl, hvw⟩
  | plain _ hplain =>
    refine ⟨rfl, rfl, ?_⟩
    cases cause with
    | raised => exact hplain.elim
    | _ => exact .str _

theorem alike_protected {body body' clause clause' : Value} (hbody : W.Matches body body')
    (hclause : W.Matches clause clause') (hscope : W.pairs .scope scope scope') :
    W.Alike (SpecialForm.runProtect nested [body, clause] scope)
      (SpecialForm.runProtect nested' [body', clause'] scope') StepMatches := by
  have hcatch := catchClause?_rel hclause
  unfold SpecialForm.runProtect
  dsimp only
  generalize SpecialForm.catchClause? clause = c, SpecialForm.catchClause? clause' = c' at hcatch
  cases hcatch with
  | none => exact alike_stop trivial
  | @some c c' hc =>
    obtain ⟨name, handler⟩ := c
    obtain ⟨name', handler'⟩ := c'
    obtain ⟨rfl, hhandler⟩ := hc
    apply (alike_eval hnested hbody hscope).attempt.bind
    intro outcome outcome' W₁ hW₁ houtcome
    cases houtcome with
    | ok hv => exact alike_pure (.done hv)
    | @error cause cause' hstop =>
      obtain ⟨hkind, hmessage, hcaught⟩ := hstop.caught
      dsimp only
      rw [hkind, hmessage]
      apply (alike_debug _ _).bind
      intro _ _ W₂ hW₂ _
      have hscope₂ := hW₂.mono (hW₁.mono hscope)
      refine (alike_enter hscope₂ "catch" (.cons (.sym name) .nil)
        (.cons (hcaught.later hW₂) .nil)).bind fun inner inner' W₃ hW₃ hinner => ?_
      exact alike_pure (.next (.eval (hhandler.later (hW₁.trans (hW₂.trans hW₃))) hinner))

theorem alike_runProtect (hparts : W.AllMatch parts parts')
    (hscope : W.pairs .scope scope scope') :
    W.Alike (SpecialForm.runProtect nested parts scope)
      (SpecialForm.runProtect nested' parts' scope') StepMatches := by
  rcases hparts with _ | ⟨hbody, _ | ⟨hclause, _ | _⟩⟩
  · exact alike_stop trivial
  · exact (alike_eval hnested hbody hscope).bind fun _ _ _ _ hv => alike_pure (.done hv)
  · exact alike_protected hnested hbody hclause hscope
  · exact alike_stop trivial

end

theorem alike_templateForm (head : String) {args args' : List Value}
    (hargs : W.AllMatch args args') :
    W.Alike (Template.form head args) (Template.form head args') Matches :=
  alike_newList (.cons (.sym head) hargs)

theorem isSymbol_eq (h : W.Matches v w) (name : String) : v.isSymbol name = w.isSymbol name := by
  rw [Value.isSymbol, Value.isSymbol, h.symbol?_eq]

theorem spliced?_rel (h : W.Matches v w) :
    Option.Rel W.AllMatch (Template.spliced? v) (Template.spliced? w) := by
  have hitems := h.sequence
  unfold Template.spliced?
  generalize v.sequence? = items, w.sequence? = items' at hitems
  cases hitems with
  | none => exact .none
  | some hitems =>
    cases hitems with
    | nil => exact .none
    | cons hhead hrest =>
      dsimp only
      rw [isSymbol_eq hhead]
      split_ifs
      · exact .some hrest
      · exact .none

theorem isEmpty_eq (h : W.AllMatch vs ws) : vs.isEmpty = ws.isEmpty := by
  cases h <;> rfl

mutual

theorem alike_code : (t : Value) → {t' : Value} → {W : World root root'} → W.Matches t t' →
    W.Alike (Template.code t) (Template.code t') Matches
  | .list id items marked info, _, W, h => by
    have hmatches := h
    cases h with
    | list _ _ hlength hzip _ =>
      have hitems : W.AllMatch items _ := List.forall₂_iff_zip.2 ⟨hlength, hzip⟩
      unfold Template.code
      rw [isEmpty_eq hitems]
      split_ifs
      · exact alike_templateForm "quote" (.cons hmatches .nil)
      · exact alike_codeOfItems items hitems
  | .vec id items info, _, W, h => by
    have hmatches := h
    cases h with
    | vec _ hlength hzip _ =>
      have hitems : W.AllMatch items _ := List.forall₂_iff_zip.2 ⟨hlength, hzip⟩
      unfold Template.code
      rw [isEmpty_eq hitems]
      split_ifs
      · exact alike_templateForm "quote" (.cons hmatches .nil)
      · exact alike_codeOfItems items hitems
  | .nil, _, _, h | .bool _, _, _, h | .int _, _, _, h | .float _, _, _, h | .nan _, _, _, h
  | .str _, _, _, h | .sym _, _, _, h | .kw _, _, _, h | .map .., _, _, h | .pair .., _, _, h
  | .atom _, _, _, h | .closure .., _, _, h | .builtin .., _, _, h => by
    have hquote := alike_templateForm "quote" (List.Forall₂.cons h .nil)
    cases h
    exact hquote

theorem alike_codeOfItems : (items : List Value) → {items' : List Value} →
    {W : World root root'} → W.AllMatch items items' →
    W.Alike (Template.codeOfItems items) (Template.codeOfItems items') Matches
  | [], _, _, h => by
    cases h
    unfold Template.codeOfItems
    apply (alike_newList .nil).bind
    intro v w W₁ _ hvw
    exact alike_templateForm "quote" (.cons hvw .nil)
  | head :: rest, _, W, h => by
    cases h with
    | @cons _ head' _ rest' hhead hrest =>
      have hspliced := spliced?_rel hhead
      unfold Template.codeOfItems
      rw [isSymbol_eq hhead]
      split_ifs
      · rcases hrest with _ | ⟨hunquoted, _ | _⟩
        · exact alike_stop trivial
        · exact alike_pure hunquoted
        · exact alike_stop trivial
      · generalize Template.spliced? head = forms, Template.spliced? head' = forms' at hspliced
        cases hspliced with
        | none =>
          apply (alike_code head hhead).bind
          intro first first' W₁ hW₁ hfirst
          apply (alike_codeOfItems rest (AllMatch.later hrest hW₁)).bind
          intro tail tail' W₂ hW₂ htail
          exact alike_templateForm "cons" (.cons (hfirst.later hW₂) (.cons htail .nil))
        | some hforms =>
          rcases hforms with _ | ⟨hsequence, _ | _⟩
          · exact alike_stop trivial
          · apply (alike_codeOfItems rest hrest).bind
            intro tail tail' W₁ hW₁ htail
            exact alike_templateForm "concat" (.cons (hsequence.later hW₁) (.cons htail .nil))
          · exact alike_stop trivial

end

theorem alike_special (hnested : NestedAlike root root' nested nested') (form : SpecialForm)
    (hparts : W.AllMatch parts parts') (hscope : W.pairs .scope scope scope') :
    W.Alike (form.run nested parts scope) (form.run nested' parts' scope') StepMatches := by
  cases form with
  | define => exact alike_runDefine hnested hparts hscope
  | bindings => exact alike_runBindings hnested hparts hscope
  | defineMacro => exact alike_runDefineMacro hparts hscope
  | protect => exact alike_runProtect hnested hparts hscope
  | sequence => exact alike_runBody hnested hparts hscope
  | conditional => exact alike_runConditional hnested hparts hscope
  | function => exact alike_runFunction hparts hscope
  | quotation =>
    rcases hparts with _ | ⟨hform, _ | _⟩
    · exact alike_stop trivial
    · exact alike_pure (.done hform)
    · exact alike_stop trivial
  | template =>
    rcases hparts with _ | ⟨hform, _ | _⟩
    · exact alike_stop trivial
    · apply (alike_code _ hform).bind
      intro code code' W₁ hW₁ hcode
      exact alike_pure (.next (.eval hcode (hW₁.mono hscope)))
    · exact alike_stop trivial
  | expansion =>
    rcases hparts with _ | ⟨hform, _ | _⟩
    · exact alike_stop trivial
    · exact alike_pure (.next (.expand hform hscope))
    · exact alike_stop trivial
  | scopeChain =>
    cases hparts with
    | nil =>
      refine alike_of_agree fun hW => alike_get ?_
      rw [chainText_eq hW (chain_rel hW hscope)]
      exact alike_pure (.done (.str _))
    | cons => exact alike_stop trivial
  | scopesOf =>
    rcases hparts with _ | ⟨hsymbol, _ | _⟩
    · exact alike_stop trivial
    · cases hsymbol with
      | sym name =>
        refine alike_of_agree fun hW => alike_get ?_
        rw [ownersText_eq hW hscope name]
        exact alike_pure (.done (.str _))
      | _ => exact alike_stop trivial
    · cases hsymbol <;> exact alike_stop trivial

end SmallLisp.World
