import Mathlib.Tactic
import SmallLisp.Proofs.World.Numeric

/-!
# Runs are alike

One pass runs alike on matching jobs when the activations that it starts and the builtins that it
applies do. By induction on the limits, so do all runs of matching jobs, where `eval` evaluates in
the root scopes of the world.
-/

namespace SmallLisp

namespace Eval

/-- What the builtins mean to the interpreter with the given root scope. -/
def rooted (root : ScopeId) : Meaning := fun f nested limit args =>
  inside f.name <|
    match f with
    | .core f => f.run nested limit args
    | .numeric f => f.run args
    | .eval => do nested.eval (← single "eval" args) root

theorem rooted_rootScope : rooted rootScope = runBuiltin := by
  funext f nested limit args
  cases f <;> rfl

end Eval

namespace World

open Eval

variable {root root' : ScopeId} {W W' : World root root'} {nested nested' : Nested}
  {meaning meaning' : Meaning} {form form' : Value} {scope scope' : ScopeId}
  {args args' : List Value}

structure CallsMatch (W : World root root') (c c' : MacroCall) : Prop where
  name : c.name = c'.name
  params : c.params = c'.params
  body : W.Matches c.body c'.body
  scope : W.pairs .scope c.scope c'.scope
  args : W.AllMatch c.args c'.args

theorem macroCall?_rel (hW : W.Agree) (hform : W.Matches form form')
    (hscope : W.pairs .scope scope scope') :
    Option.Rel W.CallsMatch (macroCall? W.left form scope) (macroCall? W.right form' scope') := by
  cases hform with
  | list _ _ hlength hzip _ =>
    rcases List.forall₂_iff_zip.2 ⟨hlength, hzip⟩ with _ | ⟨hhead, hargs⟩
    · exact .none
    cases hhead with
    | sym name =>
      have hfound := lookup?_rel hW hscope name
      unfold macroCall?
      dsimp only
      generalize W.left.lookup? scope name = x, W.right.lookup? scope' name = y at hfound
      cases hfound with
      | none => exact .none
      | @some x y hxy =>
        obtain ⟨-, hvalue⟩ := hxy
        obtain ⟨i, v⟩ := x
        obtain ⟨j, w⟩ := y
        cases hvalue with
        | closure params isMacro _ hbody hcaptured _ =>
          cases isMacro with
          | true => exact .some ⟨rfl, rfl, hbody, hcaptured, hargs⟩
          | false => exact .none
        | _ => exact .none
    | _ => exact .none
  | _ => exact .none

theorem alike_enterCall {captured captured' : ScopeId} (h : W.pairs .scope captured captured')
    (params : List String) (hargs : W.AllMatch args args') :
    W.Alike (enterCall captured params args) (enterCall captured' params args')
      fun W' i j => W'.pairs .scope i j := by
  refine alike_enter h "fn" (List.forall₂_same.2 fun param hparam => ?_) hargs
  obtain ⟨name, -, rfl⟩ := List.mem_map.1 hparam
  exact .sym name

/-- Both expansions are there and match, or neither form is a call of a macro. -/
def ExpansionsMatch (W : World root root') : Option Value → Option Value → Prop :=
  Option.Rel W.Matches

section

variable (hnested : NestedAlike root root' nested nested')
include hnested

theorem alike_expandOnce (hform : W.Matches form form') (hscope : W.pairs .scope scope scope') :
    W.Alike (expandOnce nested form scope) (expandOnce nested' form' scope') ExpansionsMatch := by
  refine alike_of_agree fun hW => alike_get ?_
  have hcall := macroCall?_rel hW hform hscope
  generalize macroCall? W.left form scope = c, macroCall? W.right form' scope' = c' at hcall
  cases hcall with
  | none => exact alike_pure .none
  | @some c c' hc =>
    dsimp only
    rw [hc.name, hc.params]
    apply (alike_debug _ _).bind
    intro _ _ W₁ hW₁ _
    apply (alike_enterCall (hW₁.mono hc.scope) _ (hc.args.later hW₁)).bind
    intro inner inner' W₂ hW₂ hinner
    apply (alike_eval hnested (hc.body.later (hW₁.trans hW₂)) hinner).bind
    intro v w W₃ _ hvw
    exact alike_pure (.some hvw)

theorem alike_evalEntries {entries entries' : List (Value × Value)}
    (hentries : W.EntriesMatch entries entries') (hscope : W.pairs .scope scope scope') :
    W.Alike (evalEntries nested scope entries) (evalEntries nested' scope' entries')
      EntriesMatch := by
  induction entries generalizing W entries' with
  | nil =>
    cases hentries
    exact alike_pure .nil
  | cons entry rest ih =>
    obtain ⟨k, v⟩ := entry
    rcases hentries with _ | ⟨hentry, hrest⟩
    unfold evalEntries
    apply (alike_eval hnested hentry.1 hscope).bind
    intro key key' W₁ hW₁ hkey
    apply (alike_eval hnested (hentry.2.later hW₁) (hW₁.mono hscope)).bind
    intro value value' W₂ hW₂ hvalue
    rw [(hkey.later hW₂).isNone_key?_eq, (hkey.later hW₂).typeName_eq]
    split_ifs
    · exact alike_stop trivial
    · apply (ih (EntriesMatch.later hrest (hW₁.trans hW₂)) ((hW₁.trans hW₂).mono hscope)).bind
      intro pairs pairs' W₃ hW₃ hpairs
      exact alike_pure (.cons ⟨hkey.later (hW₂.trans hW₃), hvalue.later hW₃⟩ hpairs)

theorem alike_evalAtom (hform : W.Matches form form') (hscope : W.pairs .scope scope scope') :
    W.Alike (evalAtom nested form scope) (evalAtom nested' form' scope') Matches := by
  have hmatches := hform
  cases hform with
  | sym name => exact alike_lookup hscope name
  | vec _ hlength hzip _ =>
    have hitems := List.forall₂_iff_zip.2 ⟨hlength, hzip⟩
    exact (alike_evalAll hnested hitems hscope).bind fun _ _ _ _ hvs => alike_newVec hvs
  | map _ _ hlength hkeys hvalues _ =>
    have hentries : W.EntriesMatch _ _ :=
      List.forall₂_iff_zip.2 ⟨hlength, fun hmem => ⟨hkeys hmem, hvalues hmem⟩⟩
    exact (alike_evalEntries hnested hentries hscope).bind fun _ _ _ _ hpairs =>
      alike_newMap hpairs
  | _ => exact alike_pure hmatches

theorem alike_evalList {head head' : Value} (hhead : W.Matches head head')
    (hargs : W.AllMatch args args') (hscope : W.pairs .scope scope scope') :
    W.Alike (evalList nested head args scope) (evalList nested' head' args' scope')
      StepMatches := by
  unfold evalList
  rw [hhead.symbol?_eq]
  split
  · exact alike_special hnested _ hargs hscope
  · apply (alike_eval hnested hhead hscope).bind
    intro f f' W₁ hW₁ hf
    apply (alike_evalAll hnested (hargs.later hW₁) (hW₁.mono hscope)).bind
    intro vs ws W₂ hW₂ hvs
    exact alike_pure (.next (.call (hf.later hW₂) hvs))

theorem alike_evalForm (hform : W.Matches form form') (hscope : W.pairs .scope scope scope') :
    W.Alike (evalForm nested form scope) (evalForm nested' form' scope') StepMatches := by
  have hmatches := hform
  cases hform with
  | list _ _ hlength hzip _ =>
    rcases List.forall₂_iff_zip.2 ⟨hlength, hzip⟩ with _ | ⟨hhead, hargs⟩
    · exact alike_pure (.done hmatches)
    · apply (alike_expandOnce hnested hmatches hscope).bind
      intro expanded expanded' W₁ hW₁ hexpanded
      cases hexpanded with
      | some hexpanded => exact alike_pure (.next (.eval hexpanded (hW₁.mono hscope)))
      | none =>
        exact alike_evalList hnested (hhead.later hW₁) (AllMatch.later hargs hW₁)
          (hW₁.mono hscope)
  | _ =>
    exact (alike_evalAtom hnested hmatches hscope).bind fun _ _ _ _ hv => alike_pure (.done hv)

/-- A builtin that is not `eval` means the same to all interpreters; `eval` evaluates in paired
scopes when it can be come across. -/
theorem alike_rooted (f : Builtin) (hroot : f = .eval → W.pairs .scope root root') (limit : Nat)
    (hargs : W.AllMatch args args') :
    W.Alike (rooted root f nested limit args) (rooted root' f nested' limit args') Matches := by
  apply Alike.inside f.name
  cases f with
  | core f => exact alike_core hnested f limit hargs
  | numeric f => exact alike_numeric hargs f
  | eval =>
    apply (alike_single "eval" hargs).bind
    intro v w W₁ hW₁ hvw
    exact alike_eval hnested hvw (hW₁.mono (hroot rfl))

theorem alike_callValueWith (limit : Nat) {f f' : Value} (hf : W.Matches f f')
    (hargs : W.AllMatch args args') :
    W.Alike (callValueWith (rooted root) nested limit f args)
      (callValueWith (rooted root') nested' limit f' args') StepMatches := by
  have hmatches := hf
  have hcategory := hf.category_eq
  cases hf with
  | builtin f wrapped _ hroot _ =>
    exact (alike_rooted hnested f hroot limit hargs).bind fun _ _ _ _ hv => alike_pure (.done hv)
  | closure params isMacro _ hbody hcaptured _ =>
    apply (alike_enterCall hcaptured params hargs).bind
    intro inner inner' W₁ hW₁ hinner
    exact alike_pure (.next (.eval (hbody.later hW₁) hinner))
  | _ =>
    refine (alike_print .readable hmatches).bind fun shown shown' W₁ _ hshown => ?_
    rw [hcategory, show shown = shown' from hshown]
    exact alike_stop trivial

theorem alike_passWith (limit : Nat) {job job' : Job} (hjob : W.JobMatches job job') :
    W.Alike (passWith (rooted root) nested limit job) (passWith (rooted root') nested' limit job')
      StepMatches := by
  cases hjob with
  | eval hform hscope => exact alike_evalForm hnested hform hscope
  | expand hform hscope =>
    apply (alike_expandOnce hnested hform hscope).bind
    intro expanded expanded' W₁ hW₁ hexpanded
    cases hexpanded with
    | some hexpanded => exact alike_pure (.next (.expand hexpanded (hW₁.mono hscope)))
    | none => exact alike_pure (.done (hform.later hW₁))
  | call hf hargs => exact alike_callValueWith hnested limit hf hargs

end

/-- Matching jobs are done alike by interpreters whose root scopes are those of the world. -/
theorem alike_runWith (root root' : ScopeId) (passes room : Nat) :
    NestedAlike root root' (runWith (rooted root) passes room)
      (runWith (rooted root') passes room) := by
  induction passes generalizing room with
  | zero => exact fun _ => alike_stop trivial
  | succ passes ih =>
    intro W job job' hjob
    have hnested : NestedAlike root root' (nestedWithin (runWith (rooted root) passes) room)
        (nestedWithin (runWith (rooted root') passes) room) := by
      intro W job job' hjob
      cases room with
      | zero => exact alike_stop trivial
      | succ room => exact ih room hjob
    apply (alike_passWith hnested passes hjob).bind
    intro step step' W₁ _ hstep
    cases hstep with
    | done hvw => exact alike_pure hvw
    | next hjob => exact ih room hjob

end World

end SmallLisp
