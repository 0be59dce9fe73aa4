import Mathlib.Tactic
import SmallLisp.Proofs.Discipline.Numeric
import SmallLisp.Proofs.Eval.Meaning

/-!
# Runs keep a discipline

One pass keeps the discipline when the activations that it starts and the builtins that it applies
do. By induction on the limits, so does every run of a job that may be done.
-/

namespace SmallLisp

namespace Discipline

open Eval

variable {D : Discipline} {s : Store} {nested : Nested} {meaning : Meaning}

/-- Builtins that keep the discipline, whatever they mean. -/
def MeaningKeeps (D : Discipline) (meaning : Meaning) : Prop :=
  ∀ f nested limit s args, D.NestedKeeps nested → D.AllHold s args →
    D.Keeps s (meaning f nested limit args) D.Holds

/-- What a macro call is made of may be come across. -/
theorem holds_macroCall (hs : D.Good s) {form : Value} {scope : ScopeId} {call : MacroCall}
    (hform : D.Holds s form) (hscope : D.Current s scope)
    (h : macroCall? s form scope = some call) :
    D.Holds s call.body ∧ D.captured s.scopes.size call.scope ∧ D.AllHold s call.args := by
  unfold macroCall? at h
  split at h
  · next name args _ _ =>
    split at h
    · next params body captured _ hlookup =>
      obtain rfl := Option.some.inj h
      have hmacro := holds_of_lookupFrom hs (D.captured_of_current hscope) hlookup
      cases hmacro with
      | closure _ hbody hcaptured _ =>
        exact ⟨hbody, hcaptured, (List.forall_mem_cons.1 (hform.sequence rfl)).2⟩
    · cases h
  · cases h

theorem keeps_enterCall {captured : ScopeId} (hcaptured : D.captured s.scopes.size captured)
    (params : List String) {args : List Value} (hargs : D.AllHold s args) :
    D.Keeps s (enterCall captured params args) D.Current :=
  keeps_enter hcaptured "fn" _ hargs

theorem keeps_expandOnce (hnested : D.NestedKeeps nested) {form : Value} {scope : ScopeId}
    (hform : D.Holds s form) (hscope : D.Current s scope) :
    D.Keeps s (expandOnce nested form scope) fun s' expanded => ∀ v ∈ expanded, D.Holds s' v := by
  refine keeps_of_good fun hs => keeps_get ?_
  split
  · exact keeps_pure (by simp)
  · next call hcall =>
    obtain ⟨hbody, hcaptured, hargs⟩ := holds_macroCall hs hform hscope hcall
    apply (keeps_debug _ _).bind
    intro _ s₁ hs₁ _
    have hcaptured := D.captured_mono (D.scopes_le hs₁) hcaptured
    refine (keeps_enterCall hcaptured call.params (hargs.later hs₁)).bind
      fun inner s₂ hs₂ hinner => ?_
    apply (keeps_eval hnested ((hbody.later hs₁).later hs₂) hinner).bind
    intro v _ _ hv
    exact keeps_pure (by simpa using hv)

section

variable (hnested : D.NestedKeeps nested)
include hnested

theorem keeps_evalEntries {scope : ScopeId} {entries : List (Value × Value)}
    (hkeys : ∀ e ∈ entries, D.Holds s e.1) (hvalues : ∀ e ∈ entries, D.Holds s e.2)
    (hscope : D.Current s scope) :
    D.Keeps s (evalEntries nested scope entries) (PairsHold D) := by
  induction entries generalizing s with
  | nil => exact keeps_pure (List.forall_mem_nil _)
  | cons entry rest ih =>
    obtain ⟨k, v⟩ := entry
    rw [List.forall_mem_cons] at hkeys hvalues
    unfold evalEntries
    apply (keeps_eval hnested hkeys.1 hscope).bind
    intro key s₁ hs₁ hkey
    have hscope₁ := hscope.later hs₁
    apply (keeps_eval hnested (hvalues.1.later hs₁) hscope₁).bind
    intro value s₂ hs₂ hvalue
    split_ifs with hnone
    · exact keeps_throw trivial
    · have hrest := ih (fun e he => ((hkeys.2 e he).later hs₁).later hs₂)
        (fun e he => ((hvalues.2 e he).later hs₁).later hs₂) (hscope₁.later hs₂)
      refine hrest.bind fun pairs s₃ hs₃ hpairs => keeps_pure ?_
      have hsome : key.key?.isSome = true := by
        simpa [Option.isSome_iff_ne_none] using hnone
      exact List.forall_mem_cons.2
        ⟨⟨⟨(hkey.later hs₂).later hs₃, hsome⟩, hvalue.later hs₃⟩, hpairs⟩

theorem keeps_evalAtom {form : Value} {scope : ScopeId} (hform : D.Holds s form)
    (hscope : D.Current s scope) : D.Keeps s (evalAtom nested form scope) D.Holds := by
  unfold evalAtom
  split
  · exact keeps_lookup hscope _
  · exact (keeps_evalAll hnested (hform.sequence rfl) hscope).bind fun _ _ _ hvs =>
      keeps_newVec hvs
  · cases hform with
    | map hkeys hvalues _ _ =>
      exact (keeps_evalEntries hnested hkeys hvalues hscope).bind fun _ _ _ hpairs =>
        keeps_newMap hpairs
  · exact keeps_pure hform

theorem keeps_evalForm {form : Value} {scope : ScopeId} (hform : D.Holds s form)
    (hscope : D.Current s scope) : D.Keeps s (evalForm nested form scope) D.StepHolds := by
  unfold evalForm
  split
  · exact keeps_pure hform
  · next head args _ _ =>
    have hparts := List.forall_mem_cons.1 (hform.sequence rfl)
    apply (keeps_expandOnce hnested hform hscope).bind
    intro expanded s₁ hs₁ hexpanded
    have hscope₁ := hscope.later hs₁
    split
    · exact keeps_pure ⟨hexpanded _ rfl, hscope₁⟩
    · unfold evalList
      split
      · exact keeps_special hnested _ (AllHold.later hparts.2 hs₁) hscope₁
      · apply (keeps_eval hnested (hparts.1.later hs₁) hscope₁).bind
        intro f s₂ hs₂ hf
        have hargs := AllHold.later (AllHold.later hparts.2 hs₁) hs₂
        apply (keeps_evalAll hnested hargs (hscope₁.later hs₂)).bind
        intro vs s₃ hs₃ hvs
        exact keeps_pure ⟨hf.later hs₃, hvs⟩
  · exact (keeps_evalAtom hnested hform hscope).bind fun _ _ _ hv => keeps_pure hv

theorem keeps_callValueWith (hmeaning : D.MeaningKeeps meaning) (limit : Nat) {f : Value}
    {args : List Value} (hf : D.Holds s f) (hargs : D.AllHold s args) :
    D.Keeps s (callValueWith meaning nested limit f args) D.StepHolds := by
  unfold callValueWith
  split
  · exact (hmeaning _ nested limit s args hnested hargs).bind fun _ _ _ hv => keeps_pure hv
  · unfold callValue
    split
    · cases hf with
      | closure _ hbody hcaptured _ =>
        apply (keeps_enterCall hcaptured _ hargs).bind
        intro inner s₁ hs₁ hinner
        exact keeps_pure ⟨hbody.later hs₁, hinner⟩
    · next f _ _ _ hbuiltin => exact absurd rfl (hbuiltin f _ _ _)
    · exact (keeps_print _ _).bind fun _ _ _ _ => keeps_throw trivial

theorem keeps_passWith (hmeaning : D.MeaningKeeps meaning) (limit : Nat) {job : Job}
    (hjob : D.JobHolds s job) : D.Keeps s (passWith meaning nested limit job) D.StepHolds := by
  cases job with
  | eval form scope => exact keeps_evalForm hnested hjob.1 hjob.2
  | expand form scope =>
    apply (keeps_expandOnce hnested hjob.1 hjob.2).bind
    intro expanded s₁ hs₁ hexpanded
    split
    · exact keeps_pure ⟨hexpanded _ rfl, hjob.2.later hs₁⟩
    · exact keeps_pure (hjob.1.later hs₁)
  | call f args => exact keeps_callValueWith hnested hmeaning limit hjob.1 hjob.2

end

/-- Every run of a job that may be done keeps the discipline, if the builtins do. -/
theorem keeps_runWith (hmeaning : D.MeaningKeeps meaning) (passes room : Nat) :
    D.NestedKeeps (runWith meaning passes room) := by
  induction passes generalizing room with
  | zero => exact fun s job _ => keeps_throw trivial
  | succ passes ih =>
    intro s job hjob
    have hnested : D.NestedKeeps (nestedWithin (runWith meaning passes) room) := by
      intro s job hjob
      cases room with
      | zero => exact keeps_throw trivial
      | succ room => exact ih room s job hjob
    apply (keeps_passWith hnested hmeaning passes hjob).bind
    intro step s₁ _ hstep
    cases step with
    | done v => exact keeps_pure hstep
    | next job => exact ih room s₁ job hstep

/-- A builtin keeps every discipline; `eval` asks that forms may be evaluated in the root scope, and
`reset!` and `swap!` that atoms may be written. -/
theorem keeps_runBuiltin (f : Builtin) (hroot : f = .eval → ∀ count, D.current count rootScope)
    (hwrites : f = .core .reset ∨ f = .core .swap → D.Rewriting) (hnested : D.NestedKeeps nested)
    (limit : Nat) {args : List Value} (hargs : D.AllHold s args) :
    D.Keeps s (runBuiltin f nested limit args) D.Holds := by
  apply Keeps.inside f.name
  cases f with
  | core f => exact keeps_core hnested f limit (fun h => hwrites (by simpa using h)) hargs
  | numeric f => exact keeps_numeric f hargs
  | eval =>
    apply (keeps_single "eval" hargs).bind
    intro form s₁ _ hform
    exact keeps_eval hnested hform (hroot rfl _)

/-- Every run of a job that may be done keeps a discipline in which forms may be evaluated in the
root scope and atoms may be written. -/
theorem keeps_run [D.Rewriting] (hroot : ∀ count, D.current count rootScope) (passes room : Nat) :
    D.NestedKeeps (run passes room) := by
  intro s job hjob
  rw [← runWith_runBuiltin]
  refine keeps_runWith (fun f nested limit s args hnested hargs => ?_) passes room s job hjob
  exact keeps_runBuiltin f (fun _ => hroot) (fun _ => inferInstance) hnested limit hargs

end Discipline

end SmallLisp
