import Mathlib.Tactic
import SmallLisp.Proofs.Interpreter.Reachable

/-!
# Calls of a host

A host reads texts and runs them, has values evaluated that it holds, binds values and makes scopes.
What it has in hand is followed from call to call: the values that it has read, put together, got
back or caught, and the scopes that it has made. A discipline that allows all of this is kept,
whether the calls return or raise, and in the middle of an evaluation too.
-/

namespace SmallLisp

open Eval

def Job.scopes : Job → List ScopeId
  | .eval _ scope => [scope]
  | .expand _ scope => [scope]
  | .call _ _ => []

def Interpreter.reply (text : String) : Eval Value := do return .str (← rep text)

/-- The stores that the calls of a host lead to, with the values and the scopes that are in hand
then. The host makes no closures itself, but takes whatever it comes across. In the middle of an
evaluation the values and the scope of the job that has been started are in hand as well. -/
inductive Hosted (logLevel : Nat) : Store → List Value → List ScopeId → Prop
  | create : Hosted logLevel (Interpreter.create logLevel) [] [rootScope]
  | read {s s' : Store} {vs : List Value} {scopes : List ScopeId} {d : Datum} {v : Value} :
      Hosted logLevel s vs scopes → d.Readable → ofDatum d s = .ok v s' →
      Hosted logLevel s' (v :: vs) scopes
  | compose {s : Store} {vs : List Value} {scopes : List ScopeId} {v : Value} :
      Hosted logLevel s vs scopes → Composed (·.isClosure = false) vs v →
      Hosted logLevel s (v :: vs) scopes
  | take {s : Store} {vs : List Value} {scopes : List ScopeId} {v : Value} :
      Hosted logLevel s vs scopes → Present s vs v → Hosted logLevel s (v :: vs) scopes
  | atom {s : Store} {vs : List Value} {scopes : List ScopeId} {v : Value} :
      Hosted logLevel s vs scopes → v ∈ vs → Hosted logLevel (s.addContent v).2 vs scopes
  | run {s : Store} {vs : List Value} {scopes : List ScopeId} {scope : ScopeId} (text : String) :
      Hosted logLevel s vs scopes → scope ∈ scopes →
      Hosted logLevel ((Interpreter.run text scope).after s)
        (((Interpreter.run text scope).carried? s).toList ++ vs) scopes
  | rep {s : Store} {vs : List Value} {scopes : List ScopeId} (text : String) :
      Hosted logLevel s vs scopes →
      Hosted logLevel ((Interpreter.reply text).after s)
        (((Interpreter.reply text).carried? s).toList ++ vs) scopes
  | evaluate {s : Store} {vs : List Value} {scopes : List ScopeId} {form : Value}
      {scope : ScopeId} :
      Hosted logLevel s vs scopes → form ∈ vs → scope ∈ scopes →
      Hosted logLevel ((Interpreter.evaluate form scope).after s)
        (((Interpreter.evaluate form scope).carried? s).toList ++ vs) scopes
  | define {s : Store} {vs : List Value} {scopes : List ScopeId} {v : Value} (name : String) :
      Hosted logLevel s vs scopes → v ∈ vs →
      Hosted logLevel ((Interpreter.define name v).after s) vs scopes
  | child {s s' : Store} {vs : List Value} {scopes : List ScopeId} {scope : ScopeId}
      {name : String} :
      Hosted logLevel s vs scopes → Interpreter.child name s = .ok scope s' →
      Hosted logLevel s' vs (scope :: scopes)
  | during {s s' : Store} {vs : List Value} {scopes : List ScopeId} {form : Value}
      {scope : ScopeId} {job : Job} :
      Hosted logLevel s vs scopes → form ∈ vs → scope ∈ scopes →
      (Job.eval form scope).Involves s job s' →
      Hosted logLevel s' (job.values ++ vs) (job.scopes ++ scopes)

namespace Discipline

variable {D : Discipline} {s s' : Store} {scope : ScopeId}

section

variable [D.Rewriting] (hroot : ∀ count, D.current count rootScope)
include hroot

theorem keeps_evaluate {form : Value} (hform : D.Holds s form) (hscope : D.Current s scope) :
    D.Keeps s (Interpreter.evaluate form scope) D.Holds :=
  keeps_run hroot _ _ s _ ⟨hform, hscope⟩

theorem keeps_runForms {last : Value} {forms : List Datum} (hlast : D.Holds s last)
    (hforms : ∀ d ∈ forms, d.Readable) (hscope : D.Current s scope) :
    D.Keeps s (Interpreter.runForms scope last forms) D.Holds := by
  induction forms generalizing s last with
  | nil => exact keeps_pure hlast
  | cons form forms ih =>
    obtain ⟨hform, hforms⟩ := List.forall_mem_cons.1 hforms
    apply (keeps_ofDatum hform).bind
    intro v s₁ hs₁ hv
    apply (keeps_evaluate hroot hv (hscope.later hs₁)).bind
    intro value s₂ hs₂ hvalue
    exact ih hvalue hforms ((hscope.later hs₁).later hs₂)

theorem keeps_runText (text : String) (hscope : D.Current s scope) :
    D.Keeps s (Interpreter.run text scope) D.Holds := by
  rw [Interpreter.run_eq]
  have hreadable : ∀ d ∈ (readForms text).1, d.Readable :=
    fun _ => Datum.readable_of_mem_readForms
  apply (keeps_runForms hroot .nil hreadable hscope).bind
  intro v s₁ _ hv
  unfold Interpreter.endWith
  split
  · exact keeps_pure hv
  · next fault _ =>
    apply keeps_throw
    cases fault <;> trivial

theorem keeps_rep (text : String) : D.Keeps s (Interpreter.rep text) fun _ _ => True := by
  apply (keeps_readForm text).bind
  intro form s₁ _ hform
  apply (keeps_evaluate hroot hform (hroot _)).bind
  intro v s₂ _ _
  exact keeps_print _ v

theorem keeps_reply (text : String) : D.Keeps s (Interpreter.reply text) D.Holds :=
  (keeps_rep hroot text).bind fun _ _ _ _ => keeps_pure (.str _)

end

/-- All that is in hand may be come across or worked in. -/
structure InHand (D : Discipline) (s : Store) (vs : List Value) (scopes : List ScopeId) :
    Prop where
  good : D.Good s
  values : D.AllHold s vs
  scopes : ∀ id ∈ scopes, D.Current s id

theorem InHand.later {vs ws : List Value} {scopes : List ScopeId} (h : D.InHand s vs scopes)
    (hkept : D.Good s' ∧ D.later s s' ∧ D.AllHold s' ws) : D.InHand s' (ws ++ vs) scopes := by
  obtain ⟨hgood, hlater, hvalues⟩ := hkept
  exact ⟨hgood, List.forall_mem_append.2 ⟨hvalues, h.values.later hlater⟩,
    fun id hid => (h.scopes id hid).later hlater⟩

theorem current_of_jobHolds {job : Job} (h : D.JobHolds s job) :
    ∀ id ∈ job.scopes, D.Current s id := by
  cases job with
  | eval form scope => exact List.forall_mem_singleton.2 h.2
  | expand form scope => exact List.forall_mem_singleton.2 h.2
  | call f args => exact List.forall_mem_nil _

end Discipline

open Discipline

/-- A discipline that allows what the host makes is kept by all its calls. -/
theorem Hosted.inHand {D : Discipline} [D.Rewriting] (hroot : ∀ count, D.current count rootScope)
    (hcaptured : ∀ count id, id < count → D.captured count id)
    (haddress : ∀ count a, a < count → D.address count a) (hscopes : D.scopeCount = 0)
    (hatoms : D.atomCount = 0)
    (hmakes : ∀ {s v}, v.isClosure = false → (∀ p ∈ v.parts, D.Holds s p) → D.Holds s v)
    {logLevel : Nat} {s : Store} {vs : List Value} {scopes : List ScopeId}
    (h : Hosted logLevel s vs scopes) :
    D.InHand s vs scopes ∧ D.later (Interpreter.create logLevel) s := by
  induction h with
  | create =>
    refine ⟨⟨good_create hscopes hatoms logLevel, List.forall_mem_nil _, ?_⟩, D.refl _⟩
    exact List.forall_mem_singleton.2 (hroot _)
  | read _ hd hread ih =>
    obtain ⟨hhand, hpast⟩ := ih
    have hkept := keeps_ofDatum hd hhand.good
    rw [hread] at hkept
    obtain ⟨hgood, hlater, hv⟩ := hkept
    exact ⟨hhand.later ⟨hgood, hlater, List.forall_mem_singleton.2 hv⟩, D.trans hpast hlater⟩
  | compose _ hv ih =>
    obtain ⟨hhand, hpast⟩ := ih
    have hholds := hv.holds hmakes hhand.values
    exact ⟨⟨hhand.good, List.forall_mem_cons.2 ⟨hholds, hhand.values⟩, hhand.scopes⟩, hpast⟩
  | take _ hpresent ih =>
    obtain ⟨hhand, hpast⟩ := ih
    have hholds := hpresent.holds hhand.good hhand.values hcaptured haddress
    exact ⟨⟨hhand.good, List.forall_mem_cons.2 ⟨hholds, hhand.values⟩, hhand.scopes⟩, hpast⟩
  | @atom s vs scopes v _ hv ih =>
    obtain ⟨hhand, hpast⟩ := ih
    have hlater := (hhand.values v hv).later_addContent
    have hgood := hhand.good.addContent (hhand.values v hv)
    exact ⟨hhand.later ⟨hgood, hlater, List.forall_mem_nil _⟩, D.trans hpast hlater⟩
  | run text _ hscope ih =>
    obtain ⟨hhand, hpast⟩ := ih
    have hkept := (keeps_runText hroot text (hhand.scopes _ hscope) hhand.good).carried
    exact ⟨hhand.later hkept, D.trans hpast hkept.2.1⟩
  | rep text _ ih =>
    obtain ⟨hhand, hpast⟩ := ih
    have hkept := (keeps_reply hroot text hhand.good).carried
    exact ⟨hhand.later hkept, D.trans hpast hkept.2.1⟩
  | evaluate _ hform hscope ih =>
    obtain ⟨hhand, hpast⟩ := ih
    have hkept :=
      (keeps_evaluate hroot (hhand.values _ hform) (hhand.scopes _ hscope) hhand.good).carried
    exact ⟨hhand.later hkept, D.trans hpast hkept.2.1⟩
  | @define s vs scopes v name _ hv ih =>
    obtain ⟨hhand, hpast⟩ := ih
    have hlater := D.bind (hroot s.scopes.size) name v
    have hgood := hhand.good.bind (hroot s.scopes.size) (hhand.values v hv) name
    exact ⟨hhand.later ⟨hgood, hlater, List.forall_mem_nil _⟩, D.trans hpast hlater⟩
  | @child s s' vs scopes scope name _ hchild ih =>
    obtain ⟨hhand, hpast⟩ := ih
    have hkept : D.Kept s D.Current (Interpreter.child name s) :=
      keeps_addScope (D.captured_of_current (hroot _)) name hhand.good
    rw [hchild] at hkept
    obtain ⟨hgood, hlater, hscope⟩ := hkept
    obtain ⟨-, hvalues, hscopes⟩ := hhand.later ⟨hgood, hlater, List.forall_mem_nil _⟩
    exact ⟨⟨hgood, hvalues, List.forall_mem_cons.2 ⟨hscope, hscopes⟩⟩, D.trans hpast hlater⟩
  | @during s s' vs scopes form scope job _ hform hscope hinvolves ih =>
    obtain ⟨hhand, hpast⟩ := ih
    have hjob : D.JobHolds s (.eval form scope) :=
      ⟨hhand.values _ hform, hhand.scopes _ hscope⟩
    have hcomes := comes_of_involves hroot (fun _ _ => trivial) (runsKeep_all hroot) trivial
      hhand.good hjob hinvolves
    obtain ⟨hgood, hvalues, hscopes⟩ :=
      hhand.later ⟨hcomes.good, hcomes.later, allHold_values hcomes.job⟩
    have hall := List.forall_mem_append.2 ⟨current_of_jobHolds hcomes.job, hscopes⟩
    exact ⟨⟨hgood, hvalues, hall⟩, D.trans hpast hcomes.later⟩

end SmallLisp
