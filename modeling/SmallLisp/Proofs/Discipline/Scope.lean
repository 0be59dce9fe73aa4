import Mathlib.Tactic
import SmallLisp.Proofs.Discipline.Keeps
import SmallLisp.Proofs.Value.TextFault

/-!
# Texts, scopes and bindings

Making a text of a value leaves the store alone. A symbol is looked up from a scope outwards, and
the new scope of a call, a `let` or a handler is one in which forms may be evaluated.
-/

namespace SmallLisp

namespace Discipline

open Eval

variable {D : Discipline} {s : Store}

theorem stopHolds_of_isLimit {stop : Stop} (h : stop.IsLimit) : D.StopHolds s stop := by
  cases stop with
  | fault cause => exact h.elim
  | _ => trivial

theorem keeps_ofExcept {α : Type} {x : Except Stop α} (h : StopsWith Stop.IsLimit x) :
    D.Keeps s (Eval.ofExcept x) fun _ _ => True := by
  cases x with
  | ok a => exact keeps_pure trivial
  | error stop => exact keeps_throw (stopHolds_of_isLimit (h stop rfl))

theorem keeps_represent (v : Value) : D.Keeps s (represent v) fun _ _ => True :=
  keeps_get (keeps_ofExcept (s.meetsLimits_represent v))

theorem keeps_print (mode : PrintMode) (v : Value) : D.Keeps s (print mode v) fun _ _ => True :=
  keeps_get (keeps_ofExcept (s.meetsLimits_print mode v))

theorem keeps_printJoined (mode : PrintMode) (separator : String) (vs : List Value) :
    D.Keeps s (printJoined mode separator vs) fun _ _ => True :=
  keeps_get (keeps_ofExcept (s.meetsLimits_printJoined mode separator vs))

theorem keeps_debug (logger message : String) :
    D.Keeps s (debug logger message) fun _ _ => True := by
  have hlater := D.record s logger message
  refine keeps_modify (fun hs => hs.congr hlater ?_ ?_) hlater
  · unfold Store.record
    split_ifs <;> rfl
  · unfold Store.record
    split_ifs <;> rfl

theorem lt_of_scope? {id : ScopeId} {scope : Scope} (h : s.scope? id = some scope) :
    id < s.scopes.size := by
  obtain ⟨hlt, -⟩ := Array.getElem?_eq_some_iff.1 h
  exact hlt

theorem holds_of_lookupFrom (hs : D.Good s) {name : String} {bound : Nat} {id owner : ScopeId}
    {v : Value} (hid : D.captured s.scopes.size id)
    (h : s.lookupFrom name bound id = some (owner, v)) : D.Holds s v := by
  induction bound generalizing id with
  | zero => cases h
  | succ bound ih =>
    unfold Store.lookupFrom at h
    cases hscope : s.scope? id with
    | none => simp [hscope] at h
    | some scope =>
      simp only [hscope] at h
      cases hbinding : scope.bindings.get? name with
      | some value =>
        simp only [hbinding, Option.some.injEq, Prod.mk.injEq] at h
        obtain ⟨-, rfl⟩ := h
        have hown : s.own? id name = some value := by simp [Store.own?, hscope, hbinding]
        exact hs.binding hid hown
      | none =>
        simp only [hbinding] at h
        cases houter : scope.outer with
        | none => simp [houter] at h
        | some outer =>
          simp only [houter] at h
          have hcaptured := hs.outer hid hscope houter
          exact ih (D.captured_mono (lt_of_scope? hscope).le hcaptured) h

theorem keeps_lookup {scope : ScopeId} (hscope : D.current s.scopes.size scope) (name : String) :
    D.Keeps s (lookup scope name) D.Holds := by
  refine keeps_of_good fun hs => keeps_get ?_
  cases hlookup : s.lookup? scope name with
  | none => exact keeps_throw trivial
  | some found =>
    exact keeps_pure (holds_of_lookupFrom hs (D.captured_of_current hscope) hlookup)

def Current (D : Discipline) (s : Store) (scope : ScopeId) : Prop := D.current s.scopes.size scope

theorem Current.later {s' : Store} {scope : ScopeId} (h : D.Current s scope)
    (hlater : D.later s s') : D.Current s' scope := D.current_mono (D.scopes_le hlater) h

theorem keeps_bindValue {scope : ScopeId} (hscope : D.Current s scope) (target : Value)
    {value : Value} (hvalue : D.Holds s value) :
    D.Keeps s (bindValue scope target value) fun _ _ => True := by
  unfold bindValue
  split
  · next name =>
    exact keeps_modify (fun hs => hs.bind hscope hvalue name) (D.bind hscope name value)
  · exact (keeps_represent _).bind fun _ _ _ _ => keeps_throw trivial

theorem keeps_bindRest {scope : ScopeId} (required got : Nat) {params args : List Value}
    (hscope : D.Current s scope) (hargs : D.AllHold s args) :
    D.Keeps s (bindRest scope required got params args) fun _ _ => True := by
  induction params generalizing s args with
  | nil => exact keeps_pure trivial
  | cons param params ih =>
    unfold bindRest
    split_ifs
    · cases params with
      | nil => exact keeps_throw trivial
      | cons rest _ =>
        apply (keeps_newList hargs).bind
        intro items s₁ hs₁ hitems
        exact keeps_bindValue (hscope.later hs₁) rest hitems
    · cases args with
      | nil => exact keeps_throw trivial
      | cons arg args =>
        have hargs := List.forall_mem_cons.1 hargs
        apply (keeps_bindValue hscope param hargs.1).bind
        intro _ s₁ hs₁ _
        exact ih (hscope.later hs₁) (AllHold.later hargs.2 hs₁)

theorem keeps_addScope {outer : ScopeId} (houter : D.captured s.scopes.size outer)
    (name : String) : D.Keeps s (Eval.addScope (some outer) name) D.Current := by
  intro hs
  have hnew : D.Current (s.addScope (some outer) name).2 s.scopes.size := by
    unfold Current
    rw [Store.size_addScope]
    exact D.current_new hs.scopeCount_le
  exact ⟨hs.addScope houter name, D.addScope houter name, hnew⟩

theorem keeps_enter {outer : ScopeId} (houter : D.captured s.scopes.size outer) (name : String)
    (params : List Value) {args : List Value} (hargs : D.AllHold s args) :
    D.Keeps s (enter (some outer) name params args) D.Current := by
  apply (keeps_addScope houter name).bind
  intro scope s₁ hs₁ hscope
  apply (keeps_bindRest _ _ hscope (hargs.later hs₁)).bind
  intro _ s₂ hs₂ _
  exact keeps_pure (hscope.later hs₂)

end Discipline

end SmallLisp
