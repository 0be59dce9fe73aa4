import Mathlib.Tactic
import SmallLisp.Console
import SmallLisp.Proofs.Eval.Limit
import SmallLisp.Proofs.Reader.Grammar

/-!
# How programs end

A program that does not run on forever returns, ends with a fault of the language or exhausts the
stack. There is one exception, the limit on the digits of integers: it is met by the reader at an
integer of too many digits, and by a message or the printer at a value in which there is one. The
console handles every fault and an exhausted stack.
-/

namespace SmallLisp

open Eval

/-- How a program ends: it returns, raises a fault, exhausts the stack or runs on until its passes
are used up. Where a limit below the language ends it, the given condition holds. -/
def Expected {α : Type} (exception : HostFault → Store → Prop) : Result α → Prop
  | .error (.host limit) s => exception limit s
  | _ => True

/-- Neither a fault nor an exhausted stack ends a computation. -/
def GoesOn {α : Type} : Result α → Prop
  | .error (.fault _) _ => False
  | .error .stackExhausted _ => False
  | _ => True

def LongToken (text : String) (limit : HostFault) : Prop :=
  ∃ digits, limit = .digitLimit (some digits) ∧
    ∃ t ∈ Token.lex text.toList, t.IsLongInteger digits

/-- The evaluation of a form comes to a job that shows a value in which there is a long integer,
and stops there. -/
def ShowsLong (d : Datum) (scope : ScopeId) (s s' : Store) : Prop :=
  ∃ form s₁ job s₂ v, Eval.ofDatum d s = .ok form s₁ ∧
    Job.Involves (.eval form scope) s₁ job s₂ ∧ job.Shows s₂ v s' ∧ s'.HasLongInteger v

/-- The evaluation of a form gives a value in which there is a long integer. -/
def GivesLong (d : Datum) (scope : ScopeId) (s s' : Store) : Prop :=
  ∃ form s₁ v, Eval.ofDatum d s = .ok form s₁ ∧ EndsWith (.eval form scope) s₁ (.ok v s') ∧
    s'.HasLongInteger v

namespace Interpreter

variable {scope : ScopeId} {s s' : Store} {limit : HostFault} {text : String}

theorem limited_evaluate {form : Value}
    (h : evaluate form scope s = .error (.host limit) s') :
    limit = .digitLimit none ∧ ∃ job s₁ v, Job.Involves (.eval form scope) s job s₁ ∧
      job.Shows s₁ v s' ∧ s'.HasLongInteger v := by
  have hended : EndsWith (.eval form scope) s (.error (.host limit) s') :=
    ⟨trivial, passLimit, roomLimit, h⟩
  obtain ⟨-, depth, hdepth⟩ := (endsWith_iff_direct _ _ _).1 hended
  exact limited_run hdepth

theorem limited_runForms {last : Value} {forms : List Datum}
    (h : runForms scope last forms s = .error (.host limit) s') :
    limit = .digitLimit none ∧ ∃ before d after v s₁, forms = before ++ d :: after ∧
      runForms scope last before s = .ok v s₁ ∧ ShowsLong d scope s₁ s' := by
  induction forms generalizing s last with
  | nil => cases h
  | cons d forms ih =>
    obtain hform | ⟨form, s₁, hform, h⟩ := bind_eq_error_iff.1 h
    · cases hform
    · obtain hvalue | ⟨value, s₂, hvalue, h⟩ := bind_eq_error_iff.1 h
      · obtain ⟨hlimit, job, s₂, v, hshown⟩ := limited_evaluate hvalue
        exact ⟨hlimit, [], d, forms, last, s, rfl, rfl, form, s₁, job, s₂, v, hform, hshown⟩
      · obtain ⟨hlimit, before, d', after, v, s₃, rfl, hbefore, hshown⟩ := ih h
        have hrun : runForms scope last (d :: before) s = .ok v s₃ :=
          (bind_of_ok hform).trans ((bind_of_ok hvalue).trans hbefore)
        exact ⟨hlimit, d :: before, d', after, v, s₃, rfl, hrun, hshown⟩

/-- A fault of reading that is no fault of the language tells of an integer of too many digits. -/
theorem longToken_of_readFault {fault : ReadFault}
    (hfault : ∀ digits, fault = .digitLimit digits →
      ∃ t ∈ Token.lex text.toList, t.IsLongInteger digits)
    (h : (throw (.ofReadFault fault) : Eval Value) s = .error (.host limit) s') :
    LongToken text limit := by
  cases fault with
  | malformed cause => cases h
  | digitLimit digits =>
    obtain ⟨hlimit, -⟩ := EStateM.Result.error.inj h
    exact ⟨digits, (Stop.host.inj hlimit).symm, hfault digits rfl⟩

/-- Where a program meets the limit on the digits of integers: in its text, or in a value that is
shown in the evaluation of one of its forms, after the forms in front of it have been evaluated. -/
def Overlong (text : String) (scope : ScopeId) (s : Store) (limit : HostFault) (s' : Store) :
    Prop :=
  LongToken text limit ∨ limit = .digitLimit none ∧
    ∃ before d after v s₁, (readForms text).1 = before ++ d :: after ∧
      runForms scope .nil before s = .ok v s₁ ∧ ShowsLong d scope s₁ s'

/-- Where a form that is read, evaluated and printed meets the limit on the digits of integers. -/
def OverlongPrint (text : String) (s : Store) (limit : HostFault) (s' : Store) : Prop :=
  LongToken text limit ∨ limit = .digitLimit none ∧
    ∃ d, readForm text = .ok d ∧ (ShowsLong d rootScope s s' ∨ GivesLong d rootScope s s')

theorem overlong_of_run (h : run text scope s = .error (.host limit) s') :
    Overlong text scope s limit s' := by
  unfold run at h
  unfold Overlong
  generalize hread : readForms text = outcome at h ⊢
  obtain ⟨forms, fault⟩ := outcome
  obtain hforms | ⟨value, s₁, -, h⟩ := bind_eq_error_iff.1 h
  · exact .inr (limited_runForms hforms)
  · -- The forms in front of a fault of reading have been evaluated without a limit.
    cases fault with
    | none => cases h
    | some fault =>
      refine .inl (longToken_of_readFault (fun digits hdigits => ?_) h)
      have hparse : (TokenStream.ofString text).parseAll.2 = some (.digitLimit digits) := by
        rw [← hdigits]
        exact congrArg Prod.snd hread
      exact TokenStream.isLongInteger_of_parseAll hparse

theorem overlong_of_rep (h : rep text s = .error (.host limit) s') :
    OverlongPrint text s limit s' := by
  unfold rep Eval.readForm at h
  cases hread : SmallLisp.readForm text with
  | error fault =>
    simp only [hread] at h
    obtain hfault | ⟨_, _, hfault, -⟩ := bind_eq_error_iff.1 h
    · refine .inl (longToken_of_readFault (fun digits hdigits => ?_) hfault)
      have hparse : (TokenStream.ofString text).parse.1 = .error (.digitLimit digits) := by
        rw [← hdigits]
        exact hread
      exact TokenStream.isLongInteger_of_parse hparse
    · cases hfault
  | ok d =>
    simp only [hread] at h
    obtain hform | ⟨form, s₁, hform, h⟩ := bind_eq_error_iff.1 h
    · cases hform
    · obtain hvalue | ⟨v, s₂, hvalue, h⟩ := bind_eq_error_iff.1 h
      · obtain ⟨hlimit, job, s₂, v, hshown⟩ := limited_evaluate hvalue
        exact .inr ⟨hlimit, d, hread, .inl ⟨form, s₁, job, s₂, v, hform, hshown⟩⟩
      · obtain ⟨rfl, hlimit, hlong⟩ := long_of_print h
        have hended : EndsWith (.eval form rootScope) s₁ (.ok v s') :=
          ⟨trivial, passLimit, roomLimit, hvalue⟩
        exact .inr ⟨hlimit, d, hread, .inr ⟨form, s₁, v, hform, hended, hlong⟩⟩

theorem expected_of_limited {α : Type} {exception : HostFault → Store → Prop} {r : Result α}
    (h : ∀ limit s', r = .error (.host limit) s' → exception limit s') : Expected exception r := by
  cases r with
  | ok value s' => trivial
  | error stop s' =>
    cases stop with
    | host limit => exact h limit s' rfl
    | fault | stackExhausted | passesExhausted => trivial

/-- The console goes on after every fault and after an exhausted stack; anything else that ends a
line ends the console. -/
theorem evalLine_cases (line : String) (s : Store) :
    (∃ text s', Console.evalLine line s = .ok text s') ∨
      ∃ stop s', Console.evalLine line s = .error stop s' ∧ rep line s = .error stop s' ∧
        stop ≠ .stackExhausted ∧ ∀ cause, stop ≠ .fault cause := by
  unfold Console.evalLine
  split_ifs
  · exact .inl ⟨_, _, rfl⟩
  · cases hrep : rep line s with
    | ok text s' => exact .inl ⟨_, _, rfl⟩
    | error stop s' =>
      cases stop with
      | fault | stackExhausted => exact .inl ⟨_, _, rfl⟩
      | host | passesExhausted => exact .inr ⟨_, _, rfl, rfl, nofun, nofun⟩

/-- Programs end as expected, but for the limit on the digits of integers. A text may have an
integer of too many digits in it, a special form or an application may show a value with such an
integer, and so may the printer when the value of a form is printed. The console ends as expected
too, and neither a fault nor an exhausted stack ends it. -/
theorem expected_outcomes (text : String) (scope : ScopeId) (s : Store) :
    Expected (Overlong text scope s) (run text scope s) ∧
      Expected (OverlongPrint text s) (rep text s) ∧
      Expected (OverlongPrint text s) (Console.evalLine text s) ∧
      GoesOn (Console.evalLine text s) := by
  refine ⟨expected_of_limited fun limit s' => overlong_of_run,
    expected_of_limited fun limit s' => overlong_of_rep, ?_, ?_⟩
  · apply expected_of_limited
    intro limit s' hline
    obtain ⟨shown, s₁, hok⟩ | ⟨stop, s₁, hstop, hrep, -⟩ := evalLine_cases text s
    · cases hok.symm.trans hline
    · obtain ⟨rfl, rfl⟩ := EStateM.Result.error.inj (hstop.symm.trans hline)
      exact overlong_of_rep hrep
  · obtain ⟨shown, s₁, hok⟩ | ⟨stop, s₁, hstop, -, hexhausted, hfault⟩ := evalLine_cases text s
    · rw [hok]
      trivial
    · rw [hstop]
      cases stop with
      | fault cause => exact hfault cause rfl
      | stackExhausted => exact hexhausted rfl
      | host | passesExhausted => trivial

end Interpreter

end SmallLisp
