import Mathlib.Tactic
import SmallLisp.Proofs.Eval.Started
import SmallLisp.Proofs.Eval.Unlimited

/-!
# Where limits are met

A limit below the language that is met inside a builtin is a fault of this builtin. An evaluation
that ends with the limit itself has met it elsewhere: in the text of a value that a special form or
an application shows in a message of its own. The value is found along the jobs that started one
another, guarded bodies included.
-/

namespace SmallLisp

open Eval

/-- The values that a special form shows in its messages: what stands in the place of a name. -/
inductive SpecialForm.Shows : SpecialForm → List Value → ScopeId → Store → Value → Store → Prop
  | defName {target form : Value} {scope : ScopeId} {s : Store} :
      target.symbol? = none → Shows .define [target, form] scope s target s
  | macroName {target part : Value} {parts : List Value} {scope : ScopeId} {s : Store} :
      target.symbol? = none → Shows .defineMacro (target :: part :: parts) scope s target s
  | letName {binders target form : Value} {items rest forms : List Value} {scope : ScopeId}
      {s s' : Store} :
      binders.sequence? = some items → items.length % 2 ≠ 1 →
      Bound s.scopes.size items (s.addScope (some scope) "let").2 (target :: form :: rest) s' →
      target.symbol? = none → Shows .bindings (binders :: forms) scope s target s'

namespace Job

inductive Shows : Job → Store → Value → Store → Prop
  | special {id : Identity} {head info v : Value} {parts : List Value} {marked : Bool}
      {form : SpecialForm} {scope : ScopeId} {s s' : Store} :
      macroCall? s (.list id (head :: parts) marked info) scope = none →
      head.symbol?.bind SpecialForm.ofName? = some form → form.Shows parts scope s v s' →
      Shows (.eval (.list id (head :: parts) marked info) scope) s v s'
  | called {f : Value} {args : List Value} {s : Store} :
      f.isFunction = false → f.isMacro = false → Shows (.call f args) s f s

/-- The jobs that are started one by another, guarded ones included. -/
inductive Involves : Job → Store → Job → Store → Prop
  | refl {job : Job} {s : Store} : Involves job s job s
  | starts {job job' job'' : Job} {s s' s'' : Store} :
      Starts job s job' s' → Involves job' s' job'' s'' → Involves job s job'' s''
  | guards {job job' job'' : Job} {s s' s'' : Store} :
      Guards job s job' s' → Involves job' s' job'' s'' → Involves job s job'' s''

end Job

/-- What a special form does that stops at a limit: it shows a value that has no text, or it has
started a job that stops at the limit. -/
def SpecialForm.Limited (depth : ℕ) (form : SpecialForm) (parts : List Value) (scope : ScopeId)
    (s : Store) (limit : HostFault) (s' : Store) : Prop :=
  (∃ v, form.Shows parts scope s v s' ∧ limit = .digitLimit none ∧ s'.HasLongInteger v) ∨
    ∃ job s₁, (form.Starts parts scope s job s₁ ∨ form.Guards parts scope s job s₁) ∧
      Direct.run depth job s₁ = .error (.host limit) s'

/-- What a job does that stops at a limit. -/
def Job.Limited (depth : ℕ) (job : Job) (s : Store) (limit : HostFault) (s' : Store) : Prop :=
  (∃ v, job.Shows s v s' ∧ limit = .digitLimit none ∧ s'.HasLongInteger v) ∨
    ∃ job' s₁, (job.Starts s job' s₁ ∨ job.Guards s job' s₁) ∧
      Direct.run depth job' s₁ = .error (.host limit) s'

namespace Eval

variable {α : Type} {depth : ℕ} {scope : ScopeId} {s s' : Store} {stop : Stop} {limit : HostFault}

theorem stopped_of_evalAll {forms : List Value}
    (h : Nested.evalAll (Direct.run depth) forms scope s = .error stop s') :
    ∃ vs form rest s₁, Evaluated scope forms s vs (form :: rest) s₁ ∧
      Direct.run depth (.eval form scope) s₁ = .error stop s' := by
  induction forms generalizing s with
  | nil => cases h
  | cons form forms ih =>
    rw [evalAll_cons] at h
    obtain hform | ⟨v, s₁, hform, h⟩ := bind_eq_error_iff.1 h
    · exact ⟨[], form, forms, s, .none, hform⟩
    · obtain hforms | ⟨vs, s₂, -, h⟩ := bind_eq_error_iff.1 h
      · obtain ⟨vs, next, rest, s₂, hevaluated, hnext⟩ := ih hforms
        exact ⟨v :: vs, next, rest, s₂, .next (endsWith_of_direct hform trivial) hevaluated, hnext⟩
      · cases h

theorem stopped_of_body {forms : List Value}
    (h : Direct.body (Direct.run depth) forms scope s = .error stop s') :
    ∃ vs form rest s₁, Evaluated scope forms s vs (form :: rest) s₁ ∧
      Direct.run depth (.eval form scope) s₁ = .error stop s' := by
  induction forms generalizing s with
  | nil => cases h
  | cons form forms ih =>
    by_cases hforms : forms = []
    · subst hforms
      exact ⟨[], form, [], s, .none, h⟩
    · rw [body_cons _ _ hforms] at h
      obtain hform | ⟨v, s₁, hform, h⟩ := bind_eq_error_iff.1 h
      · exact ⟨[], form, forms, s, .none, hform⟩
      · obtain ⟨vs, next, rest, s₂, hevaluated, hnext⟩ := ih h
        exact ⟨v :: vs, next, rest, s₂, .next (endsWith_of_direct hform trivial) hevaluated, hnext⟩

theorem symbol?_eq_none {v : Value} (h : ∀ name, v = .sym name → False) : v.symbol? = none := by
  cases v with
  | sym name => exact (h name rfl).elim
  | _ => rfl

/-- Of bindings that are made one after the other, one has stopped at a limit: in the evaluation of
its form, or because a value stands in the place of its symbol. -/
theorem limited_bindEach {items : List Value}
    (h : SpecialForm.bindEach (Direct.run depth) scope items s = .error (.host limit) s') :
    (∃ name form rest s₁, Bound scope items s (.sym name :: form :: rest) s₁ ∧
      Direct.run depth (.eval form scope) s₁ = .error (.host limit) s') ∨
    ∃ target form rest, Bound scope items s (target :: form :: rest) s' ∧
      target.symbol? = none ∧ limit = .digitLimit none ∧ s'.HasLongInteger target := by
  fun_induction SpecialForm.bindEach (Direct.run depth) scope items generalizing s with
  | case1 name form rest ih =>
    obtain hform | ⟨v, s₁, hform, h⟩ := bind_eq_error_iff.1 h
    · exact .inl ⟨name, form, rest, s, .none, hform⟩
    · obtain hbind | ⟨_, s₂, hbind, h⟩ := bind_eq_error_iff.1 h
      · cases hbind
      · obtain ⟨-, rfl⟩ := EStateM.Result.ok.inj hbind
        have hform := endsWith_of_direct hform trivial
        obtain ⟨name', form', rest', s₂, hbound, hnext⟩ | ⟨target, form', rest', hbound, hshown⟩ :=
          ih h
        · exact .inl ⟨name', form', rest', s₂, .next hform hbound, hnext⟩
        · exact .inr ⟨target, form', rest', .next hform hbound, hshown⟩
  | case2 target form rest hsymbol =>
    obtain ⟨rfl, hlimit, hlong⟩ := long_of_represent (limited_text (fun _ => ⟨_, rfl⟩) h)
    exact .inr ⟨target, form, rest, .none, symbol?_eq_none hsymbol, hlimit, hlong⟩
  | case3 items hsymbol htarget => cases h

theorem stopped_of_evalEntries {entries : List (Value × Value)}
    (h : evalEntries (Direct.run depth) scope entries s = .error stop s') :
    ∃ k v rest s₁, EvaluatedEntries scope entries s ((k, v) :: rest) s₁ ∧
      (Direct.run depth (.eval k scope) s₁ = .error stop s' ∨
        ∃ key s₂, EndsWith (.eval k scope) s₁ (.ok key s₂) ∧
          (Direct.run depth (.eval v scope) s₂ = .error stop s' ∨
            ∃ value, EndsWith (.eval v scope) s₂ (.ok value s') ∧ key.key? = none ∧
              stop = .primitive (.mapKey key.typeName))) := by
  induction entries generalizing s with
  | nil => cases h
  | cons entry entries ih =>
    obtain ⟨k, v⟩ := entry
    rw [evalEntries] at h
    obtain hk | ⟨key, s₁, hk, h⟩ := bind_eq_error_iff.1 h
    · exact ⟨k, v, entries, s, .none, .inl hk⟩
    · have hk := endsWith_of_direct hk trivial
      obtain hv | ⟨value, s₂, hv, h⟩ := bind_eq_error_iff.1 h
      · exact ⟨k, v, entries, s, .none, .inr ⟨key, s₁, hk, .inl hv⟩⟩
      · have hv := endsWith_of_direct hv trivial
        split_ifs at h with hkey
        · obtain ⟨rfl, rfl⟩ := EStateM.Result.error.inj h
          exact ⟨k, v, entries, s, .none, .inr ⟨key, s₁, hk, .inr ⟨value, hv,
            Option.isNone_iff_eq_none.1 hkey, rfl⟩⟩⟩
        · obtain hentries | ⟨others, s₃, -, h⟩ := bind_eq_error_iff.1 h
          · obtain ⟨k', v', rest, s₃, hevaluated, hnext⟩ := ih hentries
            have hkey : key.key?.isSome := by simpa [Option.isSome_iff_ne_none] using hkey
            exact ⟨k', v', rest, s₃, .next hk hv hkey hevaluated, hnext⟩
          · cases h

theorem entered_of_limited {form : Value}
    (h : expandOnce (Direct.run depth) form scope s = .error (.host limit) s') :
    ∃ call inner s₁, Entered form scope s call inner s₁ ∧
      Direct.run depth (.eval call.body inner) s₁ = .error (.host limit) s' := by
  cases hcall : macroCall? s form scope with
  | none =>
    rw [expandOnce_of_none hcall] at h
    cases h
  | some call =>
    rw [expandOnce_of_call hcall] at h
    obtain henter | ⟨inner, s₁, henter, h⟩ := bind_eq_error_iff.1 h
    · exact absurd henter (NeverLimited.enter _ _ _ _ _ _ _)
    · obtain hbody | ⟨expanded, s₂, -, h⟩ := bind_eq_error_iff.1 h
      · exact ⟨call, inner, s₁, ⟨hcall, henter⟩, hbody⟩
      · cases h

theorem limited_define {parts : List Value}
    (h : Direct.define (Direct.run depth) parts scope s = .error (.host limit) s') :
    SpecialForm.Limited depth .define parts scope s limit s' := by
  unfold Direct.define at h
  split at h
  · obtain hform | ⟨v, s₁, -, h⟩ := bind_eq_error_iff.1 h
    · exact .inr ⟨_, s, .inl .value, hform⟩
    · exact absurd h (((NeverLimited.bindValue _ _ _).bind fun _ => .pure _) _ _ _)
  · next target _ htarget =>
    obtain ⟨rfl, hlimit, hlong⟩ := long_of_represent (limited_text (fun _ => ⟨_, rfl⟩) h)
    exact .inl ⟨target, .defName (symbol?_eq_none htarget), hlimit, hlong⟩
  · cases h

theorem limited_defineMacro {parts : List Value}
    (h : Direct.defineMacro parts scope s = .error (.host limit) s') :
    SpecialForm.Limited depth .defineMacro parts scope s limit s' := by
  unfold Direct.defineMacro at h
  split at h
  · next name part parts =>
    have hnever := (NeverLimited.makeClosure "defmacro" true (part :: parts) scope).bind fun v =>
      (NeverLimited.bindValue scope name v).bind fun _ => .pure v
    exact absurd h (hnever _ _ _)
  · next target part parts htarget =>
    obtain ⟨rfl, hlimit, hlong⟩ := long_of_represent (limited_text (fun _ => ⟨_, rfl⟩) h)
    exact .inl ⟨target, .macroName (symbol?_eq_none htarget), hlimit, hlong⟩
  · cases h

theorem limited_bindings {parts : List Value}
    (h : Direct.bindings (Direct.run depth) parts scope s = .error (.host limit) s') :
    SpecialForm.Limited depth .bindings parts scope s limit s' := by
  cases parts with
  | nil => cases h
  | cons binders forms =>
    cases hitems : binders.sequence? with
    | none =>
      unfold Direct.bindings at h
      simp only [hitems] at h
      cases h
    | some items =>
      by_cases heven : items.length % 2 = 1
      · unfold Direct.bindings at h
        simp only [hitems] at h
        rw [if_pos (by simpa using heven)] at h
        cases h
      · rw [bindings_of_even hitems heven] at h
        obtain hbind | ⟨u, s₁, hbind, hbody⟩ := bind_eq_error_iff.1 h
        · obtain ⟨name, form, rest, s₁, hbound, hform⟩ |
            ⟨target, form, rest, hbound, hsymbol, hlong⟩ := limited_bindEach hbind
          · exact .inr ⟨_, s₁, .inl (.binding hitems heven hbound), hform⟩
          · exact .inl ⟨target, .letName hitems heven hbound hsymbol, hlong⟩
        · obtain ⟨vs, form, rest, s₂, hevaluated, hform⟩ := stopped_of_body hbody
          have hbound := (faithful_direct depth).bound_of_bindEach heven hbind
          exact .inr ⟨_, s₂, .inl (.bodyForm hitems heven hbound hevaluated), hform⟩

theorem limited_conditional {parts : List Value}
    (h : Direct.conditional (Direct.run depth) parts scope s = .error (.host limit) s') :
    SpecialForm.Limited depth .conditional parts scope s limit s' := by
  unfold Direct.conditional at h
  split at h
  · obtain hcondition | ⟨v, s₁, hcondition, h⟩ := bind_eq_error_iff.1 h
    · exact .inr ⟨_, s, .inl (.condition (Nat.zero_le 1)), hcondition⟩
    · have hcondition := endsWith_of_direct hcondition trivial
      split_ifs at h with hv
      · exact .inr ⟨_, s₁, .inl (.consequent (Nat.zero_le 1) hcondition hv), h⟩
      · cases h
  · obtain hcondition | ⟨v, s₁, hcondition, h⟩ := bind_eq_error_iff.1 h
    · exact .inr ⟨_, s, .inl (.condition le_rfl), hcondition⟩
    · have hcondition := endsWith_of_direct hcondition trivial
      split_ifs at h with hv
      · exact .inr ⟨_, s₁, .inl (.consequent le_rfl hcondition hv), h⟩
      · exact .inr ⟨_, s₁, .inl (.alternative hcondition hv), h⟩
  · cases h

theorem attempt_of_isLimit {x : Eval α} (h : x s = .error stop s') (hstop : stop.IsLimit) :
    attempt x s = .error stop s' := by
  cases stop with
  | fault cause => exact hstop.elim
  | host | stackExhausted | passesExhausted => simp only [attempt, h]

theorem limited_protect {parts : List Value}
    (h : Direct.protect (Direct.run depth) parts scope s = .error (.host limit) s') :
    SpecialForm.Limited depth .protect parts scope s limit s' := by
  unfold Direct.protect at h
  split at h
  · exact .inr ⟨_, s, .inl .unguarded, h⟩
  · next form clause =>
    cases hclause : SpecialForm.catchClause? clause with
    | none =>
      rw [hclause] at h
      cases h
    | some parts =>
      obtain ⟨name, handler⟩ := parts
      simp only [hclause] at h
      cases hform : Nested.eval (Direct.run depth) form scope s with
      | ok v s₁ =>
        have hattempt : attempt (Nested.eval (Direct.run depth) form scope) s = .ok (.ok v) s₁ := by
          simp only [attempt, hform]
        cases (bind_of_ok hattempt).symm.trans h
      | error stop s₁ =>
        cases stop with
        | fault cause =>
          have h := (bind_of_ok (attempt_of_fault hform)).symm.trans h
          have h := (bind_of_ok rfl).symm.trans h
          by_cases hname : name = "&"
          · subst hname
            cases h
          · have h := (bind_of_ok (enter_catch hname cause)).symm.trans h
            have hform := endsWith_of_direct hform trivial
            exact .inr ⟨_, _, .inl (.handler hclause hname hform), h⟩
        | host limit' =>
          -- The limit comes through the guard, so it is the guarded body that has met it.
          have h := (bind_of_error (attempt_of_isLimit hform trivial)).symm.trans h
          have hclause : (SpecialForm.catchClause? clause).isSome := by simp [hclause]
          exact .inr ⟨_, s, .inr (.body hclause), hform.trans h⟩
        | stackExhausted | passesExhausted =>
          cases (bind_of_error (attempt_of_isLimit hform trivial)).symm.trans h
  · cases h

theorem limited_special {form : SpecialForm} {parts : List Value}
    (h : Direct.special (Direct.run depth) form parts scope s = .error (.host limit) s') :
    SpecialForm.Limited depth form parts scope s limit s' := by
  cases form with
  | define => exact limited_define h
  | bindings => exact limited_bindings h
  | defineMacro => exact limited_defineMacro h
  | protect => exact limited_protect h
  | conditional => exact limited_conditional h
  | function => exact absurd h (NeverLimited.makeClosure _ _ _ _ _ _ _)
  | sequence =>
    obtain ⟨vs, form, rest, s₁, hevaluated, hform⟩ := stopped_of_body h
    exact .inr ⟨_, s₁, .inl (.form hevaluated), hform⟩
  | template =>
    unfold Direct.special Direct.template at h
    dsimp only at h
    split at h
    · obtain hcode | ⟨code, s₁, hcode, h⟩ := bind_eq_error_iff.1 h
      · exact absurd hcode (NeverLimited.code _ _ _ _)
      · exact .inr ⟨_, s₁, .inl (.template hcode), h⟩
    · cases h
  | expansion =>
    unfold Direct.special Direct.expansion at h
    dsimp only at h
    split at h
    · exact .inr ⟨_, s, .inl .expansion, h⟩
    · cases h
  | quotation | scopeChain | scopesOf =>
    unfold Direct.special at h
    dsimp only at h
    split at h <;> cases h

theorem limited_list {id : Identity} {head info : Value} {args : List Value} {marked : Bool}
    (hplain : macroCall? s (.list id (head :: args) marked info) scope = none)
    (h : Direct.list (Direct.run depth) head args scope s = .error (.host limit) s') :
    Job.Limited depth (.eval (.list id (head :: args) marked info) scope) s limit s' := by
  unfold Direct.list at h
  cases hname : head.symbol?.bind SpecialForm.ofName? with
  | some form =>
    simp only [hname] at h
    obtain ⟨v, hshown, hlong⟩ | ⟨job, s₁, hstarts | hguards, hjob⟩ := limited_special h
    · exact .inl ⟨v, .special hplain hname hshown, hlong⟩
    · exact .inr ⟨job, s₁, .inl (.special hplain hname hstarts), hjob⟩
    · exact .inr ⟨job, s₁, .inr (.special hplain hname hguards), hjob⟩
  | none =>
    simp only [hname] at h
    obtain hhead | ⟨f, s₁, hhead, h⟩ := bind_eq_error_iff.1 h
    · exact .inr ⟨_, s, .inl (.head hplain hname), hhead⟩
    · have hhead := endsWith_of_direct hhead trivial
      obtain hargs | ⟨vs, s₂, hargs, h⟩ := bind_eq_error_iff.1 h
      · obtain ⟨vs, form, rest, s₂, hevaluated, hform⟩ := stopped_of_evalAll hargs
        exact .inr ⟨_, s₂, .inl (.operand hplain hname hhead hevaluated), hform⟩
      · have hargs := (faithful_direct depth).evaluated_of_evalAll hargs
        exact .inr ⟨_, s₂, .inl (.application hplain hname hhead hargs), h⟩

theorem limited_atom {form : Value}
    (h : evalAtom (Direct.run depth) form scope s = .error (.host limit) s') :
    Job.Limited depth (.eval form scope) s limit s' := by
  unfold evalAtom at h
  split at h
  · exact absurd h (NeverLimited.lookup _ _ _ _ _)
  · obtain hitems | ⟨vs, s₁, -, h⟩ := bind_eq_error_iff.1 h
    · obtain ⟨vs, form, rest, s₁, hevaluated, hform⟩ := stopped_of_evalAll hitems
      exact .inr ⟨_, s₁, .inl (.element hevaluated), hform⟩
    · cases h
  · obtain hentries | ⟨pairs, s₁, -, h⟩ := bind_eq_error_iff.1 h
    · obtain ⟨k, v, rest, s₁, hevaluated, hkey | ⟨key, s₂, hkey, hvalue | ⟨value, -, -, hstop⟩⟩⟩ :=
        stopped_of_evalEntries hentries
      · exact .inr ⟨_, s₁, .inl (.key hevaluated), hkey⟩
      · exact .inr ⟨_, s₂, .inl (.entry hevaluated hkey), hvalue⟩
      · cases hstop
    · cases h
  · cases h

theorem limited_call {f : Value} {args : List Value}
    (h : Direct.call (Direct.run depth) depth f args s = .error (.host limit) s') :
    Job.Limited depth (.call f args) s limit s' := by
  unfold Direct.call at h
  split at h
  · obtain henter | ⟨inner, s₁, henter, h⟩ := bind_eq_error_iff.1 h
    · exact absurd henter (NeverLimited.enter _ _ _ _ _ _ _)
    · exact .inr ⟨_, s₁, .inl (.closureBody henter), h⟩
  · exact absurd h (NeverLimited.inside _ _ _ _ _)
  · next hclosure hbuiltin =>
    obtain ⟨rfl, hlimit, hlong⟩ := long_of_print (limited_text (fun _ => ⟨_, rfl⟩) h)
    refine .inl ⟨f, .called ?_ ?_, hlimit, hlong⟩
    · cases f with
      | closure => exact (hclosure _ _ _ _ _ _ rfl).elim
      | builtin => exact (hbuiltin _ _ _ _ rfl).elim
      | _ => rfl
    · cases f with
      | closure => exact (hclosure _ _ _ _ _ _ rfl).elim
      | _ => rfl

theorem limited_form {form : Value}
    (h : Direct.form (Direct.run depth) form scope s = .error (.host limit) s') :
    Job.Limited depth (.eval form scope) s limit s' := by
  unfold Direct.form at h
  split at h
  · cases h
  · obtain hexpand | ⟨_ | expanded, s₁, hexpand, hnext⟩ := bind_eq_error_iff.1 h
    · obtain ⟨call, inner, s₁, hentered, hbody⟩ := entered_of_limited hexpand
      exact .inr ⟨_, s₁, .inl (.macroBody hentered), hbody⟩
    · obtain ⟨hplain, rfl⟩ := macroCall?_of_expandOnce hexpand
      exact limited_list hplain hnext
    · obtain ⟨call, inner, s₂, hentered, hbody⟩ :=
        (faithful_direct depth).entered_of_expandOnce hexpand
      exact .inr ⟨_, s₁, .inl (.expanded hentered hbody), hnext⟩
  · exact limited_atom h

/-- A step that stops at a limit shows a value that has no text, or it has started a job that stops
at the limit. -/
theorem limited_step {job : Job}
    (h : Direct.step (Direct.run depth) depth job s = .error (.host limit) s') :
    Job.Limited depth job s limit s' := by
  cases job with
  | call f args => exact limited_call h
  | eval form scope => exact limited_form h
  | expand form scope =>
    obtain hexpand | ⟨_ | expanded, s₁, hexpand, hnext⟩ := bind_eq_error_iff.1 h
    · obtain ⟨call, inner, s₁, hentered, hbody⟩ := entered_of_limited hexpand
      exact .inr ⟨_, s₁, .inl (.expandBody hentered), hbody⟩
    · cases hnext
    · obtain ⟨call, inner, s₂, hentered, hbody⟩ :=
        (faithful_direct depth).entered_of_expandOnce hexpand
      exact .inr ⟨_, s₁, .inl (.expandOn hentered hbody), hnext⟩

/-- An evaluation that stops at a limit has come to a job that shows a value in which there is a
long integer. -/
theorem limited_run {job : Job} (h : Direct.run depth job s = .error (.host limit) s') :
    limit = .digitLimit none ∧ ∃ job' s₁ v, job.Involves s job' s₁ ∧ job'.Shows s₁ v s' ∧
      s'.HasLongInteger v := by
  induction depth generalizing job s with
  | zero => cases h
  | succ depth ih =>
    obtain ⟨v, hshown, hlimit, hlong⟩ | ⟨job', s₁, hpart, hjob⟩ := limited_step h
    · exact ⟨hlimit, job, s, v, .refl, hshown, hlong⟩
    · obtain ⟨hlimit, job'', s₂, v, hinvolves, hshown, hlong⟩ := ih hjob
      refine ⟨hlimit, job'', s₂, v, ?_, hshown, hlong⟩
      obtain hstarts | hguards := hpart
      · exact .starts hstarts hinvolves
      · exact .guards hguards hinvolves

/-- Such a job does stop at the limit: an integer of too many digits that is called. -/
theorem endsWith_call_long {n : ℤ} (h : Nat.pow 10 maxDigits ≤ n.natAbs) (args : List Value)
    (s : Store) : EndsWith (.call (.int n) args) s (.error (.host (.digitLimit none)) s) := by
  have htext : s.print .readable (.int n) = .error (.host (.digitLimit none)) := by
    have hinteger : integerText n = .error (.host (.digitLimit none)) := if_neg (Nat.not_lt.2 h)
    unfold Store.print
    cases s.contents.size <;> simpa only [Store.printFrom, Value.printWith] using hinteger
  have hprint : print .readable (.int n) s = .error (.host (.digitLimit none)) s := by
    rw [print_eq, htext]
  have hrun : Direct.run 1 (.call (.int n) args) s = .error (.host (.digitLimit none)) s :=
    bind_of_error hprint
  exact endsWith_of_direct hrun trivial

end Eval

end SmallLisp
