import Mathlib.Tactic
import SmallLisp.Proofs.Eval.Laws
import SmallLisp.Proofs.Value.TextFault

/-!
# Computations that meet no limit

Most of what an evaluation does by itself cannot meet a limit below the language, and a builtin
turns every limit that is met inside it into a fault of its own. What is left are the texts of
values in messages, which are not made when there is a long integer in the value.
-/

namespace SmallLisp.Eval

variable {α β : Type}

theorem arity_of_bindRest {scope : ScopeId} {required got : Nat} {params : List String}
    {args : List Value} {s s' : Store} {stop : Stop}
    (h : bindRest scope required got (params.map .sym) args s = .error stop s') :
    ∃ cause, stop = .arity cause := by
  induction params generalizing args s with
  | nil => cases h
  | cons param params ih =>
    rw [List.map_cons] at h
    unfold bindRest at h
    split_ifs at h
    · cases params with
      | nil => exact ⟨_, (EStateM.Result.error.inj h).1.symm⟩
      | cons rest params => cases h
    · cases args with
      | nil => exact ⟨_, (EStateM.Result.error.inj h).1.symm⟩
      | cons arg args => exact ih h

theorem arity_of_enter {outer : Option ScopeId} {name : String} {params : List String}
    {args : List Value} {s s' : Store} {stop : Stop}
    (h : enter outer name (params.map .sym) args s = .error stop s') :
    ∃ cause, stop = .arity cause := by
  obtain hadd | ⟨scope, s₁, -, h⟩ := bind_eq_error_iff.1 h
  · cases hadd
  · obtain hbind | ⟨_, s₂, -, h⟩ := bind_eq_error_iff.1 h
    · exact arity_of_bindRest hbind
    · cases h

def NeverLimited (x : Eval α) : Prop := ∀ s limit s', x s ≠ .error (.host limit) s'

namespace NeverLimited

theorem pure (a : α) : NeverLimited (Pure.pure a : Eval α) := by
  intro s limit s' h
  cases h

theorem fault (cause : Fault) : NeverLimited (throw (.fault cause) : Eval α) := by
  intro s limit s' h
  cases h

theorem bind {x : Eval α} {f : α → Eval β} (hx : NeverLimited x) (hf : ∀ a, NeverLimited (f a)) :
    NeverLimited (x >>= f) := by
  intro s limit s' h
  obtain hstop | ⟨a, s₁, -, hstop⟩ := bind_eq_error_iff.1 h
  · exact hx s limit s' hstop
  · exact hf a s₁ limit s' hstop

theorem inside (function : String) (x : Eval α) : NeverLimited (inside function x) := by
  intro s limit s' h
  unfold Eval.inside at h
  cases hx : x s with
  | ok a s₁ =>
    rw [hx] at h
    cases h
  | error stop s₁ =>
    rw [hx] at h
    cases stop <;> cases h

theorem bindValue (scope : ScopeId) (name : String) (v : Value) :
    NeverLimited (bindValue scope (.sym name) v) := by
  intro s limit s' h
  cases h

theorem fresh : NeverLimited fresh := by
  intro s limit s' h
  cases h

theorem newList (items : List Value) : NeverLimited (newList items) :=
  fresh.bind fun _ => pure _

theorem lookup (scope : ScopeId) (name : String) : NeverLimited (lookup scope name) := by
  intro s limit s' h
  unfold Eval.lookup at h
  rw [get_bind] at h
  cases hlookup : s.lookup? scope name with
  | none =>
    rw [hlookup] at h
    cases h
  | some binding =>
    rw [hlookup] at h
    cases h

theorem enter (outer : Option ScopeId) (name : String) (params : List String) (args : List Value) :
    NeverLimited (enter outer name (params.map .sym) args) := by
  intro s limit s' h
  obtain ⟨cause, hcause⟩ := arity_of_enter h
  cases hcause

theorem makeClosure (form : String) (isMacro : Bool) (parts : List Value) (scope : ScopeId) :
    NeverLimited (SpecialForm.makeClosure form isMacro parts scope) := by
  unfold SpecialForm.makeClosure
  split
  · exact fault _
  · split
    · exact fault _
    · split_ifs
      · refine .bind ?_ fun body => fresh.bind fun _ => pure _
        unfold SpecialForm.bodyOf
        split
        · exact pure _
        · exact pure _
        · exact newList _
      · exact fault _

mutual

theorem code : (t : Value) → NeverLimited (Template.code t)
  | .list id items marked info => by
    unfold Template.code
    split_ifs
    · exact newList _
    · exact codeOfItems items
  | .vec id items info => by
    unfold Template.code
    split_ifs
    · exact newList _
    · exact codeOfItems items
  | .nil | .bool _ | .int _ | .float _ | .nan _ | .str _ | .sym _ | .kw _ | .map .. | .pair ..
  | .atom _ | .closure .. | .builtin .. => newList _

theorem codeOfItems : (items : List Value) → NeverLimited (Template.codeOfItems items)
  | [] => (newList []).bind fun list => newList _
  | head :: rest => by
    unfold Template.codeOfItems
    split_ifs
    · split
      · exact pure _
      · exact fault _
    · split
      · exact (codeOfItems rest).bind fun tail => newList _
      · exact fault _
      · exact (code head).bind fun first => (codeOfItems rest).bind fun tail => newList _

end

end NeverLimited

variable {s s' : Store} {limit : HostFault}

theorem represent_eq (s : Store) (v : Value) :
    represent v s = match s.represent v with
      | .ok text => .ok text s
      | .error stop => .error stop s := by
  unfold represent
  rw [get_bind]
  cases s.represent v <;> rfl

theorem print_eq (s : Store) (mode : PrintMode) (v : Value) :
    print mode v s = match s.print mode v with
      | .ok text => .ok text s
      | .error stop => .error stop s := by
  unfold print
  rw [get_bind]
  cases s.print mode v <;> rfl

theorem limited_text {text : Eval String} {stop : String → Stop}
    (hstop : ∀ shown, ∃ cause, stop shown = .fault cause)
    (h : (text >>= fun shown => throw (stop shown) : Eval α) s = .error (.host limit) s') :
    text s = .error (.host limit) s' := by
  obtain htext | ⟨shown, s₁, -, h⟩ := bind_eq_error_iff.1 h
  · exact htext
  · obtain ⟨cause, hcause⟩ := hstop shown
    rw [hcause] at h
    cases h

theorem long_of_represent {v : Value} (h : represent v s = .error (.host limit) s') :
    s' = s ∧ limit = .digitLimit none ∧ s.HasLongInteger v := by
  rw [represent_eq] at h
  cases hshown : s.represent v with
  | ok text =>
    rw [hshown] at h
    cases h
  | error stop =>
    rw [hshown] at h
    obtain ⟨rfl, rfl⟩ := EStateM.Result.error.inj h
    exact ⟨rfl, s.stopsWith_represent v _ hshown⟩

theorem long_of_print {mode : PrintMode} {v : Value}
    (h : print mode v s = .error (.host limit) s') :
    s' = s ∧ limit = .digitLimit none ∧ s.HasLongInteger v := by
  rw [print_eq] at h
  cases hshown : s.print mode v with
  | ok text =>
    rw [hshown] at h
    cases h
  | error stop =>
    rw [hshown] at h
    obtain ⟨rfl, rfl⟩ := EStateM.Result.error.inj h
    exact ⟨rfl, s.stopsWith_print mode v _ hshown⟩

end SmallLisp.Eval
