import Mathlib.Tactic
import SmallLisp.Proofs.Eval.Protect
import SmallLisp.Proofs.Value.TextFault

/-!
# Thrown values

A value that is thrown and caught at once comes back as it is. Throwing shows the value in a
message, though, and the text for it is made before anyone asks for the message. A value without
a text is therefore not thrown: the fault that is caught instead tells of the limit that was met,
or the stack is exhausted.
-/

namespace SmallLisp.Eval

open Template Filter

variable {scope : ScopeId} {s s₁ : Store} {form body x v : Value} {name : String}

/-- The form `(throw x)`. -/
def IsThrow (form x : Value) : Prop :=
  ∃ id marked info, form = .list id [.sym "throw", x] marked info

theorem endsWith_symbol {owner : ScopeId} (h : s.lookup? scope name = some (owner, v)) :
    EndsWith (.eval (.sym name) scope) s (.ok v s) := by
  have hrun : Direct.run 1 (.eval (.sym name) scope) s = .ok v s := by
    change lookup scope name s = _
    unfold lookup
    rw [get_bind, h]
    rfl
  exact endsWith_of_direct hrun trivial

theorem eventually_throw (h : IsThrow body x) (hraise : MeansCore scope s "throw" .raise)
    (hx : EndsWith (.eval x scope) s (.ok v s₁)) :
    ∀ᶠ depth in atTop, Direct.run depth (.eval body scope) s =
      inside "throw" (Core.raiseValue [v]) s₁ := by
  obtain ⟨id, marked, info, rfl⟩ := h
  have hplain := macroCall?_eq_none hraise.noMacro id [x] marked info
  obtain ⟨owner, wrapped, wrappedId, wrappedInfo, hlookup⟩ := hraise
  have hhead : EndsWith (.eval (.sym "throw") scope) s
      (.ok (.builtin (.core .raise) wrapped wrappedId wrappedInfo) s) :=
    endsWith_symbol hlookup
  have hargs : Evaluated scope [x] s [v] [] s₁ := .next hx .none
  apply eventually_of_step
  filter_upwards [hhead.eventually_direct, hargs.eventually_values, eventually_ge_atTop 1]
    with depth hhead hargs hdepth
  obtain ⟨depth, rfl⟩ := Nat.exists_eq_add_of_le' hdepth
  refine (Direct.form_of_application hplain rfl _).trans ?_
  exact (bind_of_ok hhead).trans (bind_of_ok hargs)

theorem raise_of_text {text : String} (h : s.represent v = .ok text) :
    inside "throw" (Core.raiseValue [v]) s = .error (.fault (.raised v text)) s := by
  apply inside_of_fault
  have hshown : represent v s = .ok text s := by
    unfold represent
    rw [get_bind, h]
    rfl
  exact (bind_of_ok rfl).trans (bind_of_ok hshown)

theorem raise_of_limit {stop : Stop} (h : s.represent v = .error stop) :
    inside "throw" (Core.raiseValue [v]) s = .error (stop.inside "throw") s := by
  have hshown : represent v s = .error stop s := by
    unfold represent
    rw [get_bind, h]
    rfl
  have hraise : Core.raiseValue [v] s = .error stop s :=
    (bind_of_ok rfl).trans (bind_of_error hshown)
  simp only [inside, hraise]

theorem represent_str (s : Store) (text : String) :
    s.represent (.str text) = .ok (Text.quoted text) := rfl

theorem endsWith_caught (s : Store) (scope : ScopeId) (name : String) (cause : Fault) :
    EndsWith (.eval (.sym name) s.scopes.size) (s.catching scope name cause)
      (.ok cause.caught (s.catching scope name cause)) := by
  have hlookup : (s.catching scope name cause).lookup? s.scopes.size name =
      some (s.scopes.size, cause.caught) := by
    simp [Store.lookup?, Store.lookupFrom, Store.scope?_catching, Bindings.get?]
  exact endsWith_symbol hlookup

section

variable (hprotect : IsProtect form body name (.sym name)) (hthrow : IsThrow body x)
  (hplain : NoMacro scope s "try") (hraise : MeansCore scope s "throw" .raise) (hname : name ≠ "&")
  (hx : EndsWith (.eval x scope) s (.ok v s₁))
include hprotect hthrow hplain hraise hname hx

/-- A value that has a text comes back as it is. -/
theorem endsWith_raised {text : String} (h : s₁.represent v = .ok text) :
    EndsWith (.eval form scope) s (.ok v (s₁.catching scope name (.raised v text))) := by
  have hbody : EndsWith (.eval body scope) s (.error (.fault (.raised v text)) s₁) := by
    obtain ⟨depth, hdepth⟩ := (eventually_throw hthrow hraise hx).exists
    exact endsWith_of_direct (hdepth.trans (raise_of_text h)) trivial
  exact (endsWith_protect_iff hprotect hplain hname hbody _).2 (endsWith_caught s₁ scope name _)

/-- A value that has no text does not come back. -/
theorem not_endsWith_raised {stop : Stop} (h : s₁.represent v = .error stop) (s' : Store) :
    ¬ EndsWith (.eval form scope) s (.ok v s') := by
  intro hform
  have hbody := (eventually_throw hthrow hraise hx).mono fun depth hdepth =>
    hdepth.trans (raise_of_limit h)
  have hstop := s₁.stopsWith_represent v stop h
  cases stop with
  | fault | passesExhausted => exact hstop
  | stackExhausted =>
    have hexhausted : ∀ᶠ depth in atTop,
        Direct.run depth (.eval form scope) s = .error .stackExhausted s₁ := by
      apply eventually_of_step
      filter_upwards [hbody] with depth hbody
      rw [step_protect hprotect hplain hname, hbody]
      rfl
    cases hform.eq_of_eventually hexhausted
  | host limit =>
    -- Inside the builtin the limit is a fault of the builtin, and the handler gets its message.
    obtain ⟨depth, hdepth⟩ := hbody.exists
    have hcaught := (endsWith_protect_iff hprotect hplain hname (endsWith_of_direct hdepth trivial)
      _).2 (endsWith_caught s₁ scope name _)
    have hv : v = .str _ := (EStateM.Result.ok.inj (hform.unique hcaught)).1
    rw [hv, represent_str] at h
    cases h

/-- A value that is thrown and caught at once comes back itself exactly when it has a text. What
has no text leads to an integer of too many digits, or there is no room on the stack for it. -/
theorem raised_comes_back :
    (∀ text, s₁.represent v = .ok text →
      EndsWith (.eval form scope) s (.ok v (s₁.catching scope name (.raised v text)))) ∧
    ∀ stop, s₁.represent v = .error stop →
      (∀ s', ¬ EndsWith (.eval form scope) s (.ok v s')) ∧
        Stop.NoText (s₁.HasLongInteger v) stop := by
  constructor
  · intro text htext
    exact endsWith_raised hprotect hthrow hplain hraise hname hx htext
  · intro stop hstop
    constructor
    · exact not_endsWith_raised hprotect hthrow hplain hraise hname hx hstop
    · exact s₁.stopsWith_represent v stop hstop

end

/-- A vector that is thrown comes back, and not its message. -/
theorem raised_comes_back_vector : ∃ id s', EndsWith
    (.eval (.plainList 1 [.sym "try", .plainList 2 [.sym "throw", .plainVec 3 [.bool true]],
      .plainList 4 [.sym "catch", .sym "e", .sym "e"]]) rootScope)
    (Interpreter.create 40) (.ok (.plainVec id [.bool true]) s') := by
  have hplain : NoMacro rootScope (Interpreter.create 40) "try" := by
    intro owner value h
    cases h
  have hraise : MeansCore rootScope (Interpreter.create 40) "throw" .raise :=
    ⟨0, false, Value.literalNan, .nil, rfl⟩
  obtain ⟨id, s₁, hx⟩ : ∃ id s₁, EndsWith (.eval (.plainVec 3 [.bool true]) rootScope)
      (Interpreter.create 40) (.ok (.plainVec id [.bool true]) s₁) :=
    ⟨_, _, trivial, 2, 1, rfl⟩
  have hback := raised_comes_back ⟨1, false, .nil, 4, false, .nil, rfl⟩ ⟨2, false, .nil, rfl⟩
    hplain hraise (show "e" ≠ "&" by decide) hx
  exact ⟨id, _, hback.1 "Vector([True])" rfl⟩

end SmallLisp.Eval
