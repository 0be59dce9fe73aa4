import SmallLisp.Interpreter
import SmallLisp.Proofs.Discipline.Core
import SmallLisp.Proofs.Eval.Unlimited
import SmallLisp.Proofs.Eval.Propagation

/-!
# Values that are no functions

Calls are made for the head of an evaluated list and by `apply` and `swap!`, and all of them go
through one application. It refuses a value exactly when the value is neither a function nor a macro
and has a text to show. No function of the language refuses a value by itself: a refusal that comes
out of a builtin is that of a call which the builtin has made.
-/

namespace SmallLisp.Eval

variable {α β : Type}

/-- A computation that never stops because a value is no function. -/
def NeverRefuses (x : Eval α) : Prop :=
  ∀ s category shown s', x s ≠ .error (.fault (.notCallable category shown)) s'

namespace NeverRefuses

theorem of_ok {x : Eval α} (h : ∀ s, ∃ a s', x s = .ok a s') : NeverRefuses x := by
  intro s category shown s' herror
  obtain ⟨a, s₁, hok⟩ := h s
  rw [hok] at herror
  cases herror

theorem pure (a : α) : NeverRefuses (Pure.pure a : Eval α) := .of_ok fun s => ⟨a, s, rfl⟩

theorem throw {stop : Stop} (h : ∀ category shown, stop ≠ .fault (.notCallable category shown)) :
    NeverRefuses (throw stop : Eval α) := by
  intro s category shown s' herror
  exact h category shown (EStateM.Result.error.inj herror).1

theorem bind {x : Eval α} {f : α → Eval β} (hx : NeverRefuses x) (hf : ∀ a, NeverRefuses (f a)) :
    NeverRefuses (x >>= f) := by
  intro s category shown s' h
  obtain hstop | ⟨a, s₁, -, hstop⟩ := bind_eq_error_iff.1 h
  · exact hx s category shown s' hstop
  · exact hf a s₁ category shown s' hstop

theorem mapM {γ : Type} {f : γ → Eval α} (h : ∀ item, NeverRefuses (f item)) (items : List γ) :
    NeverRefuses (items.mapM f) := by
  induction items with
  | nil => exact pure []
  | cons item items ih =>
    rw [List.mapM_cons]
    exact (h item).bind fun a => ih.bind fun as => pure _

theorem ofExcept {x : Except Stop α} (h : StopsWith Stop.IsLimit x) :
    NeverRefuses (ofExcept x) := by
  cases x with
  | ok a => exact pure a
  | error stop =>
    refine throw fun category shown heq => ?_
    subst heq
    exact h _ rfl

theorem ofHost (x : Except HostFault α) : NeverRefuses (ofHost x) := by
  cases x with
  | ok a => exact pure a
  | error limit => exact throw (by simp)

theorem withStore {f : Store → Eval α} (h : ∀ s, NeverRefuses (f s)) :
    NeverRefuses (get >>= f) := by
  intro s
  rw [get_bind]
  exact h s s

theorem inside {x : Eval α} (h : NeverRefuses x) (function : String) :
    NeverRefuses (inside function x) := by
  intro s category shown s' herror
  unfold Eval.inside at herror
  cases hx : x s with
  | ok a s₁ =>
    rw [hx] at herror
    cases herror
  | error stop s₁ =>
    rw [hx] at herror
    obtain ⟨hstop, rfl⟩ := EStateM.Result.error.inj herror
    cases stop with
    | fault cause =>
      obtain rfl := Stop.fault.inj hstop
      exact h s category shown s₁ hx
    | host | stackExhausted | passesExhausted => cases hstop

theorem fresh : NeverRefuses fresh := .of_ok fun _ => ⟨_, _, rfl⟩

theorem newList (items : List Value) : NeverRefuses (newList items) := fresh.bind fun _ => pure _

theorem newVec (items : List Value) : NeverRefuses (newVec items) := fresh.bind fun _ => pure _

theorem ofNumber (n : Number) : NeverRefuses (ofNumber n) := by
  cases n with
  | int n => exact pure _
  | float x => exact pure _
  | nan => exact fresh.bind fun _ => pure _

theorem represent (v : Value) : NeverRefuses (represent v) :=
  withStore fun s => ofExcept (s.meetsLimits_represent v)

theorem printJoined (mode : PrintMode) (separator : String) (vs : List Value) :
    NeverRefuses (printJoined mode separator vs) :=
  withStore fun s => ofExcept (s.meetsLimits_printJoined mode separator vs)

theorem readForm (text : String) : NeverRefuses (readForm text) := by
  unfold Eval.readForm
  split
  · exact .of_ok fun s => ⟨_, _, rfl⟩
  · next fault _ => cases fault <;> exact throw (by simp [Stop.ofReadFault])

theorem single (function : String) (args : List Value) : NeverRefuses (single function args) := by
  unfold Eval.single
  split
  · exact pure _
  · exact throw (by simp [Stop.arity])

theorem double (function : String) (args : List Value) : NeverRefuses (double function args) := by
  unfold Eval.double
  split
  · exact pure _
  · exact throw (by simp [Stop.arity])

theorem numbers (function : String) (args : List Value) :
    NeverRefuses (numbers function args) := by
  unfold Eval.numbers
  split
  · exact pure _
  · exact throw (by simp [Stop.primitive])

theorem complaint (v : Value) (fault : String → PrimitiveFault) :
    NeverRefuses (Eval.represent v >>= fun shown =>
      (MonadExcept.throw (Stop.primitive (fault shown)) : Eval α)) :=
  (represent v).bind fun _ => throw (by simp [Stop.primitive])

theorem elements (function : String) (v : Value) : NeverRefuses (elements function v) := by
  unfold Eval.elements
  split
  · exact pure _
  · split
    · exact pure _
    · exact complaint _ _

theorem characters (function : String) (v : Value) : NeverRefuses (characters function v) := by
  unfold Eval.characters
  split
  · exact pure _
  · exact complaint _ _

theorem address (function : String) (v : Value) : NeverRefuses (Eval.address function v) := by
  unfold Eval.address
  split
  · exact pure _
  · exact complaint _ _

theorem fold (op : Number → Number → Except HostFault Number) (total : Number)
    (ns : List Number) : NeverRefuses (Arithmetic.fold op total ns) := by
  induction ns generalizing total with
  | nil => exact pure total
  | cons n rest ih => exact (ofHost _).bind fun total => ih total

theorem foldQuotient (total : Number) (ns : List Number) :
    NeverRefuses (Arithmetic.foldQuotient total ns) := by
  induction ns generalizing total with
  | nil => exact pure total
  | cons n rest ih =>
    refine (ofHost _).bind fun q => ?_
    split
    · exact ih _
    · exact throw (by simp [Stop.primitive])

theorem range (limit : Nat) (args : List Value) : NeverRefuses (Arithmetic.range limit args) := by
  have hgo (start stop step : Number) : NeverRefuses (do
      let reversed ← Eval.ofExcept (Arithmetic.progression stop step limit start [])
      Eval.newList (← reversed.reverse.mapM Eval.ofNumber)) := by
    refine (ofExcept (Discipline.meetsLimits_progression _ _ _ _ _)).bind fun reversed => ?_
    exact (mapM ofNumber _).bind newList
  unfold Arithmetic.range
  dsimp only
  split
  on_goal 4 => exact throw (by simp [Stop.arity])
  all_goals
    refine (numbers "range" _).bind fun ns => ?_
    split
    on_goal 4 => exact newList _
    all_goals exact hgo _ _ _

theorem raiseValue (args : List Value) : NeverRefuses (Core.raiseValue args) :=
  (single "throw" args).bind fun v => (represent v).bind fun _ => throw (by simp)

theorem test (function : String) (property : Value → Bool) (args : List Value) :
    NeverRefuses (Core.test function property args) :=
  (single function args).bind fun _ => pure _

theorem compare (symbol : String) (op : Number → Number → Bool) (args : List Value) :
    NeverRefuses (Arithmetic.compare symbol op args) := by
  refine (double symbol args).bind fun pair => (numbers symbol _).bind fun ns => ?_
  split <;> exact pure _

theorem difference (args : List Value) : NeverRefuses (Arithmetic.difference args) := by
  refine (numbers "-" args).bind fun ns => ?_
  split
  · exact pure _
  · exact ofNumber _
  · exact (fold _ _ _).bind ofNumber

theorem quotient (args : List Value) : NeverRefuses (Arithmetic.quotient args) := by
  refine (numbers "/" args).bind fun ns => ?_
  split
  · exact pure _
  · exact pure _
  · exact (foldQuotient _ _).bind ofNumber

theorem index (v : Value) : NeverRefuses (Sequence.index v) := by
  unfold Sequence.index
  split
  · refine (ofHost _).bind fun i => ?_
    split_ifs
    · exact pure i
    · exact complaint _ _
  · exact complaint _ _

theorem nth (args : List Value) : NeverRefuses (Sequence.nth args) := by
  refine (double "nth" args).bind fun pair => (elements "nth" pair.1).bind fun items => ?_
  refine (index pair.2).bind fun i => ?_
  split
  · split_ifs
    · exact pure _
    · exact throw (by simp [Stop.primitive])
  · exact throw (by simp [Stop.primitive])

theorem count (args : List Value) : NeverRefuses (Sequence.count args) := by
  refine (single "count" args).bind fun v => ?_
  split
  · exact pure _
  · exact pure _
  · exact (elements "count" _).bind fun _ => pure _

theorem keyword (args : List Value) : NeverRefuses (TextFunction.keyword args) := by
  refine (single "keyword" args).bind fun v => ?_
  split
  · exact pure _
  · exact (characters "keyword" _).bind fun _ => pure _

theorem withInfo (args : List Value) : NeverRefuses (Metadata.withInfo args) := by
  refine (double "with-meta" args).bind fun pair => fresh.bind fun id => ?_
  split
  · exact pure _
  · exact complaint _ _

theorem read (a : Address) : NeverRefuses (Cell.read a) := withStore fun _ => pure _

theorem write (a : Address) (v : Value) : NeverRefuses (Cell.write a v) :=
  .of_ok fun _ => ⟨_, _, rfl⟩

theorem writeLine (mode : PrintMode) (args : List Value) :
    NeverRefuses (TextFunction.writeLine mode args) :=
  (printJoined mode " " args).bind fun _ => .of_ok fun _ => ⟨_, _, rfl⟩

variable {nested : Nested} (h : ∀ job, NeverRefuses (nested job))
include h

theorem applySpread (args : List Value) : NeverRefuses (Core.applySpread nested args) := by
  unfold Core.applySpread
  split
  · exact (elements "apply" _).bind fun spread => h _
  · exact throw (by simp [Stop.arity])

theorem swap (args : List Value) : NeverRefuses (Cell.swap nested args) := by
  unfold Cell.swap
  split
  · exact (address "swap!" _).bind fun a => (read a).bind fun content =>
      (h _).bind fun value => write a value
  · exact throw (by simp [Stop.arity])

theorem core (f : Core) (limit : Nat) (args : List Value) :
    NeverRefuses (f.run nested limit args) := by
  cases f with
  | raise => exact raiseValue args
  | symbol =>
    exact (single "symbol" args).bind fun v => (characters "symbol" v).bind fun _ => pure _
  | keyword => exact keyword args
  | equal => exact (double "=" args).bind fun pair => pure _
  | less | lessEqual | greater | greaterEqual => exact compare _ _ args
  | or | and => exact pure _
  | add => exact (numbers "+" args).bind fun ns => (fold _ _ ns).bind ofNumber
  | sub => exact difference args
  | mul => exact (numbers "*" args).bind fun ns => (fold _ _ ns).bind ofNumber
  | div => exact quotient args
  | list => exact newList args
  | vector => exact newVec args
  | nth => exact nth args
  | first => exact (single "first" args).bind fun v => (elements "first" v).bind fun _ => pure _
  | rest => exact (single "rest" args).bind fun v => (elements "rest" v).bind fun _ => newList _
  | last => exact (single "last" args).bind fun v => (elements "last" v).bind fun _ => pure _
  | isEmpty => exact (single "empty?" args).bind fun v => (elements "empty?" v).bind fun _ => pure _
  | count => exact count args
  | apply => exact applySpread h args
  | str => exact (printJoined .display "" args).bind fun _ => pure _
  | prn => exact writeLine .readable args
  | println => exact writeLine .display args
  | readString =>
    exact (single "read-string" args).bind fun v => (characters "read-string" v).bind readForm
  | cons =>
    exact (double "cons" args).bind fun pair =>
      (elements "cons" pair.2).bind fun _ => newList _
  | concat => exact (mapM (elements "concat") args).bind fun _ => newList _
  | metaOf => exact (single "meta" args).bind fun _ => pure _
  | withMeta => exact withInfo args
  | atom => exact (single "atom" args).bind fun _ => .of_ok fun _ => ⟨_, _, rfl⟩
  | deref => exact (single "deref" args).bind fun v => (address "deref" v).bind read
  | reset =>
    exact (double "reset!" args).bind fun pair =>
      (address "reset!" pair.1).bind fun a => write a pair.2
  | swap => exact swap h args
  | range => exact range limit args
  | _ => exact test _ _ args

omit h in
theorem numeric (f : Numeric) (args : List Value) : NeverRefuses (f.run args) := by
  refine (ofHost _).bind fun outcome => ?_
  cases outcome with
  | value v => exact pure v
  | number n => exact ofNumber n
  | pair first second =>
    exact (ofNumber first).bind fun _ => (ofNumber second).bind fun _ => fresh.bind fun _ => pure _
  | items vs => exact newList vs

theorem builtin (f : Builtin) (limit : Nat) (args : List Value) :
    NeverRefuses (runBuiltin f nested limit args) := by
  refine inside ?_ f.name
  cases f with
  | core f => exact core h f limit args
  | numeric f => exact numeric f args
  | eval => exact (single "eval" args).bind fun form => h _

end NeverRefuses

variable {f : Value} {args : List Value} {s s' : Store} {category shown : String}

/-- A call is refused when applying the value stops because it is no function, whatever the calls
would do that are made on the way. -/
def Refused (f : Value) (args : List Value) (s : Store) (category shown : String) (s' : Store) :
    Prop :=
  ∀ nested limit,
    pass nested limit (.call f args) s = .error (.fault (.notCallable category shown)) s'

theorem callValue_of_plain (hfunction : f.isFunction = false) (hplain : f.isMacro = false)
    (nested : Nested) (limit : Nat) (args : List Value) (s : Store) :
    callValue nested limit f args s = match s.print .readable f with
      | .ok shown => .error (.fault (.notCallable f.category shown)) s
      | .error stop => .error stop s := by
  have hcall : callValue nested limit f args =
      print .readable f >>= fun shown => throw (.fault (.notCallable f.category shown)) := by
    cases f with
    | closure _ _ _ _ isMacro _ =>
      obtain rfl : isMacro = false := hplain
      cases hfunction
    | builtin => cases hfunction
    | _ => rfl
  rw [hcall]
  simp only [Bind.bind, EStateM.bind, print_eq]
  cases s.print .readable f <;> rfl

theorem neverRefuses_callValue {nested : Nested} (h : ∀ job, NeverRefuses (nested job))
    (hf : f.isFunction = true ∨ f.isMacro = true) (limit : Nat) (args : List Value) :
    NeverRefuses (callValue nested limit f args) := by
  cases f with
  | closure id params body captured isMacro info =>
    refine .bind ?_ fun inner => .pure _
    intro s category shown s' herror
    obtain ⟨cause, hcause⟩ := arity_of_enter herror
    cases hcause
  | builtin f => exact (NeverRefuses.builtin h f limit args).bind fun _ => .pure _
  | _ => simp [Value.isFunction, Value.isMacro] at hf

theorem refused_iff : Refused f args s category shown s' ↔ f.isFunction = false ∧
    f.isMacro = false ∧ s.print .readable f = .ok shown ∧ category = f.category ∧ s' = s := by
  constructor
  · intro h
    let idle : Nested := fun _ => throw .stackExhausted
    have hcall : callValue idle 0 f args s = .error (.fault (.notCallable category shown)) s' :=
      h idle 0
    by_cases hf : f.isFunction = true ∨ f.isMacro = true
    · have hidle (job : Job) : NeverRefuses (idle job) := NeverRefuses.throw (by simp)
      exact absurd hcall (neverRefuses_callValue hidle hf 0 args s category shown s')
    · obtain ⟨hfunction, hplain⟩ : f.isFunction = false ∧ f.isMacro = false := by simpa using hf
      rw [callValue_of_plain hfunction hplain] at hcall
      cases hprint : s.print .readable f with
      | ok text =>
        rw [hprint] at hcall
        obtain ⟨hstop, rfl⟩ := EStateM.Result.error.inj hcall
        obtain ⟨rfl, rfl⟩ := Fault.notCallable.inj (Stop.fault.inj hstop)
        exact ⟨hfunction, hplain, rfl, rfl, rfl⟩
      | error stop =>
        rw [hprint] at hcall
        obtain ⟨rfl, rfl⟩ := EStateM.Result.error.inj hcall
        exact absurd (s.meetsLimits_print .readable f _ hprint) id
  · rintro ⟨hfunction, hplain, hprint, rfl, rfl⟩ nested limit
    exact (callValue_of_plain hfunction hplain nested limit args s').trans (by rw [hprint])

/-- A refused call ends the job that makes it, in the store in which the call starts. -/
theorem Refused.endsWith {job : Job} {s₀ : Store} (h : Refused f args s category shown s')
    (hstarts : Job.Starts job s₀ (.call f args) s) :
    EndsWith job s₀ (.error (.fault (.notCallable category shown)) s) := by
  obtain ⟨-, -, -, -, rfl⟩ := refused_iff.1 h
  refine hstarts.fault ⟨trivial, 1, 0, ?_⟩
  rw [run_succ]
  exact bind_of_error (h _ _)

/-- A call is refused exactly when `fn?` is false of the value that is called, provided that the
value is no macro and has a text. The jobs that make calls are the evaluation of a list, `apply` and
`swap!`; a refused call ends them before anything but their operands has had an effect. -/
theorem refused_unless_function (f : Value) (args : List Value) (s : Store) :
    (∀ nested limit, runBuiltin (.core .isFn) nested limit [f] s = .ok (.bool f.isFunction) s) ∧
    (∀ category shown s', Refused f args s category shown s' ↔
      f.isFunction = false ∧ f.isMacro = false ∧ s.print .readable f = .ok shown ∧
        category = f.category ∧ s' = s) ∧
    (∀ job s₀ category shown s', Job.Starts job s₀ (.call f args) s →
      Refused f args s category shown s' →
      EndsWith job s₀ (.error (.fault (.notCallable category shown)) s)) ∧
    ∀ stop, f.isFunction = false → f.isMacro = false → s.print .readable f = .error stop →
      ∀ nested limit, pass nested limit (.call f args) s = .error stop s := by
  refine ⟨fun _ _ => rfl, fun _ _ _ => refused_iff, fun _ _ _ _ _ hstarts h => h.endsWith hstarts,
    ?_⟩
  intro stop hfunction hplain hprint nested limit
  exact (callValue_of_plain hfunction hplain nested limit args s).trans (by rw [hprint])

/-- A list headed by a truth value. -/
theorem refused_unless_function_truth : EndsWith
    (.eval (.plainList 1 [.bool true, .kw "a"]) rootScope) (Interpreter.create 40)
    (.error (.fault (.notCallable "Boolean" "true")) (Interpreter.create 40)) := by
  have hhead : EndsWith (.eval (.bool true) rootScope) (Interpreter.create 40)
      (.ok (.bool true) (Interpreter.create 40)) := ⟨trivial, 1, 0, rfl⟩
  have harg : EndsWith (.eval (.kw "a") rootScope) (Interpreter.create 40)
      (.ok (.kw "a") (Interpreter.create 40)) := ⟨trivial, 1, 0, rfl⟩
  obtain ⟨-, hrefused, hends, -⟩ :=
    refused_unless_function (.bool true) [.kw "a"] (Interpreter.create 40)
  exact hends _ _ _ _ _ (.application rfl rfl hhead (.next harg .none))
    ((hrefused _ _ _).2 ⟨rfl, rfl, rfl, rfl, rfl⟩)

end SmallLisp.Eval
