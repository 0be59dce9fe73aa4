import Mathlib.Tactic
import SmallLisp.Interpreter
import SmallLisp.Proofs.World.Confined

/-!
# Requests to interpreters

Several interpreters may live in one store, each with a root scope of its own, in which its `eval`
evaluates. They are asked in turn to run texts. In stores that agree on what it can reach an
interpreter gives matching responses to a request.
-/

namespace SmallLisp

open Eval

namespace Eval

def outcome {α : Type} (x : Eval α) (s : Store) : Except Stop α :=
  match x s with
  | .ok a _ => .ok a
  | .error stop _ => .error stop

end Eval

namespace Interpreter

def runFormsIn (root scope : ScopeId) : (last : Value) → List Datum → Eval Value
  | last, [] => return last
  | _, form :: forms => do
    let value ← runWith (rooted root) passLimit roomLimit (.eval (← ofDatum form) scope)
    runFormsIn root scope value forms

/-- Run all forms of a text, as the interpreter with the given root scope. -/
def runIn (root : ScopeId) (text : String) (scope : ScopeId) : Eval Value := do
  let (forms, fault) := readForms text
  let value ← runFormsIn root scope .nil forms
  match fault with
  | none => return value
  | some fault => throw (.ofReadFault fault)

theorem runFormsIn_rootScope (scope : ScopeId) (last : Value) (forms : List Datum) :
    runFormsIn rootScope scope last forms = runForms scope last forms := by
  induction forms generalizing last with
  | nil => rfl
  | cons form forms ih =>
    unfold runFormsIn runForms evaluate perform
    rw [rooted_rootScope]
    simp only [runWith_runBuiltin, ih]

/-- A store with one interpreter is that of the programs that it runs. -/
theorem runIn_rootScope (text : String) (scope : ScopeId) :
    runIn rootScope text scope = run text scope := by
  rcases hread : readForms text with ⟨forms, _ | fault⟩
  · simp only [runIn, run, hread, runFormsIn_rootScope]
  · simp only [runIn, run, hread, runFormsIn_rootScope]

/-- An interpreter, given by its root scope, is asked to run a text in a scope. -/
structure Request where
  root : ScopeId
  scope : ScopeId
  text : String

/-- What an interpreter answers: what the run returns or why it stops, what it puts out and what is
logged meanwhile. -/
structure Response where
  root : ScopeId
  outcome : Except Stop Value
  output : String
  log : List LogRecord

/-- A store whose output and log have been taken away. -/
def drained (s : Store) : Store := { s with output := "", log := #[] }

def Request.serve (r : Request) (s : Store) : Response × Store :=
  let x := runIn r.root r.text r.scope
  let s' := x.after (drained s)
  (⟨r.root, x.outcome (drained s), s'.output, s'.log.toList⟩, s')

def serveAll : List Request → Store → List Response × Store
  | [], s => ([], s)
  | r :: requests, s =>
    let (response, s') := r.serve s
    let (responses, s'') := serveAll requests s'
    (response :: responses, s'')

theorem serveAll_cons (r : Request) (requests : List Request) (s : Store) :
    serveAll (r :: requests) s = ((r.serve s).1 :: (serveAll requests (r.serve s).2).1,
      (serveAll requests (r.serve s).2).2) := rfl

theorem root_serve (r : Request) (s : Store) : (r.serve s).1.root = r.root := rfl

end Interpreter

open Interpreter

namespace World

variable {root root' : ScopeId} {W W' : World root root'}

/-- Two runs return matching values or stop for matching reasons. -/
inductive EndsMatch (W : World root root') : Except Stop Value → Except Stop Value → Prop
  | ok {v w : Value} : W.Matches v w → EndsMatch W (.ok v) (.ok w)
  | error {stop stop' : Stop} : W.StopsMatch stop stop' → EndsMatch W (.error stop) (.error stop')

structure ResponsesMatch (W : World root root') (a b : Response) : Prop where
  outcome : W.EndsMatch a.outcome b.outcome
  output : a.output = b.output
  log : a.log = b.log

theorem ResponsesMatch.mono {a b : Response} (h : W.ResponsesMatch a b)
    (hpairs : ∀ {k i j}, W.pairs k i j → W'.pairs k i j) : W'.ResponsesMatch a b := by
  obtain ⟨houtcome, houtput, hlog⟩ := h
  refine ⟨?_, houtput, hlog⟩
  generalize a.outcome = x, b.outcome = y at houtcome
  cases houtcome with
  | ok hvw => exact .ok (hvw.mono hpairs)
  | error hstop =>
    cases hstop with
    | raised shown hvw => exact .error (.raised shown (hvw.mono hpairs))
    | plain _ hplain => exact .error (.plain _ hplain)

theorem Outcomes.ends {x y : Eval Value} {s t : Store} (h : W.Outcomes Matches (x s) (y t)) :
    W.EndsMatch (x.outcome s) (y.outcome t) := by
  unfold Eval.outcome
  generalize x s = r, y t = r' at h
  cases h with
  | ok hvw => exact .ok hvw
  | error hstop => exact .error hstop

theorem alike_runFormsIn {scope scope' : ScopeId} (hscope : W.pairs .scope scope scope')
    {last last' : Value} (hlast : W.Matches last last') (forms : List Datum) :
    W.Alike (runFormsIn root scope last forms) (runFormsIn root' scope' last' forms) Matches := by
  induction forms generalizing W last last' with
  | nil => exact alike_pure hlast
  | cons form forms ih =>
    apply (alike_ofDatum form).bind
    intro v w W₁ hW₁ hvw
    apply (alike_runWith root root' passLimit roomLimit (.eval hvw (hW₁.mono hscope))).bind
    intro value value' W₂ hW₂ hvalue
    exact ih ((hW₁.trans hW₂).mono hscope) hvalue

/-- Paired interpreters run a text alike in paired scopes. -/
theorem alike_runIn (text : String) {scope scope' : ScopeId}
    (hscope : W.pairs .scope scope scope') :
    W.Alike (runIn root text scope) (runIn root' text scope') Matches := by
  unfold runIn
  obtain ⟨forms, fault⟩ := readForms text
  apply (alike_runFormsIn hscope .nil forms).bind
  intro v w W₁ _ hvw
  cases fault with
  | none => exact alike_pure hvw
  | some fault => cases fault <;> exact alike_stop trivial

theorem Agree.drained (h : W.Agree) : (W.withStores (drained W.left) (drained W.right)).Agree :=
  h.keep (fun _ => .of_eq rfl rfl _ _) (fun _ => .of_eq rfl rfl _ _) le_rfl le_rfl

/-- A world comes after another one when an interpreter has served a request in both stores. -/
structure Serves (W : World root root) (r : Request) (W' : World root root) : Prop where
  left : W'.left = (r.serve W.left).2
  right : W'.right = (r.serve W.right).2
  agree : W'.Agree
  responses : W'.ResponsesMatch (r.serve W.left).1 (r.serve W.right).1
  mono {k : Kind} {i j : Nat} : W.pairs k i j → W'.pairs k i j
  new {k : Kind} {i j : Nat} : W'.pairs k i j → W.pairs k i j ∨ W.left.count k ≤ i
  count_le (k : Kind) : W.left.count k ≤ W'.left.count k
  same {k : Kind} {i : Nat} : i < W.left.count k → (∀ j, ¬ W.pairs k i j) →
    W.left.SameAt W'.left k i
  level : W'.left.logLevel = W.left.logLevel
  level' : W'.right.logLevel = W.right.logLevel

/-- An interpreter serves a request alike in the stores of a world, if these agree and record the
same levels. -/
theorem exists_serves {W : World root root} (hW : W.Agree)
    (hlevel : W.right.logLevel = W.left.logLevel) {r : Request} (hroot : r.root = root)
    (hscope : W.pairs .scope r.scope r.scope) : ∃ W', W.Serves r W' := by
  subst hroot
  obtain ⟨W', ⟨e, he⟩, hW', (houtcomes : W'.Outcomes Matches
    (runIn r.root r.text r.scope (drained W.left))
    (runIn r.root r.text r.scope (drained W.right)))⟩ :=
      alike_runIn (W := W.withStores (drained W.left) (drained W.right)) r.text hscope hW.drained
  obtain ⟨hleft, hright⟩ := houtcomes.after_eq
  have hcount (k : Kind) : (drained W.left).count k = W.left.count k := by cases k <;> rfl
  refine ⟨W', hleft.symm, hright.symm, hW', ⟨houtcomes.ends, ?_, ?_⟩, Later.mono ⟨e, he⟩, ?_, ?_,
    ?_, he.left.logLevel, he.right.logLevel⟩
  · change (Eval.after _ _).output = (Eval.after _ _).output
    rw [hleft, hright, he.left.output, he.right.output]
    rfl
  · change (Eval.after _ _).log.toList = (Eval.after _ _).log.toList
    rw [hleft, hright, he.left.log, he.right.log]
    change [] ++ e.records.filter (W.left.logLevel ≤ ·.level) =
      [] ++ e.records.filter (W.right.logLevel ≤ ·.level)
    rw [hlevel]
  · intro k i j hij
    rcases he.pairs_iff.1 hij with hold | ⟨n, -, rfl, -⟩
    · exact .inl hold
    · exact .inr ((hcount k).ge.trans (Nat.le_add_right _ _))
  · exact fun k => (hcount k).ge.trans (he.left.count_le k)
  · intro k i hi hnot
    have hsame := he.left.same ((hcount k).symm ▸ hi) fun ⟨j, hij⟩ => hnot j hij
    cases k <;> exact hsame

end World

end SmallLisp
