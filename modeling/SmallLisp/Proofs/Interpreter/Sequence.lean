import Mathlib.Tactic
import SmallLisp.Interpreter
import SmallLisp.Proofs.Eval.Approximation
import SmallLisp.Proofs.Eval.Laws
import SmallLisp.Proofs.Reader.Sequence

/-!
# Programs one behind the other

A program is read form by form while it is evaluated, which is no different from reading it as a
whole first: reading needs nothing of the evaluation, and a fault of reading comes behind the forms
in front of it. So a program that goes on on the next lines does what its first part does and then,
in the store that this leaves, what the rest does.
-/

namespace SmallLisp.Interpreter

open Eval

variable {scope : ScopeId}

/-- Evaluate the forms of a stream in turn. A form is read when the one in front of it has been
evaluated, and a fault of reading ends the evaluation. -/
def runStream (scope : ScopeId) (last : Value) (stream : TokenStream) : Eval Value :=
  match _h : stream.peek.1 with
  | none => return last
  | some _t =>
    match _hp : stream.parse with
    | (.error fault, _) => throw (.ofReadFault fault)
    | (.ok d, rest) => do
      let value ← evaluate (← Eval.ofDatum d) scope
      runStream scope value rest
termination_by stream.size
decreasing_by
  have h : stream.advance.1 = some _t := by
    rw [stream.advance_fst, ← stream.peek_fst]
    exact _h
  have hlt : (stream.complete []).2.size < stream.size := TokenStream.size_complete_lt h
  rw [show stream.complete [] = _ from _hp] at hlt
  exact hlt

/-- What is left to do when the forms of a text have been evaluated. -/
def endWith (fault : Option ReadFault) (last : Value) : Eval Value :=
  match fault with
  | none => return last
  | some fault => throw (.ofReadFault fault)

theorem run_eq (text : String) (scope : ScopeId) :
    run text scope = runForms scope .nil (readForms text).1 >>= endWith (readForms text).2 := rfl

theorem runStream_eq (last : Value) (stream : TokenStream) :
    runStream scope last stream =
      runForms scope last stream.parseAll.1 >>= endWith stream.parseAll.2 := by
  fun_induction runStream scope last stream with
  | case1 last stream hpeek =>
    have hall : stream.parseAll = ([], none) := by
      rw [TokenStream.parseAll]
      split <;> simp_all
    rw [hall]
    rfl
  | case2 last stream t hpeek fault rest hparse =>
    have hall : stream.parseAll = ([], some fault) := by
      rw [TokenStream.parseAll]
      split
      · simp_all
      · split <;> simp_all
    rw [hall]
    rfl
  | case3 last stream t hpeek d rest hparse ih =>
    have hall : stream.parseAll = (d :: rest.parseAll.1, rest.parseAll.2) := by
      rw [TokenStream.parseAll]
      split
      · simp_all
      · split <;> simp_all
    rw [hall, runForms, bind_assoc]
    congr 1
    funext form
    rw [bind_assoc]
    congr 1
    funext value
    exact ih value

/-- A program may be read as a whole before it is evaluated. -/
theorem run_eq_runStream (text : String) (scope : ScopeId) :
    run text scope = runStream scope .nil (TokenStream.ofString text) :=
  (runStream_eq .nil (TokenStream.ofString text)).symm

theorem runForms_append (last : Value) (forms more : List Datum) :
    runForms scope last (forms ++ more) =
      runForms scope last forms >>= fun value => runForms scope value more := by
  induction forms generalizing last with
  | nil => rfl
  | cons d forms ih =>
    rw [List.cons_append, runForms, runForms, bind_assoc]
    congr 1
    funext form
    rw [bind_assoc]
    congr 1
    funext value
    exact ih value

/-- What was returned before the first form does not matter when there is one. -/
theorem runForms_of_ne_nil {forms : List Datum} (h : forms ≠ []) (last : Value) :
    runForms scope last forms = runForms scope .nil forms := by
  obtain ⟨d, forms, rfl⟩ := List.exists_cons_of_ne_nil h
  rfl

def outcomeAfter (value : Value) (more : String) : Result Value → Result Value
  | .ok last s => .ok (if (readForms more).1 = [] then value else last) s
  | .error stop s => .error stop s

theorem run_after (value : Value) (more : String) (scope : ScopeId) (s : Store) :
    (runForms scope value (readForms more).1 >>= endWith (readForms more).2) s =
      outcomeAfter value more (run more scope s) := by
  rw [run_eq]
  by_cases hforms : (readForms more).1 = []
  · rw [hforms]
    unfold outcomeAfter
    simp only [hforms]
    cases (readForms more).2 <;> rfl
  · rw [runForms_of_ne_nil hforms]
    generalize (runForms scope .nil (readForms more).1 >>= endWith (readForms more).2) s = outcome
    cases outcome with
    | ok last s' => simp only [outcomeAfter, if_neg hforms]
    | error stop s' => rfl

theorem run_append {text : String} {forms : List Datum} (h : readForms text = (forms, none))
    (more : String) (scope : ScopeId) (s : Store) :
    run (text ++ "\n" ++ more) scope s =
      match run text scope s with
      | .ok value s' => outcomeAfter value more (run more scope s')
      | .error stop s' => .error stop s' := by
  have hrun : run text scope = runForms scope .nil forms := by
    rw [run_eq, h]
    exact bind_pure _
  rw [hrun, run_eq, readForms_append h, runForms_append, bind_assoc]
  simp only [Bind.bind, EStateM.bind]
  cases runForms scope .nil forms s with
  | ok value s' => exact run_after value more scope s'
  | error stop s' => rfl

/-- A text that is read without a fault is read and run on its own, whatever follows on the next
lines. The forms that follow are those that the rest of the text yields by itself, up to the fault
that reading it meets; the first form is the first one still. The text is run form by form as it is
read: first its own forms, and then, in the store that these leave, the rest, unless one of them
stops. The forms in front of a fault of reading are evaluated before the fault is raised. -/
theorem run_continued {text : String} {forms : List Datum} (h : readForms text = (forms, none))
    (more : String) (scope : ScopeId) :
    readForms (text ++ "\n" ++ more) = (forms ++ (readForms more).1, (readForms more).2) ∧
      (∀ d ∈ forms.head?, readForm (text ++ "\n" ++ more) = .ok d ∧ readForm text = .ok d) ∧
      (∀ s, run (text ++ "\n" ++ more) scope s =
        match run text scope s with
        | .ok value s' => outcomeAfter value more (run more scope s')
        | .error stop s' => .error stop s') ∧
      (∀ code, run code scope = runStream scope .nil (TokenStream.ofString code)) ∧
      ∀ code before fault s, readForms code = (before, some fault) →
        run code scope s =
          match runForms scope .nil before s with
          | .ok _ s' => .error (.ofReadFault fault) s'
          | .error stop s' => .error stop s' := by
  refine ⟨readForms_append h more, ?_, run_append h more scope,
    fun code => run_eq_runStream code scope, ?_⟩
  · intro d hd
    obtain ⟨rest, rfl⟩ := List.head?_eq_some_iff.1 hd
    exact ⟨readForm_append h more, readForm_of_readForms h⟩
  · intro code before fault s hcode
    rw [run_eq, hcode]
    simp only [Bind.bind, EStateM.bind]
    cases runForms scope .nil before s <;> rfl

/-- A comment does not take in what follows on the next line, and a stray bracket there leaves the
forms in front of it. -/
theorem run_continued_behind_comment :
    readForms "x ;y" = ([.sym "x"], none) ∧
      readForms ("x ;y" ++ "\n" ++ "z )") =
        ([.sym "x", .sym "z"], some (.malformed (.strayCloser ')'))) := by
  have hx : consumeAll [⟨.symbol, ['x']⟩] = ([.sym "x"], none) := by
    have hread : consume [] [⟨.symbol, ['x']⟩] = (.ok (.sym "x"), []) := rfl
    rw [consumeAll_of_ok (by simp) hread, consumeAll_nil]
  have hz : consumeAll [⟨.symbol, ['z']⟩, ⟨.closer, [')']⟩] =
      ([.sym "z"], some (.malformed (.strayCloser ')'))) := by
    have hread : consume [] [⟨.symbol, ['z']⟩, ⟨.closer, [')']⟩] =
        (.ok (.sym "z"), [⟨.closer, [')']⟩]) := rfl
    rw [consumeAll_of_ok (by simp) hread, consumeAll_of_error (by simp) rfl]
    rfl
  have htext : readForms "x ;y" = ([.sym "x"], none) := by
    rw [readForms_eq_consumeAll, show "x ;y".toList = ['x', ' ', ';', 'y'] from rfl]
    have hlex : Token.lex ['x', ' ', ';', 'y'] = [⟨.symbol, ['x']⟩] := by
      simp [Token.lex_cons, Token.lex_separator, Token.lex_comment, Token.afterComment, Token.cut,
        Token.isSeparator, Token.isOpener, Token.isCloser, Token.isDelimiter, Text.isBlank]
    rw [hlex, hx]
  have hmore : readForms "z )" = ([.sym "z"], some (.malformed (.strayCloser ')'))) := by
    rw [readForms_eq_consumeAll, show "z )".toList = ['z', ' ', ')'] from rfl]
    have hlex : Token.lex ['z', ' ', ')'] = [⟨.symbol, ['z']⟩, ⟨.closer, [')']⟩] := by
      simp [Token.lex_cons, Token.lex_separator, Token.cut, Token.isSeparator, Token.isOpener,
        Token.isCloser, Token.isDelimiter, Text.isBlank]
    rw [hlex, hz]
  obtain ⟨hread, -⟩ := run_continued htext "z )" rootScope
  rw [hmore] at hread
  exact ⟨htext, hread⟩

end SmallLisp.Interpreter
