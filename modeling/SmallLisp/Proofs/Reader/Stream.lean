import SmallLisp.Proofs.Reader.Consume

/-!
# Streams in use

A stream is asked to show its first token, to hand it over or to read a form, in any order and also
after a form that could not be read. Whatever is asked, the tokens that were consumed, the one that
was cut ahead and those of the text that is left are the tokens of the text. So what a stream answers
depends on the tokens in front of it alone, and each form takes at least one of them.
-/

namespace SmallLisp

namespace TokenStream

/-- Read until the stack is settled, with a record of the tokens that are taken from the stream. -/
def completeRecorded (stack : List Pending) (s : TokenStream) :
    (Except ReadFault Datum × TokenStream) × List Token :=
  match _h : s.advance with
  | (none, s') => ((.error (.malformed (endFault stack)), s'), [])
  | (some t, s') =>
    match takeToken stack t with
    | .error fault => ((.error fault, s'), [t])
    | .ok (.inl d) => ((.ok d, s'), [t])
    | .ok (.inr stack) =>
      let (outcome, taken) := completeRecorded stack s'
      (outcome, t :: taken)
termination_by s.size
decreasing_by exact size_advance_lt _h

theorem completeRecorded_fst (stack : List Pending) (s : TokenStream) :
    (s.completeRecorded stack).1 = s.complete stack := by
  fun_induction complete stack s with
  | case1 stack s s' h => rw [completeRecorded]; split <;> simp_all
  | case2 stack s t s' h fault htake => rw [completeRecorded]; split <;> simp_all
  | case3 stack s t s' h d htake => rw [completeRecorded]; split <;> simp_all
  | case4 stack s t s' h stack' htake ih => rw [completeRecorded]; split <;> simp_all

theorem completeRecorded_append (stack : List Pending) (s : TokenStream) :
    (s.completeRecorded stack).2 ++ (s.completeRecorded stack).1.2.tokens = s.tokens := by
  fun_induction completeRecorded stack s with
  | case1 stack s s' h =>
    obtain ⟨hnil, hrest⟩ := tokens_of_advance_none h
    rw [hnil, hrest]
    rfl
  | case2 stack s t s' h fault htake => exact (tokens_of_advance h).symm
  | case3 stack s t s' h d htake => exact (tokens_of_advance h).symm
  | case4 stack s t s' h stack' htake outcome taken hrest ih =>
    rw [hrest] at ih
    rw [tokens_of_advance h, ← ih]
    rfl

theorem completeRecorded_eq_nil_iff (stack : List Pending) (s : TokenStream) :
    (s.completeRecorded stack).2 = [] ↔ s.tokens = [] := by
  fun_cases completeRecorded stack s with
  | case1 s' h => simp [(tokens_of_advance_none h).1]
  | case2 t s' h fault htake => simp [tokens_of_advance h]
  | case3 t s' h d htake => simp [tokens_of_advance h]
  | case4 t s' h stack' htake outcome taken hrest => simp [tokens_of_advance h]

inductive Operation where
  | peek
  | advance
  | parse

/-- What a stream answers: a token, none at the end, or what became of a form. -/
inductive Answer where
  | token (t : Option Token)
  | form (outcome : Except ReadFault Datum)

namespace Operation

def answer : Operation → TokenStream → Answer
  | peek, s => .token s.peek.1
  | advance, s => .token s.advance.1
  | parse, s => .form s.parse.1

def left : Operation → TokenStream → TokenStream
  | peek, s => s.peek.2
  | advance, s => s.advance.2
  | parse, s => s.parse.2

def consumed : Operation → TokenStream → List Token
  | peek, _ => []
  | advance, s => s.advance.1.toList
  | parse, s => (s.completeRecorded []).2

/-- An operation neither loses nor repeats tokens. -/
theorem consumed_append (op : Operation) (s : TokenStream) :
    op.consumed s ++ (op.left s).tokens = s.tokens := by
  cases op with
  | peek => exact s.tokens_peek
  | advance =>
    change s.advance.1.toList ++ s.advance.2.tokens = s.tokens
    rw [advance_fst, tokens_advance]
    cases s.tokens <;> rfl
  | parse =>
    change (s.completeRecorded []).2 ++ (s.complete []).2.tokens = s.tokens
    rw [← completeRecorded_fst, completeRecorded_append]

/-- The answer and the tokens that are left depend on the tokens alone. -/
theorem congr {s s' : TokenStream} (h : s.tokens = s'.tokens) (op : Operation) :
    op.answer s = op.answer s' ∧ (op.left s).tokens = (op.left s').tokens := by
  cases op with
  | peek =>
    change Answer.token s.peek.1 = .token s'.peek.1 ∧ s.peek.2.tokens = s'.peek.2.tokens
    rw [peek_fst, peek_fst, tokens_peek, tokens_peek, h]
    exact ⟨rfl, rfl⟩
  | advance =>
    change Answer.token s.advance.1 = .token s'.advance.1 ∧
      s.advance.2.tokens = s'.advance.2.tokens
    rw [advance_fst, advance_fst, tokens_advance, tokens_advance, h]
    exact ⟨rfl, rfl⟩
  | parse =>
    change Answer.form s.parse.1 = .form s'.parse.1 ∧ s.parse.2.tokens = s'.parse.2.tokens
    rw [s.parse_eq_consume.1, s.parse_eq_consume.2, s'.parse_eq_consume.1, s'.parse_eq_consume.2, h]
    exact ⟨rfl, rfl⟩

end Operation

/-- The answers to operations one after the other, the tokens that they take in all, and the stream
afterwards. -/
structure Trace where
  answers : List Answer
  consumed : List Token
  left : TokenStream

def trace (s : TokenStream) : List Operation → Trace
  | [] => ⟨[], [], s⟩
  | op :: ops =>
    let later := (op.left s).trace ops
    ⟨op.answer s :: later.answers, op.consumed s ++ later.consumed, later.left⟩

theorem trace_append (s : TokenStream) (ops ops' : List Operation) :
    s.trace (ops ++ ops') =
      ⟨(s.trace ops).answers ++ ((s.trace ops).left.trace ops').answers,
        (s.trace ops).consumed ++ ((s.trace ops).left.trace ops').consumed,
        ((s.trace ops).left.trace ops').left⟩ := by
  induction ops generalizing s with
  | nil => rfl
  | cons op ops ih => simp only [List.cons_append, trace, ih, List.append_assoc]

theorem length_answers (s : TokenStream) (ops : List Operation) :
    (s.trace ops).answers.length = ops.length := by
  induction ops generalizing s with
  | nil => rfl
  | cons op ops ih => exact congrArg (· + 1) (ih _)

theorem trace_conserves (s : TokenStream) (ops : List Operation) :
    (s.trace ops).consumed ++ (s.trace ops).left.tokens = s.tokens := by
  induction ops generalizing s with
  | nil => rfl
  | cons op ops ih =>
    change (op.consumed s ++ ((op.left s).trace ops).consumed) ++ _ = _
    rw [List.append_assoc]
    exact (congrArg _ (ih (op.left s))).trans (op.consumed_append s)

theorem trace_congr {s s' : TokenStream} (h : s.tokens = s'.tokens) (ops : List Operation) :
    (s.trace ops).answers = (s'.trace ops).answers := by
  induction ops generalizing s s' with
  | nil => rfl
  | cons op ops ih =>
    obtain ⟨hanswer, hleft⟩ := op.congr h
    change op.answer s :: ((op.left s).trace ops).answers =
      op.answer s' :: ((op.left s').trace ops).answers
    rw [hanswer, ih hleft]

theorem consumed_parse_eq_nil_iff (s : TokenStream) :
    Operation.parse.consumed s = [] ↔ s.tokens = [] := s.completeRecorded_eq_nil_iff []

/-- A form that is read leaves fewer tokens. -/
theorem length_tokens_parse_lt {s : TokenStream} (h : s.tokens ≠ []) :
    s.parse.2.tokens.length < s.tokens.length := by
  have happend := congrArg List.length (Operation.parse.consumed_append s)
  have hpos := List.length_pos_iff.2 (mt s.consumed_parse_eq_nil_iff.1 h)
  rw [List.length_append] at happend
  change _ + s.parse.2.tokens.length = _ at happend
  omega

theorem length_parseAll_le (s : TokenStream) : s.parseAll.1.length ≤ s.tokens.length := by
  fun_induction parseAll s with
  | case1 s hpeek => exact Nat.zero_le _
  | case2 s t hpeek fault s' hparse => exact Nat.zero_le _
  | case3 s t hpeek d s' hparse rest ih =>
    have hne : s.tokens ≠ [] := by
      rw [s.peek_fst] at hpeek
      exact List.ne_nil_of_mem (List.mem_of_head? hpeek)
    have hlt := length_tokens_parse_lt hne
    rw [hparse] at hlt
    exact Nat.succ_le_of_lt (ih.trans_lt hlt)

/-- All forms are read one after the other, until a look shows the end or a form cannot be read. -/
theorem parseAll_trace (s : TokenStream) :
    ∃ after, after = s.trace (List.replicate s.parseAll.1.length .parse) ∧
      after.answers = s.parseAll.1.map (fun d => .form (.ok d)) ∧
      (s.parseAll.2 = none → after.left.peek.1 = none) ∧
      ∀ fault, s.parseAll.2 = some fault →
        after.left.peek.1.isSome ∧ after.left.parse.1 = .error fault := by
  refine ⟨_, rfl, ?_⟩
  fun_induction parseAll s with
  | case1 s hpeek => exact ⟨rfl, fun _ => hpeek, nofun⟩
  | case2 s t hpeek fault s' hparse =>
    refine ⟨rfl, nofun, fun fault' h => ?_⟩
    obtain rfl := Option.some.inj h
    exact ⟨Option.isSome_of_eq_some hpeek, congrArg Prod.fst hparse⟩
  | case3 s t hpeek d s' hparse rest ih =>
    have hanswer : Operation.parse.answer s = .form (.ok d) :=
      congrArg Answer.form (congrArg Prod.fst hparse)
    have hleft : Operation.parse.left s = s' := congrArg Prod.snd hparse
    rw [List.length_cons, List.replicate_succ, trace, hanswer, hleft]
    exact ⟨congrArg (_ :: ·) ih.1, ih.2⟩

/-- A look can be left out: all other answers stay as they are. -/
theorem answers_insert_peek (s : TokenStream) (before after : List Operation) :
    ∃ first later t, first.length = before.length ∧
      (s.trace (before ++ .peek :: after)).answers = first ++ .token t :: later ∧
      (s.trace (before ++ after)).answers = first ++ later := by
  refine ⟨(s.trace before).answers, ((s.trace before).left.trace after).answers,
    (s.trace before).left.peek.1, s.length_answers before, ?_, ?_⟩
  · rw [trace_append]
    have hlater := trace_congr (s.trace before).left.tokens_peek after
    exact congrArg _ (congrArg (_ :: ·) hlater)
  · rw [trace_append]

/-- However a stream over a text is used, no token is lost or repeated. The tokens that were
consumed, the token ahead and those of the text that is left are the tokens of the text. A look and
an advance give the first token that was not consumed, and nothing at the end, where the stream
stays. Looks can be left out. A form takes at least one token where there is one, so that there are
no more forms than tokens, and reading all of them comes to the end or to a form that cannot be
read. -/
theorem stream_conserves (text : String) :
    (∀ ops, ∃ after, after = (ofString text).trace ops ∧
      after.consumed ++ after.left.ahead.toList ++ Token.lex after.left.unread =
        Token.lex text.toList ∧
      (∀ rest, after.consumed ++ rest = Token.lex text.toList →
        after.left.peek.1 = rest.head? ∧ after.left.advance.1 = rest.head?) ∧
      (after.consumed = Token.lex text.toList → ∀ later,
        (after.left.trace later).left.peek.1 = none ∧
          (after.left.trace later).left.advance.1 = none) ∧
      ((∃ d, after.left.parse.1 = .ok d) ∨ after.consumed ≠ Token.lex text.toList →
        Operation.parse.consumed after.left ≠ [])) ∧
    (∀ before after, ∃ first later t, first.length = before.length ∧
      ((ofString text).trace (before ++ .peek :: after)).answers = first ++ .token t :: later ∧
      ((ofString text).trace (before ++ after)).answers = first ++ later) ∧
    (readForms text).1.length ≤ (Token.lex text.toList).length ∧
    ∃ after, after = (ofString text).trace (List.replicate (readForms text).1.length .parse) ∧
      after.answers = (readForms text).1.map (fun d => .form (.ok d)) ∧
      ((readForms text).2 = none → after.left.peek.1 = none) ∧
      ∀ fault, (readForms text).2 = some fault →
        after.left.peek.1.isSome ∧ after.left.parse.1 = .error fault := by
  refine ⟨fun ops => ⟨_, rfl, ?_⟩, (ofString text).answers_insert_peek,
    (ofString text).length_parseAll_le, (ofString text).parseAll_trace⟩
  have hconserves : _ = Token.lex text.toList := (ofString text).trace_conserves ops
  generalize (ofString text).trace ops = after at hconserves ⊢
  have hrest {rest : List Token} (h : after.consumed ++ rest = Token.lex text.toList) :
      after.left.tokens = rest := List.append_cancel_left (hconserves.trans h.symm)
  refine ⟨?_, fun rest h => ?_, fun h later => ?_, fun h hnone => ?_⟩
  · rw [List.append_assoc]
    exact hconserves
  · rw [peek_fst, advance_fst, hrest h]
    exact ⟨rfl, rfl⟩
  · have hnil := hrest ((List.append_nil _).trans h)
    have hlater := after.left.trace_conserves later
    rw [hnil] at hlater
    rw [peek_fst, advance_fst, (List.append_eq_nil_iff.1 hlater).2]
    exact ⟨rfl, rfl⟩
  · have hnil := after.left.consumed_parse_eq_nil_iff.1 hnone
    rcases h with ⟨d, hd⟩ | hne
    · rw [after.left.parse_eq_consume.1, hnil] at hd
      cases hd
    · rw [hnil, List.append_nil] at hconserves
      exact hne hconserves

end TokenStream

end SmallLisp
