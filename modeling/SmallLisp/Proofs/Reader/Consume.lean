import Mathlib.Tactic
import SmallLisp.Reader.Parser

/-!
# Reading along a list of tokens

What a stream reads depends on its tokens alone, so that reading is a recursion along them.
-/

namespace SmallLisp

/-- Read until the stack is settled: the result and the tokens that are left. -/
def consume (stack : List Pending) : List Token → Except ReadFault Datum × List Token
  | [] => (.error (.malformed (endFault stack)), [])
  | t :: ts =>
    match takeToken stack t with
    | .error fault => (.error fault, ts)
    | .ok (.inl d) => (.ok d, ts)
    | .ok (.inr stack) => consume stack ts

theorem consume_suffix (stack : List Pending) (ts : List Token) : (consume stack ts).2 <:+ ts := by
  fun_induction consume stack ts with
  | case1 => exact List.suffix_rfl
  | case2 stack t ts => exact List.suffix_cons t ts
  | case3 stack t ts => exact List.suffix_cons t ts
  | case4 stack t ts stack' _ ih => exact ih.trans (List.suffix_cons t ts)

namespace TokenStream

theorem tokens_of_advance {s s' : TokenStream} {t : Token} (h : s.advance = (some t, s')) :
    s.tokens = t :: s'.tokens := by
  have hhead := s.advance_fst
  have htail := s.tokens_advance
  rw [h] at hhead htail
  rw [show s'.tokens = s.tokens.tail from htail]
  exact (List.cons_head?_tail hhead.symm).symm

theorem tokens_of_advance_none {s s' : TokenStream} (h : s.advance = (none, s')) :
    s.tokens = [] ∧ s'.tokens = [] := by
  have hhead := s.advance_fst
  have htail := s.tokens_advance
  rw [h] at hhead htail
  have hnil : s.tokens = [] := List.head?_eq_none_iff.1 hhead.symm
  rw [hnil] at htail
  exact ⟨hnil, htail⟩

end TokenStream

theorem TokenStream.complete_eq_consume (stack : List Pending) (s : TokenStream) :
    (s.complete stack).1 = (consume stack s.tokens).1 ∧
      (s.complete stack).2.tokens = (consume stack s.tokens).2 := by
  fun_induction complete stack s with
  | case1 stack s s' h =>
    obtain ⟨hnil, hrest⟩ := tokens_of_advance_none h
    rw [hnil]
    exact ⟨rfl, hrest⟩
  | case2 stack s t s' h fault htake => simp [tokens_of_advance h, consume, htake]
  | case3 stack s t s' h d htake => simp [tokens_of_advance h, consume, htake]
  | case4 stack s t s' h stack' htake ih => simpa [tokens_of_advance h, consume, htake] using ih

/-- Reading a form from a stream reads it from the tokens of the stream. -/
theorem TokenStream.parse_eq_consume (s : TokenStream) :
    s.parse.1 = (consume [] s.tokens).1 ∧ s.parse.2.tokens = (consume [] s.tokens).2 :=
  complete_eq_consume [] s

theorem readForm_eq_consume (text : String) :
    readForm text = (consume [] (Token.lex text.toList)).1 :=
  (TokenStream.parse_eq_consume _).1

/-- Go on with what a complete form has settled. -/
def resume (ts : List Token) : Datum ⊕ List Pending → Except ReadFault Datum × List Token
  | .inl d => (.ok d, ts)
  | .inr stack => consume stack ts

theorem consume_cons {stack : List Pending} {t : Token} {outcome : Datum ⊕ List Pending}
    (h : takeToken stack t = .ok outcome) (ts : List Token) :
    consume stack (t :: ts) = resume ts outcome := by
  rw [consume, h]
  cases outcome <;> rfl

end SmallLisp
