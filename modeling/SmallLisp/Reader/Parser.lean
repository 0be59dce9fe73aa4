import SmallLisp.Reader.Literal
import SmallLisp.Reader.TokenStream

/-!
# Reading forms

A form is read token by token while the brackets and marks whose forms are not complete yet wait
on a stack, the innermost on top. A complete form goes into the bracket below it, through the
marks in between. What can go wrong depends on the top of the stack alone.
-/

namespace SmallLisp

/-- What waits for a form: a bracket with the forms read into it so far, the last one first, or
a mark that wraps the next form. -/
inductive Pending where
  | bracket (opener : Char) (items : List Datum)
  | mark (mark head : String)

def closerOf (opener : Char) : Char :=
  if opener == '[' then ']' else if opener == '\x7b' then '\x7d' else ')'

/-- The marks and the symbols that they stand for. -/
def standardMarks : List (String × String) :=
  [("\x27", "quote"), ("\x60", "quasiquote"), ("~", "unquote"), ("~@", "splice-unquote"),
    ("@", "deref")]

/-- The symbol that a mark stands for; of several definitions the last one counts. -/
def headOf? (marks : List (String × String)) (mark : String) : Option String :=
  (marks.reverse.find? (·.1 == mark)).map (·.2)

namespace Datum

def ofBracket (opener : Char) (items : List Datum) : Except SyntaxFault Datum :=
  if opener == '[' then .ok (vec items)
  else if opener == '\x7b' then
    match pairs? items with
    | none => .error .oddMap
    | some pairs =>
      if pairs.all fun pair => pair.1.key?.isSome then .ok (map (Key.collapse key? pairs))
      else .error .collectionKey
  else .ok (list items)

/-- A complete form goes through the marks on top of the stack. It is the result when nothing is
left below them, and a form of the bracket below them otherwise. -/
def settle (d : Datum) : List Pending → Datum ⊕ List Pending
  | [] => .inl d
  | .mark _ head :: stack => settle (wrapped head d) stack
  | .bracket opener items :: stack => .inr (.bracket opener (d :: items) :: stack)

end Datum

/-- What a token means for the stack: a form is complete, or more tokens are needed. -/
def takeToken (stack : List Pending) (t : Token) : Except ReadFault (Datum ⊕ List Pending) :=
  match t.kind, t.chars with
  | .mark, _ =>
    match headOf? standardMarks t.text with
    | some head => .ok (.inr (.mark t.text head :: stack))
    | none => .error (.malformed (.unknownMark t.text))
  | .opener, c :: _ => .ok (.inr (.bracket c [] :: stack))
  | .opener, [] => .ok (.inr stack)
  | .closer, cs =>
    let c := cs.headD ')'
    match stack with
    | .bracket opener items :: stack =>
      if c == closerOf opener then
        match Datum.ofBracket opener items.reverse with
        | .ok d => .ok (d.settle stack)
        | .error fault => .error (.malformed fault)
      else .error (.malformed (.wrongCloser (closerOf opener) c))
    | _ => .error (.malformed (.strayCloser c))
  | .string, cs => .ok ((Datum.ofStringToken cs).settle stack)
  | .unterminated, _ => .error (.malformed .unterminatedString)
  | .symbol, cs =>
    match Datum.ofBare cs with
    | .ok d => .ok (d.settle stack)
    | .error fault => .error fault

def endFault : List Pending → SyntaxFault
  | [] => .noForm
  | .bracket opener _ :: _ => .unclosed (closerOf opener)
  | .mark mark _ :: _ => .nothingAfter mark

namespace TokenStream

/-- Read until the stack is settled. The stream that is left stands behind the last token that
was taken, also when reading fails. -/
def complete (stack : List Pending) (s : TokenStream) : Except ReadFault Datum × TokenStream :=
  match _h : s.advance with
  | (none, s') => (.error (.malformed (endFault stack)), s')
  | (some t, s') =>
    match takeToken stack t with
    | .error fault => (.error fault, s')
    | .ok (.inl d) => (.ok d, s')
    | .ok (.inr stack) => complete stack s'
termination_by s.size
decreasing_by exact size_advance_lt _h

def parse (s : TokenStream) : Except ReadFault Datum × TokenStream := s.complete []

/-- Read the form behind a mark and wrap it, with the given marks in place of the standard ones
for this mark only. -/
def dispatch (marks : List (String × String)) (mark : String) (s : TokenStream) :
    Except ReadFault Datum × TokenStream :=
  match headOf? marks mark with
  | none => (.error (.malformed (.unknownMark mark)), s)
  | some head => s.complete [.mark mark head]

theorem size_complete_le (stack : List Pending) (s : TokenStream) :
    (s.complete stack).2.size ≤ s.size := by
  fun_induction complete stack s with
  | case1 stack s s' h =>
    have : s' = s := by
      obtain ⟨_ | u, cs⟩ := s
      · cases hn : Token.next? cs <;> simp_all [advance]
      · simp [advance] at h
    simp [this]
  | case2 stack s t s' h => exact Nat.le_of_lt (size_advance_lt h)
  | case3 stack s t s' h => exact Nat.le_of_lt (size_advance_lt h)
  | case4 stack s t s' h stack' _ ih => exact Nat.le_trans ih (Nat.le_of_lt (size_advance_lt h))

theorem size_complete_lt {stack : List Pending} {s : TokenStream} {t : Token}
    (h : s.advance.1 = some t) : (s.complete stack).2.size < s.size := by
  rw [complete]
  split
  · simp_all
  · next u s' hs =>
    have hlt := size_advance_lt hs
    split
    · exact hlt
    · exact hlt
    · exact Nat.lt_of_le_of_lt (size_complete_le _ _) hlt

/-- Read all forms up to the end or to the first fault. -/
def parseAll (s : TokenStream) : List Datum × Option ReadFault :=
  match _h : s.peek.1 with
  | none => ([], none)
  | some _t =>
    match _hp : s.parse with
    | (.error fault, _) => ([], some fault)
    | (.ok d, s') =>
      let rest := parseAll s'
      (d :: rest.1, rest.2)
termination_by s.size
decreasing_by
  have h : s.advance.1 = some _t := by rw [advance_fst, ← peek_fst]; exact _h
  have hlt : (s.complete []).2.size < s.size := size_complete_lt h
  rw [show s.complete [] = _ from _hp] at hlt
  exact hlt

end TokenStream

def readForm (text : String) : Except ReadFault Datum := (TokenStream.ofString text).parse.1

/-- The forms of a text, and the fault that ended reading before the end of the text. -/
def readForms (text : String) : List Datum × Option ReadFault :=
  (TokenStream.ofString text).parseAll

end SmallLisp
