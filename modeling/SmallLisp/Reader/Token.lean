import SmallLisp.Text.Blank

/-!
# Tokens

A text is a sequence of tokens between separators. Separators are blanks, commas and comments,
which run from a semicolon to the end of the line. Every other character begins a token, so that
cutting a text into tokens never fails.
-/

namespace SmallLisp

inductive TokenKind where
  | mark
  | opener
  | closer
  | string
  | unterminated
  | symbol
  deriving DecidableEq, Repr

structure Token where
  kind : TokenKind
  chars : List Char
  deriving DecidableEq

namespace Token

def text (t : Token) : String := String.ofList t.chars

def isOpener (c : Char) : Bool := c == '(' || c == '[' || c == '\x7b'

def isCloser (c : Char) : Bool := c == ')' || c == ']' || c == '\x7d'

def isDelimiter (c : Char) : Bool :=
  Text.isBlank c || isOpener c || isCloser c ||
    c == '\x27' || c == '\x22' || c == '\x60' || c == ',' || c == ';'

def isSeparator (c : Char) : Bool := Text.isBlank c || c == ','

/-- The text behind a comment, from the end of its line on. -/
def afterComment (cs : List Char) : List Char := cs.dropWhile (· != '\n')

theorem length_afterComment_le (cs : List Char) : (afterComment cs).length ≤ cs.length :=
  (List.dropWhile_sublist _).length_le

def skipSeparators : List Char → List Char
  | [] => []
  | c :: cs =>
    if isSeparator c then skipSeparators cs
    else if c == ';' then skipSeparators (afterComment cs)
    else c :: cs
termination_by cs => cs.length
decreasing_by
  · simp
  · have := length_afterComment_le cs
    simp only [List.length_cons]
    omega

theorem length_skipSeparators_le (cs : List Char) : (skipSeparators cs).length ≤ cs.length := by
  fun_induction skipSeparators cs with
  | case1 => simp
  | case2 c cs _ ih => simp only [List.length_cons]; omega
  | case3 c cs _ _ ih =>
    have := length_afterComment_le cs
    simp only [List.length_cons]
    omega
  | case4 => simp

/-- The inside of a string up to the quote that ends it, and the text behind that quote; `none`
when no quote ends it. A backslash takes the next character with it. -/
def stringBody? : List Char → Option (List Char × List Char)
  | [] => none
  | [c] => if c == '\x22' then some ([], []) else none
  | c :: d :: rest =>
    if c == '\x22' then some ([], d :: rest)
    else if c == '\\' then (stringBody? rest).map fun r => (c :: d :: r.1, r.2)
    else (stringBody? (d :: rest)).map fun r => (c :: r.1, r.2)

theorem append_of_stringBody? {cs body rest : List Char} (h : stringBody? cs = some (body, rest)) :
    cs = body ++ '\x22' :: rest := by
  fun_induction stringBody? cs generalizing body rest with
  | case1 => simp at h
  | case2 c hc => simp_all
  | case3 c hc => simp at h
  | case4 c d r hc => simp_all
  | case5 c d r _ _ ih =>
    obtain ⟨⟨b, t⟩, hb, heq⟩ := Option.map_eq_some_iff.1 h
    simp only [Prod.mk.injEq] at heq
    rw [ih hb, ← heq.1, ← heq.2]
    rfl
  | case6 c d r _ _ ih =>
    obtain ⟨⟨b, t⟩, hb, heq⟩ := Option.map_eq_some_iff.1 h
    simp only [Prod.mk.injEq] at heq
    rw [ih hb, ← heq.1, ← heq.2]
    rfl

/-- The token that a text begins with, when no separator comes first, and what follows it. -/
def cut (c : Char) (cs : List Char) : Token × List Char :=
  if c == '~' && cs.head? == some '@' then (⟨.mark, [c, '@']⟩, cs.drop 1)
  else if c == '\x27' || c == '\x60' || c == '~' || c == '@' then (⟨.mark, [c]⟩, cs)
  else if isOpener c then (⟨.opener, [c]⟩, cs)
  else if isCloser c then (⟨.closer, [c]⟩, cs)
  else if c == '\x22' then
    match stringBody? cs with
    | some (body, rest) => (⟨.string, c :: body ++ ['\x22']⟩, rest)
    | none => (⟨.unterminated, c :: cs⟩, [])
  else
    (⟨.symbol, c :: cs.takeWhile (!isDelimiter ·)⟩, cs.dropWhile (!isDelimiter ·))

theorem chars_cut_append (c : Char) (cs : List Char) :
    (cut c cs).1.chars ++ (cut c cs).2 = c :: cs := by
  unfold cut
  split
  · next h =>
    simp only [Bool.and_eq_true, beq_iff_eq] at h
    cases cs with
    | nil => simp at h
    | cons d ds => simp_all
  · split
    · rfl
    · split
      · rfl
      · split
        · rfl
        · split
          · next h =>
            cases hb : stringBody? cs with
            | none => simp
            | some r => simp [append_of_stringBody? hb]
          · simp [List.takeWhile_append_dropWhile]

theorem length_cut_lt (c : Char) (cs : List Char) : (cut c cs).2.length < cs.length + 1 := by
  have hne : (cut c cs).1.chars ≠ [] := by
    unfold cut
    repeat' split
    all_goals simp
  have := congrArg List.length (chars_cut_append c cs)
  have := List.length_pos_iff.2 hne
  simp only [List.length_append, List.length_cons] at *
  omega

def next? (cs : List Char) : Option (Token × List Char) :=
  match skipSeparators cs with
  | [] => none
  | c :: rest => some (cut c rest)

theorem length_lt_of_next? {cs : List Char} {t : Token} {rest : List Char}
    (h : next? cs = some (t, rest)) : rest.length < cs.length := by
  unfold next? at h
  have hle := length_skipSeparators_le cs
  split at h
  · simp at h
  · next c r hs =>
    have := length_cut_lt c r
    rw [Option.some.injEq] at h
    rw [h] at this
    simp only [hs, List.length_cons] at hle
    simp only at this
    omega

def lex (cs : List Char) : List Token :=
  match _h : next? cs with
  | none => []
  | some (t, rest) => t :: lex rest
termination_by cs.length
decreasing_by exact length_lt_of_next? _h

theorem lex_of_next?_eq_none {cs : List Char} (h : next? cs = none) : lex cs = [] := by
  rw [lex]; split <;> simp_all

theorem lex_of_next?_eq_some {cs rest : List Char} {t : Token} (h : next? cs = some (t, rest)) :
    lex cs = t :: lex rest := by
  rw [lex]; split <;> simp_all

end Token

end SmallLisp
