import SmallLisp.Reader.Token

/-!
# Token streams

A stream holds the text that has not been cut yet and at most one token that was cut ahead.
Looking at the first token cuts it and keeps it; taking it removes it.
-/

namespace SmallLisp

structure TokenStream where
  ahead : Option Token
  unread : List Char

namespace TokenStream

def ofChars (cs : List Char) : TokenStream := ⟨none, cs⟩

def ofString (s : String) : TokenStream := ofChars s.toList

/-- The tokens that are still to be taken. -/
def tokens (s : TokenStream) : List Token := s.ahead.toList ++ Token.lex s.unread

@[simp] theorem tokens_ofChars (cs : List Char) : (ofChars cs).tokens = Token.lex cs := rfl

/-- The first token, `none` at the end, and the stream that keeps it ahead. -/
def peek (s : TokenStream) : Option Token × TokenStream :=
  match s.ahead with
  | some t => (some t, s)
  | none =>
    match Token.next? s.unread with
    | some (t, rest) => (some t, ⟨some t, rest⟩)
    | none => (none, s)

def advance (s : TokenStream) : Option Token × TokenStream :=
  match s.ahead with
  | some t => (some t, ⟨none, s.unread⟩)
  | none =>
    match Token.next? s.unread with
    | some (t, rest) => (some t, ⟨none, rest⟩)
    | none => (none, s)

theorem peek_fst (s : TokenStream) : s.peek.1 = s.tokens.head? := by
  obtain ⟨_ | t, cs⟩ := s
  · cases h : Token.next? cs with
    | none => simp [peek, tokens, h, Token.lex_of_next?_eq_none]
    | some r => simp [peek, tokens, h, Token.lex_of_next?_eq_some h]
  · rfl

@[simp] theorem tokens_peek (s : TokenStream) : s.peek.2.tokens = s.tokens := by
  obtain ⟨_ | t, cs⟩ := s
  · cases h : Token.next? cs with
    | none => simp [peek, h]
    | some r => simp [peek, tokens, h, Token.lex_of_next?_eq_some h]
  · rfl

theorem advance_fst (s : TokenStream) : s.advance.1 = s.tokens.head? := by
  obtain ⟨_ | t, cs⟩ := s
  · cases h : Token.next? cs with
    | none => simp [advance, tokens, h, Token.lex_of_next?_eq_none]
    | some r => simp [advance, tokens, h, Token.lex_of_next?_eq_some h]
  · rfl

@[simp] theorem tokens_advance (s : TokenStream) : s.advance.2.tokens = s.tokens.tail := by
  obtain ⟨_ | t, cs⟩ := s
  · cases h : Token.next? cs with
    | none => simp [advance, tokens, h, Token.lex_of_next?_eq_none]
    | some r => simp [advance, tokens, h, Token.lex_of_next?_eq_some h]
  · rfl

/-- A bound on the tokens that are still to be taken, for recursion along the stream. -/
def size (s : TokenStream) : Nat := s.unread.length + if s.ahead.isSome then 1 else 0

theorem size_advance_lt {s s' : TokenStream} {t : Token} (h : s.advance = (some t, s')) :
    s'.size < s.size := by
  obtain ⟨_ | u, cs⟩ := s
  · cases hn : Token.next? cs with
    | none => simp [advance, hn] at h
    | some r =>
      simp only [advance, hn, Prod.mk.injEq] at h
      have := Token.length_lt_of_next? hn
      simp [← h.2, size, this]
  · simp only [advance, Prod.mk.injEq] at h
    simp [← h.2, size]

end TokenStream

end SmallLisp
