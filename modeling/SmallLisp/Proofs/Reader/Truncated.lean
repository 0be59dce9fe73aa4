import SmallLisp.Proofs.Reader.Grammar

/-!
# Truncated forms

The tokens of a form do not go on behind the form, so that a part of them from the front is no form
itself. What reading reports there can be told from the tokens alone: a mark at the end lacks its
form, and otherwise the innermost bracket that is open lacks the one that closes it.
-/

namespace SmallLisp

namespace Token

/-- The open brackets behind a token, the innermost first, when these are open in front of it. -/
def passBracket (brackets : List Char) (t : Token) : List Char :=
  match t.kind with
  | .opener => t.chars ++ brackets
  | .closer => brackets.tail
  | _ => brackets

/-- The brackets that are opened and not closed in tokens, the innermost first. -/
def unclosed (ts : List Token) : List Char := ts.foldl passBracket []

end Token

mutual

/-- Every bracket that is opened in a form is closed in it. -/
theorem Form.passBracket {ts : List Token} {d : Datum} :
    Form ts d → ∀ brackets, ts.foldl Token.passBracket brackets = brackets
  | .bare _ | .string _ => fun _ => rfl
  | .marked _ h => h.passBracket
  | .list h | .vec h | .map h _ => fun brackets => by
    rw [inBrackets, List.foldl_cons, List.foldl_append, h.passBracket]
    rfl

theorem Forms.passBracket {ts : List Token} {items : List Datum} :
    Forms ts items → ∀ brackets, ts.foldl Token.passBracket brackets = brackets
  | .nil => fun _ => rfl
  | .cons hd hitems => fun brackets => by
    rw [List.foldl_append, hd.passBracket, hitems.passBracket]

end

def Pending.openers (stack : List Pending) : List Char :=
  stack.filterMap fun
    | .bracket opener _ => some opener
    | .mark _ _ => none

/-- The brackets that wait on the stack are those that are not closed in the tokens. -/
theorem Opened.unclosed {past : List Token} {stack : List Pending} (h : Opened past stack) :
    Token.unclosed past = Pending.openers stack := by
  unfold Token.unclosed
  induction h with
  | nil => rfl
  | mark _ _ ih =>
    rw [List.foldl_append, ih]
    rfl
  | @bracket _ _ stack opener _ _ _ hitems ih =>
    rw [List.foldl_append, ih, List.foldl_cons, hitems.passBracket]
    rfl

theorem Form.not_mark {ts : List Token} {d : Datum} :
    Form ts d → ∀ t ∈ ts.getLast?, t.kind ≠ .mark
  | .bare _ | .string _ => by simp
  | .marked _ h => by
    rw [List.getLast?_cons_of_ne_nil h.ne_nil]
    exact h.not_mark
  | .list _ | .vec _ | .map _ _ => by simp [inBrackets, List.getLast?_cons]

theorem Forms.not_mark {ts : List Token} {items : List Datum} :
    Forms ts items → ∀ t ∈ ts.getLast?, t.kind ≠ .mark
  | .nil => by simp
  | .cons hd hitems => by
    intro t ht
    rw [List.getLast?_append] at ht
    rcases Option.or_eq_some_iff.1 ht with ht | ⟨-, ht⟩
    · exact hitems.not_mark t ht
    · exact hd.not_mark t ht

mutual

theorem Form.shaped {ts : List Token} {d : Datum} : Form ts d → ∀ t ∈ ts, t.Shaped
  | .bare _ | .string _ => by simp [Token.Shaped]
  | .marked hmark h => List.forall_mem_cons.2 ⟨⟨_, hmark, rfl⟩, h.shaped⟩
  | .list h | .vec h | .map h _ => List.forall_mem_cons.2
    ⟨by simp [Token.Shaped], List.forall_mem_append.2 ⟨h.shaped, by simp [Token.Shaped]⟩⟩

theorem Forms.shaped {ts : List Token} {items : List Datum} : Forms ts items → ∀ t ∈ ts, t.Shaped
  | .nil => List.forall_mem_nil _
  | .cons hd hitems => List.forall_mem_append.2 ⟨hd.shaped, hitems.shaped⟩

end

/-- Where reading comes to when it takes the first ones of some tokens and not all of them. -/
theorem exists_opened {past read left : List Token} {stack : List Pending} {d : Datum}
    (hread : ∀ t ∈ read, t.Shaped) (hleft : left ≠ []) (hstack : Opened past stack)
    (h : consume stack (read ++ left) = (.ok d, [])) :
    ∃ stack', Opened (past ++ read) stack' ∧
      ∀ ts, consume stack (read ++ ts) = consume stack' ts := by
  induction read generalizing past stack with
  | nil => exact ⟨stack, by rwa [List.append_nil], fun _ => rfl⟩
  | cons t read ih =>
    rw [List.forall_mem_cons] at hread
    rw [List.cons_append] at h
    cases htake : takeToken stack t with
    | error fault =>
      rw [consume, htake] at h
      cases h
    | ok outcome =>
      have hamounts := amounts_takeToken hread.1 hstack htake
      rw [consume_cons htake] at h
      cases outcome with
      | inl d' =>
        -- The form would be complete in front of the tokens that are left.
        have hnil : read ++ left = [] := congrArg Prod.snd h
        exact absurd (List.append_eq_nil_iff.1 hnil).2 hleft
      | inr stack₁ =>
        obtain ⟨stack', hopened, hconsume⟩ := ih hread.2 hamounts h
        refine ⟨stack', by simpa using hopened, fun ts => ?_⟩
        rw [List.cons_append, consume_cons htake]
        exact hconsume ts

theorem Form.exists_opened {read left : List Token} {d : Datum} (h : Form (read ++ left) d)
    (hleft : left ≠ []) :
    ∃ stack, Opened read stack ∧ ∀ ts, consume [] (read ++ ts) = consume stack ts := by
  have hread : consume [] (read ++ left) = (.ok d, []) := by
    rw [← List.append_nil (read ++ left)]
    exact h.reads [] []
  have hshaped : ∀ t ∈ read, t.Shaped := fun t ht => h.shaped t (List.mem_append_left left ht)
  exact SmallLisp.exists_opened hshaped hleft .nil hread

/-- Behind tokens that do not end with a mark a bracket waits. -/
theorem Opened.exists_bracket {read : List Token} {stack : List Pending} (h : Opened read stack)
    (hread : read ≠ []) (hlast : (read.getLast hread).kind ≠ .mark) :
    ∃ opener items below, stack = .bracket opener items :: below := by
  cases h with
  | nil => exact absurd rfl hread
  | mark => simp at hlast
  | bracket => exact ⟨_, _, _, rfl⟩

/-- Behind tokens that end with a mark this mark waits. -/
theorem Opened.exists_mark {read : List Token} {stack : List Pending} (h : Opened read stack)
    (hread : read ≠ []) (hlast : (read.getLast hread).kind = .mark) :
    ∃ head below, stack = .mark (read.getLast hread).text head :: below := by
  cases h with
  | nil => exact absurd rfl hread
  | @mark past below mark head _ _ =>
    refine ⟨head, below, ?_⟩
    simp [Token.text]
  | @bracket past ts below opener items _ _ hitems =>
    exfalso
    cases ts with
    | nil => simp at hlast
    | cons t ts =>
      refine hitems.not_mark _ (List.getLast?_eq_some_getLast (List.cons_ne_nil t ts)) ?_
      simpa using hlast

namespace TokenStream

/-- Reading a form from a stream ends with a fault of syntax that says so. -/
def Refuses (s : TokenStream) (message : String) : Prop :=
  ∃ fault, s.parse.1 = .error (.malformed fault) ∧ fault.message = message

theorem refuses_of_consume {s : TokenStream} (fault : SyntaxFault)
    (h : (consume [] s.tokens).1 = .error (.malformed fault)) : s.Refuses fault.message :=
  ⟨fault, s.parse_eq_consume.1.trans h, rfl⟩

/-- The first ones of the tokens of a form are no form. If they end with a mark, the fault is that
nothing follows it. Otherwise a bracket is open, and the fault is that the innermost one is not
closed, or that another bracket stands where it should be closed. -/
theorem truncated_form {read left : List Token} {d : Datum} (h : Form (read ++ left) d)
    (hread : read ≠ []) (hleft : left ≠ []) :
    ((read.getLast hread).kind = .mark → ∀ s : TokenStream, s.tokens = read →
      s.Refuses ("Expected a form after " ++ Text.quoted (read.getLast hread).text ++
        ", got EOF")) ∧
    ((read.getLast hread).kind ≠ .mark →
      ∃ opener outer, Token.unclosed read = opener :: outer ∧
        (∀ s : TokenStream, s.tokens = read →
          s.Refuses ("Expected " ++ apostrophed (closerOf opener) ++ ", got EOF")) ∧
        ∀ (s : TokenStream) (closer : Char) (rest : List Token), closer ≠ closerOf opener →
          s.tokens = read ++ ⟨.closer, [closer]⟩ :: rest →
          s.Refuses ("Expected " ++ apostrophed (closerOf opener) ++ ", got " ++
            apostrophed closer)) := by
  obtain ⟨stack, hopened, hconsume⟩ := h.exists_opened hleft
  have hend : consume [] read = (.error (.malformed (endFault stack)), []) := by
    rw [← List.append_nil read, hconsume]
    rfl
  constructor
  · intro hlast s hs
    obtain ⟨head, below, rfl⟩ := hopened.exists_mark hread hlast
    refine refuses_of_consume (.nothingAfter _) ?_
    rw [hs, hend]
    rfl
  · intro hlast
    obtain ⟨opener, items, below, rfl⟩ := hopened.exists_bracket hread hlast
    refine ⟨opener, Pending.openers below, hopened.unclosed, fun s hs => ?_, ?_⟩
    · refine refuses_of_consume (.unclosed _) ?_
      rw [hs, hend]
      rfl
    · intro s closer rest hcloser hs
      refine refuses_of_consume (.wrongCloser (closerOf opener) closer) ?_
      have htake : takeToken (.bracket opener items :: below) ⟨.closer, [closer]⟩ =
          .error (.malformed (.wrongCloser (closerOf opener) closer)) := by
        simp [takeToken, hcloser]
      rw [hs, hconsume, consume, htake]

/-- A form with a marked symbol and a vector in it, cut off behind the mark and in the vector. -/
theorem truncated_form_vector :
    Form (inBrackets '(' ([⟨.mark, "\x27".toList⟩, ⟨.symbol, ['a']⟩] ++
      (inBrackets '[' ([⟨.symbol, ['b']⟩] ++ []) ++ [])))
      (.list [.list [.sym "quote", .sym "a"], .vec [.sym "b"]]) ∧
    (ofString "(\x27").Refuses "Expected a form after \"\x27\", got EOF" ∧
    (ofString "(\x27a [b").Refuses "Expected \x27]\x27, got EOF" ∧
    (ofString "(\x27a [b)").Refuses "Expected \x27]\x27, got \x27)\x27" := by
  have hform : Form (inBrackets '(' ([⟨.mark, "\x27".toList⟩, ⟨.symbol, ['a']⟩] ++
      (inBrackets '[' ([⟨.symbol, ['b']⟩] ++ []) ++ [])))
      (.list [.list [.sym "quote", .sym "a"], .vec [.sym "b"]]) :=
    .list (.cons (.marked (by decide) (.bare rfl)) (.cons (.vec (.cons (.bare rfl) .nil)) .nil))
  have hmarked : Form ([⟨.opener, ['(']⟩, ⟨.mark, ['\x27']⟩] ++ [⟨.symbol, ['a']⟩,
      ⟨.opener, ['[']⟩, ⟨.symbol, ['b']⟩, ⟨.closer, [']']⟩, ⟨.closer, [')']⟩]) _ := hform
  have hopened : Form ([⟨.opener, ['(']⟩, ⟨.mark, ['\x27']⟩, ⟨.symbol, ['a']⟩,
      ⟨.opener, ['[']⟩, ⟨.symbol, ['b']⟩] ++ [⟨.closer, [']']⟩, ⟨.closer, [')']⟩]) _ := hform
  have htext : "(\x27".toList = ['(', '\x27'] ∧
      "(\x27a [b".toList = ['(', '\x27', 'a', ' ', '[', 'b'] ∧
      "(\x27a [b)".toList = ['(', '\x27', 'a', ' ', '[', 'b', ')'] := ⟨rfl, rfl, rfl⟩
  have hmark : (ofString "(\x27").tokens = [⟨.opener, ['(']⟩, ⟨.mark, ['\x27']⟩] := by
    rw [ofString, tokens_ofChars, htext.1]
    simp [Token.lex_cons, Token.cut, Token.isSeparator, Token.isOpener, Text.isBlank]
  have hopen : (ofString "(\x27a [b").tokens = [⟨.opener, ['(']⟩, ⟨.mark, ['\x27']⟩,
      ⟨.symbol, ['a']⟩, ⟨.opener, ['[']⟩, ⟨.symbol, ['b']⟩] := by
    rw [ofString, tokens_ofChars, htext.2.1]
    simp [Token.lex_cons, Token.lex_separator, Token.cut, Token.isSeparator, Token.isOpener,
      Token.isCloser, Token.isDelimiter, Text.isBlank]
  have hwrong : (ofString "(\x27a [b)").tokens = [⟨.opener, ['(']⟩, ⟨.mark, ['\x27']⟩,
      ⟨.symbol, ['a']⟩, ⟨.opener, ['[']⟩, ⟨.symbol, ['b']⟩] ++ [⟨.closer, [')']⟩] := by
    rw [ofString, tokens_ofChars, htext.2.2]
    simp [Token.lex_cons, Token.lex_separator, Token.cut, Token.isSeparator, Token.isOpener,
      Token.isCloser, Token.isDelimiter, Text.isBlank]
  -- The messages are evaluated apart from the streams, which would be unfolded with them.
  have hshown : "Expected a form after " ++ Text.quoted (Token.text ⟨.mark, ['\x27']⟩) =
        "Expected a form after \"\x27\"" ∧
      "Expected " ++ apostrophed (closerOf '[') = "Expected \x27]\x27" ∧
      apostrophed ')' = "\x27)\x27" := by decide
  obtain ⟨opener, outer, hunclosed, hend, hother⟩ :=
    (truncated_form hopened (by decide) (by simp)).2 (by decide)
  obtain rfl : '[' = opener := (List.cons.inj hunclosed).1
  rw [hshown.2.1] at hend hother
  refine ⟨hform, ?_, hend _ hopen, ?_⟩
  · have hrefuses := (truncated_form hmarked (by decide) (by simp)).1 rfl _ hmark
    rwa [List.getLast_cons_cons, List.getLast_singleton, hshown.1] at hrefuses
  · have hrefuses := hother _ ')' [] (by decide) hwrong
    rwa [hshown.2.2] at hrefuses

end TokenStream

end SmallLisp
