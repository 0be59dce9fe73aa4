import SmallLisp.Proofs.Reader.Consume
import SmallLisp.Proofs.Reader.Lexing

/-!
# The grammar of forms

Which sequences of tokens are forms is said here without a stack. The reader accepts exactly the
tokens of a form in front of whatever follows: a form settles its datum, and the tokens that are
taken until a datum is settled make up a form.
-/

namespace SmallLisp

namespace Datum

def IsCollection : Datum → Prop
  | list _ | vec _ | map _ => True
  | _ => False

theorem isSome_key?_iff (d : Datum) : d.key?.isSome = true ↔ ¬ d.IsCollection := by
  cases d <;> simp [key?, IsCollection]

/-- The keys and values of entries in the order of the text. -/
def flatten (entries : List (Datum × Datum)) : List Datum :=
  entries.flatMap fun entry => [entry.1, entry.2]

theorem pairs?_flatten (entries : List (Datum × Datum)) :
    pairs? (flatten entries) = some entries := by
  induction entries with
  | nil => rfl
  | cons entry entries ih =>
    obtain ⟨k, d⟩ := entry
    change (pairs? (flatten entries)).map _ = _
    rw [ih]
    rfl

theorem flatten_of_pairs? {items : List Datum} {pairs : List (Datum × Datum)}
    (h : pairs? items = some pairs) : flatten pairs = items := by
  fun_induction pairs? items generalizing pairs with
  | case1 =>
    obtain rfl := Option.some.inj h
    rfl
  | case2 => simp at h
  | case3 k v rest ih =>
    obtain ⟨pairs', hpairs', rfl⟩ := Option.map_eq_some_iff.1 h
    exact congrArg (k :: v :: ·) (ih hpairs')

end Datum

def inBrackets (opener : Char) (ts : List Token) : List Token :=
  ⟨.opener, [opener]⟩ :: (ts ++ [⟨.closer, [closerOf opener]⟩])

mutual

/-- The tokens of a form and the datum that it denotes. -/
inductive Form : List Token → Datum → Prop
  | bare {cs : List Char} {d : Datum} : Datum.ofBare cs = .ok d → Form [⟨.symbol, cs⟩] d
  | string (cs : List Char) : Form [⟨.string, cs⟩] (Datum.ofStringToken cs)
  | marked {mark head : String} {ts : List Token} {d : Datum} :
      (mark, head) ∈ standardMarks → Form ts d →
      Form (⟨.mark, mark.toList⟩ :: ts) (Datum.wrapped head d)
  | list {ts : List Token} {items : List Datum} :
      Forms ts items → Form (inBrackets '(' ts) (.list items)
  | vec {ts : List Token} {items : List Datum} :
      Forms ts items → Form (inBrackets '[' ts) (.vec items)
  | map {ts : List Token} {entries : List (Datum × Datum)} :
      Forms ts (Datum.flatten entries) → (∀ entry ∈ entries, ¬ entry.1.IsCollection) →
      Form (inBrackets '\x7b' ts) (.map (Key.collapse Datum.key? entries))

inductive Forms : List Token → List Datum → Prop
  | nil : Forms [] []
  | cons {ts rest : List Token} {d : Datum} {items : List Datum} :
      Form ts d → Forms rest items → Forms (ts ++ rest) (d :: items)

end

theorem Form.ne_nil {ts : List Token} {d : Datum} (h : Form ts d) : ts ≠ [] := by
  cases h <;> simp [inBrackets]

theorem Forms.snoc {ts last : List Token} {items : List Datum} {d : Datum} :
    Forms ts items → Form last d → Forms (ts ++ last) (items ++ [d])
  | .nil, hd => by simpa using Forms.cons hd .nil
  | .cons hitem hitems, hd => by simpa using Forms.cons hitem (hitems.snoc hd)

/-- Tokens settle a datum, whatever waits for it and whatever follows. -/
def Reads (ts : List Token) (d : Datum) : Prop :=
  ∀ stack rest, consume stack (ts ++ rest) = resume rest (d.settle stack)

theorem headOf?_of_mem {mark head : String} (h : (mark, head) ∈ standardMarks) :
    headOf? standardMarks mark = some head := by
  have hall : ∀ entry ∈ standardMarks, headOf? standardMarks entry.1 = some entry.2 := by decide
  exact hall _ h

theorem takeToken_symbol {cs : List Char} {d : Datum} (h : Datum.ofBare cs = .ok d)
    (stack : List Pending) : takeToken stack ⟨.symbol, cs⟩ = .ok (d.settle stack) := by
  rw [takeToken]
  simp only [h]

theorem takeToken_mark {mark head : String} (h : (mark, head) ∈ standardMarks)
    (stack : List Pending) :
    takeToken stack ⟨.mark, mark.toList⟩ = .ok (.inr (.mark mark head :: stack)) := by
  rw [takeToken]
  simp only [Token.text, String.ofList_toList, headOf?_of_mem h]

theorem takeToken_closer {opener : Char} {items : List Datum} {d : Datum}
    (h : Datum.ofBracket opener items = .ok d) (stack : List Pending) :
    takeToken (.bracket opener items.reverse :: stack) ⟨.closer, [closerOf opener]⟩ =
      .ok (d.settle stack) := by
  rw [takeToken]
  simp only [List.headD_cons, beq_self_eq_true, if_true, List.reverse_reverse, h]

theorem ofBracket_flatten {entries : List (Datum × Datum)}
    (h : ∀ entry ∈ entries, ¬ entry.1.IsCollection) :
    Datum.ofBracket '\x7b' (Datum.flatten entries) =
      .ok (.map (Key.collapse Datum.key? entries)) := by
  have hkeys : (entries.all fun entry => entry.1.key?.isSome) = true :=
    List.all_eq_true.2 fun entry hentry => entry.1.isSome_key?_iff.2 (h entry hentry)
  simp [Datum.ofBracket, Datum.pairs?_flatten, hkeys]

theorem reads_inBrackets {opener : Char} {ts : List Token} {items : List Datum} {d : Datum}
    (hd : Datum.ofBracket opener items = .ok d)
    (hitems : ∀ stack rest, consume (.bracket opener [] :: stack) (ts ++ rest) =
      consume (.bracket opener (items.reverse ++ []) :: stack) rest) :
    Reads (inBrackets opener ts) d := by
  intro stack rest
  have hopen : takeToken stack ⟨.opener, [opener]⟩ = .ok (.inr (.bracket opener [] :: stack)) := rfl
  calc consume stack (inBrackets opener ts ++ rest)
      = consume (.bracket opener [] :: stack)
          (ts ++ (⟨.closer, [closerOf opener]⟩ :: rest)) := by
        rw [inBrackets, List.cons_append, consume_cons hopen, List.append_assoc]
        rfl
    _ = consume (.bracket opener items.reverse :: stack)
          (⟨.closer, [closerOf opener]⟩ :: rest) := by
        rw [hitems, List.append_nil]
    _ = resume rest (d.settle stack) := consume_cons (takeToken_closer hd stack) rest

mutual

/-- The tokens of a form settle its datum. -/
theorem Form.reads {ts : List Token} {d : Datum} : Form ts d → Reads ts d
  | .bare h => fun stack rest => consume_cons (takeToken_symbol h stack) rest
  | .string cs => fun stack rest => consume_cons rfl rest
  | .marked hmark h => fun stack rest => by
    rw [List.cons_append, consume_cons (takeToken_mark hmark stack)]
    exact h.reads (.mark _ _ :: stack) rest
  | .list h => reads_inBrackets rfl (h.consume '(' [])
  | .vec h => reads_inBrackets rfl (h.consume '[' [])
  | .map h hkeys => reads_inBrackets (ofBracket_flatten hkeys) (h.consume '\x7b' [])

/-- The tokens of forms put their data into the bracket that waits for them. -/
theorem Forms.consume {ts : List Token} {items : List Datum} : Forms ts items →
    ∀ opener read stack rest, consume (.bracket opener read :: stack) (ts ++ rest) =
      consume (.bracket opener (items.reverse ++ read) :: stack) rest
  | .nil => fun _ _ _ _ => rfl
  | .cons (d := d) hd hitems => fun opener read stack rest => by
    rw [List.append_assoc, hd.reads]
    change SmallLisp.consume (.bracket opener (d :: read) :: stack) _ = _
    rw [hitems.consume opener (d :: read) stack rest, List.reverse_cons, List.append_assoc,
      List.singleton_append]

end

/-- Only one form stands in front of a sequence of tokens. -/
theorem Form.unique {ts ts' rest rest' : List Token} {d d' : Datum} (h : Form ts d)
    (h' : Form ts' d') (heq : ts ++ rest = ts' ++ rest') : ts = ts' ∧ d = d' := by
  have hread : consume [] (ts ++ rest) = (.ok d, rest) := h.reads [] rest
  have hread' : consume [] (ts' ++ rest') = (.ok d', rest') := h'.reads [] rest'
  rw [heq, hread'] at hread
  obtain ⟨hd, rfl⟩ := Prod.mk.inj hread
  exact ⟨List.append_cancel_right heq, (Except.ok.inj hd).symm⟩

/-- Brackets are single characters and marks stand in the table of marks. -/
def Token.Shaped (t : Token) : Prop :=
  match t.kind with
  | .mark => ∃ entry ∈ standardMarks, t.chars = entry.1.toList
  | .opener => t.chars = ['('] ∨ t.chars = ['['] ∨ t.chars = ['\x7b']
  | .closer => ∃ c, t.chars = [c]
  | _ => True

theorem Token.shaped_cut (c : Char) (cs : List Char) : (cut c cs).1.Shaped := by
  unfold cut
  split_ifs with hsplice hmark hopener hcloser hquote
  · simp only [Bool.and_eq_true, beq_iff_eq] at hsplice
    obtain ⟨rfl, -⟩ := hsplice
    exact ⟨("~@", "splice-unquote"), by decide, rfl⟩
  · simp only [Bool.or_eq_true, beq_iff_eq] at hmark
    rcases hmark with ((rfl | rfl) | rfl) | rfl
    · exact ⟨("\x27", "quote"), by decide, rfl⟩
    · exact ⟨("\x60", "quasiquote"), by decide, rfl⟩
    · exact ⟨("~", "unquote"), by decide, rfl⟩
    · exact ⟨("@", "deref"), by decide, rfl⟩
  · simp only [isOpener, Bool.or_eq_true, beq_iff_eq] at hopener
    rcases hopener with (rfl | rfl) | rfl
    · exact .inl rfl
    · exact .inr (.inl rfl)
    · exact .inr (.inr rfl)
  · exact ⟨c, rfl⟩
  · split <;> trivial
  · trivial

theorem Token.shaped_of_mem_lex (cs : List Char) : ∀ t ∈ lex cs, t.Shaped :=
  forall_mem_lex (fun c cs _ _ => shaped_cut c cs) cs

/-- Tokens that have been taken and what waits for a form after them. -/
inductive Opened : List Token → List Pending → Prop
  | nil : Opened [] []
  | mark {past : List Token} {stack : List Pending} {mark head : String} :
      Opened past stack → (mark, head) ∈ standardMarks →
      Opened (past ++ [⟨.mark, mark.toList⟩]) (.mark mark head :: stack)
  | bracket {past ts : List Token} {stack : List Pending} {opener : Char} {items : List Datum} :
      Opened past stack → opener = '(' ∨ opener = '[' ∨ opener = '\x7b' →
      Forms ts items.reverse →
      Opened (past ++ (⟨.opener, [opener]⟩ :: ts)) (.bracket opener items :: stack)

/-- What the taken tokens amount to: a form, or something that waits for one. -/
def Amounts (past : List Token) : Datum ⊕ List Pending → Prop
  | .inl d => Form past d
  | .inr stack => Opened past stack

theorem amounts_settle {past ts : List Token} {stack : List Pending} {d : Datum}
    (hstack : Opened past stack) (hd : Form ts d) : Amounts (past ++ ts) (d.settle stack) := by
  induction hstack generalizing ts d with
  | nil => exact hd
  | mark _ hmark ih =>
    -- A marked form is complete itself and settles what is below the mark.
    rw [List.append_assoc, List.singleton_append]
    exact ih (.marked hmark hd)
  | @bracket past ts' stack opener items hpast hopener hitems ih =>
    have hmore : Forms (ts' ++ ts) (d :: items).reverse := by
      rw [List.reverse_cons]
      exact hitems.snoc hd
    rw [List.append_assoc, List.cons_append]
    exact .bracket hpast hopener hmore

theorem form_of_ofBracket {opener : Char} {ts : List Token} {items : List Datum} {d : Datum}
    (hopener : opener = '(' ∨ opener = '[' ∨ opener = '\x7b') (hitems : Forms ts items)
    (h : Datum.ofBracket opener items = .ok d) : Form (inBrackets opener ts) d := by
  rcases hopener with rfl | rfl | rfl
  · obtain rfl := Except.ok.inj h
    exact .list hitems
  · obtain rfl := Except.ok.inj h
    exact .vec hitems
  · rw [Datum.ofBracket, if_neg (by decide), if_pos (by decide)] at h
    split at h
    · cases h
    · next pairs hpairs =>
      split_ifs at h with hkeys
      obtain rfl := Except.ok.inj h
      rw [← Datum.flatten_of_pairs? hpairs] at hitems
      refine .map hitems fun entry hentry => ?_
      exact entry.1.isSome_key?_iff.1 (List.all_eq_true.1 hkeys entry hentry)

/-- A token that is taken adds to what the tokens before it amount to. -/
theorem amounts_takeToken {past : List Token} {stack : List Pending} {t : Token}
    {outcome : Datum ⊕ List Pending} (ht : t.Shaped) (hstack : Opened past stack)
    (h : takeToken stack t = .ok outcome) : Amounts (past ++ [t]) outcome := by
  obtain ⟨kind, cs⟩ := t
  cases kind with
  | mark =>
    obtain ⟨⟨mark, head⟩, hmark, hcs⟩ := ht
    obtain rfl : cs = mark.toList := hcs
    rw [takeToken_mark hmark] at h
    obtain rfl := Except.ok.inj h
    exact .mark hstack hmark
  | opener =>
    obtain ⟨c, rfl, hc⟩ : ∃ c, cs = [c] ∧ (c = '(' ∨ c = '[' ∨ c = '\x7b') := by
      rcases ht with h | h | h
      · exact ⟨_, h, .inl rfl⟩
      · exact ⟨_, h, .inr (.inl rfl)⟩
      · exact ⟨_, h, .inr (.inr rfl)⟩
    obtain rfl := Except.ok.inj h
    exact .bracket hstack hc .nil
  | closer =>
    obtain ⟨c, hcs⟩ := ht
    obtain rfl : cs = [c] := hcs
    cases hstack with
    | nil => cases h
    | mark => cases h
    | @bracket past ts stack opener items hpast hopener hitems =>
      have hc : c = closerOf opener := by
        by_contra hne
        simp [takeToken, hne] at h
      subst hc
      simp only [takeToken, List.headD_cons, beq_self_eq_true, if_true] at h
      split at h
      · next d hd =>
        obtain rfl := Except.ok.inj h
        have hform := amounts_settle hpast (form_of_ofBracket hopener hitems hd)
        simpa [inBrackets] using hform
      · cases h
  | string =>
    obtain rfl := Except.ok.inj h
    exact amounts_settle hstack (.string cs)
  | unterminated => cases h
  | symbol =>
    simp only [takeToken] at h
    split at h
    · next d hd =>
      obtain rfl := Except.ok.inj h
      exact amounts_settle hstack (.bare hd)
    · cases h

/-- The tokens that are taken until a datum is settled make up a form of the datum. -/
theorem form_of_consume {past ts rest : List Token} {stack : List Pending} {d : Datum}
    (hts : ∀ t ∈ ts, t.Shaped) (hstack : Opened past stack)
    (h : consume stack ts = (.ok d, rest)) : ∃ used, ts = used ++ rest ∧ Form (past ++ used) d := by
  fun_induction consume stack ts generalizing past with
  | case1 => cases congrArg Prod.fst h
  | case2 => cases congrArg Prod.fst h
  | case3 stack t ts d' htake =>
    obtain ⟨hd, rfl⟩ := Prod.mk.inj h
    obtain rfl := Except.ok.inj hd
    exact ⟨[t], rfl, amounts_takeToken (hts t (by simp)) hstack htake⟩
  | case4 stack t ts stack' htake ih =>
    rw [List.forall_mem_cons] at hts
    obtain ⟨used, rfl, hform⟩ := ih hts.2 (amounts_takeToken hts.1 hstack htake) h
    refine ⟨t :: used, rfl, ?_⟩
    rwa [List.append_assoc, List.singleton_append] at hform

/-- A form of a datum stands in front of tokens exactly when the datum is read from them. -/
theorem consume_eq_ok_iff {ts rest : List Token} {d : Datum} (hts : ∀ t ∈ ts, t.Shaped) :
    consume [] ts = (.ok d, rest) ↔ ∃ used, ts = used ++ rest ∧ Form used d := by
  constructor
  · exact form_of_consume hts .nil
  · rintro ⟨used, rfl, hform⟩
    exact hform.reads [] rest

/-- A symbol token that is an integer of so many digits, which are more than are converted. -/
def Token.IsLongInteger (t : Token) (digits : Nat) : Prop :=
  t.kind = .symbol ∧ maxDigits < digits ∧
    ∃ n, NumberText.ofChars? t.chars = some n ∧ n.isInteger = true ∧ n.whole.length = digits

theorem isLongInteger_of_ofBare {cs : List Char} {digits : Nat}
    (h : Datum.ofBare cs = .error (.digitLimit digits)) :
    Token.IsLongInteger ⟨.symbol, cs⟩ digits := by
  unfold Datum.ofBare at h
  split at h
  · cases h
  · split at h
    · next n hn =>
      unfold NumberText.datum at h
      split_ifs at h with hinteger hlong
      obtain rfl := ReadFault.digitLimit.inj (Except.error.inj h)
      exact ⟨rfl, hlong, n, hn, hinteger, rfl⟩
    · split_ifs at h
      · cases h
      · split at h <;> cases h

theorem isLongInteger_of_takeToken {stack : List Pending} {t : Token} {digits : Nat}
    (h : takeToken stack t = .error (.digitLimit digits)) : t.IsLongInteger digits := by
  unfold takeToken at h
  split at h
  · split at h <;> cases h
  · cases h
  · cases h
  · split at h
    · dsimp only at h
      split_ifs at h
      · split at h <;> cases h
      · cases h
    · cases h
  · cases h
  · cases h
  · next cs hkind =>
    split at h
    · cases h
    · next fault hfault =>
      obtain rfl := Except.error.inj h
      obtain ⟨kind, cs⟩ := t
      obtain rfl : kind = .symbol := hkind
      exact isLongInteger_of_ofBare hfault

theorem isLongInteger_of_consume {stack : List Pending} {ts : List Token} {digits : Nat}
    (h : (consume stack ts).1 = .error (.digitLimit digits)) :
    ∃ t ∈ ts, t.IsLongInteger digits := by
  fun_induction consume stack ts with
  | case1 => cases h
  | case2 stack t ts fault htake =>
    obtain rfl := Except.error.inj h
    exact ⟨t, by simp, isLongInteger_of_takeToken htake⟩
  | case3 => cases h
  | case4 stack t ts stack' htake ih =>
    obtain ⟨u, hu, hlong⟩ := ih h
    exact ⟨u, List.mem_cons_of_mem _ hu, hlong⟩

namespace TokenStream

theorem isLongInteger_of_parse {s : TokenStream} {digits : Nat}
    (h : s.parse.1 = .error (.digitLimit digits)) : ∃ t ∈ s.tokens, t.IsLongInteger digits :=
  isLongInteger_of_consume (s.parse_eq_consume.1.symm.trans h)

theorem isLongInteger_of_parseAll {s : TokenStream} {digits : Nat}
    (h : s.parseAll.2 = some (.digitLimit digits)) : ∃ t ∈ s.tokens, t.IsLongInteger digits := by
  fun_induction parseAll s with
  | case1 s hpeek => cases h
  | case2 s t hpeek fault s' hparse =>
    obtain rfl := Option.some.inj h
    exact isLongInteger_of_parse (congrArg Prod.fst hparse)
  | case3 s t hpeek d s' hparse rest ih =>
    obtain ⟨t, ht, hlong⟩ := ih h
    have hrest : s'.tokens = (consume [] s.tokens).2 := by
      rw [← s.parse_eq_consume.2, hparse]
    exact ⟨t, (consume_suffix [] s.tokens).subset (hrest ▸ ht), hlong⟩

/-- The reader accepts the tokens of a text exactly when a form stands in front of them. It takes
the tokens of that form, which is the only one, and returns what the form denotes; otherwise it
ends with a fault of syntax. -/
theorem parse_accepts_forms {s : TokenStream} {cs : List Char} (hs : s.tokens = Token.lex cs)
    (hdigits : ∀ t ∈ s.tokens, ∀ digits, ¬ t.IsLongInteger digits) :
    (∀ d rest, s.parse.1 = .ok d ∧ s.parse.2.tokens = rest ↔
      ∃ used, used ≠ [] ∧ s.tokens = used ++ rest ∧ Form used d) ∧
    (∀ used used' rest rest' d d', s.tokens = used ++ rest → s.tokens = used' ++ rest' →
      Form used d → Form used' d' → used = used' ∧ d = d') ∧
    ((¬ ∃ used rest d, s.tokens = used ++ rest ∧ Form used d) →
      ∃ fault, s.parse.1 = .error (.malformed fault)) := by
  obtain ⟨hresult, hrest⟩ := s.parse_eq_consume
  have hshaped : ∀ t ∈ s.tokens, t.Shaped := hs ▸ Token.shaped_of_mem_lex cs
  have hiff (d : Datum) (rest : List Token) : s.parse.1 = .ok d ∧ s.parse.2.tokens = rest ↔
      ∃ used, s.tokens = used ++ rest ∧ Form used d := by
    rw [hresult, hrest, ← consume_eq_ok_iff hshaped, Prod.ext_iff]
  refine ⟨fun d rest => ?_, ?_, fun hnone => ?_⟩
  · rw [hiff]
    exact ⟨fun ⟨used, heq, hform⟩ => ⟨used, hform.ne_nil, heq, hform⟩,
      fun ⟨used, _, heq, hform⟩ => ⟨used, heq, hform⟩⟩
  · intro used used' rest rest' d d' heq heq' hform hform'
    exact hform.unique hform' (heq.symm.trans heq')
  · cases hparse : s.parse.1 with
    | ok d =>
      obtain ⟨used, heq, hform⟩ := (hiff d _).1 ⟨hparse, rfl⟩
      exact absurd ⟨used, _, d, heq, hform⟩ hnone
    | error fault =>
      cases fault with
      | malformed fault => exact ⟨fault, rfl⟩
      | digitLimit digits =>
        obtain ⟨t, ht, hlong⟩ := isLongInteger_of_parse hparse
        exact absurd hlong (hdigits t ht digits)

/-- A map with a vector and a mark in it is read from the front of a text, and the bracket behind
it is left. -/
theorem parse_map_in_front :
    (ofString "\x7b:a [1 \x27b]\x7d )").tokens = Token.lex "\x7b:a [1 \x27b]\x7d )".toList ∧
      (∀ t ∈ (ofString "\x7b:a [1 \x27b]\x7d )").tokens, ∀ digits, ¬ t.IsLongInteger digits) ∧
      (ofString "\x7b:a [1 \x27b]\x7d )").parse.1 =
        .ok (.map [(.kw "a", .vec [.int 1, .list [.sym "quote", .sym "b"]])]) ∧
      (ofString "\x7b:a [1 \x27b]\x7d )").parse.2.tokens = [⟨.closer, [')']⟩] := by
  have htext : "\x7b:a [1 \x27b]\x7d )".toList =
      ['\x7b', ':', 'a', ' ', '[', '1', ' ', '\x27', 'b', ']', '\x7d', ' ', ')'] := rfl
  have htokens : (ofString "\x7b:a [1 \x27b]\x7d )").tokens =
      inBrackets '\x7b' ([⟨.symbol, [':', 'a']⟩] ++ (inBrackets '[' ([⟨.symbol, ['1']⟩] ++
        ((⟨.mark, "\x27".toList⟩ :: [⟨.symbol, ['b']⟩]) ++ [])) ++ [])) ++ [⟨.closer, [')']⟩] := by
    rw [ofString, tokens_ofChars, htext]
    simp [Token.lex_cons, Token.lex_separator, Token.cut, Token.isSeparator, Token.isOpener,
      Token.isCloser, Token.isDelimiter, Text.isBlank, inBrackets, closerOf]
  have hdigits : ∀ t ∈ (ofString "\x7b:a [1 \x27b]\x7d )").tokens, ∀ digits,
      ¬ t.IsLongInteger digits := by
    have hshort : ∀ t ∈ (ofString "\x7b:a [1 \x27b]\x7d )").tokens,
        ((NumberText.ofChars? t.chars).all fun n => n.whole.length ≤ maxDigits) = true := by
      rw [htokens]
      decide
    rintro t ht digits ⟨-, hlong, n, hn, -, rfl⟩
    have hle := hshort t ht
    rw [hn] at hle
    exact absurd (of_decide_eq_true hle) (Nat.not_le.2 hlong)
  have hvec : Form (inBrackets '[' ([⟨.symbol, ['1']⟩] ++
      ((⟨.mark, "\x27".toList⟩ :: [⟨.symbol, ['b']⟩]) ++ [])))
      (.vec [.int 1, .list [.sym "quote", .sym "b"]]) :=
    .vec (.cons (.bare rfl) (.cons (.marked (by decide) (.bare rfl)) .nil))
  have hkey : Form [⟨.symbol, [':', 'a']⟩] (.kw "a") := .bare rfl
  have hform := @Form.map _ [(.kw "a", .vec [.int 1, .list [.sym "quote", .sym "b"]])]
    (.cons hkey (.cons hvec .nil)) (by simp [Datum.IsCollection])
  exact ⟨rfl, hdigits, ((parse_accepts_forms rfl hdigits).1 _ _).2
    ⟨_, hform.ne_nil, htokens, hform⟩⟩

end TokenStream

end SmallLisp
