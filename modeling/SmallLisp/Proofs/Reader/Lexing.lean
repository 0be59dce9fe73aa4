import SmallLisp.Proofs.Datum.Bare

/-!
# The tokens of the text of a datum

A bare token ends where a delimiter follows, and every other token shows its own end. Hence the
text of a readable datum is cut into its tokens whatever comes next, as long as that does not
extend a bare token.
-/

namespace SmallLisp

namespace Token

/-- A text that does not extend a bare token in front of it. -/
def Closed (cs : List Char) : Prop := ∀ c ∈ cs.head?, isDelimiter c = true

theorem lex_congr {cs cs' : List Char} (h : next? cs = next? cs') : lex cs = lex cs' := by
  cases hnext : next? cs' with
  | none => rw [lex_of_next?_eq_none hnext, lex_of_next?_eq_none (h.trans hnext)]
  | some r => rw [lex_of_next?_eq_some hnext, lex_of_next?_eq_some (h.trans hnext)]

@[simp] theorem lex_nil : lex [] = [] := by
  refine lex_of_next?_eq_none ?_
  simp [next?, skipSeparators]

theorem lex_separator {c : Char} (hc : isSeparator c = true) (cs : List Char) :
    lex (c :: cs) = lex cs := by
  apply lex_congr
  unfold next?
  rw [skipSeparators, if_pos hc]

/-- Where no separator and no comment stands, a token is cut. -/
theorem lex_cons {c : Char} (hseparator : isSeparator c = false) (hcomment : c ≠ ';')
    (cs : List Char) : lex (c :: cs) = (cut c cs).1 :: lex (cut c cs).2 := by
  refine lex_of_next?_eq_some ?_
  have hskip : skipSeparators (c :: cs) = c :: cs := by
    rw [skipSeparators, if_neg (by simp [hseparator]), if_neg (by simpa using hcomment)]
  simp only [next?, hskip]

theorem skipSeparators_cons {cs rest : List Char} {c : Char}
    (h : skipSeparators cs = c :: rest) : isSeparator c = false ∧ c ≠ ';' := by
  fun_induction skipSeparators cs with
  | case1 => simp at h
  | case2 c' cs _ ih => exact ih h
  | case3 c' cs _ _ ih => exact ih h
  | case4 c' cs hseparator hcomment =>
    obtain ⟨rfl, -⟩ := List.cons.inj h
    exact ⟨by simpa using hseparator, by simpa using hcomment⟩

theorem forall_mem_lex {P : Token → Prop}
    (hcut : ∀ c cs, isSeparator c = false → c ≠ ';' → P (cut c cs).1) (cs : List Char) :
    ∀ t ∈ lex cs, P t := by
  fun_induction lex cs with
  | case1 => exact List.forall_mem_nil P
  | case2 cs t rest hnext ih =>
    refine List.forall_mem_cons.2 ⟨?_, ih⟩
    unfold next? at hnext
    split at hnext
    · cases hnext
    · next c cs' hskip =>
      obtain ⟨hseparator, hcomment⟩ := skipSeparators_cons hskip
      obtain rfl : (cut c cs').1 = t := congrArg Prod.fst (Option.some.inj hnext)
      exact hcut c cs' hseparator hcomment

theorem lex_opener {c : Char} (hc : isOpener c = true) (cs : List Char) :
    lex (c :: cs) = ⟨.opener, [c]⟩ :: lex cs := by
  simp only [isOpener, Bool.or_eq_true, beq_iff_eq] at hc
  rcases hc with (rfl | rfl) | rfl <;> exact lex_cons rfl (by decide) cs

theorem lex_closer {c : Char} (hc : isCloser c = true) (cs : List Char) :
    lex (c :: cs) = ⟨.closer, [c]⟩ :: lex cs := by
  simp only [isCloser, Bool.or_eq_true, beq_iff_eq] at hc
  rcases hc with (rfl | rfl) | rfl <;> exact lex_cons rfl (by decide) cs

theorem closed_closer {c : Char} (hc : isCloser c = true) (cs : List Char) : Closed (c :: cs) := by
  rintro d ⟨⟩
  simp [isDelimiter, hc]

theorem closed_blank (cs : List Char) : Closed (' ' :: cs) := by
  rintro d ⟨⟩
  decide

theorem lex_bare {cs rest : List Char} (hbare : Datum.IsBare cs) (hrest : Closed rest) :
    lex (cs ++ rest) = ⟨.symbol, cs⟩ :: lex rest := by
  obtain ⟨hne, hchars, hhead⟩ := hbare
  obtain ⟨c, cs, rfl⟩ := List.exists_cons_of_ne_nil hne
  have hc : isDelimiter c = false := hchars c (by simp)
  obtain ⟨htilde, hat⟩ := hhead c rfl
  have htail : ∀ d ∈ cs, (!isDelimiter d) = true := by
    intro d hd
    rw [hchars d (List.mem_cons_of_mem _ hd)]
    rfl
  have htake : (cs ++ rest).takeWhile (!isDelimiter ·) = cs := by
    rw [List.takeWhile_append_of_pos htail]
    cases rest with
    | nil => simp
    | cons d ds => simp [hrest d rfl]
  have hdrop : (cs ++ rest).dropWhile (!isDelimiter ·) = rest := by
    rw [List.dropWhile_append_of_pos htail]
    cases rest with
    | nil => simp
    | cons d ds => simp [hrest d rfl]
  simp only [isDelimiter, Bool.or_eq_false_iff, beq_eq_false_iff_ne] at hc
  obtain ⟨⟨⟨⟨⟨⟨⟨hblank, hopener⟩, hcloser⟩, hquote⟩, hstring⟩, htick⟩, hcomma⟩, hcomment⟩ := hc
  have hcut : cut c (cs ++ rest) = (⟨.symbol, c :: cs⟩, rest) := by
    simp [cut, htilde, hat, hquote, htick, hopener, hcloser, hstring, htake, hdrop]
  rw [List.cons_append, lex_cons (by simp [isSeparator, hblank, hcomma]) hcomment, hcut]

theorem stringBody?_cons {c : Char} (hquote : c ≠ '\x22') (hescape : c ≠ '\\') {cs : List Char}
    (hcs : cs ≠ []) : stringBody? (c :: cs) = (stringBody? cs).map fun r => (c :: r.1, r.2) := by
  obtain ⟨d, ds, rfl⟩ := List.exists_cons_of_ne_nil hcs
  simp [stringBody?, hquote, hescape]

theorem stringBody?_escape (s rest : List Char) :
    stringBody? (escape s ++ '\x22' :: rest) = some (escape s, rest) := by
  induction s with
  | nil => cases rest <;> simp [escape, stringBody?]
  | cons c s ih =>
    by_cases hescape : c = '\\'
    · subst hescape
      simp [escape, stringBody?, ih]
    by_cases hquote : c = '\x22'
    · subst hquote
      simp [escape, stringBody?, ih]
    by_cases hline : c = '\n'
    · subst hline
      simp [escape, stringBody?, ih]
    have hcons : escape (c :: s) = c :: escape s := by simp [escape, hescape, hquote, hline]
    rw [hcons, List.cons_append, stringBody?_cons hquote hescape (by simp), ih]
    rfl

theorem lex_string (s rest : List Char) :
    lex ('\x22' :: (escape s ++ '\x22' :: rest)) =
      ⟨.string, '\x22' :: (escape s ++ ['\x22'])⟩ :: lex rest := by
  have hcut : cut '\x22' (escape s ++ '\x22' :: rest) =
      (⟨.string, '\x22' :: (escape s ++ ['\x22'])⟩, rest) := by
    simp [cut, isOpener, isCloser, stringBody?_escape]
  rw [lex_cons rfl (by decide), hcut]

end Token

theorem Datum.unescape_escape (s : List Char) : Datum.unescape (escape s) = s := by
  induction s with
  | nil => rfl
  | cons c s ih =>
    by_cases hescape : c = '\\'
    · subst hescape
      simp [escape, unescape, ih]
    by_cases hquote : c = '\x22'
    · subst hquote
      simp [escape, unescape, ih]
    by_cases hline : c = '\n'
    · subst hline
      simp [escape, unescape, ih]
    have hcons : escape (c :: s) = c :: escape s := by simp [escape, hescape, hquote, hline]
    rw [hcons, unescape.eq_2 _ _ (by simp [hescape]), ih]

namespace Datum

/-- The text of a datum is cut into its tokens in front of anything that is closed. -/
def Lexes (d : Datum) : Prop :=
  ∀ rest, Token.Closed rest → Token.lex (d.chars ++ rest) = d.tokens ++ Token.lex rest

theorem Lexes.blank {d : Datum} (h : d.Lexes) (rest : List Char) :
    Token.lex (d.chars ++ ' ' :: rest) = d.tokens ++ Token.lex rest := by
  rw [h _ (Token.closed_blank rest), Token.lex_separator rfl]

theorem lex_charsAll {items : List Datum} (h : ∀ d ∈ items, d.Lexes) {rest : List Char}
    (hrest : Token.Closed rest) :
    Token.lex (charsAll items ++ rest) = tokensAll items ++ Token.lex rest := by
  induction items with
  | nil => rfl
  | cons d items ih =>
    have hd : d.Lexes := h d (by simp)
    have ih := ih fun d hd => h d (List.mem_cons_of_mem _ hd)
    cases items with
    | nil => simpa [charsAll, tokensAll] using hd rest hrest
    | cons d' items =>
      rw [tokensAll, List.append_assoc, ← ih, ← hd.blank]
      simp [charsAll]

theorem lex_charsEntries {entries : List (Datum × Datum)} (hkeys : ∀ e ∈ entries, e.1.Lexes)
    (hvalues : ∀ e ∈ entries, e.2.Lexes) {rest : List Char} (hrest : Token.Closed rest) :
    Token.lex (charsEntries entries ++ rest) = tokensEntries entries ++ Token.lex rest := by
  induction entries with
  | nil => rfl
  | cons e entries ih =>
    obtain ⟨k, d⟩ := e
    have hk : k.Lexes := hkeys (k, d) (by simp)
    have hd : d.Lexes := hvalues (k, d) (by simp)
    have ih := ih (fun e he => hkeys e (List.mem_cons_of_mem _ he))
      fun e he => hvalues e (List.mem_cons_of_mem _ he)
    cases entries with
    | nil =>
      rw [tokensEntries, tokensEntries, List.append_nil, List.append_assoc, ← hd rest hrest,
        ← hk.blank]
      simp [charsEntries]
    | cons e' entries =>
      rw [tokensEntries, List.append_assoc, List.append_assoc, ← ih, ← hd.blank, ← hk.blank]
      simp [charsEntries]

theorem lexes_of_isBareKind {d : Datum} (h : d.Readable) (hkind : d.isBareKind = true) :
    d.Lexes := by
  intro rest hrest
  have htokens : d.tokens = [⟨.symbol, d.chars⟩] := by
    cases d <;> first | rfl | simp [isBareKind] at hkind
  rw [htokens]
  exact Token.lex_bare (isBare_chars_of_readable h hkind).1 hrest

theorem lexes_of_readable {d : Datum} (h : d.Readable) : d.Lexes := by
  induction h with
  | nil => exact lexes_of_isBareKind .nil rfl
  | bool b => exact lexes_of_isBareKind (.bool b) rfl
  | int hn => exact lexes_of_isBareKind (.int hn) rfl
  | float x => exact lexes_of_isBareKind (.float x) rfl
  | nan => exact lexes_of_isBareKind .nan rfl
  | sym hname => exact lexes_of_isBareKind (.sym hname) rfl
  | kw hname => exact lexes_of_isBareKind (.kw hname) rfl
  | str s =>
    intro rest _
    simpa [chars, tokens, token] using Token.lex_string s.toList rest
  | @list items _ ih =>
    intro rest _
    rw [chars, tokens, List.cons_append, Token.lex_opener rfl, List.append_assoc,
      List.singleton_append, lex_charsAll ih (Token.closed_closer rfl _), Token.lex_closer rfl]
    simp
  | @vec items _ ih =>
    intro rest _
    rw [chars, tokens, List.cons_append, Token.lex_opener rfl, List.append_assoc,
      List.singleton_append, lex_charsAll ih (Token.closed_closer rfl _), Token.lex_closer rfl]
    simp
  | @map entries _ _ _ _ ihkeys ihvalues =>
    intro rest _
    rw [chars, tokens, List.cons_append, Token.lex_opener rfl, List.append_assoc,
      List.singleton_append, lex_charsEntries ihkeys ihvalues (Token.closed_closer rfl _),
      Token.lex_closer rfl]
    simp

end Datum

end SmallLisp
