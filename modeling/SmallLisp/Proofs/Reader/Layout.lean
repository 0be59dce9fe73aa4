import Mathlib.Data.List.TakeWhile
import SmallLisp.Proofs.Reader.Sequence
import SmallLisp.Proofs.Reader.Readable

/-!
# The layout of a text

A text is laid out as tokens with separations in between, and cutting it finds the tokens of its
only layout. Nothing of the text is lost on the way, and tokens that are kept apart by other
separations are cut again as they were. Whether a string is left open is said by an automaton that
knows nothing of tokens: it passes over the text once and keeps one of four zones.
-/

namespace SmallLisp

namespace Token

/-- What can stand in front of a token. A comment ends in front of a line end, and in a separation
that is the last of its text it also ends with the text. -/
inductive Separation (last : Bool) : List Char → Prop
  | nil : Separation last []
  | blank {c : Char} {cs : List Char} :
      isSeparator c = true → Separation last cs → Separation last (c :: cs)
  | comment {line cs : List Char} :
      '\n' ∉ line → Separation last ('\n' :: cs) → Separation last (';' :: (line ++ '\n' :: cs))
  | lastComment {line : List Char} :
      last = true → '\n' ∉ line → Separation last (';' :: line)

variable {last : Bool} {gap cs rest : List Char} {t : Token}

theorem Separation.closed (h : Separation last gap) (hne : gap ≠ []) (cs : List Char) :
    Closed (gap ++ cs) := by
  cases h with
  | nil => exact absurd rfl hne
  | @blank c gap hc =>
    rintro d ⟨⟩
    simp only [isSeparator, Bool.or_eq_true, beq_iff_eq] at hc
    obtain hblank | rfl := hc
    · simp [isDelimiter, hblank]
    · decide
  | comment | lastComment =>
    rintro d ⟨⟩
    decide

theorem afterComment_of_not_mem {line : List Char} (h : '\n' ∉ line) : afterComment line = [] :=
  List.dropWhile_eq_nil_iff.2 fun _ hc => bne_iff_ne.2 (ne_of_mem_of_not_mem hc h)

/-- Separations are passed over. -/
theorem Separation.lex_append (h : Separation last gap) (hlast : last = true → cs = []) :
    lex (gap ++ cs) = lex cs := by
  induction h with
  | nil => rfl
  | blank hc _ ih => rw [List.cons_append, lex_separator hc, ih]
  | @comment line gap hline _ ih =>
    rw [List.cons_append, lex_comment, List.append_assoc, List.cons_append, afterComment_append,
      afterComment_of_not_mem hline]
    exact ih
  | lastComment htrue hline =>
    rw [hlast htrue, List.append_nil, lex_comment, afterComment_of_not_mem hline]

theorem exists_line (cs : List Char) : ∃ line, '\n' ∉ line ∧ cs = line ++ afterComment cs ∧
    (afterComment cs = [] ∨ ∃ rest, afterComment cs = '\n' :: rest) := by
  refine ⟨cs.takeWhile (· != '\n'), ?_, List.takeWhile_append_dropWhile.symm, ?_⟩
  · intro hmem
    simpa using List.all_eq_true.1 List.all_takeWhile _ hmem
  · unfold afterComment
    induction cs with
    | nil => exact .inl rfl
    | cons c cs ih =>
      by_cases hc : c = '\n'
      · exact .inr ⟨cs, by simp [hc]⟩
      · simpa [hc] using ih

theorem exists_separation (cs : List Char) : ∃ gap,
    Separation (skipSeparators cs).isEmpty gap ∧ cs = gap ++ skipSeparators cs := by
  fun_induction skipSeparators cs with
  | case1 => exact ⟨[], .nil, rfl⟩
  | case2 c cs hc ih =>
    obtain ⟨gap, hgap, heq⟩ := ih
    exact ⟨c :: gap, .blank hc hgap, congrArg (c :: ·) heq⟩
  | case3 c cs _ hc ih =>
    obtain rfl := beq_iff_eq.1 hc
    obtain ⟨line, hline, hcs, hnil | ⟨rest, hrest⟩⟩ := exists_line cs
    · rw [hnil, List.append_nil] at hcs
      subst hcs
      rw [hnil, skipSeparators]
      exact ⟨';' :: cs, .lastComment rfl hline, (List.append_nil _).symm⟩
    · rw [hrest] at hcs ih ⊢
      obtain ⟨gap, hgap, heq⟩ := ih
      -- the line end is a separator, so the separation behind the comment begins with it
      cases gap with
      | nil => exact absurd (skipSeparators_cons heq.symm).1 (by decide)
      | cons d gap =>
        obtain ⟨rfl, hgap'⟩ := List.cons.inj heq
        refine ⟨_, .comment hline hgap, ?_⟩
        rw [hcs, List.cons_append, List.append_assoc, ← heq]
  | case4 c cs => exact ⟨[], .nil, rfl⟩

/-- The inside of a string: a backslash takes a character with it, and no quote stands alone. -/
inductive StringBody : List Char → Prop
  | nil : StringBody []
  | escaped {c : Char} {cs : List Char} : StringBody cs → StringBody ('\\' :: c :: cs)
  | plain {c : Char} {cs : List Char} :
      c ≠ '\x22' → c ≠ '\\' → StringBody cs → StringBody (c :: cs)

/-- No quote ends the string that goes on with this text. -/
def NeverCloses (cs : List Char) : Prop :=
  ∀ body rest, StringBody body → cs ≠ body ++ '\x22' :: rest

/-- What a single token looks like. -/
inductive Lexeme : Token → Prop
  | splice : Lexeme ⟨.mark, ['~', '@']⟩
  | mark {c : Char} : c ∈ ['\x27', '\x60', '~', '@'] → Lexeme ⟨.mark, [c]⟩
  | opener {c : Char} : isOpener c = true → Lexeme ⟨.opener, [c]⟩
  | closer {c : Char} : isCloser c = true → Lexeme ⟨.closer, [c]⟩
  | string {body : List Char} :
      StringBody body → Lexeme ⟨.string, '\x22' :: (body ++ ['\x22'])⟩
  | unterminated {cs : List Char} : NeverCloses cs → Lexeme ⟨.unterminated, '\x22' :: cs⟩
  | symbol {cs : List Char} : Datum.IsBare cs → Lexeme ⟨.symbol, cs⟩

/-- Whether a token ends in front of a text. A symbol goes on up to a delimiter, a tilde takes an
at sign with it, and a string that is left open takes everything. -/
def Ends (t : Token) (rest : List Char) : Prop :=
  (t.kind = .symbol → Closed rest) ∧ (t = ⟨.mark, ['~']⟩ → rest.head? ≠ some '@') ∧
    (t.kind = .unterminated → rest = [])

theorem Lexeme.ne_nil (h : Lexeme t) : t.chars ≠ [] := by
  cases h with
  | symbol hbare => exact hbare.1
  | _ => exact List.cons_ne_nil _ _

/-- The body that is cut off is the one in front of the first quote that stands alone. -/
theorem stringBody?_eq_some_iff {body : List Char} :
    stringBody? cs = some (body, rest) ↔ StringBody body ∧ cs = body ++ '\x22' :: rest := by
  constructor
  · intro h
    refine ⟨?_, append_of_stringBody? h⟩
    fun_induction stringBody? cs generalizing body with
    | case1 => cases h
    | case2 =>
      obtain ⟨rfl, -⟩ := Prod.mk.inj (Option.some.inj h)
      exact .nil
    | case3 => cases h
    | case4 =>
      obtain ⟨rfl, -⟩ := Prod.mk.inj (Option.some.inj h)
      exact .nil
    | case5 c d r _ hescape ih =>
      obtain ⟨⟨b, r'⟩, hb, heq⟩ := Option.map_eq_some_iff.1 h
      obtain ⟨rfl, rfl⟩ := Prod.mk.inj heq
      obtain rfl := beq_iff_eq.1 hescape
      exact .escaped (ih hb)
    | case6 c d r hquote hescape ih =>
      obtain ⟨⟨b, r'⟩, hb, heq⟩ := Option.map_eq_some_iff.1 h
      obtain ⟨rfl, rfl⟩ := Prod.mk.inj heq
      exact .plain (by simpa using hquote) (by simpa using hescape) (ih hb)
  · rintro ⟨hbody, rfl⟩
    induction hbody with
    | nil => cases rest <;> simp [stringBody?]
    | escaped _ ih => simp [stringBody?, ih]
    | plain hquote hescape _ ih =>
      rw [List.cons_append, stringBody?_cons hquote hescape (by simp), ih]
      rfl

theorem stringBody?_eq_none_iff : stringBody? cs = none ↔ NeverCloses cs := by
  constructor
  · intro h body rest hbody heq
    rw [stringBody?_eq_some_iff.2 ⟨hbody, heq⟩] at h
    cases h
  · intro h
    cases hsome : stringBody? cs with
    | none => rfl
    | some r =>
      obtain ⟨hbody, heq⟩ := stringBody?_eq_some_iff.1 hsome
      exact absurd heq (h _ _ hbody)

/-- What is cut off is a lexeme, and it ends in front of what is left. -/
theorem lexeme_cut {c : Char} (hseparator : isSeparator c = false) (hcomment : c ≠ ';')
    (cs : List Char) : Lexeme (cut c cs).1 ∧ Ends (cut c cs).1 (cut c cs).2 := by
  have hsound := sound_cut hseparator hcomment cs
  unfold cut at hsound ⊢
  split_ifs at hsound ⊢ with hsplice hmark hopener hcloser hquote
  · obtain ⟨rfl, -⟩ := by simpa using hsplice
    exact ⟨.splice, by simp [Ends]⟩
  · refine ⟨.mark (by simpa [or_assoc] using hmark), by simp, ?_, by simp⟩
    intro htilde
    obtain rfl : c = '~' := by simpa using htilde
    simpa using hsplice
  · exact ⟨.opener hopener, by simp [Ends]⟩
  · exact ⟨.closer hcloser, by simp [Ends]⟩
  · obtain rfl := beq_iff_eq.1 hquote
    cases hbody : stringBody? cs with
    | none => exact ⟨.unterminated (stringBody?_eq_none_iff.1 hbody), by simp [Ends]⟩
    | some r => exact ⟨.string (stringBody?_eq_some_iff.1 hbody).1, by simp [Ends]⟩
  · refine ⟨.symbol (hsound rfl), fun _ => ?_, ?_, by simp⟩
    · intro d hd
      have := List.head?_dropWhile_not (!isDelimiter ·) cs
      simp_all
    · simp

theorem Lexeme.lex_append (h : Lexeme t) (hends : Ends t rest) :
    lex (t.chars ++ rest) = t :: lex rest := by
  cases h with
  | splice => exact lex_cons (by decide) (by decide) _
  | @mark c hc =>
    have hhead : c = '~' → rest.head? ≠ some '@' := fun htilde => hends.2.1 (by rw [htilde])
    simp only [List.mem_cons, List.not_mem_nil, or_false] at hc
    have hstart : isSeparator c = false ∧ c ≠ ';' := by
      rcases hc with rfl | rfl | rfl | rfl <;> exact ⟨rfl, by decide⟩
    have hcut : cut c rest = (⟨.mark, [c]⟩, rest) := by
      have hsplice : ¬ (c == '~' && rest.head? == some '@') = true := by simpa using hhead
      rw [cut, if_neg hsplice, if_pos (by simpa [or_assoc] using hc)]
    rw [List.singleton_append, lex_cons hstart.1 hstart.2, hcut]
  | opener hc => exact lex_opener hc rest
  | closer hc => exact lex_closer hc rest
  | @string body hbody =>
    have hsome : stringBody? (body ++ '\x22' :: rest) = some (body, rest) :=
      stringBody?_eq_some_iff.2 ⟨hbody, rfl⟩
    have hcut : cut '\x22' (body ++ '\x22' :: rest) =
        (⟨.string, '\x22' :: (body ++ ['\x22'])⟩, rest) := by
      simp [cut, isOpener, isCloser, hsome]
    have happend : '\x22' :: (body ++ ['\x22']) ++ rest = '\x22' :: (body ++ '\x22' :: rest) := by
      simp
    rw [happend, lex_cons (by decide) (by decide), hcut]
  | @unterminated cs hcs =>
    obtain rfl := hends.2.2 rfl
    have hcut : cut '\x22' cs = (⟨.unterminated, '\x22' :: cs⟩, []) := by
      simp [cut, isOpener, isCloser, stringBody?_eq_none_iff.2 hcs]
    rw [List.append_nil, lex_cons (by decide) (by decide), hcut]
  | symbol hbare => exact lex_bare hbare (hends.1 rfl)

/-- A text that is made of tokens with separations in front of them and behind the last one. -/
inductive Layout : List Token → List Char → Prop
  | last {gap : List Char} : Separation true gap → Layout [] gap
  | cons {gap cs : List Char} {t : Token} {ts : List Token} : Separation false gap → Lexeme t →
      Ends t cs → Layout ts cs → Layout (t :: ts) (gap ++ (t.chars ++ cs))

/-- Every text is laid out in one way, and its tokens are those that are cut. -/
theorem lex_eq_iff {ts : List Token} : lex cs = ts ↔ Layout ts cs := by
  constructor
  · rintro rfl
    fun_induction lex cs with
    | case1 cs hnone =>
      have hskip : skipSeparators cs = [] := by
        unfold next? at hnone
        split at hnone
        · assumption
        · cases hnone
      obtain ⟨gap, hgap, hcs⟩ := exists_separation cs
      rw [hskip, List.append_nil] at hcs
      rw [hskip] at hgap
      exact hcs ▸ .last hgap
    | case2 cs t rest hsome ih =>
      unfold next? at hsome
      split at hsome
      · cases hsome
      · next c cs' hskip =>
        obtain ⟨gap, hgap, hcs⟩ := exists_separation cs
        obtain ⟨hseparator, hcomment⟩ := skipSeparators_cons hskip
        have hcut := Option.some.inj hsome
        obtain ⟨hlexeme, hends⟩ := lexeme_cut hseparator hcomment cs'
        have hchars := chars_cut_append c cs'
        rw [hskip, ← hchars] at hcs
        rw [hskip] at hgap
        rw [hcut] at hcs hlexeme hends
        exact hcs ▸ .cons hgap hlexeme hends ih
  · intro h
    induction h with
    | @last gap hgap =>
      have hlex : lex (gap ++ []) = lex [] := hgap.lex_append fun _ => rfl
      simpa using hlex
    | cons hgap hlexeme hends _ ih =>
      rw [hgap.lex_append (by simp), hlexeme.lex_append hends, ih]

theorem layout_lex (cs : List Char) : Layout (lex cs) cs := lex_eq_iff.1 rfl

theorem Layout.lexeme {ts : List Token} (h : Layout ts cs) : ∀ t ∈ ts, Lexeme t := by
  induction h with
  | last => exact List.forall_mem_nil _
  | cons _ hlexeme _ _ ih => exact List.forall_mem_cons.2 ⟨hlexeme, ih⟩

theorem Layout.eq_nil_of_unterminated {before after : List Token}
    (h : Layout (before ++ t :: after) cs) (ht : t.kind = .unterminated) : after = [] := by
  induction before generalizing cs with
  | nil =>
    obtain ⟨⟩ | ⟨_, _, hends, h⟩ := h
    obtain rfl := hends.2.2 ht
    rw [← lex_eq_iff, lex_nil] at h
    exact h.symm
  | cons u before ih =>
    obtain ⟨⟩ | ⟨_, _, _, h⟩ := h
    exact ih h

/-- The texts of tokens with separations in between that are not empty. -/
inductive Apart : List Token → List Char → Prop
  | nil : Apart [] []
  | single (t : Token) : Apart [t] t.chars
  | cons (t : Token) {u : Token} {ts : List Token} {gap cs : List Char} : Separation false gap →
      gap ≠ [] → Apart (u :: ts) cs → Apart (t :: u :: ts) (t.chars ++ (gap ++ cs))

theorem ends_of_closed (ht : t.kind ≠ .unterminated) (h : Closed rest) : Ends t rest := by
  refine ⟨fun _ => h, fun _ hat => ?_, fun hkind => absurd hkind ht⟩
  exact absurd (h '@' hat) (by decide)

/-- Tokens of a text that are kept apart are cut again as they were. -/
theorem Layout.lex_of_apart {ts : List Token} {cs' : List Char} (h : Layout ts cs)
    (hapart : Apart ts cs') : lex cs' = ts := by
  induction hapart generalizing cs with
  | nil => exact lex_nil
  | single t =>
    have hlexeme : Lexeme t := h.lexeme t (by simp)
    have hends : Ends t [] := ⟨fun _ => by simp [Closed], by simp, fun _ => rfl⟩
    simpa using hlexeme.lex_append hends
  | cons t hgap hne _ ih =>
    have hlexeme : Lexeme t := h.lexeme t (by simp)
    have ht : t.kind ≠ .unterminated := fun ht =>
      absurd (@Layout.eq_nil_of_unterminated _ _ [] _ h ht) (by simp)
    obtain ⟨⟩ | ⟨_, _, _, htail⟩ := h
    rw [hlexeme.lex_append (ends_of_closed ht (hgap.closed hne _)), hgap.lex_append (by simp),
      ih htail]

/-- Where a text ends: between strings and comments, in a comment, in a string, or in a string
right behind a backslash. -/
inductive Zone where
  | code
  | comment
  | string
  | escape
  deriving DecidableEq

namespace Zone

def next : Zone → Char → Zone
  | code, c => if c = '\x22' then string else if c = ';' then comment else code
  | comment, c => if c = '\n' then code else comment
  | string, c => if c = '\x22' then code else if c = '\\' then escape else string
  | escape, _ => string

def after (z : Zone) (cs : List Char) : Zone := cs.foldl next z

@[simp] theorem after_nil (z : Zone) : z.after [] = z := rfl

@[simp] theorem after_cons (z : Zone) (c : Char) (cs : List Char) :
    z.after (c :: cs) = (z.next c).after cs := rfl

@[simp] theorem after_append (z : Zone) (cs more : List Char) :
    z.after (cs ++ more) = (z.after cs).after more := List.foldl_append

def IsOpen (z : Zone) : Prop := z = string ∨ z = escape

theorem after_comment {line : List Char} (h : '\n' ∉ line) : comment.after line = comment := by
  induction line with
  | nil => rfl
  | cons c line ih =>
    obtain ⟨hc, hline⟩ := not_or.1 (List.mem_cons.not.1 h)
    rw [after_cons, next, if_neg (Ne.symm hc), ih hline]

theorem after_separation (h : Separation last gap) :
    code.after gap = code ∨ last = true ∧ code.after gap = comment := by
  induction h with
  | nil => exact .inl rfl
  | @blank c gap hc _ ih =>
    have hcode : code.next c = code := by
      have hquote : c ≠ '\x22' := by rintro rfl; cases hc
      have hcomment : c ≠ ';' := by rintro rfl; cases hc
      rw [next, if_neg hquote, if_neg hcomment]
    rwa [after_cons, hcode]
  | @comment line gap hline _ ih =>
    have hline : code.after (';' :: line) = comment := after_comment hline
    rwa [← List.cons_append, after_append, hline]
  | lastComment hlast hline => exact .inr ⟨hlast, after_comment hline⟩

theorem after_stringBody {body : List Char} (h : StringBody body) : string.after body = string := by
  induction h with
  | nil => rfl
  | escaped _ ih => exact ih
  | plain hquote hescape _ ih => rw [after_cons, next, if_neg hquote, if_neg hescape, ih]

theorem isOpen_after_of_neverCloses (h : NeverCloses cs) : (string.after cs).IsOpen := by
  rw [← stringBody?_eq_none_iff] at h
  fun_induction stringBody? cs with
  | case1 => exact .inl rfl
  | case2 => cases h
  | case3 c hquote =>
    by_cases hescape : c = '\\' <;> simp_all [next, IsOpen]
  | case4 => cases h
  | case5 c d rest _ hescape ih =>
    obtain rfl := beq_iff_eq.1 hescape
    exact ih (Option.map_eq_none_iff.1 h)
  | case6 c d rest hquote hescape ih =>
    have hnext : string.next c = string := by simp_all [next]
    rw [after_cons, hnext]
    exact ih (Option.map_eq_none_iff.1 h)

theorem after_code_of_forall (h : ∀ c ∈ cs, c ≠ '\x22' ∧ c ≠ ';') : code.after cs = code := by
  induction cs with
  | nil => rfl
  | cons c cs ih =>
    obtain ⟨⟨hquote, hcomment⟩, hcs⟩ := List.forall_mem_cons.1 h
    rw [after_cons, next, if_neg hquote, if_neg hcomment, ih hcs]

/-- Every token but a string that is left open ends in the code. -/
theorem after_lexeme (h : Lexeme t) (ht : t.kind ≠ .unterminated) : code.after t.chars = code := by
  cases h with
  | splice => rfl
  | mark hc =>
    refine after_code_of_forall (List.forall_mem_singleton.2 ?_)
    constructor <;> rintro rfl <;> exact absurd hc (by decide)
  | opener hc | closer hc =>
    refine after_code_of_forall (List.forall_mem_singleton.2 ?_)
    constructor <;> rintro rfl <;> cases hc
  | string hbody =>
    change string.after _ = code
    rw [after_append, after_stringBody hbody]
    rfl
  | unterminated => exact absurd rfl ht
  | symbol hbare =>
    refine after_code_of_forall fun c hc => ?_
    constructor <;> rintro rfl <;> exact absurd (hbare.2.1 _ hc) (by decide)

end Zone

/-- A text with a quote, outside of comments and of earlier strings, that no later quote closes. -/
def LeavesOpen (cs : List Char) : Prop :=
  ∃ before inside, cs = before ++ '\x22' :: inside ∧ Zone.code.after before = .code ∧
    NeverCloses inside

theorem LeavesOpen.isOpen (h : LeavesOpen cs) : (Zone.code.after cs).IsOpen := by
  obtain ⟨before, inside, rfl, hbefore, hinside⟩ := h
  rw [Zone.after_append, hbefore]
  exact Zone.isOpen_after_of_neverCloses hinside

theorem LeavesOpen.prepend (h : LeavesOpen cs) {front : List Char}
    (hfront : Zone.code.after front = .code) : LeavesOpen (front ++ cs) := by
  obtain ⟨before, inside, rfl, hbefore, hinside⟩ := h
  exact ⟨front ++ before, inside, by simp, by rw [Zone.after_append, hfront, hbefore], hinside⟩

theorem Layout.leavesOpen {ts : List Token} (h : Layout ts cs)
    (hmem : ∃ t ∈ ts, t.kind = .unterminated) : LeavesOpen cs := by
  induction h with
  | last => exact absurd hmem (by simp)
  | @cons gap cs t ts hgap hlexeme hends _ ih =>
    have hcode : Zone.code.after gap = .code := by simpa using Zone.after_separation hgap
    refine LeavesOpen.prepend ?_ hcode
    by_cases ht : t.kind = .unterminated
    · obtain rfl := hends.2.2 ht
      cases hlexeme <;> cases ht
      next inside hinside => exact ⟨[], inside, by simp, rfl, hinside⟩
    · refine LeavesOpen.prepend (ih ?_) (Zone.after_lexeme hlexeme ht)
      simpa [ht] using hmem

theorem Layout.not_isOpen {ts : List Token} (h : Layout ts cs)
    (hts : ∀ t ∈ ts, t.kind ≠ .unterminated) : ¬ (Zone.code.after cs).IsOpen := by
  induction h with
  | last hgap =>
    obtain hcode | ⟨-, hcomment⟩ := Zone.after_separation hgap
    · rw [hcode]
      rintro (h | h) <;> cases h
    · rw [hcomment]
      rintro (h | h) <;> cases h
  | @cons gap cs t ts hgap hlexeme _ _ ih =>
    obtain ⟨ht, hts⟩ := List.forall_mem_cons.1 hts
    have hcode : Zone.code.after gap = .code := by simpa using Zone.after_separation hgap
    rw [Zone.after_append, Zone.after_append, hcode, Zone.after_lexeme hlexeme ht]
    exact ih hts

/-- A token that is left open tells of a quote that is left open, and the other way round. -/
theorem Layout.exists_unterminated_iff {ts : List Token} (h : Layout ts cs) :
    (∃ t ∈ ts, t.kind = .unterminated) ↔ LeavesOpen cs := by
  refine ⟨h.leavesOpen, fun hopen => ?_⟩
  by_contra hnone
  exact h.not_isOpen (fun t ht hkind => hnone ⟨t, ht, hkind⟩) hopen.isOpen

/-- Cutting a text always succeeds and loses nothing but separations. -/
theorem lex_lossless (cs : List Char) :
    Layout (lex cs) cs ∧ (∀ t ∈ lex cs, t.chars ≠ []) ∧
      (∀ before t after, lex cs = before ++ t :: after → t.kind = .unterminated → after = []) ∧
      ((∃ t ∈ lex cs, t.kind = .unterminated) ↔ LeavesOpen cs) ∧
      ∀ cs', Apart (lex cs) cs' → lex cs' = lex cs := by
  have hlayout := layout_lex cs
  refine ⟨hlayout, fun t ht => (hlayout.lexeme t ht).ne_nil, ?_, hlayout.exists_unterminated_iff,
    fun cs' hapart => hlayout.lex_of_apart hapart⟩
  intro before t after heq ht
  rw [heq] at hlayout
  exact hlayout.eq_nil_of_unterminated ht

/-- A tilde, a symbol that goes on with the splice mark and a string that is left open are cut
again with a comment and a comma in between. -/
theorem lex_lossless_rejoined : lex ['~', ';', '\n', 'a', '~', '@', ',', '\x22', 'b'] =
    lex ['~', 'a', '~', '@', '\x22', 'b'] := by
  have hlayout : Layout [⟨.mark, ['~']⟩, ⟨.symbol, ['a', '~', '@']⟩, ⟨.unterminated, ['\x22', 'b']⟩]
      ['~', 'a', '~', '@', '\x22', 'b'] := by
    refine @Layout.cons [] _ _ _ .nil (.mark (by simp)) (by simp [Ends]) ?_
    refine @Layout.cons [] _ _ _ .nil (.symbol (by decide)) (by simp [Ends, Closed, isDelimiter]) ?_
    refine @Layout.cons [] [] _ _ .nil (.unterminated ?_) (by simp [Ends]) (.last .nil)
    exact stringBody?_eq_none_iff.1 (by simp [stringBody?])
  refine (lex_lossless _).2.2.2.2 _ ?_
  rw [lex_eq_iff.2 hlayout]
  have hcomment : Separation false [';', '\n'] :=
    @Separation.comment _ [] _ (by simp) (.blank rfl .nil)
  exact .cons _ hcomment (by simp) (.cons _ (.blank rfl .nil) (by simp) (.single _))

end Token

end SmallLisp
