import SmallLisp.Proofs.Reader.Readable

/-!
# Texts one behind the other

A line end keeps a text apart from what follows it. A bare token and a comment end there at the
latest, and a string that is closed does not go on. So the tokens of both texts follow one another,
and with them the forms, as long as reading the first text meets no fault.
-/

namespace SmallLisp

namespace Token

variable {cs more : List Char}

theorem stringBody?_append {body rest : List Char} (h : stringBody? cs = some (body, rest))
    (more : List Char) : stringBody? (cs ++ more) = some (body, rest ++ more) := by
  fun_induction stringBody? cs generalizing body rest with
  | case1 => cases h
  | case2 c hc =>
    obtain ⟨rfl, rfl⟩ := Prod.mk.inj (Option.some.inj h)
    obtain rfl := beq_iff_eq.1 hc
    cases more <;> simp [stringBody?]
  | case3 c hc => cases h
  | case4 c d r hc =>
    obtain ⟨rfl, rfl⟩ := Prod.mk.inj (Option.some.inj h)
    simp [stringBody?, hc]
  | case5 c d r hquote hescape ih =>
    obtain ⟨⟨b, t⟩, hb, heq⟩ := Option.map_eq_some_iff.1 h
    obtain ⟨rfl, rfl⟩ := Prod.mk.inj heq
    simp [stringBody?, hquote, hescape, ih hb]
  | case6 c d r hquote hescape ih =>
    obtain ⟨⟨b, t⟩, hb, heq⟩ := Option.map_eq_some_iff.1 h
    obtain ⟨rfl, rfl⟩ := Prod.mk.inj heq
    have ih := ih hb
    simp only [List.cons_append] at ih
    simp [stringBody?, hquote, hescape, ih]

theorem afterComment_append (cs more : List Char) :
    afterComment (cs ++ '\n' :: more) = afterComment cs ++ '\n' :: more := by
  unfold afterComment
  induction cs with
  | nil => simp
  | cons c cs ih => by_cases hc : c = '\n' <;> simp_all

theorem skipSeparators_append_of_cons {c : Char} {rest : List Char}
    (h : skipSeparators cs = c :: rest) (more : List Char) :
    skipSeparators (cs ++ '\n' :: more) = c :: (rest ++ '\n' :: more) := by
  fun_induction skipSeparators cs with
  | case1 => cases h
  | case2 c' cs hseparator ih =>
    rw [List.cons_append, skipSeparators, if_pos hseparator]
    exact ih h
  | case3 c' cs hseparator hcomment ih =>
    rw [List.cons_append, skipSeparators, if_neg hseparator, if_pos hcomment,
      afterComment_append]
    exact ih h
  | case4 c' cs hseparator hcomment =>
    obtain ⟨rfl, rfl⟩ := List.cons.inj h
    rw [List.cons_append, skipSeparators, if_neg hseparator, if_neg hcomment]

/-- Behind a text without tokens the line end is a separator. -/
theorem skipSeparators_append_of_nil (h : skipSeparators cs = []) (more : List Char) :
    skipSeparators (cs ++ '\n' :: more) = skipSeparators more := by
  fun_induction skipSeparators cs with
  | case1 =>
    rw [List.nil_append, skipSeparators]
    rfl
  | case2 c' cs hseparator ih =>
    rw [List.cons_append, skipSeparators, if_pos hseparator]
    exact ih h
  | case3 c' cs hseparator hcomment ih =>
    rw [List.cons_append, skipSeparators, if_neg hseparator, if_pos hcomment,
      afterComment_append]
    exact ih h
  | case4 => cases h

theorem takeWhile_append (cs more : List Char) :
    (cs ++ '\n' :: more).takeWhile (!isDelimiter ·) = cs.takeWhile (!isDelimiter ·) := by
  have hdelimiter : isDelimiter '\n' = true := by decide
  induction cs with
  | nil => simp [hdelimiter]
  | cons c cs ih => by_cases hc : isDelimiter c = true <;> simp_all

theorem dropWhile_append (cs more : List Char) :
    (cs ++ '\n' :: more).dropWhile (!isDelimiter ·) =
      cs.dropWhile (!isDelimiter ·) ++ '\n' :: more := by
  have hdelimiter : isDelimiter '\n' = true := by decide
  induction cs with
  | nil => simp [hdelimiter]
  | cons c cs ih => by_cases hc : isDelimiter c = true <;> simp_all

theorem cut_append (c : Char) (h : (cut c cs).1.kind ≠ .unterminated) (more : List Char) :
    cut c (cs ++ '\n' :: more) = ((cut c cs).1, (cut c cs).2 ++ '\n' :: more) := by
  have hhead : ((cs ++ '\n' :: more).head? == some '@') = (cs.head? == some '@') := by
    cases cs <;> simp
  unfold cut at h ⊢
  rw [hhead]
  split_ifs with hsplice hmark hopener hcloser hquote
  · cases cs with
    | nil => simp at hsplice
    | cons d ds => rfl
  · rfl
  · rfl
  · rfl
  · rw [if_neg hsplice, if_neg hmark, if_neg hopener, if_neg hcloser, if_pos hquote] at h
    cases hbody : stringBody? cs with
    | none => simp [hbody] at h
    | some r => simp [stringBody?_append hbody]
  · rw [takeWhile_append, dropWhile_append]

theorem lex_comment (cs : List Char) : lex (';' :: cs) = lex (afterComment cs) := by
  apply lex_congr
  unfold next?
  rw [skipSeparators, if_neg (by decide), if_pos (by decide)]

/-- The tokens of a text are followed by those of the text on the next lines. -/
theorem lex_append (h : ∀ t ∈ lex cs, t.kind ≠ .unterminated) (more : List Char) :
    lex (cs ++ '\n' :: more) = lex cs ++ lex more := by
  fun_induction lex cs with
  | case1 cs hnone =>
    apply lex_congr
    unfold next? at hnone ⊢
    split at hnone
    · next hskip => rw [skipSeparators_append_of_nil hskip]
    · cases hnone
  | case2 cs t rest hsome ih =>
    rw [List.forall_mem_cons] at h
    have hnext : next? (cs ++ '\n' :: more) = some (t, rest ++ '\n' :: more) := by
      unfold next? at hsome ⊢
      split at hsome
      · cases hsome
      · next c cs' hskip =>
        have hcut := Option.some.inj hsome
        have ht : (cut c cs').1.kind ≠ .unterminated := hcut ▸ h.1
        simp only [skipSeparators_append_of_cons hskip, cut_append c ht, hcut]
    rw [lex_of_next?_eq_some hnext, ih h.2, List.cons_append]

end Token

theorem consume_cons_suffix (stack : List Pending) (t : Token) (ts : List Token) :
    (consume stack (t :: ts)).2 <:+ ts := by
  rw [consume]
  split
  · exact List.suffix_rfl
  · exact List.suffix_rfl
  · exact consume_suffix _ ts

/-- Read forms along a list of tokens, up to the end or to the first fault. -/
def consumeAll : List Token → List Datum × Option ReadFault
  | [] => ([], none)
  | t :: ts =>
    match _h : consume [] (t :: ts) with
    | (.error fault, _) => ([], some fault)
    | (.ok d, rest) => (d :: (consumeAll rest).1, (consumeAll rest).2)
termination_by ts => ts.length
decreasing_by
  all_goals
    have hsuffix := consume_cons_suffix [] t ts
    rw [_h] at hsuffix
    exact Nat.lt_succ_of_le hsuffix.length_le

@[simp] theorem consumeAll_nil : consumeAll [] = ([], none) := by rw [consumeAll]

theorem consumeAll_of_ok {ts rest : List Token} {d : Datum} (hne : ts ≠ [])
    (h : consume [] ts = (.ok d, rest)) :
    consumeAll ts = (d :: (consumeAll rest).1, (consumeAll rest).2) := by
  obtain ⟨t, ts, rfl⟩ := List.exists_cons_of_ne_nil hne
  rw [consumeAll]
  split <;> simp_all

theorem consumeAll_of_error {ts rest : List Token} {fault : ReadFault} (hne : ts ≠ [])
    (h : consume [] ts = (.error fault, rest)) : consumeAll ts = ([], some fault) := by
  obtain ⟨t, ts, rfl⟩ := List.exists_cons_of_ne_nil hne
  rw [consumeAll]
  split <;> simp_all

theorem TokenStream.parseAll_eq_consumeAll (s : TokenStream) :
    s.parseAll = consumeAll s.tokens := by
  fun_induction parseAll s with
  | case1 s hpeek =>
    rw [s.peek_fst, List.head?_eq_none_iff] at hpeek
    rw [hpeek, consumeAll]
  | case2 s t hpeek fault s' hparse =>
    have hne : s.tokens ≠ [] := by
      rw [s.peek_fst] at hpeek
      exact List.ne_nil_of_mem (List.mem_of_head? hpeek)
    obtain ⟨hresult, hrest⟩ := s.parse_eq_consume
    rw [hparse] at hresult hrest
    exact (consumeAll_of_error hne (Prod.ext hresult.symm hrest.symm)).symm
  | case3 s t hpeek d s' hparse rest ih =>
    have hne : s.tokens ≠ [] := by
      rw [s.peek_fst] at hpeek
      exact List.ne_nil_of_mem (List.mem_of_head? hpeek)
    obtain ⟨hresult, hrest⟩ := s.parse_eq_consume
    rw [hparse] at hresult hrest
    have hconsume : consume [] s.tokens = (.ok d, s'.tokens) :=
      Prod.ext hresult.symm hrest.symm
    rw [consumeAll_of_ok hne hconsume, ← ih]

theorem readForms_eq_consumeAll (text : String) :
    readForms text = consumeAll (Token.lex text.toList) :=
  TokenStream.parseAll_eq_consumeAll _

theorem Forms.consumeAll {ts : List Token} {items : List Datum} (h : Forms ts items)
    (rest : List Token) : consumeAll (ts ++ rest) =
      (items ++ (SmallLisp.consumeAll rest).1, (SmallLisp.consumeAll rest).2) := by
  cases h with
  | nil => rfl
  | cons hd hitems =>
    have hne := List.append_ne_nil_of_left_ne_nil hd.ne_nil
    rw [List.append_assoc, consumeAll_of_ok (hne _) (hd.reads [] _), hitems.consumeAll rest]
    rfl

theorem forms_of_consumeAll {ts : List Token} {items : List Datum} (hts : ∀ t ∈ ts, t.Shaped)
    (h : consumeAll ts = (items, none)) : Forms ts items := by
  fun_induction consumeAll ts generalizing items with
  | case1 =>
    obtain ⟨rfl, -⟩ := Prod.mk.inj h
    exact .nil
  | case2 => cases congrArg Prod.snd h
  | case3 t ts d rest hconsume ih =>
    obtain ⟨rfl, hfault⟩ := Prod.mk.inj h
    obtain ⟨used, heq, hform⟩ := (consume_eq_ok_iff hts).1 hconsume
    rw [heq] at hts ⊢
    refine .cons hform (ih (fun u hu => hts u (List.mem_append_right _ hu)) ?_)
    exact Prod.ext rfl hfault

mutual

theorem Form.terminated {ts : List Token} {d : Datum} :
    Form ts d → ∀ t ∈ ts, t.kind ≠ .unterminated
  | .bare _ => by simp
  | .string _ => by simp
  | .marked _ h => List.forall_mem_cons.2 ⟨by simp, h.terminated⟩
  | .list h | .vec h | .map h _ => List.forall_mem_cons.2
    ⟨by simp, List.forall_mem_append.2 ⟨h.terminated, by simp⟩⟩

theorem Forms.terminated {ts : List Token} {items : List Datum} :
    Forms ts items → ∀ t ∈ ts, t.kind ≠ .unterminated
  | .nil => by simp
  | .cons hd hitems => List.forall_mem_append.2 ⟨hd.terminated, hitems.terminated⟩

end

/-- The tokens of a text that is read without a fault are those of its forms. -/
theorem forms_of_readForms {text : String} {forms : List Datum}
    (h : readForms text = (forms, none)) : Forms (Token.lex text.toList) forms :=
  forms_of_consumeAll (Token.shaped_of_mem_lex _) (readForms_eq_consumeAll text ▸ h)

theorem readable_of_consumeAll {ts : List Token} (hshaped : ∀ t ∈ ts, t.Shaped)
    (hsound : ∀ t ∈ ts, t.Sound) : ∀ d ∈ (consumeAll ts).1, d.Readable := by
  fun_induction consumeAll ts with
  | case1 => exact List.forall_mem_nil _
  | case2 => exact List.forall_mem_nil _
  | case3 t ts d rest hconsume ih =>
    obtain ⟨used, heq, hform⟩ := (consume_eq_ok_iff hshaped).1 hconsume
    rw [heq] at hshaped hsound
    obtain ⟨-, hshaped⟩ := List.forall_mem_append.1 hshaped
    obtain ⟨hused, hrest⟩ := List.forall_mem_append.1 hsound
    exact List.forall_mem_cons.2 ⟨Datum.readable_of_form hform hused, ih hshaped hrest⟩

theorem Datum.readable_of_mem_readForms {text : String} {d : Datum}
    (h : d ∈ (readForms text).1) : d.Readable := by
  rw [readForms_eq_consumeAll] at h
  exact readable_of_consumeAll (Token.shaped_of_mem_lex _) (Token.sound_of_mem_lex _) d h

theorem Datum.readForms_chars {d : Datum} (h : d.Readable) :
    readForms (String.ofList d.chars) = ([d], none) := by
  have hlex := lexes_of_readable h [] (by simp [Token.Closed])
  rw [List.append_nil, Token.lex_nil, List.append_nil] at hlex
  have hforms : Forms (d.tokens ++ []) [d] := .cons (form_tokens h) .nil
  have hall := hforms.consumeAll []
  rw [List.append_nil, List.append_nil, consumeAll_nil] at hall
  rw [readForms_eq_consumeAll, String.toList_ofList, hlex, hall]
  rfl

/-- The forms of a text that is read without a fault are followed by what is read from the text on
the next lines. -/
theorem readForms_append {text : String} {forms : List Datum}
    (h : readForms text = (forms, none)) (more : String) :
    readForms (text ++ "\n" ++ more) = (forms ++ (readForms more).1, (readForms more).2) := by
  have hforms := forms_of_readForms h
  have hlex := Token.lex_append hforms.terminated more.toList
  have hchars : (text ++ "\n" ++ more).toList = text.toList ++ '\n' :: more.toList := by
    simp [String.toList_append]
  rw [readForms_eq_consumeAll, readForms_eq_consumeAll, hchars, hlex, hforms.consumeAll]

theorem readForm_of_readForms {text : String} {d : Datum} {forms : List Datum}
    (h : readForms text = (d :: forms, none)) : readForm text = .ok d := by
  have hforms := forms_of_readForms h
  rw [readForm_eq_consume]
  generalize Token.lex text.toList = ts at hforms
  cases hforms with
  | cons hd _ =>
    rw [hd.reads [] _]
    rfl

/-- The first form of a text that is read without a fault is also read when text follows on the
next lines. -/
theorem readForm_append {text : String} {d : Datum} {forms : List Datum}
    (h : readForms text = (d :: forms, none)) (more : String) :
    readForm (text ++ "\n" ++ more) = .ok d := by
  have hforms := forms_of_readForms h
  have hlex := Token.lex_append hforms.terminated more.toList
  have hchars : (text ++ "\n" ++ more).toList = text.toList ++ '\n' :: more.toList := by
    simp [String.toList_append]
  rw [readForm_eq_consume, hchars, hlex]
  generalize Token.lex text.toList = ts at hforms
  cases hforms with
  | cons hd _ =>
    rw [List.append_assoc, hd.reads [] _]
    rfl

end SmallLisp
