import SmallLisp.Proofs.Datum.Key
import SmallLisp.Proofs.Reader.Grammar

/-!
# Readable data are read back

The tokens of a readable datum are a form of that datum, and a form whose tokens come from a text
denotes a readable datum.
-/

namespace SmallLisp

namespace Datum

theorem forms_tokensAll {items : List Datum} (h : ∀ d ∈ items, Form d.tokens d) :
    Forms (tokensAll items) items := by
  induction items with
  | nil => exact .nil
  | cons d items ih =>
    rw [List.forall_mem_cons] at h
    exact .cons h.1 (ih h.2)

theorem tokensEntries_eq (entries : List (Datum × Datum)) :
    tokensEntries entries = tokensAll (flatten entries) := by
  induction entries with
  | nil => rfl
  | cons entry entries ih =>
    obtain ⟨k, d⟩ := entry
    simpa [tokensEntries, tokensAll, flatten] using ih

theorem form_of_isBareKind {d : Datum} (h : d.Readable) (hkind : d.isBareKind = true) :
    Form d.tokens d := by
  have htokens : d.tokens = [⟨.symbol, d.chars⟩] := by
    cases d <;> first | rfl | simp [isBareKind] at hkind
  rw [htokens]
  exact .bare (isBare_chars_of_readable h hkind).2

/-- The tokens of a readable datum are a form of the datum. -/
theorem form_tokens {d : Datum} (h : d.Readable) : Form d.tokens d := by
  induction h with
  | nil => exact form_of_isBareKind .nil rfl
  | bool b => exact form_of_isBareKind (.bool b) rfl
  | int hn => exact form_of_isBareKind (.int hn) rfl
  | float x => exact form_of_isBareKind (.float x) rfl
  | nan => exact form_of_isBareKind .nan rfl
  | sym hname => exact form_of_isBareKind (.sym hname) rfl
  | kw hname => exact form_of_isBareKind (.kw hname) rfl
  | str s =>
    have hstring : ofStringToken (chars (str s)) = str s := by
      simp [ofStringToken, chars, unescape_escape]
    have hform := Form.string (chars (str s))
    rwa [hstring] at hform
  | @list items _ ih => exact .list (forms_tokensAll ih)
  | @vec items _ ih => exact .vec (forms_tokensAll ih)
  | @map entries _ _ hkeys hdistinct ihkeys ihvalues =>
    have hforms : ∀ d ∈ flatten entries, Form d.tokens d := by
      intro d hd
      obtain ⟨entry, hentry, hd⟩ := List.mem_flatMap.1 hd
      simp only [List.mem_cons, List.not_mem_nil, or_false] at hd
      rcases hd with rfl | rfl
      · exact ihkeys entry hentry
      · exact ihvalues entry hentry
    have hmap := Form.map (forms_tokensAll hforms)
      fun entry hentry => entry.1.isSome_key?_iff.1 (hkeys entry hentry)
    rw [Key.collapse_of_distinct hdistinct, ← tokensEntries_eq] at hmap
    exact hmap

end Datum

namespace Token

/-- A symbol token holds the characters of a bare token. -/
def Sound (t : Token) : Prop := t.kind = .symbol → Datum.IsBare t.chars

theorem sound_cut {c : Char} (hseparator : isSeparator c = false) (hcomment : c ≠ ';')
    (cs : List Char) : (cut c cs).1.Sound := by
  unfold cut
  split_ifs with _ hmark hopener hcloser hquote
  · rintro ⟨⟩
  · rintro ⟨⟩
  · rintro ⟨⟩
  · rintro ⟨⟩
  · split <;> rintro ⟨⟩
  · intro _
    simp only [Bool.or_eq_true, beq_iff_eq, not_or] at hmark
    obtain ⟨⟨⟨hapostrophe, htick⟩, htilde⟩, hat⟩ := hmark
    simp only [isSeparator, Bool.or_eq_false_iff, beq_eq_false_iff_ne] at hseparator
    refine ⟨by simp, ?_, ?_⟩
    · intro d hd
      rcases List.mem_cons.1 hd with rfl | hd
      · simp_all [isDelimiter]
      · simpa using List.all_eq_true.1 List.all_takeWhile d hd
    · rintro d ⟨⟩
      exact ⟨htilde, hat⟩

theorem sound_of_mem_lex (cs : List Char) : ∀ t ∈ lex cs, t.Sound :=
  forall_mem_lex (fun _ cs hseparator hcomment => sound_cut hseparator hcomment cs) cs

end Token

theorem isSymbolName_of_mark {mark head : String} (h : (mark, head) ∈ standardMarks) :
    Datum.IsSymbolName head := by
  have hall : ∀ entry ∈ standardMarks, Datum.IsSymbolName entry.2 := by decide
  exact hall _ h

namespace Datum

theorem forall_of_forall_flatten {P : Datum → Prop} {entries : List (Datum × Datum)}
    (h : ∀ d ∈ flatten entries, P d) : ∀ entry ∈ entries, P entry.1 ∧ P entry.2 := by
  intro entry hentry
  have hmem : ∀ d ∈ [entry.1, entry.2], d ∈ flatten entries := fun d hd =>
    List.mem_flatMap.2 ⟨entry, hentry, hd⟩
  exact ⟨h _ (hmem _ (by simp)), h _ (hmem _ (by simp))⟩

mutual

theorem readable_of_form {ts : List Token} {d : Datum} : Form ts d → (∀ t ∈ ts, t.Sound) →
    d.Readable
  | .bare h, hts => readable_of_ofBare (hts _ (List.mem_singleton_self _) rfl) h
  | .string cs, _ => .str _
  | .marked hmark h, hts => by
    rw [List.forall_mem_cons] at hts
    refine .list (List.forall_mem_cons.2 ⟨.sym (isSymbolName_of_mark hmark), ?_⟩)
    exact List.forall_mem_singleton.2 (readable_of_form h hts.2)
  | .list h, hts => .list (readable_of_forms h fun t ht => hts t (by simp [inBrackets, ht]))
  | .vec h, hts => .vec (readable_of_forms h fun t ht => hts t (by simp [inBrackets, ht]))
  | @Form.map _ entries h hkeys, hts => by
    have hreadable := forall_of_forall_flatten
      (readable_of_forms h fun t ht => hts t (by simp [inBrackets, ht]))
    have hentries : ∀ entry ∈ Key.collapse key? entries,
        (entry.1.Readable ∧ entry.1.key?.isSome = true) ∧ entry.2.Readable :=
      Key.forall_collapse (P := fun k => k.Readable ∧ k.key?.isSome = true) fun pair hpair =>
        ⟨⟨(hreadable pair hpair).1, pair.1.isSome_key?_iff.2 (hkeys pair hpair)⟩,
          (hreadable pair hpair).2⟩
    exact .map (fun e he => (hentries e he).1.1) (fun e he => (hentries e he).2)
      (fun e he => (hentries e he).1.2) (Key.distinct_collapse entries)

theorem readable_of_forms {ts : List Token} {items : List Datum} : Forms ts items →
    (∀ t ∈ ts, t.Sound) → ∀ d ∈ items, d.Readable
  | .nil, _ => List.forall_mem_nil _
  | .cons hd hitems, hts => by
    rw [List.forall_mem_append] at hts
    exact List.forall_mem_cons.2 ⟨readable_of_form hd hts.1, readable_of_forms hitems hts.2⟩

end

/-- The text of a readable datum is read as the datum. -/
theorem readForm_chars {d : Datum} (h : d.Readable) : readForm (String.ofList d.chars) = .ok d := by
  have hlex := lexes_of_readable h [] (by simp [Token.Closed])
  rw [List.append_nil, Token.lex_nil] at hlex
  rw [readForm_eq_consume, String.toList_ofList, hlex, (form_tokens h).reads]
  rfl

theorem readable_of_readForm {text : String} {d : Datum} (h : readForm text = .ok d) :
    d.Readable := by
  rw [readForm_eq_consume] at h
  obtain ⟨used, hused, hform⟩ := form_of_consume (Token.shaped_of_mem_lex _) .nil
    (Prod.ext h rfl : consume [] (Token.lex text.toList) = (.ok d, _))
  refine readable_of_form hform fun t ht => Token.sound_of_mem_lex text.toList t ?_
  rw [hused]
  exact List.mem_append_left _ ht

end Datum

end SmallLisp
