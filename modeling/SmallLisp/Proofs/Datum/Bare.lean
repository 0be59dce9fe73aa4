import SmallLisp.Proofs.Datum.Readable

/-!
# Bare tokens

The text of a readable constant, number, symbol or keyword is one bare token that denotes it, and
whatever a bare token denotes is readable.
-/

namespace SmallLisp

namespace Text

def blankCodes : List ℕ :=
  [0x20, 0x09, 0x0A, 0x0B, 0x0C, 0x0D, 0x1C, 0x1D, 0x1E, 0x1F, 0x85, 0xA0, 0x1680, 0x2000, 0x2001,
    0x2002, 0x2003, 0x2004, 0x2005, 0x2006, 0x2007, 0x2008, 0x2009, 0x200A, 0x2028, 0x2029,
    0x202F, 0x205F, 0x3000]

theorem not_isDigit_of_mem_blankCodes :
    ∀ n ∈ blankCodes, isDigit (Char.ofNat n) = false := by
  decide

theorem not_isDigit_of_isBlank {c : Char} (h : isBlank c = true) : isDigit c = false := by
  have hmem : c.toNat ∈ blankCodes := by
    simp only [isBlank, Bool.or_eq_true, beq_iff_eq, Bool.and_eq_true, decide_eq_true_eq] at h
    simp only [blankCodes, List.mem_cons, List.not_mem_nil, or_false]
    omega
  rw [← Char.ofNat_toNat c]
  exact not_isDigit_of_mem_blankCodes _ hmem

end Text

theorem Token.not_isDelimiter_of_isDigit {c : Char} (h : Text.isDigit c = true) :
    Token.isDelimiter c = false := by
  rw [← Bool.not_eq_true]
  intro hdelimiter
  have hdigit : Text.isDigit c = false := by
    simp only [Token.isDelimiter, Token.isOpener, Token.isCloser, Bool.or_eq_true,
      beq_iff_eq] at hdelimiter
    rcases hdelimiter with (((((((h | (h | h) | h) | (h | h) | h) | h) | h) | h) | h) | h)
    · exact Text.not_isDigit_of_isBlank h
    all_goals
      subst h
      decide
  rw [hdigit] at h
  exact Bool.noConfusion h

namespace NumberText

theorem mem_chars {t : NumberText} (ht : t.WellFormed) {c : Char} (hc : c ∈ t.chars) :
    Text.isDigit c = true ∨ c ∈ ['-', '+', '.', 'e'] := by
  simp only [chars, List.mem_append] at hc
  rcases hc with hsign | hwhole | hfraction | hexponent
  · split at hsign
    · exact Or.inr (by simp_all)
    · simp at hsign
  · exact Or.inl (ht.whole c hwhole)
  · cases hf : t.fraction with
    | none => simp [hf, fractionChars] at hfraction
    | some ds =>
      rw [hf, fractionChars, List.mem_cons] at hfraction
      rcases hfraction with rfl | hmem
      · exact Or.inr (by simp)
      · exact Or.inl (ht.fraction c (by simpa [hf] using hmem))
  · cases he : t.exponent with
    | none => simp [he, exponentChars] at hexponent
    | some exponent =>
      obtain ⟨neg, ds⟩ := exponent
      rw [he, exponentChars, List.mem_cons, List.mem_cons] at hexponent
      rcases hexponent with rfl | hsign | hmem
      · exact Or.inr (by simp)
      · exact Or.inr (by cases neg <;> simp_all)
      · exact Or.inl ((ht.exponent neg ds he).2 c hmem)

theorem isBare_chars {t : NumberText} (ht : t.WellFormed) : Datum.IsBare t.chars := by
  have hchar : ∀ c ∈ t.chars, Token.isDelimiter c = false ∧ c ≠ '~' ∧ c ≠ '@' := by
    intro c hc
    rcases mem_chars ht hc with hdigit | hsign
    · refine ⟨Token.not_isDelimiter_of_isDigit hdigit, ?_, ?_⟩ <;> rintro rfl <;>
        exact absurd hdigit (by decide)
    · simp only [List.mem_cons, List.not_mem_nil, or_false] at hsign
      rcases hsign with rfl | rfl | rfl | rfl <;> decide
  refine ⟨?_, fun c hc => (hchar c hc).1, fun c hc => (hchar c (List.mem_of_mem_head? hc)).2⟩
  rintro hnil
  have hread := ofChars?_chars ht
  rw [hnil] at hread
  exact absurd hread (by simp [ofChars?, splitSign])

end NumberText

namespace Datum

theorem constant?_eq_none_iff {name : String} :
    constant? name = none ↔ name ∉ ["nil", "true", "false", "##Inf", "##-Inf", "##NaN"] := by
  unfold constant?
  split <;> simp_all

theorem ofBare_symbolName {name : String} (h : IsSymbolName name) :
    ofBare name.toList = .ok (sym name) := by
  obtain ⟨-, hconstant, hbegins, hcolon⟩ := h
  have hnumber : NumberText.ofChars? name.toList = none := by
    by_contra hne
    obtain ⟨t, ht⟩ := Option.ne_none_iff_exists'.1 hne
    rw [NumberText.begins_of_ofChars? ht] at hbegins
    exact Bool.noConfusion hbegins
  unfold ofBare
  rw [String.ofList_toList, constant?_eq_none_iff.2 hconstant, hnumber]
  simp only [hbegins, Bool.false_eq_true, if_false]
  split
  · next c cs heq =>
    have := hcolon (by rw [heq]; rfl)
    rw [this] at heq
    exact absurd (congrArg List.length heq) (by simp)
  · rfl

theorem ofBare_keywordName {name : String} (h : IsKeywordName name) :
    ofBare (':' :: name.toList) = .ok (kw name) := by
  obtain ⟨c, cs, hname⟩ := List.exists_cons_of_ne_nil h.1
  have hconstant : constant? (String.ofList (':' :: name.toList)) = none := by
    rw [constant?_eq_none_iff]
    intro hmem
    simp only [List.mem_cons, List.not_mem_nil, or_false] at hmem
    rcases hmem with h | h | h | h | h | h <;>
      exact absurd (congrArg (fun s => s.toList.head?) h) (by simp)
  have hbegins : NumberText.begins (':' :: name.toList) = false := by
    simp [NumberText.begins, NumberText.splitSign]
    decide
  have hnumber : NumberText.ofChars? (':' :: name.toList) = none := by
    by_contra hne
    obtain ⟨t, ht⟩ := Option.ne_none_iff_exists'.1 hne
    rw [NumberText.begins_of_ofChars? ht] at hbegins
    exact Bool.noConfusion hbegins
  unfold ofBare
  rw [hconstant, hnumber]
  simp only [hbegins, Bool.false_eq_true, if_false]
  rw [hname]
  change Except.ok (kw (String.ofList (c :: cs))) = Except.ok (kw name)
  rw [← hname, String.ofList_toList]

def integerNumber (n : ℤ) : NumberText := ⟨decide (n < 0), Nat.toDigits 10 n.natAbs, none, none⟩

theorem wellFormed_integerNumber (n : ℤ) : (integerNumber n).WellFormed :=
  ⟨fun _ hc => Text.isDigit_of_mem_toDigits hc, by simp [integerNumber],
    Or.inl Nat.toDigits_ne_nil, by simp [integerNumber]⟩

theorem chars_integerNumber (n : ℤ) : (toString n).toList = (integerNumber n).chars := by
  rw [Int.toString_eq_repr, Int.repr_eq_if, NumberText.chars]
  by_cases h : 0 ≤ n
  · have hneg : ¬ n < 0 := by omega
    have habs : n.natAbs = n.toNat := by omega
    simp [h, hneg, habs, integerNumber, NumberText.fractionChars, NumberText.exponentChars]
  · have hneg : n < 0 := by omega
    have habs : n.natAbs = (-n).toNat := by omega
    simp [h, hneg, habs, integerNumber, NumberText.fractionChars, NumberText.exponentChars]

theorem datum_integerNumber {n : ℤ} (h : n.natAbs < 10 ^ maxDigits) :
    (integerNumber n).datum = .ok (int n) := by
  have hlength : ¬ maxDigits < (Nat.toDigits 10 n.natAbs).length := by
    rw [Nat.not_lt, Nat.length_toDigits_le_iff (by decide) (by decide)]
    exact h
  have hvalue : (integerNumber n).integer = n := by
    rw [NumberText.integer, integerNumber]
    simp only [Text.digitsValue_toDigits, decide_eq_true_eq]
    split_ifs <;> omega
  have hinteger : (integerNumber n).isInteger = true := rfl
  rw [NumberText.datum, if_pos hinteger, hvalue]
  exact if_neg hlength

theorem isBare_flonumToken (x : Flonum) :
    IsBare (flonumToken x).toList ∧ ofBare (flonumToken x).toList = .ok (float x) := by
  cases hinfinite : x.isInfinite with
  | true =>
    have hmag : x.mag = infinityMag := by simpa [Flonum.isInfinite] using hinfinite
    have hx : x = Flonum.infinity x.neg := Flonum.ext rfl hmag
    generalize x.neg = neg at hx
    subst hx
    cases neg <;> exact ⟨by decide, rfl⟩
  | false =>
    obtain ⟨t, hwf, hinteger, hflonum, hchars⟩ :=
      Flonum.exists_numberText (x := x) (by simp [Flonum.isFinite, hinfinite])
    have hdatum : t.datum = .ok (float x) := by
      simp [NumberText.datum, hinteger, hflonum]
    have htoken : (flonumToken x).toList = t.chars := by
      simp [flonumToken, hinfinite, hchars]
    rw [htoken]
    exact ⟨NumberText.isBare_chars hwf, (ofBare_chars hwf).trans hdatum⟩

def isBareKind : Datum → Bool
  | str _ | list _ | vec _ | map _ => false
  | _ => true

theorem isBare_chars_of_readable {d : Datum} (h : d.Readable) (hkind : d.isBareKind = true) :
    IsBare d.chars ∧ ofBare d.chars = .ok d := by
  cases h with
  | nil => exact ⟨by decide, rfl⟩
  | bool b => cases b <;> exact ⟨by decide, rfl⟩
  | @int n hn =>
    have hwf := wellFormed_integerNumber n
    rw [chars, chars_integerNumber]
    exact ⟨NumberText.isBare_chars hwf, (ofBare_chars hwf).trans (datum_integerNumber hn)⟩
  | float x => exact isBare_flonumToken x
  | nan => exact ⟨by decide, rfl⟩
  | sym hname => exact ⟨hname.1, ofBare_symbolName hname⟩
  | kw hname =>
    refine ⟨⟨by simp [chars], ?_, by simp [chars]⟩, ofBare_keywordName hname⟩
    simpa [chars] using And.intro (by decide) hname.2
  | str s => simp [isBareKind] at hkind
  | list => simp [isBareKind] at hkind
  | vec => simp [isBareKind] at hkind
  | map => simp [isBareKind] at hkind

theorem readable_of_datum {t : NumberText} {d : Datum} (h : t.datum = .ok d) : d.Readable := by
  unfold NumberText.datum at h
  split_ifs at h with hinteger hlimit
  · obtain rfl := Except.ok.inj h
    apply Readable.int
    have hvalue : t.integer.natAbs = Text.digitsValue t.whole := by
      unfold NumberText.integer
      split_ifs <;> simp
    rw [hvalue]
    exact (Text.digitsValue_lt t.whole).trans_le
      (Nat.pow_le_pow_right (by decide) (Nat.le_of_not_lt hlimit))
  · obtain rfl := Except.ok.inj h
    exact Readable.float _

theorem readable_of_constant? {name : String} {d : Datum} (h : constant? name = some d) :
    d.Readable := by
  unfold constant? at h
  split at h
  · exact Option.some.inj h ▸ Readable.nil
  · exact Option.some.inj h ▸ Readable.bool true
  · exact Option.some.inj h ▸ Readable.bool false
  · exact Option.some.inj h ▸ Readable.float _
  · exact Option.some.inj h ▸ Readable.float _
  · exact Option.some.inj h ▸ Readable.nan
  · exact absurd h (by simp)

/-- A bare token that is neither a constant nor like a number nor a keyword names a symbol. -/
theorem isSymbolName_ofList {cs : List Char} (hbare : IsBare cs)
    (hconstant : constant? (String.ofList cs) = none) (hbegins : NumberText.begins cs = false)
    (hcolon : ∀ c rest, cs ≠ ':' :: c :: rest) : IsSymbolName (String.ofList cs) := by
  unfold IsSymbolName
  rw [String.toList_ofList]
  refine ⟨hbare, constant?_eq_none_iff.1 hconstant, hbegins, ?_⟩
  intro hhead
  rcases cs with _ | ⟨c, _ | ⟨c', rest⟩⟩
  · cases hhead
  · obtain rfl := Option.some.inj hhead
    rfl
  · obtain rfl := Option.some.inj hhead
    exact absurd rfl (hcolon c' rest)

theorem readable_of_ofBare {cs : List Char} {d : Datum} (hbare : IsBare cs)
    (h : ofBare cs = .ok d) : d.Readable := by
  unfold ofBare at h
  cases hconstant : constant? (String.ofList cs) with
  | some d' =>
    rw [hconstant] at h
    obtain rfl := Except.ok.inj h
    exact readable_of_constant? hconstant
  | none =>
    rw [hconstant] at h
    cases hnumber : NumberText.ofChars? cs with
    | some t =>
      rw [hnumber] at h
      exact readable_of_datum h
    | none =>
      simp only [hnumber] at h
      split_ifs at h with hbegins
      split at h
      -- a keyword
      · next c rest =>
        obtain rfl := Except.ok.inj h
        refine Readable.kw ⟨by simp, fun a ha => hbare.2.1 a ?_⟩
        rw [String.toList_ofList] at ha
        exact List.mem_cons_of_mem _ ha
      -- a symbol
      · next hcolon =>
        obtain rfl := Except.ok.inj h
        exact Readable.sym (isSymbolName_ofList hbare hconstant (by simpa using hbegins) hcolon)

end Datum

end SmallLisp
