import Mathlib.Tactic
import SmallLisp.Proofs.Text.Digits
import SmallLisp.Reader.Literal

/-!
# Numbers are read as they are written

A number has one text with the least number of signs: a minus where it is negative and an
explicit sign in the exponent. The reader takes that text apart into the same digits. No constant
begins like a number, so that the text is not taken for anything else.
-/

namespace SmallLisp

namespace NumberText

/-- The parts of a number are runs of digits, some of them in front of the exponent. -/
structure WellFormed (t : NumberText) : Prop where
  whole : ∀ c ∈ t.whole, Text.isDigit c = true
  fraction : ∀ c ∈ t.fraction.getD [], Text.isDigit c = true
  digits : t.whole ≠ [] ∨ t.fraction.getD [] ≠ []
  exponent : ∀ neg ds, t.exponent = some (neg, ds) → ds ≠ [] ∧ ∀ c ∈ ds, Text.isDigit c = true

def fractionChars : Option (List Char) → List Char
  | none => []
  | some ds => '.' :: ds

def exponentChars : Option (Bool × List Char) → List Char
  | none => []
  | some (neg, ds) => 'e' :: (if neg then '-' else '+') :: ds

def chars (t : NumberText) : List Char :=
  (if t.neg then ['-'] else []) ++ (t.whole ++ (fractionChars t.fraction ++
    exponentChars t.exponent))

theorem takeWhile_digits {ds rest : List Char} (hds : ∀ c ∈ ds, Text.isDigit c = true)
    (hrest : ∀ c ∈ rest.head?, Text.isDigit c = false) :
    (ds ++ rest).takeWhile Text.isDigit = ds ∧ (ds ++ rest).dropWhile Text.isDigit = rest := by
  rw [List.takeWhile_append_of_pos hds, List.dropWhile_append_of_pos hds]
  cases rest with
  | nil => simp
  | cons c cs =>
    have hc : Text.isDigit c = false := hrest c rfl
    simp [hc]

theorem splitSign_of_not_sign {cs : List Char} (h : ∀ c ∈ cs.head?, c ≠ '-' ∧ c ≠ '+') :
    splitSign cs = (false, cs) := by
  unfold splitSign
  split
  · exact absurd rfl (h _ rfl).1
  · exact absurd rfl (h _ rfl).2
  · rfl

theorem exponent?_exponentChars {exponent : Option (Bool × List Char)}
    (h : ∀ neg ds, exponent = some (neg, ds) → ds ≠ [] ∧ ∀ c ∈ ds, Text.isDigit c = true) :
    exponent? (exponentChars exponent) = some exponent := by
  match exponent with
  | none => rfl
  | some (neg, ds) =>
    obtain ⟨hne, hds⟩ := h neg ds rfl
    have hall : ds.all Text.isDigit = true := List.all_eq_true.2 hds
    cases neg <;> simp [exponentChars, exponent?, splitSign, hne, hall]

theorem not_isDigit_head?_exponentChars (exponent : Option (Bool × List Char)) :
    ∀ c ∈ (exponentChars exponent).head?, Text.isDigit c = false := by
  match exponent with
  | none => simp [exponentChars]
  | some (neg, ds) => simp [exponentChars]; decide

theorem not_isDigit_head?_fractionChars (fraction : Option (List Char))
    (exponent : Option (Bool × List Char)) :
    ∀ c ∈ (fractionChars fraction ++ exponentChars exponent).head?, Text.isDigit c = false := by
  match fraction with
  | none => exact not_isDigit_head?_exponentChars exponent
  | some ds => simp [fractionChars]; decide

theorem WellFormed.not_sign {t : NumberText} (h : t.WellFormed) :
    ∀ c ∈ (t.whole ++ (fractionChars t.fraction ++ exponentChars t.exponent)).head?,
      c ≠ '-' ∧ c ≠ '+' := by
  intro c hc
  have hsign : ∀ c, Text.isDigit c = true → c ≠ '-' ∧ c ≠ '+' := by
    intro c hc
    constructor <;> rintro rfl <;> exact absurd hc (by decide)
  match hw : t.whole with
  | d :: ds =>
    rw [hw, List.cons_append, List.head?_cons, Option.mem_some_iff] at hc
    exact hsign c (h.whole c (by simp [hw, hc]))
  | [] =>
    match hf : t.fraction with
    | none => exact absurd h.digits (by simp [hw, hf])
    | some ds =>
      rw [hw, hf, List.nil_append, fractionChars, List.cons_append, List.head?_cons,
        Option.mem_some_iff] at hc
      subst hc
      decide

theorem ofChars?_chars {t : NumberText} (h : t.WellFormed) : ofChars? t.chars = some t := by
  have hsign : splitSign t.chars =
      (t.neg, t.whole ++ (fractionChars t.fraction ++ exponentChars t.exponent)) := by
    cases hneg : t.neg with
    | true => simp [chars, hneg, splitSign]
    | false =>
      rw [chars, hneg]
      exact splitSign_of_not_sign h.not_sign
  obtain ⟨htake, hdrop⟩ :=
    takeWhile_digits h.whole (not_isDigit_head?_fractionChars t.fraction t.exponent)
  have hdigits : (t.whole.isEmpty && (t.fraction.getD []).isEmpty) = false := by
    rcases h.digits with hw | hf
    · simp [hw]
    · simp [hf]
  have hexp := exponent?_exponentChars h.exponent
  rw [ofChars?, hsign]
  simp only [htake, hdrop]
  obtain ⟨neg, whole, fraction, exponent⟩ := t
  match fraction with
  | none =>
    match exponent with
    | none => simp_all [fractionChars, exponentChars]
    | some (eneg, ds) => simp_all [fractionChars, exponentChars]
  | some ds =>
    obtain ⟨htake', hdrop'⟩ :=
      takeWhile_digits h.fraction (not_isDigit_head?_exponentChars exponent)
    simp_all [fractionChars]

theorem begins_of_ofChars? {cs : List Char} {t : NumberText} (h : ofChars? cs = some t) :
    begins cs = true := by
  unfold ofChars? at h
  unfold begins
  generalize splitSign cs = signed at h ⊢
  obtain ⟨neg, rest⟩ := signed
  dsimp only at h ⊢
  match rest with
  | [] => simp at h
  | c :: rest =>
    cases hc : Text.isDigit c with
    | true =>
      have : c ≠ '.' := by
        rintro rfl
        exact absurd hc (by decide)
      split <;> simp_all
    | false =>
      by_cases hpoint : c = '.'
      · subst hpoint
        match rest with
        | [] => simp [hc] at h
        | d :: rest =>
          cases hd : Text.isDigit d with
          | true => exact hd
          | false => simp [hc, hd] at h
      · simp [hc, hpoint] at h

end NumberText

theorem Datum.not_begins_of_constant? {token : String} {d : Datum}
    (h : Datum.constant? token = some d) : NumberText.begins token.toList = false := by
  unfold Datum.constant? at h
  split at h <;> first | decide | simp at h

theorem Datum.ofBare_chars {t : NumberText} (h : t.WellFormed) :
    Datum.ofBare t.chars = t.datum := by
  have hread := NumberText.ofChars?_chars h
  have hconstant : Datum.constant? (String.ofList t.chars) = none := by
    by_contra hne
    obtain ⟨d, hd⟩ := Option.ne_none_iff_exists'.1 hne
    have := Datum.not_begins_of_constant? hd
    rw [String.toList_ofList, NumberText.begins_of_ofChars? hread] at this
    exact Bool.noConfusion this
  simp only [Datum.ofBare, hconstant, hread]

end SmallLisp
