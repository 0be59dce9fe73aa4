import SmallLisp.Proofs.Flonum.Decimal
import SmallLisp.Proofs.Reader.Number

/-!
# The text of a flonum reads back

Every layout of a decimal, positional or with an exponent, shows the digits of the decimal without
the zeros at its end, and a point or an exponent that makes up for their place.
-/

namespace SmallLisp.Flonum

open Text

/-- A number shows digits with the point after the first `place` of them. Zeros may stand on both
sides of the digits. -/
structure Shows (t : NumberText) (ds : List Char) (place : ℤ) : Prop where
  wellFormed : t.WellFormed
  isInteger : t.isInteger = false
  digits : ∃ before zeros : ℕ,
    t.whole ++ t.fraction.getD [] =
        List.replicate before '0' ++ (ds ++ List.replicate zeros '0') ∧
      t.exponentValue - (t.fraction.getD []).length + ds.length + zeros = place

section

variable {ds : List Char} (hdigit : ∀ c ∈ ds, isDigit c = true) (hne : ds ≠ []) (neg : Bool)
include hdigit hne

omit hne in
theorem exists_shows_fraction {place : ℤ} (hle : place ≤ 0) :
    ∃ t : NumberText, t.neg = neg ∧ Shows t ds place ∧
      (if neg then ['-'] else []) ++ positional ds place = t.chars := by
  refine ⟨⟨neg, ['0'], some (List.replicate (-place).toNat '0' ++ ds), none⟩, rfl,
    ⟨⟨by simp [isDigit_zero], ?_, by simp, by simp⟩, rfl, (-place).toNat + 1, 0, ?_, ?_⟩, ?_⟩
  · simpa [or_imp, forall_and, isDigit_zero] using hdigit
  · simp [List.replicate_succ]
  · simp only [NumberText.exponentValue, Option.getD_some, List.length_append,
      List.length_replicate]
    push_cast
    omega
  · simp [positional, hle, NumberText.chars, NumberText.fractionChars, NumberText.exponentChars]

omit hne in
theorem exists_shows_whole {place : ℤ} (hpos : 0 < place) (hlong : ds.length ≤ place.toNat) :
    ∃ t : NumberText, t.neg = neg ∧ Shows t ds place ∧
      (if neg then ['-'] else []) ++ positional ds place = t.chars := by
  have hle : ¬ place ≤ 0 := by omega
  refine ⟨⟨neg, ds ++ List.replicate (place.toNat - ds.length) '0', some ['0'], none⟩, rfl,
    ⟨⟨?_, by simp [isDigit_zero], by simp, by simp⟩, rfl, 0,
      place.toNat - ds.length + 1, ?_, ?_⟩, ?_⟩
  · simpa [or_imp, forall_and, isDigit_zero] using hdigit
  · simp [List.replicate_succ']
  · simp only [NumberText.exponentValue, Option.getD_some, List.length_singleton]
    push_cast
    omega
  · simp [positional, hle, hlong, NumberText.chars, NumberText.fractionChars,
      NumberText.exponentChars]

theorem exists_shows_between {place : ℤ} (hpos : 0 < place) (hshort : place.toNat < ds.length) :
    ∃ t : NumberText, t.neg = neg ∧ Shows t ds place ∧
      (if neg then ['-'] else []) ++ positional ds place = t.chars := by
  have hle : ¬ place ≤ 0 := by omega
  have hlong : ¬ ds.length ≤ place.toNat := by omega
  have hwhole : ds.take place.toNat ≠ [] := by
    rw [Ne, List.take_eq_nil_iff]
    rintro (h | h)
    · omega
    · exact hne h
  refine ⟨⟨neg, ds.take place.toNat, some (ds.drop place.toNat), none⟩, rfl,
    ⟨⟨fun c hc => hdigit c (List.mem_of_mem_take hc),
      fun c hc => hdigit c (List.mem_of_mem_drop hc), Or.inl hwhole, by simp⟩,
      rfl, 0, 0, ?_, ?_⟩, ?_⟩
  · simp
  · simp only [NumberText.exponentValue, Option.getD_some, List.length_drop]
    push_cast
    omega
  · simp [positional, hle, hlong, NumberText.chars, NumberText.fractionChars,
      NumberText.exponentChars]

theorem exists_shows_positional (place : ℤ) :
    ∃ t : NumberText, t.neg = neg ∧ Shows t ds place ∧
      (if neg then ['-'] else []) ++ positional ds place = t.chars := by
  by_cases hle : place ≤ 0
  · exact exists_shows_fraction hdigit neg hle
  by_cases hlong : ds.length ≤ place.toNat
  · exact exists_shows_whole hdigit neg (by omega) hlong
  · exact exists_shows_between hdigit hne neg (by omega) (by omega)

omit hdigit hne in
/-- The exponent as it is written has a sign and at least two digits. -/
theorem exists_exponentText (e : ℤ) :
    ∃ es, exponentText e = NumberText.exponentChars (some (decide (e < 0), es)) ∧ es ≠ [] ∧
      (∀ c ∈ es, isDigit c = true) ∧ digitsValue es = e.natAbs := by
  have hdigits : ∀ c ∈ Nat.toDigits 10 e.natAbs, isDigit c = true :=
    fun c hc => isDigit_of_mem_toDigits hc
  by_cases hshort : (Nat.toDigits 10 e.natAbs).length < 2
  · refine ⟨'0' :: Nat.toDigits 10 e.natAbs, ?_, by simp, ?_, ?_⟩
    · simp [exponentText, NumberText.exponentChars, hshort]
    · simpa [isDigit_zero] using hdigits
    · have := digitsValue_append ['0'] (Nat.toDigits 10 e.natAbs)
      rwa [show digitsValue ['0'] = 0 from rfl, Nat.zero_mul, Nat.zero_add,
        digitsValue_toDigits] at this
  · refine ⟨Nat.toDigits 10 e.natAbs, ?_, Nat.toDigits_ne_nil, hdigits, digitsValue_toDigits _⟩
    simp [exponentText, NumberText.exponentChars, hshort]

theorem exists_shows_scientific (place : ℤ) :
    ∃ t : NumberText, t.neg = neg ∧ Shows t ds place ∧
      (if neg then ['-'] else []) ++ scientific ds place = t.chars := by
  obtain ⟨es, htext, hes, hesdigit, hvalue⟩ := exists_exponentText (place - 1)
  obtain ⟨d, rest, rfl⟩ := List.exists_cons_of_ne_nil hne
  set t : NumberText := ⟨neg, [d], if rest.isEmpty then none else some rest,
    some (decide (place - 1 < 0), es)⟩ with ht
  have hfraction : t.fraction.getD [] = rest := by
    cases rest <;> rfl
  have hexponent : t.exponentValue = place - 1 := by
    simp only [ht, NumberText.exponentValue, hvalue]
    split_ifs with h <;> simp only [decide_eq_true_eq] at h <;> omega
  refine ⟨t, rfl, ⟨⟨?_, ?_, Or.inl (by simp [ht]), ?_⟩, by simp [ht, NumberText.isInteger],
    0, 0, ?_, ?_⟩, ?_⟩
  · simpa [ht] using hdigit d (by simp)
  · rw [hfraction]
    exact fun c hc => hdigit c (by simp [hc])
  · rintro eneg es' h
    obtain ⟨-, rfl⟩ := Prod.mk.inj (Option.some.inj h)
    exact ⟨hes, hesdigit⟩
  · rw [hfraction]
    simp [ht]
  · rw [hexponent, hfraction, List.length_cons]
    push_cast
    omega
  · rw [scientific, htext]
    cases rest <;> simp [ht, NumberText.chars, NumberText.fractionChars]

end

theorem exists_significantDigits (n : ℕ) :
    ∃ k, Nat.toDigits 10 n = significantDigits n ++ List.replicate k '0' := by
  set zeros := (Nat.toDigits 10 n).reverse.takeWhile (· == '0') with hzeros
  have hall : zeros.all (· == '0') = true := List.all_takeWhile
  have hreplicate : zeros.reverse = List.replicate zeros.length '0' := by
    rw [List.eq_replicate_iff, List.length_reverse]
    refine ⟨rfl, fun c hc => ?_⟩
    exact beq_iff_eq.1 (List.all_eq_true.1 hall c (List.mem_reverse.1 hc))
  refine ⟨zeros.length, ?_⟩
  rw [← hreplicate, significantDigits, ← List.reverse_append, hzeros,
    List.takeWhile_append_dropWhile, List.reverse_reverse]

section

variable {x : Flonum} (hfinite : x.isFinite = true) (hzero : x.isZero = false)
include hfinite hzero

/-- What shows the significant digits with the point in its place denotes the flonum. -/
theorem flonum_eq_of_shows {t : NumberText} (hneg : t.neg = x.neg)
    (h : Shows t (significantDigits x.shortest.digits)
      (x.shortest.exponent + (Nat.toDigits 10 x.shortest.digits).length)) :
    t.flonum = x := by
  obtain ⟨before, zeros, hdigits, hplace⟩ := h.digits
  obtain ⟨k, hk⟩ := exists_significantDigits x.shortest.digits
  generalize significantDigits x.shortest.digits = ds at hdigits hplace hk
  have hshortest : x.shortest.digits = digitsValue ds * 10 ^ k := by
    rw [← digitsValue_toDigits x.shortest.digits, hk, digitsValue_append,
      digitsValue_replicate_zero, List.length_replicate, Nat.add_zero]
  have hpos : 0 < digitsValue ds := by
    have := digits_shortest_pos hfinite hzero
    rw [hshortest] at this
    exact Nat.pos_of_mul_pos_right this
  have hvalue : digitsValue (t.whole ++ t.fraction.getD []) = digitsValue ds * 10 ^ zeros := by
    rw [hdigits, digitsValue_append, digitsValue_append, digitsValue_replicate_zero,
      digitsValue_replicate_zero, List.length_replicate]
    ring
  have hread := ofDecimal_shortest hfinite hzero
  rw [hk, List.length_append, List.length_replicate] at hplace
  rw [hshortest, show x.shortest.exponent =
      t.exponentValue - (t.fraction.getD []).length + zeros - k by push_cast at hplace; omega,
    ofDecimal_mul_pow _ hpos] at hread
  rw [NumberText.flonum, hneg, hvalue, show t.exponentValue - (t.fraction.getD []).length =
      t.exponentValue - (t.fraction.getD []).length + zeros - zeros by omega,
    ofDecimal_mul_pow _ hpos]
  exact hread

theorem exists_shows_text :
    ∃ t : NumberText, t.neg = x.neg ∧ Shows t (significantDigits x.shortest.digits)
        (x.shortest.exponent + (Nat.toDigits 10 x.shortest.digits).length) ∧
      x.sign ++ decimalText x.shortest = t.chars := by
  obtain ⟨k, hk⟩ := exists_significantDigits x.shortest.digits
  have hdigit : ∀ c ∈ significantDigits x.shortest.digits, isDigit c = true := fun c hc =>
    isDigit_of_mem_toDigits (hk ▸ List.mem_append_left _ hc)
  have hne : significantDigits x.shortest.digits ≠ [] := by
    intro h
    have hvalue := digitsValue_toDigits x.shortest.digits
    rw [hk, h, List.nil_append, digitsValue_replicate_zero] at hvalue
    exact (digits_shortest_pos hfinite hzero).ne hvalue
  unfold decimalText
  dsimp only
  split
  · exact exists_shows_positional hdigit hne _ _
  · exact exists_shows_scientific hdigit hne _ _

end

/-- The text of a finite flonum is that of a number that denotes the flonum. -/
theorem exists_numberText {x : Flonum} (hfinite : x.isFinite = true) :
    ∃ t : NumberText, t.WellFormed ∧ t.isInteger = false ∧ t.flonum = x ∧
      x.text.toList = t.chars := by
  cases hzero : x.isZero with
  | true =>
    refine ⟨⟨x.neg, ['0'], some ['0'], none⟩,
      ⟨by simp [isDigit_zero], by simp [isDigit_zero], by simp, by simp⟩, rfl, ?_, ?_⟩
    · have hmag : x.mag = 0 := by simpa [isZero] using hzero
      have hvalue : digitsValue ['0', '0'] = 0 := rfl
      change ofDecimal x.neg (digitsValue ['0', '0']) _ = x
      rw [hvalue, ofDecimal, if_pos rfl]
      exact ext rfl hmag.symm
    · rw [text, String.toList_ofList, if_pos hzero]
      simp [sign, NumberText.chars, NumberText.fractionChars, NumberText.exponentChars]
  | false =>
    obtain ⟨t, hneg, hshows, hchars⟩ := exists_shows_text hfinite hzero
    refine ⟨t, hshows.wellFormed, hshows.isInteger, flonum_eq_of_shows hfinite hzero hneg hshows, ?_⟩
    have hinfinite : x.isInfinite = false := by simpa [isFinite] using hfinite
    rw [text, String.toList_ofList, ← hchars]
    simp only [hzero, hinfinite, Bool.false_eq_true, if_false]

end SmallLisp.Flonum
