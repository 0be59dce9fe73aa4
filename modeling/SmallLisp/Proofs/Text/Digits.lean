import Mathlib.Tactic
import SmallLisp.Text.Blank

/-!
# Decimal digits of a number

The digits that a number is written with are read back as that number, and a run of digits is
read from left to right, so that the runs it is cut into can be read one by one.
-/

namespace SmallLisp.Text

theorem digit?_digitChar : ∀ d < 10, digit? (Nat.digitChar d) = some d := by decide

theorem isDigit_of_mem_toDigits {c : Char} {n : ℕ} (h : c ∈ Nat.toDigits 10 n) :
    isDigit c = true := by
  have hc : c.isDigit = true := Nat.isDigit_of_mem_toDigits (by decide) (by decide) h
  have hlt : c.toNat < 0x80 := by
    have := (Char.isDigit_iff_toNat.1 hc).2
    simp only [Char.reduceToNat] at this
    omega
  simp [isDigit, digit?, hlt, hc]

theorem isDigit_zero : isDigit '0' = true := by decide

theorem digitsValue_append (xs ys : List Char) :
    digitsValue (xs ++ ys) = digitsValue xs * 10 ^ ys.length + digitsValue ys := by
  induction ys using List.reverseRecOn with
  | nil => simp [digitsValue]
  | append_singleton ys c ih =>
    simp only [digitsValue, ← List.append_assoc, List.foldl_append, List.foldl_cons,
      List.foldl_nil, List.length_append, List.length_singleton, pow_succ] at ih ⊢
    rw [ih]
    ring

theorem digitsValue_replicate_zero (k : ℕ) : digitsValue (List.replicate k '0') = 0 := by
  induction k with
  | zero => rfl
  | succ k ih =>
    rw [List.replicate_succ', digitsValue_append, ih]
    rfl

theorem digit?_lt {c : Char} {d : ℕ} (h : digit? c = some d) : d < 10 := by
  unfold digit? at h
  split_ifs at h with hascii hdigit
  · have := (Char.isDigit_iff_toNat.1 hdigit).2
    simp only [Char.reduceToNat] at this
    simp only [Option.some.injEq] at h
    omega
  · obtain ⟨z, hz, rfl⟩ := Option.map_eq_some_iff.1 h
    have := List.find?_some hz
    simp only [Bool.and_eq_true, decide_eq_true_eq] at this
    omega

theorem digitsValue_lt (cs : List Char) : digitsValue cs < 10 ^ cs.length := by
  induction cs using List.reverseRecOn with
  | nil => simp [digitsValue]
  | append_singleton cs c ih =>
    have hc : digitsValue [c] < 10 := by
      cases h : digit? c with
      | none => simp [digitsValue, h]
      | some d => simpa [digitsValue, h] using digit?_lt h
    rw [digitsValue_append, List.length_append, List.length_singleton, pow_one, pow_succ]
    omega

theorem digitsValue_toDigits (n : ℕ) : digitsValue (Nat.toDigits 10 n) = n := by
  induction n using Nat.strongRecOn with
  | ind n ih =>
    rcases Nat.lt_or_ge n 10 with h | h
    · simp [Nat.toDigits_of_lt_base h, digitsValue, digit?_digitChar n h]
    · have hd := digit?_digitChar (n % 10) (Nat.mod_lt _ (by decide))
      rw [Nat.toDigits_of_base_le (by decide) h, digitsValue_append,
        ih (n / 10) (Nat.div_lt_self (by omega) (by decide))]
      simp only [digitsValue, List.length_singleton, List.foldl_cons, List.foldl_nil, hd,
        Option.getD_some]
      omega

theorem toDigits_mul_pow {n : ℕ} (hn : 0 < n) (k : ℕ) :
    Nat.toDigits 10 (n * 10 ^ k) = Nat.toDigits 10 n ++ List.replicate k '0' := by
  induction k with
  | zero => simp
  | succ k ih =>
    have hpos : 0 < n * 10 ^ k := Nat.mul_pos hn (by positivity)
    have happend := Nat.toDigits_append_toDigits (b := 10) (d := 0) (by decide) hpos (by decide)
    rw [ih, Nat.toDigits_zero, List.append_assoc, ← List.replicate_succ'] at happend
    rw [happend, pow_succ]
    congr 1
    ring

theorem length_toDigits_mul_pow {n : ℕ} (hn : 0 < n) (k : ℕ) :
    (Nat.toDigits 10 (n * 10 ^ k)).length = (Nat.toDigits 10 n).length + k := by
  rw [toDigits_mul_pow hn, List.length_append, List.length_replicate]

end SmallLisp.Text
