import Mathlib.Tactic
import SmallLisp.Proofs.Eval.Within
import SmallLisp.Proofs.Template.Call

/-!
# Arithmetic progressions

The numbers of `range` go on from the start by the step as long as they are below the end, which is
left out itself. How many integers that are is read off the quotient of the distance by the step. A
progression that starts below its end and does not go up never comes to an end. One that is cut at
one of its numbers is made of the progressions in front of the cut and from it on.
-/

namespace SmallLisp

open Eval Template

def Value.IsCore (f : Core) (v : Value) : Prop :=
  ∃ wrapped id info, v = .builtin (.core f) wrapped id info

namespace Arithmetic

variable {start stop middle step : ℤ} {count more limit : ℕ}

def members (start step : ℤ) (count : ℕ) : List ℤ :=
  (List.range count).map fun k : ℕ => start + k * step

/-- The integers of a progression that are below its end. Their count is the distance divided by
the step, rounded up. -/
def between (start stop step : ℤ) : List ℤ :=
  if stop ≤ start then [] else members start step ⌈((stop - start : ℤ) : ℚ) / step⌉₊

/-- So many integers of a progression are below its end, one after the other. -/
structure Spans (start stop step : ℤ) (count : ℕ) : Prop where
  below {k : ℕ} : k < count → start + k * step < stop
  reaches : stop ≤ start + count * step

theorem members_succ (start step : ℤ) (count : ℕ) :
    members start step (count + 1) = start :: members (start + step) step count := by
  simp only [members, List.range_succ_eq_map, List.map_cons, List.map_map]
  refine congrArg₂ List.cons (by simp) (List.map_congr_left fun k _ => ?_)
  simp only [Function.comp_apply]
  push_cast
  ring

theorem members_add (start step : ℤ) (count more : ℕ) :
    members start step (count + more) =
      members start step count ++ members (start + count * step) step more := by
  simp only [members, List.range_add, List.map_append, List.map_map]
  refine congrArg _ (List.map_congr_left fun k _ => ?_)
  simp only [Function.comp_apply]
  push_cast
  ring

theorem isChain_members (start step : ℤ) (count : ℕ) :
    (members start step count).IsChain fun m n => n = m + step := by
  refine List.isChain_iff_getElem.2 fun k hk => ?_
  simp only [members, List.getElem_map, List.getElem_range]
  push_cast
  ring

theorem Spans.bounds (h : Spans start stop step count) (hends : stop ≤ start ∨ 0 < step) :
    ∀ n ∈ members start step count, start ≤ n ∧ n < stop := by
  refine List.forall_mem_map.2 fun k hk => ?_
  have hk := List.mem_range.1 hk
  have hstart : start < stop := by simpa using h.below (Nat.zero_lt_of_lt hk)
  have hpassed : 0 ≤ (k : ℤ) * step := by
    have hstep := hends.resolve_left hstart.not_ge
    positivity
  exact ⟨by omega, h.below hk⟩

theorem spans_zero (h : stop ≤ start) : Spans start stop step 0 where
  below hk := absurd hk (Nat.not_lt_zero _)
  reaches := by simpa using h

theorem spans_ceil (hstep : 0 < step) :
    Spans start stop step ⌈((stop - start : ℤ) : ℚ) / step⌉₊ := by
  have hpos : (0 : ℚ) < step := Int.cast_pos.2 hstep
  constructor
  · intro k hk
    have hlt := (lt_div_iff₀ hpos).1 (Nat.lt_ceil.1 hk)
    have hlt : (k : ℤ) * step < stop - start := by exact_mod_cast hlt
    omega
  · have hle := (div_le_iff₀ hpos).1 (Nat.le_ceil (((stop - start : ℤ) : ℚ) / step))
    have hle : stop - start ≤ (⌈((stop - start : ℤ) : ℚ) / step⌉₊ : ℤ) * step := by
      exact_mod_cast hle
    omega

theorem spans_steps (hstep : 0 < step) (count : ℕ) :
    Spans start (start + count * step) step count where
  below hk := by
    have hlt := mul_lt_mul_of_pos_right (Int.ofNat_lt.2 hk) hstep
    omega
  reaches := le_rfl

theorem Spans.append (h : Spans (start + count * step) stop step more) (hstep : 0 < step)
    (hle : start + count * step ≤ stop) : Spans start stop step (count + more) where
  below {k} hk := by
    by_cases hcount : k < count
    · exact ((spans_steps hstep count).below hcount).trans_le hle
    · obtain ⟨j, rfl⟩ := Nat.exists_eq_add_of_le (Nat.not_lt.1 hcount)
      have hbelow := h.below (k := j) (by omega)
      calc start + ((count + j : ℕ) : ℤ) * step
          = start + count * step + j * step := by push_cast; ring
        _ < stop := hbelow
  reaches := by
    calc stop ≤ start + count * step + more * step := h.reaches
      _ = start + ((count + more : ℕ) : ℤ) * step := by push_cast; ring

/-- No other count of integers is below the end. -/
theorem Spans.unique (h : Spans start stop step count) (h' : Spans start stop step more) :
    count = more := by
  by_contra hne
  obtain hlt | hlt := Nat.lt_or_gt_of_ne hne
  · exact (h'.below hlt).not_ge h.reaches
  · exact (h.below hlt).not_ge h'.reaches

theorem Spans.members_eq (h : Spans start stop step count) (hends : stop ≤ start ∨ 0 < step) :
    members start step count = between start stop step := by
  unfold between
  split
  · next hle => rw [h.unique (spans_zero hle)]; rfl
  · next hlt => rw [h.unique (spans_ceil (hends.resolve_left hlt))]

theorem exists_spans (hends : stop ≤ start ∨ 0 < step) : ∃ count, Spans start stop step count :=
  hends.elim (fun hle => ⟨0, spans_zero hle⟩) fun hstep => ⟨_, spans_ceil hstep⟩

theorem progression_of_lt (h : start < stop) (passed : List Number) :
    progression (.int stop) (.int step) (limit + 1) (.int start) passed =
      progression (.int stop) (.int step) limit (.int (start + step)) (.int start :: passed) := by
  rw [progression, if_pos (show Number.lt _ _ = true by simpa [Number.lt] using h)]
  rfl

theorem progression_of_le (h : stop ≤ start) (passed : List Number) :
    progression (.int stop) (.int step) (limit + 1) (.int start) passed = .ok passed := by
  rw [progression, if_neg (show ¬ Number.lt _ _ = true by simpa [Number.lt] using h)]

/-- A progression passes its members, if the limit leaves room for one round more. -/
theorem progression_of_spans (h : Spans start stop step count) (hlimit : count < limit)
    (passed : List Number) :
    progression (.int stop) (.int step) limit (.int start) passed =
      .ok (((members start step count).map Number.int).reverse ++ passed) := by
  obtain ⟨limit, rfl⟩ := Nat.exists_eq_add_of_le' (Nat.one_le_of_lt hlimit)
  induction count generalizing start limit passed with
  | zero => exact progression_of_le (by simpa using h.reaches) passed
  | succ count ih =>
    have hstart : start < stop := by simpa using h.below (Nat.succ_pos count)
    have hnext : Spans (start + step) stop step count := by
      constructor
      · intro k hk
        have hbelow := h.below (Nat.succ_lt_succ hk)
        push_cast at hbelow
        linarith
      · have hreaches := h.reaches
        push_cast at hreaches
        linarith
    have hlimit := Nat.lt_of_succ_lt_succ hlimit
    obtain ⟨limit, rfl⟩ := Nat.exists_eq_add_of_le' (Nat.one_le_of_lt hlimit)
    rw [progression_of_lt hstart, ih hnext _ limit hlimit, members_succ]
    simp

/-- A progression below its end that does not go up exhausts every limit. -/
theorem progression_endless (hstart : start < stop) (hstep : step ≤ 0) (limit : ℕ)
    (passed : List Number) :
    progression (.int stop) (.int step) limit (.int start) passed = .error .passesExhausted := by
  induction limit generalizing start passed with
  | zero => rfl
  | succ limit ih =>
    rw [progression_of_lt hstart]
    exact ih (by omega) _

theorem mapM_ofNumber_int (ns : List ℤ) (s : Store) :
    (ns.map Number.int).mapM ofNumber s = .ok (ns.map Value.int) s := by
  induction ns with
  | nil => rfl
  | cons n ns ih =>
    rw [List.map_cons, List.mapM_cons]
    exact (bind_of_ok (show ofNumber (.int n) s = .ok (.int n) s from rfl)).trans
      ((bind_of_ok ih).trans rfl)

theorem range_stop (limit : ℕ) (stop : ℤ) :
    range limit [.int stop] = range limit [.int 0, .int stop, .int 1] := rfl

theorem range_start (limit : ℕ) (start stop : ℤ) :
    range limit [.int start, .int stop] = range limit [.int start, .int stop, .int 1] := rfl

theorem range_eq (limit : ℕ) (start stop step : ℤ) :
    range limit [.int start, .int stop, .int step] =
      ofExcept (progression (.int stop) (.int step) limit (.int start) []) >>= fun reversed =>
        reversed.reverse.mapM ofNumber >>= newList := rfl

theorem range_of_spans (h : Spans start stop step count) (hlimit : count < limit) (s : Store) :
    range limit [.int start, .int stop, .int step] s =
      .ok (listIn s ((members start step count).map .int)) (afterList s) := by
  have hpassed := progression_of_spans h hlimit []
  rw [List.append_nil] at hpassed
  rw [range_eq, hpassed]
  refine (bind_of_ok rfl).trans ?_
  rw [List.reverse_reverse]
  exact (bind_of_ok (mapM_ofNumber_int _ s)).trans rfl

theorem range_endless (hstart : start < stop) (hstep : step ≤ 0) (limit : ℕ) (s : Store) :
    range limit [.int start, .int stop, .int step] s = .error .passesExhausted s := by
  rw [range_eq, progression_endless hstart hstep]
  rfl

section

variable {range concat : Value} {s : Store}

theorem endsWith_range (hrange : range.IsCore .range) (h : Spans start stop step count) :
    EndsWith (.call range [.int start, .int stop, .int step]) s
      (.ok (listIn s ((members start step count).map .int)) (afterList s)) := by
  obtain ⟨wrapped, id, info, rfl⟩ := hrange
  apply EndsWithin.endsWith
  change EndsWithin 0 _ _ _
  refine endsWithin_of_done ?_
  filter_upwards [Filter.eventually_gt_atTop count] with limit hlimit
  have hinside : inside Core.range.name
      (Arithmetic.range limit [.int start, .int stop, .int step]) s =
        .ok (listIn s ((members start step count).map .int)) (afterList s) := by
    rw [inside, range_of_spans h hlimit]
  exact bind_of_ok hinside

/-- A progression that does not come to its end keeps a call going. -/
theorem run_range_endless (hrange : range.IsCore .range) (hstart : start < stop) (hstep : step ≤ 0)
    (passes room : ℕ) :
    run passes room (.call range [.int start, .int stop, .int step]) s =
      .error .passesExhausted s := by
  obtain ⟨wrapped, id, info, rfl⟩ := hrange
  cases passes with
  | zero => rfl
  | succ passes =>
    have hinside : inside Core.range.name
        (Arithmetic.range passes [.int start, .int stop, .int step]) s =
          .error .passesExhausted s := by
      rw [inside, range_endless hstart hstep]
      rfl
    rw [run_succ]
    exact bind_of_error (bind_of_error hinside)

theorem endsWith_range_iff (hrange : range.IsCore .range) :
    (∃ r, EndsWith (.call range [.int start, .int stop, .int step]) s r) ↔
      stop ≤ start ∨ 0 < step := by
  constructor
  · rintro ⟨r, hended, passes, room, hrun⟩
    by_contra! hendless
    rw [← hrun, run_range_endless hrange hendless.1 hendless.2] at hended
    exact hended
  · intro hends
    obtain ⟨count, h⟩ := exists_spans hends
    exact ⟨_, endsWith_range hrange h⟩

/-- Calls that do the same at every limit end the same. -/
theorem endsWith_range_congr (hrange : range.IsCore .range) {args args' : List Value}
    (h : ∀ limit, Arithmetic.range limit args = Arithmetic.range limit args') (r : Result Value) :
    EndsWith (.call range args) s r ↔ EndsWith (.call range args') s r := by
  obtain ⟨wrapped, id, info, rfl⟩ := hrange
  have hrun (passes room : ℕ) :
      run passes room (.call (.builtin (.core .range) wrapped id info) args) s =
        run passes room (.call (.builtin (.core .range) wrapped id info) args') s := by
    cases passes with
    | zero => rfl
    | succ passes =>
      have hpass (nested : Nested) (limit : ℕ) :
          pass nested limit (.call (.builtin (.core .range) wrapped id info) args) =
            pass nested limit (.call (.builtin (.core .range) wrapped id info) args') := by
        change (inside _ (Arithmetic.range limit args) >>= _) =
          (inside _ (Arithmetic.range limit args') >>= _)
        rw [h]
      rw [run_succ, run_succ, hpass]
  simp only [EndsWith, hrun]

theorem endsWith_concat_call (hconcat : concat.IsCore .concat) {left right : Value}
    {first others : List Value} (hleft : elements? left = some first)
    (hright : elements? right = some others) :
    EndsWith (.call concat [left, right]) s (.ok (listIn s (first ++ others)) (afterList s)) := by
  obtain ⟨wrapped, id, info, rfl⟩ := hconcat
  have hended : Ended (.ok (listIn s (first ++ others)) (afterList s) : Result Value) := trivial
  exact (endsWithin_builtin (runBuiltin_concat hleft hright s) hended 0 wrapped id info).endsWith

/-- A call of `range` ends unless it starts below the end and does not go up. It makes the list of
the integers of the progression below the end; the first is zero and the step is one if they are
left out. The lists up to one of the integers and from it on make the whole one. -/
theorem range_half_open (hrange : range.IsCore .range) (hconcat : concat.IsCore .concat) (s : Store)
    (start stop step : ℤ) :
    ((∃ r, EndsWith (.call range [.int start, .int stop, .int step]) s r) ↔
      stop ≤ start ∨ 0 < step) ∧
    (∀ r, EndsWith (.call range [.int start, .int stop, .int step]) s r →
      r = .ok (listIn s ((between start stop step).map .int)) (afterList s) ∧
      (∀ n ∈ between start stop step, start ≤ n ∧ n < stop) ∧
      (between start stop step).IsChain (fun m n => n = m + step) ∧
      stop ≤ start + (between start stop step).length * step) ∧
    (∀ r, EndsWith (.call range [.int stop]) s r ↔
      EndsWith (.call range [.int 0, .int stop, .int 1]) s r) ∧
    (∀ r, EndsWith (.call range [.int start, .int stop]) s r ↔
      EndsWith (.call range [.int start, .int stop, .int 1]) s r) ∧
    (0 < step → ∀ k : ℕ, start + k * step ≤ stop → ∃ front back s₁ s₂,
      EndsWith (.call range [.int start, .int (start + k * step), .int step]) s (.ok front s₁) ∧
      EndsWith (.call range [.int (start + k * step), .int stop, .int step]) s₁ (.ok back s₂) ∧
      EndsWith (.call concat [front, back]) s₂
        (.ok (listIn s₂ ((between start stop step).map .int)) (afterList s₂))) := by
  refine ⟨endsWith_range_iff hrange, ?_, endsWith_range_congr hrange fun _ => range_stop _ _,
    endsWith_range_congr hrange fun _ => range_start _ _ _, ?_⟩
  · intro r hr
    have hends := (endsWith_range_iff hrange).1 ⟨r, hr⟩
    obtain ⟨count, h⟩ := exists_spans hends
    rw [← h.members_eq hends, hr.unique (endsWith_range hrange h)]
    refine ⟨rfl, h.bounds hends, isChain_members start step count, ?_⟩
    simpa [members] using h.reaches
  · intro hstep k hk
    obtain ⟨more, h⟩ : ∃ more, Spans (start + k * step) stop step more :=
      exists_spans (.inr hstep)
    refine ⟨_, _, _, _, endsWith_range hrange (spans_steps hstep k), endsWith_range hrange h, ?_⟩
    rw [← (h.append hstep hk).members_eq (.inr hstep), members_add, List.map_append]
    exact endsWith_concat_call hconcat rfl rfl

/-- The numbers from minus one to below seven by threes, cut at five. -/
theorem range_half_open_threes :
    Value.IsCore .range (.builtin (.core .range) false 0 .nil) ∧
    Value.IsCore .concat (.builtin (.core .concat) false 1 .nil) ∧
    (∃ r, EndsWith (.call (.builtin (.core .range) false 0 .nil) [.int (-1), .int 7, .int 3])
      (.empty 0) r) ∧
    between (-1) 7 3 = [-1, 2, 5] ∧
    ∃ front back s₁ s₂,
      EndsWith (.call (.builtin (.core .range) false 0 .nil) [.int (-1), .int 5, .int 3])
        (.empty 0) (.ok front s₁) ∧
      EndsWith (.call (.builtin (.core .range) false 0 .nil) [.int 5, .int 7, .int 3]) s₁
        (.ok back s₂) ∧
      EndsWith (.call (.builtin (.core .concat) false 1 .nil) [front, back]) s₂
        (.ok (listIn s₂ ([-1, 2, 5].map .int)) (afterList s₂)) := by
  have hitems : between (-1) 7 3 = [-1, 2, 5] := by
    have hspans : Spans (-1) 7 3 3 :=
      ⟨fun hk => by omega, by norm_num⟩
    rw [← hspans.members_eq (.inr (by decide))]
    rfl
  have hrange : Value.IsCore .range (.builtin (.core .range) false 0 .nil) := ⟨_, _, _, rfl⟩
  have hconcat : Value.IsCore .concat (.builtin (.core .concat) false 1 .nil) := ⟨_, _, _, rfl⟩
  obtain ⟨hends, -, -, -, hcut⟩ := range_half_open hrange hconcat (.empty 0) (-1) 7 3
  obtain ⟨front, back, s₁, s₂, hfront, hback, hwhole⟩ := hcut (by decide) 2 (by decide)
  rw [hitems] at hwhole
  exact ⟨hrange, hconcat, hends.2 (.inr (by decide)), hitems, front, back, s₁, s₂, hfront, hback,
    hwhole⟩

end

end Arithmetic

end SmallLisp
