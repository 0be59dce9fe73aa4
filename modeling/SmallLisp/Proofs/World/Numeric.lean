import Mathlib.Tactic
import SmallLisp.Numeric.Run
import SmallLisp.Proofs.World.Comparison

/-!
# Numeric functions run alike

A numeric function sees the number that an argument is, or the name of its type. What it returns is
a number, or it is one of its items or made of them.
-/

namespace SmallLisp.World

open Eval

variable {root root' : ScopeId} {W : World root root'} {v v' w w' : Value}
  {vs ws args args' : List Value}

/-- Two computations without a store return related results or the same fault. -/
inductive Returns {ε α β : Type} (related : α → β → Prop) : Except ε α → Except ε β → Prop
  | ok {a : α} {b : β} : related a b → Returns related (.ok a) (.ok b)
  | error (fault : ε) : Returns related (.error fault) (.error fault)

section

variable {ε α β γ δ : Type} {related : α → β → Prop} {related' : γ → δ → Prop}

theorem Returns.bind {x : Except ε α} {y : Except ε β} {f : α → Except ε γ} {g : β → Except ε δ}
    (hxy : Returns related x y) (hfg : ∀ a b, related a b → Returns related' (f a) (g b)) :
    Returns related' (x >>= f) (y >>= g) := by
  cases hxy with
  | ok hab => exact hfg _ _ hab
  | error fault => exact .error fault

theorem returns_same {related : α → α → Prop} (hrefl : ∀ a, related a a) {x y : Except ε α}
    (h : x = y) : Returns related x y := by
  subst h
  cases x with
  | ok a => exact .ok (hrefl a)
  | error fault => exact .error fault

theorem returns_map {f : α → β} {related : β → β → Prop} (hrefl : ∀ a, related (f a) (f a))
    {x y : Except ε α} (h : x = y) : Returns related (f <$> x) (f <$> y) := by
  subst h
  cases x with
  | ok a => exact .ok (hrefl a)
  | error fault => exact .error fault

end

namespace Matches

theorem toDouble_eq (h : W.Matches v w) : v.toDouble = w.toDouble := by
  simp only [Value.toDouble, h.quantity?_eq, h.typeName_eq]

theorem toInteger_eq (h : W.Matches v w) : v.toInteger = w.toInteger := by
  simp only [Value.toInteger, h.quantity?_eq, h.typeName_eq]

theorem toItems (h : W.Matches v w) : Returns W.AllMatch v.toItems w.toItems := by
  cases h with
  | str text =>
    refine .ok (List.forall₂_same.2 fun item hitem => ?_)
    obtain ⟨c, -, rfl⟩ := List.mem_map.1 hitem
    exact .str _
  | map _ _ hlength hkeys _ _ =>
    have hentries := List.forall₂_iff_zip.2 ⟨hlength, hkeys⟩
    exact .ok (List.forall₂_map_left_iff.2 (List.forall₂_map_right_iff.2 hentries))
  | pair _ hfirst hsecond => exact .ok (.cons hfirst (.cons hsecond .nil))
  | list _ _ hlength hzip _ => exact .ok (List.forall₂_iff_zip.2 ⟨hlength, hzip⟩)
  | vec _ hlength hzip _ => exact .ok (List.forall₂_iff_zip.2 ⟨hlength, hzip⟩)
  | _ => exact .error _

end Matches

theorem mapM_eq {ε α β : Type} {related : α → α → Prop} {f : α → Except ε β}
    (hf : ∀ {a b}, related a b → f a = f b) {xs ys : List α} (h : List.Forall₂ related xs ys) :
    xs.mapM f = ys.mapM f := by
  induction h with
  | nil => rfl
  | cons hab _ ih => rw [List.mapM_cons, List.mapM_cons, hf hab, ih]

theorem bind_toItems_eq {α : Type} {f g : List Value → Except HostFault α}
    (hf : ∀ {vs ws}, W.AllMatch vs ws → f vs = g ws) (h : W.Matches v w) :
    (v.toItems >>= f) = (w.toItems >>= g) := by
  have hitems := h.toItems
  generalize v.toItems = x, w.toItems = y at hitems
  cases hitems with
  | ok hitems => exact hf hitems
  | error fault => rfl

section

variable (h : W.Matches v w)
include h

theorem unary_eq (f : Float → Float) (unbounded : Bool) :
    Elementary.unary f unbounded v = Elementary.unary f unbounded w := by
  unfold Elementary.unary
  rw [h.toDouble_eq]

theorem free_eq (f : Float → Float) : Elementary.free f v = Elementary.free f w := by
  unfold Elementary.free
  rw [h.toDouble_eq]

theorem ofGamma_eq (f : Float → Except Analysis.GammaFault Float) :
    Elementary.ofGamma f v = Elementary.ofGamma f w := by
  unfold Elementary.ofGamma
  rw [h.toDouble_eq]

theorem logarithm_eq (f : Float → Float) :
    Elementary.logarithm f v = Elementary.logarithm f w := by
  unfold Elementary.logarithm
  rw [h.quantity?_eq, unary_eq h]

theorem wholeOf_eq (f : Flonum → ℤ) : Integral.wholeOf f v = Integral.wholeOf f w := by
  unfold Integral.wholeOf
  rw [h.quantity?_eq, h.toDouble_eq]

theorem trunc_eq : Integral.trunc v = Integral.trunc w := by
  unfold Integral.trunc
  rw [h.quantity?_eq, h.typeName_eq]

theorem factorial_eq : Integral.factorial v = Integral.factorial w := by
  unfold Integral.factorial
  rw [h.toInteger_eq]

theorem fsum_eq : Aggregate.fsum v = Aggregate.fsum w := by
  refine bind_toItems_eq (fun hitems => ?_) h
  congr 1
  generalize (⟨0, false, false, false⟩ : Aggregate.Total) = total
  induction hitems generalizing total with
  | nil => rfl
  | cons hv _ ih => simp only [List.foldlM_cons, hv.toDouble_eq, ih]

end

section

variable (h : W.Matches v w) (h' : W.Matches v' w')
include h h'

theorem binary_eq (f : Flonum → Flonum → Except HostFault Flonum) :
    Elementary.binary f v v' = Elementary.binary f w w' := by
  unfold Elementary.binary
  rw [h.toDouble_eq, h'.toDouble_eq]

theorem pow_eq : Elementary.pow v v' = Elementary.pow w w' := by
  unfold Elementary.pow
  rw [h.toDouble_eq, h'.toDouble_eq]

theorem atan2_eq : Elementary.atan2 v v' = Elementary.atan2 w w' := by
  unfold Elementary.atan2
  rw [h.toDouble_eq, h'.toDouble_eq]

theorem copysign_eq : Elementary.copysign v v' = Elementary.copysign w w' := by
  unfold Elementary.copysign
  rw [h.toDouble_eq, h'.toDouble_eq]

theorem ldexp_eq : Elementary.ldexp v v' = Elementary.ldexp w w' := by
  unfold Elementary.ldexp
  rw [h.toDouble_eq, h'.quantity?_eq]

theorem isclose_eq : Elementary.isclose v v' = Elementary.isclose w w' := by
  unfold Elementary.isclose
  rw [h.toDouble_eq, h'.toDouble_eq]

theorem comb_eq : Integral.comb v v' = Integral.comb w w' := by
  unfold Integral.comb
  rw [h.toInteger_eq, h'.toInteger_eq]

theorem dist_eq : Aggregate.dist v v' = Aggregate.dist w w' := by
  refine bind_toItems_eq (fun {p q} hpq => ?_) h
  refine bind_toItems_eq (fun {p' q'} hpq' => ?_) h'
  have hzip : List.Forall₂ (fun x y => W.Matches x.1 y.1 ∧ W.Matches x.2 y.2)
      (p.zip p') (q.zip q') := by
    induction hpq generalizing p' q' with
    | nil => exact .nil
    | cons hv _ ih =>
      cases hpq' with
      | nil => exact .nil
      | cons hv' hrest' => exact .cons ⟨hv, hv'⟩ (ih hrest')
  rw [hpq.length_eq, hpq'.length_eq]
  split
  · rfl
  · rw [mapM_eq _ hzip]
    rintro ⟨a, b⟩ ⟨c, d⟩ ⟨hac, hbd⟩
    simp only [hac.toDouble_eq, hbd.toDouble_eq]

end

inductive OutcomeMatches (W : World root root') : Outcome → Outcome → Prop
  | value {v w : Value} : W.Matches v w → OutcomeMatches W (.value v) (.value w)
  | number (n : Number) : OutcomeMatches W (.number n) (.number n)
  | pair (first second : Number) : OutcomeMatches W (.pair first second) (.pair first second)
  | items {vs ws : List Value} : W.AllMatch vs ws → OutcomeMatches W (.items vs) (.items ws)

theorem returns_double {x y : Except HostFault Double} (h : x = y) :
    Returns W.OutcomeMatches (Outcome.double <$> x) (Outcome.double <$> y) :=
  returns_map (fun d => .number d.number) h

theorem returns_int {x y : Except HostFault ℤ} (h : x = y) :
    Returns W.OutcomeMatches (Outcome.int <$> x) (Outcome.int <$> y) :=
  returns_map (fun n => .number (.int n)) h

theorem returns_truth {x y : Except HostFault Bool} (h : x = y) :
    Returns W.OutcomeMatches (Outcome.truth <$> x) (Outcome.truth <$> y) :=
  returns_map (fun b => .value (.bool b)) h

theorem alike_outcome {a b : Outcome} (h : W.OutcomeMatches a b) :
    W.Alike a.toValue b.toValue Matches := by
  cases h with
  | value hvw => exact alike_pure hvw
  | number n => exact alike_ofNumber n
  | items hitems => exact alike_newList hitems
  | pair first second =>
    apply (alike_ofNumber first).bind
    intro v w W₁ hW₁ hvw
    apply (alike_ofNumber second).bind
    intro v' w' W₂ hW₂ hvw'
    apply alike_fresh.bind
    intro i j W₃ hW₃ hij
    exact alike_pure (.pair hij ((hvw.later hW₂).later hW₃) (hvw'.later hW₃))

section

variable {f : Numeric} {g : Value → Except HostFault Outcome}

theorem doubles_rel {f : Value → Except HostFault Double}
    (hg : Numeric.unary?.doubles f = some g) (h : f v = f w) :
    Returns W.OutcomeMatches (g v) (g w) := by
  obtain rfl := Option.some.inj hg
  exact returns_double h

theorem integers_rel {f : Value → Except HostFault ℤ}
    (hg : Numeric.unary?.integers f = some g) (h : f v = f w) :
    Returns W.OutcomeMatches (g v) (g w) := by
  obtain rfl := Option.some.inj hg
  exact returns_int h

theorem truths_rel {f : Double → Bool} (hg : Numeric.unary?.truths f = some g)
    (h : W.Matches v w) : Returns W.OutcomeMatches (g v) (g w) := by
  obtain rfl := Option.some.inj hg
  simp only [h.toDouble_eq]
  cases w.toDouble with
  | error fault => exact .error fault
  | ok x => exact .ok (.value (.bool _))

theorem frexp_rel (h : W.Matches v w) :
    Returns W.OutcomeMatches (Elementary.frexp v) (Elementary.frexp w) := by
  unfold Elementary.frexp
  rw [h.toDouble_eq]
  cases w.toDouble with
  | error fault => exact .error fault
  | ok x =>
    cases x with
    | some x => exact .ok (.pair _ _)
    | none => exact .ok (.pair _ _)

theorem modf_rel (h : W.Matches v w) :
    Returns W.OutcomeMatches (Elementary.modf v) (Elementary.modf w) := by
  unfold Elementary.modf
  rw [h.toDouble_eq]
  cases w.toDouble with
  | error fault => exact .error fault
  | ok x =>
    cases x with
    | some x => exact .ok (.pair _ _)
    | none => exact .ok (.pair _ _)

theorem unary_rel (hg : f.unary? = some g) (h : W.Matches v w) :
    Returns W.OutcomeMatches (g v) (g w) := by
  cases f with
  | acos | acosh | asin | asinh | atan | atanh | cbrt | cos | cosh | exp | exp2 | expm1 | fabs
  | log1p | sin | sinh | sqrt | tan | tanh => exact doubles_rel hg (unary_eq h _ _)
  | degrees | radians | erf | erfc => exact doubles_rel hg (free_eq h _)
  | gamma | lgamma => exact doubles_rel hg (ofGamma_eq h _)
  | log2 | log10 => exact doubles_rel hg (logarithm_eq h _)
  | ulp => exact doubles_rel hg (by rw [h.toDouble_eq])
  | fsum => exact doubles_rel hg (fsum_eq h)
  | isfinite | isinf | isnan => exact truths_rel hg h
  | ceil | floor => exact integers_rel hg (wholeOf_eq h _)
  | trunc => exact integers_rel hg (trunc_eq h)
  | factorial => exact integers_rel hg (factorial_eq h)
  | isqrt => exact integers_rel hg (by unfold Integral.isqrt; rw [h.toInteger_eq])
  | frexp =>
    obtain rfl := Option.some.inj hg
    exact frexp_rel h
  | modf =>
    obtain rfl := Option.some.inj hg
    exact modf_rel h
  | _ => cases hg

end

section

variable {f : Numeric} {g : Value → Value → Except HostFault Outcome}

theorem doublesOfTwo_rel {f : Value → Value → Except HostFault Double}
    (hg : Numeric.binary?.doubles f = some g) (h : f v v' = f w w') :
    Returns W.OutcomeMatches (g v v') (g w w') := by
  obtain rfl := Option.some.inj hg
  exact returns_double h

theorem binary_rel (hg : f.binary? = some g) (h : W.Matches v w) (h' : W.Matches v' w') :
    Returns W.OutcomeMatches (g v v') (g w w') := by
  cases f with
  | atan2 => exact doublesOfTwo_rel hg (atan2_eq h h')
  | copysign => exact doublesOfTwo_rel hg (copysign_eq h h')
  | dist => exact doublesOfTwo_rel hg (dist_eq h h')
  | fmod | remainder | nextafter => exact doublesOfTwo_rel hg (binary_eq h h' _)
  | pow => exact doublesOfTwo_rel hg (pow_eq h h')
  | ldexp => exact doublesOfTwo_rel hg (ldexp_eq h h')
  | comb =>
    obtain rfl := Option.some.inj hg
    exact returns_int (comb_eq h h')
  | _ => cases hg

end

theorem allMatch_repeated (count : ℤ) (h : W.AllMatch vs ws) :
    W.AllMatch (Aggregate.repeated count vs) (Aggregate.repeated count ws) := by
  unfold Aggregate.repeated
  induction count.toNat with
  | zero => exact .nil
  | succ n ih =>
    rw [List.replicate_succ, List.replicate_succ, List.flatten_cons, List.flatten_cons]
    exact List.rel_append h ih

theorem repeatText_rel (count : ℤ) (s : String) :
    Returns W.OutcomeMatches (Aggregate.repeatText count s) (Aggregate.repeatText count s) := by
  refine Returns.bind (returns_same (fun _ => rfl) rfl) ?_
  rintro n _ rfl
  exact .ok (.value (.str _))

theorem repeatItems_rel (count : ℤ) (h : W.AllMatch vs ws) :
    Returns W.OutcomeMatches (Aggregate.repeatItems count vs)
      (Aggregate.repeatItems count ws) := by
  refine Returns.bind (returns_same (fun _ => rfl) rfl) ?_
  rintro n _ rfl
  exact .ok (.items (allMatch_repeated n h))

theorem timesOther_rel (m : Number) (h : W.Matches v w) :
    Returns W.OutcomeMatches (Aggregate.timesOther m v) (Aggregate.timesOther m w) := by
  have hname := h.typeName_eq
  cases h with
  | str text =>
    cases m with
    | int count => exact repeatText_rel count text
    | float _ | nan => exact .error _
  | list _ _ hlength hzip _ | vec _ hlength hzip _ =>
    cases m with
    | int count => exact repeatItems_rel count (List.forall₂_iff_zip.2 ⟨hlength, hzip⟩)
    | float _ | nan => exact .error _
  | _ =>
    cases m with
    | _ =>
      simp only [Aggregate.timesOther, Value.sequence?, hname]
      exact .error _

theorem times_rel {a b : Outcome} (hab : W.OutcomeMatches a b) (h : W.Matches v w) :
    Returns W.OutcomeMatches (Aggregate.times a v) (Aggregate.times b w) := by
  have herror : Returns W.OutcomeMatches (.error (HostFault.sequenceTimes v.typeName))
      (.error (HostFault.sequenceTimes w.typeName)) := by
    rw [h.typeName_eq]
    exact .error _
  unfold Aggregate.times
  rw [h.quantity?_eq]
  cases hab with
  | number m =>
    cases w.quantity? with
    | none => exact timesOther_rel m h
    | some n =>
      refine Returns.bind (returns_same (fun _ => rfl) rfl) ?_
      rintro n _ rfl
      exact .ok (.number n)
  | pair _ _ => exact herror
  | items hitems =>
    rcases w.quantity? with _ | (count | _ | _)
    · exact herror
    · exact repeatItems_rel count hitems
    all_goals exact herror
  | value hvalue =>
    cases hvalue with
    | str s =>
      rcases w.quantity? with _ | (count | _ | _)
      · exact herror
      · exact repeatText_rel count s
      all_goals exact herror
    | _ => exact herror

theorem foldlM_times_rel {a b : Outcome} (hab : W.OutcomeMatches a b) (h : W.AllMatch vs ws) :
    Returns W.OutcomeMatches (vs.foldlM Aggregate.times a) (ws.foldlM Aggregate.times b) := by
  induction h generalizing a b with
  | nil => exact .ok hab
  | cons hv _ ih =>
    rw [List.foldlM_cons, List.foldlM_cons]
    exact (times_rel hab hv).bind fun _ _ => ih

section

variable (h : W.AllMatch args args')
include h

theorem oneArgument_rel (function : String) :
    Returns W.Matches (oneArgument function args) (oneArgument function args') := by
  cases h with
  | nil => exact .error _
  | cons hv hrest =>
    cases hrest with
    | nil => exact .ok hv
    | cons _ hrest =>
      simp only [oneArgument, List.length_cons, hrest.length_eq]
      exact .error _

theorem twoArguments_rel (function : String) :
    Returns W.EntryMatches (twoArguments function args) (twoArguments function args') := by
  rcases h with _ | ⟨hv, _ | ⟨hv', _ | ⟨_, hrest⟩⟩⟩
  · exact .error _
  · exact .error _
  · exact .ok ⟨hv, hv'⟩
  · simp only [twoArguments, List.length_cons, hrest.length_eq]
    exact .error _

theorem log_eq : Elementary.log args = Elementary.log args' := by
  rcases h with _ | ⟨hv, _ | ⟨hv', _ | ⟨_, hrest⟩⟩⟩
  · rfl
  · exact logarithm_eq hv Float.log
  · simp only [Elementary.log, logarithm_eq hv, logarithm_eq hv']
  · rfl

theorem perm_eq : Integral.perm args = Integral.perm args' := by
  rcases h with _ | ⟨hv, _ | ⟨hv', _ | ⟨_, hrest⟩⟩⟩
  · rfl
  · exact factorial_eq hv
  · simp only [Integral.perm, hv.toInteger_eq, hv'.toInteger_eq]
  · simp only [Integral.perm, List.length_cons, hrest.length_eq]

theorem gcd_eq : Integral.gcd args = Integral.gcd args' := by
  unfold Integral.gcd
  rw [mapM_eq (fun hv => Matches.toInteger_eq hv) h]

theorem lcm_eq : Integral.lcm args = Integral.lcm args' := by
  unfold Integral.lcm
  rw [mapM_eq (fun hv => Matches.toInteger_eq hv) h]

theorem hypot_eq : Aggregate.hypot args = Aggregate.hypot args' := by
  unfold Aggregate.hypot
  rw [mapM_eq (fun hv => Matches.toDouble_eq hv) h]

theorem prod_rel : Returns W.OutcomeMatches (Aggregate.prod args) (Aggregate.prod args') := by
  rcases h with _ | ⟨hv, _ | ⟨hv', _ | ⟨_, hrest⟩⟩⟩
  · exact .error _
  · exact hv.toItems.bind fun _ _ => foldlM_times_rel (.number _)
  · exact .error _
  · simp only [Aggregate.prod, List.length_cons, hrest.length_eq]
    exact .error _

theorem abs_rel : Returns W.OutcomeMatches (Integral.abs args) (Integral.abs args') := by
  refine (oneArgument_rel h _).bind fun v w hvw => ?_
  rw [hvw.quantity?_eq, hvw.typeName_eq]
  cases w.quantity? with
  | some n => exact .ok (.number _)
  | none => exact .error _

theorem round_rel : Returns W.OutcomeMatches (Integral.round args) (Integral.round args') := by
  rcases h with _ | ⟨hv, _ | ⟨hv', _ | ⟨_, hrest⟩⟩⟩
  · exact .error _
  · simp only [Integral.round, hv.quantity?_eq, hv.typeName_eq]
    rename_i w
    rcases w.quantity? with _ | (n | x | _)
    · exact .error _
    · exact .ok (.number _)
    · exact returns_int rfl
    · exact .error _
  · simp only [Integral.round, hv.quantity?_eq, hv.typeName_eq, hv'.toInteger_eq]
    rename_i w _ w'
    rcases w.quantity? with _ | (n | x | _)
    · exact .error _
    all_goals refine Returns.bind (returns_same (fun _ => rfl) rfl) ?_
    all_goals rintro places _ rfl
    · exact .ok (.number _)
    · split
      · exact .error _
      · exact .ok (.number _)
    · exact .ok (.number _)
  · simp only [Integral.round, List.length_cons, hrest.length_eq]
    exact .error _

theorem extreme_rel (hW : W.Agree) (op : Comparison) (hv : W.Matches v w) :
    Returns W.Matches (op.extreme v args) (op.extreme w args') := by
  induction h generalizing v w with
  | nil => exact .ok hv
  | cons hitem _ ih =>
    simp only [Comparison.extreme, holds_eq hW op hitem _ _ _ hv]
    refine Returns.bind (returns_same (fun _ => rfl) rfl) ?_
    rintro b _ rfl
    cases b with
    | true => exact ih hitem
    | false => exact ih hv

theorem choose_rel (hW : W.Agree) (op : Comparison) (function : String) :
    Returns W.Matches (op.choose function args) (op.choose function args') := by
  rcases h with _ | ⟨hv, _ | ⟨hv', hrest⟩⟩
  · exact .error _
  · refine hv.toItems.bind fun _ _ hitems => ?_
    cases hitems with
    | nil => exact .error _
    | cons hitem hrest => exact extreme_rel hrest hW op hitem
  · exact extreme_rel (.cons hv' hrest) hW op hv

theorem isclose_rel :
    Returns W.OutcomeMatches (Numeric.apply .isclose args) (Numeric.apply .isclose args') := by
  rcases h with _ | ⟨hv, _ | ⟨hv', _ | ⟨_, _ | ⟨_, _ | ⟨_, hrest⟩⟩⟩⟩⟩
  · exact .error _
  · exact .error _
  · exact returns_truth (isclose_eq hv hv')
  · exact .error _
  · exact .error _
  · simp only [Numeric.apply, List.length_cons, hrest.length_eq]
    exact .error _

theorem apply_unary_rel {f : Numeric} {g : Value → Except HostFault Outcome}
    (hg : f.unary? = some g) (function : String) :
    Returns W.OutcomeMatches (oneArgument function args >>= g)
      (oneArgument function args' >>= g) :=
  (oneArgument_rel h function).bind fun _ _ => unary_rel hg

theorem apply_binary_rel {f : Numeric} {g : Value → Value → Except HostFault Outcome}
    (hg : f.binary? = some g) (function : String) :
    Returns W.OutcomeMatches (twoArguments function args >>= fun p => g p.1 p.2)
      (twoArguments function args' >>= fun p => g p.1 p.2) :=
  (twoArguments_rel h function).bind fun _ _ hentry => binary_rel hg hentry.1 hentry.2

theorem apply_rel (hW : W.Agree) (f : Numeric) :
    Returns W.OutcomeMatches (f.apply args) (f.apply args') := by
  unfold Numeric.apply
  split
  · exact returns_double (log_eq h)
  · exact returns_int (perm_eq h)
  · exact returns_int (gcd_eq h)
  · exact returns_int (lcm_eq h)
  · exact returns_double (hypot_eq h)
  · exact prod_rel h
  · exact isclose_rel h
  · exact abs_rel h
  · exact round_rel h
  · exact (choose_rel h hW .greater "max").bind fun _ _ hvw => .ok (.value hvw)
  · exact (choose_rel h hW .less "min").bind fun _ _ hvw => .ok (.value hvw)
  · split
    · exact apply_unary_rel h ‹_› _
    · exact apply_binary_rel h ‹_› _
    · exact .error _

theorem alike_numeric (f : Numeric) : W.Alike (f.run args) (f.run args') Matches := by
  refine alike_of_agree fun hW => ?_
  suffices hhost : W.Alike (ofHost (f.apply args)) (ofHost (f.apply args')) OutcomeMatches from
    hhost.bind fun _ _ _ _ => alike_outcome
  have happly := apply_rel h hW f
  generalize f.apply args = x, f.apply args' = y at happly
  cases happly with
  | ok hab => exact alike_pure hab
  | error fault => exact alike_stop trivial

end

end SmallLisp.World
