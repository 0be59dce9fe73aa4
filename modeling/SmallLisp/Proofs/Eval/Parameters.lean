import Mathlib.Tactic
import SmallLisp.Proofs.Discipline.Store
import SmallLisp.Proofs.Eval.Laws

/-!
# Parameter lists

A parameter list names the parameters in order. The first rest mark in it, if there is one, stands
in front of the last name, which may be any symbol, the mark itself included. A call binds the names
in front of the mark to the arguments in the same places, so that of equal names the last one counts,
and the name behind the mark to a list of all arguments that are left. It fails when there are fewer
arguments than names in front of the mark, and not otherwise.
-/

namespace SmallLisp

theorem Value.eq_sym_of_symbol? {v : Value} {name : String} (h : v.symbol? = some name) :
    v = .sym name := by
  cases v with
  | sym symbol =>
    obtain rfl := Option.some.inj h
    rfl
  | _ => cases h

/-- The first rest mark, if there is one, stands in front of the last name. -/
def PlacesRest (names : List String) : Prop :=
  ∀ before after, names = before ++ "&" :: after → "&" ∉ before → after.length = 1

/-- A parameter list consists of fixed names and, if there is a rest mark, of the mark and one more
name. -/
structure Takes (params fixed : List String) (rest? : Option String) : Prop where
  eq_append : params = fixed ++ rest?.elim [] fun name => ["&", name]
  notMem : "&" ∉ fixed

namespace SpecialForm

variable {names : List String} {v : Value}

theorem restMarkPlaced_append {before : List String} (h : "&" ∉ before) (after : List String) :
    restMarkPlaced (before ++ "&" :: after) = true ↔ after.length = 1 := by
  have hidx : (before ++ "&" :: after).idxOf "&" = before.length := by
    rw [List.idxOf_append_of_notMem h, List.idxOf_cons_self, Nat.add_zero]
  simp [restMarkPlaced, hidx]

theorem restMarkPlaced_iff : restMarkPlaced names = true ↔ PlacesRest names := by
  constructor
  · rintro h before after rfl hbefore
    exact (restMarkPlaced_append hbefore after).1 h
  · intro h
    by_cases hmark : "&" ∈ names
    · obtain ⟨before, after, rfl, hbefore⟩ := List.eq_append_cons_of_mem hmark
      exact (restMarkPlaced_append hbefore after).2 (h before after rfl hbefore)
    · simp [restMarkPlaced, hmark]

theorem mapM_symbol?_eq_some_iff {items : List Value} :
    items.mapM Value.symbol? = some names ↔ items = names.map .sym := by
  induction items generalizing names with
  | nil => simp [eq_comm]
  | cons item items ih =>
    constructor
    · intro h
      simp only [List.mapM_cons, Option.bind_eq_bind, Option.bind_eq_some_iff] at h
      obtain ⟨name, hitem, names', hitems, h⟩ := h
      obtain rfl := Option.some.inj h
      rw [List.map_cons, ← ih.1 hitems, Value.eq_sym_of_symbol? hitem]
    · intro h
      cases names with
      | nil => cases h
      | cons name names =>
        obtain ⟨rfl, rfl⟩ := List.cons.inj h
        simp [ih.2 rfl, Value.symbol?]

theorem parameterNames?_eq_some_iff :
    parameterNames? v = some names ↔ v.sequence? = some (names.map .sym) := by
  unfold parameterNames?
  rw [Option.bind_eq_some_iff]
  simp [mapM_symbol?_eq_some_iff]

end SpecialForm

theorem PlacesRest.takes {names : List String} (h : PlacesRest names) :
    ∃ fixed rest?, Takes names fixed rest? := by
  by_cases hmark : "&" ∈ names
  · obtain ⟨fixed, after, rfl, hfixed⟩ := List.eq_append_cons_of_mem hmark
    obtain ⟨name, rfl⟩ := List.length_eq_one_iff.1 (h fixed after rfl hfixed)
    exact ⟨fixed, some name, rfl, hfixed⟩
  · exact ⟨names, none, (List.append_nil names).symm, hmark⟩

theorem Takes.takeWhile_eq {params fixed : List String} {rest? : Option String}
    (h : Takes params fixed rest?) : params.takeWhile (· != "&") = fixed := by
  have hfixed : ∀ name ∈ fixed, (name != "&") = true := by
    intro name hname
    simpa using fun heq : name = "&" => h.notMem (heq ▸ hname)
  rw [h.eq_append, List.takeWhile_append_of_pos hfixed]
  cases rest? <;> simp

theorem Takes.unique {params fixed fixed' : List String} {rest? rest?' : Option String}
    (h : Takes params fixed rest?) (h' : Takes params fixed' rest?') :
    fixed = fixed' ∧ rest? = rest?' := by
  obtain rfl := h.takeWhile_eq.symm.trans h'.takeWhile_eq
  have hrest := List.append_cancel_left (h.eq_append.symm.trans h'.eq_append)
  refine ⟨rfl, ?_⟩
  cases rest? <;> cases rest?' <;> simp_all

namespace Bindings

variable {b : Bindings} {name : String}

def setAll (b : Bindings) (pairs : List (String × Value)) : Bindings :=
  pairs.foldl (fun b p => b.set p.1 p.2) b

theorem get?_setAll_of_ne {pairs : List (String × Value)} (h : ∀ p ∈ pairs, p.1 ≠ name) :
    (b.setAll pairs).get? name = b.get? name := by
  induction pairs generalizing b with
  | nil => rfl
  | cons p pairs ih =>
    rw [List.forall_mem_cons] at h
    change ((b.set p.1 p.2).setAll pairs).get? name = _
    rw [ih h.2, get?_set, if_neg h.1]

/-- Of several bindings of a symbol the last one counts. -/
theorem get?_setAll_append {before after : List (String × Value)} {v : Value}
    (h : ∀ p ∈ after, p.1 ≠ name) :
    (b.setAll (before ++ (name, v) :: after)).get? name = some v := by
  have hsplit : b.setAll (before ++ (name, v) :: after) =
      ((b.setAll before).set name v).setAll after := List.foldl_append
  rw [hsplit, get?_setAll_of_ne h, get?_set, if_pos rfl]

theorem isSome_get?_setAll (b : Bindings) (pairs : List (String × Value)) (name : String) :
    ((b.setAll pairs).get? name).isSome ↔ name ∈ pairs.map (·.1) ∨ (b.get? name).isSome := by
  induction pairs generalizing b with
  | nil => simp [setAll]
  | cons p pairs ih =>
    change (((b.set p.1 p.2).setAll pairs).get? name).isSome ↔ _
    rw [ih, get?_set, List.map_cons, List.mem_cons]
    split_ifs with hname
    · simp [hname]
    · simp [Ne.symm hname]

end Bindings

/-- Bindings are those of the parameters. The fixed parameters take the arguments in the same
places, of equal names the last one, and the rest parameter takes a list of what is left. -/
structure BindsParameters (fixed : List String) (rest? : Option String) (args : List Value)
    (id : Identity) (bindings : Bindings) : Prop where
  names (name : String) : (bindings.get? name).isSome ↔ name ∈ fixed ∨ rest? = some name
  last {before after : List String} {name : String} :
    fixed = before ++ name :: after → name ∉ after → rest? ≠ some name →
      bindings.get? name = args[before.length]?
  rest {name : String} :
    rest? = some name → bindings.get? name = some (.plainList id (args.drop fixed.length))

section

variable {fixed : List String} {args : List Value}

theorem isSome_get?_fixed (hargs : fixed.length ≤ args.length) (name : String) :
    ((Bindings.setAll [] (fixed.zip args)).get? name).isSome ↔ name ∈ fixed := by
  have hnames : (fixed.zip args).map (·.1) = fixed := List.map_fst_zip hargs
  simp [Bindings.isSome_get?_setAll, hnames]

theorem get?_fixed (hargs : fixed.length ≤ args.length) {before after : List String}
    {name : String} (h : fixed = before ++ name :: after) (hafter : name ∉ after) :
    (Bindings.setAll [] (fixed.zip args)).get? name = args[before.length]? := by
  have hlt : before.length < args.length := by
    rw [h, List.length_append, List.length_cons] at hargs
    omega
  have hzip : fixed.zip args = before.zip (args.take before.length) ++
      (name, args[before.length]) :: after.zip (args.drop (before.length + 1)) := by
    have hlength : before.length = (args.take before.length).length := by
      rw [List.length_take]
      omega
    conv_lhs => rw [h, ← List.take_append_drop before.length args]
    rw [List.zip_append hlength, List.drop_eq_getElem_cons hlt, List.zip_cons_cons]
  have hne : ∀ p ∈ after.zip (args.drop (before.length + 1)), p.1 ≠ name := by
    rintro ⟨other, v⟩ hp rfl
    exact hafter (List.of_mem_zip hp).1
  rw [hzip, Bindings.get?_setAll_append hne, List.getElem?_eq_getElem hlt]

theorem bindsParameters_fixed (hargs : fixed.length ≤ args.length) (id : Identity) :
    BindsParameters fixed none args id (Bindings.setAll [] (fixed.zip args)) where
  names name := by simp [isSome_get?_fixed hargs]
  last h hafter _ := get?_fixed hargs h hafter
  rest h := by cases h

theorem bindsParameters_rest (hargs : fixed.length ≤ args.length) (id : Identity)
    (name : String) : BindsParameters fixed (some name) args id
      ((Bindings.setAll [] (fixed.zip args)).set name (.plainList id (args.drop fixed.length))) where
  names other := by
    rw [Bindings.get?_set, ← isSome_get?_fixed hargs]
    split_ifs with hname <;> simp [hname]
  last {before after other} h hafter hne := by
    rw [Bindings.get?_set, if_neg fun heq => hne (congrArg some heq)]
    exact get?_fixed hargs h hafter
  rest h := by
    obtain rfl := Option.some.inj h
    rw [Bindings.get?_set, if_pos rfl]

end

/-- A store with a new scope for a call, inside the scope that the closure captured. -/
def Store.calling (s : Store) (captured : ScopeId) (bindings : Bindings) : Store :=
  { s with scopes := s.scopes.push ⟨"fn", some captured, bindings⟩ }

theorem Store.untouched_calling (s : Store) (next : Identity) (captured : ScopeId)
    (b : Bindings) : s.Untouched ({ s with nextIdentity := next }.calling captured b) :=
  untouched_of_scopes rfl rfl rfl rfl

theorem Store.scope?_calling (s : Store) (next : Identity) (captured : ScopeId) (b : Bindings) :
    ({ s with nextIdentity := next }.calling captured b).scope? s.scopes.size =
      some ⟨"fn", some captured, b⟩ := by
  unfold scope? calling
  rw [Array.getElem?_push_size]

namespace Eval

variable {s : Store} {names fixed params : List String} {rest? : Option String} {args : List Value}
  {captured : ScopeId} {b : Bindings}

theorem bindValue_calling (s : Store) (captured : ScopeId) (b : Bindings) (name : String)
    (v : Value) : bindValue s.scopes.size (.sym name) v (s.calling captured b) =
      .ok () (s.calling captured (b.set name v)) :=
  congrArg (EStateM.Result.ok ()) (Store.bind_push s ⟨"fn", some captured, b⟩ name v)

theorem bindRest_fixed (h : "&" ∉ fixed) (required got : Nat) :
    bindRest s.scopes.size required got ((fixed ++ names).map .sym) args (s.calling captured b) =
      if args.length < fixed.length then
        .error (.arity (.parameters required got)) (s.calling captured (b.setAll (fixed.zip args)))
      else
        bindRest s.scopes.size required got (names.map .sym) (args.drop fixed.length)
          (s.calling captured (b.setAll (fixed.zip args))) := by
  induction fixed generalizing args b with
  | nil => rfl
  | cons name fixed ih =>
    obtain ⟨hname, hfixed⟩ : "&" ≠ name ∧ "&" ∉ fixed := by simpa using h
    have hmark : ¬ isRestMark (.sym name) = true := by simpa [isRestMark] using Ne.symm hname
    rw [List.cons_append, List.map_cons]
    conv_lhs => unfold bindRest
    rw [if_neg hmark]
    cases args with
    | nil => rfl
    | cons arg args =>
      refine (bind_of_ok (bindValue_calling s captured b name arg)).trans ?_
      rw [ih hfixed]
      simp only [List.length_cons, Nat.add_lt_add_iff_right]
      rfl

theorem requiredCount_eq (h : Takes params fixed rest?) :
    requiredCount (params.map .sym) = fixed.length := by
  rw [requiredCount, List.takeWhile_map, List.length_map]
  exact congrArg List.length h.takeWhile_eq

theorem enterCall_eq (h : Takes params fixed rest?) :
    enterCall captured params args s =
      (bindRest s.scopes.size fixed.length args.length (params.map .sym) args >>= fun _ =>
        pure s.scopes.size) (s.calling captured []) := by
  unfold enterCall enter bindParameters
  rw [requiredCount_eq h]
  exact bind_of_ok rfl

theorem enterCall_of_lt (h : Takes params fixed rest?) (hargs : args.length < fixed.length) :
    enterCall captured params args s = .error (.arity (.parameters fixed.length args.length))
      (s.calling captured (Bindings.setAll [] (fixed.zip args))) := by
  rw [enterCall_eq h, h.eq_append]
  apply bind_of_error
  rw [bindRest_fixed h.notMem, if_pos hargs]

/-- A call with arguments for all fixed parameters binds them in a new scope. -/
theorem enterCall_of_fixed (h : Takes params fixed none) (hargs : fixed.length ≤ args.length) :
    enterCall captured params args s =
      .ok s.scopes.size (s.calling captured (Bindings.setAll [] (fixed.zip args))) := by
  rw [enterCall_eq h, h.eq_append]
  refine bind_of_ok (a := ()) ?_
  rw [bindRest_fixed h.notMem, if_neg (Nat.not_lt.2 hargs)]
  rfl

/-- The name behind the rest mark is bound to a new list of the arguments that are left. -/
theorem enterCall_of_rest {name : String} (h : Takes params fixed (some name))
    (hargs : fixed.length ≤ args.length) :
    enterCall captured params args s =
      .ok s.scopes.size ({ s with nextIdentity := s.nextIdentity + 1 }.calling captured
        ((Bindings.setAll [] (fixed.zip args)).set name
          (.plainList s.nextIdentity (args.drop fixed.length)))) := by
  rw [enterCall_eq h, h.eq_append]
  refine bind_of_ok (a := ()) ?_
  rw [bindRest_fixed h.notMem, if_neg (Nat.not_lt.2 hargs)]
  exact bindValue_calling { s with nextIdentity := s.nextIdentity + 1 } captured _ name _

/-- How the parameters of a call are bound. With too few arguments for the fixed parameters the call
fails, otherwise it goes on in a new scope that binds the parameters and nothing else. What exists
stays as it is, and an identity is taken for the list of a rest parameter. -/
theorem enterCall_spec (h : Takes params fixed rest?) (captured : ScopeId) (args : List Value)
    (s : Store) :
    (args.length < fixed.length → ∃ s', s.Untouched s' ∧
      enterCall captured params args s =
        .error (.arity (.parameters fixed.length args.length)) s') ∧
    (fixed.length ≤ args.length → ∃ bindings s', s.Untouched s' ∧
      enterCall captured params args s = .ok s.scopes.size s' ∧
      s'.scope? s.scopes.size = some ⟨"fn", some captured, bindings⟩ ∧
      BindsParameters fixed rest? args s.nextIdentity bindings ∧
      s'.nextIdentity = s.nextIdentity + rest?.toList.length) := by
  constructor
  · intro hargs
    exact ⟨_, s.untouched_calling s.nextIdentity captured _, enterCall_of_lt h hargs⟩
  · intro hargs
    cases rest? with
    | none =>
      exact ⟨_, _, s.untouched_calling s.nextIdentity captured _, enterCall_of_fixed h hargs,
        s.scope?_calling s.nextIdentity captured _, bindsParameters_fixed hargs _, rfl⟩
    | some name =>
      exact ⟨_, _, s.untouched_calling (s.nextIdentity + 1) captured _, enterCall_of_rest h hargs,
        s.scope?_calling (s.nextIdentity + 1) captured _, bindsParameters_rest hargs _ name, rfl⟩

end Eval

end SmallLisp
