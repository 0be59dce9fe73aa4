import Mathlib.Tactic
import SmallLisp.Proofs.Eval.Within

/-!
# Looking symbols up

A symbol is looked up along the chain of scopes from one scope outwards. The search for the nearest
binding, its value, the evaluation of the symbol and the text of `which-env` are all read off this
chain. The text joins the names of the scopes that bind the symbol. An empty text stands for no
scope at all, so that a single scope without a name goes unmentioned.
-/

namespace SmallLisp

namespace Store

variable {s : Store} {name : String}

/-- The scopes from one scope outwards, of which the last one has no scope around it. A scope is
made after the scope around it. -/
inductive Outwards (s : Store) : ScopeId → List ScopeId → Prop
  | outermost {id : ScopeId} {scope : Scope} :
      s.scope? id = some scope → scope.outer = none → Outwards s id [id]
  | inside {id outer : ScopeId} {scope : Scope} {ids : List ScopeId} :
      s.scope? id = some scope → scope.outer = some outer → outer < id →
      Outwards s outer ids → Outwards s id (id :: ids)

/-- The scopes among the given ones that bind a symbol themselves. -/
def owners (s : Store) (ids : List ScopeId) (name : String) : List ScopeId :=
  ids.filter fun id => (s.own? id name).isSome

theorem Outwards.length_le {id : ScopeId} {ids : List ScopeId} (h : s.Outwards id ids) :
    ids.length ≤ id + 1 := by
  induction h with
  | outermost _ _ => exact Nat.succ_le_succ (Nat.zero_le _)
  | inside _ _ hlt _ ih => exact Nat.succ_le_succ (ih.trans hlt)

/-- To go outwards takes as many rounds as there are scopes. -/
theorem Outwards.chainFrom_eq {id : ScopeId} {ids : List ScopeId} (h : s.Outwards id ids)
    {bound : Nat} (hbound : ids.length ≤ bound) : s.chainFrom bound id = ids := by
  induction h generalizing bound with
  | outermost hscope houter =>
    obtain ⟨bound, rfl⟩ := Nat.exists_eq_add_of_le' hbound
    simp only [List.length_singleton, chainFrom, hscope, houter]
  | inside hscope houter _ _ ih =>
    obtain ⟨bound, rfl⟩ := Nat.exists_eq_add_of_le' (Nat.one_le_of_lt hbound)
    have hrest := ih (Nat.le_of_succ_le_succ hbound)
    simp only [chainFrom, hscope, houter, hrest]

theorem Outwards.chain_eq {id : ScopeId} {ids : List ScopeId} (h : s.Outwards id ids) :
    s.chain id = ids := h.chainFrom_eq h.length_le

/-- The search for a symbol passes the scopes of the chain. -/
theorem lookupFrom_eq (s : Store) (name : String) (bound : Nat) (id : ScopeId) :
    s.lookupFrom name bound id =
      (s.chainFrom bound id).findSome? fun i => (s.own? i name).map (i, ·) := by
  induction bound generalizing id with
  | zero => rfl
  | succ bound ih =>
    unfold lookupFrom chainFrom
    cases hscope : s.scope? id with
    | none => rfl
    | some scope =>
      have hown : s.own? id name = scope.bindings.get? name := by simp [own?, hscope]
      dsimp only
      rw [List.findSome?_cons, hown]
      cases scope.bindings.get? name with
      | some v => rfl
      | none =>
        cases scope.outer with
        | none => rfl
        | some outer => exact ih outer

theorem lookup?_eq (s : Store) (id : ScopeId) (name : String) :
    s.lookup? id name = (s.chain id).findSome? fun i => (s.own? i name).map (i, ·) :=
  s.lookupFrom_eq name (id + 1) id

theorem findSome?_own? (s : Store) (ids : List ScopeId) (name : String) :
    (ids.findSome? fun i => (s.own? i name).map (i, ·)) =
      (s.owners ids name).head?.bind fun i => (s.own? i name).map (i, ·) := by
  induction ids with
  | nil => rfl
  | cons id ids ih =>
    unfold owners at ih ⊢
    rw [List.findSome?_cons, List.filter_cons]
    cases hown : s.own? id name with
    | none => simpa using ih
    | some v => simp [hown]

theorem isSome_own?_of_head? {ids : List ScopeId} {owner : ScopeId}
    (h : (s.owners ids name).head? = some owner) : ∃ v, s.own? owner name = some v := by
  have hmem := List.mem_of_head? h
  exact Option.isSome_iff_exists.1 (List.mem_filter.1 hmem).2

theorem intercalate_eq_empty_iff (names : List String) :
    String.intercalate " <- " names = "" ↔ names = [] ∨ names = [""] := by
  rcases names with _ | ⟨a, _ | ⟨b, names⟩⟩
  · simp
  · simp
  · rw [String.intercalate_cons_of_ne_nil (by simp)]
    simp [String.append_eq_empty_iff]

end Store

namespace Eval

open Template

variable {scope : ScopeId} {s : Store} {ids : List ScopeId} {name : String}

theorem lookup_of_owner {owner : ScopeId} {v : Value} (hids : s.Outwards scope ids)
    (howner : (s.owners ids name).head? = some owner) (hv : s.own? owner name = some v) :
    lookup scope name s = .ok v s := by
  have hlookup : s.lookup? scope name = some (owner, v) := by
    rw [s.lookup?_eq, hids.chain_eq, s.findSome?_own?, howner]
    simp [hv]
  unfold lookup
  rw [get_bind, hlookup]
  rfl

theorem lookup_of_no_owner (hids : s.Outwards scope ids) (hnone : s.owners ids name = []) :
    lookup scope name s = .error (.fault (.unbound name)) s := by
  have hlookup : s.lookup? scope name = none := by
    rw [s.lookup?_eq, hids.chain_eq, s.findSome?_own?, hnone]
    rfl
  unfold lookup
  rw [get_bind, hlookup]
  rfl

/-- A symbol is not found exactly when no scope of the chain binds it. -/
theorem lookup_eq_unbound_iff (hids : s.Outwards scope ids) :
    lookup scope name s = .error (.fault (.unbound name)) s ↔ s.owners ids name = [] := by
  constructor
  · intro h
    cases howner : (s.owners ids name).head? with
    | none => exact List.head?_eq_none_iff.1 howner
    | some owner =>
      obtain ⟨v, hv⟩ := Store.isSome_own?_of_head? howner
      cases (lookup_of_owner hids howner hv).symm.trans h
  · exact lookup_of_no_owner hids

theorem run_symbol (scope : ScopeId) (name : String) (s : Store) (passes room : Nat) :
    run (passes + 1) room (.eval (.sym name) scope) s = lookup scope name s := by
  rw [run_succ]
  simp only [Bind.bind, EStateM.bind, pass, evalForm, evalAtom]
  cases lookup scope name s <;> rfl

theorem run_special_of_done {form : SpecialForm} {parts : List Value} {v : Value} {s' : Store}
    (hplain : NoMacro scope s name) (hname : SpecialForm.ofName? name = some form)
    (hdone : ∀ nested, form.run nested parts scope s = .ok (.done v) s') (passes room : Nat)
    (id : Identity) (marked : Bool) (info : Value) :
    run (passes + 1) room (.eval (.list id (.sym name :: parts) marked info) scope) s =
      .ok v s' := by
  rw [run_succ]
  exact bind_of_ok ((pass_special hplain hname _ _).trans (hdone _))

theorem run_scopesOf (hplain : NoMacro scope s "which-env") (passes room : Nat) (id : Identity)
    (marked : Bool) (info : Value) :
    run (passes + 1) room (.eval (.list id [.sym "which-env", .sym name] marked info) scope) s =
      .ok (.str (SpecialForm.ownersText s scope name)) s :=
  run_special_of_done hplain (show _ = some .scopesOf from rfl) (fun _ => rfl) passes room id
    marked info

theorem ownersText_of_outwards (hids : s.Outwards scope ids) :
    SpecialForm.ownersText s scope name =
      if (s.owners ids name).map s.scopeName ∈ [[], [""]] then "not defined"
      else String.intercalate " <- " ((s.owners ids name).map s.scopeName) := by
  unfold SpecialForm.ownersText Store.chainText
  rw [hids.chain_eq]
  change (if (String.intercalate " <- " ((s.owners ids name).map s.scopeName)).isEmpty = true
    then _ else _) = _
  simp only [String.isEmpty_iff, Store.intercalate_eq_empty_iff, List.mem_cons, List.not_mem_nil,
    or_false]
  rfl

/-- All ways of looking a symbol up agree on the chain of scopes, whatever the scopes bind and
however they are named. The search finds the first scope that binds the symbol, looking up and
evaluating the symbol give the value there, and they stop exactly when no scope binds it. The text
of `which-env` joins the names of all scopes that bind the symbol, from the inside out, and says
`not defined` when there is none. It says so too when there is a single one and its name is
empty. -/
theorem lookup_paths_agree (hids : s.Outwards scope ids) (hplain : NoMacro scope s "which-env")
    (name : String) :
    s.chain scope = ids ∧
    (s.lookup? scope name).map Prod.fst = ids.find? (fun id => (s.own? id name).isSome) ∧
    (∀ owner v, ids.find? (fun id => (s.own? id name).isSome) = some owner →
      s.own? owner name = some v → lookup scope name s = .ok v s) ∧
    (lookup scope name s = .error (.fault (.unbound name)) s ↔
      ids.find? (fun id => (s.own? id name).isSome) = none) ∧
    (∀ passes room, run (passes + 1) room (.eval (.sym name) scope) s = lookup scope name s) ∧
    ∀ passes room id marked info, ∃ text,
      run (passes + 1) room (.eval (.list id [.sym "which-env", .sym name] marked info) scope) s =
        .ok (.str text) s ∧
      (s.owners ids name ≠ [] → (s.owners ids name).map s.scopeName ≠ [""] →
        text = String.intercalate " <- " ((s.owners ids name).map s.scopeName)) ∧
      (lookup scope name s = .error (.fault (.unbound name)) s → text = "not defined") ∧
      ((s.owners ids name).map s.scopeName = [""] → text = "not defined") := by
  have hfind : ids.find? (fun id => (s.own? id name).isSome) = (s.owners ids name).head? :=
    List.head?_filter.symm
  rw [hfind]
  refine ⟨hids.chain_eq, ?_, ?_, ?_, run_symbol scope name s, ?_⟩
  · rw [s.lookup?_eq, hids.chain_eq, s.findSome?_own?]
    cases howner : (s.owners ids name).head? with
    | none => rfl
    | some owner =>
      obtain ⟨v, hv⟩ := Store.isSome_own?_of_head? howner
      simp [hv]
  · exact fun owner v howner hv => lookup_of_owner hids howner hv
  · rw [lookup_eq_unbound_iff hids, List.head?_eq_none_iff]
  · intro passes room id marked info
    refine ⟨_, run_scopesOf hplain passes room id marked info, ?_, ?_, ?_⟩
    · intro hne hnamed
      have hother : (s.owners ids name).map s.scopeName ∉ [[], [""]] := by
        simp only [List.mem_cons, List.map_eq_nil_iff, List.not_mem_nil, or_false, not_or]
        exact ⟨hne, hnamed⟩
      rw [ownersText_of_outwards hids, if_neg hother]
    · intro hunbound
      rw [ownersText_of_outwards hids, (lookup_eq_unbound_iff hids).1 hunbound, if_pos (by simp)]
    · intro hnamed
      rw [ownersText_of_outwards hids, hnamed, if_pos (by simp)]

/-- A symbol that is bound in a scope and in the root scope around it. -/
theorem lookup_paths_agree_shadowed :
    let s : Store := { Store.empty 40 with
      scopes := #[⟨"repl", none, [("x", .int 1)]⟩, ⟨"let", some 0, [("x", .int 2)]⟩] }
    s.chain 1 = [1, 0] ∧ lookup 1 "x" s = .ok (.int 2) s ∧
      run 1 0 (.eval (.plainList 1 [.sym "which-env", .sym "x"]) 1) s =
        .ok (.str "let <- repl") s := by
  intro s
  have hids : s.Outwards 1 [1, 0] := .inside rfl rfl Nat.zero_lt_one (.outermost rfl rfl)
  have hplain : NoMacro 1 s "which-env" := by
    intro owner value h
    cases h
  obtain ⟨hchain, -, hvalue, -, -, htext⟩ := lookup_paths_agree hids hplain "x"
  obtain ⟨text, hrun, hjoined, -⟩ := htext 0 0 1 false .nil
  have hshown : text = "let <- repl" := hjoined (List.cons_ne_nil _ _) (by decide)
  exact ⟨hchain, hvalue 1 (.int 2) rfl rfl, hshown ▸ hrun⟩

end Eval

end SmallLisp
