import Mathlib.Tactic
import SmallLisp.Proofs.Eval.Propagation
import SmallLisp.Proofs.Template.Call

/-!
# Three ways to a call

A function is called at the head of a list, by `apply` and by `swap!`. At the head of a list the
call is in tail position; the two builtins make it inside of them, where a limit becomes a fault of
the builtin. A call that gives a value or a fault gives the same on all three ways, from the same
store to the same store, but for what a swap writes when the call has returned.
-/

namespace SmallLisp.Eval

open Filter Template

variable {scope : ScopeId} {s s₀ s₁ : Store} {form f g v spread info : Value}
  {args ws fixed last extra : List Value} {r : Result Value} {wrapped : Bool} {id : Identity}
  {a : Address}

/-- An outcome that a program can see: a value or a fault. -/
def Conclusive : Result Value → Prop
  | .ok _ _ => True
  | .error (.fault _) _ => True
  | _ => False

/-- The outcome of a call, after a returned value has been written to an atom. -/
def written (a : Address) : Result Value → Result Value
  | .ok v s => .ok v (s.setContent a v)
  | .error stop s => .error stop s

/-- An application that is about to call a value, since its head and its operands have been
evaluated. -/
def CallsNext (form : Value) (scope : ScopeId) (s₀ : Store) (g : Value) (ws : List Value)
    (s : Store) : Prop :=
  ∃ id head operands marked info s₁, form = .list id (head :: operands) marked info ∧
    macroCall? s₀ form scope = none ∧ head.symbol?.bind SpecialForm.ofName? = none ∧
    EndsWith (.eval head scope) s₀ (.ok g s₁) ∧ Evaluated scope operands s₁ ws [] s

theorem CallsNext.endsWith_iff (h : CallsNext form scope s₀ g ws s) (r : Result Value) :
    EndsWith (.eval form scope) s₀ r ↔ EndsWith (.call g ws) s r := by
  obtain ⟨id, head, operands, marked, info, s₁, rfl, hplain, hname, hhead, hoperands⟩ := h
  apply endsWith_iff_of_step
  filter_upwards [hhead.eventually_direct, hoperands.eventually_values] with depth hhead hoperands
  refine (Direct.form_of_application hplain hname _).trans ?_
  exact (bind_of_ok hhead).trans (bind_of_ok hoperands)

theorem applySpread_eq (h : elements? spread = some last) (nested : Nested) (f : Value)
    (fixed : List Value) (s : Store) :
    Core.applySpread nested (f :: (fixed ++ [spread])) s = nested (.call f (fixed ++ last)) s := by
  obtain ⟨arg, more, hargs⟩ : ∃ arg more, fixed ++ [spread] = arg :: more :=
    List.exists_cons_of_ne_nil (by simp)
  have hlast : (arg :: more).getLast (by simp) = spread := by
    simp only [← hargs, List.getLast_append_singleton]
  have hfixed : (arg :: more).dropLast = fixed := by
    rw [← hargs, List.dropLast_concat]
  have helements : elements "apply" ((arg :: more).getLast (by simp)) s = .ok last s := by
    rw [hlast]
    exact elements_eq h "apply" s
  rw [hargs]
  refine (bind_of_ok helements).trans ?_
  rw [hfixed]

/-- A call that is conclusive is so inside of a builtin. -/
theorem inside_of_conclusive {x : Eval Value} {function : String} (hr : Conclusive r)
    (h : x s = r) : inside function x s = r := by
  unfold inside
  rw [h]
  cases r with
  | ok v s' => rfl
  | error stop s' =>
    cases stop with
    | fault cause => rfl
    | host | stackExhausted | passesExhausted => exact hr.elim

theorem Conclusive.ended (h : Conclusive r) : Ended r := by
  cases r with
  | ok v s' => trivial
  | error stop s' => cases stop <;> trivial

theorem Conclusive.written (h : Conclusive r) (a : Address) : Conclusive (written a r) := by
  cases r with
  | ok v s' => trivial
  | error stop s' => exact h

/-- The call that `apply` makes. -/
theorem endsWith_apply (h : EndsWith (.call f (fixed ++ last)) s r) (hr : Conclusive r)
    (hspread : elements? spread = some last) :
    EndsWith (.call (.builtin (.core .apply) wrapped id info) (f :: (fixed ++ [spread]))) s r := by
  apply endsWith_of_eventually hr.ended
  filter_upwards [h.eventually_direct] with depth hcall
  exact inside_of_conclusive hr ((applySpread_eq hspread _ f fixed s).trans hcall)

/-- A swap calls its function with the content that the atom has before, and then writes. -/
theorem swap_of_content (h : s.content? a = some v) (nested : Nested) (f : Value)
    (extra : List Value) : Cell.swap nested (.atom a :: f :: extra) s =
      (nested (.call f (v :: extra)) >>= Cell.write a) s := by
  have hread : Cell.read a s = .ok v s := by
    unfold Cell.read
    rw [get_bind, h]
    rfl
  exact (bind_of_ok rfl).trans (bind_of_ok hread)

/-- The call that `swap!` makes. Its value is written when it has returned, and then nothing else
happens. -/
theorem endsWith_swap (h : EndsWith (.call f (v :: extra)) s r) (hr : Conclusive r)
    (hcontent : s.content? a = some v) :
    EndsWith (.call (.builtin (.core .swap) wrapped id info) (.atom a :: f :: extra)) s
      (written a r) := by
  apply endsWith_of_eventually (hr.written a).ended
  filter_upwards [h.eventually_direct] with depth hcall
  refine inside_of_conclusive (hr.written a) ((swap_of_content hcontent _ f extra).trans ?_)
  cases r with
  | ok w s' => exact (bind_of_ok hcall).trans rfl
  | error stop s' => exact bind_of_error hcall

/-- The three ways to a call agree. A form that calls a value at its head ends as the call does, be
it a call of a function, of `apply` or of `swap!`. If the call of a value with some arguments gives
a value or a fault, then `apply` gives the same and leaves the same store, wherever the arguments
are split and whether the last ones come in a list, in a vector or, when there are none, as nil. So
does `swap!` with an atom that holds the first argument, except that it writes a returned value to
the atom at the end. -/
theorem call_paths_agree (h : EndsWith (.call f args) s r) (hr : Conclusive r) :
    (∀ form scope s₀ g ws s' r', CallsNext form scope s₀ g ws s' →
      (EndsWith (.eval form scope) s₀ r' ↔ EndsWith (.call g ws) s' r')) ∧
    (∀ fixed last spread wrapped id info, args = fixed ++ last → elements? spread = some last →
      EndsWith (.call (.builtin (.core .apply) wrapped id info) (f :: (fixed ++ [spread]))) s r) ∧
    ∀ a v extra wrapped id info, args = v :: extra → s.content? a = some v →
      EndsWith (.call (.builtin (.core .swap) wrapped id info) (.atom a :: f :: extra)) s
        (written a r) := by
  refine ⟨?_, ?_, ?_⟩
  · intro form scope s₀ g ws s' r' hcalls
    exact hcalls.endsWith_iff r'
  · intro fixed last spread wrapped id info hargs hspread
    exact endsWith_apply (hargs ▸ h) hr hspread
  · intro a v extra wrapped id info hargs hcontent
    exact endsWith_swap (hargs ▸ h) hr hcontent

/-- A function that writes to the atom that is swapped. -/
theorem call_paths_agree_rewriting :
    let s : Store := { Store.empty 40 with
      scopes := #[⟨"repl", none,
        [("a", .atom 0), ("reset!", .builtin (.core .reset) false Value.literalNan .nil)]⟩]
      contents := #[.int 1] }
    let f : Value := .closure 1 ["x"] (.plainList 2 [.sym "reset!", .sym "a", .bool true])
      rootScope false .nil
    ∃ s', s'.content? 0 = some (.bool true) ∧ EndsWith (.call f [.int 1]) s (.ok (.bool true) s') ∧
      EndsWith (.call (.builtin (.core .apply) false 0 .nil) [f, .plainVec 3 [.int 1]]) s
        (.ok (.bool true) s') ∧
      EndsWith (.call (.builtin (.core .swap) false 0 .nil) [.atom 0, f]) s
        (.ok (.bool true) (s'.setContent 0 (.bool true))) := by
  intro s f
  have hcall : EndsWith (.call f [.int 1]) s (.ok (.bool true)
      ({ s with scopes := s.scopes.push ⟨"fn", some rootScope, [("x", .int 1)]⟩ }.setContent 0
        (.bool true))) := ⟨trivial, 3, 1, rfl⟩
  obtain ⟨-, happly, hswap⟩ := call_paths_agree hcall trivial
  exact ⟨_, rfl, hcall, happly [] [.int 1] _ false 0 .nil rfl rfl,
    hswap 0 (.int 1) [] false 0 .nil rfl rfl⟩

end SmallLisp.Eval
