import Mathlib.Tactic
import SmallLisp.Proofs.Eval.TailContext

/-!
# Loops in tail position

A function that calls itself in a tail context needs no more room for many iterations than for
one. Each iteration has scopes of its own, which are not nested in those of the iteration before
it.
-/

namespace SmallLisp

open Eval Filter Template Value

/-- The body of a loop that counts down and goes on in a tail context. -/
def loopBody (C : TailContext) : Datum :=
  .list [.sym "if", .list [.sym "=", .sym "n", .int 0], .str "done",
    C.fill (.list [.sym "loop", .list [.sym "-", .sym "n", .int 1]])]

def loopDefinition (C : TailContext) : Datum :=
  .list [.sym "def", .sym "loop", .list [.sym "fn", .list [.sym "n"], loopBody C]]

def loopCall (n : ℤ) : Datum := .list [.sym "loop", .int n]

/-- The bindings of a root scope in which the loop has been defined. -/
structure LoopRoot (closure : Value) (root : Bindings) : Prop where
  loop : root.get? "loop" = some closure
  equal : root.get? "=" = some (.builtin (.core .equal) false literalNan .nil)
  sub : root.get? "-" = some (.builtin (.core .sub) false literalNan .nil)
  raise : root.get? "throw" = some (.builtin (.core .raise) false literalNan .nil)
  plain : ∀ name v, root.get? name = some v → v.isMacro = false

/-- A scope inside the scope of a call of the loop, with nothing in between that hides what the
loop uses. -/
def Iteration (root : Bindings) (n : ℤ) (s : Store) (scope : ScopeId) : Prop :=
  ∃ inner, (∀ b ∈ inner, Bindings.Harmless b) ∧ s.Layered root scope (inner ++ [[("n", .int n)]])

variable {closure : Value} {root : Bindings} {n : ℤ} {s s' : Store} {scope : ScopeId}
  {form v : Value} {d : Datum} {room : Nat}

theorem exists_lookup {name : String} (h : (s.lookup? scope name).map (·.2) = some v) :
    ∃ owner, s.lookup? scope name = some (owner, v) := by
  obtain ⟨⟨owner, w⟩, hlookup, rfl⟩ := Option.map_eq_some_iff.1 h
  exact ⟨owner, hlookup⟩

theorem findSome?_harmless {inner : List Bindings} (h : ∀ b ∈ inner, Bindings.Harmless b) {name : String}
    (hname : name ∈ loopNames) : inner.findSome? (·.get? name) = none := by
  rw [List.findSome?_eq_none_iff]
  intro b hb
  by_contra hne
  obtain ⟨v, hv⟩ := Option.ne_none_iff_exists'.1 hne
  exact (h b hb name v hv).1 hname

namespace Iteration

theorem hasRoot (h : Iteration root n s scope) : s.HasRoot root := by
  obtain ⟨inner, -, hlayers⟩ := h
  exact hlayers.hasRoot

theorem lookup_counter (h : Iteration root n s scope) :
    ∃ owner, s.lookup? scope "n" = some (owner, .int n) := by
  obtain ⟨inner, hinner, hlayers⟩ := h
  apply exists_lookup
  rw [hlayers.lookup, List.append_assoc, List.findSome?_append,
    findSome?_harmless hinner (by decide)]
  rfl

theorem lookup_global (h : Iteration root n s scope) {name : String} (hname : name ∈ loopNames)
    (hn : name ≠ "n") (hv : root.get? name = some v) :
    ∃ owner, s.lookup? scope name = some (owner, v) := by
  obtain ⟨inner, hinner, hlayers⟩ := h
  have hcounter : Bindings.get? name [("n", .int n)] = none := by
    simp [Bindings.get?, Ne.symm hn]
  apply exists_lookup
  rw [hlayers.lookup, List.append_assoc, List.findSome?_append, findSome?_harmless hinner hname]
  simp [hcounter, hv]

theorem noMacro (h : Iteration root n s scope)
    (hplain : ∀ name v, root.get? name = some v → v.isMacro = false) (name : String) :
    NoMacro scope s name := by
  intro owner v hlookup
  obtain ⟨inner, hinner, hlayers⟩ := h
  have hfound := hlayers.lookup name
  rw [hlookup] at hfound
  obtain ⟨b, hb, hv⟩ := List.exists_of_findSome?_eq_some hfound.symm
  simp only [List.mem_append, List.mem_singleton] at hb
  rcases hb with (hb | rfl) | rfl
  · exact (hinner b hb name v hv).2
  · by_cases hn : name = "n"
    · subst hn
      obtain rfl := Option.some.inj hv
      rfl
    · simp [Bindings.get?, Ne.symm hn] at hv
  · exact hplain name v hv

theorem push (h : Iteration root n s scope) {name : String} {b : Bindings} (hb : b.Harmless)
    (hscopes : s'.scopes = s.scopes.push ⟨name, some scope, b⟩) :
    Iteration root n s' s.scopes.size := by
  obtain ⟨inner, hinner, hlayers⟩ := h
  exact ⟨b :: inner, List.forall_mem_cons.2 ⟨hb, hinner⟩, hlayers.push hscopes⟩

end Iteration

theorem pass_literal (h : v.datum? = some d) (hd : d.isLiteral = true) (nested : Nested)
    (limit : Nat) (scope : ScopeId) (s : Store) :
    pass nested limit (.eval v scope) s = .ok (.done v) s := by
  cases v with
  | sym name =>
    obtain rfl := Option.some.inj h
    cases hd
  | list | vec | map =>
    obtain ⟨_, _, rfl⟩ := Option.map_eq_some_iff.1 h
    cases hd
  | _ => rfl

theorem endsWithin_literal (h : v.datum? = some d) (hd : d.isLiteral = true) (room : Nat)
    (scope : ScopeId) (s : Store) : EndsWithin room (.eval v scope) s (.ok v s) :=
  endsWithin_of_done (.of_forall fun _ => pass_literal h hd _ _ scope s)

theorem isTruthy_of_datum? (h : v.datum? = some d) (hd : d.isLiteral = true) :
    v.isTruthy = d.isTruthy ∧ v.isMacro = false := by
  cases v with
  | sym name =>
    obtain rfl := Option.some.inj h
    cases hd
  | list | vec | map =>
    obtain ⟨_, _, rfl⟩ := Option.map_eq_some_iff.1 h
    cases hd
  | pair | atom | closure | builtin => cases h
  | _ =>
    obtain rfl := Option.some.inj h
    exact ⟨rfl, rfl⟩

theorem endsWithin_literals {forms : List Value} {literals : List Literal}
    (h : Hold forms (literals.map (·.1))) (room : Nat) (scope : ScopeId) (s : Store) :
    ∀ form ∈ forms, ∃ v, EndsWithin room (.eval form scope) s (.ok v s) := by
  induction literals generalizing forms with
  | nil =>
    cases h
    simp
  | cons literal literals ih =>
    cases h with
    | cons hform hforms =>
      exact List.forall_mem_cons.2
        ⟨⟨_, endsWithin_literal hform literal.2 room scope s⟩, ih hforms⟩

theorem Store.scopes_bind_push {scopes : Array Scope} {name : String} {outer : Option ScopeId}
    {b : Bindings} (h : s.scopes = scopes.push ⟨name, outer, b⟩) (symbol : String) (v : Value) :
    (s.bind scopes.size symbol v).scopes = scopes.push ⟨name, outer, b.set symbol v⟩ := by
  unfold Store.bind
  dsimp only
  rw [h]
  apply Array.ext_getElem?
  intro id
  rw [Array.getElem?_modify, Array.getElem?_push, Array.getElem?_push]
  split_ifs with hid hid'
  · rfl
  · exact absurd hid.symm hid'
  · exact absurd ‹id = scopes.size›.symm hid
  · rfl

theorem exists_bindEach {scopes : Array Scope} {name : String} {outer : Option ScopeId}
    {b : Bindings} (hb : b.Harmless) (hscopes : s.scopes = scopes.push ⟨name, outer, b⟩)
    {bindings : List (FreshName × Literal)} {items : List Value}
    (h : Hold items (bindings.flatMap fun entry => [.sym entry.1.1, entry.2.1])) (room : Nat) :
    ∃ s' b', Bindings.Harmless b' ∧ s'.scopes = scopes.push ⟨name, outer, b'⟩ ∧
      ∀ᶠ passes in atTop, SpecialForm.bindEach (nestedRun passes (room + 1)) scopes.size items s =
        .ok () s' := by
  induction bindings generalizing items s b with
  | nil =>
    cases h
    exact ⟨s, b, hb, hscopes, .of_forall fun _ => rfl⟩
  | cons entry bindings ih =>
    obtain ⟨fresh, literal⟩ := entry
    obtain ⟨target, valued, htarget, hvalued, rfl⟩ := List.forall₂_cons_right_iff.1 h
    obtain ⟨value, rest, hvalue, hrest, rfl⟩ := List.forall₂_cons_right_iff.1 hvalued
    obtain rfl := eq_of_only? htarget rfl
    have hliteral := endsWithin_literal hvalue literal.2 room scopes.size s
    have hplain := (isTruthy_of_datum? hvalue literal.2).2
    have hbind := Store.scopes_bind_push hscopes fresh.1 value
    obtain ⟨s', b', hb', hscopes', hbinds⟩ := ih (hb.set fresh.2 hplain) hbind hrest
    refine ⟨s', b', hb', hscopes', ?_⟩
    filter_upwards [hliteral.eventually_nested, hbinds] with passes hliteral hbinds
    exact (bind_of_ok hliteral).trans ((bind_of_ok rfl).trans hbinds)

/-- A form is evaluated to the end of the loop within a room. -/
def Finishes (room : Nat) (form : Value) (scope : ScopeId) (s : Store) : Prop :=
  ∃ s', EndsWithin room (.eval form scope) s (.ok (.str "done") s')

theorem endsWithin_raise (h : Iteration root n s scope) (hroot : LoopRoot closure root)
    (hform : form.datum? = some (.list [.sym "throw", .int 0])) :
    ∃ shown, EndsWithin 1 (.eval form scope) s (.error (.fault (.raised (.int 0) shown)) s) := by
  obtain ⟨id, args, marked, info, rfl, hargs⟩ := exists_call hform
  obtain ⟨zero, hzero, rfl⟩ := hold_one hargs
  obtain ⟨owner, hlookup⟩ := h.lookup_global (by decide) (by decide) hroot.raise
  refine ⟨toString (0 : ℤ), endsWithin_application ?_ rfl (endsWithin_symbol hlookup 0)
    (.cons (endsWithin_literal hzero rfl 0 scope s) .nil) ?_⟩
  · exact macroCall?_eq_none (h.noMacro hroot.plain "throw") id _ marked info
  · obtain rfl := eq_of_only? hzero rfl
    have hpos (digits : ℕ) : (0 : ℤ).natAbs < Nat.pow 10 digits := Nat.pow_pos (by decide)
    have htext : s.represent (.int 0) = integerText 0 := rfl
    have hshown : represent (.int 0) s = .ok (toString (0 : ℤ)) s := by
      unfold represent
      rw [get_bind, htext, integerText_eq_ok (hpos maxDigits)]
      rfl
    have hraise : Core.raiseValue [.int 0] s =
        .error (.fault (.raised (.int 0) (toString (0 : ℤ)))) s := by
      unfold Core.raiseValue
      exact (bind_of_ok rfl).trans ((bind_of_ok hshown).trans rfl)
    have hrun (nested : Nested) (limit : Nat) :
        runBuiltin (.core .raise) nested limit [.int 0] s =
          .error (.fault (.raised (.int 0) (toString (0 : ℤ)))) s := inside_of_fault hraise
    exact endsWithin_builtin hrun trivial _ _ _ _

/-- A tail context takes no room beyond what the form in it takes. -/
theorem finishes_fill (hroot : LoopRoot closure root) {hole : Datum}
    (hhole : ∀ form scope s, form.datum? = some hole → Iteration root n s scope →
      Finishes 2 form scope s) (C : TailContext) :
    ∀ form scope s, form.datum? = some (C.fill hole) → Iteration root n s scope →
      Finishes 2 form scope s := by
  induction C with
  | hole => exact hhole
  | consequent condition holds other inner ih =>
    intro form scope s hform h
    have hplain := h.noMacro hroot.plain
    obtain ⟨id, args, marked, info, rfl, hargs⟩ := exists_call hform
    obtain ⟨test, branches, htest, hbranches, rfl⟩ := List.forall₂_cons_right_iff.1 hargs
    obtain ⟨branch, others, hbranch, hothers, rfl⟩ := List.forall₂_cons_right_iff.1 hbranches
    have hlength : others.length ≤ 1 := by
      rw [hothers.length_eq]
      cases other <;> simp
    obtain ⟨s', hdone⟩ := ih branch scope s hbranch h
    have htruthy := (isTruthy_of_datum? htest condition.2).1
    exact ⟨s', endsWithin_consequent (hplain "if") hlength
      (endsWithin_literal htest condition.2 1 scope s) (htruthy.trans holds) hdone⟩
  | alternative condition fails other inner ih =>
    intro form scope s hform h
    have hplain := h.noMacro hroot.plain
    obtain ⟨id, args, marked, info, rfl, hargs⟩ := exists_call hform
    obtain ⟨test, branches, htest, hbranches, rfl⟩ := List.forall₂_cons_right_iff.1 hargs
    obtain ⟨skipped, branch, -, hbranch, rfl⟩ := hold_two hbranches
    obtain ⟨s', hdone⟩ := ih branch scope s hbranch h
    have htruthy := (isTruthy_of_datum? htest condition.2).1
    exact ⟨s', endsWithin_alternative (hplain "if")
      (endsWithin_literal htest condition.2 1 scope s) (htruthy.trans fails) hdone⟩
  | last forms inner ih =>
    intro form scope s hform h
    have hplain := h.noMacro hroot.plain
    obtain ⟨id, args, marked, info, rfl, hargs⟩ := exists_call hform
    obtain ⟨literals, last, rfl, hliterals, hlast⟩ := hold_append hargs
    obtain ⟨s', hdone⟩ := ih last scope s hlast h
    exact ⟨s', endsWithin_sequence (hplain "do")
      (endsWithin_literals hliterals 1 scope s) hdone⟩
  | body square bindings forms inner ih =>
    intro form scope s hform h
    have hplain := h.noMacro hroot.plain
    obtain ⟨id, args, marked, info, rfl, hargs⟩ := exists_call hform
    obtain ⟨binders, bodyForms, hbinders, hbody, rfl⟩ := List.forall₂_cons_right_iff.1 hargs
    obtain ⟨literals, last, rfl, hliterals, hlast⟩ := hold_append hbody
    obtain ⟨pairs, hpairs, hhold⟩ := exists_sequence hbinders
    have heven : pairs.length % 2 = 0 := by
      rw [hhold.length_eq]
      simp
    obtain ⟨s₁, b, hb, hscopes, hbind⟩ :=
      exists_bindEach .nil (s := (s.addScope (some scope) "let").2) rfl hhold 1
    obtain ⟨s', hdone⟩ := ih last s.scopes.size s₁ hlast (h.push hb hscopes)
    exact ⟨s', endsWithin_bindings (hplain "let") hpairs heven hbind
      (endsWithin_literals hliterals 1 _ s₁) hdone⟩
  | handler inner ih =>
    intro form scope s hform h
    have hplain := h.noMacro hroot.plain
    obtain ⟨id, args, marked, info, rfl, hargs⟩ := exists_call hform
    obtain ⟨body, clause, hbody, hclause, rfl⟩ := hold_two hargs
    obtain ⟨clauseId, items, clauseMarked, clauseInfo, rfl, hitems⟩ := exists_call hclause
    obtain ⟨name, handler, hname, hhandler, rfl⟩ := hold_two hitems
    obtain rfl := eq_of_only? hname rfl
    obtain ⟨shown, hraise⟩ := endsWithin_raise h hroot hbody
    have hcaught : Bindings.Harmless (Bindings.set "e" (.int 0) []) :=
      Bindings.Harmless.nil.set (by decide) rfl
    have hscopes : (s.catching scope "e" (.raised (.int 0) shown)).scopes =
        s.scopes.push ⟨"catch", some scope, [("e", .int 0)]⟩ := by
      unfold Store.catching
      dsimp only
      rw [Store.scopes_record]
      rfl
    obtain ⟨s', hdone⟩ := ih handler s.scopes.size _ hhandler (h.push hcaught hscopes)
    exact ⟨s', endsWithin_handler ⟨_, _, _, _, _, _, rfl⟩ (hplain "try") (by decide) hraise hdone⟩

theorem endsWithin_counter {name : String} {f : Core} {m : ℤ} (h : Iteration root n s scope)
    (hroot : LoopRoot closure root) (hname : name ∈ loopNames) (hn : name ≠ "n")
    (hspecial : SpecialForm.ofName? name = none)
    (hf : root.get? name = some (.builtin (.core f) false literalNan .nil))
    (hcall : ∀ nested limit, runBuiltin (.core f) nested limit [.int n, .int m] s = .ok v s)
    (hform : form.datum? = some (.list [.sym name, .sym "n", .int m])) :
    EndsWithin 1 (.eval form scope) s (.ok v s) := by
  obtain ⟨id, args, marked, info, rfl, hargs⟩ := exists_call hform
  obtain ⟨counter, literal, hcounter, hliteral, rfl⟩ := hold_two hargs
  obtain rfl := eq_of_only? hcounter rfl
  obtain rfl := eq_of_only? hliteral rfl
  obtain ⟨owner, hlookup⟩ := h.lookup_global hname hn hf
  obtain ⟨owner', hlookup'⟩ := h.lookup_counter
  refine endsWithin_application ?_ hspecial (endsWithin_symbol hlookup 0)
    (.cons (endsWithin_symbol hlookup' 0)
      (.cons (endsWithin_literal hliteral rfl 0 scope s) .nil)) ?_
  · exact macroCall?_eq_none (h.noMacro hroot.plain name) id _ marked info
  · exact endsWithin_builtin hcall trivial _ _ _ _

/-- The call of the loop in its body is the call with the counter one less. -/
theorem finishes_call (h : Iteration root n s scope) (hroot : LoopRoot closure root)
    (hform : form.datum? = some (.list [.sym "loop", .list [.sym "-", .sym "n", .int 1]]))
    (hcall : EndsWithin 2 (.call closure [.int (n - 1)]) s (.ok (.str "done") s')) :
    Finishes 2 form scope s := by
  obtain ⟨id, args, marked, info, rfl, hargs⟩ := exists_call hform
  obtain ⟨arg, harg, rfl⟩ := hold_one hargs
  obtain ⟨owner, hlookup⟩ := h.lookup_global (by decide) (by decide) hroot.loop
  have hless : EndsWithin 1 (.eval arg scope) s (.ok (.int (n - 1)) s) :=
    endsWithin_counter h hroot (by decide) (by decide) (by decide) hroot.sub
      (fun nested limit => rfl) harg
  refine ⟨s', endsWithin_application ?_ (by decide) (endsWithin_symbol hlookup 1)
    (.cons hless .nil) hcall⟩
  exact macroCall?_eq_none (h.noMacro hroot.plain "loop") id _ marked info

/-- The body of the loop is evaluated in a scope that is inside the root scope alone. -/
theorem exists_iteration {id : Identity} {body : Value} (h : s.HasRoot root)
    (hbody : ∀ s' inner, Iteration root n s' inner → Finishes room body inner s') :
    ∃ s', EndsWithin room (.call (.closure id ["n"] body rootScope false .nil) [.int n]) s
      (.ok (.str "done") s') := by
  have henter : enterCall rootScope ["n"] [.int n] s = .ok s.scopes.size
      { s with scopes := s.scopes.push ⟨"fn", some rootScope, [("n", .int n)]⟩ } :=
    enter_single (by decide) (.int n) s
  have hscope : Iteration root n { s with
      scopes := s.scopes.push ⟨"fn", some rootScope, [("n", .int n)]⟩ } s.scopes.size :=
    ⟨[], by simp, (Store.Layered.root h).push rfl⟩
  obtain ⟨s', hdone⟩ := hbody _ _ hscope
  exact ⟨s', endsWithin_closure henter hdone⟩

/-- The loop ends, however many iterations it takes, within the room that one of them takes. -/
theorem finishes_loop {C : TailContext} {id : Identity} {body : Value}
    (hroot : LoopRoot (.closure id ["n"] body rootScope false .nil) root)
    (hbody : body.datum? = some (loopBody C)) (n : ℕ) (h : s.HasRoot root) :
    ∃ s', EndsWithin 2 (.call (.closure id ["n"] body rootScope false .nil) [.int n]) s
      (.ok (.str "done") s') := by
  obtain ⟨formId, args, marked, info, rfl, hargs⟩ := exists_call hbody
  obtain ⟨test, branches, htest, hbranches, rfl⟩ := List.forall₂_cons_right_iff.1 hargs
  obtain ⟨last, next, hlast, hnext, rfl⟩ := hold_two hbranches
  have hzero {n : ℤ} {s : Store} {scope : ScopeId} (hscope : Iteration root n s scope) :
      EndsWithin 1 (.eval test scope) s (.ok (.bool (n == 0)) s) :=
    endsWithin_counter hscope hroot (by decide) (by decide) (by decide) hroot.equal
      (fun nested limit => rfl) htest
  induction n generalizing s with
  | zero =>
    refine exists_iteration h fun s₁ scope hscope => ?_
    have hplain := hscope.noMacro hroot.plain "if"
    have hdone := endsWithin_literal hlast rfl 2 scope s₁
    obtain rfl := eq_of_only? hlast rfl
    exact ⟨s₁, endsWithin_consequent hplain le_rfl (hzero hscope) rfl hdone⟩
  | succ n ih =>
    refine exists_iteration h fun s₁ scope hscope => ?_
    have hplain := hscope.noMacro hroot.plain "if"
    have hfalse : Value.isTruthy (.bool ((n + 1 : ℕ) == (0 : ℤ))) = false := by
      simp [Value.isTruthy]
      omega
    have hcall (form : Value) (scope : ScopeId) (s₂ : Store)
        (hform : form.datum? = some (.list [.sym "loop", .list [.sym "-", .sym "n", .int 1]]))
        (hscope : Iteration root (n + 1 : ℕ) s₂ scope) : Finishes 2 form scope s₂ := by
      obtain ⟨s', hdone⟩ := ih hscope.hasRoot
      exact finishes_call hscope hroot hform (by simpa using hdone)
    obtain ⟨s', hdone⟩ := finishes_fill hroot hcall C next scope s₁ hnext hscope
    exact ⟨s', endsWithin_alternative hplain (hzero hscope) hfalse hdone⟩

def newRoot : Bindings := (Interpreter.rootBindings.run (Value.literalNan + 1)).1

theorem scopes_create (logLevel : Nat) :
    (Interpreter.create logLevel).scopes = #[⟨Interpreter.rootName, none, newRoot⟩] :=
  Store.scopes_record _ _ _

theorem hasRoot_create (logLevel : Nat) : (Interpreter.create logLevel).HasRoot newRoot := by
  unfold Store.HasRoot Store.scope?
  rw [scopes_create]
  rfl

theorem isMacro_newRoot {name : String} (h : newRoot.get? name = some v) : v.isMacro = false := by
  have hall : ∀ entry ∈ newRoot, entry.2.isMacro = false := by decide
  exact hall _ (Bindings.mem_of_get? h)

theorem loopRoot_define {id : Identity} {body : Value} :
    LoopRoot (.closure id ["n"] body rootScope false .nil)
      (newRoot.set "loop" (.closure id ["n"] body rootScope false .nil)) := by
  constructor
  · rw [Bindings.get?_set, if_pos rfl]
  · rw [Bindings.get?_set, if_neg (by decide)]
    rfl
  · rw [Bindings.get?_set, if_neg (by decide)]
    rfl
  · rw [Bindings.get?_set, if_neg (by decide)]
    rfl
  · intro name v hv
    rw [Bindings.get?_set] at hv
    split_ifs at hv
    · obtain rfl := Option.some.inj hv
      rfl
    · exact isMacro_newRoot hv

theorem Store.HasRoot.bind (h : s.HasRoot root) (name : String) (v : Value) :
    (s.bind rootScope name v).HasRoot (root.set name v) := by
  unfold HasRoot at h ⊢
  rw [scope?_bind, if_pos rfl, h]
  rfl

theorem evaluate_definition (C : TailContext) (hform : form.datum? = some (loopDefinition C))
    (h : s.HasRoot newRoot) :
    ∃ id body s', body.datum? = some (loopBody C) ∧
      Interpreter.evaluate form rootScope s =
        .ok (.closure id ["n"] body rootScope false .nil) s' ∧
      s'.HasRoot (newRoot.set "loop" (.closure id ["n"] body rootScope false .nil)) := by
  obtain ⟨formId, args, marked, info, rfl, hargs⟩ := exists_call hform
  obtain ⟨name, function, hname, hfunction, rfl⟩ := hold_two hargs
  obtain rfl := eq_of_only? hname rfl
  obtain ⟨functionId, parts, functionMarked, functionInfo, rfl, hparts⟩ := exists_call hfunction
  obtain ⟨params, body, hparams, hbody, rfl⟩ := hold_two hparts
  obtain ⟨paramsId, names, paramsMarked, paramsInfo, rfl, hnames⟩ := exists_list hparams
  obtain ⟨param, hparam, rfl⟩ := hold_one hnames
  obtain rfl := eq_of_only? hparam rfl
  have hplain (name : String) : NoMacro rootScope s name := by
    intro owner v hlookup
    have hfound := (Store.Layered.root h).lookup name
    rw [hlookup] at hfound
    obtain ⟨b, hb, hv⟩ := List.exists_of_findSome?_eq_some hfound.symm
    obtain rfl := List.mem_singleton.1 hb
    exact isMacro_newRoot hv
  set closure : Value := .closure s.nextIdentity ["n"] body rootScope false .nil
  set s₁ : Store := { s with nextIdentity := s.nextIdentity + 1 }
  have hclosure : Direct.run 1 (.eval (.list functionId
      [.sym "fn", .list paramsId [.sym "n"] paramsMarked paramsInfo, body] functionMarked
      functionInfo) rootScope) s = .ok closure s₁ :=
    (list_eq_special (hplain "fn") (show _ = some .function by decide) _ _ _ _ _).trans rfl
  have hdefine : Direct.run 2 (.eval (.list formId [.sym "def", .sym "loop", .list functionId
      [.sym "fn", .list paramsId [.sym "n"] paramsMarked paramsInfo, body] functionMarked
      functionInfo] marked info) rootScope) s = .ok closure (s₁.bind rootScope "loop" closure) :=
    (list_eq_special (hplain "def") (show _ = some .define by decide) _ _ _ _ _).trans
      ((bind_of_ok hclosure).trans rfl)
  have hlimits : NestedApproximates .both (Direct.run 2)
      (run Interpreter.passLimit Interpreter.roomLimit) :=
    direct_approximates_run (by decide) (by decide)
  have hrun := hlimits _ s (by rw [hdefine]; trivial)
  have hroot : s₁.HasRoot newRoot := h
  exact ⟨_, body, _, hbody, hrun.trans hdefine, hroot.bind "loop" closure⟩

theorem HasRoot.of_ofDatum (h : s.HasRoot root) (hdatum : ofDatum d s = .ok v s') :
    s'.HasRoot root := by
  obtain ⟨-, rfl⟩ := EStateM.Result.ok.inj hdatum
  exact h

theorem exists_loopCall {C : TailContext} {id : Identity} {body : Value}
    (hroot : LoopRoot (.closure id ["n"] body rootScope false .nil) root)
    (hbody : body.datum? = some (loopBody C)) (n : ℕ) (h : s.HasRoot root)
    (hform : form.datum? = some (loopCall n)) : Finishes 2 form rootScope s := by
  obtain ⟨formId, args, marked, info, rfl, hargs⟩ := exists_call hform
  obtain ⟨count, hcount, rfl⟩ := hold_one hargs
  have hlayered : s.Layered root rootScope [] := .root h
  obtain ⟨owner, hlookup⟩ := exists_lookup ((hlayered.lookup "loop").trans
    (by rw [List.nil_append, List.findSome?_singleton, hroot.loop]))
  obtain ⟨s', hdone⟩ := finishes_loop hroot hbody n h
  have hcounted := endsWithin_literal hcount rfl 1 rootScope s
  obtain rfl := eq_of_only? hcount rfl
  refine ⟨s', endsWithin_application ?_ (by decide) (endsWithin_symbol hlookup 1)
    (.cons hcounted .nil) hdone⟩
  unfold macroCall?
  simp only [hlookup]

/-- Tail calls need no nesting. A run whose first pass hands back a job is as deep as that pass or
as the job, whichever is deeper. Hence a function that calls itself in a tail context runs to its
end at a depth that depends on the context alone, however often it calls itself. -/
theorem tail_calls_at_bounded_depth :
    (∀ passes room job job' s s',
      pass (nestedRun passes room) passes job s = .ok (.next job') s' →
      depth (passes + 1) job s = max (passDepth passes job s) (depth passes job' s')) ∧
    ∀ C : TailContext, ∃ bound : ℕ, ∀ logLevel n : ℕ, ∃ definition closure call s₀ s₁ s₂ s₃,
      ofDatum (loopDefinition C) (Interpreter.create logLevel) = .ok definition s₀ ∧
      Interpreter.evaluate definition rootScope s₀ = .ok closure s₁ ∧
      ofDatum (loopCall n) s₁ = .ok call s₂ ∧
      EndsWith (.eval call rootScope) s₂ (.ok (.str "done") s₃) ∧
      ∀ passes, depth passes (.eval call rootScope) s₂ ≤ bound := by
  refine ⟨fun _ _ _ _ _ _ => depth_eq_max, fun C => ⟨3, fun logLevel n => ?_⟩⟩
  obtain ⟨definition, s₀, hdefinition⟩ : ∃ definition s₀,
    ofDatum (loopDefinition C) (Interpreter.create logLevel) = .ok definition s₀ := ⟨_, _, rfl⟩
  have hroot₀ := HasRoot.of_ofDatum (hasRoot_create logLevel) hdefinition
  obtain ⟨id, body, s₁, hbody, hevaluate, hroot₁⟩ :=
    evaluate_definition C (datum?_of_ofDatum hdefinition) hroot₀
  obtain ⟨call, s₂, hcall⟩ : ∃ call s₂, ofDatum (loopCall n) s₁ = .ok call s₂ := ⟨_, _, rfl⟩
  have hroot₂ := HasRoot.of_ofDatum hroot₁ hcall
  obtain ⟨s₃, hdone⟩ :=
    exists_loopCall loopRoot_define hbody n hroot₂ (datum?_of_ofDatum hcall)
  refine ⟨definition, _, call, s₀, s₁, s₂, s₃, hdefinition, hevaluate, hcall, hdone.endsWith, ?_⟩
  obtain ⟨hended, passes, hrun⟩ := hdone
  exact depth_le (hrun ▸ hended)

/-- A sequence hands back its last form, whose condition nests an activation in another one. Neither
is live while the first form of the sequence is evaluated. -/
theorem depth_sequence_of_two :
    let condition : Value := .plainList 3 [.sym "if", .bool true, .bool true, .bool false]
    let choice : Value := .plainList 2 [.sym "if", condition, .int 7, .int 8]
    let sequence : Value := .plainList 1 [.sym "do", .int 1, choice]
    let s := Store.empty 40
    pass (nestedRun 4 1) 4 (.eval sequence rootScope) s = .ok (.next (.eval choice rootScope)) s ∧
      passDepth 4 (.eval sequence rootScope) s = 2 ∧ depth 4 (.eval choice rootScope) s = 3 ∧
      depth 5 (.eval sequence rootScope) s = 3 := by
  intro condition choice sequence s
  have hnext : pass (nestedRun 4 1) 4 (.eval sequence rootScope) s =
      .ok (.next (.eval choice rootScope)) s := rfl
  have hpass : passDepth 4 (.eval sequence rootScope) s = 0 + 2 :=
    Nesting.depth_eq (steady_passing _ _) (fun _ => rfl) rfl rfl
  have hjob : depth 4 (.eval choice rootScope) s = 1 + 2 :=
    Nesting.depth_eq (steady_running _ _) (fun _ => rfl) rfl rfl
  refine ⟨hnext, hpass, hjob, ?_⟩
  rw [tail_calls_at_bounded_depth.1 4 1 _ _ _ _ hnext, hpass, hjob]
  rfl

end SmallLisp
