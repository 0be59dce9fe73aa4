import Mathlib.Tactic
import SmallLisp.Proofs.Eval.CallPaths
import SmallLisp.Proofs.Eval.Frame
import SmallLisp.Proofs.Eval.Unlimited
import SmallLisp.Proofs.Eval.Within

/-!
# Writes that come last

A definition and a swap write once, and last: the value that is written has been computed before,
and with it everything is done that can fail. A form that fails has written nothing itself, so that
its place in the store holds what its parts have left there. A form that returns has written the
value that it returns, whatever its parts have written to the same place meanwhile.
-/

namespace SmallLisp

namespace Store

variable {s : Store} {scope : ScopeId} {name : String} {a : Address}

/-- A symbol has been bound in a scope, and nothing else is different. -/
structure BindsOnly (scope : ScopeId) (name : String) (v : Value) (s s' : Store) : Prop where
  own : s'.own? scope name = some v
  own_eq : ∀ id text, id ≠ scope ∨ text ≠ name → s'.own? id text = s.own? id text
  around : ∀ id, (s'.scope? id).map (fun scope => (scope.name, scope.outer)) =
    (s.scope? id).map fun scope => (scope.name, scope.outer)
  contents : s'.contents = s.contents
  nextIdentity : s'.nextIdentity = s.nextIdentity
  output : s'.output = s.output
  log : s'.log = s.log

/-- An atom has been given a content, and nothing else is different. -/
structure FillsOnly (a : Address) (v : Value) (s s' : Store) : Prop where
  content : s'.content? a = some v
  content_eq : ∀ b, b ≠ a → s'.content? b = s.content? b
  scopes : s'.scopes = s.scopes
  nextIdentity : s'.nextIdentity = s.nextIdentity
  output : s'.output = s.output
  log : s'.log = s.log

theorem bindsOnly_bind (h : scope < s.scopes.size) (v : Value) :
    s.BindsOnly scope name v (s.bind scope name v) := by
  have hscope : s.scope? scope = some s.scopes[scope] := Array.getElem?_eq_getElem h
  constructor
  · unfold own?
    rw [scope?_bind, if_pos rfl, hscope]
    exact (Bindings.get?_set name name v _).trans (if_pos rfl)
  · intro id text hother
    unfold own?
    rw [scope?_bind]
    split_ifs with hid
    · subst hid
      have htext : name ≠ text := (hother.resolve_left (absurd rfl)).symm
      rw [hscope]
      exact (Bindings.get?_set name text v _).trans (if_neg htext)
    · rfl
  · intro id
    rw [scope?_bind]
    split_ifs
    · rw [Option.map_map]
      rfl
    · rfl
  all_goals rfl

theorem fillsOnly_setContent (h : a < s.contents.size) (v : Value) :
    s.FillsOnly a v (s.setContent a v) := by
  constructor
  · exact content?_setContent_self h
  · intro b hb
    unfold content? setContent
    rw [Array.getElem?_setIfInBounds, if_neg hb.symm]
  all_goals rfl

end Store

namespace Eval

open Template

variable {form head e f c : Value} {operands args extra : List Value} {name : String}
  {scope : ScopeId} {s s₁ : Store} {passes room : Nat} {a : Address}

/-- How a form ends whose last act is to write the value of its last part: as the part does, except
that a returned value has been written. A stop may be reported in another way. -/
inductive WritesLast (report : Stop → Stop) (write : Value → Store → Store → Prop) :
    Result Value → Result Value → Prop
  | returned {v : Value} {s s' : Store} :
      write v s s' → WritesLast report write (.ok v s) (.ok v s')
  | failed {stop : Stop} {s : Store} :
      WritesLast report write (.error stop s) (.error (report stop) s)

theorem WritesLast.of_ok {report : Stop → Stop} {write : Value → Store → Store → Prop} {v : Value}
    {r : Result Value} (h : WritesLast report write (.ok v s) r) :
    ∃ s', r = .ok v s' ∧ write v s s' := by
  cases h with
  | returned hwrite => exact ⟨_, rfl, hwrite⟩

theorem WritesLast.of_error {report : Stop → Stop} {write : Value → Store → Store → Prop}
    {stop : Stop} {r : Result Value} (h : WritesLast report write (.error stop s) r) :
    r = .error (report stop) s := by
  cases h with
  | failed => rfl

def IsDefinition (form : Value) (name : String) (e : Value) : Prop :=
  ∃ id marked info, form = .list id [.sym "def", .sym name, e] marked info

/-- A list that is an application: neither a macro call nor a special form. -/
def IsApplication (form head : Value) (operands : List Value) (scope : ScopeId) (s : Store) :
    Prop :=
  ∃ id marked info, form = .list id (head :: operands) marked info ∧
    macroCall? s form scope = none ∧ head.symbol?.bind SpecialForm.ofName? = none

theorem sizes_le_run (passes room : Nat) (job : Job) (s : Store) :
    s.scopes.size ≤ (storeAfter (run passes room job s)).scopes.size ∧
      s.contents.size ≤ (storeAfter (run passes room job s)).contents.size := by
  set D := Discipline.frame 0 fun _ => True
  have hgood : D.Good s := Discipline.good_frame _ (Nat.zero_le _)
  have hjob : D.JobHolds s job := by
    cases job with
    | eval form scope => exact ⟨Discipline.holds_frame _ _ s form, .inl trivial⟩
    | expand form scope => exact ⟨Discipline.holds_frame _ _ s form, .inl trivial⟩
    | call f args =>
      exact ⟨Discipline.holds_frame _ _ s f, Discipline.allHold_frame _ _ s args⟩
  have hroot (count : Nat) : D.current count rootScope := .inl trivial
  have hlater := later_storeAfter (Discipline.keeps_run hroot passes room s job hjob hgood)
  exact ⟨D.scopes_le hlater, D.contents_le hlater⟩

theorem sizes_le_nestedRun {job : Job} {v : Value}
    (h : nestedRun passes room job s = .ok v s₁) :
    s.scopes.size ≤ s₁.scopes.size ∧ s.contents.size ≤ s₁.contents.size := by
  cases room with
  | zero => cases h
  | succ room =>
    have hsizes := sizes_le_run passes room job s
    have hrun : run passes room job s = .ok v s₁ := h
    rwa [hrun] at hsizes

theorem writesLast_define (hform : IsDefinition form name e) (hplain : NoMacro scope s "def")
    (hscope : scope < s.scopes.size) (passes room : Nat) :
    WritesLast (fun stop => stop) (Store.BindsOnly scope name) (nestedRun passes room (.eval e scope) s)
      (run (passes + 1) room (.eval form scope) s) := by
  obtain ⟨id, marked, info, rfl⟩ := hform
  rw [run_succ]
  cases hpart : nestedRun passes room (.eval e scope) s with
  | ok v s₁ =>
    have hdone : SpecialForm.define.run (nestedRun passes room) [.sym name, e] scope s =
        .ok (.done v) (s₁.bind scope name v) := bind_of_ok hpart
    rw [bind_of_ok ((pass_special hplain rfl _ _).trans hdone)]
    exact .returned (Store.bindsOnly_bind (hscope.trans_le (sizes_le_nestedRun hpart).1) v)
  | error stop s₁ =>
    have hstopped : SpecialForm.define.run (nestedRun passes room) [.sym name, e] scope s =
        .error stop s₁ := bind_of_error hpart
    rw [bind_of_error ((pass_special hplain rfl _ _).trans hstopped)]
    exact .failed

theorem run_application_of_error (hform : IsApplication form head operands scope s) {stop : Stop}
    (h : (nestedRun passes room).evalAll (head :: operands) scope s = .error stop s₁) :
    run (passes + 1) room (.eval form scope) s = .error stop s₁ := by
  obtain ⟨id, marked, info, rfl, hcalled, hname⟩ := hform
  rw [run_succ]
  apply bind_of_error
  rw [pass_application hcalled hname]
  rw [evalAll_cons] at h
  obtain hhead | ⟨f, s₂, hhead, h⟩ := bind_eq_error_iff.1 h
  · exact bind_of_error hhead
  · obtain hoperands | ⟨args, s₃, -, h⟩ := bind_eq_error_iff.1 h
    · exact (bind_of_ok hhead).trans (bind_of_error hoperands)
    · cases h

theorem run_application_of_ok (hform : IsApplication form head operands scope s)
    (h : (nestedRun passes room).evalAll (head :: operands) scope s = .ok (f :: args) s₁) :
    run (passes + 1) room (.eval form scope) s = run passes room (.call f args) s₁ := by
  obtain ⟨id, marked, info, rfl, hcalled, hname⟩ := hform
  have hpass : pass (nestedRun passes room) passes
      (.eval (.list id (head :: operands) marked info) scope) s =
        .ok (.next (.call f args)) s₁ := by
    rw [pass_application hcalled hname]
    rw [evalAll_cons] at h
    obtain ⟨g, s₂, hhead, h⟩ := bind_eq_ok_iff.1 h
    obtain ⟨values, s₃, hoperands, h⟩ := bind_eq_ok_iff.1 h
    obtain ⟨hvalues, rfl⟩ := EStateM.Result.ok.inj h
    obtain ⟨rfl, rfl⟩ := List.cons.inj hvalues
    exact (bind_of_ok hhead).trans (bind_of_ok hoperands)
  rw [run_succ]
  exact bind_of_ok hpass

theorem run_swap (wrapped : Bool) (id : Identity) (info : Value) (args : List Value)
    (passes room : Nat) (s : Store) :
    run (passes + 1) room (.call (.builtin (.core .swap) wrapped id info) args) s =
      inside "swap" (Cell.swap (nestedRun passes room) args) s := by
  rw [run_succ]
  change ((runBuiltin (.core .swap) (nestedRun passes room) passes args >>= fun v =>
    pure (.done v)) >>= Direct.finish (run passes room)) s = _
  rw [bind_assoc]
  exact congrFun (bind_pure _) s

/-- A swap fills its atom after its function has returned. The function is called with the content
that the atom has before. -/
theorem writesLast_swap (hcontent : s.content? a = some c) (f : Value) (extra : List Value)
    (passes room : Nat) : WritesLast (Stop.inside "swap") (Store.FillsOnly a)
      (nestedRun passes room (.call f (c :: extra)) s)
      (inside "swap" (Cell.swap (nestedRun passes room) (.atom a :: f :: extra)) s) := by
  have ha : a < s.contents.size := (Array.getElem?_eq_some_iff.1 hcontent).1
  unfold inside
  rw [swap_of_content hcontent]
  cases hpart : nestedRun passes room (.call f (c :: extra)) s with
  | ok v s₁ =>
    rw [bind_of_ok hpart]
    exact .returned (Store.fillsOnly_setContent (ha.trans_le (sizes_le_nestedRun hpart).2) v)
  | error stop s₁ =>
    rw [bind_of_error hpart]
    exact .failed

theorem address_refuses {cell : Value} (h : ∀ a, cell ≠ .atom a) (function : String) (s : Store) :
    ∃ stop, address function cell s = .error stop s := by
  unfold address
  split
  · next a => exact absurd rfl (h a)
  · have hshown := represent_eq s cell
    cases htext : s.represent cell with
    | ok text =>
      rw [htext] at hshown
      exact ⟨_, bind_of_ok hshown⟩
    | error stop =>
      rw [htext] at hshown
      exact ⟨_, bind_of_error hshown⟩

/-- A swap that does not get an atom and a function leaves the store as it is. -/
theorem swap_refuses (nested : Nested) (h : ¬ ∃ a f extra, args = .atom a :: f :: extra)
    (s : Store) : ∃ stop, inside "swap" (Cell.swap nested args) s = .error stop s := by
  have hswap : ∃ stop, Cell.swap nested args s = .error stop s := by
    match args, h with
    | [], _ => exact ⟨_, rfl⟩
    | [_], _ => exact ⟨_, rfl⟩
    | cell :: f :: extra, h =>
      have hcell : ∀ a, cell ≠ .atom a := by
        rintro a rfl
        exact h ⟨a, f, extra, rfl⟩
      obtain ⟨stop, haddress⟩ := address_refuses hcell "swap!" s
      exact ⟨stop, bind_of_error haddress⟩
  obtain ⟨stop, hswap⟩ := hswap
  unfold inside
  rw [hswap]
  exact ⟨_, rfl⟩

/-- Definitions and swaps write last, within all limits. A definition ends as the evaluation of its
form does, and an application whose head is the builtin that swaps ends as the call of the function
does, after the head and the operands have been evaluated in order. What has been returned is then
bound in the current scope or put into the atom, and nothing else is written. A form that stops,
wherever that is, leaves the store that its parts have left. The function of a swap is called with
the content that the atom has when all operands have been evaluated. -/
theorem writes_come_last (passes room : Nat) (scope : ScopeId) (s : Store) :
    (∀ form name e, IsDefinition form name e → NoMacro scope s "def" → scope < s.scopes.size →
      WritesLast (fun stop => stop) (Store.BindsOnly scope name)
        (nestedRun passes room (.eval e scope) s) (run (passes + 1) room (.eval form scope) s)) ∧
    ∀ form head operands, IsApplication form head operands scope s →
      (∀ stop s₁, (nestedRun (passes + 1) room).evalAll (head :: operands) scope s =
          .error stop s₁ →
        run (passes + 2) room (.eval form scope) s = .error stop s₁) ∧
      ∀ wrapped id info args s₁, (nestedRun (passes + 1) room).evalAll (head :: operands) scope s =
          .ok (.builtin (.core .swap) wrapped id info :: args) s₁ →
        (∀ a f extra c, args = .atom a :: f :: extra → s₁.content? a = some c →
          WritesLast (Stop.inside "swap") (Store.FillsOnly a)
            (nestedRun passes room (.call f (c :: extra)) s₁)
            (run (passes + 2) room (.eval form scope) s)) ∧
        ((¬ ∃ a f extra, args = .atom a :: f :: extra) →
          ∃ stop, run (passes + 2) room (.eval form scope) s = .error stop s₁) := by
  refine ⟨?_, ?_⟩
  · intro form name e hform hplain hscope
    exact writesLast_define hform hplain hscope passes room
  · intro form head operands hform
    refine ⟨fun stop s₁ hstop => run_application_of_error hform hstop, ?_⟩
    intro wrapped id info args s₁ hvalues
    rw [run_application_of_ok hform hvalues, run_swap]
    constructor
    · rintro a f extra c rfl hcontent
      exact writesLast_swap hcontent f extra passes room
    · intro hrefused
      exact swap_refuses _ hrefused s₁

/-- The parts write to the same place. A definition binds its symbol although its form has bound it
to something else, and a swap fills its atom although the function has reset it; the function has
got the content from before. A function that fails after it has reset the atom leaves what it has
put there. -/
theorem writes_come_last_rewriting :
    let s : Store := { Store.empty 40 with
      scopes := #[⟨"repl", none,
        [("a", .atom 0), ("reset!", .builtin (.core .reset) false Value.literalNan .nil),
          ("swap!", .builtin (.core .swap) false Value.literalNan .nil)]⟩]
      contents := #[.int 1] }
    let rewrite : Value := .plainList 2 [.sym "reset!", .sym "a", .bool true]
    let after (e : Value) : Value :=
      .closure 1 ["x"] (.plainList 3 [.sym "do", rewrite, e]) rootScope false .nil
    let swap (f : Value) : Value := .plainList 4 [.sym "swap!", .sym "a", f]
    let define (e : Value) : Value := .plainList 5 [.sym "def", .sym "x", e]
    let twice : Value := .plainList 6 [.sym "do", define (.bool true), .nil]
    (∃ s', run 6 6 (.eval (define twice) rootScope) s = .ok .nil s' ∧
      s'.own? rootScope "x" = some .nil) ∧
    (∃ s', run 6 6 (.eval (swap (after (.sym "x"))) rootScope) s = .ok (.int 1) s' ∧
      s'.content? 0 = some (.int 1)) ∧
    ∃ s', run 6 6 (.eval (swap (after (.sym "y"))) rootScope) s =
      .error (.fault (.unbound "y")) s' ∧ s'.content? 0 = some (.bool true) := by
  intro s rewrite after swap define twice
  have hplain : NoMacro rootScope s "def" := by
    intro owner value h
    cases h
  have happlication (f : Value) : IsApplication (swap f) (.sym "swap!") [.sym "a", f] rootScope s :=
    ⟨4, false, .nil, rfl, rfl, rfl⟩
  have hvalues (e : Value) : (nestedRun 5 6).evalAll [.sym "swap!", .sym "a", after e] rootScope s =
      .ok (.builtin (.core .swap) false Value.literalNan .nil :: [.atom 0, after e]) s := rfl
  refine ⟨?_, ?_, ?_⟩
  · have hdefine := (writes_come_last 5 6 rootScope s).1 (define twice) "x" twice
      ⟨5, false, .nil, rfl⟩ hplain (by decide)
    have hreturned : WritesLast _ (Store.BindsOnly rootScope "x") (.ok .nil _) _ := hdefine
    obtain ⟨s', hrun, hbinds⟩ := hreturned.of_ok
    exact ⟨s', hrun, hbinds.own⟩
  · have hswap := (((writes_come_last 4 6 rootScope s).2 _ _ _ (happlication _)).2 _ _ _ _ _
      (hvalues (.sym "x"))).1 0 _ [] (.int 1) rfl rfl
    have hreturned : WritesLast _ (Store.FillsOnly 0) (.ok (.int 1) _) _ := hswap
    obtain ⟨s', hrun, hfills⟩ := hreturned.of_ok
    exact ⟨s', hrun, hfills.content⟩
  · have hswap := (((writes_come_last 4 6 rootScope s).2 _ _ _ (happlication _)).2 _ _ _ _ _
      (hvalues (.sym "y"))).1 0 _ [] (.int 1) rfl rfl
    have hstopped : WritesLast (Stop.inside "swap") (Store.FillsOnly 0)
      (.error (.fault (.unbound "y")) _) _ := hswap
    exact ⟨_, hstopped.of_error, rfl⟩

end Eval

end SmallLisp
