import Mathlib.Tactic
import SmallLisp.Proofs.Discipline.Run

/-!
# What an evaluation leaves alone

An evaluation binds symbols in the scope that it was given, in scopes that it makes itself and,
through the builtin `eval`, in the root scope. All other bindings stay as they are. No scope is
renamed or moved, no symbol is unbound, and the output only grows.
-/

namespace SmallLisp

def Eval.storeAfter {α : Type} : Eval.Result α → Store
  | .ok _ s => s
  | .error _ s => s

/-- A store may follow another one when only the given scopes may be written. -/
structure Frame (writable : ScopeId → Prop) (s s' : Store) : Prop where
  scope {id : ScopeId} {scope : Scope} : s.scope? id = some scope →
    ∃ scope', s'.scope? id = some scope' ∧ scope'.name = scope.name ∧
      scope'.outer = scope.outer ∧
      (∀ name, (scope.bindings.get? name).isSome → (scope'.bindings.get? name).isSome) ∧
      (¬ writable id → scope'.bindings = scope.bindings)
  output : ∃ text, s'.output = s.output ++ text

namespace Frame

variable {writable : ScopeId → Prop} {s s' s'' : Store}

theorem of_scopes (h : s'.scopes = s.scopes) {text : String} (hout : s'.output = s.output ++ text) :
    Frame writable s s' := by
  constructor
  · intro id scope hscope
    have hscope' : s'.scope? id = some scope := by
      unfold Store.scope? at hscope ⊢
      rwa [h]
    exact ⟨scope, hscope', rfl, rfl, fun _ hname => hname, fun _ => rfl⟩
  · exact ⟨text, hout⟩

theorem refl (s : Store) : Frame writable s s := of_scopes rfl (String.append_empty).symm

theorem trans (h : Frame writable s s') (h' : Frame writable s' s'') : Frame writable s s'' := by
  constructor
  · intro id scope hscope
    obtain ⟨scope', hscope', hname, houter, hkept, hsame⟩ := h.scope hscope
    obtain ⟨scope'', hscope'', hname', houter', hkept', hsame'⟩ := h'.scope hscope'
    refine ⟨scope'', hscope'', hname'.trans hname, houter'.trans houter, ?_, ?_⟩
    · exact fun name hbound => hkept' name (hkept name hbound)
    · exact fun hwritable => (hsame' hwritable).trans (hsame hwritable)
  · obtain ⟨text, htext⟩ := h.output
    obtain ⟨text', htext'⟩ := h'.output
    exact ⟨text ++ text', by rw [htext', htext, String.append_assoc]⟩

theorem mono {writable' : ScopeId → Prop} (h : Frame writable s s')
    (hscopes : ∀ id, id < s.scopes.size → writable id → writable' id) :
    Frame writable' s s' := by
  constructor
  · intro id scope hscope
    obtain ⟨scope', hscope', hname, houter, hkept, hsame⟩ := h.scope hscope
    refine ⟨scope', hscope', hname, houter, hkept, fun hnot => hsame fun hwritable => ?_⟩
    exact hnot (hscopes id (Discipline.lt_of_scope? hscope) hwritable)
  · exact h.output

theorem size_le (h : Frame writable s s') : s.scopes.size ≤ s'.scopes.size := by
  by_contra hlt
  have hexists : s.scope? s'.scopes.size = some s.scopes[s'.scopes.size] :=
    Array.getElem?_eq_getElem (by omega)
  obtain ⟨scope', hscope', -⟩ := h.scope hexists
  exact absurd (Discipline.lt_of_scope? hscope') (lt_irrefl _)

theorem bind {id : ScopeId} (hid : writable id) (name : String) (v : Value) :
    Frame writable s (s.bind id name v) := by
  constructor
  · intro other scope hscope
    rw [Store.scope?_bind, hscope]
    split_ifs with heq
    · refine ⟨_, rfl, rfl, rfl, fun text hbound => ?_, fun hnot => absurd (heq ▸ hid) hnot⟩
      rw [Bindings.get?_set]
      split_ifs
      · rfl
      · exact hbound
    · exact ⟨scope, rfl, rfl, rfl, fun _ hbound => hbound, fun _ => rfl⟩
  · exact ⟨"", String.append_empty.symm⟩

theorem addScope (outer : Option ScopeId) (name : String) :
    Frame writable s (s.addScope outer name).2 := by
  constructor
  · intro id scope hscope
    have hne : id ≠ s.scopes.size := (Discipline.lt_of_scope? hscope).ne
    rw [Store.scope?_addScope, if_neg hne]
    exact ⟨scope, hscope, rfl, rfl, fun _ hbound => hbound, fun _ => rfl⟩
  · exact ⟨"", String.append_empty.symm⟩

end Frame

/-- A store may follow another one when the log has records about the course of evaluations only
that it had not before, and records what it did before. -/
def LogFrame (s s' : Store) : Prop :=
  s'.logLevel = s.logLevel ∧ ∃ records : List LogRecord,
    s'.log.toList = s.log.toList ++ records ∧ ∀ r ∈ records, r.level = Eval.debugLevel

namespace LogFrame

variable {s s' s'' : Store}

theorem of_log (h : s'.log = s.log) (hlevel : s'.logLevel = s.logLevel) : LogFrame s s' :=
  ⟨hlevel, [], by rw [h, List.append_nil], by simp⟩

theorem refl (s : Store) : LogFrame s s := of_log rfl rfl

theorem trans (h : LogFrame s s') (h' : LogFrame s' s'') : LogFrame s s'' := by
  obtain ⟨hlevel, records, hlog, hrecords⟩ := h
  obtain ⟨hlevel', records', hlog', hrecords'⟩ := h'
  refine ⟨hlevel'.trans hlevel, records ++ records', ?_, ?_⟩
  · rw [hlog', hlog, List.append_assoc]
  · exact List.forall_mem_append.2 ⟨hrecords, hrecords'⟩

theorem debug (s : Store) (logger message : String) :
    LogFrame s (s.record Eval.debugLevel logger message) := by
  unfold Store.record
  split_ifs
  · exact ⟨rfl, [⟨Eval.debugLevel, logger, message⟩], Array.toList_push, by simp⟩
  · exact refl s

end LogFrame

namespace Discipline

/-- Forms are evaluated in the writable scopes and in the scopes that were not there when there
were `count` of them. Nothing is asked of values. -/
def frame (count : Nat) (writable : ScopeId → Prop) : Discipline where
  later s s' := Frame (fun id => writable id ∨ count ≤ id) s s' ∧
    s.contents.size ≤ s'.contents.size ∧ LogFrame s s'
  captured _ _ := True
  current _ id := writable id ∨ count ≤ id
  address _ _ := True
  params _ := True
  entries _ := True
  pairs _ _ := True
  scopeCount := count
  atomCount := 0
  refl s := ⟨.refl s, le_rfl, .refl s⟩
  trans h h' := ⟨h.1.trans h'.1, h.2.1.trans h'.2.1, h.2.2.trans h'.2.2⟩
  scopes_le h := h.1.size_le
  contents_le h := h.2.1
  captured_mono _ _ := trivial
  captured_succ _ := .inl trivial
  current_mono _ h := h
  current_new h := .inr h
  captured_of_current _ := trivial
  address_mono _ _ := trivial
  address_succ _ := .inl trivial
  address_new _ := trivial
  params_ok _ := trivial
  entries_ok _ _ := trivial
  pairs_ok _ _ := trivial
  identity s next := ⟨.of_scopes rfl String.append_empty.symm, le_rfl, .of_log rfl rfl⟩
  write s text := ⟨.of_scopes rfl rfl, le_rfl, .of_log rfl rfl⟩
  record s logger message := by
    have hlog := LogFrame.debug s logger message
    unfold Store.record at hlog ⊢
    split_ifs at hlog ⊢
    · exact ⟨.of_scopes rfl String.append_empty.symm, le_rfl, hlog⟩
    · exact ⟨.refl s, le_rfl, hlog⟩
  bind h name value := ⟨.bind h name value, le_rfl, .of_log rfl rfl⟩
  addScope _ name := ⟨.addScope _ name, le_rfl, .of_log rfl rfl⟩
  addContent _ := by
    refine ⟨.of_scopes rfl String.append_empty.symm, ?_, .of_log rfl rfl⟩
    rw [Store.size_addContent]
    exact Nat.le_succ _

instance (count : Nat) (writable : ScopeId → Prop) : (frame count writable).Rewriting where
  setContent _ value := by
    refine ⟨.of_scopes rfl String.append_empty.symm, ?_, .of_log rfl rfl⟩
    rw [Store.size_setContent]

mutual

theorem holds_frame (count : Nat) (writable : ScopeId → Prop) (s : Store) :
    (v : Value) → (frame count writable).Holds s v
  | .nil => .nil
  | .bool b => .bool b
  | .int n => .int n
  | .float x => .float x
  | .nan id => .nan id
  | .str text => .str text
  | .sym name => .sym name
  | .kw name => .kw name
  | .list _ items _ info =>
    .list (allHold_frame count writable s items) (holds_frame count writable s info)
  | .vec _ items info =>
    .vec (allHold_frame count writable s items) (holds_frame count writable s info)
  | .map _ entries _ info =>
    have hentries := entriesHold_frame count writable s entries
    .map (fun e he => (hentries e he).1) (fun e he => (hentries e he).2) trivial
      (holds_frame count writable s info)
  | .pair _ first second =>
    .pair (holds_frame count writable s first) (holds_frame count writable s second) trivial
  | .atom _ => .atom trivial
  | .closure _ _ body _ _ info =>
    .closure trivial (holds_frame count writable s body) trivial (holds_frame count writable s info)
  | .builtin _ _ _ info => .builtin (holds_frame count writable s info)

theorem allHold_frame (count : Nat) (writable : ScopeId → Prop) (s : Store) :
    (vs : List Value) → (frame count writable).AllHold s vs
  | [] => List.forall_mem_nil _
  | v :: rest => List.forall_mem_cons.2
    ⟨holds_frame count writable s v, allHold_frame count writable s rest⟩

theorem entriesHold_frame (count : Nat) (writable : ScopeId → Prop) (s : Store) :
    (entries : List (Value × Value)) →
      ∀ e ∈ entries, (frame count writable).Holds s e.1 ∧ (frame count writable).Holds s e.2
  | [] => List.forall_mem_nil _
  | (k, v) :: rest => List.forall_mem_cons.2
    ⟨⟨holds_frame count writable s k, holds_frame count writable s v⟩,
      entriesHold_frame count writable s rest⟩

end

theorem good_frame {count : Nat} (writable : ScopeId → Prop) {s : Store}
    (h : count ≤ s.scopes.size) : (frame count writable).Good s where
  binding _ _ := holds_frame count writable s _
  outer _ _ _ := trivial
  content _ _ := holds_frame count writable s _
  scopeCount_le := h
  atomCount_le := Nat.zero_le _

end Discipline

namespace Eval

/-- The meaning of the builtins with `eval` doing nothing. -/
def withoutEval : Meaning
  | .eval => fun _ _ _ => return .nil
  | f => runBuiltin f

theorem withoutEval_eq {f : Builtin} (h : f ≠ .eval) : withoutEval f = runBuiltin f := by
  cases f with
  | eval => exact absurd rfl h
  | core f => rfl
  | numeric f => rfl

theorem withoutEval_keeps (D : Discipline) [D.Rewriting] : D.MeaningKeeps withoutEval := by
  intro f nested limit s args hnested hargs
  by_cases heval : f = .eval
  · subst heval
    exact Discipline.keeps_pure .nil
  · rw [withoutEval_eq heval]
    exact Discipline.keeps_runBuiltin f (fun h => absurd h heval) (fun _ => inferInstance) hnested
      limit hargs

theorem later_storeAfter {α : Type} {D : Discipline} {s : Store} {post : Store → α → Prop}
    {r : Result α} (h : D.Kept s post r) : D.later s (storeAfter r) := by
  cases r with
  | ok v s' => exact h.2.1
  | error stop s' => exact h.2.1

/-- An evaluation writes the scope that it was given, and the root scope besides if it applies
`eval`. It leaves the other scopes alone that were there before, it unbinds, renames and moves
nothing, and it appends to the output, whether it returns or stops. -/
theorem eval_frame (passes room : Nat) (form : Value) (scope : ScopeId) (s : Store) :
    Frame
      (fun id => id = scope ∨ id = rootScope ∧ Applies .eval passes room (.eval form scope) s)
      s (storeAfter (run passes room (.eval form scope) s)) := by
  set writable : ScopeId → Prop := fun id =>
    id = scope ∨ id = rootScope ∧ Applies .eval passes room (.eval form scope) s
  set D := Discipline.frame s.scopes.size writable
  have hgood : D.Good s := Discipline.good_frame writable le_rfl
  have hjob : D.JobHolds s (.eval form scope) :=
    ⟨Discipline.holds_frame _ _ s form, .inl (.inl rfl)⟩
  have hkept : D.Kept s D.Holds (run passes room (.eval form scope) s) := by
    by_cases happlies : Applies .eval passes room (.eval form scope) s
    · have hroot (count : Nat) : D.current count rootScope := .inl (.inr ⟨rfl, happlies⟩)
      exact Discipline.keeps_run hroot passes room s _ hjob hgood
    · have hsame : runWith withoutEval passes room (.eval form scope) s =
          run passes room (.eval form scope) s := by
        by_contra hne
        exact happlies ⟨withoutEval, fun f hf => withoutEval_eq hf, hne⟩
      rw [← hsame]
      exact Discipline.keeps_runWith (withoutEval_keeps D) passes room s _ hjob hgood
  exact (later_storeAfter hkept).1.mono fun id hlt hwritable =>
    hwritable.resolve_right (Nat.not_le.2 hlt)

end Eval

end SmallLisp
