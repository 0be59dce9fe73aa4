import Mathlib.Tactic
import SmallLisp.Proofs.Eval.Unlimited
import SmallLisp.Proofs.Interpreter.TailLoop
import SmallLisp.Proofs.Template.Code
import SmallLisp.Proofs.Value.RoundTrip

/-!
# Data that stand for themselves

The text of a value without symbols, applications and functions in it is a program for the value: it
is read as a form that no scope gives a meaning to, and evaluating the form builds the value again.
Nothing is looked up on the way and nothing is changed but the next identity.
-/

namespace SmallLisp

open Eval Template Value

namespace Datum

/-- A datum that is evaluated to itself and has a text that the reader takes back. The only list is
the empty one, and symbols do not occur. -/
inductive SelfEvaluating : Datum → Prop
  | nil : SelfEvaluating nil
  | bool (b : Bool) : SelfEvaluating (bool b)
  | int {n : ℤ} : n.natAbs < 10 ^ maxDigits → SelfEvaluating (int n)
  | float (x : Flonum) : SelfEvaluating (float x)
  | nan : SelfEvaluating nan
  | str (s : String) : SelfEvaluating (str s)
  | kw {name : String} : IsKeywordName name → SelfEvaluating (kw name)
  | emptyList : SelfEvaluating (list [])
  | vec {items : List Datum} : (∀ d ∈ items, SelfEvaluating d) → SelfEvaluating (vec items)
  | map {entries : List (Datum × Datum)} :
      (∀ entry ∈ entries, SelfEvaluating entry.1) → (∀ entry ∈ entries, SelfEvaluating entry.2) →
      (∀ entry ∈ entries, entry.1.key?.isSome) → Key.Distinct key? entries →
      SelfEvaluating (map entries)

theorem SelfEvaluating.readable {d : Datum} (h : d.SelfEvaluating) : d.Readable := by
  induction h with
  | nil => exact .nil
  | bool b => exact .bool b
  | int hn => exact .int hn
  | float x => exact .float x
  | nan => exact .nan
  | str s => exact .str s
  | kw hname => exact .kw hname
  | emptyList => exact .list (List.forall_mem_nil _)
  | vec _ ih => exact .vec ih
  | map _ _ hkeys hdistinct ihkeys ihvalues => exact .map ihkeys ihvalues hkeys hdistinct

mutual

/-- How deep the elements of collections are nested in a datum. -/
def nesting : Datum → ℕ
  | list items | vec items => nestingAll items
  | map entries => nestingEntries entries
  | _ => 0

def nestingAll : List Datum → ℕ
  | [] => 0
  | d :: rest => max (nesting d + 1) (nestingAll rest)

def nestingEntries : List (Datum × Datum) → ℕ
  | [] => 0
  | (k, d) :: rest => max (max (nesting k + 1) (nesting d + 1)) (nestingEntries rest)

end

theorem nestingAll_le_iff {ds : List Datum} {room : ℕ} :
    nestingAll ds ≤ room ↔ ∀ d ∈ ds, d.nesting < room := by
  induction ds with
  | nil => simp [nestingAll]
  | cons d ds ih => rw [nestingAll, max_le_iff, ih, List.forall_mem_cons, Nat.succ_le_iff]

theorem nestingEntries_le_iff {entries : List (Datum × Datum)} {room : ℕ} :
    nestingEntries entries ≤ room ↔
      ∀ entry ∈ entries, entry.1.nesting < room ∧ entry.2.nesting < room := by
  induction entries with
  | nil => simp [nestingEntries]
  | cons entry entries ih =>
    rw [nestingEntries, max_le_iff, max_le_iff, ih, List.forall_mem_cons, Nat.succ_le_iff,
      Nat.succ_le_iff]

end Datum

/-- A key without the identity of a NaN, as the reader has it. -/
def Key.anonymous : Key → Key
  | nan _ => nan 0
  | k => k

theorem Value.key?_of_datum? {v : Value} {d : Datum} (h : v.datum? = some d) :
    d.key? = v.key?.map Key.anonymous := by
  cases v with
  | list | vec | map =>
    obtain ⟨_, _, rfl⟩ := Option.map_eq_some_iff.1 h
    rfl
  | pair | atom | closure | builtin => cases h
  | float x =>
    obtain rfl := Option.some.inj h
    rw [Datum.key?, Value.key?, Option.map_some, Key.ofFlonum]
    cases x.integer? <;> rfl
  | _ =>
    obtain rfl := Option.some.inj h
    rfl

/-- Entries with distinct keys keep them apart, whichever identities the NaNs among them have. -/
theorem Value.distinct_of_datumEntries? {entries : List (Value × Value)}
    {ds : List (Datum × Datum)} (h : datumEntries? entries = some ds)
    (hdistinct : Key.Distinct Datum.key? ds) : Key.Distinct Value.key? entries := by
  have hkeys : ds.map (fun entry => entry.1.key?) =
      (entries.map fun entry => entry.1.key?).map (Option.map Key.anonymous) := by
    induction entries generalizing ds with
    | nil =>
      obtain rfl := Option.some.inj h
      rfl
    | cons entry entries ih =>
      obtain ⟨k, v⟩ := entry
      obtain ⟨key, hkey, hrest⟩ := Option.bind_eq_some_iff.1 h
      obtain ⟨d, -, hrest⟩ := Option.bind_eq_some_iff.1 hrest
      obtain ⟨ds, hds, rfl⟩ := Option.map_eq_some_iff.1 hrest
      have hothers : Key.Distinct Datum.key? ds := (List.nodup_cons.1 hdistinct).2
      simp only [List.map_cons, key?_of_datum? hkey, ih hds hothers]
  rw [Key.Distinct, hkeys] at hdistinct
  exact hdistinct.of_map

namespace Value

variable {form : Value}

theorem exists_vec {items : List Datum} (h : form.datum? = some (.vec items)) :
    ∃ id values info, form = .vec id values info ∧ datums? values = some items := by
  cases form with
  | vec id values info =>
    obtain ⟨_, hvalues, heq⟩ := Option.map_eq_some_iff.1 h
    cases heq
    exact ⟨id, values, info, rfl, hvalues⟩
  | list | map =>
    obtain ⟨_, _, heq⟩ := Option.map_eq_some_iff.1 h
    cases heq
  | _ => cases h

theorem exists_map {entries : List (Datum × Datum)} (h : form.datum? = some (.map entries)) :
    ∃ id values marked info, form = .map id values marked info ∧
      datumEntries? values = some entries := by
  cases form with
  | map id values marked info =>
    obtain ⟨_, hvalues, heq⟩ := Option.map_eq_some_iff.1 h
    cases heq
    exact ⟨id, values, marked, info, rfl, hvalues⟩
  | list | vec =>
    obtain ⟨_, _, heq⟩ := Option.map_eq_some_iff.1 h
    cases heq
  | _ => cases h

end Value

namespace Eval

variable {α β : Type} {fits fits' : Prop} {gives : α → Prop} {gives' : β → Prop} {s : Store}

/-- How a computation ends that has to fit into a room: with what it is to give if it does, and with
an exhausted stack if not. Either way nothing is changed but the next identity. -/
def Settles (fits : Prop) (gives : α → Prop) (s : Store) : Result α → Prop
  | .ok a s' => fits ∧ gives a ∧ SameState s s'
  | .error stop s' => ¬fits ∧ stop = .stackExhausted ∧ SameState s s'

theorem Settles.congr {r : Result α} (h : Settles fits gives s r) (hfits : fits ↔ fits') :
    Settles fits' gives s r := by
  cases r with
  | ok a s' => exact ⟨hfits.1 h.1, h.2⟩
  | error stop s' => exact ⟨mt hfits.2 h.1, h.2⟩

theorem Settles.bind {x : Eval α} {f : α → Eval β} (hx : Settles fits gives s (x s))
    (hf : ∀ a s', gives a → Settles fits' gives' s' (f a s')) :
    Settles (fits ∧ fits') gives' s ((x >>= f) s) := by
  cases hresult : x s with
  | error stop s₁ =>
    rw [hresult] at hx
    rw [bind_of_error hresult]
    exact ⟨fun h => hx.1 h.1, hx.2⟩
  | ok a s₁ =>
    rw [hresult] at hx
    rw [bind_of_ok hresult]
    have hrest := hf a s₁ hx.2.1
    cases hend : f a s₁ with
    | ok b s₂ =>
      rw [hend] at hrest
      exact ⟨⟨hx.1, hrest.1⟩, hrest.2.1, hx.2.2.trans hrest.2.2⟩
    | error stop s₂ =>
      rw [hend] at hrest
      exact ⟨fun h => hrest.1 h.2, hrest.2.1, hx.2.2.trans hrest.2.2⟩

theorem Settles.finish {x : Eval α} {f : α → Eval β} (hx : Settles fits gives s (x s))
    (hf : ∀ a s', gives a → ∃ b s'', f a s' = .ok b s'' ∧ gives' b ∧ SameState s' s'') :
    Settles fits gives' s ((x >>= f) s) := by
  have hlast (a : α) (s' : Store) (ha : gives a) : Settles True gives' s' (f a s') := by
    obtain ⟨b, s'', hb, hgives, hsame⟩ := hf a s' ha
    rw [hb]
    exact ⟨trivial, hgives, hsame⟩
  exact (hx.bind hlast).congr (by rw [and_true])

section

variable {nested : Nested} {scope : ScopeId} (fits : Datum → Prop)

theorem settles_evalAll {items : List Value} {ds : List Datum}
    (hitems : Value.datums? items = some ds)
    (h : ∀ d ∈ ds, ∀ form s, form.datum? = some d →
      Settles (fits d) (fun w => w.datum? = some d) s (nested.eval form scope s)) (s : Store) :
    Settles (∀ d ∈ ds, fits d) (fun ws => Value.datums? ws = some ds) s
      (nested.evalAll items scope s) := by
  induction items generalizing ds s with
  | nil =>
    obtain rfl := Option.some.inj hitems
    exact ⟨List.forall_mem_nil _, rfl, SameState.refl s⟩
  | cons form items ih =>
    obtain ⟨d, hd, hrest⟩ := Option.bind_eq_some_iff.1 hitems
    obtain ⟨ds, hds, rfl⟩ := Option.map_eq_some_iff.1 hrest
    rw [List.forall_mem_cons] at h
    unfold Nested.evalAll at ih ⊢
    rw [List.mapM_cons, List.forall_mem_cons]
    refine (h.1 form s hd).bind fun w s₁ hw => (ih hds h.2 s₁).finish fun ws s₂ hws => ?_
    have hall : datums? (w :: ws) = some (d :: ds) := by
      simp only [datums?, hw, hws]
      rfl
    exact ⟨_, _, rfl, hall, SameState.refl s₂⟩

theorem settles_evalEntries {entries : List (Value × Value)} {ds : List (Datum × Datum)}
    (hentries : Value.datumEntries? entries = some ds) (hkeys : ∀ e ∈ ds, e.1.key?.isSome)
    (hk : ∀ e ∈ ds, ∀ form s, form.datum? = some e.1 →
      Settles (fits e.1) (fun w => w.datum? = some e.1) s (nested.eval form scope s))
    (hv : ∀ e ∈ ds, ∀ form s, form.datum? = some e.2 →
      Settles (fits e.2) (fun w => w.datum? = some e.2) s (nested.eval form scope s))
    (s : Store) :
    Settles (∀ e ∈ ds, fits e.1 ∧ fits e.2) (fun es => Value.datumEntries? es = some ds) s
      (evalEntries nested scope entries s) := by
  induction entries generalizing ds s with
  | nil =>
    obtain rfl := Option.some.inj hentries
    exact ⟨List.forall_mem_nil _, rfl, SameState.refl s⟩
  | cons entry entries ih =>
    obtain ⟨k, v⟩ := entry
    obtain ⟨key, hkey, hrest⟩ := Option.bind_eq_some_iff.1 hentries
    obtain ⟨d, hd, hrest⟩ := Option.bind_eq_some_iff.1 hrest
    obtain ⟨ds, hds, rfl⟩ := Option.map_eq_some_iff.1 hrest
    rw [List.forall_mem_cons] at hkeys hk hv
    rw [evalEntries, List.forall_mem_cons, and_assoc]
    refine (hk.1 k s hkey).bind fun x s₁ hx => (hv.1 v s₁ hd).bind fun y s₂ hy => ?_
    have hsome : ¬x.key?.isNone = true := by
      have hkey := hkeys.1
      rw [Value.key?_of_datum? hx, Option.isSome_map] at hkey
      simpa using Option.isSome_iff_ne_none.1 hkey
    rw [if_neg hsome]
    refine (ih hds hkeys.2 hk.2 hv.2 s₂).finish fun es s₃ hes => ?_
    have hall : datumEntries? ((x, y) :: es) = some ((key, d) :: ds) := by
      simp only [datumEntries?, hx, hy, hes]
      rfl
    exact ⟨_, _, rfl, hall, SameState.refl s₃⟩

end

theorem settles_nestedRun {gives : Value → Prop} {d : Datum} {job : Job} {passes room : ℕ}
    (hroom : room ≤ passes)
    (h : ∀ passes room, room ≤ passes →
      Settles (d.nesting ≤ room) gives s (run (passes + 1) room job s)) :
    Settles (d.nesting < room) gives s (nestedRun passes room job s) := by
  cases room with
  | zero => exact ⟨Nat.not_lt_zero _, rfl, SameState.refl s⟩
  | succ room =>
    obtain ⟨passes, rfl⟩ := Nat.exists_eq_add_of_le' (Nat.one_le_of_lt hroom)
    exact (h passes room (Nat.le_of_succ_le_succ hroom)).congr Nat.lt_succ_iff.symm

theorem run_evalAtom {form : Value} {scope : ScopeId}
    (hform : ∀ nested limit, pass nested limit (.eval form scope) =
      evalAtom nested form scope >>= fun v => pure (.done v)) (passes room : ℕ) :
    run (passes + 1) room (.eval form scope) = evalAtom (nestedRun passes room) form scope := by
  rw [run_succ, hform, bind_assoc]
  simp only [pure_bind, Direct.finish, bind_pure]

/-- Evaluating a form with this content builds the content again if it is not nested deeper than
there is room. -/
def Rebuilds (scope : ScopeId) (d : Datum) : Prop :=
  ∀ (form : Value) (s : Store) (passes room : ℕ), form.datum? = some d → room ≤ passes →
    Settles (d.nesting ≤ room) (fun w => w.datum? = some d) s
      (run (passes + 1) room (.eval form scope) s)

theorem rebuilds_of_pass {scope : ScopeId} {d : Datum} (hnesting : d.nesting = 0)
    (hpass : ∀ form : Value, form.datum? = some d → ∀ nested limit s,
      pass nested limit (.eval form scope) s = .ok (.done form) s) : Rebuilds scope d := by
  intro form s passes room hform _
  have hrun : run (passes + 1) room (.eval form scope) s = .ok form s := by
    rw [run_succ]
    exact bind_of_ok (hpass form hform _ _ s)
  rw [hrun]
  exact ⟨hnesting ▸ Nat.zero_le room, hform, SameState.refl s⟩

theorem rebuilds_vec {scope : ScopeId} {items : List Datum} (h : ∀ d ∈ items, Rebuilds scope d) :
    Rebuilds scope (.vec items) := by
  intro form s passes room hform hroom
  obtain ⟨id, values, info, rfl, hvalues⟩ := exists_vec hform
  rw [run_evalAtom fun _ _ => rfl, Datum.nesting, Datum.nestingAll_le_iff]
  refine (settles_evalAll (fun d => d.nesting < room) hvalues (fun d hd form s hd' => ?_)
    s).finish fun ws s₁ hws => ?_
  · exact settles_nestedRun hroom fun passes room => h d hd form s passes room hd'
  · exact ⟨_, _, rfl, congrArg (Option.map Datum.vec) hws, rfl⟩

theorem rebuilds_map {scope : ScopeId} {entries : List (Datum × Datum)}
    (hkeys : ∀ e ∈ entries, e.1.key?.isSome) (hdistinct : Key.Distinct Datum.key? entries)
    (hk : ∀ e ∈ entries, Rebuilds scope e.1) (hv : ∀ e ∈ entries, Rebuilds scope e.2) :
    Rebuilds scope (.map entries) := by
  intro form s passes room hform hroom
  obtain ⟨id, values, marked, info, rfl, hvalues⟩ := exists_map hform
  rw [run_evalAtom fun _ _ => rfl, Datum.nesting, Datum.nestingEntries_le_iff]
  refine (settles_evalEntries (fun d => d.nesting < room) hvalues hkeys
    (fun e he form s he' => ?_) (fun e he form s he' => ?_) s).finish fun es s₁ hes => ?_
  · exact settles_nestedRun hroom fun passes room => hk e he form s passes room he'
  · exact settles_nestedRun hroom fun passes room => hv e he form s passes room he'
  · -- The keys are the keys of the form, so that no two entries become one.
    have hcollapse := Key.collapse_of_distinct (Value.distinct_of_datumEntries? hes hdistinct)
    have hleft : datumEntries? (Key.collapse Value.key? es) = some entries := by
      rw [hcollapse, hes]
    exact ⟨_, _, rfl, congrArg (Option.map Datum.map) hleft, rfl⟩

/-- Data that stand for themselves are built again. -/
theorem rebuilds {d : Datum} (h : d.SelfEvaluating) (scope : ScopeId) : Rebuilds scope d := by
  have hliteral {d : Datum} (hd : d.isLiteral = true) : Rebuilds scope d := by
    have hnesting : d.nesting = 0 := by cases d <;> first | rfl | cases hd
    exact rebuilds_of_pass hnesting fun _ hform _ _ s => pass_literal hform hd _ _ scope s
  induction h with
  | nil | bool | int | float | nan | str | kw => exact hliteral rfl
  | emptyList =>
    refine rebuilds_of_pass rfl fun form hform nested limit s => ?_
    obtain ⟨id, items, marked, info, rfl, hitems⟩ := exists_list hform
    cases hitems
    rfl
  | vec _ ih => exact rebuilds_vec ih
  | map _ _ hkeys hdistinct ihkeys ihvalues => exact rebuilds_map hkeys hdistinct ihkeys ihvalues

/-- Without a limit the content is built again however deep it is nested. -/
theorem endsWith_of_selfEvaluating {d : Datum} (h : d.SelfEvaluating) {form : Value}
    (hform : form.datum? = some d) (scope : ScopeId) (s : Store) :
    ∃ w s', EndsWith (.eval form scope) s (.ok w s') ∧ w.datum? = some d ∧ SameState s s' := by
  have hrun := rebuilds h scope form s d.nesting d.nesting hform le_rfl
  cases hresult : run (d.nesting + 1) d.nesting (.eval form scope) s with
  | ok w s' =>
    rw [hresult] at hrun
    exact ⟨w, s', ⟨trivial, _, _, hresult⟩, hrun.2⟩
  | error stop s' =>
    rw [hresult] at hrun
    exact absurd le_rfl hrun.1

theorem sameState_of_readForm {text : String} {v : Value} {s s' : Store}
    (h : readForm text s = .ok v s') : SameState s s' := by
  obtain ⟨d, -, hd⟩ := readForm_eq_ok_iff.1 h
  obtain ⟨-, rfl⟩ := EStateM.Result.ok.inj hd
  rfl

end Eval

namespace Interpreter

variable {d : Datum} {form : Value}

theorem settles_evaluate (h : d.SelfEvaluating) (hform : form.datum? = some d) (scope : ScopeId)
    (s : Store) : Settles (d.nesting ≤ roomLimit) (fun w => w.datum? = some d) s
      (evaluate form scope s) := by
  have hroom : roomLimit ≤ passLimit - 1 := by decide
  exact rebuilds h scope form s (passLimit - 1) roomLimit hform hroom

/-- Reading, evaluating and printing give the text back, unless there is no room for it. -/
theorem rep_text (h : d.SelfEvaluating) (s : Store) :
    ∃ s', SameState s s' ∧ rep d.text s =
      if d.nesting ≤ roomLimit then .ok d.text s' else .error .stackExhausted s' := by
  obtain ⟨form, s₁, hread, hform⟩ := readForm_text h.readable s
  have hsame := sameState_of_readForm hread
  have hevaluate := settles_evaluate h hform rootScope s₁
  unfold rep
  rw [bind_of_ok hread]
  cases hresult : evaluate form rootScope s₁ with
  | ok w s₂ =>
    rw [hresult] at hevaluate
    obtain ⟨hfits, hw, hsame'⟩ := hevaluate
    refine ⟨s₂, hsame.trans hsame', ?_⟩
    rw [if_pos hfits, bind_of_ok hresult, print_eq, s₂.print_of_readable hw h.readable]
  | error stop s₂ =>
    rw [hresult] at hevaluate
    obtain ⟨hfits, rfl, hsame'⟩ := hevaluate
    refine ⟨s₂, hsame.trans hsame', ?_⟩
    rw [if_neg hfits, bind_of_error hresult]

end Interpreter

/-- The text of a value that is made of constants, the empty list, vectors and maps is a program for
the value: in every store and every scope it is read and evaluated to a value of the same content,
and nothing is changed but the next identity. The interpreter answers the text with the text itself,
unless the collections are nested too deep for the stack. -/
theorem printed_data_evaluate_to_themselves {v : Value} {d : Datum} (hv : v.datum? = some d)
    (hd : d.SelfEvaluating) :
    ∃ text, (∀ s : Store, s.print .readable v = .ok text) ∧
      (∀ (s : Store) (scope : ScopeId), ∃ form s₁ w s₂, Eval.readForm text s = .ok form s₁ ∧
        EndsWith (.eval form scope) s₁ (.ok w s₂) ∧ v.SameContent w ∧ SameState s s₂) ∧
      ∀ s : Store, ∃ s', SameState s s' ∧ Interpreter.rep text s =
        if d.nesting ≤ Interpreter.roomLimit then .ok text s' else .error .stackExhausted s' := by
  refine ⟨d.text, fun s => s.print_of_readable hv hd.readable, fun s scope => ?_,
    Interpreter.rep_text hd⟩
  obtain ⟨form, s₁, hread, hform⟩ := readForm_text hd.readable s
  obtain ⟨w, s₂, heval, hw, hsame⟩ := endsWith_of_selfEvaluating hd hform scope s₁
  have hcontent : v.SameContent w := ⟨by rw [hv]; rfl, hv.trans hw.symm⟩
  exact ⟨form, s₁, w, s₂, hread, heval, hcontent, (sameState_of_readForm hread).trans hsame⟩

/-- A vector of the empty list and a map from a NaN to an infinity and from one to a text. -/
theorem printed_data_evaluate_to_themselves_nested :
    ∃ text, (∀ s : Store, s.print .readable (.plainVec 1 [.plainList 2 [],
        .plainMap 3 [(.nan 4, .float (.infinity true)), (.int 1, .str "x\x22")]]) = .ok text) ∧
      ∀ s : Store, ∃ s', SameState s s' ∧ Interpreter.rep text s = .ok text s' := by
  have hd : Datum.SelfEvaluating (.vec [.list [],
      .map [(.nan, .float (.infinity true)), (.int 1, .str "x\x22")]]) := by
    have hone : (1 : ℤ).natAbs < 10 ^ maxDigits := Nat.one_lt_pow (by decide) (by decide)
    refine .vec ?_
    simp only [List.forall_mem_cons, List.not_mem_nil, false_implies, implies_true, and_true]
    refine ⟨.emptyList, .map ?_ ?_ ?_ ?_⟩
    · simpa using ⟨.nan, .int hone⟩
    · simpa using ⟨.float _, .str _⟩
    · simp [Datum.key?]
    · simp [Key.Distinct, Datum.key?]
  obtain ⟨text, hprint, -, hrep⟩ := printed_data_evaluate_to_themselves
    (v := .plainVec 1 [.plainList 2 [],
      .plainMap 3 [(.nan 4, .float (.infinity true)), (.int 1, .str "x\x22")]]) rfl hd
  refine ⟨text, hprint, fun s => ?_⟩
  obtain ⟨s', hsame, hs'⟩ := hrep s
  rw [if_pos (by decide)] at hs'
  exact ⟨s', hsame, hs'⟩

end SmallLisp
