import SmallLisp.Interpreter
import SmallLisp.Proofs.Datum.Key
import SmallLisp.Proofs.Discipline.Keeps
import SmallLisp.Proofs.Eval.Propagation
import SmallLisp.Proofs.Reader.Grammar
import SmallLisp.Proofs.Value.Collision

/-!
# Map literals

A map literal is merged twice: its forms when it is read, and its values when it is evaluated. Both
times those entries become one whose keys collide, and the others stay.
-/

namespace SmallLisp

namespace Datum

/-- Two data collide when the values that they denote do. -/
def Collides (k l : Datum) : Prop :=
  ∀ next, (k.toValue.run next).1.Collides (l.toValue.run next).1

theorem key?_eq_iff_collides {k l : Datum} (hk : k.key?.isSome) :
    k.key? = l.key? ↔ k.Collides l := by
  have hiff (next : Identity) :
      k.key? = l.key? ↔ (k.toValue.run next).1.Collides (l.toValue.run next).1 := by
    rw [← Discipline.key?_toValue k next] at hk
    rw [← Discipline.key?_toValue k next, ← Discipline.key?_toValue l next]
    exact Value.key?_eq_iff_collides hk
  exact ⟨fun h next => (hiff next).1 h, fun h => (hiff 0).2 (h 0)⟩

theorem merged_collapse {entries : List (Datum × Datum)}
    (h : ∀ entry ∈ entries, ¬ entry.1.IsCollection) :
    Key.Merged Collides entries (Key.collapse key? entries) :=
  (Key.merged_collapse entries).congr fun p hp _ _ =>
    key?_eq_iff_collides ((isSome_key?_iff p.1).2 (h p hp))

end Datum

theorem TokenStream.complete_of_form {ts rest : List Token} {d : Datum} (h : Form ts d)
    {s : TokenStream} (hs : s.tokens = ts ++ rest) (stack : List Pending) :
    ((s.complete stack).1, (s.complete stack).2.tokens) = resume rest (d.settle stack) := by
  obtain ⟨hresult, hrest⟩ := s.complete_eq_consume stack
  rw [hresult, hrest, hs, ← h.reads stack rest]

namespace Eval

open Filter

/-- Entries are evaluated one after the other, each key before its value, to entries with keys. -/
inductive EntriesYield (scope : ScopeId) :
    List (Value × Value) → Store → List (Value × Value) → Store → Prop
  | nil {s : Store} : EntriesYield scope [] s [] s
  | cons {k v key value : Value} {entries evaluated : List (Value × Value)}
      {s s₁ s₂ s₃ : Store} :
      EndsWith (.eval k scope) s (.ok key s₁) → EndsWith (.eval v scope) s₁ (.ok value s₂) →
      key.key?.isSome → EntriesYield scope entries s₂ evaluated s₃ →
      EntriesYield scope ((k, v) :: entries) s ((key, value) :: evaluated) s₃

variable {scope : ScopeId} {s s' s₁ : Store} {entries evaluated : List (Value × Value)}

theorem EntriesYield.isSome_key? (h : EntriesYield scope entries s evaluated s') :
    ∀ entry ∈ evaluated, entry.1.key?.isSome := by
  induction h with
  | nil => simp
  | cons _ _ hkey _ ih => exact List.forall_mem_cons.2 ⟨hkey, ih⟩

theorem evalEntries_cons (nested : Nested) {k v key value : Value} {s₂ : Store}
    (hk : nested.eval k scope s = .ok key s₁) (hv : nested.eval v scope s₁ = .ok value s₂)
    (hkey : key.key?.isSome) : evalEntries nested scope ((k, v) :: entries) s =
      (evalEntries nested scope entries >>= fun evaluated =>
        pure ((key, value) :: evaluated)) s₂ := by
  rw [evalEntries]
  refine (bind_of_ok hk).trans ((bind_of_ok hv).trans ?_)
  rw [if_neg (by simpa using Option.isSome_iff_ne_none.1 hkey)]

theorem EntriesYield.eventually (h : EntriesYield scope entries s evaluated s') :
    ∀ᶠ depth in atTop, evalEntries (Direct.run depth) scope entries s = .ok evaluated s' := by
  induction h with
  | nil => exact .of_forall fun depth => rfl
  | cons hk hv hkey _ ih =>
    filter_upwards [hk.eventually_direct, hv.eventually_direct, ih] with depth hk hv ih
    exact (evalEntries_cons _ hk hv hkey).trans (bind_of_ok ih)

theorem entriesYield_of_direct {depth : ℕ}
    (h : evalEntries (Direct.run depth) scope entries s = .ok evaluated s') :
    EntriesYield scope entries s evaluated s' := by
  induction entries generalizing s evaluated with
  | nil =>
    obtain ⟨rfl, rfl⟩ := EStateM.Result.ok.inj h
    exact .nil
  | cons entry entries ih =>
    rw [evalEntries] at h
    obtain ⟨key, s₁, hk, h⟩ := bind_eq_ok_iff.1 h
    obtain ⟨value, s₂, hv, h⟩ := bind_eq_ok_iff.1 h
    split_ifs at h with hkey
    · cases h
    · obtain ⟨others, s₃, hothers, h⟩ := bind_eq_ok_iff.1 h
      obtain ⟨rfl, rfl⟩ := EStateM.Result.ok.inj h
      exact .cons (endsWith_of_direct hk trivial) (endsWith_of_direct hv trivial)
        (by simpa [Option.isSome_iff_ne_none] using hkey) (ih hothers)

/-- A map form has a value when its entries are evaluated: a new map of what is left of them. -/
theorem endsWith_map_iff {id : Identity} {marked : Bool} {info v : Value} :
    EndsWith (.eval (.map id entries marked info) scope) s (.ok v s') ↔
      ∃ evaluated s₁, EntriesYield scope entries s evaluated s₁ ∧
        newMap evaluated s₁ = .ok v s' := by
  constructor
  · intro h
    obtain ⟨-, depth, hrun⟩ := (endsWith_iff_direct _ _ _).1 h
    cases depth with
    | zero => cases hrun
    | succ depth =>
      obtain ⟨evaluated, s₁, hevaluated, hnew⟩ := bind_eq_ok_iff.1 hrun
      exact ⟨evaluated, s₁, entriesYield_of_direct hevaluated, hnew⟩
  · rintro ⟨evaluated, s₁, hevaluated, hnew⟩
    refine endsWith_of_eventually trivial ?_
    filter_upwards [hevaluated.eventually] with depth hentries
    exact (bind_of_ok hentries).trans hnew

theorem EntriesYield.merged (h : EntriesYield scope entries s evaluated s') :
    Key.Merged Value.Collides evaluated (Key.collapse Value.key? evaluated) :=
  (Key.merged_collapse evaluated).congr fun p hp _ _ =>
    Value.key?_eq_iff_collides (h.isSome_key? p hp)

/-- The entries of a map literal are merged when their keys collide, and the others are kept. This
holds where the literal is read, whatever waits for it and whatever follows it, and where it is
evaluated, in any scope and store. -/
theorem map_literal_merged :
    (∀ {ts rest : List Token} {entries : List (Datum × Datum)} {stream : TokenStream},
      Forms ts (Datum.flatten entries) → (∀ entry ∈ entries, ¬ entry.1.IsCollection) →
      stream.tokens = inBrackets '\x7b' ts ++ rest →
      ∃ left, Key.Merged Datum.Collides entries left ∧
        ∀ stack, ((stream.complete stack).1, (stream.complete stack).2.tokens) =
          resume rest ((Datum.map left).settle stack)) ∧
    ∀ {id : Identity} {entries : List (Value × Value)} {marked : Bool} {info : Value}
      {scope : ScopeId} {s : Store},
      (∀ evaluated s₁, EntriesYield scope entries s evaluated s₁ →
        ∃ new left s', Key.Merged Value.Collides evaluated left ∧
          EndsWith (.eval (.map id entries marked info) scope) s (.ok (.plainMap new left) s')) ∧
      ∀ v s', EndsWith (.eval (.map id entries marked info) scope) s (.ok v s') →
        ∃ evaluated s₁, EntriesYield scope entries s evaluated s₁ := by
  refine ⟨fun hforms hkeys hs => ?_, fun {id entries marked info scope s} => ⟨?_, ?_⟩⟩
  · exact ⟨_, Datum.merged_collapse hkeys, TokenStream.complete_of_form (.map hforms hkeys) hs⟩
  · intro evaluated s₁ hevaluated
    exact ⟨_, _, _, hevaluated.merged, endsWith_map_iff.2 ⟨_, _, hevaluated, rfl⟩⟩
  · intro v s' h
    obtain ⟨evaluated, s₁, hevaluated, -⟩ := endsWith_map_iff.1 h
    exact ⟨evaluated, s₁, hevaluated⟩

theorem lex_one_true : Token.lex "\x7b1 :a true :b\x7d".toList = inBrackets '\x7b'
    [⟨.symbol, ['1']⟩, ⟨.symbol, [':', 'a']⟩, ⟨.symbol, ['t', 'r', 'u', 'e']⟩,
      ⟨.symbol, [':', 'b']⟩] := by
  have htext : "\x7b1 :a true :b\x7d".toList =
      ['\x7b', '1', ' ', ':', 'a', ' ', 't', 'r', 'u', 'e', ' ', ':', 'b', '\x7d'] := rfl
  rw [htext]
  simp [Token.lex_cons, Token.lex_separator, Token.cut, Token.isSeparator, Token.isOpener,
    Token.isCloser, Token.isDelimiter, Text.isBlank, inBrackets, closerOf]

theorem forms_one_true : Forms [⟨.symbol, ['1']⟩, ⟨.symbol, [':', 'a']⟩,
    ⟨.symbol, ['t', 'r', 'u', 'e']⟩, ⟨.symbol, [':', 'b']⟩]
    (Datum.flatten [(.int 1, .kw "a"), (.bool true, .kw "b")]) :=
  .cons (.bare rfl) (.cons (.bare rfl) (.cons (.bare rfl) (.cons (.bare rfl) .nil)))

/-- One and true are merged when they are read, and so are the tuples that two calls of `frexp` give
when they are evaluated, though neither are equal. -/
theorem map_literal_merges_unequal :
    (SmallLisp.readForm "\x7b1 :a true :b\x7d" = .ok (.map [(.int 1, .kw "b")]) ∧
      (Value.int 1).equal (.bool true) = false) ∧
    ∃ a b s₁ s₂ new s',
      EndsWith (.eval (.plainList 0 [.sym "frexp", .sym "inf"]) rootScope) (Interpreter.create 40)
        (.ok a s₁) ∧
      EndsWith (.eval (.plainList 0 [.sym "frexp", .sym "inf"]) rootScope) s₁ (.ok b s₂) ∧
      a.equal b = false ∧
      EndsWith (.eval (.map 0 [(.sym "a", .kw "x"), (.sym "b", .kw "y")] false .nil) rootScope)
        ((s₂.bind rootScope "a" a).bind rootScope "b" b)
        (.ok (.plainMap new [(a, .kw "y")]) s') := by
  refine ⟨⟨?_, rfl⟩, ?_⟩
  · have hreads := Form.reads (.map forms_one_true (by simp [Datum.IsCollection])) [] []
    rw [List.append_nil] at hreads
    rw [readForm_eq_consume, lex_one_true, hreads]
    rfl
  · exact ⟨_, _, _, _, _, _, ⟨trivial, 4, 4, rfl⟩, ⟨trivial, 4, 4, rfl⟩, rfl, ⟨trivial, 2, 1, rfl⟩⟩

/-- The two entries are merged where they are read, and so are the same ones where they are
evaluated. -/
theorem map_literal_merged_one_true :
    (∃ left, Key.Merged Datum.Collides [(.int 1, .kw "a"), (.bool true, .kw "b")] left ∧
      (TokenStream.ofString "\x7b1 :a true :b\x7d").parse.1 = .ok (.map left)) ∧
    ∃ new left s', Key.Merged Value.Collides [(.int 1, .kw "a"), (.bool true, .kw "b")] left ∧
      EndsWith (.eval (.map 0 [(.int 1, .kw "a"), (.bool true, .kw "b")] false .nil) rootScope)
        (Interpreter.create 40) (.ok (.plainMap new left) s') := by
  constructor
  · have htokens : (TokenStream.ofString "\x7b1 :a true :b\x7d").tokens = _ ++ [] :=
      lex_one_true.trans (List.append_nil _).symm
    obtain ⟨left, hmerged, hread⟩ := map_literal_merged.1 forms_one_true
      (by simp [Datum.IsCollection]) htokens
    exact ⟨left, hmerged, congrArg Prod.fst (hread [])⟩
  · have hself (v : Value) (h : Direct.run 1 (.eval v rootScope) (Interpreter.create 40) =
        .ok v (Interpreter.create 40)) :
        EndsWith (.eval v rootScope) (Interpreter.create 40) (.ok v (Interpreter.create 40)) :=
      endsWith_of_direct h trivial
    have hevaluated : EntriesYield rootScope [(.int 1, .kw "a"), (.bool true, .kw "b")]
        (Interpreter.create 40) [(.int 1, .kw "a"), (.bool true, .kw "b")]
        (Interpreter.create 40) :=
      .cons (hself _ rfl) (hself _ rfl) rfl (.cons (hself _ rfl) (hself _ rfl) rfl .nil)
    exact map_literal_merged.2.1 _ _ hevaluated

end Eval

end SmallLisp
