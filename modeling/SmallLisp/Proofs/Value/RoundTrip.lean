import Mathlib.Tactic
import SmallLisp.Proofs.Eval.Laws
import SmallLisp.Proofs.Value.Content

/-!
# Printing and reading

A readable value is read back from its printed text up to identities and metadata, and whatever a
text is read as is readable, so that printing and reading go on forever with one text.
-/

namespace SmallLisp

namespace Eval

variable {s s' : Store} {v : Value} {d : Datum} {text : String}

theorem readForm_eq_ok_iff :
    readForm text s = .ok v s' ↔ ∃ d, SmallLisp.readForm text = .ok d ∧ ofDatum d s = .ok v s' := by
  unfold readForm
  cases SmallLisp.readForm text with
  | ok d => simp
  | error fault => simp [throw_ne_ok]

theorem datum?_of_ofDatum (h : ofDatum d s = .ok v s') : v.datum? = some d := by
  obtain ⟨rfl, -⟩ := EStateM.Result.ok.inj h
  exact Datum.datum?_toValue d s.nextIdentity

theorem readForm_text (h : d.Readable) (s : Store) :
    ∃ v s', readForm d.text s = .ok v s' ∧ v.datum? = some d := by
  refine ⟨_, _, readForm_eq_ok_iff.2 ⟨d, Datum.readForm_chars h, rfl⟩, ?_⟩
  exact datum?_of_ofDatum rfl

theorem readable_of_readForm (h : readForm text s = .ok v s') : v.Readable := by
  obtain ⟨d, hd, hv⟩ := readForm_eq_ok_iff.1 h
  exact ⟨d, datum?_of_ofDatum hv, Datum.readable_of_readForm hd⟩

end Eval

/-- A readable value has a text that is read as a value of the same content. -/
theorem Value.Readable.read_print {v : Value} (h : v.Readable) (s : Store) :
    ∃ text, s.print .readable v = .ok text ∧
      ∀ s₁ : Store, ∃ w s₂, Eval.readForm text s₁ = .ok w s₂ ∧ v.SameContent w ∧
        ∀ s₃ : Store, s₃.print .readable w = .ok text := by
  obtain ⟨d, hv, hd⟩ := h
  refine ⟨d.text, s.print_of_readable hv hd, fun s₁ => ?_⟩
  obtain ⟨w, s₂, hread, hw⟩ := Eval.readForm_text hd s₁
  exact ⟨w, s₂, hread, ⟨by simp [hv], hv.trans hw.symm⟩, fun s₃ => s₃.print_of_readable hw hd⟩

/-- Printing and reading undo one another: every readable value is read back from its text, and
every value that is read from some text is readable, so that it has one text forever. -/
theorem print_read_round_trip :
    (∀ (s : Store) (v : Value), v.Readable →
      ∃ text w s', s.print .readable v = .ok text ∧ Eval.readForm text s = .ok w s' ∧
        v.SameContent w) ∧
    ∀ (text : String) (s s' : Store) (v : Value), Eval.readForm text s = .ok v s' →
      v.Readable ∧ ∃ printed w s'', s'.print .readable v = .ok printed ∧
        Eval.readForm printed s' = .ok w s'' ∧ v.SameContent w ∧
        s''.print .readable w = .ok printed := by
  constructor
  · intro s v hv
    obtain ⟨text, hprint, hread⟩ := hv.read_print s
    obtain ⟨w, s', hw, hsame, -⟩ := hread s
    exact ⟨text, w, s', hprint, hw, hsame⟩
  · intro text s s' v hread
    have hv := Eval.readable_of_readForm hread
    obtain ⟨printed, hprint, hread⟩ := hv.read_print s'
    obtain ⟨w, s'', hw, hsame, hagain⟩ := hread s'
    exact ⟨hv, printed, w, s'', hprint, hw, hsame, hagain s''⟩

/-- A vector of a negative integer, a map from a keyword to a text with a quote in it, and a list
that is made of a symbol. -/
theorem round_trip_nested :
    ∃ text w s' printed w' s'',
      (Store.empty 40).print .readable
        (.plainVec 7 [.int (-12), .plainMap 8 [(.kw "a-b", .str "x\x22\n\\")],
          .plainList 9 [.sym "+"]]) = .ok text ∧
      Eval.readForm text (Store.empty 40) = .ok w s' ∧ w.Readable ∧
      s'.print .readable w = .ok printed ∧ Eval.readForm printed s' = .ok w' s'' ∧
      w.SameContent w' := by
  have hv : Value.Readable (.plainVec 7 [.int (-12), .plainMap 8 [(.kw "a-b", .str "x\x22\n\\")],
      .plainList 9 [.sym "+"]]) := by
    refine ⟨_, rfl, .vec ?_⟩
    simp only [List.forall_mem_cons, List.not_mem_nil, false_implies, implies_true, and_true]
    refine ⟨.int ?_, .map ?_ ?_ ?_ ?_, .list ?_⟩
    · exact lt_of_lt_of_le (by decide : 12 < 10 ^ 2) (Nat.pow_le_pow_right (by decide) (by decide))
    · simpa using .kw (by decide)
    · simpa using .str _
    · simp [Datum.key?]
    · simp [Key.Distinct]
    · simpa using .sym (by decide)
  obtain ⟨text, w, s', hprint, hread, -⟩ := print_read_round_trip.1 (Store.empty 40) _ hv
  obtain ⟨hw, printed, w', s'', hprinted, hagain, hsame, -⟩ :=
    print_read_round_trip.2 text _ _ w hread
  exact ⟨text, w, s', printed, w', s'', hprint, hread, hw, hprinted, hagain, hsame⟩

end SmallLisp
