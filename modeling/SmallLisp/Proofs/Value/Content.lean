import Mathlib.Tactic
import SmallLisp.Eval.Basic
import SmallLisp.Proofs.Reader.Readable

/-!
# Values that have a text

What a value holds when its identities and its metadata are forgotten is a datum, unless the value
has an atom, a tuple or a function in it. A value whose datum is readable is printed as the text
of that datum, whatever the store is.
-/

namespace SmallLisp

namespace Value

mutual

/-- The datum that a value holds. -/
def datum? : Value → Option Datum
  | nil => some .nil
  | bool b => some (.bool b)
  | int n => some (.int n)
  | float x => some (.float x)
  | nan _ => some .nan
  | str s => some (.str s)
  | sym name => some (.sym name)
  | kw name => some (.kw name)
  | list _ items _ _ => (datums? items).map .list
  | vec _ items _ => (datums? items).map .vec
  | map _ entries _ _ => (datumEntries? entries).map .map
  | pair .. | atom _ | closure .. | builtin .. => none

def datums? : List Value → Option (List Datum)
  | [] => some []
  | v :: rest => (datum? v).bind fun d => (datums? rest).map (d :: ·)

def datumEntries? : List (Value × Value) → Option (List (Datum × Datum))
  | [] => some []
  | (k, v) :: rest =>
    (datum? k).bind fun key => (datum? v).bind fun d => (datumEntries? rest).map ((key, d) :: ·)

end

/-- A value that the reader takes back from its text. -/
def Readable (v : Value) : Prop := ∃ d, v.datum? = some d ∧ d.Readable

/-- Two values that differ at most in their identities and their metadata. -/
def SameContent (v w : Value) : Prop := v.datum?.isSome ∧ v.datum? = w.datum?

end Value

theorem bracketed_eq_ofList {opener closer : Char} {separator : String} {texts : List String}
    {cs : List Char} (h : String.intercalate separator texts = String.ofList cs) :
    bracketed opener closer separator texts = String.ofList (opener :: (cs ++ [closer])) := by
  apply String.toList_injective
  simp [bracketed, h]

namespace Datum

def text (d : Datum) : String := String.ofList d.chars

def entryText (entry : Datum × Datum) : String := entry.1.text ++ " " ++ entry.2.text

theorem intercalate_text (ds : List Datum) :
    String.intercalate " " (ds.map text) = String.ofList (charsAll ds) := by
  apply String.toList_injective
  induction ds with
  | nil => rfl
  | cons d rest ih =>
    cases rest with
    | nil => simp [text, charsAll]
    | cons next rest =>
      rw [List.map_cons, String.intercalate_cons_of_ne_nil (by simp)]
      simp only [String.toList_append, ih]
      simp [text, charsAll]

theorem intercalate_entryText (entries : List (Datum × Datum)) :
    String.intercalate " " (entries.map entryText) = String.ofList (charsEntries entries) := by
  apply String.toList_injective
  induction entries with
  | nil => rfl
  | cons entry rest ih =>
    cases rest with
    | nil => simp [entryText, text, charsEntries]
    | cons next rest =>
      rw [List.map_cons, String.intercalate_cons_of_ne_nil (by simp)]
      simp only [String.toList_append, ih]
      simp [entryText, text, charsEntries]

end Datum

namespace Value

mutual

theorem printWith_of_readable (content : Address → Except Stop String) :
    (v : Value) → {d : Datum} → v.datum? = some d → d.Readable →
      v.printWith content .readable = .ok d.text
  | nil, _, hd, _ => by
    obtain rfl := Option.some.inj hd
    rfl
  | bool b, _, hd, _ => by
    obtain rfl := Option.some.inj hd
    cases b <;> rfl
  | int n, _, hd, h => by
    obtain rfl := Option.some.inj hd
    cases h with
    | int hn => simpa [printWith, Datum.text, Datum.chars] using integerText_eq_ok hn
  | float x, _, hd, _ => by
    obtain rfl := Option.some.inj hd
    simp [printWith, Datum.text, Datum.chars]
  | nan _, _, hd, _ => by
    obtain rfl := Option.some.inj hd
    rfl
  | str s, _, hd, _ => by
    obtain rfl := Option.some.inj hd
    rfl
  | sym name, _, hd, _ => by
    obtain rfl := Option.some.inj hd
    simp [printWith, Datum.text, Datum.chars]
  | kw name, _, hd, _ => by
    obtain rfl := Option.some.inj hd
    rw [printWith, Datum.text, Datum.chars]
    congr 1
    apply String.toList_injective
    simp
  | list _ items _ _, _, hd, h => by
    obtain ⟨ds, hds, rfl⟩ := Option.map_eq_some_iff.1 hd
    cases h with
    | list hitems =>
      rw [printWith, printAll_of_readable content items hds hitems]
      exact congrArg Except.ok (bracketed_eq_ofList (Datum.intercalate_text ds))
  | vec _ items _, _, hd, h => by
    obtain ⟨ds, hds, rfl⟩ := Option.map_eq_some_iff.1 hd
    cases h with
    | vec hitems =>
      rw [printWith, printAll_of_readable content items hds hitems]
      exact congrArg Except.ok (bracketed_eq_ofList (Datum.intercalate_text ds))
  | map _ entries _ _, _, hd, h => by
    obtain ⟨ds, hds, rfl⟩ := Option.map_eq_some_iff.1 hd
    cases h with
    | map hkeys hvalues _ _ =>
      rw [printWith, printEntries_of_readable content entries hds hkeys hvalues]
      exact congrArg Except.ok (bracketed_eq_ofList (Datum.intercalate_entryText ds))
  | pair .., _, hd, _ => nomatch hd
  | atom _, _, hd, _ => nomatch hd
  | closure .., _, hd, _ => nomatch hd
  | builtin .., _, hd, _ => nomatch hd

theorem printAll_of_readable (content : Address → Except Stop String) :
    (vs : List Value) → {ds : List Datum} → datums? vs = some ds → (∀ d ∈ ds, d.Readable) →
      printAll content .readable vs = .ok (ds.map Datum.text)
  | [], _, hds, _ => by
    obtain rfl := Option.some.inj hds
    rfl
  | v :: vs, _, hall, h => by
    obtain ⟨d, hd, hrest⟩ := Option.bind_eq_some_iff.1 hall
    obtain ⟨ds, hds, rfl⟩ := Option.map_eq_some_iff.1 hrest
    rw [List.forall_mem_cons] at h
    rw [printAll, printWith_of_readable content v hd h.1, printAll_of_readable content vs hds h.2]
    rfl

theorem printEntries_of_readable (content : Address → Except Stop String) :
    (entries : List (Value × Value)) → {ds : List (Datum × Datum)} →
      datumEntries? entries = some ds → (∀ entry ∈ ds, entry.1.Readable) →
      (∀ entry ∈ ds, entry.2.Readable) →
      printEntries content .readable entries = .ok (ds.map Datum.entryText)
  | [], _, hds, _, _ => by
    obtain rfl := Option.some.inj hds
    rfl
  | (k, v) :: rest, _, hall, hkeys, hvalues => by
    obtain ⟨key, hkey, hrest⟩ := Option.bind_eq_some_iff.1 hall
    obtain ⟨d, hd, hrest⟩ := Option.bind_eq_some_iff.1 hrest
    obtain ⟨ds, hds, rfl⟩ := Option.map_eq_some_iff.1 hrest
    rw [List.forall_mem_cons] at hkeys hvalues
    rw [printEntries, printWith_of_readable content k hkey hkeys.1,
      printWith_of_readable content v hd hvalues.1,
      printEntries_of_readable content rest hds hkeys.2 hvalues.2]
    rfl

end

end Value

theorem Store.print_of_readable (s : Store) {v : Value} {d : Datum} (hd : v.datum? = some d)
    (h : d.Readable) : s.print .readable v = .ok d.text := by
  unfold print
  cases s.contents.size with
  | zero => exact v.printWith_of_readable _ hd h
  | succ depth => exact v.printWith_of_readable _ hd h

namespace Datum

theorem run_bind {α β : Type} (x : StateM Identity α) (f : α → StateM Identity β)
    (next : Identity) : (x >>= f).run next = (f (x.run next).1).run (x.run next).2 := rfl

theorem run_pure {α : Type} (a : α) (next : Identity) :
    (pure a : StateM Identity α).run next = (a, next) := rfl

mutual

/-- The value of a datum holds the datum, whichever identities it is given. -/
theorem datum?_toValue : (d : Datum) → (next : Identity) →
    ((toValue d).run next).1.datum? = some d
  | nil, _ | bool _, _ | int _, _ | float _, _ | nan, _ | str _, _ | sym _, _ | kw _, _ => rfl
  | list items, next => congrArg (Option.map list) (datums?_toValues items next)
  | vec items, next => congrArg (Option.map vec) (datums?_toValues items next)
  | map entries, next => congrArg (Option.map map) (datumEntries?_toValueEntries entries next)

theorem datums?_toValues : (ds : List Datum) → (next : Identity) →
    Value.datums? ((toValues ds).run next).1 = some ds
  | [], _ => rfl
  | d :: rest, next => by
    have hd := datum?_toValue d next
    have hrest := datums?_toValues rest ((toValue d).run next).2
    simp only [toValues, run_bind, run_pure, Value.datums?, hd, hrest]
    rfl

theorem datumEntries?_toValueEntries : (entries : List (Datum × Datum)) → (next : Identity) →
    Value.datumEntries? ((toValueEntries entries).run next).1 = some entries
  | [], _ => rfl
  | (k, d) :: rest, next => by
    have hk := datum?_toValue k next
    have hd := datum?_toValue d ((toValue k).run next).2
    have hrest := datumEntries?_toValueEntries rest
      ((toValue d).run ((toValue k).run next).2).2
    simp only [toValueEntries, run_bind, run_pure, Value.datumEntries?, hk, hd, hrest]
    rfl

end

end Datum

end SmallLisp
