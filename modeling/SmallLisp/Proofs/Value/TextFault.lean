import Mathlib.Tactic
import SmallLisp.Value.Printer

/-!
# Values without a text

When a value has no text, a limit was met: there is an integer of too many digits in the value or
in an atom that it leads to, or the stack has no room. Making a text never raises a fault of the
language.
-/

namespace SmallLisp

/-- A computation of a text that, if it stops, stops for one of the given reasons. -/
def StopsWith {α : Type} (reason : Stop → Prop) (x : Except Stop α) : Prop :=
  ∀ stop, x = .error stop → reason stop

namespace StopsWith

variable {α β : Type} {reason other : Stop → Prop}

theorem ok (a : α) : StopsWith reason (.ok a) := by
  intro stop h
  cases h

theorem error {stop : Stop} (h : reason stop) : StopsWith reason (.error stop : Except Stop α) := by
  intro stop' h'
  exact Except.error.inj h' ▸ h

theorem mono {x : Except Stop α} (h : StopsWith reason x)
    (hother : ∀ stop, reason stop → other stop) : StopsWith other x :=
  fun stop hstop => hother stop (h stop hstop)

theorem bind {x : Except Stop α} {f : α → Except Stop β} (hx : StopsWith reason x)
    (hf : ∀ a, StopsWith reason (f a)) : StopsWith reason (x >>= f) := by
  intro stop h
  cases x with
  | ok a => exact hf a stop h
  | error stop' => exact hx stop (congrArg Except.error (Except.error.inj h))

end StopsWith

namespace Store

/-- An integer of too many digits stands in a value or in the content of an atom of the value. -/
inductive HasLongInteger (s : Store) : Value → Prop
  | int {n : ℤ} : Nat.pow 10 maxDigits ≤ n.natAbs → HasLongInteger s (.int n)
  | list {id : Identity} {v info : Value} {items : List Value} {marked : Bool} :
      v ∈ items → HasLongInteger s v → HasLongInteger s (.list id items marked info)
  | vec {id : Identity} {v info : Value} {items : List Value} :
      v ∈ items → HasLongInteger s v → HasLongInteger s (.vec id items info)
  | key {id : Identity} {info : Value} {entry : Value × Value} {entries : List (Value × Value)}
      {marked : Bool} :
      entry ∈ entries → HasLongInteger s entry.1 → HasLongInteger s (.map id entries marked info)
  | entry {id : Identity} {info : Value} {entry : Value × Value} {entries : List (Value × Value)}
      {marked : Bool} :
      entry ∈ entries → HasLongInteger s entry.2 → HasLongInteger s (.map id entries marked info)
  | first {id : Identity} {first second : Value} :
      HasLongInteger s first → HasLongInteger s (.pair id first second)
  | second {id : Identity} {first second : Value} :
      HasLongInteger s second → HasLongInteger s (.pair id first second)
  | content {a : Address} {v : Value} :
      s.content? a = some v → HasLongInteger s v → HasLongInteger s (.atom a)

end Store

namespace Stop

/-- Why the text of a value is not made: the stack has no room, or there is a long integer. -/
def NoText (long : Prop) : Stop → Prop
  | .stackExhausted => True
  | .host limit => limit = .digitLimit none ∧ long
  | _ => False

theorem NoText.imp {long long' : Prop} (h : long → long') (stop : Stop) (hstop : NoText long stop) :
    NoText long' stop := by
  cases stop with
  | host limit => exact ⟨hstop.1, h hstop.2⟩
  | stackExhausted => trivial
  | fault | passesExhausted => exact hstop

end Stop

theorem Stop.NoText.eq_stackExhausted {long : Prop} {stop : Stop} (h : NoText long stop)
    (hshort : ¬ long) : stop = .stackExhausted := by
  cases stop with
  | stackExhausted => rfl
  | host limit => exact absurd h.2 hshort
  | fault | passesExhausted => exact h.elim

open Stop

variable {s : Store} {long : Prop}

theorem StopsWith.stackExhausted {α : Type} :
    StopsWith (NoText long) (.error .stackExhausted : Except Stop α) := .error trivial

theorem stopsWith_integerText {n : ℤ} (h : s.HasLongInteger (.int n) → long) :
    StopsWith (NoText long) (integerText n) := by
  unfold integerText
  split_ifs with hn
  · exact .ok _
  · exact .error ⟨rfl, h (.int (Nat.le_of_not_lt hn))⟩

namespace Value

mutual

theorem stopsWith_representWith {content : List Identity → Address → Except Stop String}
    (hcontent : ∀ opened a, StopsWith (NoText (s.HasLongInteger (.atom a))) (content opened a))
    (opened : List Identity) : (v : Value) →
    (s.HasLongInteger v → long) → StopsWith (NoText long) (v.representWith content opened)
  | .nil, _ | .bool _, _ | .float _, _ | .nan _, _ | .str _, _ | .sym _, _ | .kw _, _
  | .closure .., _ | .builtin .., _ => .ok _
  | .int n, h => stopsWith_integerText h
  | .list id items _ _, h => by
    unfold representWith
    split_ifs
    · exact .ok _
    · have hitems := stopsWith_representAll hcontent (id :: opened) items
        fun v hv hlong => h (.list hv hlong)
      exact hitems.bind fun texts => .ok _
  | .vec _ items _, h => by
    unfold representWith
    have hitems := stopsWith_representAll hcontent opened items fun v hv hlong => h (.vec hv hlong)
    exact hitems.bind fun texts => .ok _
  | .map id entries _ _, h => by
    unfold representWith
    split_ifs
    · exact .ok _
    · have hentries := stopsWith_representEntries hcontent (id :: opened) entries
        (fun e he hlong => h (.key he hlong)) (fun e he hlong => h (.entry he hlong))
      exact hentries.bind fun texts => .ok _
  | .pair _ first second, h => by
    unfold representWith
    apply (stopsWith_representWith hcontent opened first fun hlong => h (.first hlong)).bind
    intro a
    apply (stopsWith_representWith hcontent opened second fun hlong => h (.second hlong)).bind
    exact fun b => .ok _
  | .atom a, h => by
    unfold representWith
    exact ((hcontent opened a).mono (NoText.imp h)).bind fun text => .ok _

theorem stopsWith_representAll {content : List Identity → Address → Except Stop String}
    (hcontent : ∀ opened a, StopsWith (NoText (s.HasLongInteger (.atom a))) (content opened a))
    (opened : List Identity) : (vs : List Value) →
    (∀ v ∈ vs, s.HasLongInteger v → long) → StopsWith (NoText long) (representAll content opened vs)
  | [], _ => .ok _
  | v :: rest, h => by
    unfold representAll
    obtain ⟨hv, hrest⟩ := List.forall_mem_cons.1 h
    apply (stopsWith_representWith hcontent opened v hv).bind
    intro text
    exact (stopsWith_representAll hcontent opened rest hrest).bind fun texts => .ok _

theorem stopsWith_representEntries {content : List Identity → Address → Except Stop String}
    (hcontent : ∀ opened a, StopsWith (NoText (s.HasLongInteger (.atom a))) (content opened a))
    (opened : List Identity) : (entries : List (Value × Value)) →
    (∀ e ∈ entries, s.HasLongInteger e.1 → long) → (∀ e ∈ entries, s.HasLongInteger e.2 → long) →
      StopsWith (NoText long) (representEntries content opened entries)
  | [], _, _ => .ok _
  | (k, v) :: rest, hkeys, hvalues => by
    unfold representEntries
    obtain ⟨hk, hkeys⟩ := List.forall_mem_cons.1 hkeys
    obtain ⟨hv, hvalues⟩ := List.forall_mem_cons.1 hvalues
    apply (stopsWith_representWith hcontent opened k hk).bind
    intro key
    apply (stopsWith_representWith hcontent opened v hv).bind
    intro text
    exact (stopsWith_representEntries hcontent opened rest hkeys hvalues).bind fun texts => .ok _

end

mutual

theorem stopsWith_printWith {content : Address → Except Stop String}
    (hcontent : ∀ a, StopsWith (NoText (s.HasLongInteger (.atom a))) (content a))
    (mode : PrintMode) : (v : Value) →
    (s.HasLongInteger v → long) → StopsWith (NoText long) (v.printWith content mode)
  | .nil, _ | .bool _, _ | .float _, _ | .nan _, _ | .str _, _ | .sym _, _ | .kw _, _
  | .closure .., _ | .builtin .., _ => .ok _
  | .int n, h => stopsWith_integerText h
  | .list _ items _ _, h => by
    unfold printWith
    have hitems := stopsWith_printAll hcontent mode items fun v hv hlong => h (.list hv hlong)
    exact hitems.bind fun texts => .ok _
  | .vec _ items _, h => by
    unfold printWith
    have hitems := stopsWith_printAll hcontent mode items fun v hv hlong => h (.vec hv hlong)
    exact hitems.bind fun texts => .ok _
  | .map _ entries _ _, h => by
    unfold printWith
    have hentries := stopsWith_printEntries hcontent mode entries
      (fun e he hlong => h (.key he hlong)) (fun e he hlong => h (.entry he hlong))
    exact hentries.bind fun texts => .ok _
  | .pair id first second, h => by
    unfold printWith
    exact stopsWith_representWith (fun _ _ => .stackExhausted) [] (.pair id first second) h
  | .atom a, h => by
    unfold printWith
    exact ((hcontent a).mono (NoText.imp h)).bind fun text => .ok _

theorem stopsWith_printAll {content : Address → Except Stop String}
    (hcontent : ∀ a, StopsWith (NoText (s.HasLongInteger (.atom a))) (content a))
    (mode : PrintMode) : (vs : List Value) →
    (∀ v ∈ vs, s.HasLongInteger v → long) → StopsWith (NoText long) (printAll content mode vs)
  | [], _ => .ok _
  | v :: rest, h => by
    unfold printAll
    obtain ⟨hv, hrest⟩ := List.forall_mem_cons.1 h
    apply (stopsWith_printWith hcontent mode v hv).bind
    intro text
    exact (stopsWith_printAll hcontent mode rest hrest).bind fun texts => .ok _

theorem stopsWith_printEntries {content : Address → Except Stop String}
    (hcontent : ∀ a, StopsWith (NoText (s.HasLongInteger (.atom a))) (content a))
    (mode : PrintMode) : (entries : List (Value × Value)) →
    (∀ e ∈ entries, s.HasLongInteger e.1 → long) → (∀ e ∈ entries, s.HasLongInteger e.2 → long) →
      StopsWith (NoText long) (printEntries content mode entries)
  | [], _, _ => .ok _
  | (k, v) :: rest, hkeys, hvalues => by
    unfold printEntries
    obtain ⟨hk, hkeys⟩ := List.forall_mem_cons.1 hkeys
    obtain ⟨hv, hvalues⟩ := List.forall_mem_cons.1 hvalues
    apply (stopsWith_printWith hcontent mode k hk).bind
    intro key
    apply (stopsWith_printWith hcontent mode v hv).bind
    intro text
    exact (stopsWith_printEntries hcontent mode rest hkeys hvalues).bind fun texts => .ok _

end

end Value

namespace Store

theorem stopsWith_represent (s : Store) (v : Value) :
    StopsWith (NoText (s.HasLongInteger v)) (s.represent v) := by
  unfold represent
  generalize representDepth = depth
  generalize ([] : List Identity) = opened
  induction depth generalizing opened v with
  | zero => exact .stackExhausted
  | succ depth ih =>
    unfold representFrom
    refine Value.stopsWith_representWith (fun opened a => ?_) opened v id
    split
    · next content hcontent => exact (ih content opened).mono (NoText.imp (.content hcontent))
    · exact .stackExhausted

theorem stopsWith_printFrom (s : Store) (mode : PrintMode) (depth : Nat) (v : Value) :
    StopsWith (NoText (s.HasLongInteger v)) (s.printFrom mode depth v) := by
  induction depth generalizing v with
  | zero => exact Value.stopsWith_printWith (fun _ => .stackExhausted) mode v id
  | succ depth ih =>
    unfold printFrom
    refine Value.stopsWith_printWith (fun a => ?_) mode v id
    split
    · next content hcontent => exact (ih content).mono (NoText.imp (.content hcontent))
    · exact .stackExhausted

theorem stopsWith_print (s : Store) (mode : PrintMode) (v : Value) :
    StopsWith (NoText (s.HasLongInteger v)) (s.print mode v) :=
  s.stopsWith_printFrom mode s.contents.size v

end Store

/-- A stop that no program can catch where it arises. -/
def Stop.IsLimit : Stop → Prop
  | .fault _ => False
  | _ => True

theorem Stop.NoText.isLimit (stop : Stop) (h : NoText long stop) : stop.IsLimit := by
  cases stop with
  | fault => exact h
  | host | stackExhausted | passesExhausted => trivial

namespace Store

theorem meetsLimits_represent (s : Store) (v : Value) : StopsWith Stop.IsLimit (s.represent v) :=
  (s.stopsWith_represent v).mono NoText.isLimit

theorem meetsLimits_print (s : Store) (mode : PrintMode) (v : Value) :
    StopsWith Stop.IsLimit (s.print mode v) :=
  (s.stopsWith_print mode v).mono NoText.isLimit

theorem meetsLimits_printJoined (s : Store) (mode : PrintMode) (separator : String)
    (vs : List Value) : StopsWith Stop.IsLimit (s.printJoined mode separator vs) := by
  unfold printJoined
  refine .bind ?_ fun texts => .ok _
  induction vs with
  | nil => exact .ok _
  | cons v rest ih =>
    rw [List.mapM_cons]
    exact (s.meetsLimits_print mode v).bind fun text => ih.bind fun texts => .ok _

end Store

end SmallLisp
