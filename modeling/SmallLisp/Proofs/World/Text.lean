import Mathlib.Tactic
import SmallLisp.Proofs.Value.PrintDepth
import SmallLisp.Proofs.World.Value

/-!
# Texts of matching values

In stores that agree, matching values have the same texts, or none for the same reason. The two
stores may hold different numbers of atoms, but printing does not depend on how many there are.
-/

namespace SmallLisp.World

variable {root root' : ScopeId} {W : World root root'} {v w : Value} {vs ws : List Value}

/-- The collections that are open on both sides. -/
def Opened (W : World root root') : List Identity → List Identity → Prop :=
  List.Forall₂ (W.pairs .object)

theorem Opened.contains_eq (hW : W.Agree) {opened opened' : List Identity}
    (h : W.Opened opened opened') {i j : Identity} (hij : W.pairs .object i j) :
    opened.contains i = opened'.contains j := by
  induction h with
  | nil => rfl
  | @cons i' j' _ _ hij' _ ih =>
    have hbeq : (i == i') = (j == j') := by
      rw [Bool.eq_iff_iff, beq_iff_eq, beq_iff_eq]
      exact hW.unique hij hij'
    rw [List.contains_cons, List.contains_cons, hbeq, ih]

section

variable {content content' : List Identity → Address → Except Stop String}

def SameRepresentation (W : World root root')
    (content content' : List Identity → Address → Except Stop String) (v w : Value) : Prop :=
  ∀ {opened opened'}, W.Opened opened opened' →
    v.representWith content opened = w.representWith content' opened'

theorem representAll_eq (h : List.Forall₂ (W.SameRepresentation content content') vs ws)
    {opened opened' : List Identity} (hopened : W.Opened opened opened') :
    Value.representAll content opened vs = Value.representAll content' opened' ws := by
  induction h with
  | nil => rfl
  | cons hv _ ih => simp only [Value.representAll, hv hopened, ih]

theorem representEntries_eq {entries entries' : List (Value × Value)}
    (h : List.Forall₂ (fun e f => W.SameRepresentation content content' e.1 f.1 ∧
      W.SameRepresentation content content' e.2 f.2) entries entries')
    {opened opened' : List Identity} (hopened : W.Opened opened opened') :
    Value.representEntries content opened entries =
      Value.representEntries content' opened' entries' := by
  induction h with
  | nil => rfl
  | cons he _ ih => simp only [Value.representEntries, he.1 hopened, he.2 hopened, ih]

theorem representWith_eq (hW : W.Agree)
    (hcontent : ∀ {opened opened' a b}, W.Opened opened opened' → W.pairs .atom a b →
      content opened a = content' opened' b)
    (h : W.Matches v w) : W.SameRepresentation content content' v w := by
  induction h with
  | list marked hid hlength _ _ ih _ =>
    intro opened opened' hopened
    have hitems := List.forall₂_iff_zip.2 ⟨hlength, ih⟩
    simp only [Value.representWith, hopened.contains_eq hW hid,
      representAll_eq hitems (.cons hid hopened)]
  | vec _ hlength _ _ ih _ =>
    intro opened opened' hopened
    have hitems := List.forall₂_iff_zip.2 ⟨hlength, ih⟩
    simp only [Value.representWith, representAll_eq hitems hopened]
  | map marked hid hlength _ _ _ ihkeys ihvalues _ =>
    intro opened opened' hopened
    simp only [Value.representWith, hopened.contains_eq hW hid, representEntries_eq
      (List.forall₂_iff_zip.2 ⟨hlength, fun h => ⟨ihkeys h, ihvalues h⟩⟩) (.cons hid hopened)]
  | pair _ _ _ ihfirst ihsecond =>
    intro opened opened' hopened
    simp only [Value.representWith, ihfirst hopened, ihsecond hopened]
  | atom ha =>
    intro opened opened' hopened
    simp only [Value.representWith, hcontent hopened ha]
  | _ => exact fun _ => rfl

end

theorem representFrom_eq (hW : W.Agree) (depth : Nat) (h : W.Matches v w)
    {opened opened' : List Identity} (hopened : W.Opened opened opened') :
    W.left.representFrom depth opened v = W.right.representFrom depth opened' w := by
  induction depth generalizing v w opened opened' with
  | zero => rfl
  | succ depth ih =>
    refine representWith_eq hW (fun hopened hab => ?_) h hopened
    obtain ⟨x, y, hx, hy, hxy⟩ := hW.place hab
    rw [hx, hy]
    exact ih hxy hopened

theorem represent_eq (hW : W.Agree) (h : W.Matches v w) :
    W.left.represent v = W.right.represent w := representFrom_eq hW _ h .nil

section

variable {content content' : Address → Except Stop String} {mode : PrintMode}

theorem printAll_eq
    (h : List.Forall₂ (fun v w => v.printWith content mode = w.printWith content' mode) vs ws) :
    Value.printAll content mode vs = Value.printAll content' mode ws := by
  induction h with
  | nil => rfl
  | cons hv _ ih => simp only [Value.printAll, hv, ih]

theorem printEntries_eq {entries entries' : List (Value × Value)}
    (h : List.Forall₂ (fun e f => e.1.printWith content mode = f.1.printWith content' mode ∧
      e.2.printWith content mode = f.2.printWith content' mode) entries entries') :
    Value.printEntries content mode entries = Value.printEntries content' mode entries' := by
  induction h with
  | nil => rfl
  | cons he _ ih => simp only [Value.printEntries, he.1, he.2, ih]

theorem printWith_eq (hW : W.Agree)
    (hcontent : ∀ {a b}, W.pairs .atom a b → content a = content' b) (h : W.Matches v w) :
    v.printWith content mode = w.printWith content' mode := by
  induction h with
  | list _ _ hlength _ _ ih _ =>
    simp only [Value.printWith, printAll_eq (List.forall₂_iff_zip.2 ⟨hlength, ih⟩)]
  | vec _ hlength _ _ ih _ =>
    simp only [Value.printWith, printAll_eq (List.forall₂_iff_zip.2 ⟨hlength, ih⟩)]
  | map _ _ hlength _ _ _ ihkeys ihvalues _ =>
    simp only [Value.printWith, printEntries_eq
      (List.forall₂_iff_zip.2 ⟨hlength, fun h => ⟨ihkeys h, ihvalues h⟩⟩)]
  | pair hid hfirst hsecond _ _ =>
    exact representWith_eq hW (fun _ _ => rfl) (.pair hid hfirst hsecond) .nil
  | atom ha => simp only [Value.printWith, hcontent ha]
  | _ => rfl

end

theorem printFrom_eq (hW : W.Agree) (mode : PrintMode) (depth : Nat) (h : W.Matches v w) :
    W.left.printFrom mode depth v = W.right.printFrom mode depth w := by
  induction depth generalizing v w with
  | zero => exact printWith_eq hW (fun _ => rfl) h
  | succ depth ih =>
    refine printWith_eq hW (fun hab => ?_) h
    obtain ⟨x, y, hx, hy, hxy⟩ := hW.place hab
    rw [hx, hy]
    exact ih hxy

theorem print_eq (hW : W.Agree) (mode : PrintMode) (h : W.Matches v w) :
    W.left.print mode v = W.right.print mode w := by
  have hleft := Nat.le_max_left W.left.contents.size W.right.contents.size
  have hright := Nat.le_max_right W.left.contents.size W.right.contents.size
  rw [← W.left.printFrom_eq_print hleft, ← W.right.printFrom_eq_print hright]
  exact printFrom_eq hW mode _ h

theorem printJoined_eq (hW : W.Agree) (mode : PrintMode) (separator : String)
    (h : W.AllMatch vs ws) :
    W.left.printJoined mode separator vs = W.right.printJoined mode separator ws := by
  have htexts : vs.mapM (W.left.print mode) = ws.mapM (W.right.print mode) := by
    induction h with
    | nil => rfl
    | cons hv _ ih => simp only [List.mapM_cons, print_eq hW mode hv, ih]
  simp only [Store.printJoined, htexts]

end SmallLisp.World
