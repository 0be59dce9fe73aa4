import SmallLisp.Flonum.Decimal
import SmallLisp.Store

/-!
# Values inside messages

Messages show a value by its representation, which names its type where the printed text would
not: strings are quoted, symbols and atoms are tagged and the truth values are capitalised. A
list or map that is reached again inside itself is cut short; an atom that is reached again
without one in between is not, and exhausts the stack.
-/

namespace SmallLisp

/-- The decimal text of an integer, unless it has too many digits. -/
def integerText (n : Int) : Except Stop String :=
  if n.natAbs < Nat.pow 10 maxDigits then .ok (toString n) else .error (.host (.digitLimit none))

theorem integerText_eq_ok {n : Int} (h : n.natAbs < Nat.pow 10 maxDigits) :
    integerText n = .ok (toString n) := if_pos h

def bracketed (opener closer : Char) (separator : String) (texts : List String) : String :=
  opener.toString ++ String.intercalate separator texts ++ closer.toString

namespace Value

mutual

/-- The representation of a value, inside the collections that are open. The content of an atom
is represented by `content`. -/
def representWith (content : List Identity → Address → Except Stop String)
    (opened : List Identity) : Value → Except Stop String
  | nil => .ok "nil"
  | bool b => .ok (if b then "True" else "False")
  | int n => integerText n
  | float x => .ok x.text
  | nan _ => .ok "nan"
  | str s => .ok (Text.quoted s)
  | sym name => .ok ("Symbol(" ++ Text.quoted name ++ ")")
  | kw name => .ok ("Keyword(" ++ Text.quoted name ++ ")")
  | list id items _ _ =>
    if opened.contains id then .ok "[...]"
    else do return bracketed '[' ']' ", " (← representAll content (id :: opened) items)
  | vec _ items _ => do
    return "Vector(" ++ bracketed '[' ']' ", " (← representAll content opened items) ++ ")"
  | map id entries _ _ =>
    if opened.contains id then .ok "\x7b...\x7d"
    else do
      return bracketed '\x7b' '\x7d' ", " (← representEntries content (id :: opened) entries)
  | pair _ first second => do
    let a ← representWith content opened first
    let b ← representWith content opened second
    return bracketed '(' ')' ", " [a, b]
  | atom address => do return "Atom(" ++ (← content opened address) ++ ")"
  | closure _ params _ _ isMacro _ =>
    .ok ((if isMacro then "<macro " else "<fn ") ++ bracketed '(' ')' " " params ++ ">")
  | builtin f _ _ _ => .ok ("<primitive " ++ f.name ++ ">")

def representAll (content : List Identity → Address → Except Stop String)
    (opened : List Identity) : List Value → Except Stop (List String)
  | [] => .ok []
  | v :: rest => do
    let text ← representWith content opened v
    let texts ← representAll content opened rest
    return text :: texts

def representEntries (content : List Identity → Address → Except Stop String)
    (opened : List Identity) : List (Value × Value) → Except Stop (List String)
  | [] => .ok []
  | (k, v) :: rest => do
    let key ← representWith content opened k
    let text ← representWith content opened v
    let texts ← representEntries content opened rest
    return (key ++ ": " ++ text) :: texts

end

end Value

namespace Store

/-- The depth to which atoms inside atoms are represented. -/
def representDepth : Nat := 2500

def representFrom (s : Store) : (depth : Nat) → List Identity → Value → Except Stop String
  | 0, _ => fun _ => .error .stackExhausted
  | depth + 1, opened =>
    Value.representWith
      (fun opened address =>
        match s.content? address with
        | some v => s.representFrom depth opened v
        | none => .error .stackExhausted)
      opened

def represent (s : Store) (v : Value) : Except Stop String := s.representFrom representDepth [] v

end Store

end SmallLisp
