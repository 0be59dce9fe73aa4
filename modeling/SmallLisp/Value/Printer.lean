import SmallLisp.Value.Represent

/-!
# Values as text

A value is printed readably, as a text that the reader takes back where there is one, or for
display, which differs only in that strings are written as they are. An atom prints its content,
so that an atom inside itself has no text.
-/

namespace SmallLisp

/-- How strings are printed: as tokens of the reader or as they are. -/
inductive PrintMode where
  | readable
  | display
  deriving DecidableEq

/-- The characters of a string as they stand inside a string token. -/
def escape : List Char → List Char
  | [] => []
  | c :: cs =>
    (if c == '\\' then ['\\', '\\'] else if c == '\x22' then ['\\', '\x22']
      else if c == '\n' then ['\\', 'n'] else [c]) ++ escape cs

def stringToken (s : String) : String :=
  String.ofList ('\x22' :: escape s.toList ++ ['\x22'])

/-- The text of a flonum; the infinities have names of their own. -/
def flonumToken (x : Flonum) : String :=
  if x.isInfinite then (if x.neg then "##-Inf" else "##Inf") else x.text

namespace Value

mutual

/-- The text of a value. The content of an atom is printed by `content`. -/
def printWith (content : Address → Except Stop String) (mode : PrintMode) :
    Value → Except Stop String
  | nil => .ok "nil"
  | bool b => .ok (if b then "true" else "false")
  | int n => integerText n
  | float x => .ok (flonumToken x)
  | nan _ => .ok "##NaN"
  | str s => .ok (if mode = .readable then stringToken s else s)
  | sym name => .ok name
  | kw name => .ok (":" ++ name)
  | list _ items _ _ => do return bracketed '(' ')' " " (← printAll content mode items)
  | vec _ items _ => do return bracketed '[' ']' " " (← printAll content mode items)
  | map _ entries _ _ => do
    return bracketed '\x7b' '\x7d' " " (← printEntries content mode entries)
  | pair id first second =>
    representWith (fun _ _ => .error .stackExhausted) [] (pair id first second)
  | atom address => do return "#<atom " ++ (← content address) ++ ">"
  | closure _ _ _ _ isMacro _ => .ok (if isMacro then "#<macro>" else "#<fn>")
  | builtin f _ _ _ => .ok ("#<primitive " ++ f.name ++ ">")

def printAll (content : Address → Except Stop String) (mode : PrintMode) :
    List Value → Except Stop (List String)
  | [] => .ok []
  | v :: rest => do
    let text ← printWith content mode v
    let texts ← printAll content mode rest
    return text :: texts

def printEntries (content : Address → Except Stop String) (mode : PrintMode) :
    List (Value × Value) → Except Stop (List String)
  | [] => .ok []
  | (k, v) :: rest => do
    let key ← printWith content mode k
    let text ← printWith content mode v
    let texts ← printEntries content mode rest
    return (key ++ " " ++ text) :: texts

end

end Value

namespace Store

/-- Print a value whose atoms are nested at most `depth` deep. -/
def printFrom (s : Store) (mode : PrintMode) : (depth : Nat) → Value → Except Stop String
  | 0 => Value.printWith (fun _ => .error .stackExhausted) mode
  | depth + 1 =>
    Value.printWith
      (fun address =>
        match s.content? address with
        | some v => s.printFrom mode depth v
        | none => .error .stackExhausted)
      mode

/-- The text of a value. Atoms that are nested deeper than there are atoms contain themselves. -/
def print (s : Store) (mode : PrintMode) (v : Value) : Except Stop String :=
  s.printFrom mode s.contents.size v

def printJoined (s : Store) (mode : PrintMode) (separator : String) (vs : List Value) :
    Except Stop String := do
  return String.intercalate separator (← vs.mapM (s.print mode))

end Store

end SmallLisp
