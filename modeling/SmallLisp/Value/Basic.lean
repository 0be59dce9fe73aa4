import SmallLisp.Builtin
import SmallLisp.Datum.Basic
import SmallLisp.Number.Basic

/-!
# Values

Values are what programs compute with, and programs are values themselves. Collections,
closures, wrapped builtins and NaNs carry an identity: a number that tells two objects with the
same content apart. The content of an atom is kept in the store, under its address, and the
scope of a closure is named by its place in the store.
-/

namespace SmallLisp

abbrev Identity := Nat

/-- The place of a scope in the store. -/
abbrev ScopeId := Nat

/-- The place of the content of an atom in the store. -/
abbrev Address := Nat

/-- A list or map that was given metadata is `marked`. A builtin is `wrapped` when it carries a
name and metadata of its own. Whatever has no metadata has `nil` in their place. -/
inductive Value where
  | nil
  | bool (b : Bool)
  | int (n : Int)
  | float (x : Flonum)
  | nan (id : Identity)
  | str (s : String)
  | sym (name : String)
  | kw (name : String)
  | list (id : Identity) (items : List Value) (marked : Bool) (info : Value)
  | vec (id : Identity) (items : List Value) (info : Value)
  | map (id : Identity) (entries : List (Value × Value)) (marked : Bool) (info : Value)
  | pair (id : Identity) (first second : Value)
  | atom (address : Address)
  | closure (id : Identity) (params : List String) (body : Value) (scope : ScopeId)
      (isMacro : Bool) (info : Value)
  | builtin (f : Builtin) (wrapped : Bool) (id : Identity) (info : Value)
  deriving Inhabited

namespace Value

abbrev plainList (id : Identity) (items : List Value) : Value := list id items false nil

abbrev plainVec (id : Identity) (items : List Value) : Value := vec id items nil

abbrev plainMap (id : Identity) (entries : List (Value × Value)) : Value := map id entries false nil

/-- The identity of the NaN that `##NaN` and the constant `nan` denote. -/
def literalNan : Identity := 0

/-- Everything but nil and false counts as true. -/
def isTruthy : Value → Bool
  | nil => false
  | bool b => b
  | _ => true

/-- The number that a value is, truth values not being numbers. -/
def number? : Value → Option Number
  | int n => some (.int n)
  | float x => some (.float x)
  | nan _ => some .nan
  | _ => none

def sequence? : Value → Option (List Value)
  | list _ items _ _ => some items
  | vec _ items _ => some items
  | _ => none

def symbol? : Value → Option String
  | sym name => some name
  | _ => none

/-- Whether a value is a function that a program may apply, which macros are not. -/
def isFunction : Value → Bool
  | closure _ _ _ _ isMacro _ => !isMacro
  | builtin .. => true
  | _ => false

def isMacro : Value → Bool
  | closure _ _ _ _ isMacro _ => isMacro
  | _ => false

/-- The metadata of a value, nil for values that hold none. -/
def info : Value → Value
  | list _ _ _ info => info
  | vec _ _ info => info
  | map _ _ _ info => info
  | closure _ _ _ _ _ info => info
  | builtin _ _ _ info => info
  | _ => nil

/-- Equality of the language: numbers by value, strings by content, everything else by being the
same object. -/
def equal : Value → Value → Bool
  | nil, nil => true
  | bool a, bool b => a == b
  | str a, str b => a == b
  | sym a, sym b => a == b
  | kw a, kw b => a == b
  | nan i, nan j => i == j
  | list i .., list j .. => i == j
  | vec i .., vec j .. => i == j
  | map i .., map j .. => i == j
  | pair i .., pair j .. => i == j
  | atom a, atom b => a == b
  | closure i .., closure j .. => i == j
  | builtin f w i _, builtin g v j _ => if w && v then i == j else w == v && f == g
  | a, b =>
    match a.number?, b.number? with
    | some m, some n => m.eq n
    | _, _ => false

/-- The key under which a map keeps an entry of this value; collections are no keys. -/
def key? : Value → Option Key
  | nil => some .nil
  | bool b => some (.ofBool b)
  | int n => some (.int n)
  | float x => some (.ofFlonum x)
  | nan id => some (.nan id)
  | str s => some (.str s)
  | sym name => some (.sym name)
  | kw name => some (.kw name)
  | pair _ first second => do return .pair (← first.key?) (← second.key?)
  | atom address => some (.cell address)
  | closure id .. => some (.object id)
  | builtin f wrapped id _ => some (if wrapped then .object id else .builtin f.name)
  | list .. | vec .. | map .. => none

def category : Value → String
  | nil => "Nil"
  | bool _ => "Boolean"
  | int _ | float _ | nan _ => "Number"
  | str _ => "String"
  | sym _ => "Symbol"
  | kw _ => "Keyword"
  | vec .. => "Vector"
  | list .. => "List"
  | map .. => "Map"
  | atom _ => "Atom"
  | pair .. => "tuple"
  | closure .. => "Closure"
  | builtin _ wrapped _ _ => if wrapped then "Primitive" else "function"

def typeName : Value → String
  | nil => "NilType"
  | bool _ => "bool"
  | int _ => "int"
  | float _ | nan _ => "float"
  | str _ => "str"
  | sym _ => "Symbol"
  | kw _ => "Keyword"
  | vec .. => "Vector"
  | list _ _ marked _ => if marked then "List" else "list"
  | map _ _ marked _ => if marked then "Map" else "dict"
  | atom _ => "Atom"
  | pair .. => "tuple"
  | closure .. => "Closure"
  | builtin _ wrapped _ _ => if wrapped then "Primitive" else "function"

end Value

end SmallLisp
