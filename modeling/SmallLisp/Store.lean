import SmallLisp.Fault

/-!
# The store

All state of an interpreter: the scopes with their bindings, the contents of the atoms, the next
unused identity, the text written so far and the records logged so far. Scopes and contents are
never removed, so that a place in the store stays valid.
-/

namespace SmallLisp

/-- Bindings in the order in which their symbols were first bound. -/
abbrev Bindings := List (String × Value)

namespace Bindings

def get? (name : String) : Bindings → Option Value
  | [] => none
  | (n, v) :: rest => if n == name then some v else get? name rest

/-- Bind a symbol, in the place of its earlier binding if it has one. -/
def set (name : String) (value : Value) : Bindings → Bindings
  | [] => [(name, value)]
  | (n, v) :: rest => if n == name then (n, value) :: rest else (n, v) :: set name value rest

@[simp] theorem get?_nil (name : String) : get? name [] = none := rfl

theorem get?_set (name other : String) (value : Value) (b : Bindings) :
    (b.set name value).get? other = if name = other then some value else b.get? other := by
  induction b with
  | nil => simp [set, get?]
  | cons entry rest ih =>
    obtain ⟨n, v⟩ := entry
    by_cases hn : n = name
    · subst hn
      by_cases ho : n = other <;> simp [set, get?, ho]
    · by_cases ho : n = other
      · subst ho
        simp [set, get?, hn, Ne.symm hn]
      · simp [set, get?, hn, ho, ih]

end Bindings

/-- The place of the first scope, which has no scope around it. -/
def rootScope : ScopeId := 0

structure Scope where
  name : String
  outer : Option ScopeId
  bindings : Bindings

structure LogRecord where
  level : Nat
  logger : String
  message : String

namespace LogRecord

def levelName (level : Nat) : String := if level < 40 then "DEBUG" else "ERROR"

def text (r : LogRecord) : String := levelName r.level ++ " " ++ r.logger ++ ": " ++ r.message

end LogRecord

structure Store where
  scopes : Array Scope
  contents : Array Value
  nextIdentity : Identity
  output : String
  log : Array LogRecord
  /-- The least level that is recorded. -/
  logLevel : Nat

namespace Store

/-- A store with nothing in it. The identities up to that of the literal NaN are taken. -/
def empty (logLevel : Nat) : Store := ⟨#[], #[], literalIdentities, "", #[], logLevel⟩
where
  literalIdentities : Identity := Value.literalNan + 1

def scope? (s : Store) (id : ScopeId) : Option Scope := s.scopes[id]?

/-- The scopes from one scope outwards. A scope is created after the scope around it, so that
the chain is no longer than the count of scopes. -/
def chainFrom (s : Store) : (bound : Nat) → ScopeId → List ScopeId
  | 0, _ => []
  | bound + 1, id =>
    match s.scope? id with
    | none => []
    | some scope =>
      id ::
        match scope.outer with
        | none => []
        | some outer => chainFrom s bound outer

/-- The scope itself and every scope around it, innermost first. -/
def chain (s : Store) (id : ScopeId) : List ScopeId := s.chainFrom (id + 1) id

def scopeName (s : Store) (id : ScopeId) : String := ((s.scope? id).map (·.name)).getD ""

/-- The binding of a symbol in one scope, whatever the scopes around it bind. -/
def own? (s : Store) (id : ScopeId) (name : String) : Option Value :=
  (s.scope? id).bind (·.bindings.get? name)

def lookupFrom (s : Store) (name : String) : (bound : Nat) → ScopeId → Option (ScopeId × Value)
  | 0, _ => none
  | bound + 1, id =>
    match s.scope? id with
    | none => none
    | some scope =>
      match scope.bindings.get? name with
      | some value => some (id, value)
      | none =>
        match scope.outer with
        | none => none
        | some outer => lookupFrom s name bound outer

def lookup? (s : Store) (id : ScopeId) (name : String) : Option (ScopeId × Value) :=
  s.lookupFrom name (id + 1) id

def bind (s : Store) (id : ScopeId) (name : String) (value : Value) : Store :=
  { s with scopes := s.scopes.modify id fun scope =>
      { scope with bindings := scope.bindings.set name value } }

def addScope (s : Store) (outer : Option ScopeId) (name : String) : ScopeId × Store :=
  (s.scopes.size, { s with scopes := s.scopes.push ⟨name, outer, []⟩ })

def content? (s : Store) (address : Address) : Option Value := s.contents[address]?

def setContent (s : Store) (address : Address) (value : Value) : Store :=
  { s with contents := s.contents.setIfInBounds address value }

def addContent (s : Store) (value : Value) : Address × Store :=
  (s.contents.size, { s with contents := s.contents.push value })

/-- The scopes that a chain passes, as one text. -/
def chainText (s : Store) (ids : List ScopeId) : String :=
  String.intercalate " <- " (ids.map s.scopeName)

def describe (s : Store) (id : ScopeId) : String :=
  "<Environment chain: " ++ s.chainText (s.chain id) ++ ">"

def write (s : Store) (text : String) : Store := { s with output := s.output ++ text }

/-- Record a message, if its level is recorded at all. -/
def record (s : Store) (level : Nat) (logger message : String) : Store :=
  if s.logLevel ≤ level then { s with log := s.log.push ⟨level, logger, message⟩ } else s

end Store

end SmallLisp
