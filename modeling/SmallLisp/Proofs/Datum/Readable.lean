import SmallLisp.Proofs.Flonum.Text
import SmallLisp.Reader.Parser
import SmallLisp.Value.Printer

/-!
# Data that have a text

A datum is readable when the reader takes its text back: symbols and keywords must have names
that come out of the text as one token of the right kind, integers must not have too many digits,
and the keys of a map must be distinct and no collections. The text of a datum and the tokens of
that text are given side by side.
-/

namespace SmallLisp

namespace Datum

/-- The characters of one bare token. -/
def IsBare (cs : List Char) : Prop :=
  cs ≠ [] ∧ (∀ c ∈ cs, Token.isDelimiter c = false) ∧ ∀ c ∈ cs.head?, c ≠ '~' ∧ c ≠ '@'

instance (cs : List Char) : Decidable (∀ c ∈ cs, Token.isDelimiter c = false) :=
  cs.decidableBAll _

-- The conditions on the first character are decided on it alone, not by a search through all
-- characters.
instance (cs : List Char) : Decidable (IsBare cs) :=
  haveI : Decidable (∀ c ∈ cs.head?, c ≠ '~' ∧ c ≠ '@') := Option.decidableForallMem _
  inferInstanceAs (Decidable (_ ∧ _ ∧ _))

/-- The name of a symbol is a bare token that is neither a constant nor like a number or a
keyword. The colon alone is a symbol. -/
def IsSymbolName (name : String) : Prop :=
  IsBare name.toList ∧ name ∉ ["nil", "true", "false", "##Inf", "##-Inf", "##NaN"] ∧
    NumberText.begins name.toList = false ∧ (name.toList.head? = some ':' → name = ":")

instance (name : String) : Decidable (IsSymbolName name) :=
  inferInstanceAs (Decidable (_ ∧ _ ∧ _ ∧ _))

/-- The name of a keyword stands behind a colon, so that it may begin with anything. -/
def IsKeywordName (name : String) : Prop :=
  name.toList ≠ [] ∧ ∀ c ∈ name.toList, Token.isDelimiter c = false

instance (name : String) : Decidable (IsKeywordName name) := inferInstanceAs (Decidable (_ ∧ _))

inductive Readable : Datum → Prop
  | nil : Readable nil
  | bool (b : Bool) : Readable (bool b)
  | int {n : ℤ} : n.natAbs < 10 ^ maxDigits → Readable (int n)
  | float (x : Flonum) : Readable (float x)
  | nan : Readable nan
  | str (s : String) : Readable (str s)
  | sym {name : String} : IsSymbolName name → Readable (sym name)
  | kw {name : String} : IsKeywordName name → Readable (kw name)
  | list {items : List Datum} : (∀ d ∈ items, Readable d) → Readable (list items)
  | vec {items : List Datum} : (∀ d ∈ items, Readable d) → Readable (vec items)
  | map {entries : List (Datum × Datum)} :
      (∀ entry ∈ entries, Readable entry.1) → (∀ entry ∈ entries, Readable entry.2) →
      (∀ entry ∈ entries, entry.1.key?.isSome) → Key.Distinct key? entries →
      Readable (map entries)

mutual

def chars : Datum → List Char
  | nil => ['n', 'i', 'l']
  | bool b => if b then ['t', 'r', 'u', 'e'] else ['f', 'a', 'l', 's', 'e']
  | int n => (toString n).toList
  | float x => (flonumToken x).toList
  | nan => ['#', '#', 'N', 'a', 'N']
  | str s => '\x22' :: (escape s.toList ++ ['\x22'])
  | sym name => name.toList
  | kw name => ':' :: name.toList
  | list items => '(' :: (charsAll items ++ [')'])
  | vec items => '[' :: (charsAll items ++ [']'])
  | map entries => '\x7b' :: (charsEntries entries ++ ['\x7d'])

def charsAll : List Datum → List Char
  | [] => []
  | [d] => chars d
  | d :: rest => chars d ++ ' ' :: charsAll rest

def charsEntries : List (Datum × Datum) → List Char
  | [] => []
  | [(k, d)] => chars k ++ ' ' :: chars d
  | (k, d) :: rest => chars k ++ ' ' :: (chars d ++ ' ' :: charsEntries rest)

end

def token : Datum → Token
  | str s => ⟨.string, chars (str s)⟩
  | d => ⟨.symbol, chars d⟩

mutual

def tokens : Datum → List Token
  | list items => ⟨.opener, ['(']⟩ :: (tokensAll items ++ [⟨.closer, [')']⟩])
  | vec items => ⟨.opener, ['[']⟩ :: (tokensAll items ++ [⟨.closer, [']']⟩])
  | map entries => ⟨.opener, ['\x7b']⟩ :: (tokensEntries entries ++ [⟨.closer, ['\x7d']⟩])
  | d => [token d]

def tokensAll : List Datum → List Token
  | [] => []
  | d :: rest => tokens d ++ tokensAll rest

def tokensEntries : List (Datum × Datum) → List Token
  | [] => []
  | (k, d) :: rest => tokens k ++ (tokens d ++ tokensEntries rest)

end

end Datum

end SmallLisp
