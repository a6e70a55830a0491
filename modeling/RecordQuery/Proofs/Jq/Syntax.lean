import RecordQuery.Json.Quoted
import RecordQuery.Number.Decimal
import RecordQuery.Proofs.Filter.Mark

/-! # The grammar of jq

How jq reads a text, for the part of the language that conditions and columns without patterns and
calls are compiled into. A text is split into tokens (`tokensOf?`); operators have their precedence
in jq (`Level`), a comparison does not associate, the scope behind `as` goes as far as it can, and
parentheses leave no trace (`read?`). A text outside of this part is not read at all, with one
exception: `$__loc__` and `$ENV`, to which jq itself gives a value, are read as variables like any
others (`token?`), which have the values that are given to them. -/

namespace RecordQuery

/-- A jq program. -/
inductive Jq where
  | identity
  | elements
  | field (name : String)
  | slice (low high : Option Nat)
  | number (n : Nat)
  | string (s : String)
  | boolean (b : Bool)
  | null
  | variable (name : String)
  | array (f : Jq)
  | object (entries : List (String × Jq))
  | comma (f g : Jq)
  | pipe (f g : Jq)
  | negate (f : Jq)
  | operation (op : Operator) (f g : Jq)
  | bind (value : Jq) (name : String) (body : Jq)
  | any (generator condition : Jq)
  | select (condition : Jq)
  | sortBy (key : Jq)
  | not
  | unique
  | reverse

namespace Jq

/-- Programs piped one into another. -/
def pipeline : List Jq → Jq
  | [] => .identity
  | [f] => f
  | f :: fs => .pipe f (pipeline fs)

/-! ### Tokens -/

/-- A token. A variable is held without its dollar sign, a string without its quotes and escapes. -/
inductive Token where
  | sign (p : Punctuation)
  | word (w : String)
  | variable (name : String)
  | number (n : Nat)
  | string (s : String)
  deriving DecidableEq

/-- The characters that a word can begin with. -/
def isNameStart (c : Char) : Bool := c.isAlpha || c == '_'

/-- The characters that a word can go on with. -/
def isNameChar (c : Char) : Bool := c.isAlphanum || c == '_'

/-- The punctuation mark that a character starts, given the one behind it, and whether it takes
both. Marks of other operators of jq, such as `..`, `//` and `|=`, are none. -/
def sign? (c : Char) (next : Option Char) : Option (Punctuation × Bool) :=
  match c with
  | '(' => some (.opening .round, false)
  | ')' => some (.closing .round, false)
  | '[' => some (.opening .square, false)
  | ']' => some (.closing .square, false)
  | '\x7b' => some (.opening .curly, false)
  | '\x7d' => some (.closing .curly, false)
  | ',' => some (.comma, false)
  | ':' => some (.colon, false)
  | ';' => some (.semicolon, false)
  | '.' => if next.any fun d => d == '.' || isNameChar d then none else some (.dot, false)
  | '<' => if next = some '=' then some (.lessEqual, true) else some (.less, false)
  | '>' => if next = some '=' then some (.greaterEqual, true) else some (.greater, false)
  | '=' => if next = some '=' then some (.equal, true) else none
  | '!' => if next = some '=' then some (.notEqual, true) else none
  | '/' => if next = some '/' || next = some '=' then none else some (.slash, false)
  | '|' => if next = some '=' then none else some (.bar, false)
  | '*' => if next = some '=' then none else some (.star, false)
  | '%' => if next = some '=' then none else some (.percent, false)
  | '+' => if next = some '=' then none else some (.plus, false)
  | '-' => if next = some '=' then none else some (.minus, false)
  | _ => none

/-- Reads the token that starts with a character, and gives what follows it. A number is a run of
digits. -/
def token? (c : Char) (rest : List Char) : Option (Token × List Char) :=
  if c = '"' then
    (Json.Quoted.readBody rest).map fun (cs, rest) => (.string (String.ofList cs), rest)
  else if c.isDigit then
    let behind := rest.dropWhile Char.isDigit
    if behind.head?.any fun d => d == '.' || isNameChar d then none
    else some (.number (Decimal.natural (c :: rest.takeWhile Char.isDigit)), behind)
  else if isNameStart c then
    some (.word (String.ofList (c :: rest.takeWhile isNameChar)), rest.dropWhile isNameChar)
  else if c = '$' then
    if rest.head?.any isNameStart then
      some (.variable (String.ofList (rest.takeWhile isNameChar)), rest.dropWhile isNameChar)
    else none
  else (sign? c rest.head?).map fun (p, both) => (.sign p, if both then rest.drop 1 else rest)

/-- Reads at most `n` tokens and blanks, up to the end of a text. -/
def tokensWithin? : Nat → List Char → Option (List Token)
  | _, [] => some []
  | 0, _ :: _ => none
  | n + 1, c :: rest =>
    if c = ' ' then tokensWithin? n rest
    else do
      let (t, rest) ← token? c rest
      let ts ← tokensWithin? n rest
      some (t :: ts)

/-- The tokens of a text. -/
def tokensOf? (text : String) : Option (List Token) :=
  tokensWithin? text.toList.length text.toList

/-! ### Levels -/

/-- The levels of the grammar, from the loosest to the tightest. -/
inductive Level where
  | pipe | comma | or | and | comparison | sum | product | operand | term
  deriving DecidableEq

/-- The next tighter level; the tightest one is its own. -/
def Level.tighter : Level → Level
  | pipe => comma
  | comma => or
  | or => and
  | and => comparison
  | comparison => sum
  | sum => product
  | product => operand
  | operand => term
  | term => term

/-- What a token between two operands makes of them at a level. -/
def joiner? : Level → Token → Option (Jq → Jq → Jq)
  | .comma, .sign .comma => some .comma
  | .or, .word "or" => some (.operation .or)
  | .and, .word "and" => some (.operation .and)
  | .comparison, .sign .less => some (.operation .less)
  | .comparison, .sign .lessEqual => some (.operation .lessEqual)
  | .comparison, .sign .greater => some (.operation .greater)
  | .comparison, .sign .greaterEqual => some (.operation .greaterEqual)
  | .comparison, .sign .equal => some (.operation .equal)
  | .comparison, .sign .notEqual => some (.operation .notEqual)
  | .sum, .sign .plus => some (.operation .add)
  | .sum, .sign .minus => some (.operation .subtract)
  | .product, .sign .star => some (.operation .multiply)
  | .product, .sign .slash => some (.operation .divide)
  | .product, .sign .percent => some (.operation .modulo)
  | _, _ => none

/-! ### Reading -/

/-- A reader gives a program and the tokens behind it. -/
abbrev Reader := List Token → Option (Jq × List Token)

/-- Passes a punctuation mark. -/
def pass? (p : Punctuation) : List Token → Option (List Token)
  | .sign q :: ts => if q = p then some ts else none
  | _ => none

/-- Reads a program and passes the mark behind it. -/
def closed? (reader : Reader) (p : Punctuation) : Reader := fun ts => do
  let (f, ts) ← reader ts
  let ts ← pass? p ts
  some (f, ts)

/-- Reads further operands as long as there is an operator, at most `n`. -/
def extend (reader : Reader) (l : Level) : Nat → Jq → Reader
  | 0, left, ts => some (left, ts)
  | _, left, [] => some (left, [])
  | n + 1, left, t :: ts =>
    match joiner? l t with
    | none => some (left, t :: ts)
    | some join => do
      let (right, ts) ← reader ts
      extend reader l n (join left right) ts

/-- Reads a second operand if there is an operator; no further operator may follow. -/
def compare? (reader : Reader) (left : Jq) : Reader
  | [] => some (left, [])
  | t :: ts =>
    match joiner? .comparison t with
    | none => some (left, t :: ts)
    | some join => do
      let (right, ts) ← reader ts
      if ts.head?.any fun t => (joiner? .comparison t).isSome then none
      else some (join left right, ts)

/-- Reads a bound of a slice, if there is one. -/
def bound : List Token → Option Nat × List Token
  | .number n :: ts => (some n, ts)
  | ts => (none, ts)

/-- Reads what stands behind `.[`. -/
def access? : Reader
  | .sign (.closing .square) :: ts => some (.elements, ts)
  | .string name :: ts => (pass? (.closing .square) ts).map fun ts => (.field name, ts)
  | ts => do
    let (low, ts) := bound ts
    let ts ← pass? .colon ts
    let (high, ts) := bound ts
    let ts ← pass? (.closing .square) ts
    if low.isNone && high.isNone then none else some (.slice low high, ts)

/-- Reads at most `n` entries of an object, and the bracket behind them. -/
def entries? (term : Reader) : Nat → List Token → Option (List (String × Jq) × List Token)
  | n + 1, .string key :: .sign .colon :: ts => do
    let (f, ts) ← term ts
    match ts with
    | .sign (.closing .curly) :: ts => some ([(key, f)], ts)
    | .sign .comma :: ts => do
      let (entries, ts) ← entries? term n ts
      some ((key, f) :: entries, ts)
    | _ => none
  | _, _ => none

/-- Reads what follows a word. -/
def call? (reader : Reader) (w : String) : Reader := fun ts =>
  match w, ts with
  | "true", ts => some (.boolean true, ts)
  | "false", ts => some (.boolean false, ts)
  | "null", ts => some (.null, ts)
  | "not", ts => some (.not, ts)
  | "unique", ts => some (.unique, ts)
  | "reverse", ts => some (.reverse, ts)
  | "any", .sign (.opening .round) :: ts => do
    let (f, ts) ← closed? reader .semicolon ts
    let (g, ts) ← closed? reader (.closing .round) ts
    some (.any f g, ts)
  | "select", .sign (.opening .round) :: ts =>
    (closed? reader (.closing .round) ts).map fun (f, ts) => (.select f, ts)
  | "sort_by", .sign (.opening .round) :: ts =>
    (closed? reader (.closing .round) ts).map fun (f, ts) => (.sortBy f, ts)
  | _, _ => none

/-- Reads a program without operators. -/
def term? (sub : Level → Reader) : Reader
  | .number n :: ts => some (.number n, ts)
  | .string s :: ts => some (.string s, ts)
  | .variable name :: ts => some (.variable name, ts)
  | .word w :: ts => call? (sub .pipe) w ts
  | .sign (.opening .round) :: ts => closed? (sub .pipe) (.closing .round) ts
  | .sign (.opening .square) :: ts =>
    (closed? (sub .pipe) (.closing .square) ts).map fun (f, ts) => (.array f, ts)
  | .sign (.opening .curly) :: .sign (.closing .curly) :: ts => some (.object [], ts)
  | .sign (.opening .curly) :: ts =>
    (entries? (sub .term) ts.length ts).map fun (entries, ts) => (.object entries, ts)
  | .sign .dot :: .sign (.opening .square) :: ts => access? ts
  | .sign .dot :: ts => some (.identity, ts)
  | _ => none

/-- Reads an operand: a minus sign and a product, or a term. What is bound behind a term takes all
that follows. -/
def operand? (sub : Level → Reader) : Reader
  | .sign .minus :: ts => (sub .product ts).map fun (f, ts) => (.negate f, ts)
  | ts => do
    let (value, ts) ← sub .term ts
    match ts with
    | .word "as" :: .variable name :: .sign .bar :: ts =>
      (sub .pipe ts).map fun (body, ts) => (.bind value name body, ts)
    | ts => some (value, ts)

/-- Reads a program of a level, given the readers of its parts. -/
def level? (sub : Level → Reader) : Level → Reader
  | .pipe, ts => do
    let (f, ts) ← sub .comma ts
    match ts with
    | .sign .bar :: ts => (sub .pipe ts).map fun (g, ts) => (.pipe f g, ts)
    | ts => some (f, ts)
  | .comparison, ts => do
    let (left, ts) ← sub .sum ts
    compare? (sub .sum) left ts
  | .operand, ts => operand? sub ts
  | .term, ts => term? sub ts
  | l, ts => do
    let (left, ts) ← sub l.tighter ts
    extend (sub l.tighter) l ts.length left ts

/-- Reads a program of a level with at most `n` nested calls. -/
def readWithin? : Nat → Level → Reader
  | 0, _, _ => none
  | n + 1, l, ts => level? (readWithin? n) l ts

/-- The program of a text. Nine nested calls at most pass without a token being read. -/
def read? (text : String) : Option Jq := do
  let ts ← tokensOf? text
  let (f, rest) ← readWithin? (9 * ts.length + 9) .pipe ts
  if rest.isEmpty then some f else none

end Jq

end RecordQuery
