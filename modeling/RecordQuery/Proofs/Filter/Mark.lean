import RecordQuery.Filter.Text

/-! # The marks of a filter

The text of a filter is a run of marks: punctuation, words, variables, numbers, quoted texts and the
spaces between them (`Filter.toList_text`). What is proved about texts is proved mark by mark. -/

namespace RecordQuery

/-- The kinds of brackets. -/
inductive Bracket where
  | round | square | curly
  deriving DecidableEq

/-- Punctuation, and operators that are no words. -/
inductive Punctuation where
  | dot | comma | colon | semicolon | bar
  | opening (b : Bracket)
  | closing (b : Bracket)
  | star | slash | percent | plus | minus
  | less | lessEqual | greater | greaterEqual | equal | notEqual
  deriving DecidableEq

/-- The spelling of a punctuation mark. -/
def Punctuation.text : Punctuation → String
  | dot => "."
  | comma => ","
  | colon => ":"
  | semicolon => ";"
  | bar => "|"
  | opening .round => "("
  | opening .square => "["
  | opening .curly => "\x7b"
  | closing .round => ")"
  | closing .square => "]"
  | closing .curly => "\x7d"
  | star => "*"
  | slash => "/"
  | percent => "%"
  | plus => "+"
  | minus => "-"
  | less => "<"
  | lessEqual => "<="
  | greater => ">"
  | greaterEqual => ">="
  | equal => "=="
  | notEqual => "!="

/-- The smallest parts of a text. -/
inductive Mark where
  | space
  | sign (p : Punctuation)
  | word (w : String)
  | variable (v : Variable)
  | number (n : Number)
  | quoted (s : String)
  deriving DecidableEq

namespace Mark

/-- The text of a mark. -/
def text : Mark → String
  | .space => " "
  | .sign p => p.text
  | .word w => w
  | .variable v => "$" ++ v.name
  | .number n => n.text
  | .quoted s => Json.quote s

/-- The characters of a run of marks. -/
def render (ms : List Mark) : List Char := ms.flatMap fun m => m.text.toList

@[simp] theorem render_nil : render [] = [] := rfl

@[simp] theorem render_cons (m : Mark) (ms : List Mark) :
    render (m :: ms) = m.text.toList ++ render ms := rfl

@[simp] theorem render_append (ms ns : List Mark) : render (ms ++ ns) = render ms ++ render ns :=
  List.flatMap_append

/-- Marks in brackets of a kind. -/
def inside (b : Bracket) (ms : List Mark) : List Mark :=
  sign (.opening b) :: (ms ++ [sign (.closing b)])

/-- A word between two spaces. -/
def spaced (w : String) : List Mark := [space, word w, space]

end Mark

/-- The mark of an operator. -/
def Operator.mark : Operator → Mark
  | multiply => .sign .star
  | divide => .sign .slash
  | modulo => .sign .percent
  | add => .sign .plus
  | subtract => .sign .minus
  | less => .sign .less
  | lessEqual => .sign .lessEqual
  | greater => .sign .greater
  | greaterEqual => .sign .greaterEqual
  | equal => .sign .equal
  | notEqual => .sign .notEqual
  | and => .word "and"
  | or => .word "or"

namespace Filter

open Mark

mutual

/-- The marks of a filter. -/
def marks : Filter → List Mark
  | .identity => [sign .dot]
  | .elements => sign .dot :: inside .square []
  | .first => sign .dot :: inside .square [.number (.integer 0)]
  | .field name => sign .dot :: inside .square [quoted name]
  | .slice low high => sign .dot :: inside .square (boundMarks low ++ sign .colon :: boundMarks high)
  | .number n => [.number n]
  | .string s => [quoted s]
  | .boolean b => [word (if b then "true" else "false")]
  | .null => [word "null"]
  | .variable v => [.variable v]
  | .group f => inside .round f.marks
  | .array f => inside .square f.marks
  | .object entries => inside .curly (entryMarks entries)
  | .sequence fs => joinedMarks [sign .comma, space] fs
  | .pipe f g => f.marks ++ space :: sign .bar :: space :: g.marks
  | .negate f => sign .minus :: f.marks
  | .operation op f g => f.marks ++ space :: op.mark :: space :: g.marks
  | .bind value v body =>
    value.marks ++ (spaced "as" ++ .variable v :: space :: sign .bar :: space :: body.marks)
  | .cond test yes rest =>
    word "if" :: space :: (test.marks ++ (spaced "then" ++ (yes.marks ++ (branchMarks rest ++
      [space, word "end"]))))
  | .call b [] => [word b.name]
  | .call b (f :: fs) =>
    word b.name :: inside .round (joinedMarks [sign .semicolon, space] (f :: fs))
  | .helper h f g =>
    word h.name :: inside .round (f.marks ++ sign .semicolon :: space :: g.marks)

/-- The marks of a bound of a slice. -/
def boundMarks : Option Filter → List Mark
  | none => []
  | some f => f.marks

/-- The marks of filters with marks between. -/
def joinedMarks (between : List Mark) : List Filter → List Mark
  | [] => []
  | [f] => f.marks
  | f :: fs => f.marks ++ (between ++ joinedMarks between fs)

/-- The marks of the entries of an object. -/
def entryMarks : List (String × Filter) → List Mark
  | [] => []
  | [(key, f)] => quoted key :: sign .colon :: space :: inside .round f.marks
  | (key, f) :: rest =>
    quoted key :: sign .colon :: space :: (inside .round f.marks ++
      sign .comma :: space :: entryMarks rest)

/-- The marks of the branches behind the first one. -/
def branchMarks : Branch → List Mark
  | .otherwise f => spaced "else" ++ f.marks
  | .elseIf test yes rest =>
    spaced "elif" ++ (test.marks ++ (spaced "then" ++ (yes.marks ++ branchMarks rest)))

end

open Mark

theorem toList_operator (op : Operator) : op.text = op.mark.text := by
  cases op <;> rfl

mutual

/-- **The text of a filter** is that of its marks. -/
theorem toList_text : ∀ f : Filter, f.text.toList = render f.marks
  | .identity | .elements | .first | .boolean true | .boolean false | .null => by decide
  | .number n => (List.append_nil _).symm
  | .string s => (List.append_nil _).symm
  | .variable v => (List.append_nil _).symm
  | .field name => by
    simp [text, marks, inside, Mark.text, Punctuation.text]
  | .slice low high => by
    simp [text, marks, inside, Mark.text, Punctuation.text, toList_boundText low,
      toList_boundText high]
  | .group f => by simp [text, marks, inside, Mark.text, Punctuation.text, toList_text f]
  | .array f => by simp [text, marks, inside, Mark.text, Punctuation.text, toList_text f]
  | .object entries => by
    simp [text, marks, inside, Mark.text, Punctuation.text, toList_entriesText entries]
  | .sequence fs => by
    rw [text, marks, toList_joinedText [.sign .comma, .space] ", " rfl fs]
  | .pipe f g => by simp [text, marks, Mark.text, Punctuation.text, toList_text f, toList_text g]
  | .negate f => by simp [text, marks, Mark.text, Punctuation.text, toList_text f]
  | .operation op f g => by
    simp [text, marks, Mark.text, Punctuation.text, toList_text f, toList_text g,
      toList_operator op]
  | .bind value v body => by
    simp [text, marks, spaced, Mark.text, Punctuation.text, toList_text value, toList_text body]
  | .cond test yes rest => by
    simp [text, marks, spaced, Mark.text, toList_text test, toList_text yes, toList_branchText rest]
  | .call b [] => by simp [text, marks, Mark.text]
  | .call b (f :: fs) => by
    simp [text, marks, inside, Mark.text, Punctuation.text,
      toList_joinedText [.sign .semicolon, .space] "; " rfl (f :: fs)]
  | .helper h f g => by
    simp [text, marks, inside, Mark.text, Punctuation.text, toList_text f, toList_text g]

theorem toList_boundText : ∀ o : Option Filter, (boundText o).toList = render (boundMarks o)
  | none => rfl
  | some f => toList_text f

theorem toList_joinedText (between : List Mark) (mark : String)
    (h : mark.toList = render between) : ∀ fs : List Filter,
      (joinedText mark fs).toList = render (joinedMarks between fs)
  | [] => rfl
  | [f] => toList_text f
  | f :: g :: fs => by
    simp [joinedText, joinedMarks, h, toList_text f, toList_joinedText between mark h (g :: fs)]

theorem toList_entriesText : ∀ entries : List (String × Filter),
    (entriesText entries).toList = render (entryMarks entries)
  | [] => rfl
  | [(key, f)] => by
    simp [entriesText, entryMarks, inside, Mark.text, Punctuation.text, toList_text f]
  | (key, f) :: e :: rest => by
    simp [entriesText, entryMarks, inside, Mark.text, Punctuation.text, toList_text f,
      toList_entriesText (e :: rest)]

theorem toList_branchText : ∀ b : Branch, (branchText b).toList = render (branchMarks b)
  | .otherwise f => by simp [branchText, branchMarks, spaced, Mark.text, toList_text f]
  | .elseIf test yes rest => by
    simp [branchText, branchMarks, spaced, Mark.text, toList_text test, toList_text yes,
      toList_branchText rest]

end

end Filter

end RecordQuery
