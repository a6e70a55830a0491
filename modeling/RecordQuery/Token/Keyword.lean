/-! # Reserved words

A word is reserved when it spells a keyword in any ASCII letter case. Five keywords can stand behind
`NOT` as one operator (`Negatable`). -/

namespace RecordQuery

/-- The reserved words, named as they are spelled. -/
inductive Keyword where
  | ALL | AND | AS | ASC | BETWEEN | BY | CURRENT_DATE | CURRENT_TIME | CURRENT_TIMESTAMP | DESC
  | DISTINCT | ELSE | EXCEPT | EXISTS | FALSE | FROM | GROUP | HAVING | IN | INTERSECT | IS | ISNULL
  | LIKE | LIMIT | NOT | NOTNULL | NULL | OFFSET | ON | OR | ORDER | REGEXP | SELECT | TRUE | UNION
  | WHERE
  deriving DecidableEq

namespace Keyword

/-- The spelling of a reserved word. -/
def text : Keyword → String
  | ALL => "ALL"
  | AND => "AND"
  | AS => "AS"
  | ASC => "ASC"
  | BETWEEN => "BETWEEN"
  | BY => "BY"
  | CURRENT_DATE => "CURRENT_DATE"
  | CURRENT_TIME => "CURRENT_TIME"
  | CURRENT_TIMESTAMP => "CURRENT_TIMESTAMP"
  | DESC => "DESC"
  | DISTINCT => "DISTINCT"
  | ELSE => "ELSE"
  | EXCEPT => "EXCEPT"
  | EXISTS => "EXISTS"
  | FALSE => "FALSE"
  | FROM => "FROM"
  | GROUP => "GROUP"
  | HAVING => "HAVING"
  | IN => "IN"
  | INTERSECT => "INTERSECT"
  | IS => "IS"
  | ISNULL => "ISNULL"
  | LIKE => "LIKE"
  | LIMIT => "LIMIT"
  | NOT => "NOT"
  | NOTNULL => "NOTNULL"
  | NULL => "NULL"
  | OFFSET => "OFFSET"
  | ON => "ON"
  | OR => "OR"
  | ORDER => "ORDER"
  | REGEXP => "REGEXP"
  | SELECT => "SELECT"
  | TRUE => "TRUE"
  | UNION => "UNION"
  | WHERE => "WHERE"

/-- All reserved words. -/
def all : List Keyword := [ALL, AND, AS, ASC, BETWEEN, BY, CURRENT_DATE, CURRENT_TIME,
  CURRENT_TIMESTAMP, DESC, DISTINCT, ELSE, EXCEPT, EXISTS, FALSE, FROM, GROUP, HAVING, IN,
  INTERSECT, IS, ISNULL, LIKE, LIMIT, NOT, NOTNULL, NULL, OFFSET, ON, OR, ORDER, REGEXP, SELECT,
  TRUE, UNION, WHERE]

/-- The reserved word that a word spells, ASCII case aside. -/
def ofWord? (word : List Char) : Option Keyword :=
  all.find? fun k => k.text.toList == word.map Char.toUpper

end Keyword

/-- The keywords that form one operator with a `NOT` in front of them. -/
inductive Negatable where
  | null | between | membership | like | regexp
  deriving DecidableEq

namespace Negatable

/-- The keyword behind the `NOT`. -/
def keyword : Negatable → Keyword
  | null => .NULL
  | between => .BETWEEN
  | membership => .IN
  | like => .LIKE
  | regexp => .REGEXP

/-- The operator that a keyword forms with a `NOT` in front of it. -/
def ofKeyword? : Keyword → Option Negatable
  | .NULL => some null
  | .BETWEEN => some between
  | .IN => some membership
  | .LIKE => some like
  | .REGEXP => some regexp
  | _ => none

theorem ofKeyword?_keyword (n : Negatable) : ofKeyword? n.keyword = some n := by
  cases n <;> rfl

end Negatable

end RecordQuery
