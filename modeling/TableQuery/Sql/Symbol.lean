/-
The words and signs that SQL statements are made of. A word is spelled as
it is written.
-/
namespace TableQuery

inductive Symbol where
  | SELECT | FROM | WHERE | AND | OR | ORDER | BY | ASC | DESC | LIMIT
  | OFFSET | IN | NOT | LIKE | IS | NULL | CASE | WHEN | THEN | ELSE
  | END | AS | CAST | INTEGER | TEXT | EXTRACT | DELETE | UPDATE | SET | INSERT
  | INTO | VALUES | DEFAULT | RETURNING
  | lparen | rparen | comma | star | eq | ne | lt | le | gt | ge
deriving DecidableEq, Repr

namespace Symbol

/-- Every symbol, words first. -/
def all : List Symbol :=
  [SELECT, FROM, WHERE, AND, OR, ORDER, BY, ASC, DESC, LIMIT, OFFSET, IN, NOT, LIKE, IS, NULL,
    CASE, WHEN, THEN, ELSE, END, AS, CAST, INTEGER, TEXT, EXTRACT, DELETE, UPDATE, SET, INSERT,
    INTO, VALUES, DEFAULT, RETURNING, lparen, rparen, comma, star, eq, ne, lt, le, gt, ge]

theorem mem_all (s : Symbol) : s ∈ all := by cases s <;> decide

/-- The name of a symbol; that of a word is its text. -/
def name : Symbol → String
  | SELECT => "SELECT"
  | FROM => "FROM"
  | WHERE => "WHERE"
  | AND => "AND"
  | OR => "OR"
  | ORDER => "ORDER"
  | BY => "BY"
  | ASC => "ASC"
  | DESC => "DESC"
  | LIMIT => "LIMIT"
  | OFFSET => "OFFSET"
  | IN => "IN"
  | NOT => "NOT"
  | LIKE => "LIKE"
  | IS => "IS"
  | NULL => "NULL"
  | CASE => "CASE"
  | WHEN => "WHEN"
  | THEN => "THEN"
  | ELSE => "ELSE"
  | END => "END"
  | AS => "AS"
  | CAST => "CAST"
  | INTEGER => "INTEGER"
  | TEXT => "TEXT"
  | EXTRACT => "EXTRACT"
  | DELETE => "DELETE"
  | UPDATE => "UPDATE"
  | SET => "SET"
  | INSERT => "INSERT"
  | INTO => "INTO"
  | VALUES => "VALUES"
  | DEFAULT => "DEFAULT"
  | RETURNING => "RETURNING"
  | lparen => "LPAREN"
  | rparen => "RPAREN"
  | comma => "COMMA"
  | star => "STAR"
  | eq => "EQ"
  | ne => "NE"
  | lt => "LT"
  | le => "LE"
  | gt => "GT"
  | ge => "GE"

def text : Symbol → String
  | lparen => "("
  | rparen => ")"
  | comma => ","
  | star => "*"
  | eq => "="
  | ne => "!="
  | lt => "<"
  | le => "<="
  | gt => ">"
  | ge => ">="
  | word => word.name

/-- The signs of comparison. -/
def isComparison : Symbol → Bool
  | eq | ne | lt | le | gt | ge => true
  | _ => false

/-- Parentheses and the comma. -/
def isPunctuation : Symbol → Bool
  | lparen | rparen | comma => true
  | _ => false

/-- The symbol of that name. -/
def ofName? (name : String) : Option Symbol := all.find? (·.name = name)

end Symbol

end TableQuery
