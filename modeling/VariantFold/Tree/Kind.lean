/-
The closed vocabulary of syntax tree nodes.
-/

namespace VariantFold

/-- What a syntax tree node stands for. -/
inductive Kind where
  | file
  | block
  | emptyStatement
  | statement
  | elseStatement
  | expression
  | loop
  | switchStatement
  | caseClause
  | defaultClause
  | breakStatement
  | continueStatement
  | returnStatement
  | throwStatement
  | call
  | operand
  | params
  | dottedName
  | identifier
  | accessor
  | key
  | map
  | keyValue
  | value
  | array
  | constant
  | operation
  | first
  | second
  | third
  | group
  | assignment
  | left
  | right
  | function
  | body
  | instantiation
  | var
  | definition
  | definitionList
  | comment
  | commentsBefore
  | commentsAfter
  deriving DecidableEq, Repr

namespace Kind

/-- All kinds, in the order in which they are listed to users. -/
def all : List Kind :=
  [file, block, emptyStatement, statement, elseStatement, expression, loop, switchStatement, caseClause,
    defaultClause, breakStatement, continueStatement, returnStatement, throwStatement, call, operand,
    params, dottedName, identifier, accessor, key, map, keyValue, value, array, constant, operation,
    first, second, third, group, assignment, left, right, function, body, instantiation, var,
    definition, definitionList, comment, commentsBefore, commentsAfter]

/-- The name of a kind in JSON text and in listings. -/
def name : Kind → String
  | file => "file"
  | block => "block"
  | emptyStatement => "emptyStatement"
  | statement => "statement"
  | elseStatement => "elseStatement"
  | expression => "expression"
  | loop => "loop"
  | switchStatement => "switch"
  | caseClause => "case"
  | defaultClause => "default"
  | breakStatement => "break"
  | continueStatement => "continue"
  | returnStatement => "return"
  | throwStatement => "throw"
  | call => "call"
  | operand => "operand"
  | params => "params"
  | dottedName => "variable"
  | identifier => "identifier"
  | accessor => "accessor"
  | key => "key"
  | map => "map"
  | keyValue => "keyvalue"
  | value => "value"
  | array => "array"
  | constant => "constant"
  | operation => "operation"
  | first => "first"
  | second => "second"
  | third => "third"
  | group => "group"
  | assignment => "assignment"
  | left => "left"
  | right => "right"
  | function => "function"
  | body => "body"
  | instantiation => "instantiation"
  | var => "var"
  | definition => "definition"
  | definitionList => "definitionList"
  | comment => "comment"
  | commentsBefore => "commentsBefore"
  | commentsAfter => "commentsAfter"

/-- The kind of a name, letter for letter. -/
def ofName? (s : String) : Option Kind := all.find? fun k => k.name = s

/-- Comments are passed over where the content of a node is counted. -/
def isComment : Kind → Bool
  | comment | commentsBefore | commentsAfter => true
  | _ => false

theorem ofName?_name (k : Kind) : ofName? k.name = some k := by
  cases k <;> decide

end Kind

end VariantFold
