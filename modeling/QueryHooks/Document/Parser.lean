import QueryHooks.Document.Lexeme
import QueryHooks.Document.Selection
import QueryHooks.Document.TypeReader

/-!
# Parsing documents

A document is parsed one token at a time, with no token looked at twice: the parser is a fold over
the lexemes.  The parse fails at the first lexeme that cannot follow those before it, or at the end
of the text if more would have to follow.  A block string whose lines cannot be cut does not make
the parse fail: it ends the whole program.

Main definitions: `Stop`, `Parser`, `Parser.step`, `parse`.
-/

namespace QueryHooks.Document

/-- What comes next, outside of selection sets. -/
inductive HeadReader where
  /-- The keyword or the brace that begins a definition, or the end of the document. -/
  | outside
  /-- The name of an operation, or what follows where there is none. -/
  | operationName (definition : OperationDefinition)
  /-- The variables of an operation, or what follows where there are none. -/
  | variableList (definition : OperationDefinition)
  /-- The dollar sign of a variable, or the end of the variables unless it would be the first. -/
  | dollar (definition : OperationDefinition) (first : Bool)
  /-- The name of a variable. -/
  | variableName (definition : OperationDefinition)
  /-- The colon behind the name of a variable. -/
  | variableColon (definition : OperationDefinition) (name : String)
  /-- The type of a variable, or what follows when it is complete. -/
  | variableType (definition : OperationDefinition) (name : String) (reader : TypeReader)
  /-- The default value of a variable. -/
  | variableDefault (definition : OperationDefinition) (name : String) (type : TypeSyntax)
    (reader : ValueReader)
  /-- The name of a fragment. -/
  | fragmentName
  /-- The word `on` behind the name of a fragment. -/
  | fragmentOn (name : String)
  /-- The type of a fragment. -/
  | fragmentType (name : String)
  /-- The directives and the selections of a definition. -/
  | body (definition : Definition) (place : SelectionReader.Place)
  deriving Repr

/-- Why a document is not read to its end. -/
inductive Stop where
  /-- What stands at a position cannot follow what stands in front of it. -/
  | rejected (position : Position)
  /-- The program ends while it cuts the lines of a block string. -/
  | crashed
  deriving DecidableEq, Repr

/-- A parser between two tokens. -/
structure Parser where
  /-- The definitions that are complete, in order. -/
  definitions : List Definition := []
  reader : HeadReader := .outside
  deriving Repr

/-- The definition of an operation of which nothing but its first token was read. -/
def OperationDefinition.opening (position : Position) (kind : Operation.Kind) :
    OperationDefinition :=
  { position, kind, name? := none, declared := [] }

/-- An operation definition with one variable more. -/
def OperationDefinition.declare (definition : OperationDefinition) (v : VariableDefinition) :
    OperationDefinition :=
  { definition with declared := definition.declared ++ [v] }

/-- The kind of operation that a keyword begins. -/
def kindOfKeyword? (keyword : List Char) : Option Operation.Kind :=
  if keyword = "query".toList then some .query
  else if keyword = "mutation".toList then some .mutation
  else if keyword = "subscription".toList then some .subscription
  else none

namespace HeadReader

/-- Begin a definition. -/
def begin? (lexeme : Lexeme) : Option HeadReader :=
  match lexeme.token with
  | .name chars =>
    if chars = "fragment".toList then some fragmentName
    else (kindOfKeyword? chars).map fun kind => operationName (.opening lexeme.position kind)
  | .punctuator '\x7b' =>
    some (body (.operation (.opening lexeme.position .query)) (1, .selection true))
  | _ => none

/-- Take a token of the body of a definition. -/
def stepBody (definition : Definition) (place : SelectionReader.Place) (token : Token) :
    Option (Progress HeadReader Definition) :=
  (SelectionReader.step place token).map fun
    | .more place => .more (body definition place)
    | .done () => .done definition

/-- Take a token where the variables of an operation may stand. -/
def stepVariables (definition : OperationDefinition) (token : Token) :
    Option (Progress HeadReader Definition) :=
  match token with
  | .punctuator '(' => some (.more (dollar definition true))
  | token => stepBody (.operation definition) SelectionReader.start token

/-- Take a token where a variable may stand. -/
def stepDollar (definition : OperationDefinition) (first : Bool) (token : Token) :
    Option (Progress HeadReader Definition) :=
  match token with
  | .punctuator '$' => some (.more (variableName definition))
  | .punctuator ')' =>
    if first then none else some (.more (body (.operation definition) SelectionReader.start))
  | _ => none

/-- Take a token behind the complete type of a variable. -/
def stepAfterType (definition : OperationDefinition) (name : String) (type : TypeSyntax)
    (token : Token) : Option (Progress HeadReader Definition) :=
  match token with
  | .punctuator '=' => some (.more (variableDefault definition name type .start))
  | token => stepDollar (definition.declare ⟨name, type, none⟩) false token

/-- Take one lexeme, if it can come next; a definition that it completes is handed out. -/
def step (reader : HeadReader) (lexeme : Lexeme) : Option (Progress HeadReader Definition) :=
  match reader, lexeme.token with
  | outside, _ => (begin? lexeme).map .more
  | operationName head, .name chars =>
    some (.more (variableList { head with name? := some (String.ofList chars) }))
  | operationName head, token => stepVariables head token
  | variableList head, token => stepVariables head token
  | dollar head first, token => stepDollar head first token
  | variableName head, .name chars => some (.more (variableColon head (String.ofList chars)))
  | variableColon head name, .punctuator ':' => some (.more (variableType head name .start))
  | variableType head name reader, token =>
    match reader.step token with
    | some reader => some (.more (variableType head name reader))
    | none => reader.complete?.bind (stepAfterType head name · token)
  | variableDefault head name type reader, token =>
    (reader.step false token).map fun
      | .more reader => .more (variableDefault head name type reader)
      | .done value => .more (dollar (head.declare ⟨name, type, some value⟩) false)
  | fragmentName, .name chars => some (.more (fragmentOn (String.ofList chars)))
  | fragmentOn name, .name chars =>
    if chars = "on".toList then some (.more (fragmentType name)) else none
  | fragmentType name, .name _ => some (.more (body (.fragment name) SelectionReader.start))
  | body definition place, token => stepBody definition place token
  | _, _ => none

/-- Whether a string can come next, be it in quotes or a block. -/
def takesString (reader : HeadReader) : Bool :=
  (reader.step ⟨{}, .string []⟩).isSome

end HeadReader

/-- Whether a token is a block string with a line that cannot be cut. -/
def Token.isBroken : Token → Bool
  | .block chars => (decodeBlock? chars).isNone
  | _ => false

namespace Parser

/-- Why a lexeme is not taken. -/
def stopAt (parser : Parser) (lexeme : Lexeme) : Stop :=
  if lexeme.token.isBroken && parser.reader.takesString then .crashed
  else .rejected lexeme.position

/-- Take one lexeme, or stop at it. -/
def step (parser : Parser) (lexeme : Lexeme) : Except Stop Parser :=
  match parser.reader.step lexeme with
  | none => .error (parser.stopAt lexeme)
  | some (.more reader) => .ok { parser with reader }
  | some (.done definition) => .ok ⟨parser.definitions ++ [definition], .outside⟩

/-- Take lexemes in order, up to the first that cannot come next. -/
def run (parser : Parser) (lexemes : List Lexeme) : Except Stop Parser :=
  lexemes.foldlM step parser

/-- The definitions of a document that ends here, if it may. -/
def complete? (parser : Parser) : Option (List Definition) :=
  match parser.reader with
  | .outside => if parser.definitions.isEmpty then none else some parser.definitions
  | _ => none

@[simp]
theorem run_nil (parser : Parser) : parser.run [] = .ok parser :=
  rfl

/-- Taking two lists of lexemes one after the other is taking both at once. -/
theorem run_append (parser : Parser) (lexemes later : List Lexeme) :
    parser.run (lexemes ++ later) = parser.run lexemes >>= (·.run later) := by
  simp [run]

end Parser

/-- The definitions of a document, or why it is not read to its end. -/
def parse (text : String) : Except Stop (List Definition) := do
  let lexemes := scan text.toList
  let parser ← Parser.run {} lexemes.lexemes
  match lexemes.ending, parser.complete? with
  | .endOfText _, some definitions => return definitions
  | ending, _ => throw (.rejected ending.position)

end QueryHooks.Document
