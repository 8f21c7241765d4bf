import Dec.Grammar.Fault
import Dec.Tree.Builder

/-!
The machine that reads programs. A program is one block; a block is a list of statements in
braces; a statement is an assignment, a return or a block; an expression is a literal, a variable,
or one expression, or two with an operator between them, in parentheses. Every token is read once:
it either takes the machine on, perhaps with a request to the builder, or is the first one that
does not fit.
-/
namespace Dec.Grammar

inductive Paren (ν : Type) where
  | left (opened : Token)
  | right (opened : Token) (left : ν) (operator : Token)

inductive Head where
  | assign (name : Token)
  | ret (word : Token)
deriving DecidableEq

/-- An open block with its table so far and its finished statements, the last one first. -/
structure OpenBlock (ν : Type) where
  opened : Token
  table : Table
  body : List ν

inductive Phase (ν : Type) where
  /-- The opening brace of the program. -/
  | program
  /-- A statement, or the end of the innermost block. -/
  | statement
  /-- The sign of an assignment to this name. -/
  | assignSign (name : Token)
  /-- An expression inside these parentheses, innermost first. -/
  | operand (head : Head) (parens : List (Paren ν))
  /-- An operator or the closing parenthesis, after the left operand. -/
  | afterLeft (head : Head) (opened : Token) (left : ν) (outer : List (Paren ν))
  /-- The closing parenthesis, after the right operand. -/
  | afterRight (head : Head) (opened : Token) (left : ν) (operator : Token) (right : ν)
      (outer : List (Paren ν))
  /-- Nothing more. -/
  | complete (program : ν)

structure State (ν : Type) where
  phase : Phase ν
  blocks : List (OpenBlock ν)
  nextTable : Nat

/-- Why a reading ends without a program: the text is wrong, an operator token does not spell an
operator, or the builder does not meet a request. -/
inductive Failure (ε : Type) where
  | fault (fault : SyntaxFault)
  | unknownOperator (symbol : String)
  | refused (reason : ε)

variable {ε σ ν : Type}

/-- How builders are called: the request and its place, in a state that outlives a failure. -/
abbrev Answer (ε σ ν : Type) := Creation ν → Option Location → σ → Except ε ν × σ

abbrev Reading (ε σ : Type) := ExceptT (Failure ε) (StateM σ)

def request (build : Answer ε σ ν) (creation : Creation ν) (location : Option Location) :
    Reading ε σ ν :=
  fun s =>
    match build creation location s with
    | (.ok node, s) => (.ok node, s)
    | (.error reason, s) => (.error (.refused reason), s)

def reject (fault : SyntaxFault) : Reading ε σ (State ν) := throw (.fault fault)

def Phase.parens : Phase ν → Nat
  | operand _ parens => parens.length
  | afterLeft _ _ _ outer => outer.length + 1
  | afterRight _ _ _ _ _ outer => outer.length + 1
  | _ => 0

def State.depth (c : State ν) : Nat := c.blocks.length + c.phase.parens

def openBlock (t : Token) (c : State ν) : State ν :=
  let outer := c.blocks.head?.map (·.table)
  let table : Table :=
    ⟨c.nextTable, outer.map (·.id), (outer.map (·.depth + 1)).getD 0, .empty⟩
  ⟨.statement, ⟨t, table, []⟩ :: c.blocks, c.nextTable + 1⟩

/-- Puts a finished statement into the innermost block; outside all blocks it is the program. -/
def addStatement (statement : ν) (c : State ν) : State ν :=
  match c.blocks with
  | [] => { c with phase := .complete statement }
  | b :: outer =>
    { c with phase := .statement, blocks := { b with body := statement :: b.body } :: outer }

def declare (name : String) (c : State ν) : State ν :=
  match c.blocks with
  | [] => c
  | b :: outer =>
    { c with blocks :=
      { b with table := { b.table with bindings := b.table.bindings.define name none } } :: outer }

/-- Goes on after a whole expression: inside the next parenthesis, or with the statement done. -/
def finishOperand (build : Answer ε σ ν) (head : Head) (value : ν) (c : State ν) :
    List (Paren ν) → Reading ε σ (State ν)
  | .left opened :: outer => return { c with phase := .afterLeft head opened value outer }
  | .right opened left operator :: outer =>
    return { c with phase := .afterRight head opened left operator value outer }
  | [] =>
    match head with
    | .assign name => do
      -- the table changes only if the builder meets both requests
      let c := declare name.lexeme c
      let target ← request build (.var name.lexeme) name.location
      let statement ← request build (.assign target value) name.location
      return addStatement statement c
    | .ret word => do
      let statement ← request build (.ret value) word.location
      return addStatement statement c

def closeBlock (build : Answer ε σ ν) (c : State ν) : Reading ε σ (State ν) :=
  match c.blocks with
  | [] => return c
  | b :: outer => do
    let block ← request build (.block b.body.reverse (some b.table)) b.opened.location
    return addStatement block { c with blocks := outer }

def requestOperator (build : Answer ε σ ν) (symbol : String) (left right : ν)
    (location : Option Location) : Reading ε σ ν :=
  match BinaryOp.ofSymbol? symbol with
  | some op => request build (.binary op left right) location
  | none => throw (.unknownOperator symbol)

-- The machine keeps the open blocks and parentheses on stacks of its own. They stand for calls that
-- are nested on the host's stack, and how many of them it has room for depends on the calls around
-- the reading and on those that the builder nests in turn. The `limit` of a reading is that number.

def step (limit : Nat) (build : Answer ε σ ν) (t : Token) (c : State ν) : Reading ε σ (State ν) :=
  let deeper (next : State ν) : Reading ε σ (State ν) :=
    if c.depth < limit then return next else reject (.tooDeep t)
  match c.phase with
  | .program =>
    match t.kind with
    | .leftBrace => deeper (openBlock t c)
    | _ => reject (.unexpected (.kind .leftBrace) t)
  | .statement =>
    match t.kind with
    | .rightBrace => closeBlock build c
    | .leftBrace => deeper (openBlock t c)
    | .identifier => return { c with phase := .assignSign t }
    | .returnWord => return { c with phase := .operand (.ret t) [] }
    | .assign => reject (.misusedOperator .assignWithoutTarget t)
    | .unknown => reject (.misusedOperator .unknownSign t)
    | _ => reject (.unexpected (.phrase "statement") t)
  | .assignSign name =>
    match t.kind with
    | .assign => return { c with phase := .operand (.assign name) [] }
    | .unknown => reject (.misusedOperator (.insteadOfAssign name.lexeme) t)
    | _ => reject (.unexpected (.kind .assign) t)
  | .operand head parens =>
    match t.kind with
    -- literals and names are whole operands, a parenthesis opens one
    | .integer | .float => do
      let value ← request build (.literal t.value) t.location
      finishOperand build head value c parens
    | .identifier => do
      let value ← request build (.var t.lexeme) t.location
      finishOperand build head value c parens
    | .leftParen => deeper { c with phase := .operand head (.left t :: parens) }
    | .unknown => reject (.misusedOperator .unknownSign t)
    | .assign => reject (.misusedOperator .assignBeforeOperand t)
    | _ => reject (.noExpression t)
  | .afterLeft head opened left outer =>
    match t.kind with
    -- parentheses around one expression mean nothing
    | .rightParen => finishOperand build head left c outer
    | .operator _ => return { c with phase := .operand head (.right opened left t :: outer) }
    | .unknown => reject (.misusedOperator .unknownSign t)
    | .assign => reject (.misusedOperator .assignInsideExpression t)
    | _ => reject (.unexpected (.phrase "binary operator or ')'") t)
  | .afterRight head opened left operator right outer =>
    match t.kind with
    | .rightParen => do
      let value ← requestOperator build operator.lexeme left right opened.location
      finishOperand build head value c outer
    | _ => reject (.unexpected (.kind .rightParen) t)
  | .complete _ => reject (.trailingInput t)

def finish (t : Token) (c : State ν) : Except SyntaxFault ν :=
  match c.phase with
  | .program => .error (.unexpectedEnd (.kind .leftBrace) t)
  | .statement =>
    .error (.unclosed .brace (c.blocks.head?.bind (·.opened.location)) t)
  | .assignSign _ => .error (.unexpectedEnd (.kind .assign) t)
  | .operand .. => .error (.unexpectedEnd (.phrase "expression") t)
  | .afterLeft _ opened .. => .error (.unclosed .paren opened.location t)
  | .afterRight _ opened .. => .error (.unclosed .paren opened.location t)
  | .complete program => .ok program

structure Outcome (ε ν : Type) where
  result : Except (Failure ε) ν
  consumed : Nat
  openBlocks : Nat
  nextTable : Nat

/-- How many blocks are open after a token that ended the reading. A builder that fails at the end
of a block fails when the block is closed already. -/
def openAfter (t : Token) (blocks : Nat) : Failure ε → Nat
  | .fault _ => blocks
  | _ => if t.kind = .rightBrace then blocks - 1 else blocks

/-- Reads the tokens before the end of the input, `consumed` of which came earlier. -/
def run (limit : Nat) (build : Answer ε σ ν) (endToken : Token) (consumed : Nat) (c : State ν)
    (s : σ) : List Token → Outcome ε ν × σ
  | [] =>
    let result := match finish endToken c with
      | .ok program => .ok program
      | .error fault => .error (.fault fault)
    (⟨result, consumed, c.blocks.length, c.nextTable⟩, s)
  | t :: rest =>
    match step limit build t c s with
    | (.ok next, s) => run limit build endToken (consumed + 1) next s rest
    | (.error failure, s) =>
      -- a token that does not fit is not consumed, one whose request was refused is
      let consumed := match failure with
        | .fault _ => consumed
        | _ => consumed + 1
      (⟨.error failure, consumed, openAfter t c.blocks.length failure, c.nextTable⟩, s)

/-- The tokens before the first end of the input, and the token that marks the end. Where there is
none, the end is at the last token. -/
def splitEnd (tokens : List Token) : List Token × Token :=
  let before := tokens.takeWhile fun t => !t.isEnd
  match tokens.dropWhile fun t => !t.isEnd with
  | t :: _ => (before, t)
  | [] =>
    let place := match tokens.getLast? with
      | some t => t.location
      | none => some Location.unknown
    (before, .endOfInput place)

def parse (limit : Nat) (build : Answer ε σ ν) (tokens : List Token) (firstTable : Nat) (s : σ) :
    Outcome ε ν × σ :=
  let (before, endToken) := splitEnd tokens
  run limit build endToken 0 ⟨.program, [], firstTable⟩ s before

end Dec.Grammar
