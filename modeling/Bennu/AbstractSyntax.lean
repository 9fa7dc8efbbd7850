import Bennu.Parser

/-! Programs as syntax trees without source spans: which of them the grammar admits, how
they are written, and the tables they stand for. -/
namespace Bennu

/-- A scalar literal. A double is given by its spelling, since its value is the
platform's reading of it. -/
inductive Literal where
  | boolean (value : Bool)
  | integer (value : Int64)
  | real (spelling : Text)
  deriving DecidableEq, Repr

inductive Expr where
  | scalar (literal : Literal)
  | vector (type : ScalarType) (elements : List Literal)
  | parameter (index : Nat)
  | unresolved (name : Text)
  | bracketCall (name : Text) (arguments : List Expr)
  | prefixCall (name : Text) (argument : Expr)
  | tuple (elements : List Expr)
  | placeholder
  | fanout (operand : Expr) (branches : List Expr)
  deriving Repr

structure AbstractProgram where
  parameters : List (Text × ScalarType)
  roots : List Expr
  deriving Repr

/-! ### Literals -/

def readDouble (parser : RewriteDoubleParser) (spelling : Text) : Option Binary64 :=
  if spelling = "inf".toList then some positiveInfinity
  else if spelling = "nan".toList then some canonicalNanBits
  else
    let token := numericToken parser spelling ⟨0,0,0⟩ ⟨0,0,0⟩
    if token.kind = .doubleLiteral then some token.doublePrecision else none

namespace Literal

def type : Literal → ScalarType
  | boolean _ => .boolean
  | integer _ => .integer
  | real _ => .doublePrecision

def booleanValue : Literal → Bool
  | boolean value => value
  | _ => false

def integerValue : Literal → Int64
  | integer value => value
  | _ => 0

def doubleValue (parser : RewriteDoubleParser) : Literal → Binary64
  | real spelling => (readDouble parser spelling).getD 0
  | _ => 0

/-- A double's spelling must be one the tokenizer takes for a double. -/
def Readable (parser : RewriteDoubleParser) : Literal → Prop
  | real spelling => (readDouble parser spelling).isSome = true
  | _ => True

end Literal

/-! ### The tables of a program, spans left out -/

structure NodeShape where
  kind : RewriteNodeKind
  elementType : ScalarType
  boolean : Bool
  integer : Int64
  doublePrecision : Binary64
  firstElement : Nat
  elementCount : Nat
  firstElementSpan : Nat
  callIndex : Nat
  deriving DecidableEq, Repr

structure CallShape where
  callSyntax : RewriteCallSyntax
  name : Text
  firstArgument : Nat
  argumentCount : Nat
  deriving DecidableEq, Repr

structure FanoutShape where
  operand : Nat
  firstBranch : Nat
  branchCount : Nat
  deriving DecidableEq, Repr

structure ProgramShape where
  nodes : List NodeShape
  arguments : List Nat
  roots : List Nat
  calls : List CallShape
  booleanElements : List UInt8
  integerElements : List Int64
  doubleElements : List Binary64
  /-- How many vector elements there are, of whatever type. -/
  elementTotal : Nat
  tupleElements : List Nat
  fanouts : List FanoutShape
  branchRoots : List Nat
  deriving DecidableEq, Repr

def emptyShape : ProgramShape := ⟨[],[],[],[],[],[],[],0,[],[],[]⟩

def RewriteNode.shape (node : RewriteNode) : NodeShape :=
  ⟨node.kind,node.elementType,node.boolean,node.integer,node.doublePrecision,
    node.firstElement,node.elementCount,node.firstElementSpan,node.callIndex⟩

def RewriteCall.shape (source : Text) (call : RewriteCall) : CallShape :=
  ⟨call.callSyntax,spanSpelling source call.nameSpan,call.firstArgument,call.argumentCount⟩

def RewriteFanout.shape (fanout : RewriteFanout) : FanoutShape :=
  ⟨fanout.operand,fanout.firstBranch,fanout.branchCount⟩

/-- The tables of a parse result up to source spans; a name span becomes the name. -/
def RewriteProgram.shape (program : RewriteProgram) : ProgramShape where
  nodes := program.nodes.map RewriteNode.shape
  arguments := program.arguments
  roots := program.roots
  calls := program.calls.map (RewriteCall.shape program.source)
  booleanElements := program.booleanElements
  integerElements := program.integerElements
  doubleElements := program.doubleElements
  elementTotal := program.vectorElementSpans.length
  tupleElements := program.tupleElements
  fanouts := program.fanouts.map RewriteFanout.shape
  branchRoots := program.fanoutBranches.map (·.root)

/-- The declarations of a parse result up to source spans. -/
def RewriteProgram.declared (program : RewriteProgram) : List (Text × ScalarType) :=
  program.parameterHeader.declarations.map fun declaration =>
    (declaration.name,declaration.type)

/-! ### Laying a tree out as tables, children first -/

namespace ProgramShape

def blank (kind : RewriteNodeKind) : NodeShape := ⟨kind,.boolean,false,0,0,0,0,0,0⟩

def add (shape : ProgramShape) (node : NodeShape) : ProgramShape :=
  { shape with nodes := shape.nodes ++ [node] }

/-- The index of the node added last. -/
def last (shape : ProgramShape) : Nat := shape.nodes.length - 1

def payloadSize (shape : ProgramShape) (type : ScalarType) : Nat :=
  match type with
  | .boolean => shape.booleanElements.length
  | .integer => shape.integerElements.length
  | .doublePrecision => shape.doubleElements.length

def addElement (parser : RewriteDoubleParser) (type : ScalarType) (shape : ProgramShape)
    (literal : Literal) : ProgramShape :=
  let shape := { shape with elementTotal := shape.elementTotal + 1 }
  match type with
  | .boolean =>
    { shape with
      booleanElements := shape.booleanElements ++ [if literal.booleanValue then 1 else 0] }
  | .integer =>
    { shape with integerElements := shape.integerElements ++ [literal.integerValue] }
  | .doublePrecision =>
    { shape with doubleElements := shape.doubleElements ++ [literal.doubleValue parser] }

def scalarNode (parser : RewriteDoubleParser) (literal : Literal) : NodeShape :=
  { blank .scalarLiteral with
    elementType := literal.type
    boolean := literal.booleanValue
    integer := literal.integerValue
    doublePrecision := literal.doubleValue parser }

def vectorNode (type : ScalarType) (firstElement elementCount firstElementSpan : Nat) :
    NodeShape :=
  { blank .vectorLiteral with elementType := type, firstElement, elementCount, firstElementSpan }

def parameterNode (types : List ScalarType) (index : Nat) : NodeShape :=
  { blank .parameterReference with
    elementType := types.getD index .boolean
    firstElement := index }

def callNode (callIndex : Nat) : NodeShape := { blank .primitiveCall with callIndex }

def tupleNode (firstElement elementCount : Nat) : NodeShape :=
  { blank .tupleLiteral with
    firstElement, elementCount, firstElementSpan := firstElement }

def placeholderNode (operand : Nat) : NodeShape :=
  { blank .placeholder with firstElement := operand }

def fanoutNode (firstElement elementCount callIndex : Nat) : NodeShape :=
  { blank .fanout with firstElement, elementCount, callIndex }

def addVector (parser : RewriteDoubleParser) (shape : ProgramShape) (type : ScalarType)
    (elements : List Literal) : ProgramShape :=
  (elements.foldl (addElement parser type) shape).add
    (vectorNode type (shape.payloadSize type) elements.length shape.elementTotal)

def addCall (shape : ProgramShape) (callSyntax : RewriteCallSyntax) (name : Text)
    (arguments : List Nat) : ProgramShape :=
  { shape with
    arguments := shape.arguments ++ arguments
    calls := shape.calls ++
      [⟨callSyntax,name,shape.arguments.length,arguments.length⟩]
    nodes := shape.nodes ++ [callNode shape.calls.length] }

def addTuple (shape : ProgramShape) (elements : List Nat) : ProgramShape :=
  { shape with
    tupleElements := shape.tupleElements ++ elements
    nodes := shape.nodes ++ [tupleNode shape.tupleElements.length elements.length] }

def addBranch (shape : ProgramShape) (root : Nat) : ProgramShape :=
  { shape with branchRoots := shape.branchRoots ++ [root] }

def addFanout (shape : ProgramShape) (operand branchCount : Nat) : ProgramShape :=
  let firstBranch := shape.branchRoots.length - branchCount
  { shape with
    fanouts := shape.fanouts ++ [⟨operand,firstBranch,branchCount⟩]
    nodes := shape.nodes ++ [fanoutNode firstBranch branchCount shape.fanouts.length] }

def addRoot (shape : ProgramShape) (root : Nat) : ProgramShape :=
  { shape with roots := shape.roots ++ [root] }

end ProgramShape

/-- What laying out a tree depends on besides the tree. -/
structure Layout where
  parser : RewriteDoubleParser
  types : List ScalarType

mutual

/-- The tables after a tree has been laid out, its root last; `operand` is the node a
placeholder stands for. -/
def Layout.emit (layout : Layout) (operand : Option Nat) :
    Expr → ProgramShape → ProgramShape
  | .scalar literal,shape => shape.add (ProgramShape.scalarNode layout.parser literal)
  | .vector type elements,shape => shape.addVector layout.parser type elements
  | .parameter index,shape => shape.add (ProgramShape.parameterNode layout.types index)
  | .unresolved _,shape => shape.add (ProgramShape.blank .unresolvedName)
  | .bracketCall name arguments,shape =>
    let emitted := layout.emitAll operand arguments shape
    emitted.1.addCall .bracketed name emitted.2
  | .prefixCall name argument,shape =>
    let emitted := layout.emit operand argument shape
    emitted.addCall .prefixed name [emitted.last]
  | .tuple elements,shape =>
    let emitted := layout.emitAll operand elements shape
    emitted.1.addTuple emitted.2
  | .placeholder,shape => shape.add (ProgramShape.placeholderNode (operand.getD 0))
  | .fanout source branches,shape =>
    let emitted := layout.emit none source shape
    (layout.emitBranches emitted.last branches emitted).1.addFanout emitted.last
      branches.length

/-- The trees one after the other, with the indices of their roots. -/
def Layout.emitAll (layout : Layout) (operand : Option Nat) :
    List Expr → ProgramShape → ProgramShape × List Nat
  | [],shape => (shape,[])
  | tree :: rest,shape =>
    let emitted := layout.emit operand tree shape
    let later := layout.emitAll operand rest emitted
    (later.1,emitted.last :: later.2)

/-- The branches of a fanout over `operand`, each entered into the branch table. -/
def Layout.emitBranches (layout : Layout) (operand : Nat) :
    List Expr → ProgramShape → ProgramShape × List Nat
  | [],shape => (shape,[])
  | branch :: rest,shape =>
    let emitted := layout.emit (some operand) branch shape
    let later := layout.emitBranches operand rest (emitted.addBranch emitted.last)
    (later.1,emitted.last :: later.2)

end

def Layout.emitRoots (layout : Layout) : List Expr → ProgramShape → ProgramShape
  | [],shape => shape
  | root :: rest,shape =>
    let emitted := layout.emit none root shape
    layout.emitRoots rest (emitted.addRoot emitted.last)

def AbstractProgram.layout (parser : RewriteDoubleParser) (program : AbstractProgram) :
    Layout :=
  ⟨parser,program.parameters.map (·.2)⟩

/-- The tables a program stands for. -/
def AbstractProgram.compile (parser : RewriteDoubleParser) (program : AbstractProgram) :
    ProgramShape :=
  (program.layout parser).emitRoots program.roots emptyShape

/-! ### The grammar -/

mutual

def Expr.placeholders : Expr → Nat
  | .bracketCall _ arguments => Expr.placeholdersIn arguments
  | .prefixCall _ argument => argument.placeholders
  | .tuple elements => Expr.placeholdersIn elements
  | .placeholder => 1
  | _ => 0

def Expr.placeholdersIn : List Expr → Nat
  | [] => 0
  | tree :: rest => tree.placeholders + Expr.placeholdersIn rest

end

mutual

/-- Some placeholder lies inside a tuple literal. -/
def Expr.ownedPlaceholder : Expr → Bool
  | .bracketCall _ arguments => Expr.ownedPlaceholderIn arguments
  | .prefixCall _ argument => argument.ownedPlaceholder
  | .tuple elements => Expr.placeholdersIn elements != 0
  | _ => false

def Expr.ownedPlaceholderIn : List Expr → Bool
  | [] => false
  | tree :: rest => tree.ownedPlaceholder || Expr.ownedPlaceholderIn rest

end

def Expr.isCall : Expr → Bool
  | .bracketCall _ _ | .prefixCall _ _ => true
  | _ => false

/-- A fanout branch is a call with one placeholder, which no tuple literal owns. -/
def Expr.isBranch (branch : Expr) : Bool :=
  branch.isCall && branch.placeholders == 1 && !branch.ownedPlaceholder

/-- Where a tree stands: outside of every fanout, in a fanout's operand, or in a branch. -/
inductive Place where
  | outside | operand | branch
  deriving DecidableEq, Repr

/-- A spelling the tokenizer takes for a name, the keyword of a fanout excepted. -/
def isCallName (name : Text) : Bool :=
  parameterNameSpelling name && name != "true".toList && name != "false".toList &&
    name != "inf".toList && name != "nan".toList && name != "fanout".toList

/-- What a tree may mention: the declared names, and bare names if `leaves`. -/
structure Vocabulary where
  parser : RewriteDoubleParser
  declared : List Text
  leaves : Bool

mutual

def Vocabulary.Allows (vocabulary : Vocabulary) (place : Place) (atRoot : Bool) :
    Expr → Prop
  | .scalar literal => literal.Readable vocabulary.parser
  | .vector type elements =>
    ∀ literal ∈ elements, literal.Readable vocabulary.parser ∧ literal.type = type
  | .parameter index => index < vocabulary.declared.length
  | .unresolved name =>
    vocabulary.leaves = true ∧ isCallName name = true ∧ name ∉ vocabulary.declared ∧
      (atRoot = true → name ≠ "parameters".toList)
  | .bracketCall name arguments =>
    isCallName name = true ∧ (atRoot = true → name ≠ "parameters".toList) ∧
      vocabulary.AllowsAll place arguments
  | .prefixCall name argument =>
    isCallName name = true ∧ (atRoot = true → name ≠ "parameters".toList) ∧
      (name ∈ vocabulary.declared → atRoot = true) ∧ vocabulary.Allows place false argument
  | .tuple elements => vocabulary.AllowsAll place elements
  | .placeholder => place = .branch
  | .fanout operand branches =>
    place = .outside ∧ vocabulary.Allows .operand false operand ∧ branches ≠ [] ∧
      vocabulary.AllowsBranches branches

def Vocabulary.AllowsAll (vocabulary : Vocabulary) (place : Place) : List Expr → Prop
  | [] => True
  | tree :: rest => vocabulary.Allows place false tree ∧ vocabulary.AllowsAll place rest

def Vocabulary.AllowsBranches (vocabulary : Vocabulary) : List Expr → Prop
  | [] => True
  | branch :: rest =>
    (vocabulary.Allows .branch false branch ∧ branch.isBranch = true) ∧
      vocabulary.AllowsBranches rest

end

def Vocabulary.AllowsRoots (vocabulary : Vocabulary) (roots : List Expr) : Prop :=
  ∀ root ∈ roots, vocabulary.Allows .outside true root

def AbstractProgram.vocabulary (parser : RewriteDoubleParser) (leaves : Bool)
    (program : AbstractProgram) : Vocabulary :=
  ⟨parser,program.parameters.map (·.1),leaves⟩

/-- Distinct names, each a name by spelling and none reserved. -/
def DeclarationsResolve (parameters : List (Text × ScalarType)) : Prop :=
  (parameters.map (·.1)).Nodup ∧
    ∀ parameter ∈ parameters,
      parameterNameSpelling parameter.1 = true ∧ isReservedName parameter.1 = false

/-- The language of the parser; `leaves` admits bare names that nothing declares. -/
def AbstractProgram.InLanguage (parser : RewriteDoubleParser) (leaves : Bool)
    (program : AbstractProgram) : Prop :=
  DeclarationsResolve program.parameters ∧
    (program.vocabulary parser leaves).AllowsRoots program.roots

/-! ### The canonical rendering -/

def decimalDigit (digit : Nat) : Char := Char.ofNat ('0'.toNat + digit)

def decimalDigits (value : Nat) : Text :=
  if value < 10 then [decimalDigit value]
  else decimalDigits (value / 10) ++ [decimalDigit (value % 10)]

def renderInteger (value : Int) : Text :=
  if value < 0 then '-' :: decimalDigits value.natAbs else decimalDigits value.natAbs

def Literal.render : Literal → Text
  | boolean true => "true".toList
  | boolean false => "false".toList
  | integer value => renderInteger value.toInt
  | real spelling => spelling

def typeName : ScalarType → Text
  | .boolean => "Bool".toList
  | .integer => "Int".toList
  | .doublePrecision => "Double".toList

/-- Texts with single blanks between them. -/
def spaced : List Text → Text
  | [] => []
  | text :: rest => text ++ rest.flatMap fun text => ' ' :: text

mutual

def Expr.render (names : List Text) : Expr → Text
  | .scalar literal => literal.render
  | .vector type [] => typeName type ++ "()".toList
  | .vector _ elements => '(' :: spaced (elements.map Literal.render) ++ [')']
  | .parameter index => names.getD index []
  | .unresolved name => name
  | .bracketCall name arguments =>
    name ++ '[' :: spaced (Expr.renderAll names arguments) ++ [']']
  | .prefixCall name argument => name ++ ' ' :: argument.render names
  | .tuple elements => '[' :: spaced (Expr.renderAll names elements) ++ [']']
  | .placeholder => ['_']
  | .fanout operand branches =>
    "fanout[".toList ++ operand.render names ++ Expr.renderBranches names branches ++ [']']

def Expr.renderAll (names : List Text) : List Expr → List Text
  | [] => []
  | tree :: rest => tree.render names :: Expr.renderAll names rest

def Expr.renderBranches (names : List Text) : List Expr → Text
  | [] => []
  | branch :: rest => " \x7b".toList ++ branch.render names ++ '}' :: Expr.renderBranches names rest

end

def renderHeader (parameters : List (Text × ScalarType)) : Text :=
  if parameters.isEmpty then []
  else
    "parameters[".toList ++
      spaced (parameters.map fun parameter => parameter.1 ++ ' ' :: typeName parameter.2) ++
      "]\n".toList

/-- The canonical rendering: a header if there are parameters, then one root a line. -/
def AbstractProgram.render (program : AbstractProgram) : Text :=
  renderHeader program.parameters ++
    program.roots.flatMap fun root => root.render (program.parameters.map (·.1)) ++ ['\n']

end Bennu
