import Lox.Proofs.Identity.Renaming
import Lox.Proofs.Labels.Tree
import Lox.Syntax.Printer
import Lox.Token.Lexeme

/-! A reader for the written form of trees. What it makes of the form of a tree is the tree without its
lines and identities; of other texts it makes something. -/

namespace Lox

/-- No lines, and the names as they are. -/
def Labels.unlined : Labels :=
  ⟨fun _ => 0, id⟩

def Expr.bare (value : Expr) : Expr :=
  (value.rename fun _ => 0).relabel .unlined

def Stmt.bare (stated : Stmt) : Stmt :=
  (stated.rename fun _ => 0).relabel .unlined

def FunctionDecl.bare (decl : FunctionDecl) : FunctionDecl :=
  (decl.rename fun _ => 0).relabel .unlined

/-- A program without the lines and the identities in it. -/
def Program.bare (program : Program) : Program :=
  program.map Stmt.bare

lemma Expr.map_bare (values : List Expr) :
    values.map Expr.bare = Expr.relabelAll .unlined (Expr.renameAll (fun _ => 0) values) := by
  rw [Expr.relabelAll_eq_map, Expr.renameAll_eq_map, List.map_map]
  rfl

lemma Stmt.map_bare (body : List Stmt) :
    body.map Stmt.bare = Stmt.relabelAll .unlined (Stmt.renameAll (fun _ => 0) body) := by
  rw [Stmt.relabelAll_eq_map, Stmt.renameAll_eq_map, List.map_map]
  rfl

lemma FunctionDecl.map_bare (decls : List FunctionDecl) :
    decls.map FunctionDecl.bare =
      FunctionDecl.relabelAll .unlined (FunctionDecl.renameAll (fun _ => 0) decls) := by
  rw [FunctionDecl.relabelAll_eq_map, FunctionDecl.renameAll_eq_map, List.map_map]
  rfl

/-- Fuel for what is written of a statement is not used up at once. -/
lemma Stmt.exists_fuel {stated : Stmt} {fuel : Nat} (h : stated.written.toList.length ≤ fuel) :
    ∃ k, fuel = k + 1 := by
  refine Nat.exists_eq_succ_of_ne_zero (Nat.ne_of_gt (Nat.lt_of_lt_of_le ?_ h))
  match stated with
  | .classDecl ⟨_, _, _⟩ => simp [Stmt.written, ClassDecl.written]
  | .expression _ | .print .. | .varDecl .. | .functionDecl _ | .block _ | .ifElse _ _ none
  | .ifElse _ _ (some _) | .whileLoop .. | .ret .. => simp [Stmt.written]

namespace Reader

open Lexeme (continuesIdentifier)

abbrev Found (α : Type) := α × List Char

def nameOf (word : List Char) : Name :=
  ⟨String.ofList word, 0⟩

/-- The word at the start of a text, which may be empty. -/
def lead (text : List Char) : List Char :=
  text.takeWhile continuesIdentifier

def behindLead (text : List Char) : List Char :=
  text.dropWhile continuesIdentifier

def name (text : List Char) : Found Name :=
  (nameOf (lead text), behindLead text)

def keyword? (word : List Char) : Option Token.Kind :=
  (Token.Kind.keywords.find? fun entry => entry.1.toList = word).map Prod.snd

def continuesNumber (c : Char) : Bool :=
  c.isDigit || c == '.' || c == '-'

def assemble (head : List Char) (operands : List Expr) : Expr :=
  match String.ofList head, operands with
  | "group", [inner] => .grouping inner
  | "call", callee :: arguments => .call callee arguments 0
  | ".", [object, .read property] => .get object property.name
  | "=", [.read target, value] => .assign target value
  | "=", [.get object property, value] => .set object property value
  | "-", [operand] => .unary .negate 0 operand
  | "!", [operand] => .unary .not 0 operand
  | "==", [left, right] => .binary .equal 0 left right
  | "!=", [left, right] => .binary .notEqual 0 left right
  | "<", [left, right] => .binary .less 0 left right
  | "<=", [left, right] => .binary .lessEqual 0 left right
  | ">", [left, right] => .binary .greater 0 left right
  | ">=", [left, right] => .binary .greaterEqual 0 left right
  | "+", [left, right] => .binary .add 0 left right
  | "-", [left, right] => .binary .subtract 0 left right
  | "*", [left, right] => .binary .multiply 0 left right
  | "/", [left, right] => .binary .divide 0 left right
  | "and", [left, right] => .logical .and 0 left right
  | "or", [left, right] => .logical .or 0 left right
  | _, _ => .literal .nil

/-- The expression that a word is, with the text behind it. -/
def ofWord (word rest : List Char) : Found Expr :=
  match keyword? word with
  | some .kwTrue => (.literal (.boolean true), rest)
  | some .kwFalse => (.literal (.boolean false), rest)
  | some .kwNil => (.literal .nil, rest)
  | some .kwThis => (.this ⟨0, ⟨"this", 0⟩⟩, rest)
  | some .kwSuper =>
    let (method, rest) := name rest.tail
    (.super ⟨0, ⟨"super", 0⟩⟩ method, rest)
  | _ => (.read ⟨0, nameOf word⟩, rest)

variable (number : List Char → Float)

def atom (text : List Char) : Found Expr :=
  match text with
  | '"' :: rest =>
    (.literal (.text (String.ofList (rest.takeWhile (· != '"')))), (rest.dropWhile (· != '"')).tail)
  | c :: _ =>
    if c.isDigit || c == '-' then
      (.literal (.number (number (text.takeWhile continuesNumber))), text.dropWhile continuesNumber)
    else ofWord (lead text) (behindLead text)
  | [] => (.literal .nil, [])

mutual

def expression : (fuel : Nat) → List Char → Found Expr
  | 0, text => (.literal .nil, text)
  | fuel + 1, '(' :: text =>
    let (values, rest) := operands fuel (text.dropWhile (· != ' '))
    (assemble (text.takeWhile (· != ' ')) values, rest)
  | _ + 1, text => atom number text

/-- Operands, each with a blank in front, and the parenthesis behind them. -/
def operands : (fuel : Nat) → List Char → Found (List Expr)
  | 0, text => ([], text)
  | _ + 1, ')' :: rest => ([], rest)
  | fuel + 1, text =>
    let (value, rest) := expression fuel text.tail
    let (values, rest) := operands fuel rest
    (value :: values, rest)

end

/-- Nothing in front of a semicolon, or else an expression behind so many characters. -/
def expressionAfter (lead fuel : Nat) (text : List Char) : Found (Option Expr) :=
  if text.head? = some ';' then (none, text)
  else
    let (value, rest) := expression number fuel (text.drop lead)
    (some value, rest)

/-- Names with a comma and a blank between, and the parenthesis behind them. -/
def names : (fuel : Nat) → List Char → Found (List Name)
  | 0, text => ([], text)
  | _ + 1, ')' :: rest => ([], rest)
  | fuel + 1, text =>
    let (first, rest) := name text
    let (others, rest) := names fuel (if rest.head? = some ',' then rest.drop 2 else rest)
    (first :: others, rest)

/-- The superclass of a class, if a `<` comes behind a blank. -/
def superclass (text : List Char) : Found (Option Reference) :=
  if [' ', '<'].isPrefixOf text then
    let (target, rest) := name (text.drop 3)
    (some ⟨0, target⟩, rest)
  else (none, text)

def elseText : String :=
  " else "

mutual

def statement : (fuel : Nat) → List Char → Found Stmt
  | 0, text => (.block [], text)
  | fuel + 1, text =>
    let rest := behindLead text
    match keyword? (lead text) with
    | some .kwPrint =>
      let (value, rest) := expression number fuel rest.tail
      (.print 0 value, rest.tail)
    | some .kwVar =>
      let (title, rest) := name rest.tail
      let (initial, rest) := expressionAfter number 3 fuel rest
      (.varDecl title initial, rest.tail)
    | some .kwReturn =>
      let (value, rest) := expressionAfter number 1 fuel rest
      (.ret ⟨"return", 0⟩ value, rest.tail)
    | some .kwFun =>
      let (decl, rest) := function fuel rest.tail
      (.functionDecl decl, rest)
    | some .kwClass =>
      let (title, rest) := name rest.tail
      let (parent, rest) := superclass rest
      let (decls, rest) := methods fuel (rest.drop 3)
      (.classDecl ⟨title, parent, decls⟩, rest)
    | some .kwIf =>
      let (condition, rest) := expression number fuel (rest.drop 2)
      let (thenBranch, rest) := statement fuel (rest.drop 2)
      if elseText.toList.isPrefixOf rest then
        let (elseBranch, rest) := statement fuel (rest.drop elseText.toList.length)
        (.ifElse condition thenBranch (some elseBranch), rest)
      else (.ifElse condition thenBranch none, rest)
    | some .kwWhile =>
      let (condition, rest) := expression number fuel (rest.drop 2)
      let (body, rest) := statement fuel (rest.drop 2)
      (.whileLoop condition body, rest)
    | _ =>
      if text.head? = some '\x7b' then
        let (inside, rest) := body fuel (text.drop 2)
        (.block inside, rest)
      else
        let (value, rest) := expression number fuel text
        (.expression value, rest.tail)

/-- Statements, each with a blank behind, and the brace behind them. -/
def body : (fuel : Nat) → List Char → Found (List Stmt)
  | 0, text => ([], text)
  | _ + 1, '\x7d' :: rest => ([], rest)
  | fuel + 1, text =>
    let (first, rest) := statement fuel text
    let (others, rest) := body fuel rest.tail
    (first :: others, rest)

def function : (fuel : Nat) → List Char → Found FunctionDecl
  | 0, text => (⟨⟨"", 0⟩, [], []⟩, text)
  | fuel + 1, text =>
    let (title, rest) := name text
    let (params, rest) := names fuel rest.tail
    let (inside, rest) := body fuel (rest.drop 3)
    (⟨title, params, inside⟩, rest)

/-- Methods, each with a blank behind, and the brace behind them. -/
def methods : (fuel : Nat) → List Char → Found (List FunctionDecl)
  | 0, text => ([], text)
  | _ + 1, '\x7d' :: rest => ([], rest)
  | fuel + 1, text =>
    let (first, rest) := function fuel text
    let (others, rest) := methods fuel rest.tail
    (first :: others, rest)

end

/-- Statements, each with a newline behind, to the end of the text. -/
def program : (fuel : Nat) → List Char → Program
  | 0, _ => []
  | _ + 1, [] => []
  | fuel + 1, text =>
    let (first, rest) := statement number fuel text
    first :: program fuel rest.tail

end Reader

end Lox
