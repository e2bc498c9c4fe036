import Lox.Proofs.Receiver.Nodes
import Lox.Scope.Violation

/-! The static rules, told of the places in a program: a place is a part of the program with all that
stands around it. Nothing here looks a name up. -/

namespace Lox

/-- What can stand around a part of a program. -/
inductive Enclosure
  | block
  | function (decl : FunctionDecl)
  | method (decl : FunctionDecl)
  | type (decl : ClassDecl)
  /-- The initial value of a variable. -/
  | initial (name : Name)

namespace Enclosure

def isFunction : Enclosure → Bool
  | function _ | method _ => true
  | block | type _ | initial _ => false

/-- A value cannot be returned from it. -/
def isInitializer : Enclosure → Bool
  | method decl => decl.isInitializer
  | block | function _ | type _ | initial _ => false

/-- Names that are declared in it are local. -/
def isScope : Enclosure → Bool
  | block | function _ | method _ => true
  | type _ | initial _ => false

def type? : Enclosure → Option ClassDecl
  | type decl => some decl
  | block | function _ | method _ | initial _ => none

end Enclosure

inductive Part
  | expr (value : Expr)
  | stmt (stated : Stmt)
  /-- A function or a method: its parameters and its body. -/
  | function (decl : FunctionDecl)

/-- A part of a program, and what stands around it, the innermost first. -/
structure Place where
  part : Part
  around : List Enclosure

section Places

variable (around : List Enclosure)

def Expr.places (value : Expr) : List Place :=
  value.nodes.map fun node => ⟨.expr node, around⟩

def Expr.placesOption (value : Option Expr) : List Place :=
  value.elim [] (Expr.places around)

end Places

mutual

def Stmt.places (around : List Enclosure) : Stmt → List Place
  | .expression value => ⟨.stmt (.expression value), around⟩ :: value.places around
  | .print line value => ⟨.stmt (.print line value), around⟩ :: value.places around
  | .varDecl name value =>
    ⟨.stmt (.varDecl name value), around⟩ :: Expr.placesOption (.initial name :: around) value
  | .functionDecl decl => ⟨.stmt (.functionDecl decl), around⟩ :: decl.places .function around
  | .classDecl decl => ⟨.stmt (.classDecl decl), around⟩ :: decl.places around
  | .block body => ⟨.stmt (.block body), around⟩ :: Stmt.placesAll (.block :: around) body
  | .ifElse condition thenBranch none =>
    ⟨.stmt (.ifElse condition thenBranch none), around⟩ ::
      (condition.places around ++ thenBranch.places around)
  | .ifElse condition thenBranch (some elseBranch) =>
    ⟨.stmt (.ifElse condition thenBranch (some elseBranch)), around⟩ ::
      (condition.places around ++ (thenBranch.places around ++ elseBranch.places around))
  | .whileLoop condition body =>
    ⟨.stmt (.whileLoop condition body), around⟩ :: (condition.places around ++ body.places around)
  | .ret keyword value => ⟨.stmt (.ret keyword value), around⟩ :: Expr.placesOption around value

def Stmt.placesAll (around : List Enclosure) : List Stmt → List Place
  | [] => []
  | stated :: rest => stated.places around ++ Stmt.placesAll around rest

def FunctionDecl.places (enclosure : FunctionDecl → Enclosure) (around : List Enclosure) :
    FunctionDecl → List Place
  | ⟨name, params, body⟩ =>
    ⟨.function ⟨name, params, body⟩, around⟩ ::
      Stmt.placesAll (enclosure ⟨name, params, body⟩ :: around) body

/-- The name of the superclass is outside the class. -/
def ClassDecl.places (around : List Enclosure) : ClassDecl → List Place
  | ⟨name, superclass, methods⟩ =>
    superclass.elim [] (fun target => [⟨.expr (.read target), around⟩]) ++
      FunctionDecl.placesAll (.type ⟨name, superclass, methods⟩ :: around) methods

def FunctionDecl.placesAll (around : List Enclosure) : List FunctionDecl → List Place
  | [] => []
  | decl :: rest => decl.places .method around ++ FunctionDecl.placesAll around rest

end

def Program.places (program : Program) : List Place :=
  Stmt.placesAll [] program

section Declaring

mutual

/-- The names that a statement declares in the scope in which it stands. -/
def Stmt.declares : Stmt → List Name
  | .varDecl name _ => [name]
  | .functionDecl decl => [decl.name]
  | .classDecl decl => [decl.name]
  | .ifElse _ thenBranch none => thenBranch.declares
  | .ifElse _ thenBranch (some elseBranch) => thenBranch.declares ++ elseBranch.declares
  | .whileLoop _ body => body.declares
  | .expression _ | .print .. | .block _ | .ret .. => []

def Stmt.declaresAll : List Stmt → List Name
  | [] => []
  | stated :: rest => stated.declares ++ Stmt.declaresAll rest

end

/-- Those of the names that come after one with the same text; some texts have come before them all. -/
def Name.repeated (before : List String) : List Name → List Name
  | [] => []
  | name :: rest =>
    if name.text ∈ before then name :: Name.repeated (name.text :: before) rest
    else Name.repeated (name.text :: before) rest

end Declaring

namespace Place

/-- The innermost function or method around a place. -/
def function? (place : Place) : Option Enclosure :=
  place.around.find? Enclosure.isFunction

/-- The innermost class around a place. -/
def type? (place : Place) : Option ClassDecl :=
  place.around.findSome? Enclosure.type?

/-- The local variable in the initial value of which a place is. An expression has no statement in it,
so nothing stands between the two. -/
def initialized? (place : Place) : Option Name :=
  match place.around with
  | .initial name :: outer => if outer.any Enclosure.isScope then some name else none
  | _ => none

/-- The names at which a place breaks a rule. -/
def breaks (place : Place) : Violation.Cause → List Name
  | .returnFromTopLevel =>
    match place.part with
    | .stmt (.ret keyword _) => if place.function?.isNone then [keyword] else []
    | _ => []
  | .returnFromInitializer =>
    match place.part with
    | .stmt (.ret keyword (some _)) =>
      if place.function?.any Enclosure.isInitializer then [keyword] else []
    | _ => []
  | .thisOutsideClass =>
    match place.part with
    | .expr (.this keyword) => if place.type?.isNone then [keyword.name] else []
    | _ => []
  | .superOutsideClass =>
    match place.part with
    | .expr (.super keyword _) => if place.type?.isNone then [keyword.name] else []
    | _ => []
  | .superWithoutSuperclass =>
    match place.part with
    | .expr (.super keyword _) =>
      if place.type?.any (·.superclass.isNone) then [keyword.name] else []
    | _ => []
  | .inheritsFromItself =>
    match place.part with
    | .stmt (.classDecl ⟨name, some superclass, _⟩) =>
      if superclass.name.text = name.text then [superclass.name] else []
    | _ => []
  | .readInOwnInitializer =>
    match place.part with
    | .expr (.read target) =>
      if place.initialized?.any (·.text = target.name.text) then [target.name] else []
    | _ => []
  | .alreadyDeclared =>
    match place.part with
    | .stmt (.block body) => Name.repeated [] (Stmt.declaresAll body)
    | .function decl => Name.repeated [] (decl.params ++ Stmt.declaresAll decl.body)
    | _ => []

end Place

def Violation.Cause.all : List Violation.Cause :=
  [returnFromTopLevel, returnFromInitializer, thisOutsideClass, superOutsideClass,
    superWithoutSuperclass, inheritsFromItself, readInOwnInitializer, alreadyDeclared]

/-- All that breaks a rule at a place. -/
def Place.breaches (place : Place) : List Violation :=
  Violation.Cause.all.flatMap fun cause => (place.breaks cause).map (Violation.mk cause)

def Program.breaches (program : Program) : List Violation :=
  program.places.flatMap Place.breaches

end Lox
