import Lox.Proofs.Labels.Tree
import Lox.Proofs.Token.Seam

/-! Derivations from tokens on other lines, and from those of two programs one after the other. -/

namespace Lox

/-- Other lines, and no other names. -/
def Labels.lines (f : Nat → Nat) : Labels :=
  ⟨f, id⟩

variable {f : Nat → Nat}

def Phrase.relabel (l : Labels) : Phrase → Phrase
  | expression value => expression (value.relabel l)
  | operators tier value => operators tier (value.relabel l)
  | operand tier value => operand tier (value.relabel l)
  | unary value => unary (value.relabel l)
  | call value => call (value.relabel l)
  | primary value => primary (value.relabel l)
  | arguments values => arguments (Expr.relabelAll l values)
  | optional value => optional (value.map (Expr.relabel l))
  | binding declared => binding (declared.relabel l)
  | evaluation stated => evaluation (stated.relabel l)
  | clause initial => clause (initial.map (Stmt.relabel l))
  | statement dangling stated => statement dangling (stated.relabel l)
  | declaration declared => declaration (declared.relabel l)
  | declarations body => declarations (Stmt.relabelAll l body)
  | function decl => function (decl.relabel l)
  | methods decls => methods (FunctionDecl.relabelAll l decls)

lemma Connective.relabel_join (l : Labels) (connective : Connective) (line : Nat)
    (left right : Expr) : (connective.join line left right).relabel l =
      connective.join (l.line line) (left.relabel l) (right.relabel l) := by
  cases connective <;> rfl

lemma Stmt.relabel_forLoop (l : Labels) (initial : Option Stmt) (condition increment : Option Expr)
    (body : Stmt) : (Stmt.forLoop initial condition increment body).relabel l =
      .forLoop (initial.map (Stmt.relabel l)) (condition.map (Expr.relabel l))
        (increment.map (Expr.relabel l)) (body.relabel l) := by
  cases initial <;> cases condition <;> cases increment <;> rfl

lemma Expr.length_relabelAll (l : Labels) (values : List Expr) :
    (Expr.relabelAll l values).length = values.length := by
  rw [Expr.relabelAll_eq_map, List.length_map]

lemma NameList.onLine {ts : List Token} {names : List Name} (h : NameList ts names) :
    NameList (ts.map (Token.onLine f)) (names.map (Labels.lines f).named) := by
  induction h with
  | last hk => exact .last hk
  | more hk hcomma _ ih => exact .more hk hcomma ih

lemma ParameterList.onLine {ts : List Token} {names : List Name} (h : ParameterList ts names) :
    ParameterList (ts.map (Token.onLine f)) (names.map (Labels.lines f).named) := by
  cases h with
  | none hopening hclosing => exact .none hopening hclosing
  | some hopening hclosing hnames hle =>
    rw [List.map_cons, List.map_append]
    exact .some hopening hclosing hnames.onLine (by rwa [List.length_map])

lemma Derives.onLine {n m : Nat} {ts : List Token} {phrase : Phrase} (h : Derives n ts phrase m) :
    Derives n (ts.map (Token.onLine f)) (phrase.relabel (Labels.lines f)) m := by
  induction h with
  | assign htarget hequal _ ih => exact .assign htarget hequal ih
  | set _ hdot hproperty hequal _ ih ih' =>
    rw [List.map_append]
    exact .set ih hdot hproperty hequal ih'
  | loosest _ ih => exact .loosest ih
  | first _ ih => exact .first ih
  | join _ htier _ ih ih' =>
    rw [List.map_append, Phrase.relabel, Connective.relabel_join]
    exact .join ih htier ih'
  | tighter htier _ ih => exact .tighter htier ih
  | tightest htier _ ih => exact .tightest htier ih
  | prefixed hop _ ih => exact .prefixed hop ih
  | postfixed _ ih => exact .postfixed ih
  | alone _ ih => exact .alone ih
  | invoke _ hopening hclosing ih =>
    rw [List.map_append]
    exact .invoke ih hopening hclosing
  | invokeWith _ hopening _ hle hclosing ih ih' =>
    rw [List.map_append, List.map_cons, List.map_append]
    exact .invokeWith ih hopening ih' (by rwa [Expr.length_relabelAll]) hclosing
  | get _ hdot hproperty ih =>
    rw [List.map_append]
    exact .get ih hdot hproperty
  | lastArgument _ ih => exact .lastArgument ih
  | argument _ hcomma _ ih ih' =>
    rw [List.map_append]
    exact .argument ih hcomma ih'
  | kwFalse hk => exact .kwFalse hk
  | kwTrue hk => exact .kwTrue hk
  | kwNil hk => exact .kwNil hk
  | literal hk => exact .literal hk
  | name hk => exact .name hk
  | this hk => exact .this hk
  | super hk hdot hmethod => exact .super hk hdot hmethod
  | grouping hopening _ hclosing ih =>
    rw [List.map_cons, List.map_append]
    exact .grouping hopening ih hclosing
  | absent => exact .absent
  | present _ ih => exact .present ih
  | evaluate _ hsemicolon ih =>
    rw [List.map_append]
    exact .evaluate ih hsemicolon
  | evaluation _ ih => exact .evaluation ih
  | print hk _ hsemicolon ih =>
    rw [List.map_cons, List.map_append]
    exact .print hk ih hsemicolon
  | ret hk _ hsemicolon ih =>
    rw [List.map_cons, List.map_append]
    exact .ret hk ih hsemicolon
  | block hopening _ hclosing ih =>
    rw [List.map_cons, List.map_append]
    exact .block hopening ih hclosing
  | ifThen hk hopening _ hclosing _ ih ih' =>
    rw [List.map_cons, List.map_cons, List.map_append]
    exact .ifThen hk hopening ih hclosing ih'
  | ifThenElse hk hopening _ hclosing _ helse _ ih ih' ih'' =>
    rw [List.map_cons, List.map_cons, List.map_append, List.map_cons, List.map_append]
    exact .ifThenElse hk hopening ih hclosing ih' helse ih''
  | whileLoop hk hopening _ hclosing _ ih ih' =>
    rw [List.map_cons, List.map_cons, List.map_append]
    exact .whileLoop hk hopening ih hclosing ih'
  | forLoop hk hopening _ _ hsemicolon _ hclosing _ ih ih' ih'' ih''' =>
    rw [Phrase.relabel, Stmt.relabel_forLoop]
    simp only [List.map_cons, List.map_append]
    exact .forLoop hk hopening ih ih' hsemicolon ih'' hclosing ih'''
  | noClause hsemicolon => exact .noClause hsemicolon
  | binds hk _ ih => exact .binds hk ih
  | evaluates _ ih => exact .evaluates ih
  | uninitialized hk hsemicolon => exact .uninitialized hk hsemicolon
  | initialized hk hequal _ hsemicolon ih =>
    simp only [List.map_cons, List.map_append]
    exact .initialized hk hequal ih hsemicolon
  | statement _ ih => exact .statement ih
  | varDecl hk _ ih => exact .varDecl hk ih
  | functionDecl hk _ ih => exact .functionDecl hk ih
  | classDecl hk hname hopening _ hclosing ih =>
    simp only [List.map_cons, List.map_append]
    exact .classDecl hk hname hopening ih hclosing
  | subclassDecl hk hname hless hparent hopening _ hclosing ih =>
    simp only [List.map_cons, List.map_append]
    exact .subclassDecl hk hname hless hparent hopening ih hclosing
  | function hk hparams hopening _ hclosing ih =>
    simp only [List.map_cons, List.map_append]
    exact .function hk hparams.onLine hopening ih hclosing
  | noMethods => exact .noMethods
  | method _ _ ih ih' =>
    rw [List.map_append]
    exact .method ih ih'
  | noDeclarations => exact .noDeclarations
  | declared _ _ ih ih' =>
    rw [List.map_append]
    exact .declared ih ih'

lemma Derives.andThen {n k m : Nat} {ts us : List Token} {program later : Program}
    (h : Derives n ts (.declarations program) k) (h' : Derives k us (.declarations later) m) :
    Derives n (ts ++ us) (.declarations (program ++ later)) m := by
  induction program generalizing n ts with
  | nil =>
    cases h
    exact h'
  | cons declared body ih =>
    cases h with
    | declared hdeclared hbody =>
      rw [List.append_assoc, List.cons_append]
      exact .declared hdeclared (ih hbody)

end Lox
