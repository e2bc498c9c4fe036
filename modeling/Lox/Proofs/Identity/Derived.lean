import Lox.Proofs.Grammar.Derivation
import Lox.Proofs.Identity.Renaming

/-! A derived tree has exactly the identities from the first one given to it up to the next one left
by it, each of them once. -/

namespace Lox

/-- The identities are those from `n` on up to `m`, each of them once. -/
def Takes (n : Nat) (ids : List Nat) (m : Nat) : Prop :=
  n ≤ m ∧ ids.Perm (List.range' n (m - n))

lemma takes_nil (n : Nat) : Takes n [] n := by
  simp [Takes]

lemma takes_one (n : Nat) : Takes n [n] (n + 1) := by
  simp [Takes]

lemma Takes.append {n k m : Nat} {is js : List Nat} (h : Takes n is k) (hs : Takes k js m) :
    Takes n (is ++ js) m := by
  obtain ⟨hle, hperm⟩ := h
  obtain ⟨hle', hperm'⟩ := hs
  refine ⟨Nat.le_trans hle hle', (hperm.append hperm').trans ?_⟩
  have hsplit : List.range' n (k - n) ++ List.range' k (m - k) = List.range' n (m - n) := by
    have hk : k = n + 1 * (k - n) := by omega
    have hm : m - n = k - n + (m - k) := by omega
    rw [hm, ← List.range'_append, ← hk]
  rw [hsplit]

lemma Takes.cons {n m : Nat} {ids : List Nat} (h : Takes (n + 1) ids m) :
    Takes n (n :: ids) m :=
  (takes_one n).append h

lemma Takes.of_perm {n m : Nat} {is js : List Nat} (h : Takes n is m) (hp : js.Perm is) :
    Takes n js m :=
  ⟨h.1, hp.trans h.2⟩

lemma Takes.nodup {n m : Nat} {ids : List Nat} (h : Takes n ids m) : ids.Nodup :=
  h.2.nodup_iff.mpr List.nodup_range'

lemma Takes.mem_iff {n m i : Nat} {ids : List Nat} (h : Takes n ids m) :
    i ∈ ids ↔ n ≤ i ∧ i < m := by
  have hle := h.1
  rw [h.2.mem_iff, List.mem_range'_1]
  omega

def Phrase.ids : Phrase → List Nat
  | expression value | operators _ value | operand _ value | unary value | call value
  | primary value => value.ids
  | arguments values => Expr.idsAll values
  | optional value => value.elim [] Expr.ids
  | binding stated | evaluation stated | statement _ stated | declaration stated => stated.ids
  | clause initial => initial.elim [] Stmt.ids
  | declarations body => Stmt.idsAll body
  | function decl => decl.ids
  | methods decls => FunctionDecl.idsAll decls

lemma Connective.ids_join (connective : Connective) (line : Nat) (left right : Expr) :
    (connective.join line left right).ids = left.ids ++ right.ids := by
  cases connective <;> rfl

lemma Stmt.ids_forLoop (initial : Option Stmt) (condition increment : Option Expr) (body : Stmt) :
    (Stmt.forLoop initial condition increment body).ids =
      initial.elim [] Stmt.ids ++ (condition.elim [] Expr.ids ++
        (body.ids ++ increment.elim [] Expr.ids)) := by
  cases initial <;> cases condition <;> cases increment <;>
    simp [Stmt.forLoop, Stmt.ids, Stmt.idsAll, Expr.ids]

lemma Derives.takes {n m : Nat} {ts : List Token} {p : Phrase} (h : Derives n ts p m) :
    Takes n p.ids m := by
  induction h with
  | assign _ _ _ ih => exact ih.cons
  | set _ _ _ _ _ ih ih' => exact ih.append ih'
  | loosest _ ih | first _ ih | tighter _ _ ih | tightest _ _ ih | prefixed _ _ ih
  | postfixed _ ih | alone _ ih | get _ _ _ ih | grouping _ _ _ ih | present _ ih
  | evaluate _ _ ih | evaluation _ ih | print _ _ _ ih | ret _ _ _ ih | block _ _ _ ih
  | ifThen _ _ _ _ _ ih ih' | whileLoop _ _ _ _ _ ih ih' | binds _ _ ih | evaluates _ ih
  | initialized _ _ _ _ ih | statement _ ih | varDecl _ _ ih | functionDecl _ _ ih
  | function _ _ _ _ _ ih => first | exact ih | exact ih.append ih'
  | join _ _ _ ihl ihr =>
    simp only [Phrase.ids, Connective.ids_join]
    exact ihl.append ihr
  | invoke _ _ _ ih | lastArgument _ ih =>
    simpa only [Phrase.ids, Expr.ids, Expr.idsAll, List.append_nil] using ih
  | invokeWith _ _ _ _ _ ih ih' | argument _ _ _ ih ih' | method _ _ ih ih' | declared _ _ ih ih' =>
    exact ih.append ih'
  | kwFalse | kwTrue | kwNil | literal | absent | noClause | uninitialized | noMethods
  | noDeclarations => exact takes_nil _
  | name | this | super => exact takes_one _
  | ifThenElse _ _ _ _ _ _ _ ih ihb iha => exact ih.append (ihb.append iha)
  | forLoop _ _ _ _ _ _ _ _ ihi ihc ihn ihb =>
    simp only [Phrase.ids, Stmt.ids_forLoop]
    refine (ihi.append (ihc.append (ihn.append ihb))).of_perm ?_
    exact .append_left _ (.append_left _ List.perm_append_comm)
  | classDecl _ _ _ _ _ ih => simpa only [Phrase.ids, Stmt.ids, ClassDecl.ids, Option.elim_none,
      List.nil_append] using ih
  | subclassDecl _ _ _ _ _ _ _ ih => exact ih.cons

end Lox
