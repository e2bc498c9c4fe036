import Lox.Proofs.Printed.Nearest
import Lox.Proofs.Printed.Parts

/-! What is written of a statement is read back as the statement, up to where another one begins. -/

namespace Lox

namespace Reader

open Lexeme (continuesIdentifier)

variable {number : List Char → Float} {text : List Char} {fuel : Nat}

/-- What is written of a statement is read as the statement without its lines and identities. An `else`
behind one that dangles would be read as its own. -/
def Restores (number : List Char → Float) (stated : Stmt) : Prop :=
  ∀ fuel rest, stated.written.toList.length ≤ fuel →
    (stated.dangles = true → ¬ elseText.toList <+: rest) →
      statement number fuel (stated.written.toList ++ rest) = (stated.bare, rest)

def BodyRestores (number : List Char → Float) (inside : List Stmt) : Prop :=
  ∀ fuel rest, (Stmt.writtenBody inside).toList.length + 1 ≤ fuel →
    body number fuel ((Stmt.writtenBody inside).toList ++ '\x7d' :: rest) =
      (inside.map Stmt.bare, rest)

def FunctionRestores (number : List Char → Float) (decl : FunctionDecl) : Prop :=
  ∀ fuel rest, decl.written.toList.length ≤ fuel →
    function number fuel (decl.written.toList ++ rest) = (decl.bare, rest)

lemma behind_keyword (entry : String × Token.Kind) (c : Char) (he : entry ∈ Token.Kind.keywords)
    (hc : continuesIdentifier c = false) :
    (∀ rest, keyword? (lead (entry.1.toList ++ c :: rest)) = some entry.2) ∧
      ∀ rest, behindLead (entry.1.toList ++ c :: rest) = c :: rest := by
  have hword (rest : List Char) : lead (entry.1.toList ++ c :: rest) = entry.1.toList ∧
      behindLead (entry.1.toList ++ c :: rest) = c :: rest :=
    lead_word (isWord_keyword entry he) (forall_head hc)
  exact ⟨fun rest => by rw [(hword rest).1, keyword?_keyword entry he], fun rest => (hword rest).2⟩

lemma restores_expression {value : Expr} (h : ReadsBack number value)
    (hlead : ∀ rest, Delimits rest → LeadsExpression (value.written.toList ++ rest)) :
    Restores number (.expression value) := by
  intro fuel rest hfuel _
  have hwritten : (Stmt.expression value).written.toList = value.written.toList ++ [';'] := by
    simp [Stmt.written]
  obtain ⟨fuel, rfl⟩ := Stmt.exists_fuel hfuel
  rw [hwritten, List.length_append, List.length_singleton] at hfuel
  have hdelimits : Delimits (';' :: rest) := delimits_of_head rfl rfl
  rw [hwritten, List.append_assoc, List.singleton_append, statement_of_leads (hlead _ hdelimits),
    h fuel _ (by omega) hdelimits]
  rfl

lemma restores_print {line : Nat} {value : Expr} (h : ReadsBack number value) :
    Restores number (.print line value) := by
  intro fuel rest hfuel _
  have hwritten : (Stmt.print line value).written.toList ++ rest =
      "print".toList ++ ' ' :: (value.written.toList ++ ';' :: rest) := by
    simp [Stmt.written]
  have hlength : (Stmt.print line value).written.toList.length = value.written.toList.length + 7 := by
    simp [Stmt.written]
  obtain ⟨fuel, rfl⟩ := Stmt.exists_fuel hfuel
  have hvalue := h fuel (';' :: rest) (by omega) (delimits_of_head rfl rfl)
  obtain ⟨hkeyword, hbehind⟩ := behind_keyword ("print", .kwPrint) ' ' (by decide) rfl
  rw [hwritten, statement, hkeyword, hbehind]
  simp only [List.tail_cons, hvalue]
  rfl

lemma restores_varDecl (hnumber : ReadsNumbers number) {title : Name} {initial : Option Expr}
    (htitle : IsName title.text) (h : ∀ word ∈ Expr.wordsOption initial, word.Legible) :
    Restores number (.varDecl title initial) := by
  intro fuel rest hfuel _
  have hwritten : (Stmt.varDecl title initial).written.toList ++ rest = "var".toList ++
      ' ' :: (title.text.toList ++ ((Expr.writtenAfter " = " initial).toList ++ ';' :: rest)) := by
    simp [Stmt.written]
  have hlength : (Stmt.varDecl title initial).written.toList.length =
      title.text.toList.length + (Expr.writtenAfter " = " initial).toList.length + 5 := by
    simp [Stmt.written]
    omega
  obtain ⟨fuel, rfl⟩ := Stmt.exists_fuel hfuel
  have hinitial : expressionAfter number 3 fuel
      ((Expr.writtenAfter " = " initial).toList ++ ';' :: rest) = (initial.map Expr.bare, ';' :: rest) :=
    expressionAfter_exact hnumber " = " rfl h (by omega) rest
  have hname := name_exact htitle (writtenAfter_head " = " rfl initial rest)
  obtain ⟨hkeyword, hbehind⟩ := behind_keyword ("var", .kwVar) ' ' (by decide) rfl
  rw [hwritten, statement, hkeyword, hbehind]
  simp only [List.tail_cons, hname, hinitial]
  cases initial <;> rfl

lemma restores_ret (hnumber : ReadsNumbers number) {keyword : Name} {value : Option Expr}
    (hkeyword : keyword.text = "return") (h : ∀ word ∈ Expr.wordsOption value, word.Legible) :
    Restores number (.ret keyword value) := by
  intro fuel rest hfuel _
  have hwritten : (Stmt.ret keyword value).written.toList ++ rest =
      "return".toList ++ ((Expr.writtenAfter " " value).toList ++ ';' :: rest) := by
    simp [Stmt.written]
  have hlength : (Stmt.ret keyword value).written.toList.length =
      (Expr.writtenAfter " " value).toList.length + 7 := by
    simp [Stmt.written]
  obtain ⟨fuel, rfl⟩ := Stmt.exists_fuel hfuel
  have hvalue : expressionAfter number 1 fuel
      ((Expr.writtenAfter " " value).toList ++ ';' :: rest) = (value.map Expr.bare, ';' :: rest) :=
    expressionAfter_exact hnumber " " rfl h (by omega) rest
  obtain ⟨hlead, hbehind⟩ := lead_word (isWord_keyword ("return", .kwReturn) (by decide))
    (writtenAfter_head " " rfl value rest)
  rw [hwritten, statement, hlead, hbehind, keyword?_keyword ("return", .kwReturn) (by decide)]
  simp only [hvalue, List.tail_cons]
  obtain ⟨text, line⟩ := keyword
  obtain rfl : text = "return" := hkeyword
  cases value <;> rfl

lemma restores_functionDecl {decl : FunctionDecl} (h : FunctionRestores number decl) :
    Restores number (.functionDecl decl) := by
  intro fuel rest hfuel _
  have hwritten : (Stmt.functionDecl decl).written.toList ++ rest =
      "fun".toList ++ ' ' :: (decl.written.toList ++ rest) := by
    simp [Stmt.written]
  have hlength : (Stmt.functionDecl decl).written.toList.length = decl.written.toList.length + 4 := by
    simp [Stmt.written]
  obtain ⟨fuel, rfl⟩ := Stmt.exists_fuel hfuel
  have hdecl := h fuel rest (by omega)
  obtain ⟨hkeyword, hbehind⟩ := behind_keyword ("fun", .kwFun) ' ' (by decide) rfl
  rw [hwritten, statement, hkeyword, hbehind]
  simp only [List.tail_cons, hdecl]
  rfl

lemma restores_block {inside : List Stmt} (h : BodyRestores number inside) :
    Restores number (.block inside) := by
  intro fuel rest hfuel _
  have hwritten : (Stmt.block inside).written.toList ++ rest =
      '\x7b' :: ' ' :: ((Stmt.writtenBody inside).toList ++ '\x7d' :: rest) := by
    simp [Stmt.written]
  have hlength : (Stmt.block inside).written.toList.length =
      (Stmt.writtenBody inside).toList.length + 3 := by
    simp [Stmt.written]
  obtain ⟨fuel, rfl⟩ := Stmt.exists_fuel hfuel
  have hinside := h fuel rest (by omega)
  rw [hwritten, statement, keyword?_lead_of_head rfl]
  simp only [List.head?_cons, if_true, List.drop_succ_cons, List.drop_zero, hinside]
  rw [Stmt.map_bare]
  rfl

lemma restores_whileLoop {condition : Expr} {inside : Stmt} (hcondition : ReadsBack number condition)
    (h : Restores number inside) : Restores number (.whileLoop condition inside) := by
  intro fuel rest hfuel helse
  have hwritten : (Stmt.whileLoop condition inside).written.toList ++ rest =
      "while".toList ++ ' ' :: '(' :: (condition.written.toList ++
        ')' :: ' ' :: (inside.written.toList ++ rest)) := by
    simp [Stmt.written]
  have hlength : (Stmt.whileLoop condition inside).written.toList.length =
      condition.written.toList.length + inside.written.toList.length + 9 := by
    simp [Stmt.written]
    omega
  obtain ⟨fuel, rfl⟩ := Stmt.exists_fuel hfuel
  have hfirst := hcondition fuel (')' :: ' ' :: (inside.written.toList ++ rest)) (by omega)
    (delimits_of_head rfl rfl)
  have hinside := h fuel rest (by omega) helse
  obtain ⟨hkeyword, hbehind⟩ := behind_keyword ("while", .kwWhile) ' ' (by decide) rfl
  rw [hwritten, statement, hkeyword, hbehind]
  simp only [List.drop_succ_cons, List.drop_zero, hfirst, hinside]
  rfl

lemma restores_if {condition : Expr} {thenBranch : Stmt} (hcondition : ReadsBack number condition)
    (h : Restores number thenBranch) : Restores number (.ifElse condition thenBranch none) := by
  intro fuel rest hfuel helse
  have hwritten : (Stmt.ifElse condition thenBranch none).written.toList ++ rest =
      "if".toList ++ ' ' :: '(' :: (condition.written.toList ++
        ')' :: ' ' :: (thenBranch.written.toList ++ rest)) := by
    simp [Stmt.written]
  have hlength : (Stmt.ifElse condition thenBranch none).written.toList.length =
      condition.written.toList.length + thenBranch.written.toList.length + 6 := by
    simp [Stmt.written]
    omega
  obtain ⟨fuel, rfl⟩ := Stmt.exists_fuel hfuel
  have hfirst := hcondition fuel (')' :: ' ' :: (thenBranch.written.toList ++ rest)) (by omega)
    (delimits_of_head rfl rfl)
  have hthen := h fuel rest (by omega) fun _ => helse rfl
  have hnone : elseText.toList.isPrefixOf rest = false :=
    Bool.eq_false_iff.mpr fun hstart => helse rfl <| List.isPrefixOf_iff_prefix.mp hstart
  obtain ⟨hkeyword, hbehind⟩ := behind_keyword ("if", .kwIf) ' ' (by decide) rfl
  rw [hwritten, statement, hkeyword, hbehind]
  simp only [List.drop_succ_cons, List.drop_zero, hfirst, hthen, hnone]
  rfl

lemma restores_ifElse {condition : Expr} {thenBranch elseBranch : Stmt}
    (hcondition : ReadsBack number condition) (hdangles : thenBranch.dangles = false)
    (ht : Restores number thenBranch) (he : Restores number elseBranch) :
    Restores number (.ifElse condition thenBranch (some elseBranch)) := by
  intro fuel rest hfuel helse
  have hwritten : (Stmt.ifElse condition thenBranch (some elseBranch)).written.toList ++ rest =
      "if".toList ++ ' ' :: '(' :: (condition.written.toList ++ ')' :: ' ' ::
        (thenBranch.written.toList ++ (elseText.toList ++ (elseBranch.written.toList ++ rest)))) := by
    simp [Stmt.written, elseText]
  have hlength : (Stmt.ifElse condition thenBranch (some elseBranch)).written.toList.length =
      condition.written.toList.length + thenBranch.written.toList.length +
        elseBranch.written.toList.length + 12 := by
    simp [Stmt.written]
    omega
  obtain ⟨fuel, rfl⟩ := Stmt.exists_fuel hfuel
  have hfirst := hcondition fuel (')' :: ' ' :: (thenBranch.written.toList ++
    (elseText.toList ++ (elseBranch.written.toList ++ rest)))) (by omega) (delimits_of_head rfl rfl)
  -- The `else` behind the first branch is not read as part of it, since the branch does not dangle.
  have hthen := ht fuel (elseText.toList ++ (elseBranch.written.toList ++ rest)) (by omega)
    (by simp [hdangles])
  have hsome : elseText.toList.isPrefixOf
      (elseText.toList ++ (elseBranch.written.toList ++ rest)) = true :=
    List.isPrefixOf_iff_prefix.mpr (List.prefix_append ..)
  have helse := he fuel rest (by omega) helse
  obtain ⟨hkeyword, hbehind⟩ := behind_keyword ("if", .kwIf) ' ' (by decide) rfl
  rw [hwritten, statement, hkeyword, hbehind]
  simp only [List.drop_succ_cons, List.drop_zero, hfirst, hthen, hsome, List.drop_left, helse]
  rfl

lemma LeadsStatement.not_else (h : LeadsStatement text) : ¬ elseText.toList <+: ' ' :: text := by
  rintro ⟨rest, hrest⟩
  obtain rfl : text = "else".toList ++ ' ' :: rest := (List.cons.inj hrest).2.symm
  exact h.keyword ((behind_keyword ("else", .kwElse) ' ' (by decide) rfl).1 rest)

lemma not_else_of_brace (rest : List Char) : ¬ elseText.toList <+: ' ' :: '\x7d' :: rest := by
  rintro ⟨text, htext⟩
  simp [elseText] at htext

lemma bodyRestores (inside : List Stmt) (h : ∀ stated ∈ inside, Restores number stated)
    (hlead : ∀ stated ∈ inside, ∀ rest, LeadsStatement (stated.written.toList ++ rest)) :
    BodyRestores number inside := by
  intro fuel rest hfuel
  obtain ⟨fuel, rfl⟩ : ∃ k, fuel = k + 1 := Nat.exists_eq_succ_of_ne_zero (by omega)
  induction inside generalizing fuel with
  | nil => rfl
  | cons stated inside ih =>
    obtain ⟨hstated, hinside⟩ := List.forall_mem_cons.mp h
    obtain ⟨hfirst, hothers⟩ := List.forall_mem_cons.mp hlead
    have hwritten : (Stmt.writtenBody (stated :: inside)).toList ++ '\x7d' :: rest =
        stated.written.toList ++ ' ' :: ((Stmt.writtenBody inside).toList ++ '\x7d' :: rest) := by
      simp [Stmt.writtenBody]
    have hlength : (Stmt.writtenBody (stated :: inside)).toList.length =
        stated.written.toList.length + (Stmt.writtenBody inside).toList.length + 1 := by
      simp [Stmt.writtenBody]
      omega
    obtain ⟨fuel, rfl⟩ : ∃ k, fuel = k + 1 := Nat.exists_eq_succ_of_ne_zero (by omega)
    have hnoElse : ¬ elseText.toList <+:
        ' ' :: ((Stmt.writtenBody inside).toList ++ '\x7d' :: rest) := by
      cases inside with
      | nil => exact not_else_of_brace rest
      | cons next inside =>
        simp only [Stmt.writtenBody, String.toList_append, List.append_assoc]
        exact (hothers next (List.mem_cons_self ..) _).not_else
    have hread := hstated (fuel + 1) _ (by omega) fun _ => hnoElse
    rw [hwritten, body, hread]
    · simp only [List.tail_cons, ih hinside hothers fuel (by omega)]
      rfl
    · intro _ heq
      exact (hfirst _).brace '\x7d' (by rw [heq]; rfl) rfl

lemma functionRestores {title : Name} {params : List Name} {inside : List Stmt}
    (htitle : IsName title.text) (hparams : ∀ param ∈ params, IsName param.text)
    (h : BodyRestores number inside) : FunctionRestores number ⟨title, params, inside⟩ := by
  intro fuel rest hfuel
  have hwritten : (FunctionDecl.mk title params inside).written.toList ++ rest =
      title.text.toList ++ '(' :: ((", ".intercalate (params.map Name.text)).toList ++
        ')' :: ' ' :: '\x7b' :: ' ' :: ((Stmt.writtenBody inside).toList ++ '\x7d' :: rest)) := by
    simp [FunctionDecl.written]
  have hlength : (FunctionDecl.mk title params inside).written.toList.length =
      title.text.toList.length + (", ".intercalate (params.map Name.text)).toList.length +
        (Stmt.writtenBody inside).toList.length + 6 := by
    simp [FunctionDecl.written]
    omega
  obtain ⟨fuel, rfl⟩ : ∃ k, fuel = k + 1 := Nat.exists_eq_succ_of_ne_zero (by omega)
  have hname (text : List Char) : name (title.text.toList ++ '(' :: text) =
      (⟨title.text, 0⟩, '(' :: text) :=
    name_exact htitle (forall_head rfl)
  have hnames := names_exact hparams (by omega : _ ≤ fuel)
  have hinside := h fuel rest (by omega)
  rw [hwritten, function, hname]
  simp only [List.tail_cons, hnames, List.drop_succ_cons, List.drop_zero, hinside]
  rw [Stmt.map_bare]
  rfl

lemma methods_exact (decls : List FunctionDecl) (h : ∀ decl ∈ decls, FunctionRestores number decl)
    (hname : ∀ decl ∈ decls, IsName decl.name.text) (rest : List Char)
    (hfuel : (FunctionDecl.writtenMethods decls).toList.length + 1 ≤ fuel) :
    methods number fuel ((FunctionDecl.writtenMethods decls).toList ++ '\x7d' :: rest) =
      (decls.map FunctionDecl.bare, rest) := by
  obtain ⟨fuel, rfl⟩ : ∃ k, fuel = k + 1 := Nat.exists_eq_succ_of_ne_zero (by omega)
  induction decls generalizing fuel with
  | nil => rfl
  | cons decl decls ih =>
    obtain ⟨hdecl, hdecls⟩ := List.forall_mem_cons.mp h
    obtain ⟨hfirst, hothers⟩ := List.forall_mem_cons.mp hname
    have hwritten : (FunctionDecl.writtenMethods (decl :: decls)).toList ++ '\x7d' :: rest =
        decl.written.toList ++ ' ' :: ((FunctionDecl.writtenMethods decls).toList ++ '\x7d' :: rest) := by
      simp [FunctionDecl.writtenMethods]
    have hlength : (FunctionDecl.writtenMethods (decl :: decls)).toList.length =
        decl.written.toList.length + (FunctionDecl.writtenMethods decls).toList.length + 1 := by
      simp [FunctionDecl.writtenMethods]
      omega
    obtain ⟨fuel, rfl⟩ : ∃ k, fuel = k + 1 := Nat.exists_eq_succ_of_ne_zero (by omega)
    have hread (rest : List Char) := hdecl (fuel + 1) rest (by omega)
    rw [hwritten, methods, hread]
    · simp only [List.tail_cons, ih hdecls hothers fuel (by omega)]
      rfl
    · obtain ⟨title, params, inside⟩ := decl
      simp only [FunctionDecl.written, String.toList_append, List.append_assoc]
      exact fun _ => (isWord_of_isName hfirst).append_ne _ rfl

lemma restores_classDecl {title : Name} {parent : Option Reference} {decls : List FunctionDecl}
    (htitle : IsName title.text) (hparent : ∀ target ∈ parent, IsName target.name.text)
    (h : ∀ decl ∈ decls, FunctionRestores number decl)
    (hname : ∀ decl ∈ decls, IsName decl.name.text) :
    Restores number (.classDecl ⟨title, parent, decls⟩) := by
  intro fuel rest hfuel _
  have hwritten : (Stmt.classDecl ⟨title, parent, decls⟩).written.toList ++ rest =
      "class".toList ++ ' ' :: (title.text.toList ++
        ((parent.elim "" fun target => " < " ++ target.name.text).toList ++
          ' ' :: '\x7b' :: ' ' :: ((FunctionDecl.writtenMethods decls).toList ++ '\x7d' :: rest))) := by
    simp [Stmt.written, ClassDecl.written]
  have hlength : (FunctionDecl.writtenMethods decls).toList.length + 7 ≤
      (Stmt.classDecl ⟨title, parent, decls⟩).written.toList.length := by
    simp [Stmt.written, ClassDecl.written]
    omega
  obtain ⟨fuel, rfl⟩ := Stmt.exists_fuel hfuel
  have hread := name_exact htitle (superclass_head parent
    (' ' :: ((FunctionDecl.writtenMethods decls).toList ++ '\x7d' :: rest)))
  have hdecls := methods_exact decls h hname rest (by omega : _ ≤ fuel)
  obtain ⟨hkeyword, hbehind⟩ := behind_keyword ("class", .kwClass) ' ' (by decide) rfl
  rw [hwritten, statement, hkeyword, hbehind]
  simp only [List.tail_cons, hread, superclass_exact hparent, List.drop_succ_cons, List.drop_zero, hdecls]
  rw [FunctionDecl.map_bare]
  cases parent <;> rfl

lemma leads_of_wordsAll {inside : List Stmt} (h : ∀ word ∈ Stmt.wordsAll inside, word.Legible) :
    ∀ stated ∈ inside, ∀ rest, LeadsStatement (stated.written.toList ++ rest) := by
  induction inside with
  | nil => simp
  | cons stated inside ih =>
    obtain ⟨hstated, hinside⟩ := List.forall_mem_append.mp h
    exact List.forall_mem_cons.mpr ⟨leads_stmt hstated, ih hinside⟩

lemma isName_of_wordsAll {decls : List FunctionDecl}
    (h : ∀ word ∈ FunctionDecl.wordsAll decls, word.Legible) :
    ∀ decl ∈ decls, IsName decl.name.text := by
  induction decls with
  | nil => simp
  | cons decl decls ih =>
    obtain ⟨hdecl, hdecls⟩ := List.forall_mem_append.mp h
    have hname := hdecl (.name decl.name.text) (by cases decl; simp [FunctionDecl.words])
    exact List.forall_mem_cons.mpr ⟨hname, ih hdecls⟩

mutual

lemma restores_of_legible (hnumber : ReadsNumbers number) (stated : Stmt)
    (h : ∀ word ∈ stated.words, word.Legible) (hnearest : stated.Nearest) :
    Restores number stated := by
  match stated with
  | .expression value =>
    exact restores_expression (readsBack_of_legible hnumber value h) fun _ => leads_expr h
  | .print _ value => exact restores_print (readsBack_of_legible hnumber value h)
  | .varDecl name initial =>
    obtain ⟨hname, hinitial⟩ := List.forall_mem_cons.mp h
    exact restores_varDecl hnumber hname hinitial
  | .functionDecl decl =>
    exact restores_functionDecl (functionRestores_of_legible hnumber decl h hnearest)
  | .classDecl ⟨title, parent, decls⟩ =>
    obtain ⟨hnames, hdecls⟩ := List.forall_mem_append.mp h
    obtain ⟨htitle, hparent⟩ := List.forall_mem_cons.mp hnames
    refine restores_classDecl htitle ?_ (functionsRestore_of_legible hnumber decls hdecls hnearest)
      (isName_of_wordsAll hdecls)
    rintro target rfl
    exact hparent _ (List.mem_singleton_self _)
  | .block inside =>
    exact restores_block (bodyRestores inside (restoresAll_of_legible hnumber inside h hnearest)
      (leads_of_wordsAll h))
  | .ifElse condition thenBranch none =>
    obtain ⟨hcondition, hthen⟩ := List.forall_mem_append.mp h
    exact restores_if (readsBack_of_legible hnumber condition hcondition)
      (restores_of_legible hnumber thenBranch hthen hnearest)
  | .ifElse condition thenBranch (some elseBranch) =>
    obtain ⟨hcondition, hbranches⟩ := List.forall_mem_append.mp h
    obtain ⟨hthen, helse⟩ := List.forall_mem_append.mp hbranches
    obtain ⟨hdangles, hnearest, hnearest'⟩ := hnearest
    exact restores_ifElse (readsBack_of_legible hnumber condition hcondition) hdangles
      (restores_of_legible hnumber thenBranch hthen hnearest)
      (restores_of_legible hnumber elseBranch helse hnearest')
  | .whileLoop condition inside =>
    obtain ⟨hcondition, hinside⟩ := List.forall_mem_append.mp h
    exact restores_whileLoop (readsBack_of_legible hnumber condition hcondition)
      (restores_of_legible hnumber inside hinside hnearest)
  | .ret keyword value =>
    obtain ⟨hkeyword, hvalue⟩ := List.forall_mem_cons.mp h
    exact restores_ret hnumber (by simpa [Word.Legible, Token.Kind.keywords] using hkeyword) hvalue

lemma restoresAll_of_legible (hnumber : ReadsNumbers number) (inside : List Stmt)
    (h : ∀ word ∈ Stmt.wordsAll inside, word.Legible) (hnearest : Stmt.NearestAll inside) :
    ∀ stated ∈ inside, Restores number stated := by
  match inside with
  | [] => simp
  | stated :: inside =>
    obtain ⟨hstated, hinside⟩ := List.forall_mem_append.mp h
    exact List.forall_mem_cons.mpr ⟨restores_of_legible hnumber stated hstated hnearest.1,
      restoresAll_of_legible hnumber inside hinside hnearest.2⟩

lemma functionRestores_of_legible (hnumber : ReadsNumbers number) (decl : FunctionDecl)
    (h : ∀ word ∈ decl.words, word.Legible) (hnearest : decl.Nearest) :
    FunctionRestores number decl := by
  match decl with
  | ⟨title, params, inside⟩ =>
    obtain ⟨hnames, hinside⟩ := List.forall_mem_append.mp h
    obtain ⟨htitle, hparams⟩ := List.forall_mem_cons.mp hnames
    exact functionRestores htitle (fun param hparam => hparams _ (List.mem_map_of_mem hparam))
      (bodyRestores inside (restoresAll_of_legible hnumber inside hinside hnearest)
        (leads_of_wordsAll hinside))

lemma functionsRestore_of_legible (hnumber : ReadsNumbers number) (decls : List FunctionDecl)
    (h : ∀ word ∈ FunctionDecl.wordsAll decls, word.Legible)
    (hnearest : FunctionDecl.NearestAll decls) : ∀ decl ∈ decls, FunctionRestores number decl := by
  match decls with
  | [] => simp
  | decl :: decls =>
    obtain ⟨hdecl, hdecls⟩ := List.forall_mem_append.mp h
    exact List.forall_mem_cons.mpr ⟨functionRestores_of_legible hnumber decl hdecl hnearest.1,
      functionsRestore_of_legible hnumber decls hdecls hnearest.2⟩

end

end Reader

end Lox
