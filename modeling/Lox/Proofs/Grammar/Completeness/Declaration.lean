import Lox.Proofs.Grammar.Completeness.Statement

/-! Derived declarations are read, and with them whole programs. -/

namespace Lox.Parser

variable {n k m : Nat} {ts us rest : List Token} {declared : Stmt} {body : List Stmt}
  {decl : FunctionDecl} {decls : List FunctionDecl}

lemma names_read {ps : List Token} {names : List Name} (h : NameList ps names) {fuel count : Nat}
    (hf : ps.length ≤ fuel) (hlen : count + names.length ≤ maxArguments)
    (hr : ∀ t ∈ rest.head?, t.kind ≠ .comma) (n : Nat) :
    Reads (parameters fuel count) n ps names n rest := by
  induction h generalizing fuel count with
  | last ht =>
    simp only [List.length_singleton] at hf hlen
    obtain ⟨fuel, rfl⟩ := Nat.exists_eq_add_one.mpr (show 0 < fuel by omega)
    simp only [parameters, yields_bind, yields_expectName, yields_accept]
    refine ⟨(), _, yields_limit_below (by omega) _, _, _, ⟨_, _, rfl, ht, rfl, rfl⟩, false, _,
      ⟨hr, rfl⟩, ?_⟩
    simp
  | more ht hc _ ih =>
    simp only [List.length_cons] at hf hlen
    obtain ⟨fuel, rfl⟩ := Nat.exists_eq_add_one.mpr (show 0 < fuel by omega)
    simp only [parameters, yields_bind, yields_expectName, yields_accept]
    refine ⟨(), _, yields_limit_below (by omega) _, _, _, ⟨_, _, rfl, ht, rfl, rfl⟩, true, _,
      ⟨_, _, rfl, hc, rfl⟩, ?_⟩
    simp only [if_true, yields_bind, yields_pure]
    exact ⟨_, _, ih (by omega) (by omega), rfl, rfl⟩

lemma beginsWith_of_nameList {ps : List Token} {names : List Name} (h : NameList ps names) :
    BeginsWith (· == .identifier) ps := by
  cases h with
  | last ht => exact beginsWith_cons (by simp [ht])
  | more ht _ _ => exact beginsWith_cons (by simp [ht])

lemma readsFunction {t opening closing : Token} {ps : List Token} {params : List Name}
    (ht : t.kind = .identifier) (hp : ParameterList ps params) (ho : opening.kind = .leftBrace)
    (h : ReadsDeclarations n ts body m) (hc : closing.kind = .rightBrace) :
    ReadsFunction n (t :: (ps ++ opening :: (ts ++ [closing]))) ⟨t.name, params, body⟩ m := by
  intro fuel role rest hf
  simp only [List.length_cons, List.length_append, List.length_nil] at hf
  have hb : Reads (block (declarations fuel true)) n (ts ++ [closing]) body m rest :=
    h.closed hc (by omega)
  cases hp with
  | none hl hr =>
    simp only [function, yields_bind, yields_expectName, yields_expect, yields_check]
    simp only [List.cons_append, List.nil_append]
    refine ⟨_, _, ⟨t, _, rfl, ht, rfl, rfl⟩, _, _, ⟨_, rfl, hl, rfl⟩, true, _,
      ⟨by simp [hr], rfl⟩, ?_⟩
    simp only [if_true, yields_bind, yields_expect, yields_pure]
    exact ⟨[], _, ⟨rfl, rfl⟩, _, _, ⟨_, rfl, hr, rfl⟩, opening, _, ⟨_, rfl, ho, rfl⟩, body, _,
      hb, rfl, rfl⟩
  | @some left right qs _ hl hr hnames hlen =>
    simp only [List.length_cons, List.length_append, List.length_nil] at hf
    simp only [function, yields_bind, yields_expectName, yields_expect, yields_check]
    simp only [List.cons_append, List.append_assoc, List.nil_append]
    refine ⟨_, _, ⟨t, _, rfl, ht, rfl, rfl⟩, left, _, ⟨_, rfl, hl, rfl⟩, false, _,
      ⟨(beginsWith_of_nameList hnames).check_append (by decide), rfl⟩, ?_⟩
    simp only [Bool.false_eq_true, if_false, yields_bind, yields_expect, yields_pure]
    refine ⟨params, _, names_read hnames (by omega) (by omega) (by simp [hr]) n, right, _,
      ⟨_, rfl, hr, rfl⟩, opening, _, ⟨_, rfl, ho, rfl⟩, body, _, ?_, rfl, rfl⟩
    simpa only [Reads, List.append_assoc, List.cons_append, List.nil_append] using hb

lemma readsMethods_none (n : Nat) : ReadsMethods n [] [] n := by
  intro fuel rest hf hr
  obtain ⟨fuel, rfl⟩ := Nat.exists_eq_add_one.mpr (show 0 < fuel by omega)
  simp only [methods, yields_bind, yields_atClose]
  refine ⟨true, _, ⟨hr, rfl⟩, ?_⟩
  simp

lemma not_closes_of_beginsWith {begins : Token.Kind → Bool} (h : BeginsWith begins ts)
    (he : begins .eof = false) (hb : begins .rightBrace = false) (inBlock : Bool) (us : List Token) :
    closes inBlock (ts ++ us) = false := by
  obtain ⟨t, ts, rfl, ht⟩ := h
  simp only [closes, List.cons_append, List.head?_cons, Option.elim_some, Bool.or_eq_false_iff,
    Bool.and_eq_false_iff, beq_eq_false_iff_ne]
  refine ⟨fun hk => ?_, .inr fun hk => ?_⟩
  · simp [hk, he] at ht
  · simp [hk, hb] at ht

lemma readsMethods_cons (h : ReadsFunction n ts decl k) (hb : BeginsWith (· == .identifier) ts)
    (hs : ReadsMethods k us decls m) : ReadsMethods n (ts ++ us) (decl :: decls) m := by
  intro fuel rest hf hr
  obtain ⟨t, tail, rfl, _⟩ := id hb
  simp only [List.length_cons, List.length_append] at hf
  obtain ⟨fuel, rfl⟩ := Nat.exists_eq_add_one.mpr (show 0 < fuel by omega)
  simp only [methods, yields_bind, yields_atClose, List.append_assoc]
  refine ⟨false, _, ⟨not_closes_of_beginsWith hb rfl rfl true _, rfl⟩, ?_⟩
  simp only [Bool.false_eq_true, if_false, yields_bind, yields_pure]
  exact ⟨decl, _, h fuel .method (us ++ rest) (by simp only [List.length_cons]; omega), decls,
    _, hs fuel rest (by omega) hr, rfl, rfl⟩

lemma superclass_absent (hr : ∀ t ∈ rest.head?, t.kind ≠ .less) (n : Nat) :
    Reads superclass n [] none n rest := by
  simp only [superclass, yields_bind, yields_accept]
  refine ⟨false, _, ⟨hr, rfl⟩, ?_⟩
  simp

lemma superclass_present {less parent : Token} (hl : less.kind = .less)
    (hp : parent.kind = .identifier) (n : Nat) :
    Reads superclass n [less, parent] (some ⟨n, parent.name⟩) (n + 1) rest := by
  simp only [superclass, yields_bind, yields_accept]
  refine ⟨true, _, ⟨less, _, rfl, hl, rfl⟩, ?_⟩
  simp only [if_true, yields_bind, yields_expectName, yields_newReference, yields_pure]
  exact ⟨_, _, ⟨parent, _, rfl, hp, rfl, rfl⟩, _, _, ⟨rfl, rfl⟩, rfl, rfl⟩

lemma readsDeclaration_class {keyword t opening closing : Token} (hk : keyword.kind = .kwClass)
    (ht : t.kind = .identifier) (ho : opening.kind = .leftBrace) (h : ReadsMethods n ts decls m)
    (hc : closing.kind = .rightBrace) :
    ReadsDeclaration n (keyword :: t :: opening :: (ts ++ [closing]))
      (.classDecl ⟨t.name, none, decls⟩) m := by
  intro fuel rest hf _
  simp only [List.length_cons, List.length_append, List.length_nil] at hf
  obtain ⟨fuel, rfl⟩ := Nat.exists_eq_add_one.mpr (show 0 < fuel by omega)
  simp only [declaration, yields_bind, yields_accept]
  simp only [List.cons_append, List.append_assoc, List.nil_append]
  refine ⟨true, _, ⟨keyword, _, rfl, hk, rfl⟩, ?_⟩
  simp only [if_true, classDeclaration, yields_bind, yields_expectName, yields_expect, yields_pure]
  have hbody := h fuel (closing :: rest) (by omega) (by simp [closes, hc])
  exact ⟨_, _, ⟨t, _, rfl, ht, rfl, rfl⟩, none, _, superclass_absent (by simp [ho]) n, opening,
    _, ⟨_, rfl, ho, rfl⟩, decls, _, hbody, closing, _, ⟨_, rfl, hc, rfl⟩, rfl, rfl⟩

lemma readsDeclaration_subclass {keyword t less parent opening closing : Token}
    (hk : keyword.kind = .kwClass) (ht : t.kind = .identifier) (hl : less.kind = .less)
    (hp : parent.kind = .identifier) (ho : opening.kind = .leftBrace)
    (h : ReadsMethods (n + 1) ts decls m) (hc : closing.kind = .rightBrace) :
    ReadsDeclaration n (keyword :: t :: less :: parent :: opening :: (ts ++ [closing]))
      (.classDecl ⟨t.name, some ⟨n, parent.name⟩, decls⟩) m := by
  intro fuel rest hf _
  simp only [List.length_cons, List.length_append, List.length_nil] at hf
  obtain ⟨fuel, rfl⟩ := Nat.exists_eq_add_one.mpr (show 0 < fuel by omega)
  simp only [declaration, yields_bind, yields_accept]
  simp only [List.cons_append, List.append_assoc, List.nil_append]
  refine ⟨true, _, ⟨keyword, _, rfl, hk, rfl⟩, ?_⟩
  simp only [if_true, classDeclaration, yields_bind, yields_expectName, yields_expect, yields_pure]
  have hbody := h fuel (closing :: rest) (by omega) (by simp [closes, hc])
  exact ⟨_, _, ⟨t, _, rfl, ht, rfl, rfl⟩, _, _, superclass_present hl hp n, opening, _,
    ⟨_, rfl, ho, rfl⟩, decls, _, hbody, closing, _, ⟨_, rfl, hc, rfl⟩, rfl, rfl⟩

lemma readsDeclaration_function {keyword : Token} (hk : keyword.kind = .kwFun)
    (h : ReadsFunction n ts decl m) :
    ReadsDeclaration n (keyword :: ts) (.functionDecl decl) m := by
  intro fuel rest hf _
  simp only [List.length_cons] at hf
  obtain ⟨fuel, rfl⟩ := Nat.exists_eq_add_one.mpr (show 0 < fuel by omega)
  simp only [declaration, yields_bind, yields_accept]
  refine ⟨false, _, ⟨by simp [hk], rfl⟩, ?_⟩
  simp only [Bool.false_eq_true, if_false, yields_bind, yields_accept]
  refine ⟨true, _, ⟨keyword, _, rfl, hk, rfl⟩, ?_⟩
  simp only [if_true, yields_map]
  exact ⟨decl, h fuel .function rest (by omega), rfl⟩

lemma readsDeclaration_variable {keyword : Token} (hk : keyword.kind = .kwVar)
    (h : ReadsBinding n ts declared m) : ReadsDeclaration n (keyword :: ts) declared m := by
  intro fuel rest hf _
  simp only [List.length_cons] at hf
  obtain ⟨fuel, rfl⟩ := Nat.exists_eq_add_one.mpr (show 0 < fuel by omega)
  simp only [declaration, yields_bind, yields_accept]
  refine ⟨false, _, ⟨by simp [hk], rfl⟩, ?_⟩
  simp only [Bool.false_eq_true, if_false, yields_bind, yields_accept]
  refine ⟨false, _, ⟨by simp [hk], rfl⟩, ?_⟩
  simp only [Bool.false_eq_true, if_false, yields_bind, yields_accept]
  refine ⟨true, _, ⟨keyword, _, rfl, hk, rfl⟩, ?_⟩
  simp only [if_true]
  exact h fuel rest (by omega)

lemma kind_ne_of_beginsStatement {t : Token} {kind : Token.Kind}
    (hb : BeginsWith (fun kind => kind.beginsExpression || kind.beginsControl) ts)
    (hk : (kind.beginsExpression || kind.beginsControl) = false) (ht : t ∈ (ts ++ us).head?) :
    t.kind ≠ kind := by
  obtain ⟨u, ts, rfl, hu⟩ := hb
  obtain rfl : u = t := by simpa using ht
  rintro rfl
  simp [hk] at hu

lemma readsDeclaration_statement {dangling : Bool}
    (h : ReadsStatement n ts dangling declared m)
    (hb : BeginsWith (fun kind => kind.beginsExpression || kind.beginsControl) ts) :
    ReadsDeclaration n ts declared m := by
  intro fuel rest hf helse
  obtain ⟨fuel, rfl⟩ := Nat.exists_eq_add_one.mpr (show 0 < fuel by omega)
  simp only [declaration, yields_bind, yields_accept]
  refine ⟨false, _, ⟨fun t => kind_ne_of_beginsStatement hb rfl, rfl⟩, ?_⟩
  simp only [Bool.false_eq_true, if_false, yields_bind, yields_accept]
  refine ⟨false, _, ⟨fun t => kind_ne_of_beginsStatement hb rfl, rfl⟩, ?_⟩
  simp only [Bool.false_eq_true, if_false, yields_bind, yields_accept]
  refine ⟨false, _, ⟨fun t => kind_ne_of_beginsStatement hb rfl, rfl⟩, ?_⟩
  simp only [Bool.false_eq_true, if_false]
  exact h fuel rest (by omega) (fun _ => helse)

lemma readsDeclarations_none (n : Nat) : ReadsDeclarations n [] [] n := by
  intro fuel inBlock rest hf hr
  obtain ⟨fuel, rfl⟩ := Nat.exists_eq_add_one.mpr (show 0 < fuel by omega)
  simp only [declarations, yields_bind, yields_atClose]
  refine ⟨true, _, ⟨hr, rfl⟩, ?_⟩
  simp

/-- Neither a further declaration nor the end of the declarations is an `else`. -/
lemma no_else_of_declarations (h : Derives k us (.declarations body) m) {inBlock : Bool}
    (hr : closes inBlock rest = true) {t : Token} (ht : t ∈ (us ++ rest).head?) :
    t.kind ≠ .kwElse := by
  cases h with
  | noDeclarations =>
    simp only [List.nil_append] at ht
    rintro hk
    rw [Option.mem_def] at ht
    simp [closes, ht, hk] at hr
  | declared hd _ =>
    obtain ⟨u, vs, rfl, hu⟩ := hd.beginsWith _ rfl
    obtain rfl : u = t := by simpa using ht
    intro hk
    simp [hk, Token.Kind.beginsExpression, Token.Kind.beginsPrimary, UnaryOp.ofKind?,
      Token.Kind.beginsControl, Token.Kind.beginsDeclaration] at hu

lemma readsDeclarations_cons (h : ReadsDeclaration n ts declared k)
    (hb : BeginsWith (fun kind =>
      kind.beginsExpression || kind.beginsControl || kind.beginsDeclaration) ts)
    (hs : ReadsDeclarations k us body m) (hd : Derives k us (.declarations body) m) :
    ReadsDeclarations n (ts ++ us) (declared :: body) m := by
  intro fuel inBlock rest hf hr
  obtain ⟨t, tail, rfl, _⟩ := id hb
  simp only [List.length_cons, List.length_append] at hf
  obtain ⟨fuel, rfl⟩ := Nat.exists_eq_add_one.mpr (show 0 < fuel by omega)
  simp only [declarations, yields_bind, yields_atClose, List.append_assoc]
  refine ⟨false, _, ⟨not_closes_of_beginsWith hb rfl rfl inBlock _, rfl⟩, ?_⟩
  simp only [Bool.false_eq_true, if_false, yields_bind, yields_pure]
  refine ⟨some declared, _, ?_, body, _, hs fuel inBlock rest (by omega) hr, rfl, rfl⟩
  simp only [recovering, yields_bind, yields_get, yields_tryCatch]
  refine ⟨_, _, ⟨rfl, rfl⟩, .inl (yields_map.mpr ⟨declared, ?_, rfl⟩)⟩
  exact h fuel (us ++ rest) (by simp only [List.length_cons]; omega)
    (fun t => no_else_of_declarations hd hr)

def ReadsPhrase (n : Nat) (ts : List Token) : Phrase → Nat → Prop
  | .expression value => ReadsExpression n ts value
  | .operators tier value => ReadsOperators n ts tier value
  | .operand tier value => ReadsOperand n ts tier value
  | .unary value => ReadsUnary n ts value
  | .call value => ReadsCall n ts value
  | .primary value => ReadsPrimary n ts value
  | .arguments values => ReadsArguments n ts values
  | .optional value => ReadsOptional n ts value
  | .binding declared => ReadsBinding n ts declared
  | .evaluation stated => ReadsEvaluation n ts stated
  | .clause initial => ReadsClause n ts initial
  | .statement dangling stated => ReadsStatement n ts dangling stated
  | .declaration declared => ReadsDeclaration n ts declared
  | .declarations body => ReadsDeclarations n ts body
  | .function decl => ReadsFunction n ts decl
  | .methods decls => ReadsMethods n ts decls

lemma reads_of_derives {n m : Nat} {ts : List Token} {p : Phrase} (h : Derives n ts p m) :
    ReadsPhrase n ts p m := by
  induction h with
  | assign ht he _ ih =>
    exact readsExpression_assignTo (readsOperators_of_unary (readsUnary_of_call
      (readsCall_of_primary (readsPrimary_name ht)) (beginsWith_cons (by rw [ht]; rfl))) _) he ih
      fun _ => rfl
  | set hc hd hp he _ ihc ih =>
    have hget := readsUnary_of_call (readsCall_get ihc hd hp) (hc.beginsWith _ rfl).append
    have hset := readsExpression_assignTo (readsOperators_of_unary hget _) he ih fun _ => rfl
    simpa [ReadsPhrase] using hset
  | loosest _ ih => exact readsExpression_loosest ih
  | first _ ih => exact readsOperators_of_operand ih
  | join _ hc _ ihl ihr => exact readsOperators_join ihl hc ihr
  | tighter hi _ ih => exact readsOperand_of_operators hi ih
  | tightest hi _ ih => exact readsOperand_of_unary hi ih
  | prefixed hk _ ih => exact readsUnary_prefixed hk ih
  | postfixed hd ih => exact readsUnary_of_call ih (hd.beginsWith _ rfl)
  | alone _ ih => exact readsCall_of_primary ih
  | invoke _ ho hc ih => exact readsCall_invoke ih ho hc
  | invokeWith _ ho hg hlen hc ih ihg =>
    exact readsCall_invokeWith ih ho ihg (hg.beginsWith _ rfl) hlen hc
  | get _ hd hp ih => exact readsCall_get ih hd hp
  | lastArgument _ ih => exact readsArguments_last ih
  | argument _ hc _ ih ihs => exact readsArguments_more ih hc ihs
  | kwFalse hk => exact readsPrimary_literal (.inl ⟨hk, rfl⟩)
  | kwTrue hk => exact readsPrimary_literal (.inr (.inl ⟨hk, rfl⟩))
  | kwNil hk => exact readsPrimary_literal (.inr (.inr (.inl ⟨hk, rfl⟩)))
  | literal hk => exact readsPrimary_literal (.inr (.inr (.inr ⟨hk, rfl⟩)))
  | name hk => exact readsPrimary_name hk
  | this hk => exact readsPrimary_this hk
  | super hk hd hm => exact readsPrimary_super hk hd hm
  | grouping ho _ hc ih => exact readsPrimary_grouping ho ih hc
  | absent => exact readsOptional_absent _
  | present hd ih => exact readsOptional_present ih (hd.beginsWith _ rfl)
  | evaluate _ hs ih => exact readsEvaluation ih hs
  | evaluation hd ih => exact readsStatement_evaluation ih (hd.beginsWith _ rfl)
  | print hk _ hs ih => exact readsStatement_print hk ih hs
  | ret hk _ hs ih => exact readsStatement_ret hk ih hs
  | block ho _ hc ih => exact readsStatement_block ho ih hc
  | ifThen hk ho _ hc _ ih ihb => exact readsStatement_ifThen hk ho ih hc ihb
  | ifThenElse hk ho _ hc _ he _ ih ihb iha => exact readsStatement_ifThenElse hk ho ih hc ihb he iha
  | whileLoop hk ho _ hc _ ih ihb => exact readsStatement_whileLoop hk ho ih hc ihb
  | forLoop hk ho _ _ hs _ hc _ ihi ihc ihn ihb =>
    exact readsStatement_forLoop hk ho ihi ihc hs ihn hc ihb
  | noClause hs => exact readsClause_none hs
  | binds hk _ ih => exact readsClause_binds hk ih
  | evaluates hd ih => exact readsClause_evaluates ih (hd.beginsWith _ rfl)
  | uninitialized ht hs => exact readsBinding_uninitialized ht hs
  | initialized ht he _ hs ih => exact readsBinding_initialized ht he ih hs
  | statement hd ih => exact readsDeclaration_statement ih (hd.beginsWith _ rfl)
  | varDecl hk _ ih => exact readsDeclaration_variable hk ih
  | functionDecl hk _ ih => exact readsDeclaration_function hk ih
  | classDecl hk ht ho _ hc ih => exact readsDeclaration_class hk ht ho ih hc
  | subclassDecl hk ht hl hp ho _ hc ih => exact readsDeclaration_subclass hk ht hl hp ho ih hc
  | function ht hp ho _ hc ih => exact readsFunction ht hp ho ih hc
  | noMethods => exact readsMethods_none _
  | method hd _ ih ihs => exact readsMethods_cons ih (hd.beginsWith _ rfl) ihs
  | noDeclarations => exact readsDeclarations_none _
  | declared hd hs ih ihs => exact readsDeclarations_cons ih (hd.beginsWith _ rfl) ihs hs

lemma closes_dropWhile (inBlock : Bool) (tokens : List Token) :
    closes inBlock (tokens.dropWhile (·.kind != .eof)) = true := by
  have hk := List.head?_dropWhile_not (fun t : Token => t.kind != .eof) tokens
  generalize tokens.dropWhile (·.kind != .eof) = ending at hk ⊢
  cases ending <;> simp_all [closes]

lemma parse_complete {tokens : List Token} {n m : Nat} {program : Program}
    (h : Derives n (tokens.takeWhile (·.kind != .eof)) (.declarations program) m) :
    Program.parse tokens n = (.ok program, m) := by
  have hlen : (tokens.takeWhile (·.kind != .eof)).length ≤ tokens.length :=
    (List.takeWhile_prefix _).length_le
  have hreads := reads_of_derives h (ample tokens.length) false (tokens.dropWhile (·.kind != .eof))
    (by simp only [ample]; omega) (closes_dropWhile false tokens)
  rw [Reads, List.takeWhile_append_dropWhile] at hreads
  exact parse_eq_ok_iff.mpr ⟨_, hreads, rfl, rfl⟩

end Lox.Parser
