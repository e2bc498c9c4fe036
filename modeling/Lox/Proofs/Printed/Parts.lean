import Lox.Proofs.Printed.Expression

/-! How the texts of expressions and statements begin, and the reading of what statements have besides
expressions and statements. -/

namespace Lox

namespace Reader

open Lexeme (beginsIdentifier continuesIdentifier)

variable {number : List Char → Float} {word text rest : List Char} {fuel : Nat}

section Leads

def operandKeywords : List Token.Kind :=
  [.kwTrue, .kwFalse, .kwNil, .kwThis, .kwSuper]

/-- An expression can begin the text: its word is no keyword of a statement. -/
structure LeadsExpression (text : List Char) : Prop where
  keyword : ∀ kind ∈ keyword? (lead text), kind ∈ operandKeywords
  brace : ∀ c ∈ text.head?, c ≠ '\x7b' ∧ c ≠ '\x7d'

lemma keyword?_lead_of_head {c : Char} (hc : beginsIdentifier c = false) :
    keyword? (lead (c :: text)) = none := by
  refine Option.map_eq_none_iff.mpr (List.find?_eq_none.mpr fun entry he => ?_)
  obtain ⟨d, cs, hentry, hd, -⟩ := isWord_keyword entry he
  simp only [decide_eq_true_eq, hentry, lead, List.takeWhile_cons]
  split
  · rintro ⟨rfl, -⟩
    exact Bool.false_ne_true (hc.symm.trans hd)
  · exact List.cons_ne_nil d cs

lemma leads_of_head {c : Char} (hc : beginsIdentifier c = false) (hopening : c ≠ '\x7b')
    (hclosing : c ≠ '\x7d') : LeadsExpression (c :: text) where
  keyword := by simp [keyword?_lead_of_head hc]
  brace := forall_head ⟨hopening, hclosing⟩

lemma IsWord.length_pos (h : IsWord word) : 0 < word.length := by
  obtain ⟨c, cs, rfl, -⟩ := h
  exact Nat.succ_pos _

lemma IsWord.head (h : IsWord word) (text : List Char) :
    ∀ c ∈ (word ++ text).head?, beginsIdentifier c = true := by
  obtain ⟨c, cs, rfl, hc, -⟩ := h
  exact forall_head hc

lemma IsWord.append_ne (h : IsWord word) (text : List Char) {c : Char}
    (hc : beginsIdentifier c = false) : word ++ text ≠ c :: rest := by
  intro heq
  exact Bool.false_ne_true (hc.symm.trans (h.head text c (by simp [heq])))

lemma IsWord.brace (h : IsWord word) (text : List Char) :
    ∀ c ∈ (word ++ text).head?, c ≠ '\x7b' ∧ c ≠ '\x7d' := by
  intro c hc
  refine ⟨?_, ?_⟩
  · rintro rfl
    exact absurd (h.head text _ hc) (by decide)
  · rintro rfl
    exact absurd (h.head text _ hc) (by decide)

lemma leads_of_word (h : IsWord word)
    (hkeyword : ∀ kind ∈ keyword? word, kind ∈ operandKeywords)
    (hrest : ∀ c ∈ rest.head?, continuesIdentifier c = false) : LeadsExpression (word ++ rest) where
  keyword := by rwa [(lead_word h hrest).1]
  brace := h.brace rest

lemma leads_of_isName {name : String} (h : IsName name)
    (hrest : ∀ c ∈ rest.head?, continuesIdentifier c = false) :
    LeadsExpression (name.toList ++ rest) :=
  leads_of_word (isWord_of_isName h) (by simp [keyword?_of_isName h]) hrest

lemma leads_of_digit {c : Char} (hc : c.isDigit = true ∨ c = '-') : LeadsExpression (c :: text) := by
  have hnumeric : (c.isDigit || c == '-') = true := by simpa using hc
  refine leads_of_head (Bool.eq_false_iff.mpr fun hbegins => ?_) ?_ ?_
  · exact Bool.false_ne_true ((ne_of_beginsIdentifier hbegins).2.2.symm.trans hnumeric)
  · rintro rfl
    exact absurd hnumeric (by decide)
  · rintro rfl
    exact absurd hnumeric (by decide)

lemma leads_literal {value : Literal} (h : ∀ word ∈ value.words, word.Legible)
    (hrest : Delimits rest) : LeadsExpression (value.written.toList ++ rest) := by
  cases value with
  | number x =>
    obtain ⟨c, text, htext, hc, -⟩ := Decimal.text_begins Literal.numberSpelling
      (h (.number x) (by simp [Literal.words]) : Word.Legible (.number x))
    rw [Literal.written, htext]
    exact leads_of_digit hc
  | text body =>
    simp only [Literal.written, String.toList_append, List.append_assoc]
    exact leads_of_head (by decide) (by decide) (by decide)
  | boolean value =>
    cases value
    · exact leads_of_word (isWord_keyword ("false", .kwFalse) (by decide)) (by decide) hrest.identifier
    · exact leads_of_word (isWord_keyword ("true", .kwTrue) (by decide)) (by decide) hrest.identifier
  | nil => exact leads_of_word (isWord_keyword ("nil", .kwNil) (by decide)) (by decide) hrest.identifier

lemma leads_expr {value : Expr} (h : ∀ word ∈ value.words, word.Legible) (hrest : Delimits rest) :
    LeadsExpression (value.written.toList ++ rest) := by
  cases value with
  | literal value => exact leads_literal h hrest
  | read target =>
    exact leads_of_isName (List.forall_mem_singleton.mp h : Word.Legible (.name _)) hrest.identifier
  | this keyword =>
    rw [Expr.written]
    exact leads_of_word (isWord_keyword ("this", .kwThis) (by decide)) (by decide) hrest.identifier
  | super keyword method =>
    have hwritten : (Expr.super keyword method).written.toList ++ rest =
        "super".toList ++ '.' :: (method.text.toList ++ rest) := by
      simp [Expr.written]
    rw [hwritten]
    exact leads_of_word (isWord_keyword ("super", .kwSuper) (by decide)) (by decide)
      (forall_head rfl)
  | _ =>
    simp only [Expr.written, String.toList_append, List.append_assoc]
    exact leads_of_head (by decide) (by decide) (by decide)

lemma statement_of_leads (h : LeadsExpression text) :
    statement number (fuel + 1) text =
      (.expression (expression number fuel text).1, (expression number fuel text).2.tail) := by
  have hbrace : text.head? ≠ some '\x7b' := fun hhead => (h.brace _ hhead).1 rfl
  rw [statement]
  rcases hk : keyword? (lead text) with _ | kind
  · simp only [if_neg hbrace]
  · have hkind := h.keyword kind hk
    simp only [operandKeywords, List.mem_cons, List.not_mem_nil, or_false] at hkind
    rcases hkind with rfl | rfl | rfl | rfl | rfl <;> simp only [if_neg hbrace]

/-- A statement can begin the text: neither an `else` nor a closing brace does. -/
structure LeadsStatement (text : List Char) : Prop where
  keyword : keyword? (lead text) ≠ some .kwElse
  brace : ∀ c ∈ text.head?, c ≠ '\x7d'

lemma LeadsExpression.statement (h : LeadsExpression text) : LeadsStatement text where
  keyword hk := absurd (h.keyword _ hk) (by decide)
  brace c hc := (h.brace c hc).2

lemma keyword?_keyword : ∀ entry ∈ Token.Kind.keywords, keyword? entry.1.toList = some entry.2 :=
  List.map_inj_left.mp rfl

lemma leads_of_keyword (entry : String × Token.Kind) (c : Char)
    (he : entry ∈ Token.Kind.keywords) (helse : entry.2 ≠ .kwElse)
    (hc : continuesIdentifier c = false) (htext : entry.1.toList ++ [c] <+: text) :
    LeadsStatement text := by
  obtain ⟨rest, rfl⟩ := htext
  have hword := isWord_keyword entry he
  rw [List.append_assoc, List.singleton_append]
  refine ⟨?_, fun d hd => (hword.brace _ d hd).2⟩
  rw [(lead_word hword (forall_head hc)).1, keyword?_keyword entry he]
  simpa using helse

lemma leads_stmt {stated : Stmt} (h : ∀ word ∈ stated.words, word.Legible) (rest : List Char) :
    LeadsStatement (stated.written.toList ++ rest) := by
  match stated with
  | .expression value =>
    simp only [Stmt.written, String.toList_append, List.append_assoc]
    exact (leads_expr h (delimits_of_head rfl rfl)).statement
  | .print _ _ =>
    exact leads_of_keyword ("print", .kwPrint) ' ' (by decide) (by decide) rfl (by simp [Stmt.written])
  | .varDecl _ _ =>
    exact leads_of_keyword ("var", .kwVar) ' ' (by decide) (by decide) rfl (by simp [Stmt.written])
  | .functionDecl _ =>
    exact leads_of_keyword ("fun", .kwFun) ' ' (by decide) (by decide) rfl (by simp [Stmt.written])
  | .classDecl ⟨_, _, _⟩ =>
    exact leads_of_keyword ("class", .kwClass) ' ' (by decide) (by decide) rfl
      (by simp [Stmt.written, ClassDecl.written])
  | .block body =>
    have hwritten : (Stmt.block body).written.toList ++ rest =
        '\x7b' :: ' ' :: ((Stmt.writtenBody body).toList ++ '\x7d' :: rest) := by
      simp [Stmt.written]
    rw [hwritten]
    refine ⟨?_, forall_head (by decide)⟩
    rw [keyword?_lead_of_head rfl]
    exact (Option.some_ne_none _).symm
  | .ifElse _ _ none | .ifElse _ _ (some _) =>
    exact leads_of_keyword ("if", .kwIf) ' ' (by decide) (by decide) rfl (by simp [Stmt.written])
  | .whileLoop _ _ =>
    exact leads_of_keyword ("while", .kwWhile) ' ' (by decide) (by decide) rfl (by simp [Stmt.written])
  | .ret _ none =>
    exact leads_of_keyword ("return", .kwReturn) ';' (by decide) (by decide) rfl
      (by simp [Stmt.written, Expr.writtenAfter])
  | .ret _ (some _) =>
    exact leads_of_keyword ("return", .kwReturn) ' ' (by decide) (by decide) rfl
      (by simp [Stmt.written, Expr.writtenAfter])

end Leads

section Parts

lemma expressionAfter_exact (hnumber : ReadsNumbers number) (before : String)
    (hbefore : before.toList.head? = some ' ') {initial : Option Expr}
    (h : ∀ word ∈ Expr.wordsOption initial, word.Legible)
    (hfuel : (Expr.writtenAfter before initial).toList.length ≤ fuel) (rest : List Char) :
    expressionAfter number before.toList.length fuel
      ((Expr.writtenAfter before initial).toList ++ ';' :: rest) =
        (initial.map Expr.bare, ';' :: rest) := by
  cases initial with
  | none => rfl
  | some value =>
    simp only [Expr.writtenAfter, String.toList_append, List.length_append] at hfuel
    have hread := readsBack_of_legible hnumber value h fuel (';' :: rest) (by omega)
      (delimits_of_head rfl rfl)
    have hhead : (before.toList ++ (value.written.toList ++ ';' :: rest)).head? ≠ some ';' := by
      simp [List.head?_append, hbefore]
    rw [Expr.writtenAfter, String.toList_append, List.append_assoc, expressionAfter, if_neg hhead,
      List.drop_left, hread]
    rfl

lemma writtenAfter_head (before : String) (hbefore : before.toList.head? = some ' ')
    (initial : Option Expr) (rest : List Char) :
    ∀ c ∈ ((Expr.writtenAfter before initial).toList ++ ';' :: rest).head?,
      continuesIdentifier c = false := by
  cases initial with
  | none => exact forall_head rfl
  | some value =>
    have hblank : continuesIdentifier ' ' = false := rfl
    simp [Expr.writtenAfter, List.head?_append, hbefore, hblank]

lemma names_exact {params : List Name} (h : ∀ param ∈ params, IsName param.text)
    (hfuel : (", ".intercalate (params.map Name.text)).toList.length + 1 ≤ fuel) (rest : List Char) :
    names fuel ((", ".intercalate (params.map Name.text)).toList ++ ')' :: rest) =
      (params.map Labels.unlined.named, rest) := by
  obtain ⟨fuel, rfl⟩ : ∃ k, fuel = k + 1 := Nat.exists_eq_succ_of_ne_zero (by omega)
  induction params generalizing fuel with
  | nil => rfl
  | cons param params ih =>
    obtain ⟨hparam, hparams⟩ := List.forall_mem_cons.mp h
    have hword := isWord_of_isName hparam
    have hlength : 1 ≤ param.text.toList.length := hword.length_pos
    cases params with
    | nil =>
      have hname : name (param.text.toList ++ ')' :: rest) = (⟨param.text, 0⟩, ')' :: rest) :=
        name_exact hparam (forall_head rfl)
      simp only [List.map_singleton, String.intercalate_singleton] at hfuel ⊢
      obtain ⟨fuel, rfl⟩ : ∃ k, fuel = k + 1 := Nat.exists_eq_succ_of_ne_zero (by omega)
      rw [names, hname]
      · rfl
      · exact fun _ => hword.append_ne _ rfl
    | cons next others =>
      have hname (text : List Char) : name (param.text.toList ++ ", ".toList ++ text) =
          (⟨param.text, 0⟩, ',' :: ' ' :: text) := by
        rw [List.append_assoc]
        exact name_exact hparam (forall_head rfl)
      simp only [List.map_cons, String.intercalate_cons_cons, String.toList_append,
        List.length_append] at hfuel ih ⊢
      obtain ⟨fuel, rfl⟩ : ∃ k, fuel = k + 1 := Nat.exists_eq_succ_of_ne_zero (by omega)
      have hothers := ih hparams fuel (by omega)
      rw [List.append_assoc, names, hname]
      · simp only [List.head?_cons, if_true, List.drop_succ_cons, List.drop_zero, hothers]
        rfl
      · rw [List.append_assoc]
        exact fun _ => hword.append_ne _ rfl

lemma superclass_exact {parent : Option Reference}
    (h : ∀ target ∈ parent, IsName target.name.text) (rest : List Char) :
    superclass ((parent.elim "" fun target => " < " ++ target.name.text).toList ++
      ' ' :: '\x7b' :: rest) =
        (parent.map (Labels.unlined.reference ∘ Reference.rename fun _ => 0), ' ' :: '\x7b' :: rest) := by
  cases parent with
  | none => rfl
  | some target =>
    have hname : name (target.name.text.toList ++ ' ' :: '\x7b' :: rest) =
        (⟨target.name.text, 0⟩, ' ' :: '\x7b' :: rest) :=
      name_exact (h target rfl) (forall_head rfl)
    rw [Option.elim_some, String.toList_append, List.append_assoc]
    change superclass (' ' :: '<' :: ' ' :: (target.name.text.toList ++ ' ' :: '\x7b' :: rest)) = _
    rw [superclass, if_pos (by simp)]
    simp only [List.drop_succ_cons, List.drop_zero, hname]
    rfl

lemma superclass_head (parent : Option Reference) (rest : List Char) :
    ∀ c ∈ ((parent.elim "" fun target => " < " ++ target.name.text).toList ++
      ' ' :: '\x7b' :: rest).head?, continuesIdentifier c = false := by
  cases parent with
  | none => exact forall_head rfl
  | some target =>
    rw [Option.elim_some, String.toList_append, List.append_assoc]
    exact forall_head rfl

end Parts

end Reader

end Lox
