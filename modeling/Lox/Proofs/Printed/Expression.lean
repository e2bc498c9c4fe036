import Lox.Proofs.Printed.Reader
import Lox.Proofs.Printed.Text
import Lox.Proofs.Printed.Words

/-! What is written of an expression is read back as the expression. -/

namespace Lox

namespace Reader

open Lexeme (beginsIdentifier continuesIdentifier)

variable {number : List Char → Float} {p : Char → Bool} {word text rest : List Char} {value : Expr}

lemma takeWhile_exact (hword : ∀ c ∈ word, p c = true) (hrest : ∀ c ∈ rest.head?, p c = false) :
    (word ++ rest).takeWhile p = word := by
  rw [List.takeWhile_append_of_pos hword]
  cases rest with
  | nil => simp
  | cons c rest => simp [hrest c rfl]

lemma dropWhile_exact (hword : ∀ c ∈ word, p c = true) (hrest : ∀ c ∈ rest.head?, p c = false) :
    (word ++ rest).dropWhile p = rest := by
  rw [List.dropWhile_append_of_pos hword]
  cases rest with
  | nil => rfl
  | cons c rest => exact List.dropWhile_cons_of_neg (by simp [hrest c rfl])

lemma bne_of_not_mem {c : Char} (h : c ∉ text) : ∀ d ∈ text, (d != c) = true := by
  intro d hd
  rw [bne_iff_ne]
  rintro rfl
  exact h hd

lemma forall_head {q : Char → Prop} {c : Char} (hc : q c) : ∀ d ∈ (c :: text).head?, q d := by
  rintro _ ⟨⟩
  exact hc

/-- Neither a word nor a number goes on. -/
def Delimits (rest : List Char) : Prop :=
  ∀ c ∈ rest.head?, continuesIdentifier c = false ∧ continuesNumber c = false

/-- A text is read as an expression, whatever it is that comes behind. -/
def Reads (number : List Char → Float) (text : List Char) (value : Expr) : Prop :=
  ∀ fuel rest, text.length ≤ fuel → Delimits rest →
    expression number fuel (text ++ rest) = (value, rest)

section Atoms

lemma reads_atom {c : Char} (hc : c ≠ '(')
    (h : ∀ rest, Delimits rest → atom number (c :: text ++ rest) = (value, rest)) :
    Reads number (c :: text) value := by
  intro fuel rest hfuel hrest
  obtain ⟨fuel, rfl⟩ : ∃ k, fuel = k + 1 := Nat.exists_eq_succ_of_ne_zero (by simp at hfuel; omega)
  rw [← h rest hrest, List.cons_append, expression]
  rintro _ ⟨⟩
  exact hc rfl

lemma ne_of_beginsIdentifier {c : Char} (hc : beginsIdentifier c = true) :
    c ≠ '"' ∧ c ≠ '(' ∧ (c.isDigit || c == '-') = false := by
  have hrange := Lexeme.range_of_begins hc
  refine ⟨?_, ?_, ?_⟩
  · rintro rfl
    exact absurd hrange.1 (by decide)
  · rintro rfl
    exact absurd hrange.1 (by decide)
  · refine Bool.or_eq_false_iff.mpr ⟨Bool.eq_false_iff.mpr fun hdigit => ?_, ?_⟩
    · have hdigit := Lexeme.range_of_digit hdigit
      omega
    · refine beq_eq_false_iff_ne.mpr ?_
      rintro rfl
      exact absurd hrange.1 (by decide)

lemma continuesIdentifier_of_begins {c : Char} (hc : beginsIdentifier c = true) :
    continuesIdentifier c = true := by
  simp only [beginsIdentifier, continuesIdentifier, Char.isAlphanum, Bool.or_eq_true] at hc ⊢
  tauto

lemma atom_word {c : Char} (hc : beginsIdentifier c = true) :
    atom number (c :: text) = ofWord (lead (c :: text)) (behindLead (c :: text)) := by
  obtain ⟨hquote, -, hnumber⟩ := ne_of_beginsIdentifier hc
  rw [atom, if_neg (by simp [hnumber])]
  exact hquote

def IsWord (word : List Char) : Prop :=
  ∃ c rest, word = c :: rest ∧ beginsIdentifier c = true ∧ ∀ d ∈ rest, continuesIdentifier d = true

lemma IsWord.continues (h : IsWord word) : ∀ c ∈ word, continuesIdentifier c = true := by
  obtain ⟨c, rest, rfl, hc, hrest⟩ := h
  exact List.forall_mem_cons.mpr ⟨continuesIdentifier_of_begins hc, hrest⟩

lemma lead_word (h : IsWord word) (hrest : ∀ c ∈ rest.head?, continuesIdentifier c = false) :
    lead (word ++ rest) = word ∧ behindLead (word ++ rest) = rest :=
  ⟨takeWhile_exact h.continues hrest, dropWhile_exact h.continues hrest⟩

lemma reads_word (h : IsWord word)
    (hword : ∀ rest, Delimits rest → ofWord word (text ++ rest) = (value, rest))
    (htext : ∀ rest, Delimits rest → ∀ c ∈ (text ++ rest).head?, continuesIdentifier c = false) :
    Reads number (word ++ text) value := by
  obtain ⟨c, cs, rfl, hc, hcs⟩ := id h
  rw [List.cons_append]
  refine reads_atom (ne_of_beginsIdentifier hc).2.1 fun rest hrest => ?_
  obtain ⟨hlead, hbehind⟩ := lead_word h (htext rest hrest)
  have hwhole : c :: (cs ++ text) ++ rest = c :: (cs ++ (text ++ rest)) := by simp
  rw [List.cons_append] at hlead hbehind
  rw [hwhole, atom_word hc, hlead, hbehind, hword rest hrest]

lemma Delimits.identifier (h : Delimits rest) : ∀ c ∈ rest.head?, continuesIdentifier c = false :=
  fun c hc => (h c hc).1

lemma reads_alone (h : IsWord word) (hword : ∀ rest, ofWord word rest = (value, rest)) :
    Reads number word value := by
  have hreads : Reads number (word ++ []) value := reads_word h (fun rest _ => hword rest)
    fun rest hrest => hrest.identifier
  rwa [List.append_nil] at hreads

lemma isWord_of_isName {text : String} (h : IsName text) : IsWord text.toList :=
  h.chars

lemma keyword?_of_isName {text : String} (h : IsName text) : keyword? text.toList = none := by
  refine Option.map_eq_none_iff.mpr (List.find?_eq_none.mpr fun entry he => ?_)
  simpa [String.toList_inj, eq_comm] using h.notKeyword entry he

lemma reads_name {text : String} (h : IsName text) :
    Reads number text.toList (.read ⟨0, ⟨text, 0⟩⟩) := by
  refine reads_alone (isWord_of_isName h) fun rest => ?_
  rw [ofWord, keyword?_of_isName h]
  simp [nameOf]

lemma isWord_of_all {word : List Char} (hbegins : word.head?.any beginsIdentifier = true)
    (hcontinues : word.all continuesIdentifier = true) : IsWord word := by
  cases word with
  | nil => simp at hbegins
  | cons c rest =>
    exact ⟨c, rest, rfl, hbegins, fun d hd =>
      List.all_eq_true.mp hcontinues d (List.mem_cons_of_mem _ hd)⟩

lemma isWord_keyword : ∀ entry ∈ Token.Kind.keywords, IsWord entry.1.toList := by
  have hchars : (Token.Kind.keywords.all fun entry =>
      entry.1.toList.head?.any beginsIdentifier && entry.1.toList.all continuesIdentifier) = true := rfl
  intro entry he
  obtain ⟨hbegins, hcontinues⟩ := Bool.and_eq_true_iff.mp (List.all_eq_true.mp hchars entry he)
  exact isWord_of_all hbegins hcontinues

lemma name_exact {text : String} (h : IsName text)
    (hrest : ∀ c ∈ rest.head?, continuesIdentifier c = false) :
    name (text.toList ++ rest) = (⟨text, 0⟩, rest) := by
  obtain ⟨hlead, hbehind⟩ := lead_word (isWord_of_isName h) hrest
  rw [name, hlead, hbehind]
  simp [nameOf]

lemma reads_super {method : String} (h : IsName method) :
    Reads number ("super".toList ++ '.' :: method.toList) (.super ⟨0, ⟨"super", 0⟩⟩ ⟨method, 0⟩) := by
  refine reads_word (isWord_keyword ("super", .kwSuper) (by decide)) (fun rest hrest => ?_)
    fun rest _ c hc => ?_
  · have hname := name_exact h hrest.identifier
    have hsuper : keyword? "super".toList = some .kwSuper := rfl
    rw [ofWord, hsuper]
    simp [hname]
  · obtain rfl : '.' = c := by simpa using hc
    rfl

lemma reads_text {body : String} (h : '"' ∉ body.toList) :
    Reads number ('"' :: (body.toList ++ ['"'])) (.literal (.text body)) := by
  refine reads_atom (by decide) fun rest _ => ?_
  have hbody := bne_of_not_mem h
  have hquote : ∀ c ∈ ('"' :: rest).head?, (c != '"') = false := by simp
  rw [List.cons_append, List.append_assoc, List.cons_append, List.nil_append, atom,
    takeWhile_exact hbody hquote, dropWhile_exact hbody hquote]
  simp

/-- What is written of a finite number is read as the number. -/
def ReadsNumbers (number : List Char → Float) : Prop :=
  ∀ x : Float, x.isFinite = true → number (Decimal.text Literal.numberSpelling x).toList = x

lemma reads_number (hnumber : ReadsNumbers number) {x : Float} (h : x.isFinite = true) :
    Reads number (Decimal.text Literal.numberSpelling x).toList (.literal (.number x)) := by
  have hread := hnumber x h
  obtain ⟨c, text, htext, hc, hchars⟩ := Decimal.text_begins Literal.numberSpelling h
  rw [htext] at hread ⊢
  have hnumeric : ∀ d ∈ c :: text, continuesNumber d = true := by
    intro d hd
    simpa [continuesNumber, or_assoc] using hchars d hd
  have hbegins : (c.isDigit || c == '-') = true := by simpa using hc
  refine reads_atom ?_ fun rest hrest => ?_
  · rintro rfl
    exact absurd hbegins (by decide)
  · have htake := takeWhile_exact hnumeric fun d hd => (hrest d hd).2
    have hdrop := dropWhile_exact hnumeric fun d hd => (hrest d hd).2
    rw [List.cons_append] at htake hdrop ⊢
    rw [atom, if_pos hbegins, htake, hdrop, hread]
    rintro rfl
    exact absurd hbegins (by decide)

end Atoms

section Compounds

/-- The written form of an expression is read as the expression without its lines and identities. -/
def ReadsBack (number : List Char → Float) (value : Expr) : Prop :=
  Reads number value.written.toList value.bare

lemma delimits_of_head {c : Char} (hidentifier : continuesIdentifier c = false)
    (hnumber : continuesNumber c = false) : Delimits (c :: rest) :=
  forall_head ⟨hidentifier, hnumber⟩

lemma delimits_arguments (values : List Expr) (rest : List Char) :
    Delimits ((Expr.writtenArguments values).toList ++ ')' :: rest) := by
  cases values with
  | nil => exact delimits_of_head rfl rfl
  | cons value values =>
    simp only [Expr.writtenArguments, String.toList_append, List.append_assoc]
    exact delimits_of_head rfl rfl

lemma operands_exact (values : List Expr) (h : ∀ value ∈ values, ReadsBack number value)
    {fuel : Nat} (rest : List Char)
    (hfuel : (Expr.writtenArguments values).toList.length + 1 ≤ fuel) :
    operands number fuel ((Expr.writtenArguments values).toList ++ ')' :: rest) =
      (values.map Expr.bare, rest) := by
  obtain ⟨fuel, rfl⟩ : ∃ k, fuel = k + 1 := Nat.exists_eq_succ_of_ne_zero (by omega)
  induction values generalizing fuel with
  | nil => rfl
  | cons value values ih =>
    obtain ⟨hvalue, hvalues⟩ := List.forall_mem_cons.mp h
    have hwritten : (Expr.writtenArguments (value :: values)).toList =
        ' ' :: (value.written.toList ++ (Expr.writtenArguments values).toList) := by
      simp [Expr.writtenArguments]
    rw [hwritten] at hfuel ⊢
    simp only [List.length_cons, List.length_append] at hfuel
    obtain ⟨fuel, rfl⟩ : ∃ k, fuel = k + 1 := Nat.exists_eq_succ_of_ne_zero (by omega)
    have hfirst := hvalue (fuel + 1) _ (by omega) (delimits_arguments values rest)
    rw [List.cons_append, operands, List.tail_cons, List.append_assoc, hfirst, List.map_cons]
    · dsimp only
      rw [ih hvalues fuel (by omega)]
    · nofun

lemma reads_compound {whole : Expr} (head : String) (first : Expr) (others : List Expr)
    (h : ∀ value ∈ first :: others, ReadsBack number value) (hhead : ' ' ∉ head.toList)
    (hwritten : whole.written = "(" ++ head ++ Expr.writtenArguments (first :: others) ++ ")")
    (hbare : assemble head.toList ((first :: others).map Expr.bare) = whole.bare) :
    ReadsBack number whole := by
  intro fuel rest hfuel _
  have htext : whole.written.toList ++ rest =
      '(' :: (head.toList ++ ((Expr.writtenArguments (first :: others)).toList ++ ')' :: rest)) := by
    simp [hwritten]
  have hlength : whole.written.toList.length =
      head.toList.length + (Expr.writtenArguments (first :: others)).toList.length + 2 := by
    simp [hwritten]
    omega
  obtain ⟨fuel, rfl⟩ : ∃ k, fuel = k + 1 := Nat.exists_eq_succ_of_ne_zero (by omega)
  have hblank := bne_of_not_mem hhead
  have hoperands : ∀ c ∈ ((Expr.writtenArguments (first :: others)).toList ++ ')' :: rest).head?,
      (c != ' ') = false := by
    simp [Expr.writtenArguments]
  have hvalues : operands number fuel _ = _ := operands_exact (first :: others) h rest (by omega)
  rw [htext, expression, takeWhile_exact hblank hoperands, dropWhile_exact hblank hoperands, hvalues,
    ← hbare]

lemma assemble_unary (op : UnaryOp) (operand : Expr) :
    assemble op.symbol.toList [operand] = .unary op 0 operand := by
  cases op <;> rfl

lemma assemble_binary (op : BinaryOp) (left right : Expr) :
    assemble op.symbol.toList [left, right] = .binary op 0 left right := by
  cases op <;> rfl

lemma assemble_logical (op : LogicalOp) (left right : Expr) :
    assemble op.symbol.toList [left, right] = .logical op 0 left right := by
  cases op <;> rfl

lemma readsBack_read {target : Reference} (h : IsName target.name.text) :
    ReadsBack number (.read target) :=
  reads_name h

lemma readsBack_get {object : Expr} {property : Name} (hobject : ReadsBack number object)
    (hproperty : IsName property.text) : ReadsBack number (.get object property) := by
  refine reads_compound "." object [.read ⟨0, property⟩] ?_ (by decide) ?_ rfl
  · simpa using ⟨hobject, readsBack_read hproperty⟩
  · simp [Expr.written, Expr.writtenArguments, ← String.toList_inj]

end Compounds

section Trees

lemma readsBack_literal (hnumber : ReadsNumbers number) {value : Literal}
    (h : ∀ word ∈ value.words, word.Legible) :
    ReadsBack number (.literal value) := by
  cases value with
  | number x => exact reads_number hnumber (h (.number x) (by simp [Literal.words]))
  | text body =>
    have hread : Reads number _ _ := reads_text (h (.quoted body) (by simp [Literal.words]))
    have hwritten : (Literal.text body).written.toList = '"' :: (body.toList ++ ['"']) := by
      simp [Literal.written]
    rwa [← hwritten] at hread
  | boolean value =>
    cases value
    · exact reads_alone (isWord_keyword ("false", .kwFalse) (by decide)) fun _ => rfl
    · exact reads_alone (isWord_keyword ("true", .kwTrue) (by decide)) fun _ => rfl
  | nil => exact reads_alone (isWord_keyword ("nil", .kwNil) (by decide)) fun _ => rfl

mutual

lemma readsBack_of_legible (hnumber : ReadsNumbers number) (value : Expr)
    (h : ∀ word ∈ value.words, word.Legible) : ReadsBack number value := by
  match value with
  | .literal value => exact readsBack_literal hnumber h
  | .grouping inner =>
    refine reads_compound "group" inner [] ?_ (by decide) ?_ rfl
    · simpa using readsBack_of_legible hnumber inner h
    · simp [Expr.written, Expr.writtenArguments, ← String.toList_inj]
  | .unary op line operand =>
    refine reads_compound op.symbol operand [] ?_ (by cases op <;> decide) ?_ (assemble_unary ..)
    · simpa using readsBack_of_legible hnumber operand h
    · simp [Expr.written, Expr.writtenArguments, ← String.toList_inj]
  | .binary op line left right =>
    obtain ⟨hleft, hright⟩ := List.forall_mem_append.mp h
    refine reads_compound op.symbol left [right] ?_ (by cases op <;> decide) ?_
      (assemble_binary ..)
    · simpa using ⟨readsBack_of_legible hnumber left hleft, readsBack_of_legible hnumber right hright⟩
    · simp [Expr.written, Expr.writtenArguments, ← String.toList_inj]
  | .logical op line left right =>
    obtain ⟨hleft, hright⟩ := List.forall_mem_append.mp h
    refine reads_compound op.symbol left [right] ?_ (by cases op <;> decide) ?_
      (assemble_logical ..)
    · simpa using ⟨readsBack_of_legible hnumber left hleft, readsBack_of_legible hnumber right hright⟩
    · simp [Expr.written, Expr.writtenArguments, ← String.toList_inj]
  | .read target => exact readsBack_read (List.forall_mem_singleton.mp h : Word.Legible (.name _))
  | .assign target value =>
    obtain ⟨htarget, hvalue⟩ := List.forall_mem_cons.mp h
    refine reads_compound "=" (.read target) [value] ?_ (by decide) ?_ rfl
    · simpa using ⟨readsBack_read htarget, readsBack_of_legible hnumber value hvalue⟩
    · simp [Expr.written, Expr.writtenArguments, ← String.toList_inj]
  | .call callee arguments line =>
    obtain ⟨hcallee, harguments⟩ := List.forall_mem_append.mp h
    refine reads_compound "call" callee arguments ?_ (by decide) ?_ ?_
    · exact List.forall_mem_cons.mpr
        ⟨readsBack_of_legible hnumber callee hcallee, readsBack_arguments hnumber arguments harguments⟩
    · simp [Expr.written, Expr.writtenArguments, ← String.toList_inj]
    · rw [List.map_cons, Expr.map_bare]
      rfl
  | .get object property =>
    obtain ⟨hobject, hproperty⟩ := List.forall_mem_append.mp h
    exact readsBack_get (readsBack_of_legible hnumber object hobject)
      (List.forall_mem_singleton.mp hproperty : Word.Legible (.name _))
  | .set object property value =>
    obtain ⟨hobject, hrest⟩ := List.forall_mem_append.mp h
    obtain ⟨hproperty, hvalue⟩ := List.forall_mem_cons.mp hrest
    refine reads_compound "=" (.get object property) [value] ?_ (by decide) ?_ rfl
    · simpa using ⟨readsBack_get (readsBack_of_legible hnumber object hobject) hproperty,
        readsBack_of_legible hnumber value hvalue⟩
    · simp [Expr.written, Expr.writtenArguments, ← String.toList_inj]
  | .this ⟨id, ⟨text, line⟩⟩ =>
    have hkeyword : (text, Token.Kind.kwThis) ∈ Token.Kind.keywords :=
      h (.keyword .kwThis text) (by simp [Expr.words])
    obtain rfl : text = "this" := by simpa [Token.Kind.keywords] using hkeyword
    have hread : Reads number "this".toList (.this ⟨0, ⟨"this", 0⟩⟩) :=
      reads_alone (isWord_keyword ("this", .kwThis) (by decide)) fun _ => rfl
    exact hread
  | .super ⟨id, ⟨text, line⟩⟩ method =>
    have hkeyword : (text, Token.Kind.kwSuper) ∈ Token.Kind.keywords :=
      h (.keyword .kwSuper text) (by simp [Expr.words])
    obtain rfl : text = "super" := by simpa [Token.Kind.keywords] using hkeyword
    have hmethod : IsName method.text := h (.name method.text) (by simp [Expr.words])
    have hread : Reads number _ _ := reads_super hmethod
    have hwritten : (Expr.super ⟨id, ⟨"super", line⟩⟩ method).written.toList =
        "super".toList ++ '.' :: method.text.toList := by
      simp [Expr.written]
    rwa [← hwritten] at hread

lemma readsBack_arguments (hnumber : ReadsNumbers number) (arguments : List Expr)
    (h : ∀ word ∈ Expr.wordsAll arguments, word.Legible) :
    ∀ value ∈ arguments, ReadsBack number value := by
  match arguments with
  | [] => simp
  | argument :: rest =>
    obtain ⟨hargument, hrest⟩ := List.forall_mem_append.mp h
    exact List.forall_mem_cons.mpr
      ⟨readsBack_of_legible hnumber argument hargument, readsBack_arguments hnumber rest hrest⟩

end

end Trees

end Reader

end Lox
