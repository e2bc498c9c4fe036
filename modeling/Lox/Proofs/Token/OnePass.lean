import Lox.Proofs.Token.Cover

/-! A scanner that goes over a text once. The first character tells what begins there, and at most two
more are looked at before it is read. It finds what the longest match among all rules finds. -/

namespace Lox

namespace OnePass

/-- A token of one character. -/
def symbol (c : Char) (kind : Token.Kind) (rest : List Char) : Piece × List Char :=
  (⟨.token kind none, [c]⟩, rest)

/-- A token of one character, or of two if the next one is `=`. -/
def withEqual (c : Char) (alone both : Token.Kind) : List Char → Piece × List Char
  | '=' :: behind => (⟨.token both none, [c, '=']⟩, behind)
  | behind => (⟨.token alone none, [c]⟩, behind)

/-- The text up to the first end mark of a comment, the mark included, and the text behind it. -/
def untilEndMark : List Char → Option (List Char × List Char)
  | '*' :: '/' :: behind => some (['*', '/'], behind)
  | c :: rest => (untilEndMark rest).map fun (front, behind) => (c :: front, behind)
  | [] => none

def afterSlash : List Char → Piece × List Char
  | '/' :: rest =>
    (⟨.trivia, '/' :: '/' :: rest.takeWhile (· != '\n')⟩, rest.dropWhile (· != '\n'))
  | '*' :: rest =>
    match untilEndMark rest with
    | some (front, behind) => (⟨.trivia, '/' :: '*' :: front⟩, behind)
    | none => (⟨.openComment, '/' :: '*' :: rest⟩, [])
  | rest => symbol '/' .slash rest

def afterQuote (rest : List Char) : Piece × List Char :=
  let body := rest.takeWhile (· != '"')
  match rest.dropWhile (· != '"') with
  | _ :: behind =>
    (⟨.token .string (some (.text (String.ofList body))), '"' :: (body ++ ['"'])⟩, behind)
  | [] => (⟨.openString, '"' :: rest⟩, [])

/-- The point after the digits belongs to the number only if a digit follows it. -/
def afterDigit (c : Char) (rest : List Char) : Piece × List Char :=
  let digits := c :: rest.takeWhile Char.isDigit
  let whole := (⟨.token .number (some (.number (Decimal.nearest digits []))), digits⟩,
    rest.dropWhile Char.isDigit)
  match rest.dropWhile Char.isDigit with
  | '.' :: d :: behind =>
    if d.isDigit then
      let fraction := d :: behind.takeWhile Char.isDigit
      (⟨.token .number (some (.number (Decimal.nearest digits fraction))), digits ++ '.' :: fraction⟩,
        behind.dropWhile Char.isDigit)
    else whole
  | _ => whole

/-- A whole word is a keyword or an identifier. -/
def wordKind (word : List Char) : Token.Kind :=
  (Token.Kind.keywords.lookup (String.ofList word)).getD .identifier

def afterLetter (c : Char) (rest : List Char) : Piece × List Char :=
  let word := c :: rest.takeWhile Lexeme.continuesIdentifier
  (⟨.token (wordKind word) none, word⟩, rest.dropWhile Lexeme.continuesIdentifier)

/-- What begins with a character, and the text behind it. -/
def next (c : Char) (rest : List Char) : Piece × List Char :=
  match c with
  | '(' => symbol '(' .leftParen rest
  | ')' => symbol ')' .rightParen rest
  | '\x7b' => symbol '\x7b' .leftBrace rest
  | '\x7d' => symbol '\x7d' .rightBrace rest
  | ',' => symbol ',' .comma rest
  | '.' => symbol '.' .dot rest
  | '-' => symbol '-' .minus rest
  | '+' => symbol '+' .plus rest
  | ';' => symbol ';' .semicolon rest
  | '*' => symbol '*' .star rest
  | '!' => withEqual '!' .bang .bangEqual rest
  | '=' => withEqual '=' .equal .equalEqual rest
  | '>' => withEqual '>' .greater .greaterEqual rest
  | '<' => withEqual '<' .less .lessEqual rest
  | '/' => afterSlash rest
  | '"' => afterQuote rest
  | c =>
    if Text.isBlank c then (⟨.trivia, [c]⟩, rest)
    else if c.isDigit then afterDigit c rest
    else if Lexeme.beginsIdentifier c then afterLetter c rest
    else (⟨.stray c, [c]⟩, rest)

section Comments

lemma untilEndMark_eq_some {text front behind : List Char}
    (h : untilEndMark text = some (front, behind)) :
    ∃ body, front = body ++ ['*', '/'] ∧ text = front ++ behind ∧ ¬ ['*', '/'] <:+: body := by
  fun_induction untilEndMark text generalizing front with
  | case1 after =>
    obtain ⟨rfl, rfl⟩ := Prod.mk.inj (Option.some.inj h)
    exact ⟨[], rfl, rfl, by simp⟩
  | case2 c rest hmark ih =>
    obtain ⟨⟨inner, after⟩, hinner, heq⟩ := Option.map_eq_some_iff.mp h
    obtain ⟨rfl, rfl⟩ := Prod.mk.inj heq
    obtain ⟨body, rfl, rfl, hbody⟩ := ih hinner
    refine ⟨c :: body, rfl, rfl, ?_⟩
    rw [List.infix_cons_iff, not_or]
    refine ⟨?_, hbody⟩
    rintro ⟨more, hmore⟩
    obtain ⟨rfl, rfl⟩ := List.cons.inj hmore
    exact hmark _ rfl rfl
  | case3 => simp at h

lemma untilEndMark_eq_none {text : List Char} (h : untilEndMark text = none) :
    ¬ ['*', '/'] <:+: text := by
  fun_induction untilEndMark text with
  | case1 after => simp at h
  | case2 c rest hmark ih =>
    rw [List.infix_cons_iff, not_or]
    refine ⟨?_, ih (Option.map_eq_none_iff.mp h)⟩
    rintro ⟨more, hmore⟩
    obtain ⟨rfl, rfl⟩ := List.cons.inj hmore
    exact hmark _ rfl rfl
  | case3 => simp

end Comments

open Lexeme

/-- The piece is what stands at the start of the text `c :: rest`, in front of the text behind it. -/
def Begins (c : Char) (rest : List Char) (cut : Piece × List Char) : Prop :=
  cut.1.chars ++ cut.2 = c :: rest ∧ cut.1.Stands cut.2

section Symbols

variable {c : Char} {rest : List Char}

/-- A character that begins neither a word nor a number nor a quoted text. -/
def IsMark (c : Char) : Prop :=
  beginsIdentifier c = false ∧ c.isDigit = false ∧ c ≠ '"'

instance : DecidablePred IsMark := fun c =>
  inferInstanceAs (Decidable (beginsIdentifier c = false ∧ c.isDigit = false ∧ c ≠ '"'))

lemma headI_keyword : ∀ entry ∈ Token.Kind.keywords,
    beginsIdentifier entry.1.toList.headI = true := by
  decide

lemma symbol_of_isToken (hc : IsMark c) {chars : List Char} (h : IsToken (c :: chars)) :
    ∃ entry ∈ Token.Kind.symbols, entry.1.toList = c :: chars := by
  obtain ⟨hletter, hdigit, hquote⟩ := hc
  obtain ⟨kind, literal, hspells⟩ := h
  generalize htext : c :: chars = text at hspells
  have hhead : text.headI = c := by rw [← htext, List.headI_cons]
  cases hspells with
  | @fixed entry he =>
    rcases List.mem_append.mp he with he | he
    · exact ⟨entry, he, rfl⟩
    · have hbegins := headI_keyword entry he
      rw [hhead, hletter] at hbegins
      exact absurd hbegins Bool.false_ne_true
  | identifier hbegins =>
    obtain rfl := hhead
    exact absurd (hletter.symm.trans hbegins) Bool.false_ne_true
  | quoted => exact absurd hhead.symm hquote
  | whole hne hdigits | decimal hne hdigits =>
    obtain ⟨d, digits, rfl⟩ := List.exists_cons_of_ne_nil hne
    obtain rfl : d = c := hhead
    exact absurd (hdigit.symm.trans (hdigits d (List.mem_cons_self ..))) Bool.false_ne_true

lemma symbol_stands {chars : List Char} {kind : Token.Kind} (hc : IsMark c) (hslash : c ≠ '/')
    (he : (String.ofList (c :: chars), kind) ∈ Token.Kind.symbols)
    (hlongest : ∀ entry ∈ Token.Kind.symbols, c :: chars <+: entry.1.toList →
      entry.1.toList <+: c :: (chars ++ rest) → entry.1.toList = c :: chars) :
    (⟨.token kind none, c :: chars⟩ : Piece).Stands rest := by
  have hspells : Spells kind none (c :: chars) := by
    simpa using Spells.fixed (List.mem_append_left Token.Kind.keywords he)
  refine .token hspells ⟨⟨kind, none, hspells⟩, fun more hne hmore htoken => ?_⟩ fun h => ?_
  · obtain ⟨entry, hentry, htext⟩ := symbol_of_isToken hc htoken
    have hsame := hlongest entry hentry
      (by rw [htext]; exact List.prefix_append (c :: chars) more)
      (by rw [htext]; exact (List.prefix_append_right_inj (c :: chars)).mpr hmore)
    rw [htext] at hsame
    exact hne (by simpa using hsame)
  · exact hslash h.headI

lemma symbol_begins {kind : Token.Kind} (hc : IsMark c ∧ c ≠ '/')
    (he : (String.singleton c, kind) ∈ Token.Kind.symbols)
    (hlongest : ∀ entry ∈ Token.Kind.symbols, entry.1.toList.headI = c →
      entry.1.toList = [c]) :
    Begins c rest (symbol c kind rest) := by
  refine ⟨rfl, symbol_stands hc.1 hc.2 ?_ fun entry hentry hbegins _ => ?_⟩
  · rwa [← String.singleton_eq_ofList]
  · exact hlongest entry hentry (Piece.headI_of_prefix (List.cons_ne_nil _ _) hbegins).symm

lemma withEqual_begins {alone both : Token.Kind} (hc : IsMark c ∧ c ≠ '/')
    (halone : (String.singleton c, alone) ∈ Token.Kind.symbols)
    (hboth : (String.ofList [c, '='], both) ∈ Token.Kind.symbols)
    (hlongest : ∀ entry ∈ Token.Kind.symbols, entry.1.toList.headI = c →
      entry.1.toList = [c] ∨ entry.1.toList = [c, '=']) :
    Begins c rest (withEqual c alone both rest) := by
  have hcases {entry : String × Token.Kind} {chars : List Char} (he : entry ∈ Token.Kind.symbols)
      (hbegins : c :: chars <+: entry.1.toList) :
      entry.1.toList = [c] ∨ entry.1.toList = [c, '='] :=
    hlongest entry he (Piece.headI_of_prefix (List.cons_ne_nil _ _) hbegins).symm
  unfold withEqual
  split
  · rename_i behind
    refine ⟨rfl, symbol_stands hc.1 hc.2 hboth fun entry he hbegins _ => ?_⟩
    rcases hcases he hbegins with halone | hboth
    · have hle := hbegins.length_le
      simp [halone] at hle
    · exact hboth
  · rename_i hnot
    refine ⟨rfl, symbol_stands hc.1 hc.2 ?_ fun entry he hbegins hlonger => ?_⟩
    · rwa [← String.singleton_eq_ofList]
    · rcases hcases he hbegins with halone | hboth
      · exact halone
      · rw [hboth] at hlonger
        obtain ⟨behind, hbehind⟩ := hlonger
        exact (hnot behind (List.cons.inj hbehind).2.symm).elim

lemma slash_begins (hline : ∀ behind, rest ≠ '/' :: behind) (hblock : ∀ behind, rest ≠ '*' :: behind) :
    Begins '/' rest (symbol '/' .slash rest) := by
  have he : ("/", Token.Kind.slash) ∈ Token.Kind.symbols ++ Token.Kind.keywords := by decide
  have hspells : Spells .slash none ['/'] := .fixed he
  refine ⟨rfl, .token hspells ⟨⟨_, _, hspells⟩, fun more hne _ htoken => ?_⟩ ?_⟩
  · obtain ⟨entry, he, htext⟩ := symbol_of_isToken (by decide) htoken
    have halone : ∀ entry ∈ Token.Kind.symbols, entry.1.toList.headI = '/' →
        entry.1.toList = ['/'] := by decide
    rw [halone entry he (by rw [htext]; rfl)] at htext
    exact hne (by simpa using htext.symm)
  · rintro (⟨behind, htext⟩ | ⟨behind, htext⟩)
    · exact hline behind (List.cons.inj htext).2.symm
    · exact hblock behind (List.cons.inj htext).2.symm

end Symbols

section Runs

variable {p : Char → Bool} {text : List Char}

lemma headI_dropWhile {more : List Char} (hne : more ≠ []) (h : more <+: text.dropWhile p) :
    p more.headI = false := by
  obtain ⟨behind, hbehind⟩ := h
  obtain ⟨c, more, rfl⟩ := List.exists_cons_of_ne_nil hne
  have hhead := List.head_dropWhile_not p (l := text) (by rw [← hbehind]; simp)
  simpa [← hbehind] using hhead

lemma exists_mem_of_dropWhile {more : List Char} (hne : more ≠ []) (h : more <+: text.dropWhile p)
    (chars : List Char) : ∃ c ∈ chars ++ more, p c = false := by
  obtain ⟨c, rest, rfl⟩ := List.exists_cons_of_ne_nil hne
  exact ⟨c, by simp, headI_dropWhile hne h⟩

lemma run_inj {front front' after after' : List Char} {c d : Char} (h : ∀ x ∈ front, p x = true)
    (h' : ∀ x ∈ front', p x = true) (hc : p c = false) (hd : p d = false)
    (heq : front ++ c :: after = front' ++ d :: after') : front = front' ∧ c :: after = d :: after' := by
  have hfront := congrArg (List.takeWhile p) heq
  simp only [List.takeWhile_append_of_pos h, List.takeWhile_append_of_pos h', List.takeWhile_cons, hc,
    hd, Bool.false_eq_true, if_false, List.append_nil] at hfront
  subst hfront
  exact ⟨rfl, List.append_cancel_left heq⟩

end Runs

section Comments

lemma lineComment_begins (rest : List Char) :
    Begins '/' ('/' :: rest) (afterSlash ('/' :: rest)) := by
  refine ⟨by simp [afterSlash], .trivia ⟨.lineComment fun h => ?_, fun more hne hmore h => ?_⟩⟩
  · have hother := List.mem_takeWhile_imp h
    simp at hother
  · obtain ⟨c, hc, hnewline⟩ := exists_mem_of_dropWhile hne hmore (rest.takeWhile (· != '\n'))
    obtain rfl : c = '\n' := by simpa using hnewline
    generalize htext : '/' :: '/' :: rest.takeWhile (· != '\n') ++ more = chars at h
    cases h with
    | blanks _ hblank =>
      rw [← htext] at hblank
      exact absurd (hblank '/' (List.mem_cons_self ..)) (by decide)
    | lineComment hbody =>
      obtain rfl : _ = _ := (List.cons.inj (List.cons.inj htext).2).2
      exact hbody hc
    | blockComment => simp at htext

lemma blockComment_begins (rest : List Char) :
    Begins '/' ('*' :: rest) (afterSlash ('*' :: rest)) := by
  cases hmark : untilEndMark rest with
  | none =>
    simp only [afterSlash, hmark]
    exact ⟨List.append_nil _, .openComment (untilEndMark_eq_none hmark)⟩
  | some parts =>
    obtain ⟨front, behind⟩ := parts
    obtain ⟨body, rfl, rfl, hbody⟩ := untilEndMark_eq_some hmark
    simp only [afterSlash, hmark]
    refine ⟨rfl, .trivia ⟨.blockComment hbody, fun more hne _ h => ?_⟩⟩
    generalize htext : '/' :: '*' :: (body ++ ['*', '/']) ++ more = chars at h
    cases h with
    | blanks _ hblank =>
      rw [← htext] at hblank
      exact absurd (hblank '/' (List.mem_cons_self ..)) (by decide)
    | lineComment => simp at htext
    | @blockComment other hother =>
      -- The first end mark is where either body ends.
      have hend : body ++ '*' :: '/' :: more = other ++ ['*', '/'] := by simpa using htext
      have hfirst : closing? 0 (body ++ '*' :: '/' :: more) = some (0 + body.length) :=
        closing?_exact hbody more
      rw [hend, closing?_exact hother []] at hfirst
      have hlength := congrArg List.length hend
      simp only [List.length_append, List.length_cons, List.length_nil] at hlength
      simp only [Option.some.injEq] at hfirst
      exact hne (List.length_eq_zero_iff.mp (by omega))

lemma afterSlash_begins (rest : List Char) : Begins '/' rest (afterSlash rest) := by
  unfold afterSlash
  split
  · exact lineComment_begins _
  · exact blockComment_begins _
  · rename_i hline hblock
    exact slash_begins hline hblock

end Comments

section Words

variable {c : Char} {rest chars more : List Char}

lemma quoted_of_isToken (h : IsToken ('"' :: chars)) :
    ∃ body, '"' ∉ body ∧ chars = body ++ ['"'] := by
  obtain ⟨kind, literal, hspells⟩ := h
  generalize htext : '"' :: chars = text at hspells
  have hhead : text.headI = '"' := by rw [← htext, List.headI_cons]
  cases hspells with
  | fixed he => exact absurd hhead (headI_fixed _ he).2.1
  | identifier hbegins =>
    obtain rfl := hhead
    exact absurd hbegins (by decide)
  | @quoted body hbody => exact ⟨body, hbody, (List.cons.inj htext).2⟩
  | whole hne hdigits | decimal hne hdigits =>
    obtain ⟨d, digits, rfl⟩ := List.exists_cons_of_ne_nil hne
    obtain rfl : d = '"' := hhead
    exact absurd (hdigits _ (List.mem_cons_self ..)) (by decide)

lemma afterQuote_begins (rest : List Char) : Begins '"' rest (afterQuote rest) := by
  have hbody : '"' ∉ rest.takeWhile (· != '"') := fun h => by
    simpa using List.mem_takeWhile_imp h
  have hsplit := List.takeWhile_append_dropWhile (p := (· != '"')) (l := rest)
  unfold afterQuote
  dsimp only
  split
  · rename_i q behind hbehind
    have hq : q = '"' := by
      have hhead := headI_dropWhile (p := (· != '"')) (List.cons_ne_nil q [])
        ⟨behind, hbehind.symm⟩
      simpa using hhead
    subst hq
    rw [hbehind] at hsplit
    have hspells := Spells.quoted hbody
    refine ⟨?_, .token hspells ⟨⟨_, _, hspells⟩, fun more hne _ htoken => ?_⟩ ?_⟩
    · simpa using hsplit
    · obtain ⟨other, hother, htext⟩ := quoted_of_isToken htoken
      -- The first quote is where either body ends.
      have hend : rest.takeWhile (· != '"') ++ '"' :: more = other ++ '"' :: [] := by
        simpa using htext
      have hinner : ∀ d ∈ other, (d != '"') = true := by
        intro d hd
        rw [bne_iff_ne]
        rintro rfl
        exact hother hd
      have hafter := (run_inj (fun d => List.mem_takeWhile_imp) hinner (by decide) (by decide) hend).2
      exact hne (List.cons.inj hafter).2
    · exact fun h => absurd h.headI (by simp)
  · rename_i hnil
    rw [hnil, List.append_nil] at hsplit
    rw [hsplit] at hbody
    exact ⟨List.append_nil _, .openString hbody⟩

lemma continues_of_begins (hc : beginsIdentifier c = true) : continuesIdentifier c = true := by
  rw [beginsIdentifier, Bool.or_eq_true] at hc
  rw [continuesIdentifier, Bool.or_eq_true, Char.isAlphanum, Bool.or_eq_true]
  exact hc.imp_left .inl

lemma continues_keyword : ∀ entry ∈ Token.Kind.keywords,
    entry.1.toList.all continuesIdentifier = true := by
  decide

lemma word_of_isToken (hc : beginsIdentifier c = true) (h : IsToken (c :: chars)) :
    ∀ d ∈ c :: chars, continuesIdentifier d = true := by
  obtain ⟨kind, literal, hspells⟩ := h
  generalize htext : c :: chars = text at hspells
  have hhead : text.headI = c := by rw [← htext, List.headI_cons]
  rw [← hhead] at hc
  have hdigit (more : List Char) {digits : List Char} (hne : digits ≠ [])
      (hdigits : ∀ d ∈ digits, d.isDigit = true) :
      beginsIdentifier (digits ++ more).headI = false := by
    obtain ⟨d, digits, rfl⟩ := List.exists_cons_of_ne_nil hne
    by_contra hbegins
    have hletter := range_of_begins (eq_true_of_ne_false hbegins)
    have hrange := range_of_digit (hdigits d (List.mem_cons_self ..))
    rw [List.cons_append, List.headI_cons] at hletter
    omega
  cases hspells with
  | fixed he =>
    rcases List.mem_append.mp he with he | he
    · rw [headI_symbol _ he] at hc
      exact absurd hc Bool.false_ne_true
    · exact List.all_eq_true.mp (continues_keyword _ he)
  | identifier _ hrest => exact List.forall_mem_cons.mpr ⟨continues_of_begins hc, hrest⟩
  | quoted => exact absurd hc (by rw [List.headI_cons]; decide)
  | whole hne hdigits =>
    have hnot := hdigit [] hne hdigits
    rw [List.append_nil, hc] at hnot
    simp at hnot
  | decimal hne hdigits =>
    rw [hdigit _ hne hdigits] at hc
    simp at hc

lemma wordKind_spells (hc : beginsIdentifier c = true)
    (h : ∀ d ∈ rest, continuesIdentifier d = true) :
    Spells (wordKind (c :: rest)) none (c :: rest) := by
  unfold wordKind
  cases hkeyword : Token.Kind.keywords.lookup (String.ofList (c :: rest)) with
  | none =>
    refine .identifier hc h fun entry he htext => ?_
    have hother := List.lookup_eq_none_iff.mp hkeyword entry he
    rw [htext, String.ofList_toList] at hother
    simp at hother
  | some kind =>
    obtain ⟨before, behind, hlist, -⟩ := List.lookup_eq_some_iff.mp hkeyword
    have he : (String.ofList (c :: rest), kind) ∈ Token.Kind.keywords := by
      rw [hlist]
      simp
    simpa using Spells.fixed (List.mem_append_right Token.Kind.symbols he)

lemma afterLetter_begins (hc : beginsIdentifier c = true) (rest : List Char) :
    Begins c rest (afterLetter c rest) := by
  have hspells := wordKind_spells hc fun d (hd : d ∈ rest.takeWhile continuesIdentifier) =>
    List.mem_takeWhile_imp hd
  refine ⟨?_, .token hspells ⟨⟨_, _, hspells⟩, fun more hne hmore htoken => ?_⟩ fun h => ?_⟩
  · exact congrArg (c :: ·) List.takeWhile_append_dropWhile
  · obtain ⟨d, hd, hother⟩ := exists_mem_of_dropWhile hne hmore
      (c :: rest.takeWhile continuesIdentifier)
    rw [word_of_isToken hc htoken d hd] at hother
    simp at hother
  · obtain rfl : c = '/' := h.headI
    exact absurd hc (by decide)

end Words

section Numbers

variable {c : Char} {rest chars : List Char}

lemma number_of_isToken (hc : c.isDigit = true) (h : IsToken (c :: chars)) :
    (∀ d ∈ c :: chars, d.isDigit = true) ∨ ∃ digits fraction, c :: chars = digits ++ '.' :: fraction ∧
      (∀ d ∈ digits, d.isDigit = true) ∧ fraction ≠ [] ∧ ∀ d ∈ fraction, d.isDigit = true := by
  obtain ⟨kind, literal, hspells⟩ := h
  generalize htext : c :: chars = text at hspells
  have hhead : text.headI = c := by rw [← htext, List.headI_cons]
  rw [← hhead] at hc
  cases hspells with
  | fixed he =>
    rw [(headI_fixed _ he).2.2] at hc
    exact absurd hc Bool.false_ne_true
  | identifier hbegins =>
    have hletter := range_of_begins hbegins
    have hdigit := range_of_digit hc
    rw [List.headI_cons] at hdigit
    omega
  | quoted => exact absurd hc (by rw [List.headI_cons]; decide)
  | whole _ hdigits => exact .inl hdigits
  | decimal _ hdigits hne hfraction => exact .inr ⟨_, _, rfl, hdigits, hne, hfraction⟩

lemma not_digit_point : '.'.isDigit = false := by
  decide

lemma whole_begins (hc : c.isDigit = true)
    (hpoint : ∀ d behind, rest.dropWhile Char.isDigit = '.' :: d :: behind → d.isDigit = false) :
    Begins c rest (⟨.token .number (some (.number
      (Decimal.nearest (c :: rest.takeWhile Char.isDigit) []))), c :: rest.takeWhile Char.isDigit⟩,
        rest.dropWhile Char.isDigit) := by
  have hdigits : ∀ d ∈ c :: rest.takeWhile Char.isDigit, d.isDigit = true :=
    List.forall_mem_cons.mpr ⟨hc, fun d => List.mem_takeWhile_imp⟩
  have hspells := Spells.whole (List.cons_ne_nil _ _) hdigits
  refine ⟨?_, .token hspells ⟨⟨_, _, hspells⟩, fun more hne hmore htoken => ?_⟩ fun h => ?_⟩
  · exact congrArg (c :: ·) List.takeWhile_append_dropWhile
  · rcases number_of_isToken hc htoken with hall | ⟨digits, fraction, htext, hwhole, hnonempty, hfraction⟩
    · obtain ⟨d, hd, hother⟩ := exists_mem_of_dropWhile hne hmore (c :: rest.takeWhile Char.isDigit)
      rw [hall d hd] at hother
      simp at hother
    · have hhead := headI_dropWhile hne hmore
      obtain ⟨d, more, rfl⟩ := List.exists_cons_of_ne_nil hne
      obtain ⟨d', fraction, rfl⟩ := List.exists_cons_of_ne_nil hnonempty
      rw [List.headI_cons] at hhead
      obtain ⟨-, hafter⟩ := run_inj hdigits hwhole hhead not_digit_point htext
      rw [hafter] at hmore
      obtain ⟨behind, hbehind⟩ := hmore
      have hdigit := hfraction d' (List.mem_cons_self ..)
      rw [hpoint d' (fraction ++ behind) hbehind.symm] at hdigit
      exact Bool.false_ne_true hdigit
  · obtain rfl : c = '/' := h.headI
    exact absurd hc (by decide)

lemma decimal_begins {d : Char} {behind : List Char} (hc : c.isDigit = true) (hd : d.isDigit = true)
    (hpoint : rest.dropWhile Char.isDigit = '.' :: d :: behind) :
    Begins c rest (⟨.token .number (some (.number (Decimal.nearest
      (c :: rest.takeWhile Char.isDigit) (d :: behind.takeWhile Char.isDigit)))),
        (c :: rest.takeWhile Char.isDigit) ++ '.' :: d :: behind.takeWhile Char.isDigit⟩,
          behind.dropWhile Char.isDigit) := by
  have hdigits : ∀ d ∈ c :: rest.takeWhile Char.isDigit, d.isDigit = true :=
    List.forall_mem_cons.mpr ⟨hc, fun d => List.mem_takeWhile_imp⟩
  have hfraction : ∀ e ∈ d :: behind.takeWhile Char.isDigit, e.isDigit = true :=
    List.forall_mem_cons.mpr ⟨hd, fun e => List.mem_takeWhile_imp⟩
  have hspells := Spells.decimal (List.cons_ne_nil _ _) hdigits (List.cons_ne_nil _ _) hfraction
  refine ⟨?_, .token hspells ⟨⟨_, _, hspells⟩, fun more hne hmore htoken => ?_⟩ fun h => ?_⟩
  · have hsplit := List.takeWhile_append_dropWhile (p := Char.isDigit) (l := rest)
    rw [hpoint] at hsplit
    simpa [List.takeWhile_append_dropWhile] using hsplit
  · rcases number_of_isToken hc htoken with hall | ⟨digits, fraction, htext, hwhole, -, hother⟩
    · have hdigit := hall '.' (by simp)
      rw [not_digit_point] at hdigit
      exact Bool.false_ne_true hdigit
    · obtain ⟨e, he, hlast⟩ := exists_mem_of_dropWhile hne hmore (d :: behind.takeWhile Char.isDigit)
      have hsame : (c :: rest.takeWhile Char.isDigit) ++ '.' ::
          (d :: behind.takeWhile Char.isDigit ++ more) = digits ++ '.' :: fraction := by
        simpa using htext
      obtain ⟨-, hafter⟩ := run_inj hdigits hwhole not_digit_point not_digit_point hsame
      rw [(List.cons.inj hafter).2] at he
      rw [hother e he] at hlast
      simp at hlast
  · obtain rfl : c = '/' := h.headI
    exact absurd hc (by decide)

lemma afterDigit_begins (hc : c.isDigit = true) (rest : List Char) :
    Begins c rest (afterDigit c rest) := by
  unfold afterDigit
  dsimp only
  split
  · rename_i d behind hbehind
    split
    · rename_i hd
      exact decimal_begins hc hd hbehind
    · rename_i hd
      refine whole_begins hc fun other after hother => ?_
      rw [hbehind] at hother
      obtain ⟨rfl, -⟩ := List.cons.inj (List.cons.inj hother).2
      exact eq_false_of_ne_true hd
  · rename_i hnot
    exact whole_begins hc fun d behind hbehind => (hnot d behind hbehind).elim

end Numbers

section Dispatch

variable {c : Char}

lemma headI_of_symbols : ∀ entry ∈ Token.Kind.symbols, entry.1.toList.headI ∈
    ['(', ')', '\x7b', '\x7d', ',', '.', '-', '+', ';', '*', '!', '=', '>', '<', '/'] := by
  decide

lemma stray_begins (hc : IsMark c) (hblank : Text.isBlank c = false)
    (hsymbol : ∀ entry ∈ Token.Kind.symbols, entry.1.toList.headI ≠ c) (rest : List Char) :
    Begins c rest (⟨.stray c, [c]⟩, rest) := by
  refine ⟨rfl, .stray hc.2.2 fun chars hbegins => ⟨fun h => ?_, fun h => ?_⟩⟩
  · rcases Piece.separates_begins h hbegins with hother | hcomment
    · rw [List.headI_cons, hblank] at hother
      exact Bool.false_ne_true hother
    · exact hsymbol ("/", .slash) (by decide) hcomment.headI.symm
  · obtain ⟨kind, literal, hspells⟩ := h
    have hhead := Piece.headI_of_prefix hspells.ne_nil hbegins
    obtain ⟨d, chars, rfl⟩ := List.exists_cons_of_ne_nil hspells.ne_nil
    obtain rfl : d = c := hhead
    obtain ⟨entry, he, htext⟩ := symbol_of_isToken hc ⟨kind, literal, hspells⟩
    exact hsymbol entry he (by rw [htext]; rfl)

/-- The first character tells what the piece is. -/
lemma next_begins (hblank : Text.isBlank c = false) (rest : List Char) :
    Begins c rest (next c rest) := by
  unfold next
  split
  case h_17 hquote =>
    have hsymbol : ∀ entry ∈ Token.Kind.symbols, entry.1.toList.headI ≠ c := by
      intro entry he heq
      have hmem := headI_of_symbols entry he
      rw [heq] at hmem
      simp_all only [List.mem_cons, List.not_mem_nil, or_false, imp_false]
    rw [if_neg (by rw [hblank]; exact Bool.false_ne_true)]
    split
    · rename_i hdigit
      exact afterDigit_begins hdigit rest
    · rename_i hdigit
      split
      · rename_i hletter
        exact afterLetter_begins hletter rest
      · rename_i hletter
        exact stray_begins ⟨eq_false_of_ne_true hletter, eq_false_of_ne_true hdigit, hquote⟩ hblank
          hsymbol rest
  case h_15 => exact afterSlash_begins rest
  case h_16 => exact afterQuote_begins rest
  case h_11 | h_12 | h_13 | h_14 => exact withEqual_begins (by decide) (by decide) (by decide) (by decide)
  all_goals exact symbol_begins (by decide) (by decide) (by decide)

lemma next_blank (hblank : Text.isBlank c = true) (rest : List Char) :
    next c rest = (⟨.trivia, [c]⟩, rest) := by
  unfold next
  split
  case h_17 => rw [if_pos hblank]
  all_goals exact absurd hblank (by decide)

lemma next_eq (c : Char) (rest : List Char) :
    (next c rest).1.chars ++ (next c rest).2 = c :: rest := by
  by_cases hblank : Text.isBlank c = true
  · rw [next_blank hblank]
    rfl
  · exact (next_begins (eq_false_of_ne_true hblank) rest).1

lemma next_ne_nil (c : Char) (rest : List Char) : (next c rest).1.chars ≠ [] := by
  by_cases hblank : Text.isBlank c = true
  · rw [next_blank hblank]
    exact List.cons_ne_nil _ _
  · exact (next_begins (eq_false_of_ne_true hblank) rest).2.chars_ne_nil

lemma length_next (c : Char) (rest : List Char) : (next c rest).2.length ≤ rest.length := by
  have hlength := congrArg List.length (next_eq c rest)
  have hpos := List.length_pos_iff.mpr (next_ne_nil c rest)
  rw [List.length_append, List.length_cons] at hlength
  omega

lemma first_eq_next (hblank : Text.isBlank c = false) (rest : List Char) :
    Piece.first c rest = (next c rest).1 := by
  obtain ⟨htext, hstands⟩ := next_begins hblank rest
  obtain ⟨behind, hfirst, hlongest⟩ := Piece.first_stands c rest
  exact hlongest.unique hstands (hfirst.symm.trans htext.symm)

end Dispatch

/-- The tokens and the faults of a text that begins on the given line. -/
def scanFrom (line : Nat) : List Char → List Token × List ScanError
  | [] => ([Token.endMark line], [])
  | c :: rest =>
    let piece := (next c rest).1
    let (tokens, errors) := scanFrom (line + piece.chars.count '\n') (next c rest).2
    ((piece.token? line).toList ++ tokens, (piece.error? line).toList ++ errors)
termination_by text => text.length
decreasing_by exact Nat.lt_succ_of_le (length_next c rest)

def scan (source : String) : Except (List ScanError) (List Token) :=
  match scanFrom 1 source.toList with
  | (tokens, []) => .ok tokens
  | (_, errors) => .error errors

section Pieces

variable {α : Type} {f : Nat × Piece → Option α}

lemma drop_eq_behind {c : Char} {rest chars behind : List Char} (hne : chars ≠ [])
    (h : chars ++ behind = c :: rest) : rest.drop (chars.length - 1) = behind := by
  obtain ⟨d, chars, rfl⟩ := List.exists_cons_of_ne_nil hne
  rw [← (List.cons.inj h).2]
  exact List.drop_left

lemma filterMap_blanks (hf : ∀ line chars, f (line, ⟨.trivia, chars⟩) = none) (line : Nat)
    (text : List Char) :
    (Piece.numbered line (Piece.cut text)).filterMap f =
      (Piece.numbered (line + (text.takeWhile Text.isBlank).count '\n')
        (Piece.cut (text.dropWhile Text.isBlank))).filterMap f := by
  cases text with
  | nil => rfl
  | cons c rest =>
    by_cases hblank : Text.isBlank c = true
    · have hbehind := drop_eq_behind (by simp [hblank])
        (List.takeWhile_append_dropWhile (p := Text.isBlank) (l := c :: rest))
      rw [Piece.cut_cons, Piece.first_blank hblank, hbehind, Piece.numbered, List.filterMap_cons, hf]
    · rw [List.takeWhile_cons_of_neg hblank, List.dropWhile_cons_of_neg hblank]
      rfl

lemma filterMap_next (hf : ∀ line chars, f (line, ⟨.trivia, chars⟩) = none) (line : Nat) (c : Char)
    (rest : List Char) :
    (Piece.numbered line (Piece.cut (c :: rest))).filterMap f =
      (f (line, (next c rest).1)).toList ++
        (Piece.numbered (line + (next c rest).1.chars.count '\n')
          (Piece.cut (next c rest).2)).filterMap f := by
  by_cases hblank : Text.isBlank c = true
  · rw [next_blank hblank, hf, filterMap_blanks hf, filterMap_blanks hf _ rest,
      List.takeWhile_cons_of_pos hblank, List.dropWhile_cons_of_pos hblank, ← List.singleton_append,
      List.count_append, Nat.add_assoc]
    rfl
  · have hfirst := first_eq_next (eq_false_of_ne_true hblank) rest
    have hbehind := drop_eq_behind (next_ne_nil c rest) (next_eq c rest)
    rw [Piece.cut_cons, hfirst, hbehind, Piece.numbered, List.filterMap_eq_flatMap_toList,
      List.flatMap_cons, ← List.filterMap_eq_flatMap_toList]

lemma scanFrom_eq (line : Nat) (text : List Char) :
    scanFrom line text =
      ((Piece.numbered line (Piece.cut text)).filterMap (fun entry => entry.2.token? entry.1) ++
          [Token.endMark (line + text.count '\n')],
        (Piece.numbered line (Piece.cut text)).filterMap fun entry => entry.2.error? entry.1) := by
  fun_induction scanFrom line text with
  | case1 line => rfl
  | case2 line c rest piece tokens errors hrest ih =>
    have hcount : (c :: rest).count '\n' =
        (next c rest).1.chars.count '\n' + (next c rest).2.count '\n' := by
      rw [← List.count_append, next_eq]
    obtain ⟨rfl, rfl⟩ := Prod.mk.inj (hrest.symm.trans ih)
    rw [filterMap_next (fun _ _ => rfl), filterMap_next (fun _ _ => rfl), hcount, Nat.add_assoc,
      List.append_assoc]

end Pieces

end OnePass

namespace Token

/-- The longest match among all rules at every place of a text finds the same tokens or the same faults
as a scanner that goes by the first character of each piece. -/
theorem scan_eq_onePass (source : String) : scan source = OnePass.scan source := by
  rw [scan_eq_pieces, OnePass.scan, OnePass.scanFrom_eq]
  split
  · rename_i hnone
    rw [hnone]
  · rename_i hsome
    obtain ⟨error, errors, herrors⟩ := List.exists_cons_of_ne_nil hsome
    rw [herrors]

end Token

end Lox
