import Lox.Proofs.Token.OnePass

/-! The tokens of a text, written out again with other blanks and comments between them, are read as the
same tokens. -/

namespace Lox

namespace Lexeme

variable {chars behind text : List Char} {kind : Token.Kind} {literal : Option Literal}

/-- Blanks and comments in any mix; each comment has its end, a line comment that of its line. -/
inductive Separator : List Char → Prop
  | nil : Separator []
  | blank {c rest} : Text.isBlank c = true → Separator rest → Separator (c :: rest)
  | lineComment {body rest} : '\n' ∉ body → Separator rest →
      Separator ('/' :: '/' :: (body ++ '\n' :: rest))
  | blockComment {body rest} : ¬ ['*', '/'] <:+: body → Separator rest →
      Separator ('/' :: '*' :: (body ++ '*' :: '/' :: rest))

/-- A text that is at its end, or goes on with a blank. -/
def BlankAhead (text : List Char) : Prop :=
  ∀ c ∈ text.head?, Text.isBlank c = true

lemma not_blank_of_digit {c : Char} (h : c.isDigit = true) : Text.isBlank c = false := by
  have hrange := range_of_digit h
  exact not_blank_of_range (by omega)

lemma not_blank_of_continues {c : Char} (h : continuesIdentifier c = true) :
    Text.isBlank c = false := by
  simp only [continuesIdentifier, Char.isAlphanum, Bool.or_eq_true] at h
  rcases h with (halpha | hdigit) | hunderscore
  · have hrange := range_of_begins (c := c) (by simp [beginsIdentifier, halpha])
    exact not_blank_of_range (by omega)
  · exact not_blank_of_digit hdigit
  · rw [beq_iff_eq] at hunderscore
    subst hunderscore
    decide

lemma not_blank_symbol : ∀ entry ∈ Token.Kind.symbols,
    entry.1.toList.all (!Text.isBlank ·) = true := by
  decide

lemma not_blank_fixed {entry : String × Token.Kind}
    (he : entry ∈ Token.Kind.symbols ++ Token.Kind.keywords) {c : Char} (hc : c ∈ entry.1.toList) :
    Text.isBlank c = false := by
  rcases List.mem_append.mp he with he | he
  · simpa using List.all_eq_true.mp (not_blank_symbol entry he) c hc
  · exact not_blank_of_continues (List.all_eq_true.mp (OnePass.continues_keyword entry he) c hc)

/-- Only a quoted token has blanks in it. -/
lemma Spells.headI_of_blank (h : Spells kind literal chars) {c : Char} (hmem : c ∈ chars)
    (hc : Text.isBlank c = true) : chars.headI = '"' := by
  cases h with
  | fixed he => simp [not_blank_fixed he hmem] at hc
  | @identifier first rest hfirst hrest =>
    have hall : ∀ d ∈ first :: rest, continuesIdentifier d = true :=
      List.forall_mem_cons.mpr ⟨OnePass.continues_of_begins hfirst, hrest⟩
    simp [not_blank_of_continues (hall c hmem)] at hc
  | quoted => rfl
  | whole _ hdigits => simp [not_blank_of_digit (hdigits c hmem)] at hc
  | decimal _ hdigits _ hfraction =>
    rcases List.mem_append.mp hmem with hmem | hmem
    · simp [not_blank_of_digit (hdigits c hmem)] at hc
    · rcases List.mem_cons.mp hmem with rfl | hmem
      · exact absurd hc (by decide)
      · simp [not_blank_of_digit (hfraction c hmem)] at hc

/-- No token goes on into a blank: a quoted one has its end before. -/
lemma Spells.isLongest (h : Spells kind literal chars) (hblank : BlankAhead behind) :
    IsLongest IsToken chars behind := by
  refine ⟨⟨kind, literal, h⟩, fun more hne hmore hlonger => ?_⟩
  obtain ⟨c, more, rfl⟩ := List.exists_cons_of_ne_nil hne
  have hc : Text.isBlank c = true := by
    obtain ⟨after, rfl⟩ := hmore
    exact hblank c rfl
  have hhead : (chars ++ c :: more).headI = '"' := by
    obtain ⟨_, _, hspells⟩ := hlonger
    exact hspells.headI_of_blank (List.mem_append_right chars (List.mem_cons_self ..)) hc
  obtain ⟨first, rest, rfl⟩ := List.exists_cons_of_ne_nil h.ne_nil
  obtain rfl : first = '"' := hhead
  obtain ⟨body, hbody, rfl⟩ := OnePass.quoted_of_isToken ⟨kind, literal, h⟩
  obtain ⟨body', hbody', htext⟩ := OnePass.quoted_of_isToken hlonger
  -- The quote at the end of the shorter one would stand inside the longer one.
  have htext : body ++ '"' :: c :: more = body' ++ ['"'] := by simpa using htext
  have hinside := congrArg List.dropLast htext
  rw [List.dropLast_concat, List.dropLast_append_of_ne_nil (List.cons_ne_nil _ _),
    List.dropLast_cons_of_ne_nil (List.cons_ne_nil _ _)] at hinside
  rw [← hinside] at hbody'
  simp at hbody'

lemma slash_symbol : ∀ entry ∈ Token.Kind.symbols, entry.1.toList.headI = '/' →
    entry.1.toList = ['/'] := by
  decide

/-- No comment begins where a token stands in front of a blank. -/
lemma Spells.not_beginsComment (h : Spells kind literal chars) (hblank : BlankAhead behind) :
    ¬ Piece.BeginsComment (chars ++ behind) := by
  intro hcomment
  obtain ⟨first, rest, rfl⟩ := List.exists_cons_of_ne_nil h.ne_nil
  obtain rfl : first = '/' := hcomment.headI
  have hmark : OnePass.IsMark '/' := by decide
  obtain ⟨entry, he, hentry⟩ := OnePass.symbol_of_isToken hmark ⟨kind, literal, h⟩
  obtain rfl : rest = [] := by
    have halone := slash_symbol entry he (by rw [hentry]; rfl)
    rw [hentry] at halone
    exact (List.cons.inj halone).2
  rcases hcomment with ⟨after, htext⟩ | ⟨after, htext⟩ <;>
    obtain rfl := (List.cons.inj htext).2
  · exact absurd (hblank '/' rfl) (by decide)
  · exact absurd (hblank '*' rfl) (by decide)

end Lexeme

namespace Piece

open Lexeme

variable {behind : List Char} {line : Nat}

def ofToken (t : Token) : Piece :=
  ⟨.token t.kind t.literal, t.lexeme.toList⟩

lemma solid_of_stands {piece : Piece} (h : piece.Stands behind) (line : Nat) :
    solid line (piece.chars ++ behind) = [(line, piece)].filter (·.2.content != .trivia) ++
      solid (line + piece.chars.count '\n') behind := by
  obtain ⟨c, rest, hchars⟩ := List.exists_cons_of_ne_nil h.chars_ne_nil
  have htext : piece.chars ++ behind = c :: (rest ++ behind) := by rw [hchars, List.cons_append]
  obtain ⟨after, hafter, hstands⟩ := first_stands c (rest ++ behind)
  have hfirst : first c (rest ++ behind) = piece := hstands.unique h (hafter.symm.trans htext.symm)
  have hdrop : (rest ++ behind).drop (piece.chars.length - 1) = behind := by
    rw [hchars, List.length_cons, Nat.add_sub_cancel, List.drop_left]
  rw [htext, solid, cut_cons, hfirst, hdrop, numbered, ← List.singleton_append, List.filter_append,
    solid]

lemma lineComment_stands {body : List Char} (h : '\n' ∉ body) (rest : List Char) :
    (⟨.trivia, '/' :: '/' :: body⟩ : Piece).Stands ('\n' :: rest) := by
  have hstands := (OnePass.lineComment_begins (body ++ '\n' :: rest)).2
  have hbody : ∀ c ∈ body, (c != '\n') = true := fun c hc => by
    rw [bne_iff_ne]
    rintro rfl
    exact h hc
  simpa [OnePass.afterSlash, List.takeWhile_append_of_pos hbody,
    List.dropWhile_append_of_pos hbody] using hstands

lemma blockComment_stands {body : List Char} (h : ¬ ['*', '/'] <:+: body) (rest : List Char) :
    (⟨.trivia, '/' :: '*' :: (body ++ ['*', '/'])⟩ : Piece).Stands rest := by
  have htext : '/' :: '*' :: (body ++ '*' :: '/' :: rest) =
      '/' :: '*' :: (body ++ ['*', '/']) ++ rest := by simp
  have hlength : ('/' :: '*' :: (body ++ ['*', '/'])).length = body.length + 4 := by simp
  have hrun : run? Text.isBlank ('/' :: '*' :: (body ++ '*' :: '/' :: rest)) = none := by
    simp [run?, show Text.isBlank '/' = false by decide]
  have hline : lineComment? ('/' :: '*' :: (body ++ '*' :: '/' :: rest)) = none := by
    simp [lineComment?]
  have hlongest : longest triviaRules ('/' :: '*' :: (body ++ '*' :: '/' :: rest)) =
      some ((), body.length + 4) := by
    simp only [triviaRules, List.map_cons, List.map_nil, longest, hrun, hline,
      blockComment?_exact h rest]
  have hstands := separators_reach.isLongest hlongest
    (by rw [htext, List.length_append, hlength]; exact Nat.le_add_right ..)
    (separates_of_longest hlongest)
  rw [htext, ← hlength, List.take_left, List.drop_left] at hstands
  exact .trivia hstands

lemma solid_separator {chars : List Char} (h : Separator chars) (line : Nat) (text : List Char) :
    solid line (chars ++ text) = solid (line + chars.count '\n') text := by
  induction h generalizing line with
  | nil => rfl
  | @blank c rest hc _ ih =>
    have hblank : ∀ d ∈ [c], Text.isBlank d = true := by simpa using hc
    have hone := solid_blanks hblank line (rest ++ text)
    rw [List.singleton_append] at hone
    rw [List.cons_append, hone, ih, Nat.add_assoc, ← List.count_append, List.singleton_append]
  | @lineComment body rest hbody _ ih =>
    have htext : '/' :: '/' :: (body ++ '\n' :: rest) ++ text =
        '/' :: '/' :: body ++ '\n' :: (rest ++ text) := by simp
    have hblank : ∀ d ∈ ['\n'], Text.isBlank d = true := by simp [Text.isBlank_newline]
    have hone := solid_blanks hblank (line + ('/' :: '/' :: body).count '\n') (rest ++ text)
    rw [List.singleton_append] at hone
    rw [htext, solid_of_stands (lineComment_stands hbody (rest ++ text)), hone, ih]
    have hcount : line + ('/' :: '/' :: body).count '\n' + ['\n'].count '\n' + rest.count '\n' =
        line + ('/' :: '/' :: (body ++ '\n' :: rest)).count '\n' := by
      simp only [List.count_cons, List.count_append, List.count_nil]
      omega
    rw [hcount]
    rfl
  | @blockComment body rest hbody _ ih =>
    have htext : '/' :: '*' :: (body ++ '*' :: '/' :: rest) ++ text =
        '/' :: '*' :: (body ++ ['*', '/']) ++ (rest ++ text) := by simp
    have hcount : line + ('/' :: '*' :: (body ++ ['*', '/'])).count '\n' + rest.count '\n' =
        line + ('/' :: '*' :: (body ++ '*' :: '/' :: rest)).count '\n' := by
      simp only [List.count_cons, List.count_append, List.count_nil]
      omega
    rw [htext, solid_of_stands (blockComment_stands hbody (rest ++ text)), ih, hcount]
    rfl

/-- Tokens, each with what is to stand behind it. -/
def spaced (entries : List (Token × String)) : List Char :=
  entries.flatMap fun entry => entry.1.lexeme.toList ++ entry.2.toList

lemma blankAhead_spaced {entries : List (Token × String)} {separator : String}
    (hblank : BlankAhead separator.toList) (hempty : separator = "" → entries = []) :
    BlankAhead (separator.toList ++ spaced entries) := by
  cases htext : separator.toList with
  | nil =>
    rw [hempty (String.toList_eq_nil_iff.mp htext)]
    exact fun c hc => by simp [spaced] at hc
  | cons c rest =>
    rw [htext] at hblank
    exact hblank

lemma solid_spaced {entries : List (Token × String)}
    (hspells : ∀ entry ∈ entries, Spells entry.1.kind entry.1.literal entry.1.lexeme.toList)
    (hseparator : ∀ entry ∈ entries, Separator entry.2.toList)
    (hblank : ∀ entry ∈ entries, BlankAhead entry.2.toList)
    (hbetween : ∀ entry ∈ entries.dropLast, entry.2 ≠ "") (line : Nat) :
    (solid line (spaced entries)).map Prod.snd = entries.map fun entry => ofToken entry.1 := by
  induction entries generalizing line with
  | nil => rfl
  | cons entry entries ih =>
    obtain ⟨hspell, hspells⟩ := List.forall_mem_cons.mp hspells
    obtain ⟨hhere, hseparator⟩ := List.forall_mem_cons.mp hseparator
    obtain ⟨hahead, hblank⟩ := List.forall_mem_cons.mp hblank
    have hempty : entry.2 = "" → entries = [] := by
      intro hnone
      by_contra hne
      rw [List.dropLast_cons_of_ne_nil hne] at hbetween
      exact hbetween entry (List.mem_cons_self ..) hnone
    have hrest : ∀ other ∈ entries.dropLast, other.2 ≠ "" := fun other hother => by
      have hne : entries ≠ [] := by
        rintro rfl
        simp at hother
      rw [List.dropLast_cons_of_ne_nil hne] at hbetween
      exact hbetween other (List.mem_cons_of_mem _ hother)
    have hbehind := blankAhead_spaced hahead hempty
    have hstands : (ofToken entry.1).Stands (entry.2.toList ++ spaced entries) :=
      .token hspell (hspell.isLongest hbehind) (hspell.not_beginsComment hbehind)
    have htext : spaced (entry :: entries) =
        (ofToken entry.1).chars ++ (entry.2.toList ++ spaced entries) := by
      rw [spaced, List.flatMap_cons, List.append_assoc]
      rfl
    rw [htext, solid_of_stands hstands, solid_separator hhere, List.map_append,
      ih hspells hseparator hblank hrest]
    rfl

end Piece

namespace Token

open Lexeme

/-- What a token is apart from its line. -/
def unplaced (t : Token) : Kind × String × Option Literal :=
  (t.kind, t.lexeme, t.literal)

lemma spells_of_scan {source : String} {tokens : List Token} {line : Nat}
    (h : scan source = .ok (tokens ++ [endMark line])) {t : Token} (ht : t ∈ tokens) :
    Spells t.kind t.literal t.lexeme.toList ∧ t.kind ≠ .eof := by
  obtain ⟨text, n, hlongest, hlexeme⟩ :=
    longest_of_mem_dropLast h (t := t) (by rwa [List.dropLast_concat])
  exact ⟨hlexeme ▸ spells_of_longest hlongest, ne_eof_of_longest hlongest⟩

lemma unplaced_of_pieces {found : List (Nat × Piece)} {tokens : List Token}
    (h : found.map Prod.snd = tokens.map Piece.ofToken) :
    (∀ entry ∈ found, entry.2.error? entry.1 = none) ∧
      (found.filterMap fun (line, piece) => piece.token? line).map unplaced = tokens.map unplaced := by
  refine ⟨fun entry he => ?_, ?_⟩
  · have hmem := List.mem_map_of_mem (f := Prod.snd) he
    rw [h] at hmem
    obtain ⟨t, -, ht⟩ := List.mem_map.mp hmem
    rw [← ht]
    rfl
  · have hfound : (found.filterMap fun (line, piece) => piece.token? line).map unplaced =
        (found.map Prod.snd).filterMap fun piece => (piece.token? 0).map unplaced := by
      rw [List.map_filterMap, List.filterMap_map]
      refine congrArg (List.filterMap · found) (funext fun (line, piece) => ?_)
      dsimp only [Function.comp_apply, Piece.token?]
      cases piece.content <;> rfl
    have htoken (t : Token) : ((Piece.ofToken t).token? 0).map unplaced = some t.unplaced := by
      simp [Piece.ofToken, Piece.token?, unplaced]
    rw [hfound, h, List.filterMap_map]
    simp only [Function.comp_def, htoken, List.filterMap_eq_map']

/-- The tokens of a text are read again, but for their lines, if they are written out with other blanks
and comments between them. What stands behind a token begins with a blank, if it is not empty, and only
behind the last one it may be. -/
theorem scan_respaced {source : String} {entries : List (Token × String)} {line : Nat}
    (h : scan source = .ok (entries.map Prod.fst ++ [endMark line])) {before : String}
    (hbefore : Separator before.toList) (hseparator : ∀ entry ∈ entries, Separator entry.2.toList)
    (hblank : ∀ entry ∈ entries, BlankAhead entry.2.toList)
    (hbetween : ∀ entry ∈ entries.dropLast, entry.2 ≠ "") :
    ∃ tokens line', scan (before ++ String.join (entries.map fun entry => entry.1.lexeme ++ entry.2)) =
        .ok (tokens ++ [endMark line']) ∧
      tokens.map unplaced = entries.map (fun entry => entry.1.unplaced) ∧
      ∀ t ∈ tokens, t.kind ≠ .eof := by
  have hspells (entry) (he : entry ∈ entries) := spells_of_scan h (List.mem_map_of_mem (f := Prod.fst) he)
  have htext : (before ++ String.join (entries.map fun entry => entry.1.lexeme ++ entry.2)).toList =
      before.toList ++ Piece.spaced entries := by
    rw [String.toList_append, String.toList_join, List.flatMap_map]
    simp only [String.toList_append, Piece.spaced]
  have hsolid : (Piece.solid 1 (before.toList ++ Piece.spaced entries)).map Prod.snd =
      (entries.map Prod.fst).map Piece.ofToken := by
    rw [Piece.solid_separator hbefore, List.map_map]
    exact Piece.solid_spaced (fun entry he => (hspells entry he).1) hseparator hblank hbetween _
  obtain ⟨herrors, htokens⟩ := unplaced_of_pieces hsolid
  refine ⟨_, _, scan_eq_ok_iff.mpr ⟨htext ▸ herrors, rfl⟩, ?_, fun t ht => ?_⟩
  · rw [htext, htokens, List.map_map]
    rfl
  · rw [htext] at ht
    have hmem := List.mem_map_of_mem (f := unplaced) ht
    rw [htokens] at hmem
    obtain ⟨original, horiginal, heq⟩ := List.mem_map.mp hmem
    rw [← show original.kind = t.kind from congrArg Prod.fst heq]
    exact (spells_of_scan h horiginal).2

/-- A string with a comment opener in it, and a slash that must not open one with what stands behind it. -/
theorem scan_respaced_slash :
    ∃ tokens line', scan "//\n\"//\" /\t/**/b" = .ok (tokens ++ [endMark line']) ∧
      tokens.map unplaced =
        [(.string, "\"//\"", some (.text "//")), (.slash, "/", none), (.identifier, "b", none)] := by
  let entries : List (Token × String) :=
    [(⟨.string, "\"//\"", some (.text "//"), 1⟩, " "), (⟨.slash, "/", none, 1⟩, "\t/**/"),
      (⟨.identifier, "b", none, 1⟩, "")]
  have hscan : scan "\"//\"/b" = .ok (entries.map Prod.fst ++ [endMark 1]) := by cbv
  have hcomment : Separator "//\n".toList := @Separator.lineComment [] [] (by simp) .nil
  have hblock : Separator "/**/".toList := @Separator.blockComment [] [] (by simp) .nil
  have hseparator : ∀ entry ∈ entries, Separator entry.2.toList := by
    simp only [entries, List.forall_mem_cons, List.not_mem_nil, false_implies, implies_true, and_true]
    exact ⟨.blank (by decide) .nil, .blank (by decide) hblock, .nil⟩
  obtain ⟨tokens, line', hrespaced, htokens, -⟩ := scan_respaced hscan hcomment hseparator
    (by simp [entries, BlankAhead]; decide) (by simp [entries])
  exact ⟨tokens, line', hrespaced, htokens⟩

end Token

end Lox
