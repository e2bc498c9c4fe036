import Lox.Proofs.Token.Spelling

/-! The pieces of a text cover it, and the tokens or the faults of the text are those of its pieces,
each on the line that the newlines before it make. -/

namespace Lox

namespace Piece

open Lexeme

def BeginsComment (text : List Char) : Prop :=
  ['/', '/'] <+: text ∨ ['/', '*'] <+: text

/-- A piece is what it says, in front of the text behind it. Of all that could stand there it is the
longest; a comment goes before a token, and a character is stray if nothing else could. -/
inductive Stands : Piece → List Char → Prop
  | trivia {chars behind} : IsLongest Separates chars behind → Stands ⟨.trivia, chars⟩ behind
  | token {kind literal chars behind} : Spells kind literal chars → IsLongest IsToken chars behind →
      ¬ BeginsComment (chars ++ behind) → Stands ⟨.token kind literal, chars⟩ behind
  | stray {c behind} : c ≠ '"' →
      (∀ chars, chars <+: c :: behind → ¬ Separates chars ∧ ¬ IsToken chars) →
      Stands ⟨.stray c, [c]⟩ behind
  | openString {body} : '"' ∉ body → Stands ⟨.openString, '"' :: body⟩ []
  | openComment {body} : ¬ ['*', '/'] <:+: body → Stands ⟨.openComment, '/' :: '*' :: body⟩ []

/-- The pieces make up the text, and each stands in front of those behind it. -/
inductive Covers : List Piece → List Char → Prop
  | nil : Covers [] []
  | cons {piece pieces behind} : piece.Stands behind → Covers pieces behind →
      Covers (piece :: pieces) (piece.chars ++ behind)

/-- The pieces, each with the text before it. -/
def placed (before : List Char) : List Piece → List (List Char × Piece)
  | [] => []
  | piece :: pieces => (before, piece) :: placed (before ++ piece.chars) pieces

/-- A piece that is neither a token nor between tokens. -/
def IsFault (piece : Piece) : Prop :=
  (∃ c, piece.content = .stray c) ∨ piece.IsOpen

section Unique

/-- The kinds of pieces in the order in which one goes before another. -/
def Content.rank : Content → Nat
  | trivia => 0
  | openComment => 1
  | token .. => 2
  | openString => 3
  | stray _ => 4

lemma headI_of_prefix {chars text : List Char} (hne : chars ≠ []) (h : chars <+: text) :
    chars.headI = text.headI := by
  obtain ⟨behind, rfl⟩ := h
  obtain ⟨c, rest, rfl⟩ := List.exists_cons_of_ne_nil hne
  rfl

lemma BeginsComment.headI {text : List Char} (h : BeginsComment text) : text.headI = '/' := by
  rcases h with ⟨behind, rfl⟩ | ⟨behind, rfl⟩ <;> rfl

lemma separates_begins {chars text : List Char} (h : Separates chars) (hbegins : chars <+: text) :
    Text.isBlank text.headI = true ∨ BeginsComment text := by
  rw [← headI_of_prefix h.ne_nil hbegins]
  cases h with
  | blanks hne hblank =>
    obtain ⟨c, rest, rfl⟩ := List.exists_cons_of_ne_nil hne
    exact .inl (hblank c (List.mem_cons_self ..))
  | lineComment => exact .inr (.inl ((List.prefix_append ['/', '/'] _).trans hbegins))
  | blockComment => exact .inr (.inr ((List.prefix_append ['/', '*'] _).trans hbegins))

lemma not_separates_of_open {body chars : List Char} (h : ¬ ['*', '/'] <:+: body)
    (hbegins : chars <+: '/' :: '*' :: body) : ¬ Separates chars := by
  intro hseparates
  obtain ⟨behind, htext⟩ := hbegins
  cases hseparates with
  | blanks hne hblank =>
    obtain ⟨c, rest, rfl⟩ := List.exists_cons_of_ne_nil hne
    obtain rfl : c = '/' := (List.cons.inj htext).1
    exact absurd (hblank '/' (List.mem_cons_self ..)) (by decide)
  | lineComment => simp at htext
  | @blockComment inner hinner =>
    have hbody : inner ++ ['*', '/'] ++ behind = body := by simpa using htext
    exact h ⟨inner, behind, hbody⟩

lemma not_isToken_of_open {body chars : List Char} (h : '"' ∉ body) (hbegins : chars <+: '"' :: body) :
    ¬ IsToken chars := by
  rintro ⟨kind, literal, hspells⟩
  have hhead := headI_of_prefix hspells.ne_nil hbegins
  rw [List.headI_cons] at hhead
  cases hspells with
  | @fixed entry he => exact (headI_fixed entry he).2.1 hhead
  | identifier hc =>
    obtain rfl := hhead
    exact absurd hc (by decide)
  | @quoted inner hinner =>
    obtain ⟨behind, htext⟩ := hbegins
    have hbody : inner ++ ['"'] ++ behind = body := (List.cons.inj htext).2
    rw [← hbody] at h
    simp at h
  | whole hne hdigits | decimal hne hdigits =>
    obtain ⟨c, rest, rfl⟩ := List.exists_cons_of_ne_nil hne
    obtain rfl := hhead
    exact absurd (hdigits _ (List.mem_cons_self ..)) (by decide)

open Classical in
/-- What stands at the start of a text is of the first kind of which something can stand there. -/
lemma Stands.rank_eq {piece : Piece} {text behind : List Char} (h : piece.Stands behind)
    (htext : text = piece.chars ++ behind) :
    piece.content.rank =
      if ∃ chars, chars <+: text ∧ Separates chars then 0
      else if BeginsComment text then 1
      else if ∃ chars, chars <+: text ∧ IsToken chars then 2
      else if text.headI = '"' then 3 else 4 := by
  subst htext
  cases h with
  | @trivia chars behind hlongest =>
    rw [if_pos ⟨chars, List.prefix_append .., hlongest.1⟩]
    rfl
  | @openComment body hbody =>
    dsimp only
    rw [List.append_nil, if_neg, if_pos (.inr (List.prefix_append ['/', '*'] body))]
    · rfl
    · rintro ⟨chars, hbegins, hseparates⟩
      exact not_separates_of_open hbody hbegins hseparates
  | @token kind literal chars behind hspells hlongest hcomment =>
    have hhead := headI_of_prefix hspells.ne_nil (List.prefix_append chars behind)
    dsimp only
    rw [if_neg, if_neg hcomment, if_pos ⟨chars, List.prefix_append .., hlongest.1⟩]
    · rfl
    · rintro ⟨other, hbegins, hseparates⟩
      rcases separates_begins hseparates hbegins with hblank | hbegins
      · rw [← hhead, hspells.not_blank] at hblank
        simp at hblank
      · exact hcomment hbegins
  | @openString body hbody =>
    have hcomment : ¬ BeginsComment ('"' :: body) := fun h => absurd h.headI (by simp)
    dsimp only
    rw [List.append_nil, if_neg, if_neg hcomment, if_neg, List.headI_cons, if_pos rfl]
    · rfl
    · rintro ⟨chars, hbegins, htoken⟩
      exact not_isToken_of_open hbody hbegins htoken
    · rintro ⟨chars, hbegins, hseparates⟩
      rcases separates_begins hseparates hbegins with hblank | hbegins
      · exact absurd hblank (by rw [List.headI_cons]; decide)
      · exact hcomment hbegins
  | @stray c behind hquote hnothing =>
    have hcomment : ¬ BeginsComment (c :: behind) := by
      intro h
      obtain rfl : c = '/' := h.headI
      have hslash : ("/", Token.Kind.slash) ∈ Token.Kind.symbols ++ Token.Kind.keywords := by decide
      exact (hnothing ['/'] (List.prefix_append ['/'] behind)).2 ⟨.slash, none, .fixed hslash⟩
    rw [List.singleton_append, if_neg, if_neg hcomment, if_neg, List.headI_cons, if_neg hquote]
    · rfl
    · rintro ⟨chars, hbegins, htoken⟩
      exact (hnothing chars hbegins).2 htoken
    · rintro ⟨chars, hbegins, hseparates⟩
      exact (hnothing chars hbegins).1 hseparates

lemma Stands.unique {piece other : Piece} {behind after : List Char} (h : piece.Stands behind)
    (h' : other.Stands after) (htext : piece.chars ++ behind = other.chars ++ after) :
    piece = other := by
  have hrank := (h.rank_eq rfl).trans (h'.rank_eq htext).symm
  cases h with
  | trivia hlongest =>
    cases h' with
    | trivia hlongest' => rw [hlongest.unique hlongest' htext]
    | token | openString | openComment | stray => simp [Content.rank] at hrank
  | token hspells hlongest =>
    cases h' with
    | token hspells' hlongest' =>
      obtain rfl := hlongest.unique hlongest' htext
      obtain ⟨rfl, rfl⟩ := Prod.mk.inj (hspells.classify_eq.symm.trans hspells'.classify_eq)
      rfl
    | trivia | openString | openComment | stray => simp [Content.rank] at hrank
  | stray =>
    cases h' with
    | stray =>
      obtain rfl := (List.cons.inj htext).1
      rfl
    | trivia | token | openString | openComment => simp [Content.rank] at hrank
  | openString =>
    cases h' with
    | openString => simpa using htext
    | trivia | token | openComment | stray => simp [Content.rank] at hrank
  | openComment =>
    cases h' with
    | openComment => simpa using htext
    | trivia | token | openString | stray => simp [Content.rank] at hrank

end Unique

section Cutting

variable {c : Char} {rest : List Char}

lemma not_beginsComment (hopens : opensComment (c :: rest) = false)
    (hnone : longest triviaRules (c :: rest) = none) : ¬ BeginsComment (c :: rest) := by
  have hrules := longest_eq_none hnone
  rintro (⟨behind, htext⟩ | ⟨behind, htext⟩) <;> rw [← htext] at hopens hrules
  · have hline := hrules ⟨lineComment?, fun _ => ()⟩ (mem_triviaRules.mpr (.inr (.inl rfl)))
    simp [lineComment?] at hline
  · have hblock := hrules ⟨blockComment?, fun _ => ()⟩ (mem_triviaRules.mpr (.inr (.inr rfl)))
    have hclosing : closing? 0 behind = none := by simpa [blockComment?] using hblock
    simp [opensComment, hclosing] at hopens

lemma first_stands (c : Char) (rest : List Char) :
    ∃ behind, c :: rest = (first c rest).chars ++ behind ∧ (first c rest).Stands behind := by
  have hsplit (n : Nat) : c :: rest = (c :: rest).take n ++ (c :: rest).drop n :=
    (List.take_append_drop ..).symm
  rcases first_cases c rest with ⟨hopens, hfirst⟩ | ⟨hopens, ⟨u, n, htrivia, hfirst⟩ |
    ⟨htrivia, ⟨hstring, hfirst⟩ | ⟨hstring, ⟨kind, literal, n, htoken, hfirst⟩ | ⟨htoken, hfirst⟩⟩⟩⟩ <;>
    rw [hfirst]
  · obtain ⟨body, htext, hbody⟩ := opensComment_eq_true hopens
    refine ⟨[], (List.append_nil _).symm, ?_⟩
    rw [htext]
    exact .openComment hbody
  · have hle := (bounded_longest (fun rule => bounded_trivia) htrivia).2
    have hlongest := separators_reach.isLongest htrivia hle (separates_of_longest htrivia)
    exact ⟨_, hsplit n, .trivia hlongest⟩
  · refine ⟨[], (List.append_nil _).symm, ?_⟩
    unfold opensString at hstring
    split at hstring
    · rename_i body htext
      rw [htext]
      exact .openString (by simpa using hstring)
    · simp at hstring
  · have hle := (bounded_longest (fun rule => bounded_token) htoken).2
    have hspells := spells_of_longest htoken
    have hlongest := tokens_reach.isLongest htoken hle ⟨kind, literal, hspells⟩
    have hcomment := not_beginsComment hopens htrivia
    exact ⟨_, hsplit n, .token hspells hlongest (by rwa [← hsplit n])⟩
  · refine ⟨rest, rfl, .stray ?_ fun chars hbegins => ?_⟩
    · rintro rfl
      have hquoted := longest_eq_none htoken
        ⟨quoted?, fun lexeme => (.string, some (.text (quotedValue lexeme)))⟩
        (by simp [tokenRules])
      have hmem : '"' ∈ rest := by simpa [opensString] using hstring
      simp [quoted?, hmem] at hquoted
    · exact ⟨separators_reach.none htrivia hbegins, tokens_reach.none htoken hbegins⟩

lemma cut_covers (text : List Char) : Covers (cut text) text := by
  induction hlength : text.length using Nat.strong_induction_on generalizing text with
  | _ length ih =>
    subst hlength
    cases text with
    | nil => exact .nil
    | cons c rest =>
      obtain ⟨behind, htext, hstands⟩ := first_stands c rest
      obtain ⟨n, hle, hchars⟩ := exists_take c rest
      have hlength : (first c rest).chars.length = n + 1 := by
        rw [hchars, List.length_take, List.length_cons]
        omega
      have hbehind : rest.drop ((first c rest).chars.length - 1) = behind := by
        have hdrop := congrArg (List.drop (n + 1)) htext
        rw [← hlength, List.drop_left, hlength, List.drop_succ_cons] at hdrop
        rw [hlength, Nat.add_sub_cancel, hdrop]
      have hlt : behind.length < (c :: rest).length := by
        rw [htext, List.length_append]
        omega
      have hcovers := Covers.cons hstands (ih behind.length hlt behind rfl)
      rw [cut_cons, hbehind]
      rwa [← htext] at hcovers

end Cutting

section Lines

lemma Covers.flatMap_chars {pieces : List Piece} {text : List Char} (h : Covers pieces text) :
    pieces.flatMap Piece.chars = text := by
  induction h with
  | nil => rfl
  | cons _ _ ih => rw [List.flatMap_cons, ih]

lemma Stands.chars_ne_nil {piece : Piece} {behind : List Char} (h : piece.Stands behind) :
    piece.chars ≠ [] := by
  cases h with
  | trivia hlongest => exact hlongest.1.ne_nil
  | token hspells => exact hspells.ne_nil
  | stray | openString | openComment => exact List.cons_ne_nil _ _

lemma covers_cons {piece : Piece} {pieces : List Piece} {text : List Char} :
    Covers (piece :: pieces) text ↔
      ∃ behind, text = piece.chars ++ behind ∧ piece.Stands behind ∧ Covers pieces behind := by
  constructor
  · intro h
    cases h with
    | @cons _ _ behind hstands hcovers => exact ⟨behind, rfl, hstands, hcovers⟩
  · rintro ⟨behind, rfl, hstands, hcovers⟩
    exact .cons hstands hcovers

lemma Covers.unique {pieces others : List Piece} {text : List Char} (h : Covers pieces text)
    (h' : Covers others text) : others = pieces := by
  have hnil {piece : Piece} {pieces : List Piece} (h : Covers (piece :: pieces) []) : False := by
    obtain ⟨behind, htext, hstands, -⟩ := covers_cons.mp h
    exact hstands.chars_ne_nil (List.append_eq_nil_iff.mp htext.symm).1
  induction h generalizing others with
  | nil =>
    cases others with
    | nil => rfl
    | cons other others => exact (hnil h').elim
  | @cons piece pieces behind hstands hcovers ih =>
    cases others with
    | nil =>
      have htext : [] = piece.chars ++ behind := h'.flatMap_chars
      exact absurd (List.append_eq_nil_iff.mp htext.symm).1 hstands.chars_ne_nil
    | cons other others =>
      obtain ⟨after, htext, hother, hothers⟩ := covers_cons.mp h'
      obtain rfl := hstands.unique hother htext
      obtain rfl := List.append_cancel_left htext
      rw [ih hothers]

lemma Stands.behind_eq_nil {piece : Piece} {behind : List Char} (h : piece.Stands behind)
    (hopen : piece.IsOpen) : behind = [] := by
  cases h with
  | openString | openComment => rfl
  | trivia | token | stray => simp [IsOpen] at hopen

lemma Covers.not_isOpen {pieces : List Piece} {text : List Char} (h : Covers pieces text) :
    ∀ piece ∈ pieces.dropLast, ¬ piece.IsOpen := by
  induction h with
  | nil => simp
  | @cons piece pieces behind hstands hcovers ih =>
    cases hcovers with
    | nil => simp
    | @cons next others after hnext hcovers =>
      rw [List.dropLast_cons_of_ne_nil (List.cons_ne_nil _ _)]
      refine List.forall_mem_cons.mpr ⟨fun hopen => ?_, ih⟩
      have hnil := hstands.behind_eq_nil hopen
      exact hnext.chars_ne_nil (List.append_eq_nil_iff.mp hnil).1

lemma numbered_placed (before : List Char) (pieces : List Piece) :
    numbered (1 + before.count '\n') pieces =
      (placed before pieces).map fun entry => (1 + entry.1.count '\n', entry.2) := by
  induction pieces generalizing before with
  | nil => rfl
  | cons piece pieces ih =>
    have hrest := ih (before ++ piece.chars)
    rw [List.count_append, ← Nat.add_assoc] at hrest
    rw [numbered, placed, List.map_cons, hrest]

lemma error?_eq_none {line : Nat} {piece : Piece} : piece.error? line = none ↔ ¬ piece.IsFault := by
  unfold error? IsFault IsOpen
  cases piece.content <;> simp

/-- The tokens among the pieces, each on the line that the newlines before it make. -/
def tokens (pieces : List Piece) : List Token :=
  (placed [] pieces).filterMap fun entry => entry.2.token? (1 + entry.1.count '\n')

/-- The faults of the pieces, each on the line that the newlines before it make. -/
def faults (pieces : List Piece) : List ScanError :=
  (placed [] pieces).filterMap fun entry => entry.2.error? (1 + entry.1.count '\n')

lemma map_snd_placed (before : List Char) (pieces : List Piece) :
    (placed before pieces).map Prod.snd = pieces := by
  induction pieces generalizing before with
  | nil => rfl
  | cons piece pieces ih => rw [placed, List.map_cons, ih]

lemma faults_eq_nil {pieces : List Piece} :
    faults pieces = [] ↔ ∀ piece ∈ pieces, ¬ piece.IsFault := by
  have hall := List.forall_mem_map (f := Prod.snd) (l := placed [] pieces)
    (P := fun piece => ¬ piece.IsFault)
  rw [map_snd_placed] at hall
  rw [faults, List.filterMap_eq_nil_iff, hall]
  simp only [error?_eq_none]

end Lines

end Piece

namespace Token

lemma scan_eq (source : String) :
    scan source =
      if Piece.faults (Piece.cut source.toList) = [] then
        .ok (Piece.tokens (Piece.cut source.toList) ++ [endMark (1 + source.toList.count '\n')])
      else .error (Piece.faults (Piece.cut source.toList)) := by
  have hnumbered := Piece.numbered_placed [] (Piece.cut source.toList)
  rw [List.count_nil, Nat.add_zero] at hnumbered
  have herrors : ((Piece.numbered 1 (Piece.cut source.toList)).filterMap
      fun entry => entry.2.error? entry.1) = Piece.faults (Piece.cut source.toList) := by
    rw [hnumbered, List.filterMap_map]
    rfl
  have htokens : ((Piece.numbered 1 (Piece.cut source.toList)).filterMap
      fun entry => entry.2.token? entry.1) = Piece.tokens (Piece.cut source.toList) := by
    rw [hnumbered, List.filterMap_map]
    rfl
  rw [scan_eq_pieces, herrors, htokens]

/-- A text falls in one way into pieces without gap or overlap: what stands between tokens, tokens, stray
characters, and at most one string or comment without end, which reaches to the end of the text. If
there is no fault among them, the text is read as its tokens and the end mark, and else as its faults.
The line of each is one more than the newlines before it. -/
theorem scan_covers (source : String) :
    ∃ pieces : List Piece,
      Piece.Covers pieces source.toList ∧
        (∀ others, Piece.Covers others source.toList → others = pieces) ∧
        pieces.flatMap Piece.chars = source.toList ∧
        (∀ piece ∈ pieces.dropLast, ¬ piece.IsOpen) ∧
        ((∃ tokens, scan source = .ok tokens) ↔ ∀ piece ∈ pieces, ¬ piece.IsFault) ∧
        (∀ tokens, scan source = .ok tokens →
          tokens = Piece.tokens pieces ++ [endMark (1 + source.toList.count '\n')]) ∧
        ∀ errors, scan source = .error errors → errors = Piece.faults pieces := by
  have hcovers := Piece.cut_covers source.toList
  refine ⟨Piece.cut source.toList, hcovers, fun others h => hcovers.unique h,
    hcovers.flatMap_chars, hcovers.not_isOpen, ?_⟩
  rw [← Piece.faults_eq_nil, scan_eq]
  split
  · rename_i hnone
    exact ⟨iff_of_true ⟨_, rfl⟩ hnone, fun tokens h => (Except.ok.inj h).symm, by simp⟩
  · rename_i hsome
    exact ⟨iff_of_false (by simp) hsome, by simp, fun errors h => (Except.error.inj h).symm⟩

end Token

end Lox
