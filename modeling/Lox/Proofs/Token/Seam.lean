import Lox.Proofs.Token.Keywords
import Lox.Proofs.Token.Piece

/-! A text that goes on in another line: its tokens are those of the two parts, one after the other. No
lexeme of the first part reaches over the newline, unless it is a string or a comment without end. -/

namespace Lox

namespace Text

variable {p : Char → Bool} {text : List Char} {c : Char}

lemma takeWhile_line (h : p '\n' = false) (text behind : List Char) :
    (text ++ '\n' :: behind).takeWhile p = text.takeWhile p := by
  induction text with
  | nil => simp [h]
  | cons c text ih => cases hc : p c <;> simp [hc, ih]

lemma takeWhile_of_mem (hc : p c = false) (h : c ∈ text) (behind : List Char) :
    (text ++ behind).takeWhile p = text.takeWhile p := by
  induction text with
  | nil => simp at h
  | cons d text ih =>
    cases hd : p d with
    | false => simp [hd]
    | true =>
      have hne : c ≠ d := by
        rintro rfl
        simp [hc] at hd
      simp [hd, ih ((List.mem_cons.mp h).resolve_left hne)]

end Text

namespace Lexeme

variable {α : Type} {text behind : List Char}

/-- As much is read at the start of a text if it goes on in another line. -/
def Keeps (length? : List Char → Option Nat) (text behind : List Char) : Prop :=
  length? (text ++ '\n' :: behind) = length? text

lemma longest_keeps {rules : List (Rule α)} (hb : ∀ rule ∈ rules, Bounded rule.length?)
    (hk : ∀ rule ∈ rules, Keeps rule.length? text behind) :
    longest rules (text ++ '\n' :: behind) = longest rules text := by
  induction rules with
  | nil => rfl
  | cons rule rules ih =>
    obtain ⟨hbounded, hb⟩ := List.forall_mem_cons.mp hb
    obtain ⟨hkeeps, hk⟩ := List.forall_mem_cons.mp hk
    have hmeaning (n : Nat) (hn : rule.length? text = some n) :
        rule.meaning ((text ++ '\n' :: behind).take n) = rule.meaning (text.take n) := by
      rw [List.take_append_of_le_length (hbounded text n hn).2]
    rw [longest, longest, hkeeps, ih hb hk]
    rcases hn : rule.length? text with _ | n
    · rfl
    · rcases longest rules text with _ | best <;> dsimp only <;> rw [hmeaning n hn]

section Rules

variable {p : Char → Bool}

lemma keeps_run? (hp : p '\n' = false) : Keeps (run? p) text behind := by
  rw [Keeps, run?, Text.takeWhile_line hp, run?]

lemma keeps_fixed? {lexeme : List Char} (h : '\n' ∉ lexeme) : Keeps (fixed? lexeme) text behind := by
  have hbegins : lexeme.isPrefixOf (text ++ '\n' :: behind) = lexeme.isPrefixOf text := by
    induction lexeme generalizing text with
    | nil => simp
    | cons c lexeme ih =>
      obtain ⟨hc, hrest⟩ := not_or.mp (mt List.mem_cons.mpr h)
      cases text with
      | nil =>
        rw [List.nil_append, List.isPrefixOf_cons_cons, beq_false_of_ne (Ne.symm hc), Bool.false_and]
        rfl
      | cons d text =>
        rw [List.cons_append, List.isPrefixOf_cons_cons, ih hrest, List.isPrefixOf_cons_cons]
  rw [Keeps, fixed?, hbegins, fixed?]

lemma keeps_identifier? : Keeps identifier? text behind := by
  cases text with
  | nil => rfl
  | cons c rest =>
    have hline : continuesIdentifier '\n' = false := by decide
    rw [Keeps, List.cons_append, identifier?, identifier?, Text.takeWhile_line hline]

lemma keeps_quoted? (hne : text ≠ []) (h : opensString text = false) (behind : List Char) :
    Keeps quoted? text behind ∧ opensString (text ++ '\n' :: behind) = false := by
  obtain ⟨c, rest, rfl⟩ := List.exists_cons_of_ne_nil hne
  by_cases hc : c = '"'
  · subst hc
    have hmem : '"' ∈ rest := by simpa [opensString] using h
    have hmem' : '"' ∈ rest ++ '\n' :: behind := List.mem_append_left _ hmem
    have htake : (rest ++ '\n' :: behind).takeWhile (· != '"') = rest.takeWhile (· != '"') :=
      Text.takeWhile_of_mem (by simp) hmem _
    constructor
    · simp only [Keeps, List.cons_append, quoted?, hmem, hmem', if_true, htake]
    · simp [opensString, hmem]
  · have hother (rest : List Char) :
        quoted? (c :: rest) = none ∧ opensString (c :: rest) = false := by
      unfold quoted? opensString
      constructor <;> split <;> first | rfl | exact absurd (List.cons.inj ‹_›).1 hc
    exact ⟨(hother _).1.trans (hother rest).1.symm, (hother _).2⟩

lemma keeps_number? : Keeps number? text behind := by
  have hdigits (text : List Char) : Keeps (run? Char.isDigit) text behind := keeps_run? (by decide)
  rw [Keeps, number?, hdigits text, number?]
  refine Option.map_congr fun whole hwhole => ?_
  rw [List.drop_append_of_le_length (bounded_run? _ text whole hwhole).2]
  rcases text.drop whole with _ | ⟨c, rest⟩
  · rfl
  · by_cases hc : c = '.'
    · subst hc
      simp only [List.cons_append]
      rw [hdigits rest]
    · simp [hc]

lemma keeps_comments (hne : text ≠ []) (h : opensComment text = false) (behind : List Char) :
    Keeps lineComment? text behind ∧ Keeps blockComment? text behind ∧
      opensComment (text ++ '\n' :: behind) = false := by
  rcases comment_cases text with ⟨rest, rfl⟩ | ⟨rest, rfl⟩ | ⟨hline, hblock, -⟩
  · have htake : (rest ++ '\n' :: behind).takeWhile (· != '\n') = rest.takeWhile (· != '\n') :=
      Text.takeWhile_line (by simp) rest behind
    refine ⟨?_, rfl, rfl⟩
    simp only [Keeps, List.cons_append, lineComment?, htake]
  · have hclosed : (closing? 0 rest).isSome = true := by simpa [opensComment] using h
    obtain ⟨n, hn⟩ := Option.isSome_iff_exists.mp hclosed
    have hbehind := (closing?_eq_some hn ('\n' :: behind)).2
    refine ⟨rfl, ?_, ?_⟩
    · simp only [Keeps, List.cons_append, blockComment?, hn, hbehind]
    · simp only [List.cons_append, opensComment, hbehind, Option.isNone_some]
  · have hnot (second : Char) (hnewline : second ≠ '\n') (rest : List Char)
        (heq : text ++ '\n' :: behind = '/' :: second :: rest) :
        ∃ rest, text = '/' :: second :: rest := by
      rcases text with _ | ⟨c, _ | ⟨d, text⟩⟩
      · exact absurd rfl hne
      · simp [Ne.symm hnewline] at heq
      · obtain ⟨rfl, rfl, -⟩ : c = '/' ∧ d = second ∧ _ := by simpa using heq
        exact ⟨text, rfl⟩
    rcases comment_cases (text ++ '\n' :: behind) with ⟨rest, heq⟩ | ⟨rest, heq⟩ | ⟨hline', hblock', h'⟩
    · obtain ⟨rest, rfl⟩ := hnot '/' (by decide) rest heq
      simp [lineComment?] at hline
    · obtain ⟨rest, rfl⟩ := hnot '*' (by decide) rest heq
      have hclosed : (closing? 0 rest).isNone = true := by simpa [blockComment?] using hblock
      exact absurd h (by simp [opensComment, hclosed])
    · exact ⟨hline'.trans hline.symm, hblock'.trans hblock.symm, h'⟩

lemma keeps_trivia {c : Char} {rest : List Char} (hc : Text.isBlank c = false)
    (h : opensComment (c :: rest) = false) (behind : List Char) {rule : Rule Unit}
    (hr : rule ∈ triviaRules) :
    Keeps rule.length? (c :: rest) behind := by
  obtain ⟨length?, hlength, rfl⟩ := List.mem_map.mp hr
  simp only [List.mem_cons, List.not_mem_nil, or_false] at hlength
  obtain ⟨hline, hblock, -⟩ := keeps_comments (List.cons_ne_nil c rest) h behind
  rcases hlength with rfl | rfl | rfl
  · have hnone (rest : List Char) : run? Text.isBlank (c :: rest) = none := by simp [run?, hc]
    exact (hnone _).trans (hnone _).symm
  · exact hline
  · exact hblock

lemma keeps_token (hne : text ≠ []) (hs : opensString text = false) (behind : List Char)
    {rule : Rule (Token.Kind × Option Literal)} (h : rule ∈ tokenRules) :
    Keeps rule.length? text behind := by
  have hlexemes : ∀ entry ∈ Token.Kind.symbols ++ Token.Kind.keywords, '\n' ∉ entry.1.toList := by
    decide
  rcases List.mem_append.mp h with h | h
  · obtain ⟨entry, he, rfl⟩ := List.mem_map.mp h
    exact keeps_fixed? (hlexemes entry he)
  · simp only [List.mem_cons, List.not_mem_nil, or_false] at h
    rcases h with rfl | rfl | rfl
    · exact keeps_identifier?
    · exact (keeps_quoted? hne hs behind).1
    · exact keeps_number?

end Rules

lemma ne_eof_of_longest {kind : Token.Kind} {literal : Option Literal} {n : Nat}
    (h : longest tokenRules text = some ((kind, literal), n)) : kind ≠ .eof := by
  have hkinds : ∀ entry ∈ Token.Kind.symbols ++ Token.Kind.keywords, entry.2 ≠ .eof := by decide
  obtain ⟨rule, hr, -, hmeaning⟩ := rule_of_longest h
  have hkind : (rule.meaning (text.take n)).1 = kind := congrArg Prod.fst hmeaning
  rw [← hkind]
  rcases List.mem_append.mp hr with hr | hr
  · obtain ⟨entry, he, rfl⟩ := List.mem_map.mp hr
    exact hkinds entry he
  · simp only [List.mem_cons, List.not_mem_nil, or_false] at hr
    rcases hr with rfl | rfl | rfl <;> simp

end Lexeme

namespace Piece

/-- A piece that has an end and is not blank is the same if the text goes on in another line. -/
lemma first_line {c : Char} {rest : List Char} (hc : Text.isBlank c = false)
    (h : ¬ (first c rest).IsOpen) (behind : List Char) :
    first c (rest ++ '\n' :: behind) = first c rest := by
  have hne := List.cons_ne_nil c rest
  have hcomment : Lexeme.opensComment (c :: rest) = false := by
    by_contra hopens
    exact h (.inr (by simp [first, hopens]))
  obtain ⟨-, -, hcomment'⟩ := Lexeme.keeps_comments hne hcomment behind
  have htrivia := Lexeme.longest_keeps (fun rule => Lexeme.bounded_trivia)
    fun rule => Lexeme.keeps_trivia hc hcomment behind
  rw [List.cons_append] at hcomment' htrivia
  cases hlongest : Lexeme.longest Lexeme.triviaRules (c :: rest) with
  | some found =>
    have hle := (Lexeme.bounded_longest (fun rule => Lexeme.bounded_trivia) hlongest).2
    simp only [first, hcomment, hcomment', htrivia, hlongest, Bool.false_eq_true, if_false]
    rw [← List.cons_append, List.take_append_of_le_length hle]
  | none =>
    have hstring : Lexeme.opensString (c :: rest) = false := by
      by_contra hopens
      exact h (.inl (by simp [first, hcomment, hlongest, hopens]))
    have hstring' := (Lexeme.keeps_quoted? hne hstring behind).2
    have htoken := Lexeme.longest_keeps (fun rule => Lexeme.bounded_token)
      fun rule => Lexeme.keeps_token hne hstring behind
    rw [List.cons_append] at hstring' htoken
    simp only [first, hcomment, hcomment', htrivia, hlongest, hstring, hstring', htoken,
      Bool.false_eq_true, if_false]
    cases hfound : Lexeme.longest Lexeme.tokenRules (c :: rest) with
    | none => rfl
    | some found =>
      have hle := (Lexeme.bounded_longest (fun rule => Lexeme.bounded_token) hfound).2
      dsimp only
      rw [← List.cons_append, List.take_append_of_le_length hle]

/-- The pieces of a text that are neither blank nor comments, with their lines. -/
def solid (line : Nat) (text : List Char) : List (Nat × Piece) :=
  (numbered line (cut text)).filter (·.2.content != .trivia)

lemma solid_cons (line : Nat) (c : Char) (rest : List Char) :
    ∃ n ≤ rest.length, (first c rest).chars = (c :: rest).take (n + 1) ∧
      solid line (c :: rest) = [(line, first c rest)].filter (·.2.content != .trivia) ++
        solid (line + ((c :: rest).take (n + 1)).count '\n') (rest.drop n) := by
  obtain ⟨n, hle, hchars⟩ := exists_take c rest
  have hlength : (first c rest).chars.length - 1 = n := by
    rw [hchars, List.length_take, List.length_cons]
    omega
  refine ⟨n, hle, hchars, ?_⟩
  rw [solid, cut_cons, numbered, hlength, hchars, ← List.singleton_append, List.filter_append, solid]

lemma solid_dropWhile (line : Nat) (text : List Char) :
    solid line text =
      solid (line + (text.takeWhile Text.isBlank).count '\n') (text.dropWhile Text.isBlank) := by
  cases text with
  | nil => rfl
  | cons c rest =>
    cases hc : Text.isBlank c with
    | false => simp [hc]
    | true =>
      obtain ⟨n, -, hchars, hsolid⟩ := solid_cons line c rest
      rw [first_blank hc] at hchars hsolid
      have hdrop : rest.drop n = (c :: rest).dropWhile Text.isBlank := by
        have hsplit : (c :: rest).take (n + 1) ++ (c :: rest).drop (n + 1) =
            (c :: rest).takeWhile Text.isBlank ++ (c :: rest).dropWhile Text.isBlank := by
          rw [List.take_append_drop, List.takeWhile_append_dropWhile]
        rw [← hchars] at hsplit
        exact List.append_cancel_left hsplit
      rw [hsolid, ← hchars, hdrop]
      rfl

lemma solid_blanks {blanks : List Char} (h : ∀ c ∈ blanks, Text.isBlank c = true) (line : Nat)
    (text : List Char) : solid line (blanks ++ text) = solid (line + blanks.count '\n') text := by
  rw [solid_dropWhile line, solid_dropWhile (line + _) text, List.takeWhile_append_of_pos h,
    List.dropWhile_append_of_pos h, List.count_append, Nat.add_assoc]

lemma solid_line (line : Nat) (text behind : List Char)
    (h : ∀ entry ∈ solid line text, ¬ entry.2.IsOpen) :
    solid line (text ++ '\n' :: behind) =
      solid line text ++ solid (line + text.count '\n' + 1) behind := by
  induction hlength : text.length using Nat.strong_induction_on generalizing line text with
  | _ length ih =>
    subst hlength
    cases text with
    | nil =>
      have hnewline : ∀ c ∈ ['\n'], Text.isBlank c = true := by
        simp [Text.isBlank_newline]
      exact solid_blanks hnewline line behind
    | cons c rest =>
      cases hc : Text.isBlank c with
      | true =>
        have hsolid := solid_dropWhile line (c :: rest)
        have hblanks : ∀ d ∈ (c :: rest).takeWhile Text.isBlank, Text.isBlank d = true :=
          fun d hd => List.mem_takeWhile_imp hd
        have hsplit : (c :: rest).takeWhile Text.isBlank ++ (c :: rest).dropWhile Text.isBlank =
            c :: rest := List.takeWhile_append_dropWhile
        have hlt : ((c :: rest).dropWhile Text.isBlank).length < (c :: rest).length := by
          have hle := (List.dropWhile_sublist Text.isBlank (l := rest)).length_le
          simp only [List.dropWhile_cons, hc, if_true, List.length_cons]
          omega
        generalize (c :: rest).takeWhile Text.isBlank = blanks at *
        generalize (c :: rest).dropWhile Text.isBlank = after at *
        have hrest := ih after.length hlt (line + blanks.count '\n') after
          (fun entry he => h entry (hsolid ▸ he)) rfl
        rw [hsolid, ← hsplit, List.append_assoc, solid_blanks hblanks, hrest, List.count_append,
          Nat.add_assoc line]
      | false =>
        obtain ⟨n, hle, hchars, hsolid⟩ := solid_cons line c rest
        obtain ⟨n', hle', hchars', hsolid'⟩ := solid_cons line c (rest ++ '\n' :: behind)
        have hopen : ¬ (first c rest).IsOpen := by
          intro hopen
          refine h (line, first c rest) ?_ hopen
          have hcontent : (first c rest).content ≠ .trivia := by
            rcases hopen with hopen | hopen <;> simp [hopen]
          simp [hsolid, hcontent]
        rw [first_line hc hopen] at hchars' hsolid'
        obtain rfl : n = n' := by
          have hlengths := congrArg List.length (hchars.symm.trans hchars')
          simp only [List.length_take, List.length_cons] at hlengths
          omega
        have hcount : (c :: (rest ++ '\n' :: behind)).take (n + 1) = (c :: rest).take (n + 1) := by
          rw [← hchars, ← hchars']
        have hdrop : (rest ++ '\n' :: behind).drop n = rest.drop n ++ '\n' :: behind :=
          List.drop_append_of_le_length hle
        have htotal : (c :: rest).count '\n' =
            ((c :: rest).take (n + 1)).count '\n' + (rest.drop n).count '\n' := by
          rw [← List.count_append]
          exact congrArg _ (List.take_append_drop (n + 1) (c :: rest)).symm
        have hrest := ih (rest.drop n).length
          (by rw [List.length_drop, List.length_cons]; omega)
          (line + ((c :: rest).take (n + 1)).count '\n') (rest.drop n)
          (fun entry he => h entry (hsolid ▸ List.mem_append_right _ he)) rfl
        rw [List.cons_append, hsolid', hcount, hdrop, hrest, hsolid, htotal, List.append_assoc,
          Nat.add_assoc line]

/-- Blanks and comments matter to nothing but the lines. -/
lemma filterMap_numbered {α : Type} (f : Nat → Piece → Option α)
    (h : ∀ line piece, piece.content = .trivia → f line piece = none) (line : Nat) (text : List Char) :
    ((numbered line (cut text)).filterMap fun (line, piece) => f line piece) =
      (solid line text).filterMap fun (line, piece) => f line piece := by
  rw [solid, List.filterMap_filter]
  refine congrArg (List.filterMap · _) (funext fun (number, piece) => ?_)
  by_cases hcontent : piece.content = .trivia
  · simp [hcontent, h number piece hcontent]
  · simp [hcontent]

lemma numbered_add (line k : Nat) (pieces : List Piece) :
    numbered (line + k) pieces = (numbered line pieces).map fun entry => (entry.1 + k, entry.2) := by
  induction pieces generalizing line with
  | nil => rfl
  | cons piece pieces ih =>
    rw [numbered, numbered, Nat.add_right_comm, ih]
    rfl

lemma solid_add (line k : Nat) (text : List Char) :
    solid (line + k) text = (solid line text).map fun entry => (entry.1 + k, entry.2) := by
  rw [solid, numbered_add, List.filter_map, solid]
  rfl

lemma error?_of_trivia (line : Nat) (piece : Piece) (h : piece.content = .trivia) :
    piece.error? line = none := by
  rw [error?, h]

lemma token?_of_trivia (line : Nat) (piece : Piece) (h : piece.content = .trivia) :
    piece.token? line = none := by
  rw [token?, h]

lemma error?_eq_none_iff {line : Nat} {piece : Piece} (line' : Nat) :
    piece.error? line = none ↔ piece.error? line' = none := by
  unfold error?
  cases piece.content <;> simp

end Piece

def Token.onLine (f : Nat → Nat) (t : Token) : Token :=
  { t with line := f t.line }

lemma Piece.map_onLine (f : Nat → Nat) (line : Nat) (piece : Piece) :
    (piece.token? line).map (Token.onLine f) = piece.token? (f line) := by
  unfold token?
  cases piece.content <;> rfl

namespace Token

lemma scan_eq_ok_iff {source : String} {tokens : List Token} :
    scan source = .ok tokens ↔
      (∀ entry ∈ Piece.solid 1 source.toList, entry.2.error? entry.1 = none) ∧
        tokens = ((Piece.solid 1 source.toList).filterMap fun (line, piece) => piece.token? line) ++
          [endMark (1 + source.toList.count '\n')] := by
  have herrors := Piece.filterMap_numbered (fun line piece => piece.error? line)
    Piece.error?_of_trivia 1 source.toList
  have htokens := Piece.filterMap_numbered (fun line piece => piece.token? line)
    Piece.token?_of_trivia 1 source.toList
  rw [scan_eq_pieces, herrors, htokens]
  split
  · rename_i hnil
    rw [List.filterMap_eq_nil_iff] at hnil
    exact ⟨fun h => ⟨hnil, (Except.ok.inj h).symm⟩, fun h => by rw [h.2]⟩
  · rename_i hne
    refine ⟨fun h => by simp at h, fun h => ?_⟩
    exact absurd (List.filterMap_eq_nil_iff.mpr h.1) hne

/-- The tokens of two texts with a newline between: those of the first one without its end mark, then
those of the second one on later lines. -/
theorem scan_line {a b : String} {tokens tokens' : List Token} (ha : scan a = .ok tokens)
    (hb : scan b = .ok tokens') :
    scan (a ++ "\n" ++ b) =
      .ok (tokens.dropLast ++ tokens'.map (onLine (· + (a.toList.count '\n' + 1)))) := by
  obtain ⟨hok, rfl⟩ := scan_eq_ok_iff.mp ha
  obtain ⟨hok', rfl⟩ := scan_eq_ok_iff.mp hb
  have htext : (a ++ "\n" ++ b).toList = a.toList ++ '\n' :: b.toList := by simp
  have hsolid := Piece.solid_line 1 a.toList b.toList fun entry he => Piece.not_isOpen (hok entry he)
  rw [Nat.add_assoc, Piece.solid_add] at hsolid
  refine scan_eq_ok_iff.mpr ⟨fun entry he => ?_, ?_⟩
  · rw [htext, hsolid] at he
    rcases List.mem_append.mp he with he | he
    · exact hok entry he
    · obtain ⟨other, hother, rfl⟩ := List.mem_map.mp he
      exact (Piece.error?_eq_none_iff _).mp (hok' other hother)
  · rw [htext, hsolid, List.filterMap_append, List.filterMap_map, List.dropLast_concat, List.map_append,
      List.map_filterMap, List.append_assoc]
    refine congrArg (_ ++ ·) (congrArg₂ (· ++ ·) ?_ ?_)
    · refine congrArg (List.filterMap · _) (funext fun (line, piece) => ?_)
      exact Piece.map_onLine _ line piece
    · have hcount : (a.toList ++ '\n' :: b.toList).count '\n' =
          a.toList.count '\n' + 1 + b.toList.count '\n' := by
        rw [List.count_append, List.count_cons_self]
        omega
      rw [hcount, List.map_singleton, onLine, endMark, endMark]
      simp only [List.cons.injEq, Token.mk.injEq, and_true, true_and]
      omega

lemma takeWhile_of_scan {source : String} {tokens : List Token} (h : scan source = .ok tokens) :
    tokens.takeWhile (·.kind != .eof) = tokens.dropLast := by
  obtain rfl := scan_eq_ok h
  rw [List.dropLast_concat, List.takeWhile_append_of_pos]
  · exact List.append_nil _
  · intro t ht
    obtain ⟨text, n, hlongest, -⟩ := longest_of_mem_dropLast h (by rwa [List.dropLast_concat])
    simpa using Lexeme.ne_eof_of_longest hlongest

end Token

end Lox
