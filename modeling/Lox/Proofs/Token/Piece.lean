import Lox.Token.Scan
import Mathlib.Data.List.Basic
import Mathlib.Data.List.TakeWhile

/-! A text as a sequence of pieces: blanks and comments, tokens, and what is neither. A scan finds what
the pieces of the text hold. -/

namespace Lox

namespace Text

variable {p : Char → Bool} {text : List Char} {c : Char}

lemma length_takeWhile_lt (hc : p c = false) (h : c ∈ text) :
    (text.takeWhile p).length < text.length := by
  have hbegins := List.takeWhile_prefix p (l := text)
  refine Nat.lt_of_le_of_ne hbegins.length_le fun heq => ?_
  have hall := List.takeWhile_eq_self_iff.mp (hbegins.eq_of_length heq)
  simp [hall c h] at hc

end Text

namespace Lexeme

variable {α : Type} {text : List Char}

/-- What is read at the start of a text is some of it. -/
def Bounded (length? : List Char → Option Nat) : Prop :=
  ∀ text n, length? text = some n → 0 < n ∧ n ≤ text.length

lemma bounded_longest {rules : List (Rule α)} (hb : ∀ rule ∈ rules, Bounded rule.length?) {x : α}
    {n : Nat} (h : longest rules text = some (x, n)) : 0 < n ∧ n ≤ text.length := by
  induction rules generalizing x n with
  | nil => simp [longest] at h
  | cons rule rules ih =>
    obtain ⟨hbounded, hb⟩ := List.forall_mem_cons.mp hb
    rw [longest] at h
    rcases hn : rule.length? text with _ | m <;> rw [hn] at h
    · exact ih hb h
    · have hm := hbounded text m hn
      rcases hbest : longest rules text with _ | ⟨y, k⟩ <;> rw [hbest] at h <;> dsimp only at h
      · obtain ⟨-, rfl⟩ := Prod.mk.inj (Option.some.inj h)
        exact hm
      · split at h <;> obtain ⟨-, rfl⟩ := Prod.mk.inj (Option.some.inj h)
        · exact hm
        · exact ih hb hbest

section Rules

variable {p : Char → Bool}

lemma run?_eq_some {n : Nat} :
    run? p text = some n ↔ (text.takeWhile p).length = n ∧ 0 < n := by
  unfold run?
  split <;> rename_i hlength
  · rw [hlength]
    refine ⟨fun h => by simp at h, fun h => ?_⟩
    omega
  · rw [hlength, Option.some.injEq]
    refine ⟨fun h => ⟨h, by omega⟩, fun h => h.1⟩

lemma bounded_run? (p : Char → Bool) : Bounded (run? p) := by
  intro text n h
  obtain ⟨rfl, hpos⟩ := run?_eq_some.mp h
  exact ⟨hpos, (List.takeWhile_prefix p).length_le⟩

lemma bounded_fixed? {lexeme : List Char} (h : lexeme ≠ []) : Bounded (fixed? lexeme) := by
  intro text n hn
  simp only [fixed?, Option.ite_none_right_eq_some, Option.some.injEq] at hn
  obtain ⟨hbegins, rfl⟩ := hn
  exact ⟨List.length_pos_iff.mpr h, (List.isPrefixOf_iff_prefix.mp hbegins).length_le⟩

lemma bounded_identifier? : Bounded identifier? := by
  intro text n h
  cases text with
  | nil => simp [identifier?] at h
  | cons c rest =>
    simp only [identifier?, Option.ite_none_right_eq_some, Option.some.injEq] at h
    obtain ⟨-, rfl⟩ := h
    have hle := (List.takeWhile_prefix continuesIdentifier (l := rest)).length_le
    rw [List.length_cons]
    omega

lemma bounded_quoted? : Bounded quoted? := by
  intro text n h
  unfold quoted? at h
  split at h
  · rename_i rest
    simp only [Option.ite_none_right_eq_some, Option.some.injEq] at h
    obtain ⟨hmem, rfl⟩ := h
    have hlt := Text.length_takeWhile_lt (p := (· != '"')) (by simp) hmem
    rw [List.length_cons]
    omega
  · simp at h

lemma number?_eq_some {n : Nat} (h : number? text = some n) :
    ∃ whole, run? Char.isDigit text = some whole ∧
      (n = whole ∨ ∃ rest k, text.drop whole = '.' :: rest ∧ run? Char.isDigit rest = some k ∧
        n = whole + 1 + k) := by
  obtain ⟨whole, hwhole, hn⟩ := Option.map_eq_some_iff.mp h
  refine ⟨whole, hwhole, ?_⟩
  split at hn
  · rename_i rest hrest
    cases hk : run? Char.isDigit rest with
    | none => exact .inl (by simpa [hk] using hn.symm)
    | some k => exact .inr ⟨rest, k, hrest, hk, by simpa [hk] using hn.symm⟩
  · exact .inl hn.symm

lemma bounded_number? : Bounded number? := by
  intro text n h
  obtain ⟨whole, hwhole, rfl | ⟨rest, k, hrest, hk, rfl⟩⟩ := number?_eq_some h
  · exact bounded_run? _ text n hwhole
  · have hpos := (bounded_run? _ text whole hwhole).1
    have hle := (bounded_run? _ rest k hk).2
    have hlength := congrArg List.length hrest
    rw [List.length_drop, List.length_cons] at hlength
    omega

lemma bounded_lineComment? : Bounded lineComment? := by
  intro text n h
  unfold lineComment? at h
  split at h
  · rename_i rest
    obtain rfl := Option.some.inj h
    have hle := (List.takeWhile_prefix (· != '\n') (l := rest)).length_le
    simp only [List.length_cons]
    omega
  · simp at h

lemma closing?_eq_some {before n : Nat} (h : closing? before text = some n) (behind : List Char) :
    n + 2 ≤ before + text.length ∧ closing? before (text ++ behind) = some n := by
  induction text generalizing before with
  | nil => simp [closing?] at h
  | cons c rest ih =>
    by_cases hclosing : ∃ after, c = '*' ∧ rest = '/' :: after
    · obtain ⟨after, rfl, rfl⟩ := hclosing
      rw [closing?] at h
      obtain rfl := Option.some.inj h
      simp only [List.cons_append, closing?, List.length_cons, and_true]
      omega
    · have hskip (rest : List Char) (hnot : ¬ ∃ after, c = '*' ∧ rest = '/' :: after) :
          closing? before (c :: rest) = closing? (before + 1) rest := by
        rw [closing?]
        rintro after rfl rfl
        exact hnot ⟨after, rfl, rfl⟩
      rw [hskip rest hclosing] at h
      obtain ⟨hle, hbehind⟩ := ih h
      rw [List.cons_append, hskip, hbehind, List.length_cons]
      · exact ⟨by omega, rfl⟩
      · rintro ⟨after, hc, hafter⟩
        cases rest with
        | nil => simp [closing?] at h
        | cons d rest =>
          exact hclosing ⟨rest, hc, by rw [(List.cons.inj hafter).1]⟩

lemma bounded_blockComment? : Bounded blockComment? := by
  intro text n h
  unfold blockComment? at h
  split at h
  · obtain ⟨k, hk, rfl⟩ := Option.map_eq_some_iff.mp h
    have hle := (closing?_eq_some hk []).1
    simp only [List.length_cons]
    omega
  · simp at h

lemma comment_cases (text : List Char) :
    (∃ rest, text = '/' :: '/' :: rest) ∨ (∃ rest, text = '/' :: '*' :: rest) ∨
      lineComment? text = none ∧ blockComment? text = none ∧ opensComment text = false := by
  unfold lineComment? blockComment? opensComment
  rcases text with _ | ⟨c, _ | ⟨d, rest⟩⟩
  · simp
  · simp
  · by_cases hc : c = '/'
    · by_cases hline : d = '/'
      · exact .inl ⟨rest, by rw [hc, hline]⟩
      · by_cases hblock : d = '*'
        · exact .inr (.inl ⟨rest, by rw [hc, hblock]⟩)
        · simp [hline, hblock]
    · simp [hc]

lemma bounded_trivia {rule : Rule Unit} (h : rule ∈ triviaRules) : Bounded rule.length? := by
  obtain ⟨length?, hlength, rfl⟩ := List.mem_map.mp h
  simp only [List.mem_cons, List.not_mem_nil, or_false] at hlength
  rcases hlength with rfl | rfl | rfl
  · exact bounded_run? _
  · exact bounded_lineComment?
  · exact bounded_blockComment?

lemma bounded_token {rule : Rule (Token.Kind × Option Literal)} (h : rule ∈ tokenRules) :
    Bounded rule.length? := by
  have hlexemes : ∀ entry ∈ Token.Kind.symbols ++ Token.Kind.keywords, entry.1.toList ≠ [] := by decide
  rcases List.mem_append.mp h with h | h
  · obtain ⟨entry, he, rfl⟩ := List.mem_map.mp h
    exact bounded_fixed? (hlexemes entry he)
  · simp only [List.mem_cons, List.not_mem_nil, or_false] at h
    rcases h with rfl | rfl | rfl
    · exact bounded_identifier?
    · exact bounded_quoted?
    · exact bounded_number?

end Rules

end Lexeme

inductive Piece.Content
  | trivia
  | token (kind : Token.Kind) (literal : Option Literal)
  | stray (c : Char)
  | openString
  | openComment
deriving DecidableEq, Repr

structure Piece where
  content : Piece.Content
  chars : List Char
deriving DecidableEq, Repr

namespace Piece

/-- The first piece of the text `c :: rest`. A string or a comment that never ends takes all of it,
and a character that begins no token is a piece of its own. -/
def first (c : Char) (rest : List Char) : Piece :=
  let text := c :: rest
  if Lexeme.opensComment text then ⟨.openComment, text⟩
  else
    match Lexeme.longest Lexeme.triviaRules text with
    | some (_, n) => ⟨.trivia, text.take n⟩
    | none =>
      if Lexeme.opensString text then ⟨.openString, text⟩
      else
        match Lexeme.longest Lexeme.tokenRules text with
        | some ((kind, literal), n) => ⟨.token kind literal, text.take n⟩
        | none => ⟨.stray c, [c]⟩

/-- The pieces of a text after the first `skip` characters. -/
def cutFrom : (skip : Nat) → List Char → List Piece
  | _, [] => []
  | skip + 1, _ :: rest => cutFrom skip rest
  | 0, c :: rest =>
    let piece := first c rest
    piece :: cutFrom (piece.chars.length - 1) rest

def cut (text : List Char) : List Piece :=
  cutFrom 0 text

/-- The pieces, each with its line, when the first is on the given line. -/
def numbered : (line : Nat) → List Piece → List (Nat × Piece)
  | _, [] => []
  | line, piece :: pieces => (line, piece) :: numbered (line + piece.chars.count '\n') pieces

theorem cutFrom_eq_cut_drop (skip : Nat) (text : List Char) :
    cutFrom skip text = cut (text.drop skip) := by
  induction text generalizing skip with
  | nil => simp [cutFrom, cut]
  | cons c rest ih =>
    cases skip with
    | zero => rfl
    | succ skip => simpa [cutFrom] using ih skip

theorem cut_cons (c : Char) (rest : List Char) :
    cut (c :: rest) = first c rest :: cut (rest.drop ((first c rest).chars.length - 1)) := by
  rw [cut, cutFrom, cutFrom_eq_cut_drop]

def error? (line : Nat) (piece : Piece) : Option ScanError :=
  match piece.content with
  | .stray c => some ⟨.unexpectedCharacter c, line⟩
  | .openString => some ⟨.unterminatedString, line⟩
  | .openComment => some ⟨.unterminatedComment, line⟩
  | .trivia | .token .. => none

def token? (line : Nat) (piece : Piece) : Option Token :=
  match piece.content with
  | .token kind literal => some ⟨kind, String.ofList piece.chars, literal, line⟩
  | _ => none

/-- A string or a comment that never ends. -/
def IsOpen (piece : Piece) : Prop :=
  piece.content = .openString ∨ piece.content = .openComment

lemma not_isOpen {line : Nat} {piece : Piece} (h : piece.error? line = none) : ¬ piece.IsOpen := by
  rintro (hopen | hopen) <;> simp [error?, hopen] at h

lemma map_snd_numbered (line : Nat) (pieces : List Piece) :
    (numbered line pieces).map Prod.snd = pieces := by
  induction pieces generalizing line with
  | nil => rfl
  | cons piece pieces ih => rw [numbered, List.map_cons, ih]

lemma first_blank {c : Char} (hc : Text.isBlank c = true) (rest : List Char) :
    first c rest = ⟨.trivia, (c :: rest).takeWhile Text.isBlank⟩ := by
  have hslash : c ≠ '/' := by
    rintro rfl
    exact absurd hc (by decide)
  rcases Lexeme.comment_cases (c :: rest) with ⟨_, heq⟩ | ⟨_, heq⟩ | ⟨hline, hblock, hopens⟩
  · exact absurd (List.cons.inj heq).1 hslash
  · exact absurd (List.cons.inj heq).1 hslash
  · have hrun : Lexeme.run? Text.isBlank (c :: rest) =
        some ((c :: rest).takeWhile Text.isBlank).length :=
      Lexeme.run?_eq_some.mpr ⟨rfl, by simp [hc]⟩
    have htrivia : Lexeme.longest Lexeme.triviaRules (c :: rest) =
        some ((), ((c :: rest).takeWhile Text.isBlank).length) := by
      simp only [Lexeme.triviaRules, List.map_cons, List.map_nil, Lexeme.longest, hline, hblock, hrun]
    have htake : (c :: rest).take ((c :: rest).takeWhile Text.isBlank).length =
        (c :: rest).takeWhile Text.isBlank :=
      (List.prefix_iff_eq_take.mp (List.takeWhile_prefix _)).symm
    simp only [first, hopens, htrivia, htake, Bool.false_eq_true, if_false]

/-- What the first piece of a text can be, and when. -/
lemma first_cases (c : Char) (rest : List Char) :
    Lexeme.opensComment (c :: rest) = true ∧ first c rest = ⟨.openComment, c :: rest⟩ ∨
      Lexeme.opensComment (c :: rest) = false ∧
        ((∃ u n, Lexeme.longest Lexeme.triviaRules (c :: rest) = some (u, n) ∧
            first c rest = ⟨.trivia, (c :: rest).take n⟩) ∨
          Lexeme.longest Lexeme.triviaRules (c :: rest) = none ∧
            (Lexeme.opensString (c :: rest) = true ∧ first c rest = ⟨.openString, c :: rest⟩ ∨
              Lexeme.opensString (c :: rest) = false ∧
                ((∃ kind literal n,
                    Lexeme.longest Lexeme.tokenRules (c :: rest) = some ((kind, literal), n) ∧
                      first c rest = ⟨.token kind literal, (c :: rest).take n⟩) ∨
                  Lexeme.longest Lexeme.tokenRules (c :: rest) = none ∧
                    first c rest = ⟨.stray c, [c]⟩))) := by
  unfold first
  dsimp only
  split
  · rename_i hopens
    exact .inl ⟨hopens, rfl⟩
  · rename_i hopens
    refine .inr ⟨eq_false_of_ne_true hopens, ?_⟩
    split
    · rename_i u n htrivia
      exact .inl ⟨u, n, htrivia, rfl⟩
    · rename_i htrivia
      refine .inr ⟨htrivia, ?_⟩
      split
      · rename_i hstring
        exact .inl ⟨hstring, rfl⟩
      · rename_i hstring
        refine .inr ⟨eq_false_of_ne_true hstring, ?_⟩
        split
        · rename_i kind literal n htoken
          exact .inl ⟨kind, literal, n, htoken, rfl⟩
        · rename_i htoken
          exact .inr ⟨htoken, rfl⟩

lemma exists_take (c : Char) (rest : List Char) :
    ∃ n ≤ rest.length, (first c rest).chars = (c :: rest).take (n + 1) := by
  have hlength {n : Nat} (h : 0 < n ∧ n ≤ (c :: rest).length) :
      ∃ m ≤ rest.length, (c :: rest).take n = (c :: rest).take (m + 1) := by
    obtain ⟨m, rfl⟩ := Nat.exists_eq_succ_of_ne_zero (Nat.ne_of_gt h.1)
    exact ⟨m, Nat.le_of_succ_le_succ h.2, rfl⟩
  have hall : ∃ m ≤ rest.length, c :: rest = (c :: rest).take (m + 1) :=
    ⟨rest.length, Nat.le_refl _, (List.take_length (l := c :: rest)).symm⟩
  rcases first_cases c rest with ⟨-, hfirst⟩ | ⟨-, ⟨u, n, htrivia, hfirst⟩ | ⟨-, ⟨-, hfirst⟩ |
    ⟨-, ⟨kind, literal, n, htoken, hfirst⟩ | ⟨-, hfirst⟩⟩⟩⟩ <;> rw [hfirst]
  · exact hall
  · exact hlength (Lexeme.bounded_longest (fun rule => Lexeme.bounded_trivia) htrivia)
  · exact hall
  · exact hlength (Lexeme.bounded_longest (fun rule => Lexeme.bounded_token) htoken)
  · exact ⟨0, Nat.zero_le _, rfl⟩

lemma chars_of_isOpen {c : Char} {rest : List Char} (h : (first c rest).IsOpen) :
    (first c rest).chars = c :: rest := by
  rcases first_cases c rest with ⟨-, hfirst⟩ | ⟨-, ⟨u, n, -, hfirst⟩ | ⟨-, ⟨-, hfirst⟩ |
    ⟨-, ⟨kind, literal, n, -, hfirst⟩ | ⟨-, hfirst⟩⟩⟩⟩ <;> rw [hfirst] at h ⊢
  all_goals simp [IsOpen] at h

lemma first_stray {c d : Char} {rest : List Char} (h : (first c rest).content = .stray d) :
    (first c rest).chars = [c] ∧ Text.isBlank c = false := by
  refine ⟨?_, ?_⟩
  · rcases first_cases c rest with ⟨-, hfirst⟩ | ⟨-, ⟨u, n, -, hfirst⟩ | ⟨-, ⟨-, hfirst⟩ |
      ⟨-, ⟨kind, literal, n, -, hfirst⟩ | ⟨-, hfirst⟩⟩⟩⟩ <;> rw [hfirst] at h ⊢
    all_goals simp at h
  · by_contra hblank
    rw [first_blank (eq_true_of_ne_false hblank)] at h
    simp at h

end Piece

namespace Scanner

def read (s : Scanner) (piece : Piece) : Scanner :=
  match piece.content with
  | .trivia => s.pass piece.chars
  | .token kind literal => s.push kind literal piece.chars
  | .stray c => s.fail (.unexpectedCharacter c)
  | .openString => s.fail .unterminatedString
  | .openComment => s.fail .unterminatedComment

lemma step_eq_read (s : Scanner) (c : Char) (rest : List Char) :
    s.step c rest = (s.read (Piece.first c rest), (Piece.first c rest).chars.length) := by
  have htake {n : Nat} (h : n ≤ (c :: rest).length) : ((c :: rest).take n).length = n := by
    rw [List.length_take, Nat.min_eq_left h]
  rcases Piece.first_cases c rest with ⟨hopens, hfirst⟩ | ⟨hopens, ⟨u, n, htrivia, hfirst⟩ |
    ⟨htrivia, ⟨hstring, hfirst⟩ | ⟨hstring, ⟨kind, literal, n, htoken, hfirst⟩ | ⟨htoken, hfirst⟩⟩⟩⟩
  · simp only [hfirst, step, hopens, if_true, read]
  · have hle := (Lexeme.bounded_longest (fun rule => Lexeme.bounded_trivia) htrivia).2
    simp only [hfirst, step, hopens, htrivia, Bool.false_eq_true, if_false, read, htake hle]
  · simp only [hfirst, step, hopens, htrivia, hstring, Bool.false_eq_true, if_false, if_true, read]
  · have hle := (Lexeme.bounded_longest (fun rule => Lexeme.bounded_token) htoken).2
    simp only [hfirst, step, hopens, htrivia, hstring, htoken, Bool.false_eq_true, if_false, read,
      htake hle]
  · simp only [hfirst, step, hopens, htrivia, hstring, htoken, Bool.false_eq_true, if_false, read,
      List.length_singleton]

lemma run_eq_foldl (behind : Nat) (s : Scanner) (text : List Char) :
    run behind s text = (Piece.cutFrom behind text).foldl read s := by
  induction text generalizing behind s with
  | nil => rw [run, Piece.cutFrom, List.foldl_nil]
  | cons c rest ih =>
    cases behind with
    | succ behind => rw [run, Piece.cutFrom, ih]
    | zero =>
      rw [run, step_eq_read, Piece.cutFrom, List.foldl_cons]
      exact ih _ _

lemma read_tokens (s : Scanner) (piece : Piece) :
    (s.read piece).tokens = s.tokens ++ (piece.token? s.line).toList := by
  unfold read Piece.token?
  cases piece.content <;> simp [pass, push, fail]

lemma read_errors (s : Scanner) (piece : Piece) :
    (s.read piece).errors = s.errors ++ (piece.error? s.line).toList := by
  unfold read Piece.error?
  cases piece.content <;> simp [pass, push, fail]

/-- The scanner counts lines in blanks, comments and tokens only: no stray character is a newline, and
nothing comes after a string or a comment that never ends. -/
lemma read_line (s : Scanner) {c : Char} {rest : List Char} (h : ¬ (Piece.first c rest).IsOpen) :
    (s.read (Piece.first c rest)).line = s.line + (Piece.first c rest).chars.count '\n' := by
  unfold read
  cases hcontent : (Piece.first c rest).content with
  | trivia | token => rfl
  | openString => exact absurd (.inl hcontent) h
  | openComment => exact absurd (.inr hcontent) h
  | stray d =>
    obtain ⟨hchars, hblank⟩ := Piece.first_stray hcontent
    have hne : c ≠ '\n' := by
      rintro rfl
      rw [Text.isBlank_newline] at hblank
      simp at hblank
    rw [hchars, List.count_singleton, beq_false_of_ne hne]
    rfl

/-- Behind the first piece the scanner is on the line it should be on, if anything is there. -/
lemma numbered_read (s : Scanner) (c : Char) (rest : List Char) :
    let piece := Piece.first c rest
    let behind := Piece.cut (rest.drop (piece.chars.length - 1))
    Piece.numbered (s.read piece).line behind =
      Piece.numbered (s.line + piece.chars.count '\n') behind := by
  intro piece behind
  by_cases hopen : piece.IsOpen
  · have hnil : behind = [] := by
      dsimp only [behind]
      rw [Piece.chars_of_isOpen hopen, List.length_cons, Nat.add_sub_cancel, List.drop_length]
      rfl
    rw [hnil]
    rfl
  · rw [read_line s hopen]

lemma foldl_read_cut (text : List Char) (s : Scanner) :
    ((Piece.cut text).foldl read s).tokens =
        s.tokens ++ (Piece.numbered s.line (Piece.cut text)).filterMap
          (fun entry => entry.2.token? entry.1) ∧
      ((Piece.cut text).foldl read s).errors =
        s.errors ++ (Piece.numbered s.line (Piece.cut text)).filterMap
          (fun entry => entry.2.error? entry.1) := by
  induction hlength : text.length using Nat.strong_induction_on generalizing text s with
  | _ length ih =>
    subst hlength
    cases text with
    | nil => simp [Piece.cut, Piece.cutFrom, Piece.numbered]
    | cons c rest =>
      have hlt : (rest.drop ((Piece.first c rest).chars.length - 1)).length < (c :: rest).length := by
        rw [List.length_drop, List.length_cons]
        omega
      obtain ⟨htokens, herrors⟩ := ih _ hlt _ (s.read (Piece.first c rest)) rfl
      rw [Piece.cut_cons, List.foldl_cons, Piece.numbered, htokens, herrors, numbered_read, read_tokens,
        read_errors]
      simp only [List.filterMap_eq_flatMap_toList, List.flatMap_cons, List.append_assoc, and_self]

/-- A scan that meets no piece without end counts the newlines. -/
lemma line_foldl_read_cut (text : List Char) (s : Scanner)
    (h : ∀ piece ∈ Piece.cut text, ¬ piece.IsOpen) :
    ((Piece.cut text).foldl read s).line = s.line + text.count '\n' := by
  induction hlength : text.length using Nat.strong_induction_on generalizing text s with
  | _ length ih =>
    subst hlength
    cases text with
    | nil => rfl
    | cons c rest =>
      obtain ⟨n, hle, hchars⟩ := Piece.exists_take c rest
      have hbehind : (Piece.first c rest).chars.length - 1 = n := by
        rw [hchars, List.length_take, List.length_cons]
        omega
      have hcount : (c :: rest).count '\n' =
          (Piece.first c rest).chars.count '\n' + (rest.drop n).count '\n' := by
        rw [hchars, ← List.count_append]
        exact congrArg _ (List.take_append_drop (n + 1) (c :: rest)).symm
      have hlt : (rest.drop n).length < (c :: rest).length := by
        rw [List.length_drop, List.length_cons]
        omega
      rw [Piece.cut_cons, hbehind] at h ⊢
      obtain ⟨hopen, hrest⟩ := List.forall_mem_cons.mp h
      rw [List.foldl_cons, ih _ hlt _ _ hrest rfl, read_line s hopen, hcount, Nat.add_assoc]

end Scanner

namespace Token

/-- The tokens of a text are those of its pieces, and so are its faults. -/
lemma scan_eq_pieces (source : String) :
    let pieces := Piece.numbered 1 (Piece.cut source.toList)
    scan source =
      if pieces.filterMap (fun entry => entry.2.error? entry.1) = [] then
        .ok (pieces.filterMap (fun entry => entry.2.token? entry.1) ++
          [endMark (1 + source.toList.count '\n')])
      else .error (pieces.filterMap fun entry => entry.2.error? entry.1) := by
  intro pieces
  have hrun : Scanner.run 0 .start source.toList = (Piece.cut source.toList).foldl Scanner.read .start :=
    Scanner.run_eq_foldl 0 .start source.toList
  obtain ⟨htokens, herrors⟩ := Scanner.foldl_read_cut source.toList .start
  have hfound : (Scanner.run 0 .start source.toList).tokens =
      pieces.filterMap fun entry => entry.2.token? entry.1 := by rw [hrun, htokens]; rfl
  have hfaults : (Scanner.run 0 .start source.toList).errors =
      pieces.filterMap fun entry => entry.2.error? entry.1 := by rw [hrun, herrors]; rfl
  unfold scan
  dsimp only
  split
  · rename_i hnil
    rw [hfaults] at hnil
    have hopen : ∀ piece ∈ Piece.cut source.toList, ¬ piece.IsOpen := by
      rw [← Piece.map_snd_numbered 1 (Piece.cut source.toList)]
      refine List.forall_mem_map.mpr fun entry he => ?_
      exact Piece.not_isOpen (List.filterMap_eq_nil_iff.mp hnil entry he)
    rw [if_pos hnil, hfound, hrun, Scanner.line_foldl_read_cut _ _ hopen]
    rfl
  · rename_i hne
    rw [hfaults] at hne
    rw [if_neg hne, hfaults]

end Token

end Lox
