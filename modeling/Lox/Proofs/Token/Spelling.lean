import Lox.Proofs.Token.Seam
import Mathlib

/-! What tokens, blanks and comments look like, and that the rules for the start of a text find the
longest of them there. -/

namespace Lox

namespace Lexeme

/-- Characters that stand between tokens: blanks, or a comment. -/
inductive Separates : List Char → Prop
  | blanks {chars} : chars ≠ [] → (∀ c ∈ chars, Text.isBlank c = true) → Separates chars
  | lineComment {body} : '\n' ∉ body → Separates ('/' :: '/' :: body)
  | blockComment {body} : ¬ ['*', '/'] <:+: body → Separates ('/' :: '*' :: (body ++ ['*', '/']))

/-- Characters that are a token of a kind, and the literal that it stands for. -/
inductive Spells : Token.Kind → Option Literal → List Char → Prop
  | fixed {entry} : entry ∈ Token.Kind.symbols ++ Token.Kind.keywords →
      Spells entry.2 none entry.1.toList
  | identifier {c rest} : beginsIdentifier c = true →
      (∀ d ∈ rest, continuesIdentifier d = true) →
      (∀ entry ∈ Token.Kind.keywords, c :: rest ≠ entry.1.toList) →
      Spells .identifier none (c :: rest)
  | quoted {body} : '"' ∉ body →
      Spells .string (some (.text (String.ofList body))) ('"' :: (body ++ ['"']))
  | whole {digits} : digits ≠ [] → (∀ c ∈ digits, c.isDigit = true) →
      Spells .number (some (.number (Decimal.nearest digits []))) digits
  | decimal {digits fraction} : digits ≠ [] → (∀ c ∈ digits, c.isDigit = true) →
      fraction ≠ [] → (∀ c ∈ fraction, c.isDigit = true) →
      Spells .number (some (.number (Decimal.nearest digits fraction))) (digits ++ '.' :: fraction)

def IsToken (chars : List Char) : Prop :=
  ∃ kind literal, Spells kind literal chars

lemma Separates.ne_nil {chars : List Char} (h : Separates chars) : chars ≠ [] := by
  cases h with
  | blanks hne => exact hne
  | lineComment | blockComment => exact List.cons_ne_nil _ _

lemma Spells.ne_nil {kind : Token.Kind} {literal : Option Literal} {chars : List Char}
    (h : Spells kind literal chars) : chars ≠ [] := by
  cases h with
  | fixed he =>
    have hlexemes : ∀ entry ∈ Token.Kind.symbols ++ Token.Kind.keywords, entry.1.toList ≠ [] := by
      decide
    exact hlexemes _ he
  | whole hne => exact hne
  | decimal hne => exact List.append_ne_nil_of_left_ne_nil hne _
  | identifier | quoted => exact List.cons_ne_nil _ _

/-- The kind and the literal of a token, read off its characters. -/
def classify (chars : List Char) : Token.Kind × Option Literal :=
  match (Token.Kind.symbols ++ Token.Kind.keywords).find? (·.1.toList = chars) with
  | some entry => (entry.2, none)
  | none =>
    if chars.headI = '"' then (.string, some (.text (quotedValue chars)))
    else if chars.headI.isDigit then (.number, some (.number (numberValue chars)))
    else (.identifier, none)

/-- No more characters of the text do. -/
def IsLongest (p : List Char → Prop) (chars behind : List Char) : Prop :=
  p chars ∧ ∀ more, more ≠ [] → more <+: behind → ¬ p (chars ++ more)

lemma IsLongest.length_le {p : List Char → Prop} {chars behind other : List Char}
    (h : IsLongest p chars behind) (hp : p other) (hbegins : other <+: chars ++ behind) :
    other.length ≤ chars.length := by
  by_contra hlt
  obtain ⟨more, rfl⟩ := List.prefix_of_prefix_length_le (List.prefix_append chars behind) hbegins
    (Nat.le_of_not_le hlt)
  have hne : more ≠ [] := by
    rintro rfl
    simp at hlt
  exact h.2 more hne ((List.prefix_append_right_inj chars).mp hbegins) hp

lemma IsLongest.unique {p : List Char → Prop} {chars behind chars' behind' : List Char}
    (h : IsLongest p chars behind) (h' : IsLongest p chars' behind')
    (htext : chars ++ behind = chars' ++ behind') : chars = chars' := by
  have hbegins : chars <+: chars' ++ behind' := by
    rw [← htext]
    exact List.prefix_append chars behind
  have hbegins' : chars' <+: chars ++ behind := by
    rw [htext]
    exact List.prefix_append chars' behind'
  have hlength := Nat.le_antisymm (h'.length_le h.1 hbegins) (h.length_le h'.1 hbegins')
  exact (List.append_inj htext hlength).1

/-- Of what is so at the start of a text the rules find one at least as long. -/
def Reaches {α : Type} (rules : List (Rule α)) (p : List Char → Prop) : Prop :=
  ∀ text chars, p chars → chars <+: text →
    ∃ rule ∈ rules, ∃ m, rule.length? text = some m ∧ chars.length ≤ m

section Longest

variable {α : Type} {rules : List (Rule α)} {text : List Char} {p : List Char → Prop}

lemma longest_eq_none (h : longest rules text = none) : ∀ rule ∈ rules, rule.length? text = none := by
  induction rules with
  | nil => simp
  | cons rule rules ih =>
    rw [longest] at h
    cases hn : rule.length? text with
    | some n => cases hbest : longest rules text <;> simp [hn, hbest] at h
    | none =>
      rw [hn] at h
      exact List.forall_mem_cons.mpr ⟨hn, ih h⟩

lemma le_longest {x : α} {n : Nat} (h : longest rules text = some (x, n)) :
    ∀ rule ∈ rules, ∀ m, rule.length? text = some m → m ≤ n := by
  induction rules generalizing x n with
  | nil => simp
  | cons rule rules ih =>
    rw [longest] at h
    refine List.forall_mem_cons.mpr ⟨fun m hm => ?_, fun other ho m hm => ?_⟩
    · rcases hbest : longest rules text with _ | ⟨y, k⟩ <;> simp only [hm, hbest] at h
      · exact Nat.le_of_eq (Prod.mk.inj (Option.some.inj h)).2
      · split at h <;> obtain ⟨-, rfl⟩ := Prod.mk.inj (Option.some.inj h) <;> omega
    · rcases hbest : longest rules text with _ | ⟨y, k⟩
      · rw [longest_eq_none hbest other ho] at hm
        simp at hm
      · have hle := ih hbest other ho m hm
        rcases hn : rule.length? text with _ | l <;> simp only [hn, hbest] at h
        · obtain ⟨-, rfl⟩ := Prod.mk.inj (Option.some.inj h)
          exact hle
        · split at h <;> obtain ⟨-, rfl⟩ := Prod.mk.inj (Option.some.inj h) <;> omega

lemma Reaches.isLongest (hr : Reaches rules p) {x : α} {n : Nat}
    (h : longest rules text = some (x, n)) (hn : n ≤ text.length) (hp : p (text.take n)) :
    IsLongest p (text.take n) (text.drop n) := by
  refine ⟨hp, fun more hne hmore hlonger => ?_⟩
  have hbegins : text.take n ++ more <+: text := by
    have := (List.prefix_append_right_inj (text.take n)).mpr hmore
    rwa [List.take_append_drop] at this
  obtain ⟨rule, hrule, m, hm, hle⟩ := hr text _ hlonger hbegins
  have hmax := le_longest h rule hrule m hm
  have hpos := List.length_pos_iff.mpr hne
  rw [List.length_append, List.length_take, Nat.min_eq_left hn] at hle
  omega

lemma Reaches.none (hr : Reaches rules p) (h : longest rules text = none) {chars : List Char}
    (hbegins : chars <+: text) : ¬ p chars := by
  intro hp
  obtain ⟨rule, hrule, m, hm, -⟩ := hr text chars hp hbegins
  rw [longest_eq_none h rule hrule] at hm
  simp at hm

end Longest

section Runs

variable {q : Char → Bool} {text : List Char}

lemma take_length_takeWhile (q : Char → Bool) (text : List Char) :
    text.take (text.takeWhile q).length = text.takeWhile q :=
  (List.prefix_iff_eq_take.mp (List.takeWhile_prefix q)).symm

lemma length_le_takeWhile {chars : List Char} (h : ∀ c ∈ chars, q c = true)
    (hbegins : chars <+: text) : chars.length ≤ (text.takeWhile q).length := by
  obtain ⟨behind, rfl⟩ := hbegins
  rw [List.takeWhile_append_of_pos h, List.length_append]
  exact Nat.le_add_right ..

lemma run?_reaches {chars : List Char} (hne : chars ≠ []) (h : ∀ c ∈ chars, q c = true)
    (hbegins : chars <+: text) : ∃ m, run? q text = some m ∧ chars.length ≤ m := by
  have hle := length_le_takeWhile h hbegins
  have hpos := List.length_pos_iff.mpr hne
  exact ⟨_, run?_eq_some.mpr ⟨rfl, by omega⟩, hle⟩

lemma run?_exact {chars : List Char} (hne : chars ≠ []) (h : ∀ c ∈ chars, q c = true) {c : Char}
    (hc : q c = false) (behind : List Char) : run? q (chars ++ c :: behind) = some chars.length := by
  have htake : (chars ++ c :: behind).takeWhile q = chars := by
    rw [List.takeWhile_append_of_pos h]
    simp [hc]
  exact run?_eq_some.mpr ⟨by rw [htake], List.length_pos_iff.mpr hne⟩

end Runs

section Heads

/-- No symbol and no keyword begins like another token, but a keyword like an identifier. -/
lemma headI_fixed : ∀ entry ∈ Token.Kind.symbols ++ Token.Kind.keywords,
    Text.isBlank entry.1.toList.headI = false ∧ entry.1.toList.headI ≠ '"' ∧
      entry.1.toList.headI.isDigit = false := by
  decide

lemma headI_symbol : ∀ entry ∈ Token.Kind.symbols,
    beginsIdentifier entry.1.toList.headI = false := by
  decide

lemma find?_fixed : ∀ entry ∈ Token.Kind.symbols ++ Token.Kind.keywords,
    (Token.Kind.symbols ++ Token.Kind.keywords).find? (·.1.toList = entry.1.toList) = some entry := by
  decide

lemma not_blank_of_range {c : Char} (h : 33 ≤ c.toNat ∧ c.toNat ≤ 126) :
    Text.isBlank c = false := by
  rw [← Bool.not_eq_true, Text.isBlank_iff]
  simp only [Text.blankRanges, List.mem_cons, List.not_mem_nil, or_false]
  rintro ⟨r, hr, hle, hge⟩
  rcases hr with rfl | rfl | rfl | rfl | rfl | rfl | rfl | rfl | rfl | rfl <;> omega

lemma range_of_digit {c : Char} (h : c.isDigit = true) : 48 ≤ c.toNat ∧ c.toNat ≤ 57 := by
  simpa [Char.isDigit, UInt32.le_iff_toNat_le] using h

lemma range_of_begins {c : Char} (h : beginsIdentifier c = true) : 65 ≤ c.toNat ∧ c.toNat ≤ 122 := by
  simp only [beginsIdentifier, Char.isAlpha, Char.isUpper, Char.isLower, Bool.or_eq_true,
    Bool.and_eq_true, decide_eq_true_eq, beq_iff_eq, ge_iff_le, UInt32.le_iff_toNat_le,
    Char.toNat_val, Char.reduceToNat] at h
  rcases h with (⟨hle, hge⟩ | ⟨hle, hge⟩) | rfl
  · omega
  · omega
  · decide

lemma ne_of_headI {entry : String × Token.Kind} {c : Char} {rest : List Char}
    (h : entry.1.toList.headI ≠ c) : entry.1.toList ≠ c :: rest := by
  intro heq
  rw [heq] at h
  exact h rfl

lemma classify_of_notMem {c : Char} {rest : List Char}
    (h : ∀ entry ∈ Token.Kind.symbols ++ Token.Kind.keywords, entry.1.toList ≠ c :: rest) :
    classify (c :: rest) =
      if c = '"' then (.string, some (.text (quotedValue (c :: rest))))
      else if c.isDigit then (.number, some (.number (numberValue (c :: rest))))
      else (.identifier, none) := by
  have hnone : (Token.Kind.symbols ++ Token.Kind.keywords).find? (·.1.toList = c :: rest) = none :=
    List.find?_eq_none.mpr fun entry he => by simpa using h entry he
  rw [classify, hnone]
  rfl

end Heads

section Comments

variable {before n : Nat} {body text : List Char}

lemma closing?_skip {c : Char} (h : ¬ ∃ behind, c = '*' ∧ text = '/' :: behind) :
    closing? before (c :: text) = closing? (before + 1) text := by
  rw [closing?]
  rintro behind rfl rfl
  exact h ⟨behind, rfl, rfl⟩

lemma not_infix_cons {c : Char} (h : ¬ ['*', '/'] <:+: c :: text) :
    (¬ ∃ behind, c = '*' ∧ text = '/' :: behind) ∧ ¬ ['*', '/'] <:+: text := by
  rw [List.infix_cons_iff, not_or] at h
  refine ⟨?_, h.2⟩
  rintro ⟨behind, rfl, rfl⟩
  exact h.1 (List.prefix_append ['*', '/'] behind)

lemma closing?_exact (h : ¬ ['*', '/'] <:+: body) (behind : List Char) :
    closing? before (body ++ '*' :: '/' :: behind) = some (before + body.length) := by
  induction body generalizing before with
  | nil => rfl
  | cons c body ih =>
    obtain ⟨hclosing, hbody⟩ := not_infix_cons h
    rw [List.cons_append, closing?_skip, ih hbody, List.length_cons]
    · congr 1
      omega
    · rintro ⟨rest, rfl, hrest⟩
      cases body with
      | nil => simp at hrest
      | cons d body =>
        obtain rfl : d = '/' := (List.cons.inj hrest).1
        exact hclosing ⟨body, rfl, rfl⟩

lemma closing?_sound (h : closing? before text = some n) :
    ∃ body behind, text = body ++ '*' :: '/' :: behind ∧ ¬ ['*', '/'] <:+: body ∧
      n = before + body.length := by
  induction text generalizing before with
  | nil => simp [closing?] at h
  | cons c text ih =>
    by_cases hclosing : ∃ behind, c = '*' ∧ text = '/' :: behind
    · obtain ⟨behind, rfl, rfl⟩ := hclosing
      rw [closing?] at h
      exact ⟨[], behind, rfl, by simp, (Option.some.inj h).symm⟩
    · rw [closing?_skip hclosing] at h
      obtain ⟨body, behind, rfl, hbody, rfl⟩ := ih h
      refine ⟨c :: body, behind, rfl, ?_, by rw [List.length_cons]; omega⟩
      rw [List.infix_cons_iff, not_or]
      refine ⟨fun hbegins => hclosing ?_, hbody⟩
      obtain ⟨rest, hrest⟩ := hbegins
      obtain ⟨rfl, rfl⟩ := List.cons.inj hrest
      exact ⟨_, rfl, rfl⟩

lemma closing?_eq_none (h : closing? before text = none) : ¬ ['*', '/'] <:+: text := by
  rintro ⟨front, behind, rfl⟩
  induction front generalizing before with
  | nil => simp [closing?] at h
  | cons c front ih =>
    by_cases hclosing : ∃ rest, c = '*' ∧ front ++ ['*', '/'] ++ behind = '/' :: rest
    · obtain ⟨rest, rfl, hrest⟩ := hclosing
      rw [List.cons_append, List.cons_append, hrest] at h
      simp [closing?] at h
    · rw [List.cons_append, List.cons_append, closing?_skip hclosing] at h
      exact ih h

end Comments

section Rules

variable {text body : List Char}

lemma lineComment?_reaches (h : '\n' ∉ body) (behind : List Char) :
    ∃ m, lineComment? ('/' :: '/' :: (body ++ behind)) = some m ∧ body.length + 2 ≤ m := by
  have hle := length_le_takeWhile (q := (· != '\n')) (fun c hc => by
    rw [bne_iff_ne]
    rintro rfl
    exact h hc) (List.prefix_append body behind)
  exact ⟨_, rfl, Nat.add_le_add_right hle 2⟩

lemma lineComment?_sound {n : Nat} (h : lineComment? text = some n) : Separates (text.take n) := by
  unfold lineComment? at h
  split at h
  · obtain rfl := Option.some.inj h
    rw [List.take_succ_cons, List.take_succ_cons, take_length_takeWhile]
    refine .lineComment fun hnewline => ?_
    have hother := List.mem_takeWhile_imp hnewline
    simp at hother
  · simp at h

lemma blockComment?_exact (h : ¬ ['*', '/'] <:+: body) (behind : List Char) :
    blockComment? ('/' :: '*' :: (body ++ '*' :: '/' :: behind)) = some (body.length + 4) := by
  rw [blockComment?, closing?_exact h, Option.map_some, Nat.zero_add]

lemma blockComment?_sound {n : Nat} (h : blockComment? text = some n) : Separates (text.take n) := by
  unfold blockComment? at h
  split at h
  · obtain ⟨k, hk, rfl⟩ := Option.map_eq_some_iff.mp h
    obtain ⟨body, behind, rfl, hbody, rfl⟩ := closing?_sound hk
    have htake : (body ++ '*' :: '/' :: behind).take (0 + body.length + 2) = body ++ ['*', '/'] := by
      rw [Nat.zero_add, List.take_length_add_append]
      rfl
    rw [List.take_succ_cons, List.take_succ_cons, htake]
    exact .blockComment hbody
  · simp at h

lemma opensComment_eq_true (h : opensComment text = true) :
    ∃ body, text = '/' :: '*' :: body ∧ ¬ ['*', '/'] <:+: body := by
  unfold opensComment at h
  split at h
  · exact ⟨_, rfl, closing?_eq_none (Option.isNone_iff_eq_none.mp h)⟩
  · simp at h

lemma takeWhile_quote (h : '"' ∉ body) (behind : List Char) :
    (body ++ '"' :: behind).takeWhile (· != '"') = body := by
  rw [List.takeWhile_append_of_pos]
  · simp
  · intro c hc
    rw [bne_iff_ne]
    rintro rfl
    exact h hc

lemma quoted?_exact (h : '"' ∉ body) (behind : List Char) :
    quoted? ('"' :: (body ++ '"' :: behind)) = some (body.length + 2) := by
  rw [quoted?, takeWhile_quote h]
  simp

lemma quoted?_sound {n : Nat} (h : quoted? text = some n) :
    ∃ body, '"' ∉ body ∧ text.take n = '"' :: (body ++ ['"']) := by
  unfold quoted? at h
  split at h
  · rename_i rest
    simp only [Option.ite_none_right_eq_some, Option.some.injEq] at h
    obtain ⟨hmem, rfl⟩ := h
    obtain ⟨body, behind, rfl, hbody⟩ := List.eq_append_cons_of_mem hmem
    refine ⟨body, hbody, ?_⟩
    rw [takeWhile_quote hbody, List.take_succ_cons, List.take_length_add_append]
    rfl
  · simp at h

lemma identifier?_reaches {c : Char} (hc : beginsIdentifier c = true)
    (h : ∀ d ∈ body, continuesIdentifier d = true) (behind : List Char) :
    ∃ m, identifier? (c :: (body ++ behind)) = some m ∧ body.length + 1 ≤ m := by
  have hle := length_le_takeWhile h (List.prefix_append body behind)
  exact ⟨_, if_pos hc, Nat.add_le_add_right hle 1⟩

lemma number?_reaches {k : Nat} (h : run? Char.isDigit text = some k) :
    ∃ m, number? text = some m ∧ k ≤ m := by
  rw [number?, h, Option.map_some]
  split
  · rename_i rest _
    cases hfraction : run? Char.isDigit rest with
    | none => exact ⟨k, rfl, Nat.le_refl k⟩
    | some l => exact ⟨k + 1 + l, rfl, by omega⟩
  · exact ⟨k, rfl, Nat.le_refl k⟩

lemma number?_reaches_decimal {digits fraction : List Char} (hne : digits ≠ [])
    (hdigits : ∀ c ∈ digits, c.isDigit = true) (hfraction : fraction ≠ [])
    (hdecimals : ∀ c ∈ fraction, c.isDigit = true) (behind : List Char) :
    ∃ m, number? (digits ++ '.' :: (fraction ++ behind)) = some m ∧
      digits.length + 1 + fraction.length ≤ m := by
  have hrun := run?_exact hne hdigits (c := '.') (by decide) (fraction ++ behind)
  obtain ⟨k, hk, hle⟩ := run?_reaches hfraction hdecimals (List.prefix_append fraction behind)
  refine ⟨digits.length + 1 + k, ?_, Nat.add_le_add_left hle _⟩
  rw [number?, hrun, Option.map_some, List.drop_left]
  simp only [hk, Option.elim_some]

lemma numberValue_whole {digits : List Char} (h : ∀ c ∈ digits, c.isDigit = true) :
    numberValue digits = Decimal.nearest digits [] := by
  have hpoint : ∀ c ∈ digits, (c != '.') = true := by
    intro c hc
    rw [bne_iff_ne]
    rintro rfl
    exact absurd (h _ hc) (by decide)
  rw [numberValue, List.takeWhile_eq_self_iff.mpr hpoint, List.dropWhile_eq_nil_iff.mpr hpoint]
  rfl

lemma numberValue_decimal {digits : List Char} (h : ∀ c ∈ digits, c.isDigit = true)
    (fraction : List Char) :
    numberValue (digits ++ '.' :: fraction) = Decimal.nearest digits fraction := by
  have hpoint : ∀ c ∈ digits, (c != '.') = true := by
    intro c hc
    rw [bne_iff_ne]
    rintro rfl
    exact absurd (h _ hc) (by decide)
  rw [numberValue, List.takeWhile_append_of_pos hpoint, List.dropWhile_append_of_pos hpoint]
  simp

lemma quotedValue_quoted (body : List Char) :
    quotedValue ('"' :: (body ++ ['"'])) = String.ofList body := by
  simp [quotedValue]

lemma classify_number {c : Char} (hc : c.isDigit = true) (rest : List Char) :
    classify (c :: rest) = (.number, some (.number (numberValue (c :: rest)))) := by
  have hfixed (entry) (he : entry ∈ Token.Kind.symbols ++ Token.Kind.keywords) :
      entry.1.toList ≠ c :: rest := by
    refine ne_of_headI ?_
    rintro rfl
    simp [(headI_fixed entry he).2.2] at hc
  have hquote : c ≠ '"' := by
    rintro rfl
    exact absurd hc (by decide)
  rw [classify_of_notMem hfixed, if_neg hquote, if_pos hc]

lemma Spells.classify_eq {kind : Token.Kind} {literal : Option Literal} {chars : List Char}
    (h : Spells kind literal chars) : classify chars = (kind, literal) := by
  cases h with
  | @fixed entry he => rw [classify, find?_fixed entry he]
  | @identifier c rest hc hrest hkeyword =>
    have hfixed (entry) (he : entry ∈ Token.Kind.symbols ++ Token.Kind.keywords) :
        entry.1.toList ≠ c :: rest := by
      rcases List.mem_append.mp he with he | he
      · refine ne_of_headI ?_
        rintro rfl
        simp [headI_symbol entry he] at hc
      · exact (hkeyword entry he).symm
    have hquote : c ≠ '"' := by
      rintro rfl
      exact absurd hc (by decide)
    have hdigit : ¬ c.isDigit = true := by
      intro hd
      have := range_of_digit hd
      have := range_of_begins hc
      omega
    rw [classify_of_notMem hfixed, if_neg hquote, if_neg hdigit]
  | @quoted body hbody =>
    have hfixed (entry) (he : entry ∈ Token.Kind.symbols ++ Token.Kind.keywords) :
        entry.1.toList ≠ '"' :: (body ++ ['"']) :=
      ne_of_headI (headI_fixed entry he).2.1
    rw [classify_of_notMem hfixed, if_pos rfl, quotedValue_quoted]
  | whole hne hdigits =>
    obtain ⟨c, rest, rfl⟩ := List.exists_cons_of_ne_nil hne
    rw [classify_number (hdigits c (List.mem_cons_self ..)), numberValue_whole hdigits]
  | @decimal digits fraction hne hdigits _ _ =>
    obtain ⟨c, rest, rfl⟩ := List.exists_cons_of_ne_nil hne
    rw [List.cons_append, classify_number (hdigits c (List.mem_cons_self ..)), ← List.cons_append,
      numberValue_decimal hdigits]

lemma Spells.not_blank {kind : Token.Kind} {literal : Option Literal} {chars : List Char}
    (h : Spells kind literal chars) : Text.isBlank chars.headI = false := by
  have hdigit {c : Char} (hc : c.isDigit = true) : Text.isBlank c = false := by
    have := range_of_digit hc
    exact not_blank_of_range (by omega)
  cases h with
  | @fixed entry he => exact (headI_fixed entry he).1
  | identifier hc =>
    have := range_of_begins hc
    rw [List.headI_cons]
    exact not_blank_of_range (by omega)
  | quoted =>
    rw [List.headI_cons]
    decide
  | whole hne hdigits | decimal hne hdigits =>
    obtain ⟨c, rest, rfl⟩ := List.exists_cons_of_ne_nil hne
    exact hdigit (hdigits c (List.mem_cons_self ..))

lemma number?_sound {n : Nat} (h : number? text = some n) :
    Spells .number (some (.number (numberValue (text.take n)))) (text.take n) := by
  obtain ⟨whole, hwhole, rfl | ⟨rest, k, hrest, hk, rfl⟩⟩ := number?_eq_some h
  · obtain ⟨rfl, hpos⟩ := run?_eq_some.mp hwhole
    have hdigits : ∀ c ∈ text.takeWhile Char.isDigit, c.isDigit = true :=
      fun c hc => List.mem_takeWhile_imp hc
    rw [take_length_takeWhile, numberValue_whole hdigits]
    exact .whole (List.length_pos_iff.mp hpos) hdigits
  · obtain ⟨rfl, hpos⟩ := run?_eq_some.mp hwhole
    obtain ⟨rfl, hpos'⟩ := run?_eq_some.mp hk
    have hdigits : ∀ c ∈ text.takeWhile Char.isDigit, c.isDigit = true :=
      fun c hc => List.mem_takeWhile_imp hc
    have htake : text.take ((text.takeWhile Char.isDigit).length + 1 +
        (rest.takeWhile Char.isDigit).length) =
          text.takeWhile Char.isDigit ++ '.' :: rest.takeWhile Char.isDigit := by
      rw [Nat.add_assoc, List.take_add, hrest, take_length_takeWhile, Nat.add_comm 1,
        List.take_succ_cons, take_length_takeWhile]
    rw [htake, numberValue_decimal hdigits]
    exact .decimal (List.length_pos_iff.mp hpos) hdigits (List.length_pos_iff.mp hpos')
      fun c hc => List.mem_takeWhile_imp hc

end Rules

section Longest

variable {text : List Char}

lemma mem_triviaRules {rule : Rule Unit} : rule ∈ triviaRules ↔
    rule.length? = run? Text.isBlank ∨ rule.length? = lineComment? ∨ rule.length? = blockComment? := by
  obtain ⟨length?, meaning⟩ := rule
  simp only [triviaRules, List.mem_map, List.mem_cons, List.not_mem_nil, or_false]
  constructor
  · rintro ⟨_, h, heq⟩
    obtain ⟨rfl, -⟩ := Rule.mk.inj heq
    exact h
  · intro h
    exact ⟨length?, h, rfl⟩

lemma separators_reach : Reaches triviaRules Separates := by
  intro text chars hseparates hbegins
  have hrule {length? : List Char → Option Nat}
      (hmem : (⟨length?, fun _ => ()⟩ : Rule Unit) ∈ triviaRules)
      (hreaches : ∃ m, length? text = some m ∧ chars.length ≤ m) :
      ∃ rule ∈ triviaRules, ∃ m, rule.length? text = some m ∧ chars.length ≤ m :=
    ⟨_, hmem, hreaches⟩
  cases hseparates with
  | blanks hne hblank =>
    exact hrule (mem_triviaRules.mpr (.inl rfl)) (run?_reaches hne hblank hbegins)
  | lineComment hbody =>
    obtain ⟨behind, rfl⟩ := hbegins
    exact hrule (mem_triviaRules.mpr (.inr (.inl rfl))) (lineComment?_reaches hbody behind)
  | @blockComment body hbody =>
    obtain ⟨behind, rfl⟩ := hbegins
    have htext : '/' :: '*' :: (body ++ ['*', '/']) ++ behind =
        '/' :: '*' :: (body ++ '*' :: '/' :: behind) := by simp
    rw [htext] at hrule ⊢
    exact hrule (mem_triviaRules.mpr (.inr (.inr rfl)))
      ⟨body.length + 4, blockComment?_exact hbody behind, by simp⟩

lemma separates_of_longest {u : Unit} {n : Nat} (h : longest triviaRules text = some (u, n)) :
    Separates (text.take n) := by
  obtain ⟨rule, hrule, hn, -⟩ := rule_of_longest h
  rcases mem_triviaRules.mp hrule with heq | heq | heq <;> rw [heq] at hn
  · obtain ⟨rfl, hpos⟩ := run?_eq_some.mp hn
    rw [take_length_takeWhile]
    exact .blanks (List.length_pos_iff.mp hpos) fun c hc => List.mem_takeWhile_imp hc
  · exact lineComment?_sound hn
  · exact blockComment?_sound hn

lemma tokens_reach : Reaches tokenRules IsToken := by
  rintro text chars ⟨kind, literal, hspells⟩ hbegins
  have hrule (rule : Rule (Token.Kind × Option Literal)) (hmem : rule ∈ tokenRules)
      (hreaches : ∃ m, rule.length? text = some m ∧ chars.length ≤ m) :
      ∃ rule ∈ tokenRules, ∃ m, rule.length? text = some m ∧ chars.length ≤ m :=
    ⟨_, hmem, hreaches⟩
  have hnumber (hreaches : ∃ m, number? text = some m ∧ chars.length ≤ m) :
      ∃ rule ∈ tokenRules, ∃ m, rule.length? text = some m ∧ chars.length ≤ m :=
    hrule ⟨number?, fun lexeme => (.number, some (.number (numberValue lexeme)))⟩
      (by simp [tokenRules]) hreaches
  cases hspells with
  | @fixed entry he =>
    refine hrule _ (List.mem_append_left _ (List.mem_map.mpr ⟨entry, he, rfl⟩))
      ⟨_, ?_, Nat.le_refl _⟩
    exact if_pos (List.isPrefixOf_iff_prefix.mpr hbegins)
  | identifier hc hrest =>
    obtain ⟨behind, rfl⟩ := hbegins
    exact hrule ⟨identifier?, fun _ => (.identifier, none)⟩ (by simp [tokenRules])
      (identifier?_reaches hc hrest behind)
  | @quoted body hbody =>
    obtain ⟨behind, rfl⟩ := hbegins
    refine hrule ⟨quoted?, fun lexeme => (.string, some (.text (quotedValue lexeme)))⟩
      (by simp [tokenRules]) ⟨body.length + 2, ?_, by simp⟩
    simpa using quoted?_exact hbody behind
  | whole hne hdigits =>
    obtain ⟨k, hk, hle⟩ := run?_reaches hne hdigits hbegins
    obtain ⟨m, hm, hkm⟩ := number?_reaches hk
    exact hnumber ⟨m, hm, Nat.le_trans hle hkm⟩
  | decimal hne hdigits hfraction hdecimals =>
    obtain ⟨behind, rfl⟩ := hbegins
    obtain ⟨m, hm, hle⟩ := number?_reaches_decimal hne hdigits hfraction hdecimals behind
    refine hnumber ⟨m, by simpa using hm, ?_⟩
    rw [List.length_append, List.length_cons]
    omega

lemma spells_of_longest {kind : Token.Kind} {literal : Option Literal} {n : Nat}
    (h : longest tokenRules text = some ((kind, literal), n)) : Spells kind literal (text.take n) := by
  obtain ⟨rule, hrule, hn, hmeaning⟩ := rule_of_longest h
  rcases List.mem_append.mp hrule with hrule | hrule
  · obtain ⟨entry, he, rfl⟩ := List.mem_map.mp hrule
    simp only [fixed?, Option.ite_none_right_eq_some, Option.some.injEq] at hn
    obtain ⟨hbegins, rfl⟩ := hn
    obtain ⟨rfl, rfl⟩ := Prod.mk.inj hmeaning
    rw [← List.prefix_iff_eq_take.mp (List.isPrefixOf_iff_prefix.mp hbegins)]
    exact .fixed he
  · simp only [List.mem_cons, List.not_mem_nil, or_false] at hrule
    rcases hrule with rfl | rfl | rfl <;> obtain ⟨rfl, rfl⟩ := Prod.mk.inj hmeaning
    · have hkeyword := take_ne_keyword h
      cases text with
      | nil => simp [identifier?] at hn
      | cons c rest =>
        simp only [identifier?, Option.ite_none_right_eq_some, Option.some.injEq] at hn
        obtain ⟨hc, rfl⟩ := hn
        rw [List.take_succ_cons, take_length_takeWhile] at hkeyword ⊢
        exact .identifier hc (fun d hd => List.mem_takeWhile_imp hd) hkeyword
    · obtain ⟨body, hbody, htake⟩ := quoted?_sound hn
      rw [htake, quotedValue_quoted]
      exact .quoted hbody
    · exact number?_sound hn

end Longest

end Lexeme

end Lox
