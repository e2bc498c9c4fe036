import Lox.Token.Scan
import Mathlib.Tactic.Common

/-! How scanned tokens are spelt: a keyword as itself, and an identifier not like any keyword. -/

namespace Lox

namespace Lexeme

variable {α : Type}

/-- The longest lexeme is by one of the first rules, or longer than all of theirs. -/
lemma longest_append {as bs : List (Rule α)} {text : List Char} {x : α} {n : Nat}
    (h : longest (as ++ bs) text = some (x, n)) :
    (∃ rule ∈ as, rule.length? text = some n ∧ rule.meaning (text.take n) = x) ∨
      longest bs text = some (x, n) ∧ ∀ rule ∈ as, ∀ m ∈ rule.length? text, m < n := by
  induction as generalizing x n with
  | nil => exact .inr ⟨h, by simp⟩
  | cons a as ih =>
    simp only [List.cons_append, longest] at h
    have later {y : α} {k : Nat} (hbest : longest (as ++ bs) text = some (y, k))
        (ha : ∀ m ∈ a.length? text, m < k) :
        (∃ rule ∈ a :: as, rule.length? text = some k ∧ rule.meaning (text.take k) = y) ∨
          longest bs text = some (y, k) ∧ ∀ rule ∈ a :: as, ∀ m ∈ rule.length? text, m < k := by
      rcases ih hbest with ⟨rule, hr, hx⟩ | ⟨hb, hlt⟩
      · exact .inl ⟨rule, List.mem_cons_of_mem _ hr, hx⟩
      · exact .inr ⟨hb, List.forall_mem_cons.mpr ⟨ha, hlt⟩⟩
    rcases ha : a.length? text with _ | m
    · simp only [ha] at h
      exact later h (by simp [ha])
    · rcases hbest : longest (as ++ bs) text with _ | ⟨other, k⟩
      · obtain ⟨rfl, rfl⟩ : a.meaning (text.take m) = x ∧ m = n := by simpa [ha, hbest] using h
        exact .inl ⟨a, List.mem_cons_self .., ha, rfl⟩
      · by_cases hle : k ≤ m
        · obtain ⟨rfl, rfl⟩ : a.meaning (text.take m) = x ∧ m = n := by
            simpa [ha, hbest, hle] using h
          exact .inl ⟨a, List.mem_cons_self .., ha, rfl⟩
        · obtain ⟨rfl, rfl⟩ : other = x ∧ k = n := by simpa [ha, hbest, hle] using h
          refine later hbest fun l hl => ?_
          obtain rfl : m = l := by simpa [ha] using hl
          omega

lemma rule_of_longest {rules : List (Rule α)} {text : List Char} {x : α} {n : Nat}
    (h : longest rules text = some (x, n)) :
    ∃ rule ∈ rules, rule.length? text = some n ∧ rule.meaning (text.take n) = x := by
  rw [← List.append_nil rules] at h
  rcases longest_append h with hrule | ⟨hnil, -⟩
  · exact hrule
  · simp [longest] at hnil

lemma identifier?_le {text : List Char} {n : Nat} (h : identifier? text = some n) :
    n ≤ text.length := by
  cases text with
  | nil => simp [identifier?] at h
  | cons c rest =>
    simp only [identifier?] at h
    split at h
    · obtain rfl := Option.some.inj h
      have hle := (List.takeWhile_sublist continuesIdentifier (l := rest)).length_le
      simp only [List.length_cons]
      omega
    · simp at h

lemma identifier?_of_longest {text : List Char} {literal : Option Literal} {n : Nat}
    (h : longest tokenRules text = some ((.identifier, literal), n)) :
    identifier? text = some n ∧
      ∀ entry ∈ Token.Kind.keywords, ∀ m ∈ fixed? entry.1.toList text, m < n := by
  rcases longest_append h with ⟨rule, hr, -, hx⟩ | ⟨hb, hlt⟩
  · obtain ⟨entry, hmem, rfl⟩ := List.mem_map.mp hr
    have hkinds : ∀ entry ∈ Token.Kind.symbols ++ Token.Kind.keywords, entry.2 ≠ .identifier := by
      decide
    exact absurd (congrArg Prod.fst hx) (hkinds _ hmem)
  · refine ⟨?_, fun entry he m hm => ?_⟩
    · obtain ⟨rule, hr, hn, hx⟩ := rule_of_longest hb
      simp only [List.mem_cons, List.not_mem_nil, or_false] at hr
      rcases hr with rfl | rfl | rfl
      · exact hn
      · simp at hx
      · simp at hx
    · exact hlt _ (List.mem_map.mpr ⟨entry, List.mem_append_right _ he, rfl⟩) m hm

lemma take_ne_keyword {text : List Char} {literal : Option Literal} {n : Nat}
    (h : longest tokenRules text = some ((.identifier, literal), n)) :
    ∀ entry ∈ Token.Kind.keywords, text.take n ≠ entry.1.toList := by
  intro entry he heq
  obtain ⟨hid, hlt⟩ := identifier?_of_longest h
  have hn : entry.1.toList.length = n := by
    rw [← heq, List.length_take, Nat.min_eq_left (identifier?_le hid)]
  have hfixed : fixed? entry.1.toList text = some n := by
    rw [fixed?, if_pos, hn]
    rw [List.isPrefixOf_iff_prefix, ← heq]
    exact List.take_prefix n text
  exact Nat.lt_irrefl n (hlt entry he n hfixed)

lemma take_eq_keyword {text : List Char} {literal : Option Literal} {n : Nat}
    {entry : String × Token.Kind} (he : entry ∈ Token.Kind.keywords)
    (h : longest tokenRules text = some ((entry.2, literal), n)) :
    text.take n = entry.1.toList := by
  obtain ⟨rule, hr, hlength, hmeaning⟩ := rule_of_longest h
  rcases List.mem_append.mp hr with hr | hr
  · obtain ⟨other, ho, rfl⟩ := List.mem_map.mp hr
    have hspelling : ∀ entry ∈ Token.Kind.keywords,
        ∀ other ∈ Token.Kind.symbols ++ Token.Kind.keywords, other.2 = entry.2 → other.1 = entry.1 := by
      decide
    rw [← hspelling entry he other ho (congrArg Prod.fst hmeaning)]
    simp only [fixed?] at hlength
    split at hlength
    · rename_i hprefix
      rw [← Option.some.inj hlength]
      exact (List.prefix_iff_eq_take.mp (List.isPrefixOf_iff_prefix.mp hprefix)).symm
    · simp at hlength
  · have hkinds : ∀ entry ∈ Token.Kind.keywords,
        entry.2 ≠ .identifier ∧ entry.2 ≠ .string ∧ entry.2 ≠ .number := by decide
    obtain ⟨hidentifier, hstring, hnumber⟩ := hkinds entry he
    have hkind := congrArg Prod.fst hmeaning
    simp only [List.mem_cons, List.not_mem_nil, or_false] at hr
    rcases hr with rfl | rfl | rfl
    · exact absurd hkind.symm hidentifier
    · exact absurd hkind.symm hstring
    · exact absurd hkind.symm hnumber

end Lexeme

namespace Scanner

variable {s : Scanner}

/-- Every token found so far is the longest lexeme somewhere. -/
def AllLongest (s : Scanner) : Prop :=
  ∀ t ∈ s.tokens, ∃ text n,
    Lexeme.longest Lexeme.tokenRules text = some ((t.kind, t.literal), n) ∧
      t.lexeme.toList = text.take n

lemma AllLongest.step (h : s.AllLongest) (c : Char) (rest : List Char) :
    (s.step c rest).1.AllLongest := by
  unfold Scanner.step
  dsimp only
  split
  · exact h
  · split
    · exact h
    · split
      · exact h
      · split
        · rename_i kind literal n hlongest
          have hnew : ∀ t ∈ [Token.mk kind (String.ofList ((c :: rest).take n)) literal s.line],
              ∃ text n, Lexeme.longest Lexeme.tokenRules text = some ((t.kind, t.literal), n) ∧
                t.lexeme.toList = text.take n :=
            List.forall_mem_singleton.mpr ⟨c :: rest, n, hlongest, String.toList_ofList⟩
          exact List.forall_mem_append.mpr ⟨h, hnew⟩
        · exact h

lemma AllLongest.run (h : s.AllLongest) (behind : Nat) (text : List Char) :
    (run behind s text).AllLongest := by
  induction text generalizing behind s with
  | nil => simpa only [Scanner.run] using h
  | cons c rest ih =>
    cases behind with
    | succ behind => exact ih h behind
    | zero => exact ih (h.step c rest) _

end Scanner

namespace Token

lemma scan_eq_ok {source : String} {tokens : List Token} (h : scan source = .ok tokens) :
    tokens = (Scanner.run 0 .start source.toList).tokens ++
      [endMark (Scanner.run 0 .start source.toList).line] := by
  unfold scan at h
  dsimp only at h
  split at h
  · exact (Except.ok.inj h).symm
  · simp at h

/-- A scanned token besides the end mark is the longest lexeme somewhere in the text. -/
lemma longest_of_mem_dropLast {source : String} {tokens : List Token} (h : scan source = .ok tokens)
    {t : Token} (ht : t ∈ tokens.dropLast) :
    ∃ text n, Lexeme.longest Lexeme.tokenRules text = some ((t.kind, t.literal), n) ∧
      t.lexeme.toList = text.take n := by
  have hstart : Scanner.start.AllLongest := fun t ht => absurd ht List.not_mem_nil
  rw [scan_eq_ok h, List.dropLast_concat] at ht
  exact hstart.run 0 source.toList t ht

lemma exists_longest {source : String} {tokens : List Token} (h : scan source = .ok tokens)
    {t : Token} (ht : t ∈ tokens) (hk : t.kind ≠ .eof) :
    ∃ text n, Lexeme.longest Lexeme.tokenRules text = some ((t.kind, t.literal), n) ∧
      t.lexeme.toList = text.take n := by
  refine longest_of_mem_dropLast h ?_
  rw [scan_eq_ok h, List.dropLast_concat]
  rw [scan_eq_ok h] at ht
  refine (List.mem_append.mp ht).resolve_right fun hend => hk ?_
  rw [List.mem_singleton.mp hend, endMark]

lemma lexeme_ne_keyword {source : String} {tokens : List Token} (h : scan source = .ok tokens)
    {t : Token} (ht : t ∈ tokens) (hk : t.kind = .identifier) :
    ∀ entry ∈ Kind.keywords, t.lexeme ≠ entry.1 := by
  intro entry he heq
  obtain ⟨text, n, hlongest, hchars⟩ := exists_longest h ht (by simp [hk])
  rw [hk] at hlongest
  exact Lexeme.take_ne_keyword hlongest entry he (by rw [← hchars, heq])

lemma lexeme_eq_keyword {source : String} {tokens : List Token} (h : scan source = .ok tokens)
    {t : Token} (ht : t ∈ tokens) {entry : String × Kind} (he : entry ∈ Kind.keywords)
    (hk : t.kind = entry.2) : t.lexeme = entry.1 := by
  have heof : ∀ entry ∈ Kind.keywords, entry.2 ≠ .eof := by decide
  obtain ⟨text, n, hlongest, hchars⟩ := exists_longest h ht (by rw [hk]; exact heof entry he)
  rw [hk] at hlongest
  exact String.toList_inj.mp (hchars.trans (Lexeme.take_eq_keyword he hlongest))

end Token

end Lox
