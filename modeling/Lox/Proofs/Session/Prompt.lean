import Lox.Prompt
import Lox.Proofs.Session.Reports
import Mathlib.Data.List.TakeWhile

/-! The prompt as a session over the lines of its input, up to the first that is no text. -/

namespace Lox

def utf8 (text : String) : List UInt8 :=
  text.toUTF8.data.toList

namespace Prompt

section Lines

/-- The bytes end with their only newline, or where the input ends. -/
def IsLine (line behind : List UInt8) : Prop :=
  ∃ body, 10 ∉ body ∧ (line = body ++ [10] ∨ line = body ∧ body ≠ [] ∧ behind = [])

/-- An input is cut after each newline. What is left behind the last one is a line if it is not empty. -/
inductive Cut : List (List UInt8) → List UInt8 → Prop
  | nil : Cut [] []
  | cons {line lines behind} : IsLine line behind → Cut lines behind →
      Cut (line :: lines) (line ++ behind)

variable {line behind input : List UInt8} {lines : List (List UInt8)}

lemma IsLine.ne_nil (h : IsLine line behind) : line ≠ [] := by
  obtain ⟨body, -, rfl | ⟨rfl, hne, -⟩⟩ := h
  · simp
  · exact hne

lemma readLine_newline {body : List UInt8} (h : 10 ∉ body) (behind : List UInt8) :
    readLine (body ++ 10 :: behind) = (body ++ [10], behind) := by
  induction body with
  | nil => rfl
  | cons byte body ih =>
    obtain ⟨hbyte, hbody⟩ := not_or.mp (List.mem_cons.not.mp h)
    rw [List.cons_append, readLine, if_neg (Ne.symm hbyte), ih hbody]
    rfl

lemma readLine_last {body : List UInt8} (h : 10 ∉ body) : readLine body = (body, []) := by
  induction body with
  | nil => rfl
  | cons byte body ih =>
    obtain ⟨hbyte, hbody⟩ := not_or.mp (List.mem_cons.not.mp h)
    rw [readLine, if_neg (Ne.symm hbyte), ih hbody]

lemma IsLine.readLine_eq (h : IsLine line behind) : readLine (line ++ behind) = (line, behind) := by
  obtain ⟨body, hbody, rfl | ⟨rfl, -, rfl⟩⟩ := h
  · simpa using readLine_newline hbody behind
  · simpa using readLine_last hbody

lemma cut_nil (h : Cut lines []) : lines = [] := by
  generalize htext : [] = input at h
  cases h with
  | nil => rfl
  | cons hline => exact absurd (List.append_eq_nil_iff.mp htext.symm).1 hline.ne_nil

lemma Cut.unique {others : List (List UInt8)} (h : Cut lines input) (h' : Cut others input) :
    others = lines := by
  induction h generalizing others with
  | nil => exact cut_nil h'
  | @cons line lines behind hline hlines ih =>
    generalize htext : line ++ behind = input at h'
    cases h' with
    | nil => exact absurd (List.append_eq_nil_iff.mp htext).1 hline.ne_nil
    | @cons other others after hother hothers =>
      have hread := hline.readLine_eq
      rw [htext, hother.readLine_eq] at hread
      obtain ⟨rfl, rfl⟩ := Prod.mk.inj hread
      rw [ih hothers]

end Lines

/-- The texts that the first lines are. The line behind them, if there is one, is no text. -/
def AreTexts (texts : List String) (lines : List (List UInt8)) : Prop :=
  texts.map utf8 <+: lines ∧ ∀ text, ¬ (texts ++ [text]).map utf8 <+: lines

section Dialogue

variable {line behind input : List UInt8} {lines : List (List UInt8)}

lemma AreTexts.cons {texts : List String} (h : AreTexts texts lines) (text : String) :
    AreTexts (text :: texts) (utf8 text :: lines) :=
  ⟨List.cons_prefix_cons.mpr ⟨rfl, h.1⟩, fun other hother => h.2 other (List.cons_prefix_cons.mp hother).2⟩

end Dialogue

end Prompt

end Lox
