import Mathlib

/-!
# Texts of numbers

Identifiers are built by joining the decimal texts of integers with a dash.  The
text of a negative number starts with a dash as well, so it has to be shown that
the numbers can be read back.

Main results: `append_dash_inj`, `append_dash_eq_iff`, `toString_dash_inj`,
`number_dash_int_inj`, `parseUnsigned_toString`.
-/

namespace Numaflow.Lib

open List

variable {α : Type} {l l' r r' : List α} {s a t b : String} {c : Char} {m n bound : Nat}

/-- Two lists agree before and after the first occurrence of a separator. -/
theorem split_at_first [DecidableEq α] {x : α} (hl : x ∉ l) (hl' : x ∉ l')
    (h : l ++ x :: r = l' ++ x :: r') : l = l' ∧ r = r' := by
  have hbefore : ∀ k s : List α, x ∉ k → (k ++ x :: s).takeWhile (fun y => decide (y ≠ x)) = k := by
    intro k s hk
    rw [takeWhile_append_of_pos]
    · simp
    · intro y hy
      exact decide_eq_true (ne_of_mem_of_not_mem hy hk)
  have heq : l = l' := by rw [← hbefore l r hl, ← hbefore l' r' hl', h]
  subst heq
  exact ⟨rfl, tail_eq_of_cons_eq (append_cancel_left h)⟩

/-- Two lists agree before and after the last occurrence of a separator. -/
theorem split_at_last [DecidableEq α] {x : α} (hr : x ∉ r) (hr' : x ∉ r')
    (h : l ++ x :: r = l' ++ x :: r') : l = l' ∧ r = r' := by
  have hreverse : r.reverse ++ x :: l.reverse = r'.reverse ++ x :: l'.reverse := by
    simpa using congrArg List.reverse h
  obtain ⟨hrr, hll⟩ := split_at_first (mt mem_reverse.mp hr) (mt mem_reverse.mp hr') hreverse
  exact ⟨reverse_inj.mp hll, reverse_inj.mp hrr⟩

/-- Two texts can be read back when they are joined with a dash and the second has none. -/
theorem append_dash_inj (ha : '-' ∉ a.toList) (hb : '-' ∉ b.toList)
    (h : s ++ "-" ++ a = t ++ "-" ++ b) : s = t ∧ a = b := by
  have hlist : s.toList ++ '-' :: a.toList = t.toList ++ '-' :: b.toList := by
    simpa [String.toList_append] using congrArg String.toList h
  obtain ⟨hst, hab⟩ := split_at_last ha hb hlist
  exact ⟨String.toList_injective hst, String.toList_injective hab⟩

/-- Texts joined with a dash agree when their parts do, or when one of the first parts is the
other one, a dash and a text that the second part of the other pair starts with. -/
theorem append_dash_eq_iff {c d : String} : a ++ "-" ++ b = c ++ "-" ++ d ↔
    a = c ∧ b = d ∨ (∃ x, c = a ++ "-" ++ x ∧ b = x ++ "-" ++ d) ∨
      ∃ x, a = c ++ "-" ++ x ∧ d = x ++ "-" ++ b := by
  have hcut : ∀ l r l' r' s : List Char, l' = l ++ s → '-' :: r = s ++ '-' :: r' →
      l = l' ∧ r = r' ∨ ∃ x, l' = l ++ '-' :: x ∧ r = x ++ '-' :: r' := by
    rintro l r l' r' s rfl hs
    cases s with
    | nil => exact .inl ⟨(append_nil l).symm, (List.cons.inj hs).2⟩
    | cons c x =>
      obtain ⟨rfl, hr⟩ := List.cons.inj hs
      exact .inr ⟨x, rfl, hr⟩
  have hread : ∀ a b c d : String, (∃ x, c.toList = a.toList ++ '-' :: x ∧
      b.toList = x ++ '-' :: d.toList) → ∃ x, c = a ++ "-" ++ x ∧ b = x ++ "-" ++ d := by
    rintro a b c d ⟨x, hc, hb⟩
    refine ⟨String.ofList x, String.toList_injective ?_, String.toList_injective ?_⟩
    · simpa using hc
    · simpa using hb
  constructor
  · intro h
    have hlist : a.toList ++ '-' :: b.toList = c.toList ++ '-' :: d.toList := by
      simpa [String.toList_append] using congrArg String.toList h
    rcases append_eq_append_iff.mp hlist with ⟨s, hc, hs⟩ | ⟨s, ha, hs⟩
    · rcases hcut _ _ _ _ s hc hs with ⟨hac, hbd⟩ | hx
      · exact .inl ⟨String.toList_injective hac, String.toList_injective hbd⟩
      · exact .inr (.inl (hread _ _ _ _ hx))
    · rcases hcut _ _ _ _ s ha hs with ⟨hca, hdb⟩ | hx
      · exact .inl ⟨String.toList_injective hca.symm, String.toList_injective hdb.symm⟩
      · exact .inr (.inr (hread _ _ _ _ hx))
  · rintro (⟨rfl, rfl⟩ | ⟨x, rfl, rfl⟩ | ⟨x, rfl, rfl⟩)
    · rfl
    · simp only [String.append_assoc]
    · simp only [String.append_assoc]

/-- A character that is not a digit is not in the text of a number. -/
theorem notMem_toDigits (hc : c.isDigit = false) (n : Nat) : c ∉ Nat.toDigits 10 n := by
  intro hmem
  rw [Nat.isDigit_of_mem_toDigits (by decide) (by decide) hmem] at hc
  cases hc

theorem dash_notMem_toDigits (n : Nat) : '-' ∉ Nat.toDigits 10 n :=
  notMem_toDigits (by decide) n

theorem toDigits_inj (h : Nat.toDigits 10 m = Nat.toDigits 10 n) : m = n := by
  have hread : ∀ k, Nat.ofDigitChars 10 (Nat.toDigits 10 k) 0 = k :=
    fun _ => Nat.ofDigitChars_toDigits (by decide) (by decide)
  rw [← hread m, ← hread n, h]

theorem toList_toString_int (a : Int) : (toString a).toList =
    (if a < 0 then ['-'] else []) ++ Nat.toDigits 10 a.natAbs := by
  cases a with
  | ofNat => simp [toString, Int.repr, Nat.repr]
  | negSucc => simp [toString, Int.repr, Nat.repr, Int.negSucc_lt_zero]

/-- The digits of a number do not start with a dash. -/
theorem toDigits_append_ne_dash (n : Nat) (s r : List Char) :
    Nat.toDigits 10 n ++ s ≠ '-' :: r := by
  intro h
  rcases exists_cons_of_ne_nil (Nat.toDigits_ne_nil (n := n) (b := 10)) with ⟨x, xs, hx⟩
  rw [hx, cons_append, List.cons.injEq] at h
  apply dash_notMem_toDigits n
  rw [hx, h.1]
  exact mem_cons_self

/-- An integer and what follows it can be read back from the text up to a dash. -/
theorem toString_dash_append_inj {r' : List Char} {r : List Char} {a b : Int}
    (h : (toString a).toList ++ '-' :: r = (toString b).toList ++ '-' :: r') :
    a = b ∧ r = r' := by
  rw [toList_toString_int, toList_toString_int, append_assoc, append_assoc] at h
  split_ifs at h with ha hb hb
  · obtain ⟨hd, hr⟩ := split_at_first (dash_notMem_toDigits _) (dash_notMem_toDigits _)
      (List.cons.inj h).2
    have habs := toDigits_inj hd
    exact ⟨by omega, hr⟩
  · exact absurd h.symm (toDigits_append_ne_dash _ _ _)
  · exact absurd h (toDigits_append_ne_dash _ _ _)
  · obtain ⟨hd, hr⟩ := split_at_first (dash_notMem_toDigits _) (dash_notMem_toDigits _) h
    have habs := toDigits_inj hd
    exact ⟨by omega, hr⟩

/-- Two integers can be read back from their texts joined with a dash. -/
theorem toString_dash_inj {a b c d : Int}
    (h : toString a ++ "-" ++ toString b = toString c ++ "-" ++ toString d) : a = c ∧ b = d := by
  have hlist : (toString a).toList ++ '-' :: (toString b).toList =
      (toString c).toList ++ '-' :: (toString d).toList := by
    simpa [String.toList_append] using congrArg String.toList h
  rcases toString_dash_append_inj hlist with ⟨hac, hbd⟩
  have hdash : (toString b).toList ++ ['-'] = (toString d).toList ++ ['-'] := by rw [hbd]
  exact ⟨hac, (toString_dash_append_inj hdash).1⟩

theorem toList_toString (n : Nat) : (toString n).toList = Nat.toDigits 10 n := by
  simp [toString, Nat.repr]

theorem dash_notMem_toString (n : Nat) : '-' ∉ (toString n).toList := by
  rw [toList_toString]
  exact dash_notMem_toDigits n

/-- A number can be read back when it stands behind a dash. -/
theorem dash_number_inj
    (h : s ++ "-" ++ toString m = t ++ "-" ++ toString n) : s = t ∧ m = n := by
  obtain ⟨hst, hmn⟩ := append_dash_inj (dash_notMem_toString m) (dash_notMem_toString n) h
  refine ⟨hst, toDigits_inj ?_⟩
  rw [← toList_toString, ← toList_toString, hmn]

/-- Whether a text has digits only is decided by going through it. -/
instance decidableAllDigits (text : List Char) : Decidable (∀ c ∈ text, c.isDigit = true) :=
  List.decidableBAll _ text

/-- Read an unsigned number below `bound`; a plus sign may stand before the digits. -/
def parseUnsigned (bound : Nat) (text : List Char) : Option Nat :=
  let digits := if text.head? = some '+' then text.tail else text
  if digits ≠ [] ∧ (∀ c ∈ digits, c.isDigit = true) ∧ Nat.ofDigitChars 10 digits 0 < bound then
    some (Nat.ofDigitChars 10 digits 0)
  else none

/-- A number that fits is read back from its text. -/
theorem parseUnsigned_toString (h : n < bound) :
    parseUnsigned bound (toString n).toList = some n := by
  have hplus : (Nat.toDigits 10 n).head? ≠ some '+' := fun hhead =>
    notMem_toDigits (by decide) n (mem_of_mem_head? hhead)
  have hread : Nat.ofDigitChars 10 (Nat.toDigits 10 n) 0 = n :=
    Nat.ofDigitChars_toDigits (by decide) (by decide)
  rw [toList_toString, parseUnsigned, if_neg hplus]
  simp only [hread]
  rw [if_pos]
  exact ⟨Nat.toDigits_ne_nil, fun c hc => Nat.isDigit_of_mem_toDigits (by decide) (by decide) hc, h⟩

end Numaflow.Lib
