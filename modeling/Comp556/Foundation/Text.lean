import Mathlib.Algebra.Group.Nat.Defs
import Mathlib.Data.List.DropRight
import Mathlib.Tactic.Common

/-!
# Strings of the C++ library

`std::string` as the list of its characters, with positions of type `size_t`, and `atoi`. A string is
shorter than the largest position, which `find` returns where it finds nothing.
-/

namespace Comp556

abbrev Text := List Char

namespace Text

def npos : UInt64 := 0xffffffffffffffff

/-- Where the pattern occurs first. -/
def position (pattern : Text) : Text → Option Nat
  | [] => if pattern = [] then some 0 else none
  | c :: s => if pattern <+: c :: s then some 0 else (position pattern s).map (· + 1)

def find (s pattern : Text) : UInt64 := (position pattern s).elim npos UInt64.ofNat

def size (s : Text) : UInt64 := UInt64.ofNat s.length

/-- A part of a string that begins inside it or at its end. -/
def substr (s : Text) (pos n : UInt64) : Text := (s.drop pos.toNat).take n.toNat

/-- `erase` at the start of a string. -/
def eraseFront (s : Text) (n : UInt64) : Text := s.drop n.toNat

/-- `isspace`: a blank or one of the characters from tab to carriage return. -/
def isSpace (c : Char) : Bool := c = ' ' || (9 ≤ c.toNat && c.toNat ≤ 13)

def sign : Text → Bool × Text
  | '-' :: s => (true, s)
  | '+' :: s => (false, s)
  | s => (false, s)

/-- The range of `int`. -/
def inInt (value : Int) : Option Int :=
  if -2147483648 ≤ value ∧ value < 2147483648 then some value else none

/-- `atoi`. A number out of the range of `int` has no defined result. -/
def atoi (s : Text) : Option Int :=
  let (negative, s) := sign (s.dropWhile isSpace)
  let value : Int := Nat.ofDigitChars 10 (s.takeWhile Char.isDigit) 0
  inInt (if negative then -value else value)

def decimal (n : Nat) : Text := Nat.toDigits 10 n

variable {s pattern before after : Text}

private theorem position_of_not_mem {c : Char} (hin : c ∈ pattern) (hout : c ∉ s) :
    position pattern s = none := by
  induction s with
  | nil =>
    rw [position, if_neg (List.ne_nil_of_mem hin)]
  | cons d s ih =>
    have hprefix : ¬ pattern <+: d :: s := fun h => hout (h.subset hin)
    rw [position, if_neg hprefix, ih fun hs => hout (List.mem_cons_of_mem d hs), Option.map_none]

theorem find_of_not_mem {c : Char} (hin : c ∈ pattern) (hout : c ∉ s) : s.find pattern = npos := by
  rw [find, position_of_not_mem hin hout]
  rfl

private theorem position_append {c : Char} (hhead : pattern.head? = some c) (hbefore : c ∉ before) :
    position pattern (before ++ (pattern ++ after)) = some before.length := by
  obtain ⟨pattern, rfl⟩ := List.head?_eq_some_iff.mp hhead
  induction before with
  | nil =>
    have hprefix : c :: pattern <+: c :: (pattern ++ after) := List.prefix_append (c :: pattern) after
    rw [List.nil_append, List.cons_append, position, if_pos hprefix]
    rfl
  | cons d before ih =>
    obtain ⟨hne, hbefore⟩ := not_or.mp (mt List.mem_cons.mpr hbefore)
    have hprefix : ¬ c :: pattern <+: d :: (before ++ (c :: pattern ++ after)) := fun h =>
      hne (List.cons_prefix_cons.mp h).1
    rw [List.cons_append, position, if_neg hprefix, ih hbefore]
    rfl

/-- The pattern is found where its first character occurs for the first time. -/
theorem find_append {c : Char} (hhead : pattern.head? = some c) (hbefore : c ∉ before) :
    (before ++ (pattern ++ after)).find pattern = UInt64.ofNat before.length := by
  rw [find, position_append hhead hbefore]
  rfl

private theorem position_of_infix (h : pattern <:+: s) : ∃ k ≤ s.length, position pattern s = some k := by
  induction s with
  | nil =>
    rw [List.infix_nil.mp h]
    exact ⟨0, Nat.le_refl 0, rfl⟩
  | cons c s ih =>
    by_cases hprefix : pattern <+: c :: s
    · rw [position, if_pos hprefix]
      exact ⟨0, Nat.zero_le _, rfl⟩
    · obtain ⟨k, hk, hposition⟩ := ih ((List.infix_cons_iff.mp h).resolve_left hprefix)
      rw [position, if_neg hprefix, hposition]
      exact ⟨k + 1, Nat.succ_le_succ hk, rfl⟩

theorem find_of_infix (h : pattern <:+: s) (hsize : s.length < npos.toNat) : s.find pattern ≠ npos := by
  obtain ⟨k, hk, hposition⟩ := position_of_infix h
  have hlt : k < 2 ^ 64 := Nat.lt_trans (Nat.lt_of_le_of_lt hk hsize) (by decide)
  rw [find, hposition, Option.elim_some]
  intro heq
  rw [← heq, UInt64.toNat_ofNat_of_lt' hlt] at hsize
  exact Nat.lt_irrefl _ (Nat.lt_of_le_of_lt hk hsize)

theorem substr_front (hsize : before.length < 2 ^ 64) :
    (before ++ after).substr 0 (UInt64.ofNat before.length) = before := by
  rw [substr, UInt64.toNat_ofNat_of_lt' hsize]
  exact List.take_left

theorem substr_npos (hsize : s.length ≤ npos.toNat) : s.substr 0 npos = s :=
  List.take_of_length_le hsize

theorem eraseFront_append (hsize : before.length < 2 ^ 64) :
    (before ++ after).eraseFront (UInt64.ofNat before.length) = after := by
  rw [eraseFront, UInt64.toNat_ofNat_of_lt' hsize]
  exact List.drop_left

theorem eraseFront_npos (hsize : s.length ≤ npos.toNat) : s.eraseFront npos = [] :=
  List.drop_of_length_le hsize

theorem isDigit_of_mem_decimal {n : Nat} {c : Char} (h : c ∈ decimal n) : c.isDigit :=
  Nat.isDigit_of_mem_toDigits (by decide) (by decide) h

theorem decimal_ne_nil (n : Nat) : decimal n ≠ [] := by
  rw [decimal, Nat.toDigits_eq_if (by decide)]
  split
  · exact List.cons_ne_nil _ _
  · exact List.concat_ne_nil _ _

private theorem toNat_of_isDigit {c : Char} (h : c.isDigit) : 48 ≤ c.toNat ∧ c.toNat ≤ 57 := by
  simp only [Char.isDigit, Bool.and_eq_true, decide_eq_true_eq, ge_iff_le, UInt32.le_iff_toNat_le] at h
  exact h

private theorem isSpace_of_isDigit {c : Char} (h : c.isDigit) : isSpace c = false := by
  obtain ⟨hlow, -⟩ := toNat_of_isDigit h
  have hblank : c ≠ ' ' := by
    rintro rfl
    exact absurd hlow (by decide)
  simp only [isSpace, hblank, decide_false, Bool.false_or, Bool.and_eq_false_iff, decide_eq_false_iff_not]
  omega

private theorem sign_of_isDigit {c : Char} (h : c.isDigit) (s : Text) : sign (c :: s) = (false, c :: s) := by
  unfold sign
  split
  · rename_i heq
    obtain ⟨rfl, -⟩ := List.cons.inj heq
    exact absurd h (by decide)
  · rename_i heq
    obtain ⟨rfl, -⟩ := List.cons.inj heq
    exact absurd h (by decide)
  · rfl

/-- `atoi` reads a number up to the first character that is no digit. -/
theorem atoi_decimal {n : Nat} (hn : n < 2147483648) {rest : Text} (hrest : ∀ c ∈ rest.head?, ¬ c.isDigit) :
    atoi (decimal n ++ rest) = some (n : Int) := by
  obtain ⟨c, cs, hdigits⟩ := List.exists_cons_of_ne_nil (decimal_ne_nil n)
  have hc : c.isDigit := isDigit_of_mem_decimal (n := n) (by simp [hdigits])
  have hspaces : (decimal n ++ rest).dropWhile isSpace = decimal n ++ rest := by
    rw [hdigits, List.cons_append, List.dropWhile_cons_of_neg (by simp [isSpace_of_isDigit hc])]
  have hsign : sign (decimal n ++ rest) = (false, decimal n ++ rest) := by
    rw [hdigits, List.cons_append, sign_of_isDigit hc]
  have htake : (decimal n ++ rest).takeWhile Char.isDigit = decimal n := by
    rw [List.takeWhile_append_of_pos fun c hc => isDigit_of_mem_decimal hc]
    cases rest with
    | nil => simp
    | cons d rest => simp [hrest d rfl]
  have hvalue : Nat.ofDigitChars 10 (decimal n) 0 = n := Nat.ofDigitChars_ten_toDigits
  simp only [atoi, hspaces, hsign, htake, hvalue, Bool.false_eq_true, if_false]
  rw [inInt, if_pos (by omega)]

end Text

end Comp556
