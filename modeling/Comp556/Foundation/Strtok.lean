import Mathlib.Data.List.TakeWhile

/-!
# Tokens of a C string

`strtok` with a single delimiter, on the bytes of a string from its start up to and past its
terminating zero.
-/

namespace Comp556

/-- What `strtok` leaves behind: where the token starts, the string with the token terminated, and
where the next call begins. -/
structure Token where
  start : Nat
  text : List UInt8
  next : Nat
  deriving DecidableEq, Repr

/-- `strtok(text + pos, delim)`, or `strtok(NULL, delim)` when `pos` is where the last call ended. -/
def strtok (delim : UInt8) (text : List UInt8) (pos : Nat) : Option Token :=
  let start := pos + ((text.drop pos).takeWhile (· = delim)).length
  let token := (text.drop start).takeWhile fun c => c ≠ delim ∧ c ≠ 0
  let stop := start + token.length
  if token = [] then none
  else if text[stop]? = some delim then some ⟨start, text.set stop 0, stop + 1⟩
  else some ⟨start, text, stop⟩

/-- A nonempty run of bytes that neither separate tokens nor end the string. -/
structure IsToken (delim : UInt8) (token : List UInt8) : Prop where
  nonempty : token ≠ []
  inside : ∀ c ∈ token, c ≠ delim ∧ c ≠ 0

variable {delim : UInt8} {token : List UInt8}

private theorem drop_before (before rest : List UInt8) : (before ++ rest).drop before.length = rest :=
  List.drop_left

/-- A token that begins where the search does ends at the next byte that is not part of it. -/
theorem IsToken.strtok_eq (h : IsToken delim token) (before rest : List UInt8) {last : UInt8}
    (hlast : last = delim ∨ last = 0) :
    strtok delim (before ++ (token ++ last :: rest)) before.length =
      some (if last = delim then
        ⟨before.length, before ++ (token ++ 0 :: rest), before.length + token.length + 1⟩
      else ⟨before.length, before ++ (token ++ last :: rest), before.length + token.length⟩) := by
  have hspaces : (token ++ last :: rest).takeWhile (· = delim) = [] := by
    cases token with
    | nil => exact absurd rfl h.nonempty
    | cons c token =>
      have hc := (h.inside c List.mem_cons_self).1
      simp [hc]
  have htoken : (token ++ last :: rest).takeWhile (fun c => c ≠ delim ∧ c ≠ 0) = token := by
    rw [List.takeWhile_append_of_pos (by simpa using h.inside)]
    rcases hlast with rfl | rfl <;> simp
  have hstop : (before ++ (token ++ last :: rest))[before.length + token.length]? = some last := by
    rw [List.getElem?_append_right (by omega), Nat.add_sub_cancel_left, List.getElem?_append_right (by omega)]
    simp
  have hset : (before ++ (token ++ last :: rest)).set (before.length + token.length) 0 =
      before ++ (token ++ 0 :: rest) := by
    rw [List.set_append_right _ _ (by omega), Nat.add_sub_cancel_left, List.set_append_right _ _ (by omega)]
    simp
  unfold strtok
  rw [drop_before, hspaces]
  simp only [List.length_nil, Nat.add_zero]
  rw [drop_before, htoken, if_neg h.nonempty, hstop, hset]
  by_cases heq : last = delim
  · simp [heq]
  · simp [heq]

end Comp556
