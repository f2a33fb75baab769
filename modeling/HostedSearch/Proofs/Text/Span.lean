import Mathlib.Data.List.TakeWhile

/-!
# The longest front of a text

A reader that takes characters of a kind as long as there are any takes just the part that was
meant, if what follows does not begin with a further character of that kind.
-/

namespace HostedSearch

variable {kind : Char → Bool}

/-- The text does not begin with a character of the kind. -/
def Stops (kind : Char → Bool) (rest : List Char) : Prop :=
  ∀ c, rest.head? = some c → kind c = false

/-- An empty text begins with nothing. -/
theorem Stops.nil : Stops kind [] := by
  intro c hc
  cases hc

/-- A text begins with its first character. -/
theorem Stops.cons {c : Char} (hc : kind c = false) (rest : List Char) :
    Stops kind (c :: rest) := by
  intro d hd
  obtain rfl : c = d := Option.some.inj hd
  exact hc

/-- A text begins with the first character of its front, if there is one. -/
theorem Stops.append {front rest : List Char} (hfront : ∀ c ∈ front, kind c = false)
    (hrest : Stops kind rest) : Stops kind (front ++ rest) := by
  cases front with
  | nil => exact hrest
  | cons c front => exact Stops.cons (hfront c List.mem_cons_self) _

/-- A text that does not begin with a character of a kind does not begin with one of a narrower
kind. -/
theorem Stops.of_imp {kind narrower : Char → Bool} {rest : List Char} (h : Stops kind rest)
    (himp : ∀ c, narrower c → kind c) : Stops narrower rest := by
  intro c hc
  refine Bool.eq_false_iff.mpr fun hnarrower => ?_
  exact Bool.eq_false_iff.mp (h c hc) (himp c hnarrower)

/-- What is left when the characters of a kind are dropped does not begin with another. -/
theorem stops_dropWhile (cs : List Char) : Stops kind (cs.dropWhile kind) := by
  induction cs with
  | nil => exact Stops.nil
  | cons c cs ih =>
    by_cases hc : kind c
    · rw [List.dropWhile_cons_of_pos hc]
      exact ih
    · rw [List.dropWhile_cons_of_neg hc]
      exact Stops.cons (Bool.not_eq_true _ ▸ hc) cs

/-- Nothing is taken from a text that does not begin with a character of the kind. -/
theorem Stops.takeWhile_eq_nil {rest : List Char} (h : Stops kind rest) :
    rest.takeWhile kind = [] := by
  cases rest with
  | nil => rfl
  | cons c rest => simp [h c rfl]

/-- Nothing is dropped from a text that does not begin with a character of the kind. -/
theorem Stops.dropWhile_eq_self {rest : List Char} (h : Stops kind rest) :
    rest.dropWhile kind = rest := by
  cases rest with
  | nil => rfl
  | cons c rest => simp [h c rfl]

/-- All characters of the kind are taken, and no more. -/
theorem takeWhile_append_of_stops {front rest : List Char} (hfront : ∀ c ∈ front, kind c)
    (hrest : Stops kind rest) : (front ++ rest).takeWhile kind = front := by
  rw [List.takeWhile_append_of_pos hfront, hrest.takeWhile_eq_nil, List.append_nil]

/-- All characters of the kind are dropped, and no more. -/
theorem dropWhile_append_of_stops {front rest : List Char} (hfront : ∀ c ∈ front, kind c)
    (hrest : Stops kind rest) : (front ++ rest).dropWhile kind = rest := by
  rw [List.dropWhile_append_of_pos hfront, hrest.dropWhile_eq_self]

end HostedSearch
