import Mathlib.Data.List.TakeWhile

/-!
# Texts that show where they end

A word over an alphabet ends at the first character outside of the alphabet, so the word and
what follows it can be told apart. When the texts of all items can be told apart in this way, so
can lists of them: between two items stands a separator, and behind the last another character.
-/

namespace HostedSearch

/-- A word ends where its alphabet is left. -/
theorem word_append_inj {alphabet : Char → Bool} {xs ys s t : List Char} {c d : Char}
    (hxs : ∀ x ∈ xs, alphabet x) (hys : ∀ y ∈ ys, alphabet y)
    (hc : alphabet c = false) (hd : alphabet d = false)
    (h : xs ++ c :: s = ys ++ d :: t) : xs = ys ∧ c :: s = d :: t := by
  have htake := congrArg (List.takeWhile alphabet) h
  have hdrop := congrArg (List.dropWhile alphabet) h
  rw [List.takeWhile_append_of_pos hxs, List.takeWhile_append_of_pos hys] at htake
  rw [List.dropWhile_append_of_pos hxs, List.dropWhile_append_of_pos hys] at hdrop
  simp only [List.takeWhile_cons, List.dropWhile_cons, hc, hd] at htake hdrop
  exact ⟨by simpa using htake, by simpa using hdrop⟩

/-- The texts of items can be told apart from what follows, as long as it begins with a character
that ends an item. -/
def Delimited {α : Type} (text : α → List Char) (valid : α → Prop) (ends : Char → Prop) : Prop :=
  ∀ ⦃a b : α⦄ ⦃c d : Char⦄ ⦃s t : List Char⦄, valid a → valid b → ends c → ends d →
    text a ++ c :: s = text b ++ d :: t → a = b ∧ c :: s = d :: t

namespace Delimited

variable {α : Type} {text : α → List Char} {valid : α → Prop} {ends : Char → Prop}

/-- A list of items determines its items and where it ends, if the separator and the closing
character begin differently and both end an item. -/
theorem intercalate_append_inj (htext : Delimited text valid ends) {separator : List Char}
    {first close : Char} (hfirst : ends first) (hclose : ends close) (hne : first ≠ close)
    {xs ys : List α} (hxs : xs ≠ []) (hys : ys ≠ []) (hvx : ∀ x ∈ xs, valid x)
    (hvy : ∀ y ∈ ys, valid y) {s t : List Char}
    (h : (first :: separator).intercalate (xs.map text) ++ close :: s =
      (first :: separator).intercalate (ys.map text) ++ close :: t) :
    xs = ys ∧ s = t := by
  induction xs generalizing ys with
  | nil => exact absurd rfl hxs
  | cons x xs ih =>
    obtain ⟨y, ys, rfl⟩ := List.exists_cons_of_ne_nil hys
    rw [List.forall_mem_cons] at hvx hvy
    match xs, ys with
    | [], [] =>
      simp only [List.map_cons, List.map_nil, List.intercalate_singleton] at h
      obtain ⟨rfl, hrest⟩ := htext hvx.1 hvy.1 hclose hclose h
      exact ⟨rfl, (List.cons.inj hrest).2⟩
    | [], y' :: ys =>
      simp only [List.map_cons, List.map_nil, List.intercalate_singleton,
        List.intercalate_cons_cons, List.append_assoc, List.cons_append] at h
      obtain ⟨-, hrest⟩ := htext hvx.1 hvy.1 hclose hfirst h
      exact absurd (List.cons.inj hrest).1.symm hne
    | x' :: xs, [] =>
      simp only [List.map_cons, List.map_nil, List.intercalate_singleton,
        List.intercalate_cons_cons, List.append_assoc, List.cons_append] at h
      obtain ⟨-, hrest⟩ := htext hvx.1 hvy.1 hfirst hclose h
      exact absurd (List.cons.inj hrest).1 hne
    | x' :: xs, y' :: ys =>
      simp only [List.map_cons, List.intercalate_cons_cons, List.append_assoc,
        List.cons_append] at h
      obtain ⟨rfl, hrest⟩ := htext hvx.1 hvy.1 hfirst hfirst h
      have htail := List.append_cancel_left (List.cons.inj hrest).2
      obtain ⟨heq, hst⟩ := ih (List.cons_ne_nil _ _) (List.cons_ne_nil _ _) hvx.2 hvy.2
        (by simpa only [List.map_cons] using htail)
      exact ⟨by rw [heq], hst⟩

end Delimited

end HostedSearch
