import HostedSearch.Proofs.Number.Digits

/-!
# Texts that are natural numbers

A reader with a limit takes a text as a natural number when it is made of digits, perhaps behind a
plus sign, and its number is within the limit. That the limit is watched digit by digit makes no
difference, since a number only grows as digits follow.
-/

namespace HostedSearch

/-- One or more digits, perhaps behind a plus sign, and the number that they stand for. -/
inductive IsNatural : List Char → Nat → Prop where
  | digits {cs : List Char} (hcs : cs ≠ []) (hdigits : ∀ c ∈ cs, c.isDigit) :
      IsNatural cs (natOfDigits cs)
  | signed {cs : List Char} (hcs : cs ≠ []) (hdigits : ∀ c ∈ cs, c.isDigit) :
      IsNatural ('+' :: cs) (natOfDigits cs)

variable {limit n : Nat} {beyond : IntegerFault}

/-- What is read are digits, whose number is within the limit. -/
theorem of_readDigits_eq_ok {cs : List Char} {total : Nat} (htotal : total ≤ limit)
    (h : readDigits limit beyond total cs = .ok n) :
    (∀ c ∈ cs, c.isDigit) ∧ Nat.ofDigitChars 10 cs total = n ∧ n ≤ limit := by
  induction cs generalizing total with
  | nil =>
    obtain rfl := Except.ok.inj h
    exact ⟨by simp, rfl, htotal⟩
  | cons c cs ih =>
    rw [readDigits] at h
    split at h
    · next hc =>
      dsimp only at h
      split at h
      · next hnext =>
        obtain ⟨hdigits, hvalue, hn⟩ := ih hnext h
        rw [Nat.ofDigitChars_cons, Nat.mul_comm]
        exact ⟨List.forall_mem_cons.mpr ⟨hc, hdigits⟩, hvalue, hn⟩
      · cases h
    · cases h

/-- A magnitude is read exactly from digits whose number is within the limit. -/
theorem readMagnitude_eq_ok_iff {cs : List Char} :
    readMagnitude limit beyond cs = .ok n ↔
      cs ≠ [] ∧ (∀ c ∈ cs, c.isDigit) ∧ natOfDigits cs = n ∧ n ≤ limit := by
  cases cs with
  | nil => simp [readMagnitude]
  | cons c cs =>
    rw [natOfDigits_eq_ofDigitChars, readMagnitude]
    · constructor
      · intro h
        exact ⟨List.cons_ne_nil c cs, of_readDigits_eq_ok (Nat.zero_le limit) h⟩
      · rintro ⟨-, hdigits, rfl, hlimit⟩
        exact readDigits_eq_ok hdigits hlimit
    · exact List.cons_ne_nil c cs

/-- A natural number is read exactly from a text for it, within the limit. -/
theorem readNatural_eq_ok_iff {cs : List Char} :
    readNatural limit cs = .ok n ↔ IsNatural cs n ∧ n ≤ limit := by
  have hplus : ¬ ('+' : Char).isDigit := by decide
  constructor
  · intro h
    unfold readNatural at h
    split at h
    · cases h
    · obtain ⟨hcs, hdigits, rfl, hlimit⟩ := readMagnitude_eq_ok_iff.mp h
      exact ⟨.signed hcs hdigits, hlimit⟩
    · obtain ⟨hcs, hdigits, rfl, hlimit⟩ := readMagnitude_eq_ok_iff.mp h
      exact ⟨.digits hcs hdigits, hlimit⟩
  · rintro ⟨hnatural, hlimit⟩
    cases hnatural with
    | digits hcs hdigits =>
      have hsign : ∀ rest, cs ≠ '+' :: rest := by
        rintro rest rfl
        exact hplus (hdigits '+' List.mem_cons_self)
      rw [readNatural.eq_3 _ _ hcs hsign]
      exact readMagnitude_eq_ok_iff.mpr ⟨hcs, hdigits, rfl, hlimit⟩
    | signed hcs hdigits => exact readMagnitude_eq_ok_iff.mpr ⟨hcs, hdigits, rfl, hlimit⟩

/-- An unsigned 64-bit integer is read exactly from a text for it. -/
theorem readUInt64_eq_ok_iff {cs : List Char} {word : UInt64} :
    readUInt64 cs = .ok word ↔ IsNatural cs word.toNat := by
  have hword : word.toNat ≤ UInt64.size - 1 := Nat.le_sub_one_of_lt word.toNat_lt_size
  rw [readUInt64]
  constructor
  · intro h
    cases hread : readNatural (UInt64.size - 1) cs with
    | error fault => rw [hread] at h; cases h
    | ok m =>
      obtain ⟨hnatural, hm⟩ := readNatural_eq_ok_iff.mp hread
      rw [hread] at h
      obtain rfl : UInt64.ofNat m = word := Except.ok.inj h
      have hsize : 0 < UInt64.size := by decide
      rwa [UInt64.toNat_ofNat_of_lt' (by omega)]
  · intro h
    rw [readNatural_eq_ok_iff.mpr ⟨h, hword⟩]
    exact congrArg Except.ok (UInt64.ofNat_toNat)

end HostedSearch
