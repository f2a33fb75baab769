import HostedSearch.Proofs.Json.Step
import HostedSearch.Proofs.Number.Numeral
import HostedSearch.Proofs.Text.Span
import Mathlib.Data.List.Forall2

/-!
# Items between brackets

The items of an array stand between brackets, and the members of an object between braces. They are
separated by commas, and there may be space around each of them. A reader of items that takes every
item from its text takes the array, and a reader of members that takes every member, one state
leading to the next, takes the object.
-/

namespace HostedSearch

namespace Json

variable {α ν σ : Type}

/-- Space between tokens, if there is any. -/
def IsSpaces (cs : List Char) : Prop :=
  ∀ c ∈ cs, isSpace c

/-- Texts that are separated by commas, with space behind each and before the next. -/
inductive Separated : List (List Char) → List Char → Prop
  | last {text behind : List Char} (hbehind : IsSpaces behind) : Separated [text] (text ++ behind)
  | more {text behind before others : List Char} {texts : List (List Char)}
      (hbehind : IsSpaces behind) (hbefore : IsSpaces before) (h : Separated texts others) :
    Separated (text :: texts) (text ++ (behind ++ ',' :: (before ++ others)))

/-- Texts between an opening and a closing character; where there are none there may be space. -/
inductive Enclosed (opening closing : Char) : List (List Char) → List Char → Prop
  | empty {space : List Char} (hspace : IsSpaces space) :
    Enclosed opening closing [] (opening :: (space ++ [closing]))
  | full {before body : List Char} {texts : List (List Char)} (hbefore : IsSpaces before)
      (h : Separated texts body) :
    Enclosed opening closing texts (opening :: (before ++ (body ++ [closing])))

/-- The name of a member, a colon and the text of its value, with space around the colon. -/
inductive MemberSpelledAs (name : ν → List Char → Prop) (member : ν × List Char) :
    List Char → Prop
  | mk {text before behind : List Char} (hname : name member.1 text) (hbefore : IsSpaces before)
      (hbehind : IsSpaces behind) :
    MemberSpelledAs name member (text ++ (before ++ ':' :: (behind ++ member.2)))

/-- The text begins with a token that closes no array. -/
def StartsItem (text : List Char) : Prop :=
  ∃ c cs, text = c :: cs ∧ isSpace c = false ∧ c ≠ ']'

/-! ## Space -/

/-- There need not be any space. -/
theorem IsSpaces.nil : IsSpaces [] := by
  simp [IsSpaces]

/-- Space is passed over. -/
theorem IsSpaces.skipSpace_append {space : List Char} (h : IsSpaces space) (cs : List Char) :
    skipSpace (space ++ cs) = skipSpace cs :=
  List.dropWhile_append_of_pos h

/-- What is no space is not passed over. -/
theorem skipSpace_cons {c : Char} (hc : isSpace c = false) (cs : List Char) :
    skipSpace (c :: cs) = c :: cs :=
  (Stops.cons hc cs).dropWhile_eq_self

/-- Space is passed over up to a token. -/
theorem IsSpaces.skipSpace_append_cons {space : List Char} (h : IsSpaces space) {c : Char}
    (hc : isSpace c = false) (cs : List Char) : skipSpace (space ++ c :: cs) = c :: cs := by
  rw [h.skipSpace_append, skipSpace_cons hc]

/-- Space does not continue a number. -/
theorem isNumeric_eq_false_of_isSpace {c : Char} (hc : isSpace c) : isNumeric c = false := by
  obtain rfl | rfl | rfl | rfl : c = ' ' ∨ c = '\n' ∨ c = '\r' ∨ c = '\t' := by
    simpa [isSpace, or_assoc] using hc
  all_goals decide

/-- Nothing but space is passed over to the end. -/
theorem IsSpaces.skipSpace_eq_nil {space : List Char} (h : IsSpaces space) :
    skipSpace space = [] := by
  have hskip := h.skipSpace_append []
  rwa [List.append_nil] at hskip

/-- A number ends before space. -/
theorem IsSpaces.stops {space : List Char} (h : IsSpaces space) : Stops isNumeric space := by
  have hstops := Stops.append (fun d hd => isNumeric_eq_false_of_isSpace (h d hd)) Stops.nil
  rwa [List.append_nil] at hstops

/-- A number ends before space and a token that is no part of it. -/
theorem IsSpaces.stops_append_cons {space : List Char} (h : IsSpaces space) {c : Char}
    (hc : isNumeric c = false) (cs : List Char) : Stops isNumeric (space ++ c :: cs) :=
  Stops.append (fun d hd => isNumeric_eq_false_of_isSpace (h d hd)) (Stops.cons hc cs)

/-- There need not be space behind the last text. -/
theorem Separated.singleton (text : List Char) : Separated [text] text := by
  have hlast : Separated [text] (text ++ []) := .last .nil
  rwa [List.append_nil] at hlast

/-- There need not be space around a comma. -/
theorem Separated.cons (text : List Char) {others : List Char} {texts : List (List Char)}
    (h : Separated texts others) : Separated (text :: texts) (text ++ ',' :: others) := by
  have hmore : Separated (text :: texts) (text ++ ([] ++ ',' :: ([] ++ others))) :=
    .more .nil .nil h
  rwa [List.nil_append, List.nil_append] at hmore

/-! ## Lengths -/

/-- Every further text is behind a comma. -/
theorem Separated.length_le {texts : List (List Char)} {body : List Char}
    (h : Separated texts body) : texts.length ≤ body.length + 1 := by
  induction h with
  | last hbehind => exact Nat.le_add_left 1 _
  | more hbehind hbefore h ih =>
    simp only [List.length_cons, List.length_append]
    omega

/-- A text is no longer than all texts together. -/
theorem Separated.length_le_of_mem {texts : List (List Char)} {body text : List Char}
    (h : Separated texts body) (htext : text ∈ texts) : text.length ≤ body.length := by
  induction h with
  | last hbehind =>
    obtain rfl := List.mem_singleton.mp htext
    simp only [List.length_append]
    omega
  | more hbehind hbefore h ih =>
    simp only [List.length_cons, List.length_append]
    obtain rfl | htext := List.mem_cons.mp htext
    · omega
    · have := ih htext
      omega

/-- A text between brackets is shorter than what is enclosed in them together with the brackets. -/
theorem Enclosed.length_lt_of_mem {opening closing : Char} {texts : List (List Char)}
    {whole text : List Char} (h : Enclosed opening closing texts whole) (htext : text ∈ texts) :
    text.length < whole.length := by
  cases h with
  | empty hspace => cases htext
  | full hbefore h =>
    have := h.length_le_of_mem htext
    simp only [List.length_cons, List.length_append]
    omega

/-- Every item of a list has a partner in a list that is related to it. -/
theorem exists_mem_of_forall₂ {α β : Type} {R : α → β → Prop} {as : List α} {bs : List β}
    (h : List.Forall₂ R as bs) {a : α} (ha : a ∈ as) : ∃ b ∈ bs, R a b := by
  induction h with
  | nil => cases ha
  | cons hR _ ih =>
    obtain rfl | ha := List.mem_cons.mp ha
    · exact ⟨_, List.mem_cons_self, hR⟩
    · obtain ⟨b, hb, hR⟩ := ih ha
      exact ⟨b, List.mem_cons_of_mem _ hb, hR⟩

/-- The value of a member between braces is shorter than what is enclosed in them. -/
theorem Enclosed.length_lt_of_spelledAs {name : ν → List Char → Prop}
    {members : List (ν × List Char)} {texts : List (List Char)} {opening closing : Char}
    {whole : List Char} (h : Enclosed opening closing texts whole)
    (hspelled : List.Forall₂ (MemberSpelledAs name) members texts) {m : ν × List Char}
    (hm : m ∈ members) : m.2.length < whole.length := by
  obtain ⟨text, htext, ⟨-, -, -⟩⟩ := exists_mem_of_forall₂ hspelled hm
  have hlt := h.length_lt_of_mem htext
  simp only [List.length_cons, List.length_append] at hlt
  omega

/-! ## Arrays -/

/-- The reader takes the value from its text, behind any space. -/
def TakesText (reader : Reader α) (text : List Char) (a : α) : Prop :=
  ∀ space rest, IsSpaces space → Stops isNumeric rest →
    reader (space ++ (text ++ rest)) = .ok (a, rest)

/-- Items are taken one after the other. -/
theorem readItems_of_separated {item : Reader α} {texts : List (List Char)} {body : List Char}
    (h : Separated texts body) {as : List α} (hitems : List.Forall₂ (TakesText item) texts as)
    {bound : Nat} (hbound : texts.length ≤ bound) {before : List Char} (hbefore : IsSpaces before)
    (rest : List Char) :
    readItems item bound (before ++ (body ++ ']' :: rest)) = .ok (as, rest) := by
  induction h generalizing as bound before with
  | last hbehind =>
    obtain ⟨a, as, ha, hnil, rfl⟩ := List.forall₂_cons_left_iff.mp hitems
    obtain rfl := List.forall₂_nil_left_iff.mp hnil
    obtain ⟨bound, rfl⟩ := Nat.exists_eq_add_of_le' hbound
    have hfirst := ha before _ hbefore (hbehind.stops_append_cons (c := ']') (by decide) rest)
    rw [List.append_assoc]
    exact readItems_singleton_eq_ok_iff.mpr
      ⟨_, hfirst, hbehind.skipSpace_append_cons (by decide) rest⟩
  | @more text behind before' others texts hbehind hbefore' h ih =>
    obtain ⟨a, as, ha, hothers, rfl⟩ := List.forall₂_cons_left_iff.mp hitems
    obtain ⟨bound, rfl⟩ : ∃ b, bound = b + 1 :=
      Nat.exists_eq_add_of_le' (Nat.le_trans (Nat.le_add_left 1 _) hbound)
    have hfirst := ha before _ hbefore
      (hbehind.stops_append_cons (c := ',') (by decide) (before' ++ (others ++ ']' :: rest)))
    have hmore := ih hothers (Nat.le_of_succ_le_succ hbound) hbefore'
    simp only [List.append_assoc, List.cons_append]
    exact readItems_succ_eq_ok_iff.mpr ⟨a, _, hfirst,
      .inl ⟨_, as, hbehind.skipSpace_append_cons (by decide) _, hmore, rfl⟩⟩

/-- Texts that are separated begin with the first of them. -/
theorem Separated.exists_append {texts : List (List Char)} {body : List Char}
    (h : Separated texts body) : ∃ text ∈ texts, ∃ others, body = text ++ others := by
  cases h with
  | last hbehind => exact ⟨_, List.mem_cons_self, _, rfl⟩
  | more hbehind hbefore h => exact ⟨_, List.mem_cons_self, _, rfl⟩

/-- An array is taken from behind its bracket, if its items are. -/
theorem readArray_of_enclosed {item : Reader α} {texts : List (List Char)} {whole : List Char}
    (h : Enclosed '[' ']' texts whole) {as : List α}
    (hitems : List.Forall₂ (TakesText item) texts as) (hstarts : ∀ text ∈ texts, StartsItem text)
    (rest : List Char) :
    ∃ cs, whole ++ rest = '[' :: cs ∧ readArray item cs = .ok (as, rest) := by
  cases h with
  | empty hspace =>
    obtain rfl := List.forall₂_nil_left_iff.mp hitems
    simp only [List.append_assoc, List.cons_append, List.nil_append]
    exact ⟨_, rfl, readArray_eq_ok_iff.mpr
      (.inl ⟨hspace.skipSpace_append_cons (by decide) rest, rfl⟩)⟩
  | @full before body _ hbefore h =>
    obtain ⟨text, htext, others, rfl⟩ := h.exists_append
    obtain ⟨c, cs, rfl, hc, hbracket⟩ := hstarts text htext
    have hlength := h.length_le
    have hread (bound : Nat) (hbound : texts.length ≤ bound) :=
      readItems_of_separated h hitems hbound IsSpaces.nil rest
    simp only [List.append_assoc, List.cons_append, List.nil_append, List.length_cons,
      List.length_append] at hlength hread ⊢
    refine ⟨_, rfl, readArray_eq_ok_iff.mpr (.inr ?_)⟩
    rw [hbefore.skipSpace_append_cons hc]
    refine ⟨fun cs' heq => hbracket (List.cons.inj heq).1, hread _ ?_⟩
    simp only [List.length_cons, List.length_append]
    omega

/-! ## Objects -/

/-- The reader of names takes every name from a text that spells it, the quote before it taken. -/
def TakesNames (name : Reader ν) (spelled : ν → List Char → Prop) : Prop :=
  ∀ n text, spelled n text →
    ∃ body, text = '"' :: body ∧ ∀ rest, name (body ++ rest) = .ok (n, rest)

/-- The reader takes a member from behind its name, and one state leads to the next. -/
def TakesMember (member : σ → ν → Reader σ) (state : σ) (m : ν × List Char) (next : σ) : Prop :=
  ∀ before behind rest, IsSpaces before → IsSpaces behind → Stops isNumeric rest →
    member state m.1 (before ++ ':' :: (behind ++ (m.2 ++ rest))) = .ok (next, rest)

/-- The reader takes members one after the other, each state leading to the next. -/
inductive TakesMembers (member : σ → ν → Reader σ) : σ → List (ν × List Char) → σ → Prop
  | nil {state : σ} : TakesMembers member state [] state
  | cons {state next last : σ} {m : ν × List Char} {members : List (ν × List Char)}
      (hm : TakesMember member state m next) (h : TakesMembers member next members last) :
    TakesMembers member state (m :: members) last

/-- The colon is taken from behind the space before it. -/
theorem IsSpaces.takeColon_append {space : List Char} (h : IsSpaces space) (cs : List Char) :
    takeColon (space ++ ':' :: cs) = .ok cs :=
  takeColon_eq_ok_iff.mpr (h.skipSpace_append_cons (by decide) cs)

variable {name : Reader ν} {spelled : ν → List Char → Prop} {member : σ → ν → Reader σ}

/-- Members are taken one after the other, if the state is known behind any of them. -/
theorem takesMembers_map {ι : Type} {f : ι → ν × List Char} {members : List ι}
    (state : List ι → σ)
    (h : ∀ before m behind, members = before ++ m :: behind →
      TakesMember member (state before) (f m) (state (before ++ [m]))) :
    TakesMembers member (state []) (members.map f) (state members) := by
  suffices hrest : ∀ behind before, members = before ++ behind →
      TakesMembers member (state before) (behind.map f) (state members) from
    hrest members [] rfl
  intro behind
  induction behind with
  | nil =>
    intro before heq
    rw [heq, List.append_nil]
    exact .nil
  | cons m behind ih =>
    intro before heq
    exact .cons (h before m behind heq) (ih (before ++ [m]) (by simpa using heq))

/-- Members begin with the quote before the first name. -/
theorem Separated.exists_eq_quote_cons (hname : TakesNames name spelled)
    {texts : List (List Char)} {body : List Char} (h : Separated texts body)
    {members : List (ν × List Char)}
    (hspelled : List.Forall₂ (MemberSpelledAs spelled) members texts) :
    ∃ cs, body = '"' :: cs := by
  have hfirst {m : ν × List Char} {text : List Char} (hm : MemberSpelledAs spelled m text)
      (others : List Char) : ∃ cs, text ++ others = '"' :: cs := by
    obtain ⟨hn, -, -⟩ := hm
    obtain ⟨nameBody, rfl, -⟩ := hname m.1 _ hn
    exact ⟨_, rfl⟩
  cases h with
  | last hbehind =>
    obtain ⟨m, -, hm, -⟩ := List.forall₂_cons_right_iff.mp hspelled
    exact hfirst hm _
  | more hbehind hbefore h =>
    obtain ⟨m, -, hm, -⟩ := List.forall₂_cons_right_iff.mp hspelled
    exact hfirst hm _

/-- Members are taken one after the other. -/
theorem readMembers_of_separated (hname : TakesNames name spelled) {texts : List (List Char)}
    {body : List Char} (h : Separated texts body) {members : List (ν × List Char)}
    (hspelled : List.Forall₂ (MemberSpelledAs spelled) members texts) {state last : σ}
    (hmembers : TakesMembers member state members last) {bound : Nat}
    (hbound : texts.length ≤ bound) (rest : List Char) :
    readMembers name member bound state (body ++ '}' :: rest) = .ok (last, rest) := by
  induction h generalizing members state bound with
  | last hbehind =>
    obtain ⟨m, members, ⟨hn, hbefore, hcolon⟩, hnil, rfl⟩ := List.forall₂_cons_right_iff.mp hspelled
    obtain rfl := List.forall₂_nil_right_iff.mp hnil
    obtain ⟨bound, rfl⟩ := Nat.exists_eq_add_of_le' hbound
    obtain ⟨nameBody, rfl, hread⟩ := hname m.1 _ hn
    cases hmembers with
    | cons hm hnone =>
      cases hnone
      simp only [List.append_assoc, List.cons_append]
      exact readMembers_succ_eq_ok_iff.mpr ⟨_, m.1, _, last, _, rfl, hread _,
        hm _ _ _ hbefore hcolon (hbehind.stops_append_cons (c := '}') (by decide) rest),
        .inr ⟨hbehind.skipSpace_append_cons (by decide) rest, rfl⟩⟩
  | @more text behind before' others texts hbehind hbefore' h ih =>
    obtain ⟨m, members, ⟨hn, hbefore, hcolon⟩, hothers, rfl⟩ :=
      List.forall₂_cons_right_iff.mp hspelled
    obtain ⟨bound, rfl⟩ : ∃ b, bound = b + 1 :=
      Nat.exists_eq_add_of_le' (Nat.le_trans (Nat.le_add_left 1 _) hbound)
    obtain ⟨nameBody, rfl, hread⟩ := hname m.1 _ hn
    obtain ⟨cs, rfl⟩ := h.exists_eq_quote_cons hname hothers
    cases hmembers with
    | cons hm hmembers =>
      have hmore := ih hothers hmembers (Nat.le_of_succ_le_succ hbound)
      simp only [List.append_assoc, List.cons_append] at hmore ⊢
      refine readMembers_succ_eq_ok_iff.mpr ⟨_, m.1, _, _, _, rfl, hread _,
        hm _ _ _ hbefore hcolon (hbehind.stops_append_cons (c := ',') (by decide) _),
        .inl ⟨_, hbehind.skipSpace_append_cons (by decide) _, ?_⟩⟩
      rw [hbefore'.skipSpace_append_cons (by decide)]
      exact hmore

/-- An object is taken from behind its brace, if its members are. -/
theorem readObject_of_enclosed (hname : TakesNames name spelled) {texts : List (List Char)}
    {whole : List Char} (h : Enclosed '{' '}' texts whole) {members : List (ν × List Char)}
    (hspelled : List.Forall₂ (MemberSpelledAs spelled) members texts) {start last : σ}
    (hmembers : TakesMembers member start members last) (rest : List Char) :
    ∃ cs, whole ++ rest = '{' :: cs ∧ readObject name member start cs = .ok (last, rest) := by
  cases h with
  | empty hspace =>
    obtain rfl := List.forall₂_nil_right_iff.mp hspelled
    obtain ⟨⟩ := hmembers
    simp only [List.append_assoc, List.cons_append, List.nil_append]
    exact ⟨_, rfl, readObject_eq_ok_iff.mpr
      (.inl ⟨hspace.skipSpace_append_cons (by decide) rest, rfl⟩)⟩
  | @full before body _ hbefore h =>
    obtain ⟨cs, rfl⟩ := h.exists_eq_quote_cons hname hspelled
    have hlength := h.length_le
    have hread (bound : Nat) (hbound : texts.length ≤ bound) :=
      readMembers_of_separated hname h hspelled hmembers hbound rest
    rw [List.length_cons] at hlength
    simp only [List.append_assoc, List.cons_append, List.nil_append] at hread ⊢
    refine ⟨_, rfl, readObject_eq_ok_iff.mpr (.inr ?_)⟩
    rw [hbefore.skipSpace_append_cons (by decide)]
    refine hread _ ?_
    simp only [List.length_cons, List.length_append]
    omega

end Json

end HostedSearch
