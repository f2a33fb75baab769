import HostedSearch.Filter.Basic
import HostedSearch.Proofs.Text.Delimited

/-!
# Names of fields

Statements about queries depend on how the fields of a filter are named. A plain name has only
letters, digits and underscores, so that it ends where anything else stands.
-/

namespace HostedSearch

/-- Whether a name has only letters, digits and underscores. -/
def isPlainName (name : String) : Bool :=
  name.toList.all fun c => c.isAlphanum || c == '_'

mutual

/-- Every field named in a clause has a name of this kind. -/
def Clause.EveryName (valid : String → Prop) : Clause → Prop
  | .allOf inner => everyName valid inner
  | .anyOf inner => everyName valid inner
  | .noneOf inner => everyName valid inner
  | .field name _ => valid name

/-- Every field named in clauses has a name of this kind. -/
def everyName (valid : String → Prop) : List Clause → Prop
  | [] => True
  | clause :: clauses => clause.EveryName valid ∧ everyName valid clauses

end

/-- Every field named in a filter, at any depth, has a name of this kind. -/
def Filter.EveryName (valid : String → Prop) (filter : Filter) : Prop :=
  everyName valid filter

/-- A plain name ends where another character stands. -/
theorem plainName_append_inj {a b : String} (ha : isPlainName a) (hb : isPlainName b) {c : Char}
    (hc : (c.isAlphanum || c == '_') = false) {s t : List Char}
    (h : a.toList ++ c :: s = b.toList ++ c :: t) : a = b ∧ s = t := by
  obtain ⟨hname, hrest⟩ :=
    word_append_inj (List.all_eq_true.mp ha) (List.all_eq_true.mp hb) hc hc h
  exact ⟨String.toList_inj.mp hname, (List.cons.inj hrest).2⟩

/-- A plain name and what follows it do not begin with a parenthesis. -/
theorem plainName_append_ne_paren_cons {name : String} (h : isPlainName name) {c : Char}
    (hc : c ≠ '(') (s t : List Char) : name.toList ++ c :: s ≠ '(' :: t := by
  intro heq
  cases hname : name.toList with
  | nil =>
    rw [hname] at heq
    exact hc (List.cons.inj heq).1
  | cons d ds =>
    rw [hname] at heq
    obtain rfl := (List.cons.inj heq).1
    have hparen := List.all_eq_true.mp h '(' (hname ▸ List.mem_cons_self)
    exact absurd hparen (by decide)

end HostedSearch
