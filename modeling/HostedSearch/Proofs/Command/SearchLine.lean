import HostedSearch.Command.Line
import HostedSearch.Proofs.Command.Argument
import Mathlib.Data.List.Perm.Basic

/-!
# Command lines that search

A search is a command line with arguments before and behind the name of the command, of which no
two give the same option unless it may be repeated, and at most one is a term. It is read as the
invocation whose parts are the values of its options, wherever they stand; so the arguments may
change places, and the options that concern the settings may move to the other side of the name, as
long as the values of the one repeatable option keep their order.
-/

namespace HostedSearch

namespace Command

/-! ## Before the name of a command -/

/-- Only an option that waits for its value can take a word that begins with a dash. -/
theorem Taken.takesDashes_eq_false {taken : Taken} (h : taken.isWaiting = false) :
    taken.takesDashes = false := by
  obtain ⟨given, terms, pending, termsOnly⟩ := taken
  cases pending with
  | none => rfl
  | some pending =>
    obtain ⟨switch, value⟩ := pending
    cases value with
    | none => cases h
    | some value => rfl

/-- The name of a command that stands free before the command is not taken as anything else. -/
theorem outerLevel_take_ne_ok {outer next : Taken} {word : String} (honly : outer.termsOnly = false)
    (hwaiting : outer.isWaiting = false) (hword : word ∈ commandNames) :
    outerLevel.take outer word ≠ .ok next := by
  have hplain : Word.ofText word = .plain := by
    refine Word.ofText_of_head?_ne ?_
    simp only [commandNames, List.mem_cons, List.not_mem_nil, or_false] at hword
    rcases hword with rfl | rfl | rfl | rfl <;> decide
  simp [Level.take, honly, Taken.takesDashes_eq_false hwaiting, hplain, hwaiting, Level.takeTerm,
    outerLevel]

/-- Words that are taken before the command are read one by one. -/
theorem read_append {outer next : Taken} {words : List String}
    (h : words.foldlM outerLevel.take outer = .ok next) (rest : List String) :
    Invocation.read outer (words ++ rest) = Invocation.read next rest := by
  induction words generalizing outer with
  | nil =>
    obtain rfl : outer = next := Except.ok.inj h
    rfl
  | cons word words ih =>
    rw [List.foldlM_cons] at h
    cases htake : outerLevel.take outer word with
    | error fault => rw [htake] at h; cases h
    | ok mid =>
      rw [htake] at h
      have hfree :
          (!outer.termsOnly && !outer.isWaiting && commandNames.contains word) = false := by
        refine Bool.eq_false_iff.mpr fun hfree => ?_
        simp only [Bool.and_eq_true, Bool.not_eq_true', List.contains_iff_mem] at hfree
        exact outerLevel_take_ne_ok hfree.1.1 hfree.1.2 hfree.2 htake
      rw [List.cons_append, Invocation.read, hfree, htake]
      exact ih h

/-! ## Searches -/

/-- A search on a command line: the arguments before the name of the command, and those behind. -/
structure SearchLine where
  before : List Argument
  behind : List Argument
  before_admitted : ∀ argument ∈ before, outerLevel.Admits argument
  behind_admitted : ∀ argument ∈ behind, searchLevel.Admits argument
  /-- Only fields to return are named more than once. -/
  distinct : ((before ++ behind).filterMap Argument.entry?).Pairwise fun first second =>
    first.1 = second.1 → second.1 = "return"
  oneTerm : ((before ++ behind).filterMap Argument.term?).length ≤ 1

/-- The options before the name of the command can be told apart from other words. -/
theorem outerLevel_isWritable : outerLevel.IsWritable :=
  Level.isWritable_of_all rfl

/-- The options of a search can be told apart from other words. -/
theorem searchLevel_isWritable : searchLevel.IsWritable :=
  Level.isWritable_of_all rfl

namespace SearchLine

/-- All arguments. -/
def arguments (line : SearchLine) : List Argument :=
  line.before ++ line.behind

/-- The line as it is written. -/
def words (line : SearchLine) : List String :=
  line.before.flatMap Argument.words ++ "search" :: line.behind.flatMap Argument.words

/-- The term. -/
def term? (line : SearchLine) : Option String :=
  (line.arguments.filterMap Argument.term?).head?

/-- The value of an option, wherever it stands. -/
def value? (line : SearchLine) (name : String) : Option String :=
  (line.arguments.filterMap Argument.entry?).lookup name

/-- Whether an option is given, wherever it stands. -/
def has (line : SearchLine) (name : String) : Bool :=
  (line.value? name).isSome

/-- The values of an option, in order. -/
def values (line : SearchLine) (name : String) : List String :=
  ((line.arguments.filterMap Argument.entry?).filter fun entry => entry.1 == name).map Prod.snd

/-- What the options of the search come to. -/
def options (line : SearchLine) : SearchOptions where
  filter := (line.value? "filter").bind filter?
  pageSize := (line.value? "page-size").bind pageNumber?
  page := (line.value? "page").bind pageNumber?
  ranking := (line.value? "rank").bind ranking?
  returnFields := (line.values "return").flatMap commaPieces
  queryOptions := line.value? "options"

/-- What the line asks for. -/
def invocation (line : SearchLine) : Invocation where
  settingsFile := line.value? "config"
  domain := line.value? "domain"
  live := line.has "live"
  verbose := line.has "verbose"
  command := .search line.term? line.options (line.has "print-url")

variable {line other : SearchLine} {name value : String}

/-- An option that does not concern the settings is not given before the name of the command. -/
theorem notMem_before (hname : outerLevel.switches.find? (·.name == name) = none)
    (value : String) : (name, value) ∉ line.before.filterMap Argument.entry? := by
  intro h
  obtain ⟨argument, hmem, hentry⟩ := List.mem_filterMap.mp h
  obtain ⟨switch, hswitch, -⟩ := (line.before_admitted argument hmem).exists_switch hentry
  rw [hname] at hswitch
  cases hswitch

/-- No term stands before the name of the command. -/
theorem filterMap_term?_before (line : SearchLine) : line.before.filterMap Argument.term? = [] := by
  refine List.filterMap_eq_nil_iff.mpr fun argument hargument => ?_
  cases line.before_admitted argument hargument with
  | term hterms hdash => exact absurd hterms (Nat.lt_irrefl 0)
  | flag hswitch heffect hfault => rfl
  | letter hswitch hletter heffect hfault => rfl
  | option hswitch heffect hdash hfault => rfl

/-- Options given more than once are repeatable in a search. -/
theorem searchLevel_repeats_return : searchLevel.Repeats "return" :=
  ⟨_, false, rfl, rfl⟩

/-- An option that is given but once has the one value that stands with it. -/
theorem value?_eq_some_iff (hname : name ≠ "return") :
    line.value? name = some value ↔ (name, value) ∈ line.arguments.filterMap Argument.entry? := by
  have hdistinct := line.distinct
  change (line.arguments.filterMap Argument.entry?).Pairwise _ at hdistinct
  unfold value?
  generalize line.arguments.filterMap Argument.entry? = entries at hdistinct
  induction entries with
  | nil => simp
  | cons entry entries ih =>
    obtain ⟨hfirst, hrest⟩ := List.pairwise_cons.mp hdistinct
    obtain ⟨key, text⟩ := entry
    rw [List.lookup_cons]
    by_cases hkey : name = key
    · subst hkey
      have hother : (name, value) ∉ entries := fun h => hname (hfirst _ h rfl)
      simp [hother, eq_comm]
    · simp only [beq_eq_false_iff_ne.mpr hkey, List.mem_cons, Prod.mk.injEq, hkey, false_and,
        false_or]
      exact ih hrest

/-- The entries before the name of the command stand first. -/
theorem filterMap_entry?_arguments (line : SearchLine) :
    line.arguments.filterMap Argument.entry? =
      line.before.filterMap Argument.entry? ++ line.behind.filterMap Argument.entry? :=
  List.filterMap_append

/-- The value of an option of the search stands behind the name of the command. -/
theorem lookup_behind (line : SearchLine) (name : String)
    (hname : outerLevel.switches.find? (·.name == name) = none) :
    (line.behind.filterMap Argument.entry?).lookup name = line.value? name := by
  have hbefore : (line.before.filterMap Argument.entry?).lookup name = none := by
    refine Option.eq_none_iff_forall_ne_some.mpr fun value hvalue => ?_
    exact notMem_before hname value (Association.mem_of_lookup_eq_some hvalue)
  rw [value?, filterMap_entry?_arguments, List.lookup_append, hbefore, Option.none_or]

/-- The values of an option of the search stand behind the name of the command. -/
theorem values_behind (line : SearchLine) (name : String)
    (hname : outerLevel.switches.find? (·.name == name) = none) :
    ((line.behind.filterMap Argument.entry?).filter fun entry => entry.1 == name).map Prod.snd =
      line.values name := by
  have hbefore : (line.before.filterMap Argument.entry?).filter (fun entry => entry.1 == name) =
      [] := by
    refine List.filter_eq_nil_iff.mpr fun entry hentry hkey => ?_
    obtain ⟨key, value⟩ := entry
    obtain rfl : key = name := beq_iff_eq.mp hkey
    exact notMem_before hname value hentry
  rw [values, filterMap_entry?_arguments, List.filter_append, hbefore, List.nil_append]

/-- The value of an option that is given but once does not depend on the side that is asked
first. -/
theorem or_lookup_before (hname : name ≠ "return") :
    ((line.behind.filterMap Argument.entry?).lookup name).or
      ((line.before.filterMap Argument.entry?).lookup name) = line.value? name := by
  rw [value?, filterMap_entry?_arguments, List.lookup_append]
  cases hbefore : (line.before.filterMap Argument.entry?).lookup name with
  | none => simp
  | some value =>
    cases hbehind : (line.behind.filterMap Argument.entry?).lookup name with
    | none => rfl
    | some again =>
      have hdistinct := line.distinct
      rw [List.filterMap_append, List.pairwise_append] at hdistinct
      exact absurd (hdistinct.2.2 _ (Association.mem_of_lookup_eq_some hbefore) _
        (Association.mem_of_lookup_eq_some hbehind) rfl) hname

/-! ## Reading -/

/-- The arguments behind the name of the command are taken. -/
theorem takeAll_behind (line : SearchLine) :
    searchLevel.takeAll (line.behind.flatMap Argument.words) =
      .ok { given := line.behind.filterMap Argument.entry?
            terms := line.behind.filterMap Argument.term? } := by
  have hdistinct := line.distinct
  have hterms := line.oneTerm
  rw [List.filterMap_append] at hdistinct hterms
  refine Level.takeAll_words searchLevel_isWritable line.behind_admitted ?_ ?_
  · exact (List.pairwise_append.mp hdistinct).2.1.imp fun himp hsame =>
      himp hsame ▸ searchLevel_repeats_return
  · rw [List.length_append] at hterms
    change _ ≤ 1
    omega

/-- The arguments before the name of the command are taken, up to an option that is still open. -/
theorem exists_foldlM_before (line : SearchLine) :
    ∃ outer, (line.before.flatMap Argument.words).foldlM outerLevel.take {} = .ok outer ∧
      outer.settle = .ok { given := line.before.filterMap Argument.entry? } := by
  have hdistinct := line.distinct
  rw [List.filterMap_append] at hdistinct
  -- What concerns the settings is not repeatable, so nothing is given twice here.
  have hnew : (line.before.filterMap Argument.entry?).Pairwise fun first second =>
      first.1 = second.1 → outerLevel.Repeats second.1 := by
    refine (List.pairwise_append.mp hdistinct).1.imp_of_mem ?_
    rintro first ⟨name, value⟩ - hsecond himp hsame
    obtain rfl : name = "return" := himp hsame
    exact absurd hsecond (notMem_before rfl value)
  obtain ⟨outer, houter, hsettle⟩ := Level.exists_foldlM_flatMap_words outerLevel_isWritable
    (rfl : Taken.settle {} = .ok { given := [], terms := [] }) line.before_admitted hnew
    (by rw [filterMap_term?_before]; exact Nat.le_refl 0)
  rw [filterMap_term?_before] at hsettle
  exact ⟨outer, houter, hsettle⟩

/-- The command of a search is read from the arguments behind its name. -/
theorem ofWords_behind (line : SearchLine) :
    Command.ofWords "search" (line.behind.flatMap Argument.words) =
      .ok ({ given := line.behind.filterMap Argument.entry?
             terms := line.behind.filterMap Argument.term? },
        .search line.term? line.options (line.has "print-url")) := by
  have hterm : line.term? = (line.behind.filterMap Argument.term?).head? := by
    rw [term?, arguments, List.filterMap_append, filterMap_term?_before, List.nil_append]
  have hoptions : line.options = searchOptions
      { given := line.behind.filterMap Argument.entry?
        terms := line.behind.filterMap Argument.term? } := by
    rw [options, ← line.lookup_behind "filter" rfl, ← line.lookup_behind "page-size" rfl,
      ← line.lookup_behind "page" rfl, ← line.lookup_behind "rank" rfl,
      ← line.values_behind "return" rfl, ← line.lookup_behind "options" rfl]
    rfl
  have hprint : line.has "print-url" =
      ((line.behind.filterMap Argument.entry?).lookup "print-url").isSome := by
    rw [has, line.lookup_behind _ rfl]
  rw [hterm, hoptions, hprint]
  change (searchLevel.takeAll _ >>= fun taken => Except.ok
    (taken, Command.search taken.terms.head? (searchOptions taken) (taken.has "print-url"))) = _
  rw [takeAll_behind]
  rfl

/-- A search is read as its invocation. -/
theorem ofWords_words (line : SearchLine) :
    Invocation.ofWords line.words = .ok line.invocation := by
  obtain ⟨outer, houter, hsettle⟩ := line.exists_foldlM_before
  obtain ⟨honly, hwaiting, -, -⟩ := Taken.of_settle_eq_ok hsettle
  rw [Invocation.ofWords, words, read_append houter, Invocation.read, honly, hwaiting]
  change (Command.ofWords "search" _ >>= fun read => outer.settle >>= fun outer =>
    Except.ok (Invocation.ofTaken outer read.1 read.2)) = _
  rw [hsettle, ofWords_behind]
  change Except.ok (Invocation.ofTaken _ _ _) = _
  simp only [Invocation.ofTaken, Taken.has, Taken.value?, ← Option.isSome_or, or_lookup_before,
    ne_eq, String.reduceEq, not_false_eq_true, invocation, has]

/-! ## Places -/

/-- The same arguments in other places, the fields to return in the same order. -/
structure Rearranges (other line : SearchLine) : Prop where
  perm : other.arguments.Perm line.arguments
  values_return : other.values "return" = line.values "return"

/-- An option that is given but once may stand anywhere. -/
theorem Rearranges.value?_eq (h : other.Rearranges line) (hname : name ≠ "return") :
    other.value? name = line.value? name := by
  ext value
  rw [value?_eq_some_iff hname, value?_eq_some_iff hname]
  exact (h.perm.filterMap Argument.entry?).mem_iff

/-- The term may stand anywhere. -/
theorem Rearranges.term?_eq (h : other.Rearranges line) : other.term? = line.term? := by
  have hperm := h.perm.filterMap Argument.term?
  have hone : (line.arguments.filterMap Argument.term?).length ≤ 1 := line.oneTerm
  unfold term?
  cases hterms : line.arguments.filterMap Argument.term? with
  | nil => rw [hterms] at hperm; rw [hperm.eq_nil]
  | cons text texts =>
    obtain rfl : texts = [] := by
      rw [hterms, List.length_cons] at hone
      exact List.eq_nil_of_length_eq_zero (by omega)
    rw [hterms] at hperm
    rw [List.perm_singleton.mp hperm]

/-- The same arguments in other places are the same invocation. -/
theorem Rearranges.invocation_eq (h : other.Rearranges line) :
    other.invocation = line.invocation := by
  simp only [invocation, options, has, h.term?_eq, h.values_return, h.value?_eq, ne_eq,
    String.reduceEq, not_false_eq_true]

end SearchLine

end Command

end HostedSearch
