import HostedSearch.Command.Option
import HostedSearch.Proofs.Association
import Mathlib.Data.List.TakeWhile

/-!
# What command lines are made of

A command line is written as arguments, each of one or two words: a term, a flag by its name or its
letter, an option with its value as a word of its own. As long as a level admits its arguments, no
option is given twice that is not repeatable and there are no more terms than it takes, the words of
a line are taken as the arguments that they spell, in order. What is open between two arguments is
at most one option, with its value; the invariant of a run is what has been taken once this one
counts too.
-/

namespace HostedSearch

namespace Command

/-- One part of a command line. -/
inductive Argument where
  | term (text : String)
  | flag (name : String)
  /-- The flag of a name, written by its letter. -/
  | letter (name : String) (c : Char)
  | option (name value : String)

namespace Argument

/-- How an argument is written. -/
def words : Argument → List String
  | .term text => [text]
  | .flag name => ["--" ++ name]
  | .letter _ c => [String.ofList ['-', c]]
  | .option name value => ["--" ++ name, value]

/-- The name and the value of what is given by name; a flag has an empty value. -/
def entry? : Argument → Option (String × String)
  | .term _ => none
  | .flag name => some (name, "")
  | .letter name _ => some (name, "")
  | .option name value => some (name, value)

/-- The text of a term. -/
def term? : Argument → Option String
  | .term text => some text
  | _ => none

end Argument

/-- A level takes an argument when it stands alone: it takes terms at all, or has the flag or the
option and finds nothing wrong with the value. Only some options take a value that begins with a
dash. -/
inductive Level.Admits (level : Level) : Argument → Prop where
  | term {text : String} (hterms : 0 < level.maxTerms) (hdash : text.toList.head? ≠ some '-') :
      Admits level (.term text)
  | flag {name : String} {switch : Switch}
      (hswitch : level.switches.find? (·.name == name) = some switch)
      (heffect : switch.effect = .flag) (hfault : switch.fault "" = none) :
      Admits level (.flag name)
  | letter {name : String} {c : Char} {switch : Switch}
      (hswitch : level.switches.find? (·.name == name) = some switch)
      (hletter : level.switches.find? (·.letter == some c) = some switch)
      (heffect : switch.effect = .flag) (hfault : switch.fault "" = none) :
      Admits level (.letter name c)
  | option {name value : String} {switch : Switch} {dashes repeats : Bool}
      (hswitch : level.switches.find? (·.name == name) = some switch)
      (heffect : switch.effect = .value dashes repeats)
      (hdash : dashes = false → value.toList.head? ≠ some '-')
      (hfault : switch.fault value = none) :
      Admits level (.option name value)

/-- The option of a name may be given more than once. -/
def Level.Repeats (level : Level) (name : String) : Prop :=
  ∃ switch dashes, level.switches.find? (·.name == name) = some switch ∧
    switch.effect = .value dashes true

/-- The switches of a level have names and letters that can be told apart from other words: names
are not empty and have no equals sign in them, and no letter is a dash. -/
structure Level.IsWritable (level : Level) : Prop where
  name_ne : ∀ switch ∈ level.switches, switch.name.toList ≠ []
  equals_notMem : ∀ switch ∈ level.switches, '=' ∉ switch.name.toList
  letter_ne : ∀ switch ∈ level.switches, switch.letter ≠ some '-'

/-- Whether a level has such names and letters can be computed. -/
theorem Level.isWritable_of_all {level : Level}
    (h : level.switches.all fun switch => !switch.name.toList.isEmpty &&
      !switch.name.toList.contains '=' && switch.letter != some '-') :
    level.IsWritable := by
  simp only [List.all_eq_true, Bool.and_eq_true, Bool.not_eq_true', List.isEmpty_eq_false_iff,
    List.contains_eq_mem, decide_eq_false_iff_not, bne_iff_ne] at h
  exact ⟨fun switch hswitch => (h switch hswitch).1.1, fun switch hswitch => (h switch hswitch).1.2,
    fun switch hswitch => (h switch hswitch).2⟩

/-- What a level admits under a name is one of its options, and nothing is wrong with the value,
which begins with a dash only if the option takes that. -/
theorem Level.Admits.exists_switch {level : Level} {argument : Argument}
    (h : level.Admits argument) {name value : String}
    (hentry : argument.entry? = some (name, value)) :
    ∃ switch, level.switches.find? (·.name == name) = some switch ∧ switch.fault value = none ∧
      ∀ repeats, switch.effect = .value false repeats → value.toList.head? ≠ some '-' := by
  cases h with
  | term hterms hdash => cases hentry
  | flag hswitch heffect hfault =>
    obtain ⟨rfl, rfl⟩ := Prod.mk.inj (Option.some.inj hentry)
    exact ⟨_, hswitch, hfault, fun repeats hvalue => by cases heffect.symm.trans hvalue⟩
  | letter hswitch hletter heffect hfault =>
    obtain ⟨rfl, rfl⟩ := Prod.mk.inj (Option.some.inj hentry)
    exact ⟨_, hswitch, hfault, fun repeats hvalue => by cases heffect.symm.trans hvalue⟩
  | option hswitch heffect hdash hfault =>
    obtain ⟨rfl, rfl⟩ := Prod.mk.inj (Option.some.inj hentry)
    refine ⟨_, hswitch, hfault, fun repeats hvalue => hdash ?_⟩
    obtain ⟨rfl, -⟩ := Effect.value.inj (heffect.symm.trans hvalue)
    rfl

/-! ## Words -/

/-- A word that does not begin with a dash is plain. -/
theorem Word.ofText_of_head?_ne {text : String} (h : text.toList.head? ≠ some '-') :
    ofText text = .plain := by
  unfold ofText
  cases hcs : text.toList with
  | nil => rfl
  | cons c cs =>
    have hc : c ≠ '-' := fun hc => h (by rw [hcs, hc]; rfl)
    split <;> simp_all

/-- A name behind two dashes is an option. -/
theorem Word.ofText_name {name : String} (hname : name.toList ≠ []) (hequals : '=' ∉ name.toList) :
    ofText ("--" ++ name) = .long name none := by
  have hall : ∀ c ∈ name.toList, (c != '=') = true := by
    intro c hc
    exact bne_iff_ne.mpr fun h => hequals (h ▸ hc)
  have htake : name.toList.takeWhile (· != '=') = name.toList :=
    List.takeWhile_eq_self_iff.mpr hall
  have hdrop : name.toList.dropWhile (· != '=') = [] := List.dropWhile_eq_nil_iff.mpr hall
  have hlong : ofText ("--" ++ name) =
      .long (String.ofList (name.toList.takeWhile (· != '=')))
        (attachedValue? (name.toList.dropWhile (· != '='))) := by
    have hlist : ("--" ++ name).toList = '-' :: '-' :: name.toList := String.toList_append
    unfold ofText
    rw [hlist]
    cases hcs : name.toList with
    | nil => exact absurd hcs hname
    | cons c cs => rfl
  rw [hlong, htake, hdrop, String.ofList_toList]
  rfl

/-- A letter behind a dash is an option. -/
theorem Word.ofText_letter {c : Char} (h : c ≠ '-') :
    ofText (String.ofList ['-', c]) = .letters [c] := by
  unfold ofText
  rw [String.toList_ofList]
  split <;> simp_all

/-- An option of a level is written by its name. -/
theorem Level.IsWritable.ofText_name {level : Level} (hlevel : level.IsWritable) {name : String}
    {switch : Switch} (hswitch : level.switches.find? (·.name == name) = some switch) :
    switch.name = name ∧ Word.ofText ("--" ++ name) = .long name none := by
  have hmem := List.mem_of_find?_eq_some hswitch
  have hname := List.find?_some hswitch
  obtain rfl : switch.name = name := beq_iff_eq.mp hname
  exact ⟨rfl, Word.ofText_name (hlevel.name_ne switch hmem) (hlevel.equals_notMem switch hmem)⟩

/-! ## One argument -/

variable {level : Level} {taken next : Taken} {given : List (String × String)} {terms : List String}

/-- Recording an option does nothing else. -/
theorem Taken.of_record_eq_ok {switch : Switch} {value : String}
    (h : taken.record switch value = .ok next) :
    next = { taken with given := taken.given ++ [(switch.name, value)] } := by
  unfold record at h
  obtain ⟨-, h⟩ | ⟨-, h⟩ := ite_eq_iff.mp h
  · cases h
  · cases hfault : switch.fault value with
    | some fault => rw [hfault] at h; cases h
    | none => rw [hfault] at h; exact (Except.ok.inj h).symm

/-- What can be settled has seen no two dashes, waits for no value and has all its terms. -/
theorem Taken.of_settle_eq_ok (h : taken.settle = .ok { given, terms }) :
    taken.termsOnly = false ∧ taken.isWaiting = false ∧ taken.takesDashes = false ∧
      taken.terms = terms := by
  obtain ⟨before, soFar, pending, termsOnly⟩ := taken
  cases pending with
  | none =>
    obtain ⟨-, rfl, -, rfl⟩ := Taken.mk.inj (Except.ok.inj h)
    exact ⟨rfl, rfl, rfl, rfl⟩
  | some pending =>
    obtain ⟨switch, value⟩ := pending
    cases value with
    | none => cases h
    | some value =>
      obtain ⟨-, rfl, -, rfl⟩ := Taken.mk.inj (of_record_eq_ok h)
      exact ⟨rfl, rfl, rfl, rfl⟩

/-- An option of a level is recorded if nothing is wrong with its value and it is new or may be
given again. -/
theorem Level.record_eq_ok {switch : Switch} {value : String}
    (hswitch : level.switches.find? (·.name == switch.name) = some switch)
    (hfault : switch.fault value = none)
    (hnew : ∀ entry ∈ given, entry.1 = switch.name → level.Repeats switch.name) :
    Taken.record { given, terms } switch value =
      .ok { given := given ++ [(switch.name, value)], terms } := by
  cases hlookup : given.lookup switch.name with
  | none =>
    have hhas : Taken.has { given, terms } switch.name = false := congrArg Option.isSome hlookup
    simp only [Taken.record, hhas, hfault, Bool.false_and]
    rfl
  | some earlier =>
    have hmem := Association.mem_of_lookup_eq_some hlookup
    obtain ⟨again, dashes, hagain, heffect⟩ := hnew _ hmem rfl
    obtain rfl : switch = again := Option.some.inj (hswitch.symm.trans hagain)
    simp only [Taken.record, heffect, hfault, Bool.not_true, Bool.and_false]
    rfl

/-- A term is taken while there is room for it. -/
theorem Level.take_term (h : taken.settle = .ok { given, terms }) {text : String}
    (hdash : text.toList.head? ≠ some '-') (hterms : terms.length < level.maxTerms) :
    level.take taken text = .ok { given, terms := terms ++ [text] } := by
  obtain ⟨honly, hwaiting, hdashes, rfl⟩ := Taken.of_settle_eq_ok h
  simp only [take, honly, hdashes, Word.ofText_of_head?_ne hdash, hwaiting, takeTerm, hterms,
    if_true, h]
  rfl

/-- A flag is taken by its name. -/
theorem Level.take_flag (hlevel : level.IsWritable) (h : taken.settle = .ok { given, terms })
    {name : String} {switch : Switch}
    (hswitch : level.switches.find? (·.name == name) = some switch)
    (heffect : switch.effect = .flag) (hfault : switch.fault "" = none)
    (hnew : ∀ entry ∈ given, entry.1 = name → level.Repeats name) :
    level.take taken ("--" ++ name) = .ok { given := given ++ [(name, "")], terms } := by
  obtain ⟨honly, -, hdashes, -⟩ := Taken.of_settle_eq_ok h
  obtain ⟨rfl, hword⟩ := hlevel.ofText_name hswitch
  simp only [take, honly, hdashes, hword, takeLong, hswitch, heffect, Taken.recordFlag, h]
  exact record_eq_ok hswitch hfault hnew

/-- A flag is taken by its letter. -/
theorem Level.take_letter (hlevel : level.IsWritable) (h : taken.settle = .ok { given, terms })
    {name : String} {c : Char} {switch : Switch}
    (hswitch : level.switches.find? (·.name == name) = some switch)
    (hletter : level.switches.find? (·.letter == some c) = some switch)
    (heffect : switch.effect = .flag) (hfault : switch.fault "" = none)
    (hnew : ∀ entry ∈ given, entry.1 = name → level.Repeats name) :
    level.take taken (String.ofList ['-', c]) = .ok { given := given ++ [(name, "")], terms } := by
  obtain ⟨honly, -, hdashes, -⟩ := Taken.of_settle_eq_ok h
  obtain ⟨rfl, -⟩ := hlevel.ofText_name hswitch
  have hword : Word.ofText (String.ofList ['-', c]) = .letters [c] := by
    have hfound := List.find?_some hletter
    refine Word.ofText_letter ?_
    rintro rfl
    exact hlevel.letter_ne switch (List.mem_of_find?_eq_some hletter) (beq_iff_eq.mp hfound)
  simp only [take, honly, hdashes, hword, takeLetters, hletter, Taken.recordFlag, heffect, h]
  change (Taken.record _ switch "" >>= fun taken => Except.ok taken) = _
  rw [record_eq_ok hswitch hfault hnew]
  rfl

/-- The name of an option that takes a value leaves the option open. -/
theorem Level.take_name (hlevel : level.IsWritable) (h : taken.settle = .ok { given, terms })
    {name : String} {switch : Switch} {dashes repeats : Bool}
    (hswitch : level.switches.find? (·.name == name) = some switch)
    (heffect : switch.effect = .value dashes repeats) :
    level.take taken ("--" ++ name) =
      .ok { given, terms, pending := some ⟨switch, none⟩ } := by
  obtain ⟨honly, -, hdashes, -⟩ := Taken.of_settle_eq_ok h
  obtain ⟨rfl, hword⟩ := hlevel.ofText_name hswitch
  simp only [take, honly, hdashes, hword, takeLong, hswitch, heffect, h]
  rfl

/-- The word behind the name of an option is its value. -/
theorem Level.take_value {switch : Switch} {dashes repeats : Bool} {value : String}
    (heffect : switch.effect = .value dashes repeats)
    (hdash : dashes = false → value.toList.head? ≠ some '-') :
    level.take { given, terms, pending := some ⟨switch, none⟩ } value =
      .ok { given, terms, pending := some ⟨switch, some value⟩ } := by
  have htakes : Taken.takesDashes { given, terms, pending := some ⟨switch, none⟩ } = dashes := by
    simp only [Taken.takesDashes, heffect]
  cases dashes with
  | true => simp only [take, htakes]; rfl
  | false => simp only [take, htakes, Word.ofText_of_head?_ne (hdash rfl)]; rfl

/-- An option whose value has come counts as recorded. -/
theorem Level.settle_eq_ok {switch : Switch} {value : String}
    (hswitch : level.switches.find? (·.name == switch.name) = some switch)
    (hfault : switch.fault value = none)
    (hnew : ∀ entry ∈ given, entry.1 = switch.name → level.Repeats switch.name) :
    Taken.settle { given, terms, pending := some ⟨switch, some value⟩ } =
      .ok { given := given ++ [(switch.name, value)], terms } :=
  record_eq_ok hswitch hfault hnew

/-! ## All arguments -/

variable {arguments : List Argument}

/-- The words of one more argument that the level admits are taken as that argument. -/
theorem Level.exists_foldlM_words (hlevel : level.IsWritable)
    (h : taken.settle = .ok { given, terms }) {argument : Argument}
    (hadmits : level.Admits argument)
    (hnew : ∀ first ∈ given, ∀ second ∈ argument.entry?, first.1 = second.1 →
      level.Repeats second.1)
    (hterms : (terms ++ argument.term?.toList).length ≤ level.maxTerms) :
    ∃ next, argument.words.foldlM level.take taken = .ok next ∧
      next.settle = .ok
        { given := given ++ argument.entry?.toList, terms := terms ++ argument.term?.toList } := by
  have hword {word : String} {next : Taken} (htake : level.take taken word = .ok next) :
      [word].foldlM level.take taken = .ok next := by
    rw [List.foldlM_cons, htake]
    rfl
  cases hadmits with
  | @term text hsome hdash =>
    have hroom : terms.length < level.maxTerms := by
      simpa [Argument.term?, Nat.succ_le_iff] using hterms
    refine ⟨{ given, terms := terms ++ [text] }, hword (take_term h hdash hroom), ?_⟩
    simp [Taken.settle, Argument.entry?, Argument.term?]
  | @flag name switch hswitch heffect hfault =>
    refine ⟨{ given := given ++ [(name, "")], terms }, hword ?_, ?_⟩
    · exact take_flag hlevel h hswitch heffect hfault fun entry hentry => hnew entry hentry _ rfl
    · simp [Taken.settle, Argument.entry?, Argument.term?]
  | @letter name c switch hswitch hletter heffect hfault =>
    refine ⟨{ given := given ++ [(name, "")], terms }, hword ?_, ?_⟩
    · exact take_letter hlevel h hswitch hletter heffect hfault fun entry hentry =>
        hnew entry hentry _ rfl
    · simp [Taken.settle, Argument.entry?, Argument.term?]
  | @option name value switch dashes repeats hswitch heffect hdash hfault =>
    obtain ⟨rfl, -⟩ := hlevel.ofText_name hswitch
    refine ⟨{ given, terms, pending := some ⟨switch, some value⟩ }, ?_, ?_⟩
    · rw [Argument.words, List.foldlM_cons, take_name hlevel h hswitch heffect]
      change List.foldlM level.take { given, terms, pending := some ⟨switch, none⟩ } [value] = _
      rw [List.foldlM_cons, take_value heffect hdash]
      rfl
    · rw [settle_eq_ok hswitch hfault fun entry hentry => hnew entry hentry _ rfl]
      simp [Argument.entry?, Argument.term?]

/-- The words of arguments that a level admits are taken as those arguments. -/
theorem Level.exists_foldlM_flatMap_words (hlevel : level.IsWritable)
    (h : taken.settle = .ok { given, terms })
    (hadmits : ∀ argument ∈ arguments, level.Admits argument)
    (hdistinct : (given ++ arguments.filterMap Argument.entry?).Pairwise fun first second =>
      first.1 = second.1 → level.Repeats second.1)
    (hterms : (terms ++ arguments.filterMap Argument.term?).length ≤ level.maxTerms) :
    ∃ next, (arguments.flatMap Argument.words).foldlM level.take taken = .ok next ∧
      next.settle = .ok
        { given := given ++ arguments.filterMap Argument.entry?
          terms := terms ++ arguments.filterMap Argument.term? } := by
  -- The invariant is what has been taken once the option that is still open counts too.
  induction arguments generalizing taken given terms with
  | nil => exact ⟨taken, rfl, by simpa using h⟩
  | cons argument arguments ih =>
    have hentries : (argument :: arguments).filterMap Argument.entry? =
        argument.entry?.toList ++ arguments.filterMap Argument.entry? := by
      cases hentry : argument.entry? <;> simp [hentry]
    have htexts : (argument :: arguments).filterMap Argument.term? =
        argument.term?.toList ++ arguments.filterMap Argument.term? := by
      cases hterm : argument.term? <;> simp [hterm]
    obtain ⟨hfirst, hrest⟩ := List.forall_mem_cons.mp hadmits
    rw [hentries, ← List.append_assoc] at hdistinct ⊢
    rw [htexts, ← List.append_assoc] at hterms ⊢
    obtain ⟨next, hwords, hnext⟩ := exists_foldlM_words hlevel h hfirst
      (fun first hgiven second hsecond =>
        (List.pairwise_append.mp (List.pairwise_append.mp hdistinct).1).2.2 first hgiven second
          (Option.mem_toList.mpr hsecond))
      (by rw [List.length_append] at hterms; omega)
    obtain ⟨last, hlast, hsettle⟩ := ih hnext hrest hdistinct hterms
    refine ⟨last, ?_, hsettle⟩
    rw [List.flatMap_cons, List.foldlM_append, hwords]
    exact hlast

/-- All words of a line are taken as the arguments that they spell. -/
theorem Level.takeAll_words (hlevel : level.IsWritable)
    (hadmits : ∀ argument ∈ arguments, level.Admits argument)
    (hdistinct : (arguments.filterMap Argument.entry?).Pairwise fun first second =>
      first.1 = second.1 → level.Repeats second.1)
    (hterms : (arguments.filterMap Argument.term?).length ≤ level.maxTerms) :
    level.takeAll (arguments.flatMap Argument.words) =
      .ok { given := arguments.filterMap Argument.entry?
            terms := arguments.filterMap Argument.term? } := by
  obtain ⟨last, hlast, hsettle⟩ :=
    exists_foldlM_flatMap_words hlevel (rfl : Taken.settle {} = _) hadmits hdistinct hterms
  rw [takeAll, hlast]
  exact hsettle

end Command

end HostedSearch
