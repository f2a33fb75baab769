/-!
# Options of a command line

How the words of a command line are taken as options and terms. An option has a long name, and
perhaps a letter; its value is the next word, or stands behind an equals sign. A value that
stands by itself is looked at only when the next option or term comes or the line ends, so a
problem in a word between is reported first. After two dashes alone every word is a term.
-/

namespace HostedSearch

namespace Command

/-- Why a command line is not carried out. -/
inductive UsageFault where
  | helpAsked
  | versionAsked
  | nothingGiven
  | commandMissing
  | commandUnknown
  /-- An option that is not repeatable is given twice. -/
  | repeated
  /-- A value is not what the option takes. -/
  | badValue
  /-- A value is missing, or empty where it may not be. -/
  | valueMissing
  | argumentUnknown
  /-- A value is given to an option that takes none. -/
  | valueUnexpected
  | argumentMissing
deriving DecidableEq

/-- What an option does. -/
inductive Effect where
  | help
  | version
  | flag
  /-- It takes a value, which may look like an option itself if `dashes` says so; it may be given
  more than once if `repeats` says so. -/
  | value (dashes repeats : Bool)
deriving DecidableEq

/-- An option. -/
structure Switch where
  name : String
  letter : Option Char := none
  effect : Effect
  /-- What is wrong with a value, if anything. -/
  fault : String → Option UsageFault := fun _ => none

/-- The words that a command, or the line before the command, can take. -/
structure Level where
  switches : List Switch
  maxTerms : Nat
  /-- The fault of one term too many; it is told whether two dashes came before. -/
  stray : Bool → String → UsageFault

/-- An option whose value is still open: not given yet, or given and not looked at. -/
structure Pending where
  switch : Switch
  value : Option String

/-- What has been taken so far. -/
structure Taken where
  /-- The options and their values, in order; a flag has an empty value. -/
  given : List (String × String) := []
  terms : List String := []
  pending : Option Pending := none
  termsOnly : Bool := false

namespace Taken

/-- The values of an option, in order. -/
def values (taken : Taken) (name : String) : List String :=
  (taken.given.filter fun entry => entry.1 == name).map Prod.snd

/-- The value of an option that is given at most once. -/
def value? (taken : Taken) (name : String) : Option String :=
  taken.given.lookup name

/-- Whether an option has been given. -/
def has (taken : Taken) (name : String) : Bool :=
  (taken.value? name).isSome

/-- Whether an option is waiting for its value. -/
def isWaiting (taken : Taken) : Bool :=
  match taken.pending with
  | some pending => pending.value.isNone
  | none => false

/-- Whether the option that is waiting takes a value that looks like an option. -/
def takesDashes (taken : Taken) : Bool :=
  match taken.pending with
  | some ⟨switch, none⟩ => match switch.effect with
    | .value dashes _ => dashes
    | _ => false
  | _ => false

/-- Take an option with its value. -/
def record (taken : Taken) (switch : Switch) (value : String) : Except UsageFault Taken :=
  let repeats := match switch.effect with
    | .value _ repeats => repeats
    | _ => false
  if taken.has switch.name && !repeats then .error .repeated
  else
    match switch.fault value with
    | some fault => .error fault
    | none => .ok { taken with given := taken.given ++ [(switch.name, value)] }

/-- Take the option that is open. -/
def settle (taken : Taken) : Except UsageFault Taken :=
  match taken.pending with
  | none => .ok taken
  | some ⟨_, none⟩ => .error .valueMissing
  | some ⟨switch, some value⟩ => { taken with pending := none }.record switch value

/-- Give the option that is waiting its value. -/
def hold (taken : Taken) (value : String) : Taken :=
  { taken with pending := taken.pending.map fun pending => { pending with value := some value } }

/-- Take an option that has no value. -/
def recordFlag (taken : Taken) (switch : Switch) : Except UsageFault Taken := do
  let taken ← taken.settle
  match switch.effect with
  | .help => .error .helpAsked
  | .version => .error .versionAsked
  | _ => taken.record switch ""

end Taken

/-- What a word looks like. -/
inductive Word where
  | dashes
  | long (name : String) (value : Option String)
  | letters (letters : List Char)
  | plain
deriving DecidableEq

/-- The value behind an equals sign. -/
def attachedValue? : List Char → Option String
  | '=' :: cs => some (String.ofList cs)
  | _ => none

/-- What a word looks like. -/
def Word.ofText (text : String) : Word :=
  match text.toList with
  | ['-', '-'] => .dashes
  | '-' :: '-' :: cs =>
    .long (String.ofList (cs.takeWhile (· != '='))) (attachedValue? (cs.dropWhile (· != '=')))
  | '-' :: c :: cs => .letters (c :: cs)
  | _ => .plain

namespace Level

/-- Take a term. -/
def takeTerm (level : Level) (taken : Taken) (word : String) : Except UsageFault Taken :=
  if taken.terms.length < level.maxTerms then do
    let taken ← taken.settle
    return { taken with terms := taken.terms ++ [word] }
  else
    .error (level.stray taken.termsOnly word)

/-- Take an option by its long name. -/
def takeLong (level : Level) (taken : Taken) (name : String) (attached : Option String) :
    Except UsageFault Taken :=
  match level.switches.find? (·.name == name) with
  | none => .error .argumentUnknown
  | some switch =>
    match switch.effect, attached with
    | .value _ _, some value => do
      let taken ← taken.settle
      taken.record switch value
    | .value _ _, none => do
      let taken ← taken.settle
      return { taken with pending := some ⟨switch, none⟩ }
    | _, some _ => .error .valueUnexpected
    | _, none => taken.recordFlag switch

/-- Take options by their letters. -/
def takeLetters (level : Level) : Taken → List Char → Except UsageFault Taken
  | taken, [] => .ok taken
  | taken, c :: cs =>
    match level.switches.find? (·.letter == some c) with
    | none => .error .argumentUnknown
    | some switch => do
      let taken ← taken.recordFlag switch
      level.takeLetters taken cs

/-- Take a word. -/
def take (level : Level) (taken : Taken) (word : String) : Except UsageFault Taken :=
  if taken.termsOnly then level.takeTerm taken word
  else if taken.takesDashes then .ok (taken.hold word)
  else
    match Word.ofText word with
    | .dashes => .ok { taken with termsOnly := true }
    | .long name attached => level.takeLong taken name attached
    | .letters letters => level.takeLetters taken letters
    | .plain => if taken.isWaiting then .ok (taken.hold word) else level.takeTerm taken word

/-- Take all words of a line. -/
def takeAll (level : Level) (words : List String) : Except UsageFault Taken := do
  let taken ← words.foldlM level.take {}
  taken.settle

end Level

end Command

end HostedSearch
