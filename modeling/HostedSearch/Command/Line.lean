import HostedSearch.Command.Option
import HostedSearch.Filter.Json
import HostedSearch.Number.Integer
import HostedSearch.SearchRequest

/-!
# Command lines

A command line names one of three commands: search, add and remove. Four options concern the
settings and may stand before or after the name of the command; where one that has a value
stands on both sides, the later value counts. The others belong to their command.
-/

namespace HostedSearch

/-- What a command line asks for. -/
inductive Command where
  | search (term : Option String) (options : SearchOptions) (printUrl : Bool)
  | add (id fields : String)
  | remove (id : String)

/-- A command line: the options that concern the settings, and a command. -/
structure Invocation where
  settingsFile : Option String
  domain : Option String
  live : Bool
  verbose : Bool
  command : Command

namespace Command

/-- A page number or a page size. -/
def pageNumber? (text : String) : Option UInt32 :=
  match readInt64 text.toList with
  | .ok n => if 0 ≤ n ∧ n.toInt < UInt32.size then some n.toUInt64.toUInt32 else none
  | .error _ => none

/-- A text that has to be read as something is faulty if it cannot. -/
def faultUnless {α : Type} (read : String → Option α) (text : String) : Option UsageFault :=
  if (read text).isSome then none else some .badValue

/-- The filter that a text is. -/
def filter? (text : String) : Option Filter :=
  (Filter.ofText text).toOption

/-- The ranking that a text is. -/
def ranking? (text : String) : Option Ranking :=
  (Ranking.ofText text).toOption

/-- An option with a value. -/
def valued (name : String) : Switch :=
  { name, effect := .value false false }

/-- The options that may stand on either side of the command. -/
def settingsSwitches : List Switch :=
  [{ valued "config" with fault := fun text => if text.isEmpty then some .valueMissing else none },
   valued "domain",
   { name := "live", effect := .flag },
   { name := "verbose", letter := some 'v', effect := .flag },
   { name := "help", letter := some 'h', effect := .help }]

/-- A command takes its own options and those that concern the settings. -/
def level (maxTerms : Nat) (own : List Switch) : Level :=
  { switches := own ++ settingsSwitches, maxTerms, stray := fun _ _ => .argumentUnknown }

/-- The words that a search takes. -/
def searchLevel : Level :=
  level 1
    [{ valued "filter" with fault := faultUnless filter? },
     { valued "page" with fault := faultUnless pageNumber? },
     { valued "page-size" with fault := faultUnless pageNumber? },
     { name := "rank", effect := .value true false, fault := faultUnless ranking? },
     { name := "return", effect := .value false true },
     valued "options",
     { name := "print-url", effect := .flag }]

/-- The words that an addition takes. -/
def addLevel : Level :=
  level 0 [valued "id", valued "fields"]

/-- The words that a removal takes. -/
def removeLevel : Level :=
  level 0 [valued "id"]

/-- The names of the commands; help is one of them. -/
def commandNames : List String :=
  ["search", "add", "remove", "help"]

/-- The words that stand before the command. -/
def outerLevel : Level :=
  { switches := { name := "version", letter := some 'V', effect := .version } :: settingsSwitches
    maxTerms := 0
    stray := fun termsOnly word =>
      if termsOnly && commandNames.contains word then .argumentUnknown else .commandUnknown }

/-- The pieces between commas. -/
def commaPieces (text : String) : List String :=
  (text.toList.splitOn ',').map String.ofList

/-- The options of a search. -/
def searchOptions (taken : Taken) : SearchOptions where
  filter := (taken.value? "filter").bind filter?
  pageSize := (taken.value? "page-size").bind pageNumber?
  page := (taken.value? "page").bind pageNumber?
  ranking := (taken.value? "rank").bind ranking?
  returnFields := (taken.values "return").flatMap commaPieces
  queryOptions := taken.value? "options"

/-- The value of an option that has to be there. -/
def required (taken : Taken) (name : String) : Except UsageFault String :=
  match taken.value? name with
  | some value => .ok value
  | none => .error .argumentMissing

/-- The command of a name, with the words behind it. -/
def ofWords (name : String) (words : List String) : Except UsageFault (Taken × Command) :=
  match name with
  | "search" => do
    let taken ← searchLevel.takeAll words
    return (taken, .search taken.terms.head? (searchOptions taken) (taken.has "print-url"))
  | "add" => do
    let taken ← addLevel.takeAll words
    return (taken, .add (← required taken "id") (← required taken "fields"))
  | "remove" => do
    let taken ← removeLevel.takeAll words
    return (taken, .remove (← required taken "id"))
  | "help" =>
    match words with
    | [] => .error .helpAsked
    | [word] => if commandNames.contains word then .error .helpAsked else .error .commandUnknown
    | _ => .error .commandUnknown
  | _ => .error .commandUnknown

end Command

namespace Invocation

open Command

/-- The command line with these options before and behind the name of the command. -/
def ofTaken (outer inner : Taken) (command : Command) : Invocation where
  settingsFile := (inner.value? "config").or (outer.value? "config")
  domain := (inner.value? "domain").or (outer.value? "domain")
  live := inner.has "live" || outer.has "live"
  verbose := inner.has "verbose" || outer.has "verbose"
  command := command

/-- Read a command line of which the words before have been taken. -/
def read : Taken → List String → Except UsageFault Invocation
  | outer, [] => do
    let outer ← outer.settle
    if outer.given.isEmpty then .error .nothingGiven else .error .commandMissing
  | outer, word :: words =>
    if !outer.termsOnly && !outer.isWaiting && commandNames.contains word then do
      let (inner, command) ← Command.ofWords word words
      let outer ← outer.settle
      return ofTaken outer inner command
    else do
      let outer ← outerLevel.take outer word
      read outer words

/-- Read the words of a command line. -/
def ofWords (words : List String) : Except UsageFault Invocation :=
  read {} words

end Invocation

end HostedSearch
