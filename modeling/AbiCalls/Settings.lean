import AbiCalls.Context
import AbiCalls.Catalog
import AbiCalls.Files
import AbiCalls.Json.Direct
import AbiCalls.Text.Whole

namespace AbiCalls

structure Settings where
  defaultAddresses : DefaultAddresses := .empty
  /-- In milliseconds. -/
  watchInterval : Option UInt64 := none

namespace Settings

structure Draft where
  defaultAddresses : Option DefaultAddresses := none
  watchInterval : Option (Option UInt64) := none

def Draft.finish (d : Draft) : Settings :=
  ⟨d.defaultAddresses.getD .empty, d.watchInterval.getD none⟩

def readRefused {α : Type} (wanted : String) : ShapeReader α :=
  readScalar fun value => .error (.wrongType value wanted)

def readAddressField (addresses : DefaultAddresses) (name : String) : ShapeReader DefaultAddresses :=
  fun input => do
    let (address, rest) ← readScalar Address.ofJson (← liftText (readColon input))
    return (addresses.insert name address, rest)

/-- An object of addresses. Of a name that is given twice the last address stays. -/
def readAddresses : ShapeReader DefaultAddresses := fun input =>
  match skipBlanks input with
  | .char '\x7b' :: rest => foldFields readAddressField (rest.length + 1) true .empty rest
  | input => readRefused "a map" input

def readInterval : ShapeReader (Option UInt64) :=
  readScalar (Json.asOptional Json.asUInt64)

/-- Neither field may be given twice; fields with other names are passed over. -/
def readField (d : Draft) (name : String) : ShapeReader Draft := fun input => do
  if name = "default_addresses" then
    if d.defaultAddresses.isSome then .error (.shape (.repeatedField name))
    else
      let (addresses, rest) ← readAddresses (← liftText (readColon input))
      return ({ d with defaultAddresses := some addresses }, rest)
  else if name = "watch_interval_ms" then
    if d.watchInterval.isSome then .error (.shape (.repeatedField name))
    else
      let (interval, rest) ← readInterval (← liftText (readColon input))
      return ({ d with watchInterval := some interval }, rest)
  else
    return (d, ← liftText (skipValue (← liftText (readColon input))))

def readInOrder : ShapeReader Draft := fun input => do
  match ← liftText (nextItem true input) with
  | none => return ({}, ← liftText (closeList input))
  | some item =>
    let (addresses, input) ← readAddresses item
    match ← liftText (nextItem false input) with
    | none => return ({ defaultAddresses := some addresses }, ← liftText (closeList input))
    | some item =>
      let (interval, input) ← readInterval item
      return (⟨some addresses, some interval⟩, ← liftText (closeList input))

def readDraft : ShapeReader Draft := fun input =>
  match skipBlanks input with
  | .char '\x7b' :: rest => foldFields readField (rest.length + 1) true {} rest
  | .char '[' :: rest => readInOrder rest
  | input => readRefused "struct ContractsConfig" input

def ofSymbols (input : Input) : Except TextFault Settings := do
  return (← readAlone readDraft input).finish

def orError : Except TextFault Settings → Except Error Settings
  | .ok settings => .ok settings
  | .error fault => .error (.carrying .badData (.plain .json fault.message))

def ofText (text : String) : Except Error Settings :=
  orError (ofSymbols (Symbol.ofText text))

/-- Reads what was found at the path of a file. A directory can be opened but not read. -/
def ofFile (path : String) : Except OpenFault FileNode → Except Error Settings
  | .error fault =>
    .error (.introduced .file ("failed to open config " ++ path) (.plain .other fault.message))
  | .ok (.directory _) =>
    .error (.carrying .badData (.plain .json "Is a directory (os error 21)"))
  | .ok (.file content) => orError (ofSymbols (Symbol.ofBytes content))

def toJson (s : Settings) : Json :=
  let addresses := Json.object (s.defaultAddresses.entries.map fun e => (e.1, e.2.toJson))
  let interval :=
    match s.watchInterval with
    | some ms => [("watch_interval_ms", Json.int ms.toNat)]
    | none => []
  .object (("default_addresses", addresses) :: interval)

def text (s : Settings) : String :=
  s.toJson.compact

/-- The interval of watched reads. An overriding text, if there is one, wins over the
settings, and the settings over the default. -/
def pollInterval (s : Settings) (override : Option String) : Except Error Interval :=
  match override with
  | some text =>
    match wholeOfChars text.toList with
    | .ok ms => .ok (.ofMillis (UInt64.ofNat ms))
    | .error fault => .error (.carrying .badData (.plain .other fault.message))
  | none => .ok ((s.watchInterval.map .ofMillis).getD defaultInterval)

def applyTo (s : Settings) (override : Option String) (ctx : Context) : Except Error Context := do
  return ctx.withInterval (← s.pollInterval override)

def catalog (s : Settings) (bindings : Bindings) : Catalog :=
  .ofBindings bindings (some s.defaultAddresses)

end Settings

end AbiCalls
