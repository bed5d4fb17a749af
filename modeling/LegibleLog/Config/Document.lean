import LegibleLog.Config
import LegibleLog.Toml.Document

/-!
# Configurations as documents

`Config.ofToml? cs` is the configuration that a TOML document gives.  What the document does not say has its usual
value, keys that mean nothing are passed over, and a value of the wrong kind spoils the whole.
-/

namespace LegibleLog

namespace Toml.Value

/-- A string. -/
def text? : Value → Option String
  | string s => some s
  | _ => none

/-- A truth value. -/
def flag? : Value → Option Bool
  | boolean b => some b
  | _ => none

/-- A length: an integer from 0 to `2 ^ 64 - 1`. -/
def length? : Value → Option Nat
  | integer n => if 0 ≤ n ∧ n < UInt64.size then some n.toNat else none
  | _ => none

/-- An array of strings. -/
def texts? : Value → Option (List String)
  | array _ items => items.mapM text?
  | _ => none

end Toml.Value

namespace Config

/-- The value of a key as read by `read`, or `default` where the key is absent. -/
def setting? {α : Type} (t : Toml.Table) (key : String) (read : Toml.Value → Option α) (default : α) : Option α :=
  match t.get? key with
  | some v => read v
  | none => some default

/-- Names of attributes by the entries of the palette: as a table by their names, or as an array in their order, where
items beyond the last entry are not looked at. A time counts as a table without entries. -/
def overrides? : Toml.Value → Option (Palette (Option (List String)))
  | .table t => do
    guard t.valued
    let given ← PaletteEntry.all.mapM fun e =>
      (setting? t e.name (fun v => v.texts?.map some) none).map fun names => (e, names)
    return Palette.ofFn fun e => (given.lookup e).join
  | .array _ items => do
    let lists ← (items.take PaletteEntry.all.length).mapM Toml.Value.texts?
    return Palette.ofFn fun e => (PaletteEntry.all.zip lists).lookup e
  | .time => some (Palette.ofFn fun _ => none)
  | _ => none

/-- The configuration that the table of a document gives. Apart from the palette, every number in it must have a value,
also under a key that means nothing. -/
def ofTable? (t : Toml.Table) : Option Config := do
  guard (t.entries.all fun key v => key == "palette" || v.isValued)
  let usual : Config := {}
  return {
    skip := ← setting? t "skip" Toml.Value.texts? usual.skip
    keep := ← setting? t "keep" Toml.Value.texts? usual.keep
    sortLongest := ← setting? t "sort_longest" Toml.Value.flag? usual.sortLongest
    skipUnchanged := ← setting? t "skip_unchanged" Toml.Value.flag? usual.skipUnchanged
    truncate := ← setting? t "truncate" Toml.Value.flag? usual.truncate
    truncateLength := ← setting? t "truncate_length" Toml.Value.length? usual.truncateLength
    colorMode := ← setting? t "color_mode" Toml.Value.text? usual.colorMode
    lightBackground := ← setting? t "light_bg" Toml.Value.flag? usual.lightBackground
    timeFormat := ← setting? t "time_format" Toml.Value.text? usual.timeFormat
    timeKeys := ← setting? t "time_fields" Toml.Value.texts? usual.timeKeys
    messageKeys := ← setting? t "message_fields" Toml.Value.texts? usual.messageKeys
    levelKeys := ← setting? t "level_fields" Toml.Value.texts? usual.levelKeys
    ignoreInterrupts := ← setting? t "ignore_interrupts" Toml.Value.flag? usual.ignoreInterrupts
    palette := ← setting? t "palette" overrides? usual.palette }

/-- The configuration that a document gives. -/
def ofToml? (cs : List Char) : Option Config := (Toml.Document.ofText? cs).bind ofTable?

end Config

end LegibleLog
