import DocSync.Abbreviation.Builtin
import DocSync.Abbreviation.Input
import DocSync.Message.Format

/-!
The settings of a service. Every one has a default; a key that is none of them is refused.
-/

namespace DocSync

/-- Delays count in milliseconds. `table` is the path of the abbreviation table. -/
structure Config where
  syncDelay : Nat
  completionDelay : Nat
  triggers : String
  table : Option String
  server : Option ServerCommand
  deriving DecidableEq, Repr

namespace Config

open Slot

def default : Config := ⟨1000, 1000, " ,", none, none⟩

/-- A delay in milliseconds, up to the largest 64-bit number. -/
def delayCodec : Codec Nat := .natural 18446744073709551615

def shape : Shape Config where
  names :=
    ["sync_delay_ms", "completion_delay_ms", "abbreviation_triggers", "translations", "server"]
  isClosed := true
  write c :=
    [("sync_delay_ms", delayCodec.write c.syncDelay),
      ("completion_delay_ms", delayCodec.write c.completionDelay),
      ("abbreviation_triggers", Codec.text.write c.triggers),
      ("translations", Codec.text.nullable.write c.table),
      ("server", ServerCommand.codec.nullable.write c.server)]
  read? slot := do
    let syncDelay ← orDefault? delayCodec default.syncDelay (slot "sync_delay_ms")
    let completionDelay ←
      orDefault? delayCodec default.completionDelay (slot "completion_delay_ms")
    let triggers ← orDefault? .text default.triggers (slot "abbreviation_triggers")
    let table ← optional? .text (slot "translations")
    let server ← optional? ServerCommand.codec (slot "server")
    return ⟨syncDelay, completionDelay, triggers, table, server⟩

def codec : Codec Config := shape.codec

/-- The command to run, which is `lean --server` unless another is configured. -/
def serverCommand (c : Config) : ServerCommand := c.server.getD .default

end Config

end DocSync
