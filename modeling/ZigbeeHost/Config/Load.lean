import ZigbeeHost.Config.Record
import ZigbeeHost.Config
/-!
# Loading configurations

The keys of the two configurations. Only the tool's `device` has no default.
-/

namespace ZigbeeHost

open Config (Fault Reader)
open Config.Reader (RecordField)

namespace SessionConfig

/-- The fields by their keys, in the order of a list. -/
def fields : List (RecordField SessionConfig) := [
  .of "zdo_timeout_secs" Config.Reader.u64 fun v c => { c with zdoTimeoutSecs := v },
  .of "data_confirm_timeout_secs" (Config.Reader.optional Config.Reader.u64)
    fun v c => { c with dataConfirmTimeoutSecs := v },
  .of "poll_interval_ms" Config.Reader.u64 fun v c => { c with pollIntervalMs := v }]

/-- Reads the configuration of a session. -/
def reader : Reader SessionConfig := Config.Reader.record fields {}

/-- The configuration that a text holds. -/
def load (text : String) : Except Fault SessionConfig := reader.run text

end SessionConfig

namespace ToolConfig

/-- The fields by their keys, in the order of a list. -/
def fields : List (RecordField ToolConfig) := [
  { RecordField.of "port" Config.Reader.text (fun v c => { c with device := v }) with
    required := true },
  .of "baud_rate" Config.Reader.u32 fun v c => { c with baudRate := v },
  .of "log" Config.Reader.text fun v c => { c with log := v },
  .of "soft_reset" Config.Reader.truth fun v c => { c with softReset := v },
  .of "wait_for_coordinator" Config.Reader.truth fun v c => { c with waitForCoordinator := v },
  .of "permit_join" (Config.Reader.optional Config.Reader.u8)
    fun v c => { c with permitJoin := v },
  .of "znp" SessionConfig.reader fun v c => { c with session := v }]

/-- Reads the configuration of the tool. -/
def reader : Reader ToolConfig := Config.Reader.record fields { device := "" }

/-- The configuration that a text holds. -/
def load (text : String) : Except Fault ToolConfig := reader.run text

end ToolConfig

end ZigbeeHost
