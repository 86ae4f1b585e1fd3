import PolicyProbe.Proofs.Desired.Table
import PolicyProbe.Proofs.Worker.Forms

/-!
The JSON round trip, for all types that are written and read as JSON. `WireType` lists them; each
has a form that is read back (`WireForm`), so writing and reading gives back the value, and a value
that was decoded from any text survives being written again.
-/
namespace PolicyProbe

/-- The types that are written and read as JSON. -/
inductive WireType where
  | action
  | protocol
  | ruleState
  | failureStage
  | rule
  | destination
  | record
  | filter
  | serverEntry
  | clientEntry
  | stateEntry
  | serverSpec
  | clientSpec
  | runnable
  | event
  | trafficSettings
  | recorderSettings
  | stateSettings
  | settings
  deriving DecidableEq

namespace WireType

/-- The values of a type. -/
def Value : WireType → Type
  | .action => Action
  | .protocol => Protocol
  | .ruleState => RuleState
  | .failureStage => FailureStage
  | .rule => Rule
  | .destination => Destination
  | .record => Record
  | .filter => Filter
  | .serverEntry => ServerEntry
  | .clientEntry => ClientEntry
  | .stateEntry => StateEntry
  | .serverSpec => ServerSpec
  | .clientSpec => ClientSpec
  | .runnable => Runnable
  | .event => WorkerEvent
  | .trafficSettings => TrafficSettings
  | .recorderSettings => RecorderSettings
  | .stateSettings => StateSettings
  | .settings => Settings

instance : (w : WireType) → WireForm w.Value
  | .action => inferInstanceAs (WireForm Action)
  | .protocol => inferInstanceAs (WireForm Protocol)
  | .ruleState => inferInstanceAs (WireForm RuleState)
  | .failureStage => inferInstanceAs (WireForm FailureStage)
  | .rule => inferInstanceAs (WireForm Rule)
  | .destination => inferInstanceAs (WireForm Destination)
  | .record => inferInstanceAs (WireForm Record)
  | .filter => inferInstanceAs (WireForm Filter)
  | .serverEntry => inferInstanceAs (WireForm ServerEntry)
  | .clientEntry => inferInstanceAs (WireForm ClientEntry)
  | .stateEntry => inferInstanceAs (WireForm StateEntry)
  | .serverSpec => inferInstanceAs (WireForm ServerSpec)
  | .clientSpec => inferInstanceAs (WireForm ClientSpec)
  | .runnable => inferInstanceAs (WireForm Runnable)
  | .event => inferInstanceAs (WireForm WorkerEvent)
  | .trafficSettings => inferInstanceAs (WireForm TrafficSettings)
  | .recorderSettings => inferInstanceAs (WireForm RecorderSettings)
  | .stateSettings => inferInstanceAs (WireForm StateSettings)
  | .settings => inferInstanceAs (WireForm Settings)

/-- Every value that there is and that is readable is read back from its text, and every readable
value that any text is decoded as survives being written again. -/
theorem round_trip (w : WireType) :
    (∀ v : w.Value, WireForm.Sound v → WireForm.Readable v →
      JsonForm.ofText (JsonForm.text v) = .ok v) ∧
    ∀ (text : String) (v : w.Value), JsonForm.ofText text = .ok v → WireForm.Readable v →
      JsonForm.ofText (JsonForm.text v) = .ok v := by
  constructor
  · intro v hs hr
    exact WireForm.ofText_text hs hr
  · intro text v h hr
    have hs : WireForm.Sound v := WireForm.sound_of_ofText h
    exact WireForm.ofText_text hs hr

/-- A record of a leap second in a year of five digits, with an error of two lines. -/
def leapRecord : Record where
  id := .ofNat 1
  src := .loopback
  dst := .loopback
  port := 80
  protocol := .udp
  latency := ⟨false, 4503599627370497, -52, by decide⟩
  error := some "no\nanswer"
  success := true
  connected := false
  created := ⟨⟨10000, 12, 31, by decide⟩, 86399, 1500000000, by decide⟩

/-- Settings of an agent with namespaces in a place of their own. -/
def placedSettings : Settings :=
  { Settings.default with namespaceMode := true, namespaceDir := "/ns" }

theorem round_trip_leapRecord :
    JsonForm.ofText (JsonForm.text (WorkerEvent.record leapRecord)) =
        .ok (WorkerEvent.record leapRecord) ∧
      JsonForm.ofText " [true, null, \"/ns\" ]" = .ok placedSettings ∧
      JsonForm.ofText (JsonForm.text placedSettings) = .ok placedSettings := by
  have hport : leapRecord.Sound := by
    show leapRecord.port < portBound
    decide
  have hlatency : leapRecord.Readable := by
    show leapRecord.latency.ReadsBack
    decide +kernel
  have htext : JsonForm.ofText " [true, null, \"/ns\" ]" = .ok placedSettings :=
    Except.eq_ok_of_toOption (by decide +kernel)
  exact ⟨(round_trip .event).1 (WorkerEvent.record leapRecord) hport hlatency, htext,
    (round_trip .settings).2 _ placedSettings htext trivial⟩

end WireType

end PolicyProbe
