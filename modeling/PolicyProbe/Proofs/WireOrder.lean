import PolicyProbe.Proofs.Json.Variants
import PolicyProbe.Proofs.Wire

/-!
Decoding does not depend on the order of members, for all types that are read from JSON. The shape
of each type lists the fields of its structures with what stands for those that may be left out
(`WireType.shape`), and its decoder ignores the edits of that shape (`WireType.ignores`). So a text
that is decoded may have the members of its objects in another order, unknown members in its
structures, and arrays for its plain structures (`WireType.order_ignored`).
-/
namespace PolicyProbe

open Layout Decoder

/-- A field with a plain value that has to be there. -/
def FieldShape.plain (name : String) : FieldShape := ⟨name, .required, .simple⟩

/-! ## Rules and entries of desired state -/

theorem Address.ignores : Address.decoder.Ignores .simple := ignores_textOf _

theorem Protocol.ignores : Protocol.decoder.Ignores .simple := ignores_word _

theorem Port.ignores : Port.decoder.Ignores .simple := ignores_natBelow _

theorem RuleState.ignores : RuleState.decoder.Ignores .simple := ignores_word _

theorem Action.ignores : Action.decoder.Ignores .simple :=
  ignores_of_refuses (by simp [Action.decoder]) (by simp [Action.decoder])

namespace Rule

def shapes : List FieldShape :=
  [.plain "src", .plain "dst", .plain "protocol", .plain "port", .plain "connected",
    .plain "action", ⟨"state", .defaulted RuleState.active.toJson, .simple⟩]

theorem ignores : Rule.decoder.Ignores (.struct shapes) := by
  have hends := ((follows_required "src" Address.ignores).map Rule.mk).andThen
    (follows_required "dst" Address.ignores)
  have hport := (hends.andThen (follows_required "protocol" Protocol.ignores)).andThen
    (follows_required "port" Port.ignores)
  have haction := (hport.andThen (follows_required "connected" ignores_bool)).andThen
    (follows_required "action" Action.ignores)
  exact (haction.andThen (follows_withDefault "state" RuleState.ignores
    (RuleState.finds .active))).ignores (by decide)

end Rule

namespace Destination

def shapes : List FieldShape :=
  [.plain "protocol", .plain "port", .plain "address", .plain "connected", .plain "action"]

theorem ignores : Destination.decoder.Ignores (.struct shapes) := by
  have hport := ((follows_required "protocol" Protocol.ignores).map Destination.mk).andThen
    (follows_required "port" Port.ignores)
  have hconnected := (hport.andThen (follows_required "address" Address.ignores)).andThen
    (follows_required "connected" ignores_bool)
  exact (hconnected.andThen (follows_required "action" Action.ignores)).ignores (by decide)

end Destination

namespace ServerEntry

def shapes : List FieldShape := [.plain "protocol", .plain "port"]

theorem ignores : ServerEntry.decoder.Ignores (.struct shapes) := by
  have hprotocol := (follows_required "protocol" Protocol.ignores).map ServerEntry.mk
  exact (hprotocol.andThen (follows_required "port" Port.ignores)).ignores (by decide)

end ServerEntry

namespace ClientEntry

def shapes : List FieldShape :=
  [.plain "protocol", .plain "port", .plain "destination", .plain "connected", .plain "action"]

theorem ignores : ClientEntry.decoder.Ignores (.struct shapes) := by
  have hport := ((follows_required "protocol" Protocol.ignores).map ClientEntry.mk).andThen
    (follows_required "port" Port.ignores)
  have hconnected := (hport.andThen (follows_required "destination" Address.ignores)).andThen
    (follows_required "connected" ignores_bool)
  exact (hconnected.andThen (follows_required "action" Action.ignores)).ignores (by decide)

end ClientEntry

namespace StateEntry

def shapes : List FieldShape :=
  [.plain "endpoint", ⟨"servers", .required, .list (.struct ServerEntry.shapes)⟩,
    ⟨"clients", .required, .list (.struct ClientEntry.shapes)⟩]

theorem ignores : StateEntry.decoder.Ignores (.struct shapes) := by
  have hservers := ((follows_required "endpoint" Address.ignores).map StateEntry.mk).andThen
    (follows_required "servers" ServerEntry.ignores.list)
  exact (hservers.andThen (follows_required "clients" ClientEntry.ignores.list)).ignores (by decide)

end StateEntry

/-! ## Records and filters -/

namespace Record

def shapes : List FieldShape :=
  [.plain "id", .plain "src", .plain "dst", .plain "port", .plain "protocol", .plain "latency_ms",
    ⟨"error", .optional, .simple⟩, .plain "success", .plain "connected", .plain "created_time"]

theorem ignores : Record.decoder.Ignores (.struct shapes) := by
  have hends := (((follows_required "id" (ignores_textOf Identifier.ofText?)).map Record.mk).andThen
    (follows_required "src" Address.ignores)).andThen (follows_required "dst" Address.ignores)
  have hprotocol := (hends.andThen (follows_required "port" Port.ignores)).andThen
    (follows_required "protocol" Protocol.ignores)
  have herror := (hprotocol.andThen (follows_required "latency_ms" ignores_double)).andThen
    (follows_optional "error" ignores_string)
  have hconnected := (herror.andThen (follows_required "success" ignores_bool)).andThen
    (follows_required "connected" ignores_bool)
  exact (hconnected.andThen (follows_required "created_time"
    (ignores_textOf Instant.ofText?))).ignores (by decide)

end Record

namespace Filter

/-- All criteria may be left out. -/
def shapes : List FieldShape :=
  ["src", "dst", "port", "protocol", "success", "since", "until"].map (⟨·, .optional, .simple⟩)

theorem ignores : Filter.decoder.Ignores (.struct shapes) := by
  have hends := ((follows_optional "src" Address.ignores).map Filter.mk).andThen
    (follows_optional "dst" Address.ignores)
  have hprotocol := (hends.andThen (follows_optional "port" Port.ignores)).andThen
    (follows_optional "protocol" Protocol.ignores)
  have hsince := (hprotocol.andThen (follows_optional "success" ignores_bool)).andThen
    (follows_optional "since" (ignores_textOf Instant.ofText?))
  exact (hsince.andThen (follows_optional "until" (ignores_textOf Instant.ofText?))).ignores
    (by decide)

end Filter

/-! ## Settings -/

theorem Word.ignores : Decoder.word64.Ignores .simple := ignores_natBelow _

/-- A setting with a whole number as its default. -/
def FieldShape.word (name : String) (default : Nat) : FieldShape :=
  ⟨name, .defaulted (.nat default), .simple⟩

namespace TrafficSettings

def shapes : List FieldShape :=
  [.word "request_rate" default.requestRate, .word "cycle_interval_secs" default.cycleSeconds,
    .word "ping_timeout_ms" default.pingTimeoutMs,
    .word "worker_ready_timeout_ms" default.readyTimeoutMs]

theorem ignores : TrafficSettings.decoder.Ignores (.struct shapes) := by
  have hrate := follows_withDefault "request_rate" Word.ignores
    (Word.finds sound_default.requestRate)
  have hcycle := follows_withDefault "cycle_interval_secs" Word.ignores
    (Word.finds sound_default.cycleSeconds)
  have hping := follows_withDefault "ping_timeout_ms" Word.ignores
    (Word.finds sound_default.pingTimeoutMs)
  have hready := follows_withDefault "worker_ready_timeout_ms" Word.ignores
    (Word.finds sound_default.readyTimeoutMs)
  exact ((((hrate.map TrafficSettings.mk).andThen hcycle).andThen hping).andThen hready).ignores
    (by decide)

end TrafficSettings

theorem RecordBackend.ignores : RecordBackend.decoder.Ignores .simple := ignores_word _

namespace RecorderSettings

def shapes : List FieldShape :=
  [⟨"backends", .defaulted (.array (default.backends.map RecordBackend.toJson)), .list .simple⟩,
    ⟨"path", .defaulted (.string default.path), .simple⟩,
    .word "queue_capacity" default.queueCapacity, .word "workers" default.workers,
    .word "poll_interval_ms" default.pollMs]

theorem ignores : RecorderSettings.decoder.Ignores (.struct shapes) := by
  have hbackends := follows_withDefault "backends" RecordBackend.ignores.list
    (finds_list fun b (_ : b ∈ default.backends) => RecordBackend.finds b)
  have hpath := follows_withDefault "path" ignores_string (finds_string default.path)
  have hcapacity := follows_withDefault "queue_capacity" Word.ignores
    (Word.finds sound_default.queueCapacity)
  have hworkers := follows_withDefault "workers" Word.ignores (Word.finds sound_default.workers)
  have hpoll := follows_withDefault "poll_interval_ms" Word.ignores
    (Word.finds sound_default.pollMs)
  exact (((((hbackends.map RecorderSettings.mk).andThen hpath).andThen hcapacity).andThen
    hworkers).andThen hpoll).ignores (by decide)

end RecorderSettings

theorem StateBackend.ignores : StateBackend.decoder.Ignores .simple := ignores_word _

namespace StateSettings

def shapes : List FieldShape :=
  [⟨"backend", .defaulted default.backend.toJson, .simple⟩,
    ⟨"path", .defaulted (.string default.path), .simple⟩]

theorem ignores : StateSettings.decoder.Ignores (.struct shapes) := by
  have hbackend := follows_withDefault "backend" StateBackend.ignores
    (StateBackend.finds default.backend)
  have hpath := follows_withDefault "path" ignores_string (finds_string default.path)
  exact ((hbackend.map StateSettings.mk).andThen hpath).ignores (by decide)

end StateSettings

namespace Settings

def shapes : List FieldShape :=
  [⟨"namespace_mode", .defaulted (.bool default.namespaceMode), .simple⟩,
    ⟨"endpoint", .defaulted (.ofOption (default.endpoint.map Address.toJson)), .simple⟩,
    ⟨"netns_dir", .defaulted (.string default.namespaceDir), .simple⟩,
    ⟨"namespaces", .defaulted (.object (default.namespaces.map fun e => (e.1, e.2.toJson))),
      .simple⟩,
    ⟨"traffic", .defaulted default.traffic.toJson, .struct TrafficSettings.shapes⟩,
    ⟨"recorder", .defaulted default.recorder.toJson, .struct RecorderSettings.shapes⟩,
    ⟨"connected_state", .defaulted default.state.toJson, .struct StateSettings.shapes⟩]

theorem ignores : Settings.decoder.Ignores (.struct shapes) := by
  have hnone : (Decoder.optional Address.decoder).Finds
      (.ofOption (default.endpoint.map Address.toJson)) default.endpoint :=
    finds_optional (fun _ _ => nofun) fun a _ => a.finds
  have hmode := follows_withDefault "namespace_mode" ignores_bool
    (finds_bool default.namespaceMode)
  have hplace := follows_withDefault "endpoint" Address.ignores.optional hnone
  have hdirectory := follows_withDefault "netns_dir" ignores_string
    (finds_string default.namespaceDir)
  have hnames := follows_withDefault "namespaces" Address.ignores.entries
    (finds_namespaces OrderedMap.sorted_nil)
  have htraffic := follows_withDefault "traffic" TrafficSettings.ignores
    (TrafficSettings.finds TrafficSettings.sound_default)
  have hrecorder := follows_withDefault "recorder" RecorderSettings.ignores
    (RecorderSettings.finds RecorderSettings.sound_default)
  have hstate := follows_withDefault "connected_state" StateSettings.ignores
    (StateSettings.finds default.state)
  exact (((((((hmode.map Settings.mk).andThen hplace).andThen hdirectory).andThen hnames).andThen
    htraffic).andThen hrecorder).andThen hstate).ignores (by decide)

end Settings

/-! ## Workers -/

namespace ServerSpec

def shapes : List FieldShape := [.plain "protocol", .plain "port", .plain "bind_address"]

theorem ignores : ServerSpec.decoder.Ignores (.struct shapes) := by
  have hport := ((follows_required "protocol" Protocol.ignores).map ServerSpec.mk).andThen
    (follows_required "port" Port.ignores)
  exact (hport.andThen (follows_required "bind_address" Address.ignores)).ignores (by decide)

end ServerSpec

namespace ClientSpec

def shapes : List FieldShape :=
  [.plain "source", ⟨"destinations", .required, .list (.struct Destination.shapes)⟩,
    ⟨"settings", .required, .struct TrafficSettings.shapes⟩]

theorem ignores : ClientSpec.decoder.Ignores (.struct shapes) := by
  have hdestinations := ((follows_required "source" Address.ignores).map ClientSpec.mk).andThen
    (follows_required "destinations" Destination.ignores.list)
  exact (hdestinations.andThen (follows_required "settings" TrafficSettings.ignores)).ignores
    (by decide)

end ClientSpec

theorem FailureStage.ignores : FailureStage.decoder.Ignores .simple := ignores_word _

namespace Runnable

def shapes : List (String × List FieldShape) :=
  [("server", ServerSpec.shapes), ("client", ClientSpec.shapes)]

theorem ignores : Runnable.decoder.Ignores (.tagged tag shapes) := by
  refine Variants.Follows.ignores (.cons ⟨rfl, ?_⟩ (.cons ⟨rfl, ?_⟩ .nil))
  · exact ServerSpec.ignores.map Runnable.server
  · exact ClientSpec.ignores.map Runnable.client

end Runnable

namespace WorkerEvent

def failedShapes : List FieldShape := [.plain "stage", .plain "message"]

theorem failed_ignores : failedLayout.decode.Ignores (.struct failedShapes) := by
  have hstage := (follows_required "stage" FailureStage.ignores).map WorkerEvent.failed
  exact (hstage.andThen (follows_required "message" ignores_string)).ignores (by decide)

def shapes : List (String × List FieldShape) :=
  [("ready", []), ("failed", failedShapes), ("record", Record.shapes)]

theorem ignores : WorkerEvent.decoder.Ignores (.tagged tag shapes) := by
  refine Variants.Follows.ignores (.cons ⟨rfl, ?_⟩ (.cons ⟨rfl, ?_⟩ (.cons ⟨rfl, ?_⟩ .nil)))
  · exact Variants.ignores_bare WorkerEvent.ready
  · exact failed_ignores
  · exact Record.ignores.map WorkerEvent.record

end WorkerEvent

/-! ## All types -/

namespace WireType

/-- Where the values of a type are structures. -/
def shape : WireType → Shape
  | .action | .protocol | .ruleState | .failureStage => .simple
  | .rule => .struct Rule.shapes
  | .destination => .struct Destination.shapes
  | .record => .struct Record.shapes
  | .filter => .struct Filter.shapes
  | .serverEntry => .struct ServerEntry.shapes
  | .clientEntry => .struct ClientEntry.shapes
  | .stateEntry => .struct StateEntry.shapes
  | .serverSpec => .struct ServerSpec.shapes
  | .clientSpec => .struct ClientSpec.shapes
  | .runnable => .tagged Runnable.tag Runnable.shapes
  | .event => .tagged WorkerEvent.tag WorkerEvent.shapes
  | .trafficSettings => .struct TrafficSettings.shapes
  | .recorderSettings => .struct RecorderSettings.shapes
  | .stateSettings => .struct StateSettings.shapes
  | .settings => .struct Settings.shapes

/-- Every type ignores the edits of its shape. -/
theorem ignores (w : WireType) : (JsonForm.decoder (α := w.Value)).Ignores w.shape := by
  cases w with
  | action => exact Action.ignores
  | protocol => exact Protocol.ignores
  | ruleState => exact RuleState.ignores
  | failureStage => exact FailureStage.ignores
  | rule => exact Rule.ignores
  | destination => exact Destination.ignores
  | record => exact Record.ignores
  | filter => exact Filter.ignores
  | serverEntry => exact ServerEntry.ignores
  | clientEntry => exact ClientEntry.ignores
  | stateEntry => exact StateEntry.ignores
  | serverSpec => exact ServerSpec.ignores
  | clientSpec => exact ClientSpec.ignores
  | runnable => exact Runnable.ignores
  | event => exact WorkerEvent.ignores
  | trafficSettings => exact TrafficSettings.ignores
  | recorderSettings => exact RecorderSettings.ignores
  | stateSettings => exact StateSettings.ignores
  | settings => exact Settings.ignores

theorem ofText_eq_ok_iff {α : Type} [JsonForm α] {text : String} {a : α} :
    JsonForm.ofText text = .ok a ↔ ∃ r, Reading.ofText text.toList = (r, true) ∧
      (JsonForm.decoder (α := α)) .direct r = .ok a := by
  rw [JsonForm.ofText, Decoder.run]
  rcases hr : Reading.ofText text.toList with ⟨r, clean⟩
  constructor
  · intro h
    obtain ⟨b, hb, h⟩ := Except.bind_eq_ok h
    split at h
    · rename_i hclean
      exact ⟨r, by rw [show clean = true from hclean], hb.trans h⟩
    · cases h
  · rintro ⟨r', heq, ha⟩
    obtain ⟨rfl, rfl⟩ := Prod.mk.inj heq
    simp only [ha]
    rfl

/-- A text that is decoded is that of a document, and every document whose text is read as the same
value after edits is decoded as the same. -/
theorem order_ignored (w : WireType) {text : String} {v : w.Value}
    (h : JsonForm.ofText text = .ok v) :
    (∃ d : Document, d.text = text) ∧ ∀ d d' : Document, d.text = text →
      Relation.ReflTransGen (Edit 128 w.shape) d.reading d'.reading →
      JsonForm.ofText d'.text = .ok v := by
  obtain ⟨r, hr, hv⟩ := ofText_eq_ok_iff.mp h
  refine ⟨?_, ?_⟩
  · obtain ⟨d, hd, -⟩ := Document.exists_of_ofText hr
    exact ⟨d, hd⟩
  · intro d d' hd hedits
    -- One text is read in one way only, whichever document it is cut into.
    have hreading : d.reading = r := by
      have hsame := (d.ofText_text).symm.trans ((congrArg (Reading.ofText ·.toList) hd).trans hr)
      exact (Prod.mk.inj hsame).1
    refine ofText_eq_ok_iff.mpr ⟨d'.reading, d'.ofText_text, ?_⟩
    rw [← hreading] at hv
    exact w.ignores.edits hedits hv

/-- A client with its tag in front. -/
def tagFirst : String :=
  "\x7b\"type\": \"client\", \"source\": \"127.0.0.1\", \"destinations\": [], " ++
    "\"settings\": \x7b\"request_rate\": 5\x7d\x7d"

/-- The same client with its settings as an array, a member that means nothing, and its tag at the
end. -/
def tagLast : String :=
  "\x7b \"settings\": [5], \"destinations\": [], \"source\": \"127.0.0.1\", \"note\": [null], " ++
    "\"type\": \"client\" \x7d"

/-- What both texts stand for. -/
def fiveClient : Runnable :=
  .client ⟨.loopback, [], { TrafficSettings.default with requestRate := 5 }⟩

/-- What the number in these texts is read as. -/
def five : Reading := .number ⟨false, [5], none, none⟩

/-- What the members of these texts are read as, from the tag on. -/
def tagged (notes : List (Option String × Reading)) (settings : Reading) :
    List (Option String × Reading) :=
  (some Runnable.tag, .string (some "client")) :: notes ++
    [(some "source", .string (some "127.0.0.1")), (some "destinations", .array [] .closed),
      (some "settings", settings)]

/-- The settings become an array, then the note is put in, then the order is turned around. -/
theorem edits_tagged : Relation.ReflTransGen (Edit 128 (shape .runnable))
    (.object (tagged [] (.object [(some "request_rate", five)] .closed)) .closed)
    (.object (tagged [(some "note", .array [.null] .closed)] (.array [five] .closed)).reverse
      .closed) := by
  have hlisted : Edit 127 (.struct TrafficSettings.shapes)
      (.object [(some "request_rate", five)] .closed) (.array [five] .closed) :=
    .listed (.given rfl (.ends (by decide)))
  have hsettings : Edit 128 (shape .runnable)
      (.object (tagged [] (.object [(some "request_rate", five)] .closed)) .closed)
      (.object (tagged [] (.array [five] .closed)) .closed) :=
    .tagged rfl List.mem_cons_self (@Edit.field 127 _ ⟨"settings", .required, _⟩
      [_, _, _] [] _ _ _ (by simp [ClientSpec.shapes]) hlisted)
  have hnote : Edit 128 (shape .runnable) (.object (tagged [] (.array [five] .closed)) .closed)
      (.object (tagged [(some "note", .array [.null] .closed)] (.array [five] .closed)) .closed) :=
    .tagged rfl List.mem_cons_self (@Edit.inserted 127 _ "note" _ [_] _ _ (by decide) rfl)
  refine .head hsettings (.head hnote (.single (.permuted (.here ?_ ?_))))
  · decide
  · exact (List.reverse_perm _).symm

/-- The tag may come last, beside a member that means nothing and settings without names. -/
theorem order_ignored_tagLast :
    JsonForm.ofText tagFirst = .ok fiveClient ∧ JsonForm.ofText tagLast = .ok fiveClient := by
  have hclient : JsonForm.ofText tagFirst = .ok fiveClient :=
    Except.eq_ok_of_toOption (by decide +kernel)
  have hfirst : Reading.ofText tagFirst.toList =
      (.object (tagged [] (.object [(some "request_rate", five)] .closed)) .closed, true) := by
    cbv
  have hlast : Reading.ofText tagLast.toList =
      (.object (tagged [(some "note", .array [.null] .closed)]
        (.array [five] .closed)).reverse .closed, true) := by
    cbv
  obtain ⟨d, hd, hdr⟩ := Document.exists_of_ofText hfirst
  obtain ⟨d', hd', hdr'⟩ := Document.exists_of_ofText hlast
  refine ⟨hclient, ?_⟩
  rw [← hd']
  refine (order_ignored .runnable hclient).2 d d' hd ?_
  rw [hdr, hdr']
  exact edits_tagged

end WireType

end PolicyProbe
