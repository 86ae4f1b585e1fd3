import PolicyProbe.Proofs.OrderedMap
import PolicyProbe.Proofs.Policy.Forms
import PolicyProbe.Settings

/-!
The JSON form of settings is read back. Every member of it is written, so no default comes into
play; the defaults are needed for what other texts are decoded as. Whole numbers are those of a
word, and the namespaces are a map in the order of their names.
-/
namespace PolicyProbe

open Layout

theorem Word.finds {n : Nat} (h : n < Numeral.wordBound) : Decoder.word64.Finds (.nat n) n :=
  Decoder.finds_natBelow (Nat.le_refl _) h

theorem Word.yields : Decoder.word64.Yields (· < Numeral.wordBound) :=
  Decoder.yields_natBelow Numeral.wordBound

namespace TrafficSettings

/-- Whether all numbers of traffic settings fit a word. -/
structure Sound (s : TrafficSettings) : Prop where
  requestRate : s.requestRate < Numeral.wordBound
  cycleSeconds : s.cycleSeconds < Numeral.wordBound
  pingTimeoutMs : s.pingTimeoutMs < Numeral.wordBound
  readyTimeoutMs : s.readyTimeoutMs < Numeral.wordBound

theorem sound_default : default.Sound := by
  constructor <;> decide

theorem finds {s : TrafficSettings} (h : s.Sound) : TrafficSettings.decoder.Finds s.toJson s := by
  have hrate := reads_withDefault "request_rate" default.requestRate (Word.finds h.requestRate)
  have hcycle := reads_withDefault "cycle_interval_secs" default.cycleSeconds
    (Word.finds h.cycleSeconds)
  have hping := reads_withDefault "ping_timeout_ms" default.pingTimeoutMs
    (Word.finds h.pingTimeoutMs)
  have hready := reads_withDefault "worker_ready_timeout_ms" default.readyTimeoutMs
    (Word.finds h.readyTimeoutMs)
  exact ((((hrate.map TrafficSettings.mk).andThen hcycle).andThen hping).andThen hready).finds
    (by decide)

theorem yields : TrafficSettings.decoder.Yields Sound := by
  refine Yields.decode fun manner value? => ?_
  simp only [layout, built_andThen, built_map]
  intro _ hrate _ hcycle _ hping _ hready
  exact ⟨yields_withDefault _ Word.yields sound_default.requestRate hrate,
    yields_withDefault _ Word.yields sound_default.cycleSeconds hcycle,
    yields_withDefault _ Word.yields sound_default.pingTimeoutMs hping,
    yields_withDefault _ Word.yields sound_default.readyTimeoutMs hready⟩

end TrafficSettings

theorem RecordBackend.finds (b : RecordBackend) : RecordBackend.decoder.Finds b.toJson b := by
  cases b <;> exact Decoder.finds_word (by decide)

namespace RecorderSettings

/-- Whether all numbers of recorder settings fit a word. -/
structure Sound (s : RecorderSettings) : Prop where
  queueCapacity : s.queueCapacity < Numeral.wordBound
  workers : s.workers < Numeral.wordBound
  pollMs : s.pollMs < Numeral.wordBound

theorem sound_default : default.Sound := by
  constructor <;> decide

theorem finds {s : RecorderSettings} (h : s.Sound) :
    RecorderSettings.decoder.Finds s.toJson s := by
  have hbackends := reads_withDefault "backends" default.backends
    (Decoder.finds_list fun b (_ : b ∈ s.backends) => RecordBackend.finds b)
  have hpath := reads_withDefault "path" default.path (Decoder.finds_string s.path)
  have hcapacity := reads_withDefault "queue_capacity" default.queueCapacity
    (Word.finds h.queueCapacity)
  have hworkers := reads_withDefault "workers" default.workers (Word.finds h.workers)
  have hpoll := reads_withDefault "poll_interval_ms" default.pollMs (Word.finds h.pollMs)
  exact (((((hbackends.map RecorderSettings.mk).andThen hpath).andThen hcapacity).andThen
    hworkers).andThen hpoll).finds (by decide)

theorem yields : RecorderSettings.decoder.Yields Sound := by
  refine Yields.decode fun manner value? => ?_
  simp only [layout, built_andThen, built_map]
  intro _ _ _ _ _ hcapacity _ hworkers _ hpoll
  exact ⟨yields_withDefault _ Word.yields sound_default.queueCapacity hcapacity,
    yields_withDefault _ Word.yields sound_default.workers hworkers,
    yields_withDefault _ Word.yields sound_default.pollMs hpoll⟩

end RecorderSettings

theorem StateBackend.finds (b : StateBackend) : StateBackend.decoder.Finds b.toJson b := by
  cases b <;> exact Decoder.finds_word (by decide)

open StateSettings in
theorem StateSettings.finds (s : StateSettings) : StateSettings.decoder.Finds s.toJson s := by
  have hbackend := reads_withDefault "backend" default.backend s.backend.finds
  have hpath := reads_withDefault "path" default.path (Decoder.finds_string s.path)
  exact ((hbackend.map StateSettings.mk).andThen hpath).finds (by decide)

namespace Settings

/-- Whether all numbers of settings fit a word and the namespaces are in order. -/
structure Sound (s : Settings) : Prop where
  namespaces : OrderedMap.Sorted s.namespaces
  traffic : s.traffic.Sound
  recorder : s.recorder.Sound

/-- The namespaces are found as a map: those that are written are in order already. -/
theorem finds_namespaces {m : OrderedMap String Address} (h : OrderedMap.Sorted m) :
    (Decoder.map OrderedMap.ofList (Decoder.entries Address.decoder)).Finds
      (.object (m.map fun e => (e.1, e.2.toJson))) m := by
  have hentries := Decoder.finds_map OrderedMap.ofList
    (Decoder.finds_entries fun (e : String × Address) (_ : e ∈ m) => e.2.finds)
  rwa [h.ofList] at hentries

theorem finds {s : Settings} (h : s.Sound) : Settings.decoder.Finds s.toJson s := by
  have hendpoint : (Decoder.optional Address.decoder).Finds
      (.ofOption (s.endpoint.map Address.toJson)) s.endpoint :=
    Decoder.finds_optional (fun _ _ => nofun) fun a _ => a.finds
  have hmode := reads_withDefault "namespace_mode" default.namespaceMode
    (Decoder.finds_bool s.namespaceMode)
  have hplace := reads_withDefault "endpoint" default.endpoint hendpoint
  have hdirectory := reads_withDefault "netns_dir" default.namespaceDir
    (Decoder.finds_string s.namespaceDir)
  have hnames := reads_withDefault "namespaces" default.namespaces (finds_namespaces h.namespaces)
  have htraffic := reads_withDefault "traffic" default.traffic (TrafficSettings.finds h.traffic)
  have hrecorder := reads_withDefault "recorder" default.recorder
    (RecorderSettings.finds h.recorder)
  have hstate := reads_withDefault "connected_state" default.state s.state.finds
  exact (((((((hmode.map Settings.mk).andThen hplace).andThen hdirectory).andThen hnames).andThen
    htraffic).andThen hrecorder).andThen hstate).finds (by decide)

theorem yields : Settings.decoder.Yields Sound := by
  refine Yields.decode fun manner value? => ?_
  simp only [layout, built_andThen, built_map]
  intro _ _ _ _ _ _ m hm _ htraffic _ hrecorder _ _
  have hentries : (Decoder.entries Address.decoder).Yields fun _ => True := fun _ _ _ _ => trivial
  have hsorted := hentries.map (f := OrderedMap.ofList) fun es _ => OrderedMap.sorted_ofList es
  exact ⟨yields_withDefault _ hsorted OrderedMap.sorted_nil hm,
    yields_withDefault _ TrafficSettings.yields TrafficSettings.sound_default htraffic,
    yields_withDefault _ RecorderSettings.yields RecorderSettings.sound_default hrecorder⟩

end Settings

instance : WireForm TrafficSettings where
  Sound := TrafficSettings.Sound
  finds _ h _ := TrafficSettings.finds h
  yields := TrafficSettings.yields

instance : WireForm RecorderSettings where
  Sound := RecorderSettings.Sound
  finds _ h _ := RecorderSettings.finds h
  yields := RecorderSettings.yields

instance : WireForm StateSettings where
  finds a _ _ := StateSettings.finds a
  yields := Decoder.yields_true _

instance : WireForm Settings where
  Sound := Settings.Sound
  finds _ h _ := Settings.finds h
  yields := Settings.yields

end PolicyProbe
