import PolicyProbe.Proofs.Json.Tagged
import PolicyProbe.Proofs.Record
import PolicyProbe.Proofs.Settings
import PolicyProbe.Worker.Spec

/-!
The JSON forms of what a worker runs and of what it reports are read back. Both are tagged, so what
stands beside the tag has to be kept whole first; that a record can be kept needs that its latency
is in range, which it is when it is found again in its text.
-/
namespace PolicyProbe

open Layout

namespace ServerSpec

/-- Whether the port of a server is one. -/
def Sound (s : ServerSpec) : Prop := s.port < portBound

theorem reads {s : ServerSpec} (h : s.Sound) : ServerSpec.layout.Reads s.members s := by
  have hport := ((reads_required "protocol" s.protocol.finds).map ServerSpec.mk).andThen
    (reads_required "port" (Port.finds h))
  exact hport.andThen (reads_required "bind_address" s.bindAddress.finds)

theorem finds {s : ServerSpec} (h : s.Sound) : ServerSpec.decoder.Finds s.toJson s :=
  (reads h).finds (by decide)

theorem yields : ServerSpec.decoder.Yields Sound := by
  refine Yields.decode fun manner value? => ?_
  simp only [layout, built_andThen, built_map]
  intro _ _ port hport _ _
  exact yields_required "port" Port.yields hport

theorem keeps_members {s : ServerSpec} (h : s.Sound) : ∀ m ∈ s.members, m.2.Keeps 127 := by
  have hport : s.port < 2 ^ 64 := Nat.lt_trans h (by decide)
  simp only [members, List.forall_mem_cons]
  exact ⟨Json.keeps_string _ _, Json.keeps_nat _ hport, Json.keeps_string _ _, nofun⟩

end ServerSpec

namespace ClientSpec

/-- Whether the ports of the destinations of a client are ports, and its settings fit. -/
structure Sound (c : ClientSpec) : Prop where
  destinations : ∀ d ∈ c.destinations, d.Sound
  settings : c.settings.Sound

theorem reads {c : ClientSpec} (h : c.Sound) : ClientSpec.layout.Reads c.members c := by
  have hdestinations := ((reads_required "source" c.source.finds).map ClientSpec.mk).andThen
    (reads_required "destinations"
      (Decoder.finds_list fun d hd => Destination.finds (h.destinations d hd)))
  exact hdestinations.andThen (reads_required "settings" (TrafficSettings.finds h.settings))

theorem finds {c : ClientSpec} (h : c.Sound) : ClientSpec.decoder.Finds c.toJson c :=
  (reads h).finds (by decide)

theorem yields : ClientSpec.decoder.Yields Sound := by
  refine Yields.decode fun manner value? => ?_
  simp only [layout, built_andThen, built_map]
  intro _ _ _ hdestinations _ hsettings
  exact ⟨yields_required "destinations" Destination.yields.list hdestinations,
    yields_required "settings" TrafficSettings.yields hsettings⟩

end ClientSpec

theorem Destination.keeps {d : Destination} (h : d.Sound) : d.toJson.Keeps 126 := by
  have hport : d.port < 2 ^ 64 := Nat.lt_trans h (by decide)
  refine Json.keeps_object (by decide : 0 < 125) ?_
  simp only [List.forall_mem_cons]
  exact ⟨Json.keeps_string _ _, Json.keeps_nat _ hport, Json.keeps_string _ _, Json.keeps_bool _ _,
    Json.keeps_string _ _, nofun⟩

theorem TrafficSettings.keeps {s : TrafficSettings} (h : s.Sound) : s.toJson.Keeps 127 := by
  refine Json.keeps_object (by decide : 0 < 126) ?_
  simp only [List.forall_mem_cons]
  exact ⟨Json.keeps_nat _ h.requestRate, Json.keeps_nat _ h.cycleSeconds,
    Json.keeps_nat _ h.pingTimeoutMs, Json.keeps_nat _ h.readyTimeoutMs, nofun⟩

theorem ClientSpec.keeps_members {c : ClientSpec} (h : c.Sound) :
    ∀ m ∈ c.members, m.2.Keeps 127 := by
  have hdestinations : (Json.array (c.destinations.map Destination.toJson)).Keeps 127 := by
    refine Json.keeps_array (by decide : 0 < 126) fun j hj => ?_
    obtain ⟨d, hd, rfl⟩ := List.mem_map.mp hj
    exact Destination.keeps (h.destinations d hd)
  simp only [members, List.forall_mem_cons]
  exact ⟨Json.keeps_string _ _, hdestinations, TrafficSettings.keeps h.settings, nofun⟩

namespace Runnable

/-- Whether what a runnable runs is sound. -/
def Sound : Runnable → Prop
  | .server spec => spec.Sound
  | .client spec => spec.Sound

theorem finds {r : Runnable} (h : r.Sound) : Runnable.decoder.Finds r.toJson r := by
  cases r with
  | server spec =>
    have hspec := Decoder.finds_map Runnable.server (ServerSpec.finds h)
    refine Variants.finds (by rfl) hspec ?_ (ServerSpec.keeps_members h)
    simp [ServerSpec.members, tag]
  | client spec =>
    have hspec := Decoder.finds_map Runnable.client (ClientSpec.finds h)
    refine Variants.finds (by rfl) hspec ?_ (ClientSpec.keeps_members h)
    simp [ClientSpec.members, tag]

theorem yields : Runnable.decoder.Yields Sound := by
  refine Variants.yields ?_
  simp only [List.forall_mem_cons]
  exact ⟨ServerSpec.yields.map fun _ h => h, ClientSpec.yields.map fun _ h => h, nofun⟩

end Runnable

theorem FailureStage.finds (s : FailureStage) : FailureStage.decoder.Finds s.toJson s := by
  cases s <;> exact Decoder.finds_word (by decide)

theorem Record.keeps_members {r : Record} (hport : r.Sound) (hlatency : r.Readable) :
    ∀ m ∈ r.members, m.2.Keeps 127 := by
  have hword : r.port < 2 ^ 64 := Nat.lt_trans hport (by decide)
  have herror : (Json.ofOption (r.error.map .string)).Keeps 127 := by
    refine Json.keeps_ofOption fun j hj => ?_
    obtain ⟨e, -, rfl⟩ := Option.map_eq_some_iff.mp hj
    exact Json.keeps_string _ e
  simp only [members, List.forall_mem_cons]
  exact ⟨Json.keeps_string _ _, Json.keeps_string _ _, Json.keeps_string _ _,
    Json.keeps_nat _ hword, Json.keeps_string _ _, Json.keeps_float _ hlatency, herror,
    Json.keeps_bool _ _, Json.keeps_bool _ _, Json.keeps_string _ _, nofun⟩

namespace WorkerEvent

/-- Whether the record of an event is sound, if it has one. -/
def Sound : WorkerEvent → Prop
  | .record r => r.Sound
  | _ => True

/-- Whether the record of an event is readable, if it has one. -/
def Readable : WorkerEvent → Prop
  | .record r => r.Readable
  | _ => True

theorem finds {e : WorkerEvent} (h : e.Sound) (hr : e.Readable) :
    WorkerEvent.decoder.Finds e.toJson e := by
  cases e with
  | ready =>
    have hbare : (Variants.bare WorkerEvent.ready).Finds (.object []) .ready := fun _ => rfl
    exact Variants.finds (by rfl) hbare nofun nofun
  | failed stage message =>
    have hstage := (reads_required "stage" stage.finds).map WorkerEvent.failed
    have hfailed := (hstage.andThen
      (reads_required "message" (Decoder.finds_string message))).finds (by decide)
    refine Variants.finds (by rfl) hfailed ?_ ?_
    · simp [tag]
    · simp only [List.forall_mem_cons]
      exact ⟨Json.keeps_string _ _, Json.keeps_string _ _, nofun⟩
  | record r =>
    have hrecord := Decoder.finds_map WorkerEvent.record (Record.finds h hr)
    refine Variants.finds (by rfl) hrecord ?_ (Record.keeps_members h hr)
    simp [Record.members, tag]

theorem yields : WorkerEvent.decoder.Yields Sound := by
  have hready : (Variants.bare WorkerEvent.ready).Yields Sound := by
    intro manner r e h
    unfold Variants.bare at h
    split at h
    · exact Except.ok.inj h ▸ trivial
    · exact Except.ok.inj h ▸ trivial
    · exact nomatch h
  have hfailed : failedLayout.decode.Yields Sound := by
    refine Yields.decode fun manner value? => ?_
    simp only [failedLayout, built_andThen, built_map]
    intro _ _ _ _
    trivial
  refine Variants.yields ?_
  simp only [List.forall_mem_cons]
  exact ⟨hready, hfailed, Record.yields.map fun _ h => h, nofun⟩

end WorkerEvent

instance : WireForm ServerSpec where
  Sound := ServerSpec.Sound
  finds _ h _ := ServerSpec.finds h
  yields := ServerSpec.yields

instance : WireForm ClientSpec where
  Sound := ClientSpec.Sound
  finds _ h _ := ClientSpec.finds h
  yields := ClientSpec.yields

instance : WireForm Runnable where
  Sound := Runnable.Sound
  finds _ h _ := Runnable.finds h
  yields := Runnable.yields

instance : WireForm FailureStage where
  finds a _ _ := FailureStage.finds a
  yields := Decoder.yields_true _

instance : WireForm WorkerEvent where
  Sound := WorkerEvent.Sound
  Readable := WorkerEvent.Readable
  finds _ := WorkerEvent.finds
  yields := WorkerEvent.yields

end PolicyProbe
