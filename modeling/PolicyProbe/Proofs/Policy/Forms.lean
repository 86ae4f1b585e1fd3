import PolicyProbe.Desired.Entry
import PolicyProbe.Proofs.Address
import PolicyProbe.Proofs.Json.Decoding

/-!
The JSON forms of rules and of desired state are read back. Ports are the only part of them that can
fail: a form holds any natural number, a decoder answers only with one below `portBound`.
-/
namespace PolicyProbe

open Layout

theorem Protocol.finds (p : Protocol) : Protocol.decoder.Finds p.toJson p := by
  intro manner
  cases p <;> rfl

theorem Port.finds {port : Nat} (h : port < portBound) : Port.decoder.Finds (.nat port) port :=
  Decoder.finds_natBelow (by decide) h

theorem Address.finds (a : Address) : Address.decoder.Finds a.toJson a :=
  Decoder.finds_textOf a.ofText?_text

theorem Action.finds (a : Action) : Action.decoder.Finds a.toJson a := by
  intro manner
  have h1 : "allow".map Char.toLower = "allow" := by decide +kernel
  have h2 : "reject".map Char.toLower = "reject" := by decide +kernel
  cases a with
  | allow =>
    show Action.ofName "allow" = _
    simp only [Action.ofName, h1]
  | reject =>
    show Action.ofName "reject" = _
    simp only [Action.ofName, h2]

theorem ServerEntry.finds {s : ServerEntry} (h : s.port < portBound) :
    ServerEntry.decoder.Finds s.toJson s := by
  have hreads := ((reads_required "protocol" s.protocol.finds).map ServerEntry.mk).andThen
    (reads_required "port" (Port.finds h))
  exact hreads.finds (by decide)

theorem ClientEntry.finds {c : ClientEntry} (h : c.port < portBound) :
    ClientEntry.decoder.Finds c.toJson c := by
  have hreads := ((((reads_required "protocol" c.protocol.finds).map ClientEntry.mk).andThen
    (reads_required "port" (Port.finds h))).andThen
    (reads_required "destination" c.destination.finds)).andThen
    (reads_required "connected" (Decoder.finds_bool c.connected))
  exact (hreads.andThen (reads_required "action" c.action.finds)).finds (by decide)

theorem RuleState.finds (s : RuleState) : RuleState.decoder.Finds s.toJson s := by
  cases s <;> exact Decoder.finds_word (by decide)

/-- Whether the port of a rule is one. -/
def Rule.Sound (r : Rule) : Prop := r.port < portBound

theorem Rule.finds {r : Rule} (h : r.Sound) : Rule.decoder.Finds r.toJson r := by
  have hends := ((reads_required "src" r.src.finds).map Rule.mk).andThen
    (reads_required "dst" r.dst.finds)
  have hport := (hends.andThen (reads_required "protocol" r.protocol.finds)).andThen
    (reads_required "port" (Port.finds h))
  have haction := (hport.andThen
    (reads_required "connected" (Decoder.finds_bool r.connected))).andThen
    (reads_required "action" r.action.finds)
  exact (haction.andThen (reads_withDefault "state" .active r.state.finds)).finds (by decide)

/-- Whether the port of a destination is one. -/
def Destination.Sound (d : Destination) : Prop := d.port < portBound

theorem Destination.finds {d : Destination} (h : d.Sound) :
    Destination.decoder.Finds d.toJson d := by
  have hport := ((reads_required "protocol" d.protocol.finds).map Destination.mk).andThen
    (reads_required "port" (Port.finds h))
  have hconnected := (hport.andThen (reads_required "address" d.address.finds)).andThen
    (reads_required "connected" (Decoder.finds_bool d.connected))
  exact (hconnected.andThen (reads_required "action" d.action.finds)).finds (by decide)

/-! ## Ports of decoded entries -/

theorem Port.yields : Port.decoder.Yields (· < portBound) := Decoder.yields_natBelow portBound

theorem ServerEntry.yields : ServerEntry.decoder.Yields (·.port < portBound) := by
  refine Yields.decode fun manner value? => ?_
  simp only [layout, built_andThen, built_map]
  intro _ _ port hport
  exact yields_required "port" Port.yields hport

theorem ClientEntry.yields : ClientEntry.decoder.Yields (·.port < portBound) := by
  refine Yields.decode fun manner value? => ?_
  simp only [layout, built_andThen, built_map]
  intro _ _ port hport _ _ _ _ _ _
  exact yields_required "port" Port.yields hport

theorem Rule.yields : Rule.decoder.Yields Rule.Sound := by
  refine Yields.decode fun manner value? => ?_
  simp only [layout, built_andThen, built_map]
  intro _ _ _ _ _ _ port hport _ _ _ _ _ _
  exact yields_required "port" Port.yields hport

theorem Destination.yields : Destination.decoder.Yields Destination.Sound := by
  refine Yields.decode fun manner value? => ?_
  simp only [layout, built_andThen, built_map]
  intro _ _ port hport _ _ _ _ _ _
  exact yields_required "port" Port.yields hport

/-! ## Forms -/

instance : WireForm Action where
  finds a _ _ := Action.finds a
  yields := Decoder.yields_true _

instance : WireForm Protocol where
  finds a _ _ := Protocol.finds a
  yields := Decoder.yields_true _

instance : WireForm RuleState where
  finds a _ _ := RuleState.finds a
  yields := Decoder.yields_true _

instance : WireForm Rule where
  Sound := Rule.Sound
  finds _ h _ := Rule.finds h
  yields := Rule.yields

instance : WireForm Destination where
  Sound := Destination.Sound
  finds _ h _ := Destination.finds h
  yields := Destination.yields

instance : WireForm ServerEntry where
  Sound := fun s => s.port < portBound
  finds _ h _ := ServerEntry.finds h
  yields := ServerEntry.yields

instance : WireForm ClientEntry where
  Sound := fun c => c.port < portBound
  finds _ h _ := ClientEntry.finds h
  yields := ClientEntry.yields

end PolicyProbe
