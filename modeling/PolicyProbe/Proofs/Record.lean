import PolicyProbe.Proofs.Decimal.Printed
import PolicyProbe.Proofs.Identifier
import PolicyProbe.Proofs.Instant.Text
import PolicyProbe.Proofs.Policy.Forms
import PolicyProbe.Record.Filter

/-!
The JSON forms of records and of filters are read back. The latency of a record is printed with the
fewest digits that tell it from other numbers, and reading rounds more than once; a record whose
latency is found again in its text is `Readable`.
-/
namespace PolicyProbe

open Layout

/-- Whether a floating point number is found again in its text. -/
def Double.ReadsBack (x : Double) : Prop := Decoder.double.run (Json.float x).text = .ok x

instance (x : Double) : Decidable x.ReadsBack :=
  decidable_of_iff ((Decoder.double.run (Json.float x).text).toOption = some x)
    ⟨Except.eq_ok_of_toOption, fun h => congrArg Except.toOption h⟩

theorem Identifier.finds (id : Identifier) :
    (Decoder.textOf Identifier.ofText?).Finds (.string id.text) id :=
  Decoder.finds_textOf id.ofText?_text

theorem Instant.finds (t : Instant) :
    (Decoder.textOf Instant.ofText?).Finds (.string t.text) t :=
  Decoder.finds_textOf t.ofText?_text

namespace Record

/-- Whether the port of a record is one. -/
def Sound (r : Record) : Prop := r.port < portBound

instance (r : Record) : Decidable r.Sound := inferInstanceAs (Decidable (_ < _))

/-- Whether the latency of a record is found again in its text. -/
def Readable (r : Record) : Prop := r.latency.ReadsBack

/-- A record is read with whatever is found for its latency. -/
theorem reads {r : Record} (hport : r.Sound) {y : Double}
    (hlatency : Decoder.double.Finds (.float r.latency) y) :
    Record.layout.Reads r.members { r with latency := y } := by
  have hends := (((reads_required "id" r.id.finds).map Record.mk).andThen
    (reads_required "src" r.src.finds)).andThen (reads_required "dst" r.dst.finds)
  have hproto := (hends.andThen (reads_required "port" (Port.finds hport))).andThen
    (reads_required "protocol" r.protocol.finds)
  have herror : (Decoder.optional Decoder.string).Finds (.ofOption (r.error.map .string)) r.error :=
    Decoder.finds_optional (fun _ _ => nofun) fun e _ => Decoder.finds_string e
  have hping := (hproto.andThen
    (reads_required "latency_ms" hlatency)).andThen
    (reads_optional "error" herror)
  have hverdict := (hping.andThen (reads_required "success" (Decoder.finds_bool r.success))).andThen
    (reads_required "connected" (Decoder.finds_bool r.connected))
  exact hverdict.andThen (reads_required "created_time" r.created.finds)

theorem finds {r : Record} (hport : r.Sound) (hlatency : r.Readable) :
    Record.decoder.Finds r.toJson r :=
  (reads hport (Decoder.finds_double hlatency)).finds (by decide)

/-- The record that is read from the text of a record. -/
def reread (r : Record) : Record := { r with latency := r.latency.reread }

/-- A record is always found again, though its latency may be another. -/
theorem finds_reread {r : Record} (hport : r.Sound) : Record.decoder.Finds r.toJson r.reread :=
  (reads hport (Decoder.finds_reread r.latency)).finds (by decide)

theorem reread_of_readable {r : Record} (h : r.Readable) : r.reread = r := by
  have hrun := (Decoder.finds_reread r.latency).run
  have hlatency : r.latency.reread = r.latency := Except.ok.inj (hrun.symm.trans h)
  rw [reread, hlatency]

theorem yields : Record.decoder.Yields Sound := by
  refine Yields.decode fun manner value? => ?_
  simp only [layout, built_andThen, built_map]
  intro _ _ _ _ _ _ port hport _ _ _ _ _ _ _ _ _ _ _ _
  exact yields_required "port" Port.yields hport

end Record

namespace Filter

/-- Whether the port of a filter is one, if there is any. -/
def Sound (f : Filter) : Prop := ∀ port ∈ f.port, port < portBound

theorem finds {f : Filter} (h : f.Sound) : Filter.decoder.Finds f.toJson f := by
  have hend : ∀ o : Option Address,
      (Decoder.optional Address.decoder).Finds (.ofOption (o.map Address.toJson)) o :=
    fun o => Decoder.finds_optional (fun _ _ => nofun) fun a _ => a.finds
  have hport : (Decoder.optional Port.decoder).Finds (.ofOption (f.port.map .nat)) f.port :=
    Decoder.finds_optional (fun _ _ => nofun) fun p hp => Port.finds (h p hp)
  have hproto : (Decoder.optional Protocol.decoder).Finds
      (.ofOption (f.protocol.map Protocol.toJson)) f.protocol :=
    Decoder.finds_optional (fun _ _ => nofun) fun p _ => p.finds
  have hsuccess : (Decoder.optional Decoder.bool).Finds (.ofOption (f.success.map .bool))
      f.success :=
    Decoder.finds_optional (fun _ _ => nofun) fun b _ => Decoder.finds_bool b
  have htime : ∀ o : Option Instant, (Decoder.optional (Decoder.textOf Instant.ofText?)).Finds
      (.ofOption (o.map fun t => .string t.text)) o :=
    fun o => Decoder.finds_optional (fun _ _ => nofun) fun t _ => t.finds
  have hends := ((reads_optional "src" (hend f.src)).map Filter.mk).andThen
    (reads_optional "dst" (hend f.dst))
  have hsocket := (hends.andThen (reads_optional "port" hport)).andThen
    (reads_optional "protocol" hproto)
  have hsince := (hsocket.andThen (reads_optional "success" hsuccess)).andThen
    (reads_optional "since" (htime f.since))
  exact (hsince.andThen (reads_optional "until" (htime f.upTo))).finds (by decide)

theorem yields : Filter.decoder.Yields Sound := by
  refine Yields.decode fun manner value? => ?_
  simp only [layout, built_andThen, built_map]
  intro _ _ _ _ port hport _ _ _ _ _ _ _ _
  exact yields_optional "port" Port.yields hport

end Filter

instance : WireForm Record where
  Sound := Record.Sound
  Readable := Record.Readable
  finds _ := Record.finds
  yields := Record.yields

instance : WireForm Filter where
  Sound := Filter.Sound
  finds _ h _ := Filter.finds h
  yields := Filter.yields

end PolicyProbe
