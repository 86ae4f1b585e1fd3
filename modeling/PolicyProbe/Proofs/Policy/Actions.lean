import PolicyProbe.Proofs.Json.Places
import PolicyProbe.Proofs.Wire

/-!
What an action may be written as. `Action.Means` says which JSON values stand for an action, and for
which, without a look at the decoder; the decoder answers with that action, and calls every other
word by its name in lower case (`Action.Governs`). That holds of an action by itself, and of the
action of a rule, of a destination, of a client entry and of each destination of a client to run,
whatever else is in the text (`WireType.actions_governed`).
-/
namespace PolicyProbe

open Layout Decoder

/-! ## The values that stand for an action -/

/-- A number that is written with neither a point nor an exponent, and its value. -/
def Numeral.IsInteger (n : Numeral) (v : Int) : Prop :=
  n.fraction = none ∧ n.exponent = none ∧
    v = if n.negative = true then -(Digits.toNat 10 n.whole : Int) else Digits.toNat 10 n.whole

/-- Whole numbers of 64 bits are those of either sign that fit, apart from a zero with a minus. -/
theorem Numeral.int?_eq_some_iff {n : Numeral} {v : Int} : n.int? = some v ↔
    n.IsInteger v ∧ ¬(n.negative = true ∧ v = 0) ∧ -2 ^ 63 ≤ v ∧ v < 2 ^ 64 := by
  obtain ⟨negative, whole, fraction, exponent⟩ := n
  have hlow : Nat.pow 2 63 = 9223372036854775808 := rfl
  have hhigh : wordBound = 18446744073709551616 := rfl
  cases fraction with
  | some ds => simp [int?, IsInteger]
  | none =>
    cases exponent with
    | some e => simp [int?, IsInteger]
    | none =>
      simp only [int?, IsInteger, hlow, hhigh]
      cases negative with
      | false => simp; omega
      | true => simp; omega

namespace Action

/-- The words that stand for an action. -/
def words : List (String × Action) :=
  [("allow", .allow), ("accept", .allow), ("reject", .reject), ("drop", .reject),
    ("deny", .reject)]

/-- Two texts are the same up to the case of ASCII letters. -/
def SameUpToCase (s w : String) : Prop := s.map Char.toLower = w.map Char.toLower

/-- The values that stand for an action: truth values, whole numbers of 64 bits with a sign except
for a zero with a minus, and five words in any case. -/
inductive Means : Reading → Action → Prop where
  | flag (b : Bool) : Means (.bool b) (if b = true then .allow else .reject)
  | number {n : Numeral} {v : Int} (hn : n.IsInteger v) (hminus : ¬(n.negative = true ∧ v = 0))
      (hlow : -2 ^ 63 ≤ v) (hhigh : v < 2 ^ 63) :
      Means (.number n) (if v = 0 then .reject else .allow)
  | word {s w : String} {a : Action} (hw : (w, a) ∈ words) (hs : SameUpToCase s w) :
      Means (.string (some s)) a

/-- The words are in lower case. -/
theorem means_string_iff {s : String} {a : Action} :
    Means (.string (some s)) a ↔ (s.map Char.toLower, a) ∈ words := by
  have hlower : ∀ p ∈ words, p.1.map Char.toLower = p.1 := by decide +kernel
  constructor
  · rintro (_ | _ | ⟨hw, hs⟩)
    rw [hs, hlower _ hw]
    exact hw
  · intro h
    exact .word h (hlower _ h).symm

theorem ofName_eq_ok_iff {s : String} {a : Action} :
    ofName s = .ok a ↔ (s.map Char.toLower, a) ∈ words := by
  unfold ofName
  split
  case h_6 h1 h2 h3 h4 h5 =>
    refine iff_of_false (by simp) fun h => ?_
    simp only [words, List.mem_cons, Prod.mk.injEq, List.not_mem_nil, or_false] at h
    rcases h with ⟨h, -⟩ | ⟨h, -⟩ | ⟨h, -⟩ | ⟨h, -⟩ | ⟨h, -⟩
    exacts [h1 h, h2 h, h3 h, h4 h, h5 h]
  all_goals
    rename_i h
    rw [h]
    simp [words, eq_comm]

theorem ofName_of_unknown {s : String} (h : ∀ a, (s.map Char.toLower, a) ∉ words) :
    ofName s = .error (.unknownAction (s.map Char.toLower)) := by
  cases ho : ofName s with
  | ok a => exact absurd (ofName_eq_ok_iff.mp ho) (h a)
  | error e =>
    unfold ofName at ho
    split at ho
    case h_6 => exact ho.symm
    all_goals cases ho

/-! ## The decoder -/

theorem decoder_manner (manner : Manner) (r : Reading) :
    decoder manner r = decoder .direct r := by
  cases r with
  | string s => cases s <;> rfl
  | _ => rfl

theorem decoder_number {manner : Manner} {n : Numeral} {a : Action} :
    decoder manner (.number n) = .ok a ↔ Means (.number n) a := by
  have hbound : ((Nat.pow 2 63 : Nat) : Int) = 2 ^ 63 := rfl
  constructor
  · intro h
    rw [decoder] at h
    split at h
    · rename_i v hv
      obtain ⟨hn, hminus, hlow, -⟩ := Numeral.int?_eq_some_iff.mp hv
      split at h
      · rename_i hhigh
        rw [← Except.ok.inj h, ofBool]
        rw [hbound] at hhigh
        simpa [ite_not] using Means.number hn hminus hlow hhigh
      · cases h
    · cases h
  · rintro (_ | ⟨hn, hminus, hlow, hhigh⟩ | _)
    rename_i v
    have hv : n.int? = some v :=
      Numeral.int?_eq_some_iff.mpr ⟨hn, hminus, hlow, by omega⟩
    rw [decoder, hv]
    dsimp only
    rw [if_pos (by rw [hbound]; exact hhigh), ofBool]
    simp [ite_not]

/-- The decoder answers with the action that a value stands for. -/
theorem decoder_eq_ok_iff {manner : Manner} {r : Reading} {a : Action} :
    decoder manner r = .ok a ↔ Means r a := by
  cases r with
  | bool b =>
    constructor
    · intro h
      rw [← Except.ok.inj h]
      exact .flag b
    · rintro ⟨⟩
      rfl
  | number n => exact decoder_number
  | string s =>
    cases s with
    | none => constructor <;> rintro ⟨⟩
    | some s => exact ofName_eq_ok_iff.trans means_string_iff.symm
  | fault | null | moment | array | object => constructor <;> rintro ⟨⟩

/-- What is not malformed can be kept whole. -/
theorem sound_of_decoder {manner : Manner} {r : Reading} (h : decoder manner r ≠ .error .malformed)
    (depth : Nat) : r.sound depth = true := by
  cases r with
  | bool b => rfl
  | number n =>
    cases hv : n.int? with
    | some v =>
      rw [Reading.sound, Numeral.inRange, hv]
      rfl
    | none =>
      rw [decoder, hv] at h
      exact absurd rfl h
  | string s =>
    cases s with
    | none => exact absurd rfl h
    | some s => rfl
  | fault | null | moment | array | object => exact absurd rfl h

/-- A text is read as a value says: with an action for it if the value stands for one, and with the
name of the unknown action if it is another word. -/
structure Governs {α : Type} (r : Reading) (place : Action → α) (answer : Except DecodeError α) :
    Prop where
  accepted : ∀ v, answer = .ok v ↔ ∃ a, Means r a ∧ place a = v
  named : ∀ s, r = .string (some s) → (∀ a, ¬Means r a) →
    ∃ e, answer = .error e ∧ e.detail? = some ("unknown action " ++ s.map Char.toLower)

theorem governs_map {α : Type} (r : Reading) (place : Action → α) :
    Governs r place (place <$> decoder .direct r) where
  accepted v := by
    constructor
    · intro h
      obtain ⟨a, ha, h⟩ := Except.bind_eq_ok h
      exact ⟨a, decoder_eq_ok_iff.mp ha, Except.ok.inj h⟩
    · rintro ⟨a, ha, rfl⟩
      rw [decoder_eq_ok_iff.mpr ha]
      rfl
  named s hs hunknown := by
    subst hs
    have hname := ofName_of_unknown fun a ha => hunknown a (means_string_iff.mpr ha)
    exact ⟨_, congrArg (place <$> ·) hname, rfl⟩

theorem shows_action : Action.decoder.Shows (decoder .direct) .whole :=
  shows_whole decoder_manner

end Action

/-! ## The places of actions -/

namespace Rule

/-- Another action for a rule. -/
def setAction (a : Action) (r : Rule) : Rule := { r with action := a }

/-- The place of the action of a rule. -/
def actionPlace : Focus Rule Action := .field "action" action setAction .whole

theorem shows_action : Rule.decoder.Shows (Action.decoder .direct) actionPlace := by
  have hends : Layout.Unaware _ "action" :=
    ((unaware_required "src" (by decide) Address.decoder).map Rule.mk).andThen
      (unaware_required "dst" (by decide) Address.decoder)
  have hport := (hends.andThen (unaware_required "protocol" (by decide) Protocol.decoder)).andThen
    (unaware_required "port" (by decide) Port.decoder)
  have hbefore := hport.andThen (unaware_required "connected" (by decide) Decoder.bool)
  have hlayout : layout.Sees "action" Action.decoder (Sets action setAction) := by
    refine (sees_required (P := fun g => ∀ state, Sets action setAction (g · state)) hbefore
      (fun manner value? => ?_) Action.decoder).andThen
      (unaware_withDefault "state" (by decide) RuleState.decoder .active) fun _ state h => h state
    simp only [built_andThen, built_map]
    intro _ _ _ _ _ _ _ _ _ _ _ _
    exact ⟨rfl, fun _ => rfl⟩
  exact hlayout.shows (by decide) rfl (fun _ _ => rfl) Action.shows_action

end Rule

/-- The fields of a destination and of a client entry: they differ in the name of the address. -/
def Layout.ping {α : Type} (name : String) (make : Protocol → Nat → Address → Bool → Action → α) :
    Layout α :=
  make <$> required "protocol" Protocol.decoder <*> required "port" Port.decoder
    <*> required name Address.decoder <*> required "connected" Decoder.bool
    <*> required "action" Action.decoder

theorem Layout.shows_action {α : Type} {name : String}
    {make : Protocol → Nat → Address → Bool → Action → α} {get : α → Action}
    {set : Action → α → α} (hsets : ∀ p n a b, Sets get set (make p n a b)) {f : Field}
    (hname : name ≠ "action") (hn : ((ping name make).fields.map (·.name)).Nodup)
    (hf : (ping name make).fields.find? (·.name == "action") = some f)
    (hcheck : ∀ manner r, f.check manner r = (do let _ ← Action.decoder manner r; return ())) :
    (ping name make).decode.Shows (Action.decoder .direct) (.field "action" get set .whole) := by
  have hport : Layout.Unaware _ "action" :=
    ((unaware_required "protocol" (by decide) Protocol.decoder).map make).andThen
      (unaware_required "port" (by decide) Port.decoder)
  have hbefore := (hport.andThen (unaware_required name hname Address.decoder)).andThen
    (unaware_required "connected" (by decide) Decoder.bool)
  have hlayout : (ping name make).Sees "action" Action.decoder (Sets get set) := by
    refine sees_required hbefore (fun manner value? => ?_) Action.decoder
    simp only [built_andThen, built_map]
    intro protocol _ port _ address _ connected _
    exact hsets protocol port address connected
  exact hlayout.shows hn hf hcheck Action.shows_action

namespace Destination

/-- Another action for a destination. -/
def setAction (a : Action) (d : Destination) : Destination := { d with action := a }

/-- The place of the action of a destination. -/
def actionPlace : Focus Destination Action := .field "action" action setAction .whole

theorem shows_action : Destination.decoder.Shows (Action.decoder .direct) actionPlace :=
  Layout.shows_action (fun _ _ _ _ _ => ⟨rfl, fun _ => rfl⟩) (by decide) (by decide) rfl
    fun _ _ => rfl

end Destination

namespace ClientEntry

/-- Another action for a client entry. -/
def setAction (a : Action) (c : ClientEntry) : ClientEntry := { c with action := a }

/-- The place of the action of a client entry. -/
def actionPlace : Focus ClientEntry Action := .field "action" action setAction .whole

theorem shows_action : ClientEntry.decoder.Shows (Action.decoder .direct) actionPlace :=
  Layout.shows_action (fun _ _ _ _ _ => ⟨rfl, fun _ => rfl⟩) (by decide) (by decide) rfl
    fun _ _ => rfl

end ClientEntry

namespace ClientSpec

/-- Other destinations for a client. -/
def setDestinations (ds : List Destination) (c : ClientSpec) : ClientSpec :=
  { c with destinations := ds }

/-- The place of the action of one destination of a client. -/
def actionPlace (i : Nat) : Focus ClientSpec Action :=
  .field "destinations" destinations setDestinations (.item i Destination.actionPlace)

theorem shows_action (i : Nat) :
    ClientSpec.decoder.Shows (Action.decoder .direct) (actionPlace i) := by
  have hbefore : Layout.Unaware _ "destinations" :=
    (unaware_required "source" (by decide) Address.decoder).map ClientSpec.mk
  have hlayout : layout.Sees "destinations" (Decoder.list Destination.decoder)
      (Sets destinations setDestinations) := by
    refine (sees_required (P := fun g => ∀ s, Sets destinations setDestinations (g · s)) hbefore
      (fun manner value? => ?_) (Decoder.list Destination.decoder)).andThen
      (unaware_required "settings" (by decide) TrafficSettings.decoder) fun _ s h => h s
    simp only [built_map]
    intro _ _ _ _
    exact ⟨rfl, fun _ => rfl⟩
  exact hlayout.shows (by decide) rfl (fun _ _ => rfl) (Destination.shows_action.list i)

end ClientSpec

namespace Runnable

/-- The client to run, if it is one. -/
def client? : Runnable → Option ClientSpec
  | .client c => some c
  | .server _ => none

/-- The place of the action of one destination of a client to run. -/
def actionPlace (i : Nat) : Focus Runnable Action :=
  .variant client client? (ClientSpec.actionPlace i)

theorem shows_action (i : Nat) :
    Runnable.decoder.Shows (Action.decoder .direct) (actionPlace i) := by
  refine Variants.shows rfl (by decide) (fun _ => Action.sound_of_decoder) ?_
  rw [List.forall_mem_cons, List.forall_mem_singleton]
  exact ⟨shows_other fun _ => rfl, (ClientSpec.shows_action i).map fun _ => rfl⟩

end Runnable

namespace WireType

/-- The types with an action in them, and its places. -/
inductive HasAction : (w : WireType) → Focus w.Value Action → Prop where
  | rule : HasAction .rule Rule.actionPlace
  | destination : HasAction .destination Destination.actionPlace
  | clientEntry : HasAction .clientEntry ClientEntry.actionPlace
  | clientSpec (i : Nat) : HasAction .clientSpec (ClientSpec.actionPlace i)
  | runnable (i : Nat) : HasAction .runnable (Runnable.actionPlace i)

theorem HasAction.shows {w : WireType} {p : Focus w.Value Action} (h : w.HasAction p) :
    (JsonForm.decoder : Decoder w.Value).Shows (Action.decoder .direct) p := by
  cases h with
  | rule => exact Rule.shows_action
  | destination => exact Destination.shows_action
  | clientEntry => exact ClientEntry.shows_action
  | clientSpec i => exact ClientSpec.shows_action i
  | runnable i => exact Runnable.shows_action i

/-- An action is what its text stands for: by itself, and as a part of any text that is read with
another action in its place. -/
theorem actions_governed :
    (∀ d : Document, Action.Governs d.reading id (JsonForm.ofText d.text)) ∧
      ∀ (w : WireType) (p : Focus w.Value Action), w.HasAction p →
        ∀ (d₀ d whole₀ whole : Document) (v₀ : w.Value), d₀.Swaps d p.path whole₀ whole →
          JsonForm.ofText whole₀.text = .ok v₀ → (p.get? v₀).isSome = true →
            Action.Governs d.reading (p.put · v₀) (JsonForm.ofText whole.text) := by
  constructor
  · intro d
    have hread := Action.governs_map d.reading id
    rw [id_map] at hread
    rw [JsonForm.ofText_document]
    exact hread
  · intro w p hp d₀ d whole₀ whole v₀ hswap hread hsome
    rw [JsonForm.ofText_document] at hread ⊢
    rw [hp.shows hswap.reading hread hsome]
    exact Action.governs_map d.reading (p.put · v₀)

/-- A name as it is, between its marks. -/
def bareName (name : String)
    (h : (Quoted.scan (name.toList ++ ['"'])).map Prod.snd = some []) : MemberName :=
  ⟨.none, name.toList ++ ['"'], .none, h⟩

/-- A text without parts as it is. -/
def bareToken (text : String) (h : (Reading.value 1 text.toList).2 = some []) : Document :=
  .token ⟨text.toList, h⟩

/-- A destination to ping, in front of its action. -/
def pingMembers : List (MemberName × Document) :=
  [(bareName "protocol" (by decide +kernel), bareToken "\"UDP\"" (by decide +kernel)),
    (bareName "port" (by decide +kernel), bareToken "53" (by decide +kernel)),
    (bareName "address" (by decide +kernel), bareToken "\"127.0.0.1\"" (by decide +kernel)),
    (bareName "connected" (by decide +kernel), bareToken "true" (by decide +kernel))]

/-- A client to run with one destination, with a text for its action. -/
def pingText (action : Document) : Document :=
  .object [(bareName "type" (by decide +kernel), bareToken "\"client\"" (by decide +kernel)),
    (bareName "source" (by decide +kernel), bareToken "\"127.0.0.1\"" (by decide +kernel)),
    (bareName "destinations" (by decide +kernel),
      .array [.object (pingMembers ++ [(bareName "action" (by decide +kernel), action)]) .none]
        .none),
    (bareName "settings" (by decide +kernel), .array [] .none)] .none

/-- The client with one destination. -/
def pingClient (action : Action) : Runnable :=
  .client ⟨.loopback, [⟨.udp, 53, .loopback, true, action⟩], .default⟩

/-- The texts of two actions. -/
def oneText : Document := bareToken "1" (by decide +kernel)

def dropText : Document := bareToken "\"dRoP\"" (by decide +kernel)

theorem swaps_pingText (d d' : Document) :
    d.Swaps d' (Runnable.actionPlace 0).path (pingText d) (pingText d') := by
  have hdestination : d.Swaps d' [.member "action"]
      (.object (pingMembers ++ [(bareName "action" (by decide +kernel), d)]) .none)
      (.object (pingMembers ++ [(bareName "action" (by decide +kernel), d')]) .none) :=
    .member (by decide +kernel) .here
  have hitem := @Document.Swaps.item d d' [] [] _ _ _ .none hdestination
  exact @Document.Swaps.member d d' [_, _] [_] _ "destinations" _ _ _ _ (by decide +kernel) hitem

theorem means_dropText : Action.Means dropText.reading .reject := by
  have hdrop : dropText.reading = .string (some "dRoP") := by cbv
  have hcase : Action.SameUpToCase "dRoP" "drop" := by
    refine String.toList_inj.mp ?_
    rw [String.toList_map, String.toList_map]
    decide
  rw [hdrop]
  exact .word (w := "drop") (by simp [Action.words]) hcase

theorem actions_governed_drop :
    JsonForm.ofText (pingText oneText).text = .ok (pingClient .allow) ∧
      JsonForm.ofText (pingText dropText).text = .ok (pingClient .reject) := by
  have hallow : JsonForm.ofText (pingText oneText).text = .ok (pingClient .allow) :=
    Except.eq_ok_of_toOption (by decide +kernel)
  have hgoverns := actions_governed.2 .runnable _ (.runnable 0) _ _ _ _ _
    (swaps_pingText oneText dropText) hallow rfl
  exact ⟨hallow, (hgoverns.accepted _).mpr ⟨.reject, means_dropText, rfl⟩⟩

end WireType

end PolicyProbe
