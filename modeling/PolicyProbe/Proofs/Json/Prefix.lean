import Mathlib.Data.List.DropRight
import PolicyProbe.Proofs.Json.Written

/-!
What a reader takes off the front of a text. A number, a quoted text and a word are read from some
first characters and depend on nothing behind them, as long as a number is not gone on with
(`Numeral.read_prefix`, `Quoted.scan_prefix`). So a value that is no container can be cut out of its
text and put in front of another (`Reading.value_prefix`). Blanks in front of a value make no
difference.
-/
namespace PolicyProbe

open Digits

/-! ## Numbers -/

/-- Digits are found again in front of any text that does not go on with them. -/
theorem Digits.span_prefix {value? : Char → Option Nat} {text rest : List Char} {ds : List Nat}
    (h : span value? text = (ds, rest)) :
    ∃ front, text = front ++ rest ∧ (ds ≠ [] → front ≠ []) ∧
      ∀ tail, Stops value? tail → span value? (front ++ tail) = (ds, tail) := by
  induction text generalizing ds with
  | nil =>
    obtain ⟨rfl, rfl⟩ := Prod.mk.inj h
    exact ⟨[], rfl, fun hne => absurd rfl hne, fun tail htail => span_of_stops htail⟩
  | cons c text ih =>
    rw [span] at h
    cases hc : value? c with
    | none =>
      rw [hc] at h
      obtain ⟨rfl, rfl⟩ := Prod.mk.inj h
      exact ⟨[], rfl, fun hne => absurd rfl hne, fun tail htail => span_of_stops htail⟩
    | some d =>
      rw [hc] at h
      obtain ⟨rfl, rfl⟩ := Prod.mk.inj h
      obtain ⟨front, hfront, -, hspan⟩ := ih rfl
      refine ⟨c :: front, congrArg (c :: ·) hfront, fun _ => List.cons_ne_nil c front,
        fun tail htail => ?_⟩
      rw [List.cons_append, span, hc, hspan tail htail]

namespace Numeral

/-- What follows a whole part or a fraction goes on with neither. -/
def Parts (text : List Char) : Prop := ∀ c ∈ text.head?, decimalValue? c = none ∧ c ≠ '.'

theorem Parts.stops {text : List Char} (h : Parts text) : Stops decimalValue? text :=
  fun c hc => (h c hc).1

theorem Follows.parts {text : List Char} (h : Follows text) : Parts text :=
  fun c hc => ⟨(h c hc).1, (h c hc).2.1⟩

/-- A sign is looked for at the first character only. -/
theorem readSign_prefix {text rest : List Char} {down : Bool} (h : readSign text = (down, rest))
    {front behind : List Char} (hrest : rest = front ++ behind) (hne : front ≠ []) :
    ∃ sign, text = sign ++ rest ∧
      ∀ tail, readSign (sign ++ (front ++ tail)) = (down, front ++ tail) := by
  subst hrest
  unfold readSign at h
  split at h
  · obtain ⟨rfl, rfl⟩ := Prod.mk.inj h
    exact ⟨['-'], rfl, fun _ => rfl⟩
  · obtain ⟨rfl, rfl⟩ := Prod.mk.inj h
    exact ⟨['+'], rfl, fun _ => rfl⟩
  · rename_i hminus hplus
    obtain ⟨rfl, rfl⟩ := Prod.mk.inj h
    obtain ⟨c, front, rfl⟩ := List.exists_cons_of_ne_nil hne
    refine ⟨[], rfl, fun tail => ?_⟩
    rw [List.nil_append, List.cons_append, readSign]
    · exact fun rest heq => hminus _ (congrArg (· :: (front ++ behind)) (List.cons.inj heq).1)
    · exact fun rest heq => hplus _ (congrArg (· :: (front ++ behind)) (List.cons.inj heq).1)

theorem readExponent_prefix {text rest : List Char} {e : Option (Bool × List Nat)}
    (h : readExponent text = some (e, rest)) :
    ∃ front, text = front ++ rest ∧ ∀ tail, Follows tail →
      readExponent (front ++ tail) = some (e, tail) ∧ Parts (front ++ tail) := by
  have hnone : ∀ tail, Follows tail → readExponent tail = some (none, tail) := by
    intro tail htail
    have hread := readExponent_chars (e := none) (by simp) htail
    rwa [exponentChars, List.nil_append] at hread
  cases text with
  | nil =>
    obtain ⟨rfl, rfl⟩ := Prod.mk.inj (Option.some.inj h)
    exact ⟨[], rfl, fun tail htail => ⟨hnone tail htail, htail.parts⟩⟩
  | cons c text =>
    rw [readExponent] at h
    by_cases hc : c = 'e' ∨ c = 'E'
    · rw [if_pos hc] at h
      rcases hsign : readSign text with ⟨down, digits⟩
      rcases hspan : span decimalValue? digits with ⟨ds, tail⟩
      rw [hsign] at h
      dsimp only at h
      rw [hspan] at h
      cases ds with
      | nil => cases h
      | cons d ds =>
        obtain ⟨rfl, rfl⟩ := Prod.mk.inj (Option.some.inj h)
        obtain ⟨front, hdigits, hne, hagain⟩ := span_prefix hspan
        obtain ⟨sign, htext, hsigned⟩ := readSign_prefix hsign hdigits (hne (List.cons_ne_nil d ds))
        refine ⟨c :: (sign ++ front), ?_, fun tail htail => ⟨?_, ?_⟩⟩
        · rw [htext, hdigits, List.cons_append, List.append_assoc]
        · rw [List.cons_append, List.append_assoc, readExponent, if_pos hc, hsigned]
          dsimp only
          rw [hagain tail htail.stops]
        · intro x hx
          obtain rfl : c = x := Option.some.inj hx
          rcases hc with rfl | rfl <;> decide
    · rw [if_neg hc] at h
      obtain ⟨rfl, rfl⟩ := Prod.mk.inj (Option.some.inj h)
      exact ⟨[], rfl, fun tail htail => ⟨hnone tail htail, htail.parts⟩⟩

theorem readFraction_prefix {text rest : List Char} {f : Option (List Nat)}
    (h : readFraction text = some (f, rest)) :
    ∃ front, text = front ++ rest ∧ ∀ tail, Parts tail →
      readFraction (front ++ tail) = some (f, tail) ∧ Stops decimalValue? (front ++ tail) := by
  unfold readFraction at h
  split at h
  · rename_i digits
    rcases hspan : span decimalValue? digits with ⟨ds, tail⟩
    rw [hspan] at h
    cases ds with
    | nil => cases h
    | cons d ds =>
      obtain ⟨rfl, rfl⟩ := Prod.mk.inj (Option.some.inj h)
      obtain ⟨front, rfl, -, hagain⟩ := span_prefix hspan
      refine ⟨'.' :: front, rfl, fun tail htail => ⟨?_, stops_cons (by decide)⟩⟩
      rw [List.cons_append, readFraction, hagain tail htail.stops]
  · obtain ⟨rfl, rfl⟩ := Prod.mk.inj (Option.some.inj h)
    refine ⟨[], rfl, fun tail htail => ⟨?_, htail.stops⟩⟩
    have hread := readFraction_chars (f := none) (by simp) htail.stops fun c hc => (htail c hc).2
    rwa [fractionChars, List.nil_append] at hread

theorem readWhole_prefix {text rest : List Char} {ds : List Nat}
    (h : readWhole text = some (ds, rest)) :
    ∃ front, text = front ++ rest ∧ front ≠ [] ∧ ∀ tail, Stops decimalValue? tail →
      readWhole (front ++ tail) = some (ds, tail) := by
  rw [readWhole] at h
  rcases hspan : span decimalValue? text with ⟨es, tail⟩
  rw [hspan] at h
  obtain ⟨front, hfront, hne, hagain⟩ := span_prefix hspan
  rcases es with _ | ⟨d, _ | ⟨e, es⟩⟩
  · cases h
  · obtain ⟨rfl, rfl⟩ := Prod.mk.inj (Option.some.inj h)
    refine ⟨front, hfront, hne (List.cons_ne_nil d []), fun tail' htail => ?_⟩
    rw [readWhole, hagain tail' htail]
  · dsimp only at h
    split at h
    · cases h
    · rename_i hd
      obtain ⟨rfl, rfl⟩ := Prod.mk.inj (Option.some.inj h)
      refine ⟨front, hfront, hne (List.cons_ne_nil d (e :: es)), fun tail' htail => ?_⟩
      rw [readWhole, hagain tail' htail]
      exact if_neg hd

/-- A number behind its sign. -/
def readUnsigned (negative : Bool) (text : List Char) : Option (Numeral × List Char) := do
  let (whole, text) ← readWhole text
  let (fraction, text) ← readFraction text
  let (exponent, text) ← readExponent text
  return (⟨negative, whole, fraction, exponent⟩, text)

theorem read_minus (text : List Char) : read ('-' :: text) = readUnsigned true text := rfl

theorem read_unsigned {c : Char} (h : c ≠ '-') (text : List Char) :
    read (c :: text) = readUnsigned false (c :: text) := by
  unfold read readUnsigned
  split
  rename_i negative rest heq
  split at heq
  · rename_i hminus
    exact absurd (List.cons.inj hminus).1 h
  · obtain ⟨rfl, rfl⟩ := Prod.mk.inj heq
    rfl

theorem opensNumber_of_read {c : Char} {text : List Char} {out : Numeral × List Char}
    (h : read (c :: text) = some out) : Json.OpensNumber c := by
  by_cases hc : c = '-'
  · exact .inl hc
  · rw [read_unsigned hc] at h
    obtain ⟨whole, hwhole, -⟩ := Option.bind_eq_some_iff.mp h
    cases hvalue : decimalValue? c with
    | some d => exact .inr (by rw [hvalue]; rfl)
    | none =>
      rw [readWhole, span, hvalue] at hwhole
      cases hwhole

theorem readUnsigned_prefix {negative : Bool} {text rest : List Char} {n : Numeral}
    (h : readUnsigned negative text = some (n, rest)) :
    ∃ front, text = front ++ rest ∧ front ≠ [] ∧ ∀ tail, Follows tail →
      readUnsigned negative (front ++ tail) = some (n, tail) := by
  obtain ⟨⟨ds, text₁⟩, hwhole, h⟩ := Option.bind_eq_some_iff.mp h
  obtain ⟨⟨f, text₂⟩, hfraction, h⟩ := Option.bind_eq_some_iff.mp h
  obtain ⟨⟨e, text₃⟩, hexponent, h⟩ := Option.bind_eq_some_iff.mp h
  obtain ⟨rfl, rfl⟩ := Prod.mk.inj (Option.some.inj h)
  obtain ⟨whole, rfl, hne, hagain₁⟩ := readWhole_prefix hwhole
  obtain ⟨fraction, rfl, hagain₂⟩ := readFraction_prefix hfraction
  obtain ⟨exponent, rfl, hagain₃⟩ := readExponent_prefix hexponent
  refine ⟨whole ++ (fraction ++ exponent), by simp, by simp [hne], fun tail htail => ?_⟩
  obtain ⟨hreadExponent, hparts⟩ := hagain₃ tail htail
  obtain ⟨hreadFraction, hstops⟩ := hagain₂ _ hparts
  rw [List.append_assoc, List.append_assoc, readUnsigned, hagain₁ _ hstops]
  simp only [Option.bind_eq_bind, Option.bind_some, hreadFraction, hreadExponent]
  rfl

/-- A number is read again in front of any text that does not go on with it. -/
theorem read_prefix {text rest : List Char} {n : Numeral} (h : read text = some (n, rest)) :
    ∃ front, text = front ++ rest ∧ front ≠ [] ∧ ∀ tail, Follows tail →
      read (front ++ tail) = some (n, tail) := by
  cases text with
  | nil => cases h
  | cons c text =>
    by_cases hc : c = '-'
    · subst hc
      rw [read_minus] at h
      obtain ⟨front, htext, -, hread⟩ := readUnsigned_prefix h
      exact ⟨'-' :: front, congrArg ('-' :: ·) htext, List.cons_ne_nil '-' front, fun tail htail =>
        (read_minus (front ++ tail)).trans (hread tail htail)⟩
    · rw [read_unsigned hc] at h
      obtain ⟨front, htext, hne, hread⟩ := readUnsigned_prefix h
      obtain ⟨d, front, rfl⟩ := List.exists_cons_of_ne_nil hne
      obtain ⟨rfl, -⟩ := List.cons.inj htext
      exact ⟨c :: front, htext, List.cons_ne_nil c front, fun tail htail =>
        (read_unsigned hc (front ++ tail)).trans (hread tail htail)⟩

end Numeral

/-! ## Quoted texts and words -/

namespace Quoted

/-- A text that is read again behind a piece is read again with that piece. -/
theorem prefix_of_step {lead text rest : List Char} {piece : Piece} {pieces : List Piece}
    (hstep : ∀ text, scan (lead ++ text) = (scan text).map fun (ps, tail) => (piece :: ps, tail))
    (ih : ∀ {pieces}, scan text = some (pieces, rest) →
      ∃ front, text = front ++ rest ∧ ∀ tail, scan (front ++ tail) = some (pieces, tail))
    (h : scan (lead ++ text) = some (pieces, rest)) :
    ∃ front, lead ++ text = front ++ rest ∧
      ∀ tail, scan (front ++ tail) = some (pieces, tail) := by
  rw [hstep] at h
  obtain ⟨⟨ps, tail⟩, hscan, heq⟩ := Option.map_eq_some_iff.mp h
  obtain ⟨rfl, rfl⟩ := Prod.mk.inj heq
  obtain ⟨front, rfl, hagain⟩ := ih hscan
  refine ⟨lead ++ front, (List.append_assoc _ _ _).symm, fun tail' => ?_⟩
  rw [List.append_assoc, hstep, hagain]
  rfl

/-- A quoted text ends at its closing mark, and what is behind makes no difference. -/
theorem scan_prefix {text rest : List Char} {pieces : List Piece}
    (h : scan text = some (pieces, rest)) :
    ∃ front, text = front ++ rest ∧ ∀ tail, scan (front ++ tail) = some (pieces, tail) := by
  induction text using scan.induct generalizing pieces with
  | case1 => cases h
  | case2 text =>
    obtain ⟨rfl, rfl⟩ := Prod.mk.inj (Option.some.inj h)
    exact ⟨['"'], rfl, fun _ => rfl⟩
  | case3 a b c d text hdigits =>
    rw [scan, hdigits] at h
    cases h
  | case4 a b c d text ds hdigits ih =>
    refine @prefix_of_step ['\\', 'u', a, b, c, d] _ _ (.unit (Digits.toNat 16 ds)) _ ?_ ih h
    intro text
    show scan ('\\' :: 'u' :: a :: b :: c :: d :: text) = _
    rw [scan, hdigits]
  | case5 e text hnot hescape =>
    rw [scan.eq_4 e text hnot, hescape] at h
    cases h
  | case6 e text hnot c hescape ih =>
    refine @prefix_of_step ['\\', e] _ _ (.char c) _ ?_ ih h
    -- A letter that stands for a character is none that is followed by digits.
    have hletter : e ≠ 'u' := by
      rintro rfl
      cases hescape
    intro text
    show scan ('\\' :: e :: text) = _
    rw [scan.eq_4 e text fun _ _ _ _ _ he => absurd he hletter, hescape]
  | case7 c text hmark hunit hescape hcontrol =>
    rw [scan.eq_5 c text hmark hunit hescape, if_pos hcontrol] at h
    cases h
  | case8 c text hmark hunit hescape hplain ih =>
    refine @prefix_of_step [c] _ _ (.char c) _ ?_ ih h
    have hback : c ≠ '\\' := fun hc => hplain (Or.inl hc)
    intro text
    show scan (c :: text) = _
    rw [scan.eq_5 c text hmark (fun _ _ _ _ _ hc => absurd hc hback)
      fun _ _ hc => absurd hc hback, if_neg hplain]

end Quoted

namespace Reading

theorem afterWord?_eq_some {word text rest : List Char} (h : afterWord? word text = some rest) :
    text = word ++ rest := by
  induction word generalizing text with
  | nil => exact Option.some.inj h
  | cons w word ih =>
    cases text with
    | nil => cases h
    | cons c text =>
      rw [afterWord?] at h
      split at h
      · rename_i hc
        rw [hc, ih h, List.cons_append]
      · cases h

theorem word_prefix {expected : String} {r r' : Reading} {text rest : List Char}
    (h : word expected r text = (r', some rest)) :
    text = expected.toList ++ rest ∧ r' = r := by
  unfold word at h
  split at h
  · rename_i rest' hword
    obtain ⟨rfl, hrest⟩ := Prod.mk.inj h
    obtain rfl := Option.some.inj hrest
    exact ⟨afterWord?_eq_some hword, rfl⟩
  · cases h

/-! ## Blanks -/

theorem skipBlanks_idem (text : List Char) : skipBlanks (skipBlanks text) = skipBlanks text :=
  List.dropWhile_idempotent isBlank text

theorem value_skipBlanks (fuel : Nat) (text : List Char) :
    value fuel (skipBlanks text) = value fuel text := by
  cases fuel with
  | zero => rfl
  | succ fuel => rw [value, skipBlanks_idem, value]

theorem items_skipBlanks (fuel : Nat) (first : Bool) (text : List Char) :
    items fuel first (skipBlanks text) = items fuel first text := by
  cases fuel with
  | zero => rfl
  | succ fuel => rw [items, skipBlanks_idem, items]

theorem members_skipBlanks (fuel : Nat) (first : Bool) (text : List Char) :
    members fuel first (skipBlanks text) = members fuel first text := by
  cases fuel with
  | zero => rfl
  | succ fuel => rw [members, skipBlanks_idem, members]

/-! ## Values -/

theorem value_bracket (fuel : Nat) (text : List Char) : value (fuel + 1) ('[' :: text) =
    (.array (items fuel true text).1 (endingOf (items fuel true text).2),
      (items fuel true text).2) := by
  rw [value, Json.skipBlanks_cons (by decide)]
  rfl

theorem value_brace (fuel : Nat) (text : List Char) : value (fuel + 1) ('\x7b' :: text) =
    (.object (members fuel true text).1 (endingOf (members fuel true text).2),
      (members fuel true text).2) := by
  rw [value, Json.skipBlanks_cons (by decide)]
  rfl

/-- Whether a text begins with a container. -/
def IsContainer (text : List Char) : Prop := ∃ rest, text = '[' :: rest ∨ text = '\x7b' :: rest

/-- A value that is no container is read again in front of any text that does not go on with it. -/
theorem value_prefix {fuel : Nat} {text rest : List Char} {r : Reading}
    (h : value (fuel + 1) text = (r, some rest)) (hplain : ¬IsContainer (skipBlanks text)) :
    ∃ front, skipBlanks text = front ++ rest ∧ ∀ fuel tail, Numeral.Follows tail →
      value (fuel + 1) (front ++ tail) = (r, some tail) := by
  rw [value] at h
  split at h
  · cases h
  · rename_i quoted htext
    split at h
    · rename_i pieces rest' hscan
      obtain ⟨rfl, hrest⟩ := Prod.mk.inj h
      obtain rfl := Option.some.inj hrest
      obtain ⟨front, rfl, hagain⟩ := Quoted.scan_prefix hscan
      refine ⟨'"' :: front, htext, fun fuel tail _ => ?_⟩
      rw [List.cons_append, value, Json.skipBlanks_cons (by decide)]
      simp only [hagain]
    · cases h
  · rename_i htext
    exact absurd ⟨_, Or.inl htext⟩ hplain
  · rename_i htext
    exact absurd ⟨_, Or.inr htext⟩ hplain
  · rename_i htext
    obtain ⟨hword, rfl⟩ := word_prefix h
    exact ⟨_, htext.trans hword, fun fuel tail _ => Json.word_append "null" .null tail⟩
  · rename_i htext
    obtain ⟨hword, rfl⟩ := word_prefix h
    exact ⟨_, htext.trans hword, fun fuel tail _ => Json.word_append "true" (.bool true) tail⟩
  · rename_i htext
    obtain ⟨hword, rfl⟩ := word_prefix h
    exact ⟨_, htext.trans hword, fun fuel tail _ => Json.word_append "false" (.bool false) tail⟩
  · split at h
    · rename_i n rest' hread
      obtain ⟨rfl, hrest⟩ := Prod.mk.inj h
      obtain rfl := Option.some.inj hrest
      obtain ⟨front, htext, hne, hagain⟩ := Numeral.read_prefix hread
      obtain ⟨c, front, rfl⟩ := List.exists_cons_of_ne_nil hne
      rw [htext] at hread
      exact ⟨c :: front, htext, fun fuel tail htail =>
        Json.value_of_read (Numeral.opensNumber_of_read hread) (hagain tail htail)⟩
    · cases h

end Reading

end PolicyProbe
