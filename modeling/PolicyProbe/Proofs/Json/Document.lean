import PolicyProbe.Proofs.Json.Prefix

/-!
JSON texts with all that is in them: blanks at every place where they may stand, every way to write
a value without parts, and names as they are spelled. A document is read as its tree, whatever its
blanks and spellings are (`Document.ofText_text`), and there is no other text that is read to its
end: each is the text of a document (`Document.exists_of_ofText`). So what is said of all documents
is said of all JSON texts, and a change of a text, such as another order of the members of an
object, is a change of a document.
-/
namespace PolicyProbe

open Numeral (Follows)

/-! ## The parts of a text -/

/-- Some blanks. -/
structure Blanks where
  chars : List Char
  blank : ∀ c ∈ chars, Reading.isBlank c = true

/-- A value without parts, as it is written. -/
structure Token where
  chars : List Char
  complete : (Reading.value 1 chars).2 = some []

/-- The name of a member, as it is written: what stands behind its opening mark, up to its closing
mark, between blanks. -/
structure MemberName where
  before : Blanks
  quoted : List Char
  after : Blanks
  complete : (Quoted.scan quoted).map Prod.snd = some []

/-- A JSON text: a value with or without parts, or a text with blanks around it. The gap of a
container is in front of its end. -/
inductive Document where
  | token (t : Token)
  | array (items : List Document) (gap : Blanks)
  | object (members : List (MemberName × Document)) (gap : Blanks)
  | spaced (before : Blanks) (inner : Document) (after : Blanks)

/-- What a token is read as. -/
def Token.reading (t : Token) : Reading := (Reading.value 1 t.chars).1

namespace MemberName

/-- What a name is read as. -/
def reading (name : MemberName) : Option String :=
  ((Quoted.scan name.quoted).bind fun p => Quoted.meaning p.1).map String.ofList

/-- A name with its colon, in front of `tail`. -/
def write (name : MemberName) (tail : List Char) : List Char :=
  name.before.chars ++ '"' :: (name.quoted ++ (name.after.chars ++ ':' :: tail))

end MemberName

namespace Document

mutual

/-- A text in front of `tail`. -/
def write (tail : List Char) : Document → List Char
  | .token t => t.chars ++ tail
  | .array [] gap => '[' :: (gap.chars ++ ']' :: tail)
  | .array (item :: items) gap => '[' :: write (writeItems (gap.chars ++ ']' :: tail) items) item
  | .object [] gap => '{' :: (gap.chars ++ '}' :: tail)
  | .object ((name, inner) :: members) gap =>
    '{' :: name.write (write (writeMembers (gap.chars ++ '}' :: tail) members) inner)
  | .spaced before inner after => before.chars ++ write (after.chars ++ tail) inner

/-- The items after the first, each behind its comma. -/
def writeItems (tail : List Char) : List Document → List Char
  | [] => tail
  | item :: items => ',' :: write (writeItems tail items) item

/-- The members after the first, each behind its comma. -/
def writeMembers (tail : List Char) : List (MemberName × Document) → List Char
  | [] => tail
  | (name, inner) :: members => ',' :: name.write (write (writeMembers tail members) inner)

end

mutual

/-- What a text is read as. -/
def reading : Document → Reading
  | .token t => t.reading
  | .array items _ => .array (itemReadings items) .closed
  | .object members _ => .object (memberReadings members) .closed
  | .spaced _ inner _ => inner.reading

/-- What some items are read as. -/
def itemReadings : List Document → List Reading
  | [] => []
  | item :: items => item.reading :: itemReadings items

/-- What some members are read as. -/
def memberReadings : List (MemberName × Document) → List (Option String × Reading)
  | [] => []
  | (name, inner) :: members => (name.reading, inner.reading) :: memberReadings members

end

/-- The text of a document. -/
def text (d : Document) : String := String.ofList (d.write [])

end Document

/-! ## Blanks and names -/

namespace Blanks

/-- No blanks. -/
def none : Blanks := ⟨[], nofun⟩

/-- Blanks behind blanks. -/
def append (a b : Blanks) : Blanks where
  chars := a.chars ++ b.chars
  blank c hc := (List.mem_append.mp hc).elim (a.blank c) (b.blank c)

/-- The blanks in front of a text. -/
def ofText (text : List Char) : Blanks :=
  ⟨text.takeWhile Reading.isBlank, fun _ hc => List.mem_takeWhile_imp hc⟩

theorem ofText_append (text : List Char) :
    (ofText text).chars ++ Reading.skipBlanks text = text := List.takeWhile_append_dropWhile

theorem skipBlanks_append (b : Blanks) (text : List Char) :
    Reading.skipBlanks (b.chars ++ text) = Reading.skipBlanks text :=
  List.dropWhile_append_of_pos b.blank

theorem value_append (b : Blanks) (fuel : Nat) (text : List Char) :
    Reading.value fuel (b.chars ++ text) = Reading.value fuel text := by
  rw [← Reading.value_skipBlanks, skipBlanks_append, Reading.value_skipBlanks]

theorem items_append (b : Blanks) (fuel : Nat) (first : Bool) (text : List Char) :
    Reading.items fuel first (b.chars ++ text) = Reading.items fuel first text := by
  rw [← Reading.items_skipBlanks, skipBlanks_append, Reading.items_skipBlanks]

theorem members_append (b : Blanks) (fuel : Nat) (first : Bool) (text : List Char) :
    Reading.members fuel first (b.chars ++ text) = Reading.members fuel first text := by
  rw [← Reading.members_skipBlanks, skipBlanks_append, Reading.members_skipBlanks]

/-- A blank does not go on with a number. -/
theorem follows_append (b : Blanks) {text : List Char} (h : Follows text) :
    Follows (b.chars ++ text) := by
  obtain ⟨chars, hblank⟩ := b
  cases chars with
  | nil => exact h
  | cons c chars =>
    refine Numeral.follows_cons ?_
    have hc := hblank c List.mem_cons_self
    simp only [Reading.isBlank, Bool.or_eq_true, beq_iff_eq] at hc
    rcases hc with ((rfl | rfl) | rfl) | rfl <;> decide

end Blanks

/-- A token is read as itself in front of any text that does not go on with it. -/
theorem Token.value_append (t : Token) (fuel : Nat) {tail : List Char} (h : Follows tail) :
    Reading.value (fuel + 1) (t.chars ++ tail) = (t.reading, some tail) := by
  have hvalue : Reading.value 1 t.chars = (t.reading, some []) := Prod.ext rfl t.complete
  have hplain : ¬Reading.IsContainer (Reading.skipBlanks t.chars) := by
    have hcomplete := t.complete
    rw [← Reading.value_skipBlanks] at hcomplete
    rintro ⟨rest, htext | htext⟩ <;> rw [htext] at hcomplete
    · rw [Reading.value_bracket] at hcomplete
      cases hcomplete
    · rw [Reading.value_brace] at hcomplete
      cases hcomplete
  obtain ⟨front, hfront, hagain⟩ := Reading.value_prefix hvalue hplain
  have hchars : t.chars ++ tail = (Blanks.ofText t.chars).chars ++ (front ++ tail) := by
    rw [List.append_nil] at hfront
    rw [← hfront, ← List.append_assoc, Blanks.ofText_append]
  rw [hchars, Blanks.value_append]
  exact hagain fuel tail h

/-- A token has a character. -/
theorem Token.length_pos (t : Token) : 0 < t.chars.length := by
  obtain ⟨chars, hcomplete⟩ := t
  cases chars with
  | nil => cases hcomplete
  | cons c chars => exact Nat.succ_pos _

/-- A name is found in front of its colon. -/
theorem MemberName.scan_append (name : MemberName) (tail : List Char) :
    ∃ pieces, Quoted.scan (name.quoted ++ tail) = some (pieces, tail) ∧
      (Quoted.meaning pieces).map String.ofList = name.reading := by
  obtain ⟨⟨pieces, rest⟩, hscan, hrest⟩ := Option.map_eq_some_iff.mp name.complete
  obtain rfl : rest = [] := hrest
  obtain ⟨front, hfront, hagain⟩ := Quoted.scan_prefix hscan
  refine ⟨pieces, ?_, ?_⟩
  · rw [hfront, List.append_nil, hagain]
  · rw [reading, hscan]
    rfl

namespace Reading

/-! ## Steps of reading -/

/-- A value that can be read does not begin as the end of an array. -/
theorem value_opens {fuel : Nat} {text rest : List Char} {r : Reading}
    (h : value fuel text = (r, some rest)) :
    ∃ c more, skipBlanks text = c :: more ∧ c ≠ ']' := by
  rw [← value_skipBlanks] at h
  cases htext : skipBlanks text with
  | nil =>
    rw [htext] at h
    cases fuel <;> cases h
  | cons c more =>
    refine ⟨c, more, rfl, ?_⟩
    rintro rfl
    rw [htext] at h
    cases fuel with
    | zero => cases h
    | succ fuel =>
      rw [value, Json.skipBlanks_cons (by decide)] at h
      cases h

/-- An item and the items after it, in front or behind a comma. -/
theorem items_step {fuel : Nat} {text rest tail : List Char} {r : Reading} {rs : List Reading}
    (hvalue : value fuel text = (r, some rest)) (hitems : items fuel false rest = (rs, some tail)) :
    items (fuel + 2) true text = (r :: rs, some tail) ∧
      items (fuel + 2) false (',' :: text) = (r :: rs, some tail) := by
  obtain ⟨c, more, htext, hc⟩ := value_opens hvalue
  have hone : oneItem (fuel + 1) (c :: more) = (r :: rs, some tail) := by
    rw [← value_skipBlanks, htext] at hvalue
    exact Json.oneItem_write hvalue hitems
  constructor
  · rw [items, htext]
    simp only [if_neg hc, if_true, hone]
  · rw [items, Json.skipBlanks_cons (by decide)]
    simp only [if_neg (by decide : ',' ≠ ']'), Bool.false_eq_true, if_false, if_true, htext]
    split
    · rename_i heq
      exact absurd (List.cons.inj heq).1 hc
    · exact hone

/-- A member and the members after it, in front or behind a comma. -/
theorem members_step {fuel : Nat} (name : MemberName) {text rest tail : List Char} {r : Reading}
    {ms : List (Option String × Reading)} (hvalue : value fuel text = (r, some rest))
    (hmembers : members fuel false rest = (ms, some tail)) :
    members (fuel + 2) true (name.write text) = ((name.reading, r) :: ms, some tail) ∧
      members (fuel + 2) false (',' :: name.write text) =
        ((name.reading, r) :: ms, some tail) := by
  let spelled := '"' :: (name.quoted ++ (name.after.chars ++ ':' :: text))
  have hskip : skipBlanks (name.write text) = spelled := by
    rw [MemberName.write, Blanks.skipBlanks_append, Json.skipBlanks_cons (by decide)]
  have hone : oneMember (fuel + 1) spelled = ((name.reading, r) :: ms, some tail) := by
    obtain ⟨pieces, hscan, hname⟩ := name.scan_append (name.after.chars ++ ':' :: text)
    rw [oneMember, hscan]
    simp only [Blanks.skipBlanks_append, Json.skipBlanks_cons (by decide : isBlank ':' = false),
      hvalue, hmembers, hname]
  constructor
  · rw [members, hskip]
    exact hone
  · rw [members, Json.skipBlanks_cons (by decide)]
    simp only [if_neg (by decide : ',' ≠ '\x7d'), Bool.false_eq_true, if_false, if_true, hskip,
      hone]

end Reading

/-! ## Reading a document -/

namespace Document

mutual

theorem length_write (tail : List Char) :
    ∀ d : Document, tail.length < (write tail d).length
  | .token t => by
    have := t.length_pos
    simp only [write, List.length_append]
    omega
  | .array [] gap => by
    simp only [write, List.length_cons, List.length_append]
    omega
  | .array (item :: items) gap => by
    have h1 := length_write (writeItems (gap.chars ++ ']' :: tail) items) item
    have h2 := length_writeItems (gap.chars ++ ']' :: tail) items
    simp only [write, List.length_cons, List.length_append] at h1 h2 ⊢
    omega
  | .object [] gap => by
    simp only [write, List.length_cons, List.length_append]
    omega
  | .object ((name, inner) :: members) gap => by
    have h1 := length_write (writeMembers (gap.chars ++ '\x7d' :: tail) members) inner
    have h2 := length_writeMembers (gap.chars ++ '\x7d' :: tail) members
    simp only [write, MemberName.write, List.length_cons, List.length_append] at h1 h2 ⊢
    omega
  | .spaced before inner after => by
    have h1 := length_write (after.chars ++ tail) inner
    simp only [write, List.length_append] at h1 ⊢
    omega

theorem length_writeItems (tail : List Char) :
    ∀ items : List Document, tail.length ≤ (writeItems tail items).length
  | [] => Nat.le_refl _
  | item :: items => by
    have h1 := length_write (writeItems tail items) item
    have h2 := length_writeItems tail items
    simp only [writeItems, List.length_cons]
    omega

theorem length_writeMembers (tail : List Char) :
    ∀ members : List (MemberName × Document), tail.length ≤ (writeMembers tail members).length
  | [] => Nat.le_refl _
  | (name, inner) :: members => by
    have h1 := length_write (writeMembers tail members) inner
    have h2 := length_writeMembers tail members
    simp only [writeMembers, MemberName.write, List.length_cons, List.length_append]
    omega

end

theorem follows_writeItems (gap : Blanks) (tail : List Char) (items : List Document) :
    Follows (writeItems (gap.chars ++ ']' :: tail) items) := by
  cases items with
  | nil => exact gap.follows_append (Numeral.follows_cons (by decide))
  | cons item items => exact Numeral.follows_cons (by decide)

theorem follows_writeMembers (gap : Blanks) (tail : List Char)
    (members : List (MemberName × Document)) :
    Follows (writeMembers (gap.chars ++ '\x7d' :: tail) members) := by
  cases members with
  | nil => exact gap.follows_append (Numeral.follows_cons (by decide))
  | cons m members => exact Numeral.follows_cons (by decide)

mutual

/-- A document is read as its tree, and what follows it is left, behind some blanks. Every character
pays for the three steps that reading takes at most for it. -/
theorem value_write : ∀ (d : Document) (fuel : Nat) (tail : List Char), Follows tail →
    3 * (write tail d).length ≤ fuel + 3 * tail.length →
      ∃ gap : Blanks, Reading.value fuel (write tail d) = (d.reading, some (gap.chars ++ tail))
  | d, 0, tail, _, hf => by
    have := length_write tail d
    omega
  | .token t, fuel + 1, tail, h, _ => ⟨.none, t.value_append fuel h⟩
  | .array [] gap, fuel + 1, tail, _, hf => by
    obtain ⟨fuel, rfl⟩ : ∃ n, fuel = n + 1 := by
      simp only [write, List.length_cons, List.length_append] at hf
      exact ⟨fuel - 1, by omega⟩
    refine ⟨.none, ?_⟩
    rw [write, Reading.value_bracket, gap.items_append]
    rfl
  | .array (item :: items) gap, fuel + 1, tail, _, hf => by
    have h1 := length_write (writeItems (gap.chars ++ ']' :: tail) items) item
    have h2 := length_writeItems (gap.chars ++ ']' :: tail) items
    simp only [write, List.length_cons, List.length_append] at hf h1 h2
    obtain ⟨fuel, rfl⟩ : ∃ n, fuel = n + 2 := ⟨fuel - 2, by omega⟩
    obtain ⟨between, hvalue⟩ :=
      value_write item fuel _ (follows_writeItems gap tail items) (by omega)
    -- The blanks that the first item leaves stand in front of the items after it.
    have hitems := items_write items fuel gap tail (by omega)
    rw [← between.items_append] at hitems
    refine ⟨.none, ?_⟩
    rw [write, Reading.value_bracket, (Reading.items_step hvalue hitems).1]
    rfl
  | .object [] gap, fuel + 1, tail, _, hf => by
    obtain ⟨fuel, rfl⟩ : ∃ n, fuel = n + 1 := by
      simp only [write, List.length_cons, List.length_append] at hf
      exact ⟨fuel - 1, by omega⟩
    refine ⟨.none, ?_⟩
    rw [write, Reading.value_brace, gap.members_append]
    rfl
  | .object ((name, inner) :: members) gap, fuel + 1, tail, _, hf => by
    have h1 := length_write (writeMembers (gap.chars ++ '\x7d' :: tail) members) inner
    have h2 := length_writeMembers (gap.chars ++ '\x7d' :: tail) members
    simp only [write, MemberName.write, List.length_cons, List.length_append] at hf h1 h2
    obtain ⟨fuel, rfl⟩ : ∃ n, fuel = n + 2 := ⟨fuel - 2, by omega⟩
    obtain ⟨between, hvalue⟩ :=
      value_write inner fuel _ (follows_writeMembers gap tail members) (by omega)
    have hmembers := members_write members fuel gap tail (by omega)
    rw [← between.members_append] at hmembers
    refine ⟨.none, ?_⟩
    rw [write, Reading.value_brace, (Reading.members_step name hvalue hmembers).1]
    rfl
  | .spaced before inner after, fuel + 1, tail, h, hf => by
    simp only [write, List.length_append] at hf
    have hlength : (after.chars ++ tail).length = after.chars.length + tail.length :=
      List.length_append
    obtain ⟨gap, hvalue⟩ :=
      value_write inner (fuel + 1) (after.chars ++ tail) (after.follows_append h) (by omega)
    refine ⟨gap.append after, ?_⟩
    rw [write, before.value_append, hvalue, Blanks.append, List.append_assoc]
    rfl

theorem items_write : ∀ (items : List Document) (fuel : Nat) (gap : Blanks) (tail : List Char),
    3 * (writeItems (gap.chars ++ ']' :: tail) items).length ≤ fuel + 3 * tail.length →
      Reading.items fuel false (writeItems (gap.chars ++ ']' :: tail) items) =
        (itemReadings items, some tail)
  | items, 0, gap, tail, hf => by
    have := length_writeItems (gap.chars ++ ']' :: tail) items
    simp only [List.length_cons, List.length_append] at this
    omega
  | [], fuel + 1, gap, tail, _ => by
    rw [writeItems, gap.items_append]
    rfl
  | item :: items, fuel + 1, gap, tail, hf => by
    have h1 := length_write (writeItems (gap.chars ++ ']' :: tail) items) item
    have h2 := length_writeItems (gap.chars ++ ']' :: tail) items
    simp only [writeItems, List.length_cons, List.length_append] at hf h1 h2
    obtain ⟨fuel, rfl⟩ : ∃ n, fuel = n + 1 := ⟨fuel - 1, by omega⟩
    obtain ⟨between, hvalue⟩ :=
      value_write item fuel _ (follows_writeItems gap tail items) (by omega)
    have hitems := items_write items fuel gap tail (by omega)
    rw [← between.items_append] at hitems
    exact (Reading.items_step hvalue hitems).2

theorem members_write : ∀ (members : List (MemberName × Document)) (fuel : Nat) (gap : Blanks)
    (tail : List Char),
    3 * (writeMembers (gap.chars ++ '\x7d' :: tail) members).length ≤ fuel + 3 * tail.length →
      Reading.members fuel false (writeMembers (gap.chars ++ '\x7d' :: tail) members) =
        (memberReadings members, some tail)
  | members, 0, gap, tail, hf => by
    have := length_writeMembers (gap.chars ++ '\x7d' :: tail) members
    simp only [List.length_cons, List.length_append] at this
    omega
  | [], fuel + 1, gap, tail, _ => by
    rw [writeMembers, gap.members_append]
    rfl
  | (name, inner) :: members, fuel + 1, gap, tail, hf => by
    have h1 := length_write (writeMembers (gap.chars ++ '\x7d' :: tail) members) inner
    have h2 := length_writeMembers (gap.chars ++ '\x7d' :: tail) members
    simp only [writeMembers, MemberName.write, List.length_cons, List.length_append] at hf h1 h2
    obtain ⟨fuel, rfl⟩ : ∃ n, fuel = n + 1 := ⟨fuel - 1, by omega⟩
    obtain ⟨between, hvalue⟩ :=
      value_write inner fuel _ (follows_writeMembers gap tail members) (by omega)
    have hmembers := members_write members fuel gap tail (by omega)
    rw [← between.members_append] at hmembers
    exact (Reading.members_step name hvalue hmembers).2

end

/-- The text of a document is read as its tree, to its end. -/
theorem ofText_text (d : Document) : Reading.ofText d.text.toList = (d.reading, true) := by
  obtain ⟨gap, hvalue⟩ := value_write d (3 * (d.write []).length + 3) [] Numeral.follows_nil
    (by omega)
  rw [text, String.toList_ofList, Reading.ofText, hvalue]
  dsimp only
  rw [gap.skipBlanks_append]
  rfl

/-! ## Every text that is read is that of a document -/

/-- A value without parts is cut out of its text as a token. -/
theorem exists_token {fuel : Nat} {text rest : List Char} {r : Reading}
    (h : Reading.value (fuel + 1) text = (r, some rest))
    (hplain : ¬Reading.IsContainer (Reading.skipBlanks text)) :
    ∃ t : Token, t.reading = r ∧ t.chars ++ rest = Reading.skipBlanks text := by
  obtain ⟨front, hfront, hagain⟩ := Reading.value_prefix h hplain
  have hvalue := hagain 0 [] Numeral.follows_nil
  rw [List.append_nil] at hvalue
  exact ⟨⟨front, congrArg Prod.snd hvalue⟩, congrArg Prod.fst hvalue, hfront.symm⟩

/-- The text of a document with the blanks of a text in front of it. -/
theorem write_spaced {text tail : List Char} {d : Document}
    (h : write tail d = Reading.skipBlanks text) :
    write tail (.spaced (.ofText text) d .none) = text := by
  rw [write, Blanks.none, List.nil_append, h, Blanks.ofText_append]

mutual

theorem exists_of_value : ∀ (fuel : Nat) {text rest : List Char} {r : Reading},
    Reading.value fuel text = (r, some rest) →
      ∃ d : Document, d.reading = r ∧ write rest d = text
  | 0, _, _, _, h => by cases h
  | fuel + 1, text, rest, r, h => by
    by_cases hcontainer : Reading.IsContainer (Reading.skipBlanks text)
    · -- The blanks that reading skips are put around what is found behind them.
      rw [← Reading.value_skipBlanks] at h
      obtain ⟨inner, htext | htext⟩ := hcontainer <;> rw [htext] at h
      · rw [Reading.value_bracket] at h
        obtain ⟨rfl, hrest⟩ := Prod.mk.inj h
        have hitems : Reading.items fuel true inner = (_, some rest) := Prod.ext rfl hrest
        obtain ⟨items, gap, hreadings, hwrite⟩ := exists_of_items fuel hitems
        refine ⟨.spaced (.ofText text) (.array items gap) .none, ?_,
          write_spaced (hwrite.trans htext.symm)⟩
        rw [reading, reading, hreadings, hrest]
        rfl
      · rw [Reading.value_brace] at h
        obtain ⟨rfl, hrest⟩ := Prod.mk.inj h
        have hmembers : Reading.members fuel true inner = (_, some rest) := Prod.ext rfl hrest
        obtain ⟨members, gap, hreadings, hwrite⟩ := exists_of_members fuel hmembers
        refine ⟨.spaced (.ofText text) (.object members gap) .none, ?_,
          write_spaced (hwrite.trans htext.symm)⟩
        rw [reading, reading, hreadings, hrest]
        rfl
    · obtain ⟨t, hreading, htext⟩ := exists_token h hcontainer
      exact ⟨.spaced (.ofText text) (.token t) .none, hreading, write_spaced htext⟩

theorem exists_of_items : ∀ (fuel : Nat) {text rest : List Char} {rs : List Reading},
    Reading.items fuel true text = (rs, some rest) →
      ∃ items gap, itemReadings items = rs ∧ write rest (.array items gap) = '[' :: text
  | 0, _, _, _, h => by cases h
  | fuel + 1, text, rest, rs, h => by
    rw [Reading.items] at h
    split at h
    · cases h
    · rename_i c inner htext
      split at h
      · rename_i hend
        obtain ⟨rfl, hrest⟩ := Prod.mk.inj h
        obtain rfl := Option.some.inj hrest
        refine ⟨[], .ofText text, rfl, ?_⟩
        rw [write, ← hend, ← htext, Blanks.ofText_append]
      · rw [if_pos rfl, ← htext] at h
        obtain ⟨item, items, gap, rfl, hwrite⟩ := exists_of_oneItem fuel h
        exact ⟨.spaced (.ofText text) item .none :: items, gap, rfl,
          congrArg ('[' :: ·) (write_spaced hwrite)⟩

theorem exists_of_laterItems : ∀ (fuel : Nat) {text rest : List Char} {rs : List Reading},
    Reading.items fuel false text = (rs, some rest) →
      ∃ (before : Blanks) (items : List Document) (gap : Blanks), itemReadings items = rs ∧
        before.chars ++ writeItems (gap.chars ++ ']' :: rest) items = text
  | 0, _, _, _, h => by cases h
  | fuel + 1, text, rest, rs, h => by
    rw [Reading.items] at h
    split at h
    · cases h
    · rename_i c inner htext
      split at h
      · rename_i hend
        obtain ⟨rfl, hrest⟩ := Prod.mk.inj h
        obtain rfl := Option.some.inj hrest
        refine ⟨.ofText text, [], .none, rfl, ?_⟩
        rw [writeItems, ← hend, Blanks.none, List.nil_append, ← htext, Blanks.ofText_append]
      · rw [if_neg Bool.false_ne_true] at h
        split at h
        · rename_i hcomma
          split at h
          · cases h
          · obtain ⟨item, items, gap, rfl, hwrite⟩ := exists_of_oneItem fuel h
            refine ⟨.ofText text, .spaced (.ofText inner) item .none :: items, gap, rfl, ?_⟩
            rw [writeItems, write_spaced hwrite, ← hcomma, ← htext, Blanks.ofText_append]
        · cases h

theorem exists_of_oneItem : ∀ (fuel : Nat) {text rest : List Char} {rs : List Reading},
    Reading.oneItem fuel text = (rs, some rest) →
      ∃ (item : Document) (items : List Document) (gap : Blanks),
        item.reading :: itemReadings items = rs ∧
          write (writeItems (gap.chars ++ ']' :: rest) items) item = text
  | 0, _, _, _, h => by cases h
  | fuel + 1, text, rest, rs, h => by
    rw [Reading.oneItem] at h
    split at h
    · cases h
    · rename_i r behind hvalue
      obtain ⟨rfl, hrest⟩ := Prod.mk.inj h
      obtain ⟨item, rfl, hwrite⟩ := exists_of_value fuel hvalue
      have hitems : Reading.items fuel false behind = (_, some rest) := Prod.ext rfl hrest
      obtain ⟨before, items, gap, hreadings, hbehind⟩ := exists_of_laterItems fuel hitems
      refine ⟨.spaced .none item before, items, gap, ?_, ?_⟩
      · rw [reading, hreadings]
      · rw [write, hbehind]
        exact hwrite

theorem exists_of_members : ∀ (fuel : Nat) {text rest : List Char}
    {ms : List (Option String × Reading)}, Reading.members fuel true text = (ms, some rest) →
      ∃ members gap, memberReadings members = ms ∧
        write rest (.object members gap) = '\x7b' :: text
  | 0, _, _, _, h => by cases h
  | fuel + 1, text, rest, ms, h => by
    rw [Reading.members] at h
    split at h
    · cases h
    · rename_i c inner htext
      split at h
      · rename_i hend
        obtain ⟨rfl, hrest⟩ := Prod.mk.inj h
        obtain rfl := Option.some.inj hrest
        refine ⟨[], .ofText text, rfl, ?_⟩
        rw [write, ← hend, ← htext, Blanks.ofText_append]
      · rw [if_pos rfl, ← htext] at h
        obtain ⟨name, d, members, gap, rfl, hwrite⟩ := exists_of_oneMember fuel (.ofText text) h
        rw [Blanks.ofText_append] at hwrite
        exact ⟨(name, d) :: members, gap, rfl, congrArg ('\x7b' :: ·) hwrite⟩

theorem exists_of_laterMembers : ∀ (fuel : Nat) {text rest : List Char}
    {ms : List (Option String × Reading)}, Reading.members fuel false text = (ms, some rest) →
      ∃ (before : Blanks) (members : List (MemberName × Document)) (gap : Blanks),
        memberReadings members = ms ∧
          before.chars ++ writeMembers (gap.chars ++ '\x7d' :: rest) members = text
  | 0, _, _, _, h => by cases h
  | fuel + 1, text, rest, ms, h => by
    rw [Reading.members] at h
    split at h
    · cases h
    · rename_i c inner htext
      split at h
      · rename_i hend
        obtain ⟨rfl, hrest⟩ := Prod.mk.inj h
        obtain rfl := Option.some.inj hrest
        refine ⟨.ofText text, [], .none, rfl, ?_⟩
        rw [writeMembers, ← hend, Blanks.none, List.nil_append, ← htext, Blanks.ofText_append]
      · rw [if_neg Bool.false_ne_true] at h
        split at h
        · rename_i hcomma
          obtain ⟨name, d, members, gap, rfl, hwrite⟩ := exists_of_oneMember fuel (.ofText inner) h
          rw [Blanks.ofText_append] at hwrite
          refine ⟨.ofText text, (name, d) :: members, gap, rfl, ?_⟩
          rw [writeMembers, hwrite, ← hcomma, ← htext, Blanks.ofText_append]
        · cases h

theorem exists_of_oneMember : ∀ (fuel : Nat) (before : Blanks) {text rest : List Char}
    {ms : List (Option String × Reading)}, Reading.oneMember fuel text = (ms, some rest) →
      ∃ (name : MemberName) (d : Document) (members : List (MemberName × Document)) (gap : Blanks),
        (name.reading, d.reading) :: memberReadings members = ms ∧
          name.write (write (writeMembers (gap.chars ++ '\x7d' :: rest) members) d) =
            before.chars ++ text
  | 0, _, _, _, _, h => by cases h
  | fuel + 1, before, text, rest, ms, h => by
    unfold Reading.oneMember at h
    split at h
    · rename_i quoted
      split at h
      · cases h
      · rename_i pieces unnamed hscan
        dsimp only at h
        split at h
        · rename_i inner hcolon
          split at h
          · cases h
          · rename_i r behind hvalue
            obtain ⟨rfl, hrest⟩ := Prod.mk.inj h
            obtain ⟨d, rfl, hwrite⟩ := exists_of_value fuel hvalue
            have hmembers : Reading.members fuel false behind = (_, some rest) :=
              Prod.ext rfl hrest
            obtain ⟨later, members, gap, hreadings, hbehind⟩ := exists_of_laterMembers fuel hmembers
            obtain ⟨front, rfl, hagain⟩ := Quoted.scan_prefix hscan
            have hfront := hagain []
            rw [List.append_nil] at hfront
            let name : MemberName :=
              ⟨before, front, .ofText unnamed, by rw [hfront]; rfl⟩
            have hname : name.reading = (Quoted.meaning pieces).map String.ofList := by
              rw [MemberName.reading, hfront]
              rfl
            refine ⟨name, .spaced .none d later, members, gap, ?_, ?_⟩
            · rw [reading, hreadings, hname]
            · rw [write, hbehind, Blanks.none, List.nil_append, hwrite, MemberName.write, ← hcolon,
                Blanks.ofText_append]
        · cases h
    · cases h

end

/-- Every text that is read to its end is the text of a document. -/
theorem exists_of_ofText {text : String} {r : Reading}
    (h : Reading.ofText text.toList = (r, true)) :
    ∃ d : Document, d.text = text ∧ d.reading = r := by
  rw [Reading.ofText] at h
  split at h
  · cases h
  · rename_i v rest hvalue
    obtain ⟨rfl, hclean⟩ := Prod.mk.inj h
    obtain ⟨d, hreading, hwrite⟩ := exists_of_value _ hvalue
    have hblank : Reading.skipBlanks rest = [] := List.isEmpty_iff.mp hclean
    have hrest := Blanks.ofText_append rest
    rw [hblank] at hrest
    refine ⟨.spaced .none d (.ofText rest), ?_, hreading⟩
    rw [Document.text, write, hrest, Blanks.none, List.nil_append, hwrite, String.ofList_toList]

end Document

end PolicyProbe
