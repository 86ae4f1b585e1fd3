import Mathlib.Data.List.DropRight
import PolicyProbe.Text.Lines

/-!
Texts and lines as bytes. Texts are ordered as their bytes (`bytes_lt`), and the bytes of a text are
read as that text. A text without control characters (`Plain`) is written as bytes of which none
ends a line, so the lines of what was written are the texts again, one by one
(`all_flatMap_ofText`), and what was not read yet goes on with the next of them (`cut?_ofText`). Any
bytes are some lines and what is behind the last line feed (`exists_ofLines`); when nothing is,
further bytes are read as if they stood alone (`all_append_of_ended`).
-/
namespace PolicyProbe.Lines

/-! ## The bytes of a text -/

theorem loop_eq (bs : ByteArray) (i : Nat) (r : List UInt8) :
    ByteArray.toList.loop bs i r = r.reverse ++ bs.data.toList.drop i := by
  rw [ByteArray.toList.loop]
  split
  · rename_i hi
    have hsize : i < bs.data.toList.length := by
      rw [Array.length_toList]
      exact hi
    rw [loop_eq bs (i + 1) (bs.get! i :: r), List.drop_eq_getElem_cons hsize]
    have hget : bs.get! i = bs.data.toList[i] := by
      show bs.data[i]! = _
      rw [getElem!_pos bs.data i hi, Array.getElem_toList]
    rw [hget]
    simp
  · rename_i hi
    have hsize : bs.data.toList.length ≤ i := by
      rw [Array.length_toList]
      exact Nat.le_of_not_lt hi
    rw [List.drop_eq_nil_of_le hsize, List.append_nil]
termination_by bs.size - i

/-- The bytes of a text are those of its characters. -/
theorem bytes_eq (s : String) :
    s.toUTF8.toList = s.toList.flatMap String.utf8EncodeChar := by
  have hbytes : s.toUTF8 = s.toList.utf8Encode := by
    rw [String.toUTF8_eq_toByteArray, String.utf8Encode_toList]
  have htoList : ∀ bs : ByteArray, bs.toList = bs.data.toList := fun bs => loop_eq bs 0 []
  rw [hbytes, htoList, List.utf8Encode.eq_1, List.toList_data_toByteArray]

/-- The bytes of a text are a text, and that text. -/
theorem text?_bytes (s : String) : text? s.toUTF8.toList = some s := by
  have harray : (⟨s.toUTF8.toList.toArray⟩ : ByteArray) = s.toByteArray := by
    have hdata : s.toUTF8.toList = s.toByteArray.data.toList := by
      rw [String.toUTF8_eq_toByteArray]
      exact loop_eq s.toByteArray 0 []
    rw [hdata, Array.toArray_toList]
  have hvalid : s.toByteArray.IsValidUTF8 := s.isValidUTF8
  rw [text?, harray, String.fromUTF8?, dif_pos hvalid]
  rfl

/-! ## The order of bytes -/

/-- The bytes of a character in front of others come before those of a later one: the first byte
tells how many follow it, and they are the digits of the character. -/
theorem utf8EncodeChar_append_lt {c d : Char} (h : c < d) (x y : List UInt8) :
    String.utf8EncodeChar c ++ x < String.utf8EncodeChar d ++ y := by
  have hlt : c.val.toNat < d.val.toNat := h
  have hbound : d.val.toNat < 0x110000 := by
    rcases d.valid with h | h <;> omega
  have hbyte : ∀ k < 256, (UInt8.ofNat k).toNat = k := by
    intro k hk
    rw [UInt8.toNat_ofNat', Nat.mod_eq_of_lt hk]
  have hdigits : ∀ k < 0x110000, k / 64 / 64 = k / 4096 ∧ k / 4096 / 64 = k / 262144 ∧
      k / 262144 / 8 = 0 := by
    intro k hk
    omega
  rw [String.utf8EncodeChar.eq_def, String.utf8EncodeChar.eq_def]
  generalize c.val.toNat = m at hlt
  generalize d.val.toNat = n at hlt hbound
  have hm := hdigits m (by omega)
  have hn := hdigits n hbound
  dsimp only
  -- One case for each pair of lengths.
  split_ifs <;>
    simp (disch := omega) only [List.cons_append, List.nil_append, List.cons_lt_cons_iff,
      UInt8.lt_iff_toNat_lt, ← UInt8.toNat_inj, hbyte] <;> omega

/-- Texts are ordered as their bytes. -/
theorem bytes_lt {s t : String} : s.toUTF8.toList < t.toUTF8.toList ↔ s < t := by
  have hlt : ∀ {a b : List Char}, a < b →
      a.flatMap String.utf8EncodeChar < b.flatMap String.utf8EncodeChar := by
    intro a b h
    induction h with
    | @nil d b =>
      obtain ⟨u, us, hu⟩ := List.exists_cons_of_ne_nil (String.utf8EncodeChar_ne_nil (c := d))
      rw [List.flatMap_cons, hu]
      exact List.nil_lt_cons u _
    | rel h => exact utf8EncodeChar_append_lt h _ _
    | cons _ ih => exact List.append_left_lt ih
  have htotal : s.toList < t.toList ∨ s.toList = t.toList ∨ t.toList < s.toList :=
    @Std.Trichotomous.rel_or_eq_or_rel_swap (List Char) (· < ·) _ _ _
  rw [bytes_eq, bytes_eq, String.lt_iff]
  refine ⟨fun h => ?_, hlt⟩
  rcases htotal with hst | hst | hst
  · exact hst
  · rw [hst] at h
    exact absurd h (List.lt_irrefl _)
  · exact absurd (hlt hst) (List.lt_asymm h)

/-! ## Plain texts -/

/-- No character is a control character. -/
def Plain (text : List Char) : Prop := ∀ c ∈ text, 0x20 ≤ c.toNat

theorem plain_nil : Plain [] := List.forall_mem_nil _

theorem plain_of_all {text : List Char} (h : text.all (0x20 ≤ ·.toNat) = true) : Plain text :=
  fun c hc => of_decide_eq_true (List.all_eq_true.mp h c hc)

theorem Plain.append {text rest : List Char} (h : Plain text) (hr : Plain rest) :
    Plain (text ++ rest) := by
  intro c hc
  rcases List.mem_append.mp hc with hc | hc
  · exact h c hc
  · exact hr c hc

theorem Plain.cons {c : Char} {text : List Char} (hc : 0x20 ≤ c.toNat) (h : Plain text) :
    Plain (c :: text) := by
  intro d hd
  rcases List.mem_cons.mp hd with rfl | hd
  · exact hc
  · exact h d hd

/-- A character that is no control character has no byte of one: those of several bytes have the
highest bit set in each. -/
theorem le_of_mem_utf8EncodeChar {c : Char} (hc : 0x20 ≤ c.toNat) :
    ∀ b ∈ String.utf8EncodeChar c, (0x20 : Nat) ≤ b.toNat := by
  have hval : c.val.toNat = c.toNat := rfl
  intro b hb
  rw [String.utf8EncodeChar.eq_def] at hb
  dsimp only at hb
  rw [hval] at hb
  split at hb
  · rw [List.mem_singleton.mp hb, UInt8.toNat_ofNat']
    omega
  split at hb
  · simp only [List.mem_cons, List.not_mem_nil, or_false] at hb
    rcases hb with rfl | rfl <;> rw [UInt8.toNat_ofNat'] <;> omega
  split at hb
  · simp only [List.mem_cons, List.not_mem_nil, or_false] at hb
    rcases hb with rfl | rfl | rfl <;> rw [UInt8.toNat_ofNat'] <;> omega
  · simp only [List.mem_cons, List.not_mem_nil, or_false] at hb
    rcases hb with rfl | rfl | rfl | rfl <;> rw [UInt8.toNat_ofNat'] <;> omega

theorem Plain.bytes {s : String} (h : Plain s.toList) :
    ∀ b ∈ s.toUTF8.toList, (0x20 : Nat) ≤ b.toNat := by
  intro b hb
  rw [bytes_eq] at hb
  obtain ⟨c, hc, hb⟩ := List.mem_flatMap.mp hb
  exact le_of_mem_utf8EncodeChar (h c hc) b hb

/-! ## Cutting lines -/

/-- A line without line feeds in it is cut off at the line feed behind it. -/
theorem cut?_append {line : List UInt8} (h : ∀ b ∈ line, b ≠ lineFeed) (rest : List UInt8) :
    cut? (line ++ lineFeed :: rest) = some (line, rest) := by
  induction line with
  | nil => rw [List.nil_append, cut?, if_pos rfl]
  | cons b line ih =>
    have hb : b ≠ lineFeed := h b List.mem_cons_self
    rw [List.cons_append, cut?, if_neg hb, ih fun c hc => h c (List.mem_cons_of_mem b hc)]
    rfl

theorem trimReturn_of_ne {line : List UInt8} (h : ∀ b ∈ line, b ≠ carriageReturn) :
    trimReturn line = line := by
  rw [trimReturn, if_neg]
  intro hlast
  exact h carriageReturn (List.mem_of_getLast? hlast) rfl

/-- Bytes without control characters end no line. -/
theorem ne_of_le {b : UInt8} (h : (0x20 : Nat) ≤ b.toNat) : b ≠ lineFeed ∧ b ≠ carriageReturn := by
  constructor
  · rintro rfl
    exact absurd h (by decide)
  · rintro rfl
    exact absurd h (by decide)

theorem cut?_ofText {s : String} (h : Plain s.toList) (rest : List UInt8) :
    cut? (ofText s ++ rest) = some (s.toUTF8.toList, rest) := by
  rw [ofText, List.append_assoc]
  exact cut?_append (fun b hb => (ne_of_le (h.bytes b hb)).1) rest

theorem trimReturn_bytes {s : String} (h : Plain s.toList) :
    trimReturn s.toUTF8.toList = s.toUTF8.toList :=
  trimReturn_of_ne fun b hb => (ne_of_le (h.bytes b hb)).2

theorem all_cut {bytes line rest : List UInt8} (h : cut? bytes = some (line, rest)) :
    all bytes = trimReturn line :: all rest := by
  rw [all]
  split
  · rename_i hc
    rw [h] at hc
    obtain ⟨rfl, rfl⟩ := Prod.mk.inj (Option.some.inj hc)
    rfl
  · rename_i hc
    rw [h] at hc
    cases hc

/-- Bytes without a line feed are one line. -/
theorem all_uncut {bytes : List UInt8} (h : cut? bytes = none) (hbytes : bytes ≠ []) :
    all bytes = [bytes] := by
  rw [all]
  split
  · rename_i hc
    rw [h] at hc
    cases hc
  · exact if_neg (by simpa using hbytes)

theorem all_nil : all [] = [] := by
  rw [all]
  rfl

/-- The lines of what was written are the texts that were written. -/
theorem all_flatMap_ofText {texts : List String} (h : ∀ s ∈ texts, Plain s.toList) :
    all (texts.flatMap ofText) = texts.map fun s => s.toUTF8.toList := by
  induction texts with
  | nil => exact all_nil
  | cons s texts ih =>
    have hs : Plain s.toList := h s List.mem_cons_self
    have hrest := ih fun t ht => h t (List.mem_cons_of_mem s ht)
    rw [List.flatMap_cons, all_cut (cut?_ofText hs _), trimReturn_bytes hs, hrest, List.map_cons]

/-! ## Lines of any bytes -/

/-- The bytes of some lines, each with a line feed behind it. -/
def ofLines (lines : List (List UInt8)) : List UInt8 := lines.flatMap (· ++ [lineFeed])

/-- Whether the bytes of a line are UTF-8. -/
def isText (line : List UInt8) : Bool := (text? line).isSome

theorem isText_bytes (s : String) : isText s.toUTF8.toList = true := by
  rw [isText, text?_bytes]
  rfl

theorem cut?_ofLines {line : List UInt8} (h : lineFeed ∉ line) (lines : List (List UInt8)) :
    cut? (ofLines (line :: lines)) = some (line, ofLines lines) := by
  have hne : ∀ b ∈ line, b ≠ lineFeed := fun b hb heq => h (heq ▸ hb)
  rw [ofLines, List.flatMap_cons, List.append_assoc]
  exact cut?_append hne _

/-- Lines of any bytes but line feeds are read as they were written, less a carriage return at their
end, and what is behind them is read as if it stood alone. -/
theorem all_ofLines_append {lines : List (List UInt8)} (h : ∀ line ∈ lines, lineFeed ∉ line)
    (rest : List UInt8) : all (ofLines lines ++ rest) = lines.map trimReturn ++ all rest := by
  induction lines with
  | nil => rfl
  | cons line lines ih =>
    have hne : ∀ b ∈ line, b ≠ lineFeed := fun b hb heq => h line List.mem_cons_self (heq ▸ hb)
    have hbytes : ofLines (line :: lines) ++ rest =
        line ++ lineFeed :: (ofLines lines ++ rest) := by
      rw [ofLines, List.flatMap_cons, ← ofLines, List.append_assoc, List.append_assoc]
      rfl
    rw [hbytes, all_cut (cut?_append hne _), ih fun l hl => h l (List.mem_cons_of_mem line hl),
      List.map_cons, List.cons_append]

theorem all_ofLines {lines : List (List UInt8)} (h : ∀ line ∈ lines, lineFeed ∉ line) :
    all (ofLines lines) = lines.map trimReturn := by
  have hall := all_ofLines_append h []
  rwa [List.append_nil, all_nil, List.append_nil] at hall

/-- The bytes behind the last line feed. -/
def unended (bytes : List UInt8) : List UInt8 := bytes.rtakeWhile (· != lineFeed)

theorem unended_concat (bytes : List UInt8) (b : UInt8) :
    unended (bytes ++ [b]) = if b = lineFeed then [] else unended bytes ++ [b] := by
  rw [unended, List.rtakeWhile_concat]
  by_cases hb : b = lineFeed
  · rw [if_pos hb, if_neg]
    rw [hb, bne_self_eq_false]
    exact Bool.false_ne_true
  · rw [if_neg hb, if_pos (bne_iff_ne.mpr hb)]
    rfl

/-- Any bytes are some lines and what is behind the last line feed. -/
theorem exists_ofLines (bytes : List UInt8) :
    ∃ lines, (∀ line ∈ lines, lineFeed ∉ line) ∧ bytes = ofLines lines ++ unended bytes := by
  induction bytes using List.reverseRecOn with
  | nil => exact ⟨[], fun _ h => absurd h List.not_mem_nil, rfl⟩
  | append_singleton bytes b ih =>
    obtain ⟨lines, hlines, hbytes⟩ := ih
    rw [unended_concat]
    by_cases hb : b = lineFeed
    · -- The bytes behind the last line feed become a line of their own.
      have hline : lineFeed ∉ unended bytes := fun h => by
        have hne := List.mem_rtakeWhile_imp h
        rw [bne_self_eq_false] at hne
        cases hne
      refine ⟨lines ++ [unended bytes], ?_, ?_⟩
      · intro line h
        rcases List.mem_append.mp h with h | h
        · exact hlines line h
        · rwa [List.mem_singleton.mp h]
      · rw [if_pos hb, hb, ofLines, List.flatMap_append, List.flatMap_singleton, ← ofLines,
          List.append_nil, ← List.append_assoc, ← hbytes]
    · refine ⟨lines, hlines, ?_⟩
      rw [if_neg hb, ← List.append_assoc, ← hbytes]

/-- Behind a line feed, lines are read as if they stood alone. -/
theorem all_append_of_ended {bytes : List UInt8} (h : unended bytes = []) (rest : List UInt8) :
    all (bytes ++ rest) = all bytes ++ all rest := by
  obtain ⟨lines, hlines, hbytes⟩ := exists_ofLines bytes
  rw [h, List.append_nil] at hbytes
  rw [hbytes, all_ofLines_append hlines, all_ofLines hlines]

theorem unended_append {bytes : List UInt8} {line : List UInt8} (h : lineFeed ∉ line) :
    unended (bytes ++ line) = unended bytes ++ line := by
  induction line using List.reverseRecOn with
  | nil => rw [List.append_nil, List.append_nil]
  | append_singleton line b ih =>
    have hb : b ≠ lineFeed := fun heq =>
      h (List.mem_append_right line (List.mem_singleton.mpr heq.symm))
    rw [← List.append_assoc, unended_concat, if_neg hb,
      ih fun hl => h (List.mem_append_left [b] hl), List.append_assoc]

theorem unended_ofText (bytes : List UInt8) (s : String) : unended (bytes ++ ofText s) = [] := by
  rw [ofText, ← List.append_assoc, unended_concat, if_pos rfl]

/-- What is left of bytes that end with a line feed, if anything, ends with it. -/
theorem unended_of_suffix {bytes rest : List UInt8} (h : rest <:+ bytes)
    (hbytes : unended bytes = []) : unended rest = [] := by
  obtain ⟨front, rfl⟩ := h
  induction rest using List.reverseRecOn with
  | nil => rfl
  | append_singleton rest b =>
    rw [← List.append_assoc, unended_concat] at hbytes
    rw [unended_concat]
    split at hbytes
    · rename_i hb
      rw [if_pos hb]
    · cases List.append_ne_nil_of_right_ne_nil _ (List.cons_ne_nil b []) hbytes

theorem cut?_suffix {bytes line rest : List UInt8} (h : cut? bytes = some (line, rest)) :
    rest <:+ bytes := by
  induction bytes generalizing line with
  | nil => cases h
  | cons b bytes ih =>
    rw [cut?] at h
    split at h
    · cases h
      exact List.suffix_cons b rest
    · obtain ⟨⟨l, r⟩, hc, he⟩ := Option.map_eq_some_iff.mp h
      cases he
      exact (ih hc).trans (List.suffix_cons b bytes)

/-- Bytes that end with a line feed begin with a line. -/
theorem exists_cut {bytes : List UInt8} (h : unended bytes = []) (hbytes : bytes ≠ []) :
    ∃ line rest, cut? bytes = some (line, rest) := by
  obtain ⟨lines, hlines, hall⟩ := exists_ofLines bytes
  rw [h, List.append_nil] at hall
  cases lines with
  | nil => exact absurd hall hbytes
  | cons line lines =>
    rw [hall]
    exact ⟨line, _, cut?_ofLines (hlines line List.mem_cons_self) lines⟩

/-- The line of a plain text. -/
theorem all_ofText {s : String} (h : Plain s.toList) : all (ofText s) = [s.toUTF8.toList] := by
  have hcut := cut?_ofText h []
  rw [List.append_nil] at hcut
  rw [all_cut hcut, trimReturn_bytes h, all_nil]

end PolicyProbe.Lines
