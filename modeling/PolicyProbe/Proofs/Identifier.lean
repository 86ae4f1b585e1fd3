import PolicyProbe.Identifier
import PolicyProbe.Proofs.Text.Digits

/-!
The text of an identifier is read back. Its 36 characters are neither bare digits nor in a frame,
so reading takes the hyphens out where writing put them in.
-/
namespace PolicyProbe.Identifier

open Digits

/-- Characters keep their order between the hyphens. -/
theorem unhyphenated?_hyphenated : ∀ {sizes : List Nat} {text : List Char}, sizes ≠ [] →
    text.length = sizes.sum → unhyphenated? sizes (hyphenated sizes text) = some text
  | [], _, h, _ => absurd rfl h
  | [n], text, _, hlen => by
    have hn : text.length = n := by simpa using hlen
    rw [hyphenated, unhyphenated?, if_pos hn]
  | n :: m :: sizes, text, _, hlen => by
    have hsum : text.length = n + (m :: sizes).sum := hlen
    have htake : (text.take n).length = n := List.length_take_of_le (by omega)
    have hrest := @unhyphenated?_hyphenated (m :: sizes) (text.drop n) (by simp)
      (by rw [List.length_drop]; omega)
    rw [hyphenated]
    · simp only [unhyphenated?, List.drop_left' htake, List.take_left' htake, hrest,
        Option.bind_eq_bind, Option.bind_some, List.take_append_drop]
      rfl
    · exact List.cons_ne_nil m sizes

theorem length_hyphenated : ∀ {sizes : List Nat} {text : List Char}, sizes ≠ [] →
    text.length = sizes.sum → (hyphenated sizes text).length + 1 = text.length + sizes.length
  | [], _, h, _ => absurd rfl h
  | [_], _, _, _ => rfl
  | n :: m :: sizes, text, _, hlen => by
    have hsum : text.length = n + (m :: sizes).sum := hlen
    have hrest := @length_hyphenated (m :: sizes) (text.drop n) (by simp)
      (by rw [List.length_drop]; omega)
    rw [hyphenated]
    · simp only [List.length_append, List.length_cons, List.length_take, List.length_drop]
        at hrest ⊢
      omega
    · exact List.cons_ne_nil m sizes

theorem hexValue_frame : hexValue? '\x7b' = none ∧ hexValue? 'u' = none := by decide

/-- A text that starts with a digit has no frame. -/
theorem unframed_of_digit {c : Char} (hc : (hexValue? c).isSome) (rest : List Char) :
    unframed (c :: rest) = c :: rest := by
  unfold unframed
  split
  · rename_i heq
    rw [(List.cons.inj heq).1, hexValue_frame.1] at hc
    exact nomatch hc
  · rename_i heq
    rw [(List.cons.inj heq).1, hexValue_frame.2] at hc
    exact nomatch hc
  · rfl

/-- The characters of an identifier start with its first digit. -/
theorem chars_eq_cons (id : Identifier) :
    ∃ d rest, d < 16 ∧ id.chars = Nat.digitChar d :: rest := by
  obtain ⟨digits, hlen, hlt⟩ := id
  cases digits with
  | nil => exact nomatch hlen
  | cons d digits => exact ⟨d, _, hlt d List.mem_cons_self, rfl⟩

theorem all?_digits (id : Identifier) :
    all? hexValue? (id.digits.map Nat.digitChar) = some id.digits := by
  have hread : ∀ ds : List Nat, (∀ d ∈ ds, d < 16) →
      all? hexValue? (ds.map Nat.digitChar) = some ds := by
    intro ds
    induction ds with
    | nil => intro _; rfl
    | cons d ds ih =>
      intro h
      have hd := hexValue_digitChar d (h d List.mem_cons_self)
      have hds := ih fun e he => h e (List.mem_cons_of_mem d he)
      rw [all?] at hds ⊢
      rw [List.map_cons, List.mapM_cons, hd, hds]
      rfl
  exact hread id.digits id.valid.2

/-- The text of an identifier stands for it. -/
theorem ofText?_text (id : Identifier) : ofText? id.text = some id := by
  have hsum : (id.digits.map Nat.digitChar).length = groups.sum := by
    rw [List.length_map, id.valid.1]
    rfl
  have hlen : id.chars.length = 36 := by
    have h := length_hyphenated (by decide : groups ≠ []) hsum
    rw [hsum] at h
    exact Nat.succ.inj h
  have hun : unhyphenated? groups id.chars = some (id.digits.map Nat.digitChar) :=
    unhyphenated?_hyphenated (by decide) hsum
  have hframe : unframed id.chars = id.chars := by
    obtain ⟨d, rest, hd, hchars⟩ := id.chars_eq_cons
    rw [hchars]
    refine unframed_of_digit ?_ rest
    rw [hexValue_digitChar d hd]
    rfl
  have hdigits : ofDigits? id.digits = some id := dif_pos id.valid
  rw [ofText?, text, String.toList_ofList, ofChars?, hlen, if_neg (by decide), hframe, hun]
  simp only [Option.bind_eq_bind, Option.bind_some, all?_digits, hdigits]

theorem text_injective {a b : Identifier} (h : a.text = b.text) : a = b := by
  have hread := ofText?_text a
  rw [h, ofText?_text b] at hread
  exact (Option.some.inj hread).symm

end PolicyProbe.Identifier
