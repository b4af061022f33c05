import PolicyDecision.Proofs.Json.NumberText

/-!
# PolicyDecision.Proofs.Json.Text

The text of a JSON value determines the value.

* `Json.escape_append_inj`, `Json.quote_append_inj`: characters and strings can be read back.
* `Json.IsClosing`: what can follow a value inside of another.
* `Json.text_append_inj`: a value can be read back from a text that goes on behind it.
* `Json.text_injective`: no two values have the same text.
-/

namespace PolicyDecision
namespace Json

/-! ## Strings -/

/-- The first character of an escaped text, and what follows it. -/
def unescape : List Char → Option (Char × List Char)
  | '\\' :: '"' :: rest => some ('"', rest)
  | '\\' :: '\\' :: rest => some ('\\', rest)
  | '\\' :: 'n' :: rest => some ('\n', rest)
  | '\\' :: 'r' :: rest => some ('\r', rest)
  | '\\' :: 't' :: rest => some ('\t', rest)
  | '\\' :: 'b' :: rest => some (Char.ofNat 8, rest)
  | '\\' :: 'f' :: rest => some (Char.ofNat 12, rest)
  | '\\' :: 'u' :: '0' :: '0' :: high :: low :: rest =>
    some (Char.ofNat (16 * hexValue high + hexValue low), rest)
  | c :: rest => some (c, rest)
  | [] => none
where
  hexValue (c : Char) : Nat := if c.isDigit then c.toNat - 48 else c.toNat - 87

theorem unescape_control {n : Nat} (hn : n < 32) :
    16 * unescape.hexValue (hexDigit (n / 16)) + unescape.hexValue (hexDigit (n % 16)) = n := by
  revert n
  decide

theorem unescape_plain {c : Char} (h : c ≠ '\\') (rest : List Char) :
    unescape (c :: rest) = some (c, rest) := by
  unfold unescape
  split <;> simp_all

theorem unescape_escape (c : Char) (rest : List Char) :
    unescape (escape c ++ rest) = some (c, rest) := by
  have hcode {n : Nat} (h : c.toNat = n) : c = Char.ofNat n := by
    rw [← h, Char.ofNat_toNat]
  unfold escape
  split
  · rename_i h
    subst h
    rfl
  split
  · rename_i h
    subst h
    rfl
  rename_i hbackslash
  split
  · rename_i h
    subst h
    rfl
  split
  · rename_i h
    subst h
    rfl
  split
  · rename_i h
    subst h
    rfl
  split
  · rename_i h
    rw [hcode h]
    rfl
  split
  · rename_i h
    rw [hcode h]
    rfl
  split
  · rename_i h
    have hread : Char.ofNat (16 * unescape.hexValue (hexDigit (c.toNat / 16)) +
        unescape.hexValue (hexDigit (c.toNat % 16))) = c := by
      rw [unescape_control h, Char.ofNat_toNat]
    exact congrArg (fun d => some (d, rest)) hread
  · exact unescape_plain hbackslash rest

theorem escape_append_inj {c d : Char} {s t : List Char} (h : escape c ++ s = escape d ++ t) :
    c = d ∧ s = t := by
  have hc := unescape_escape c s
  rw [h, unescape_escape d t] at hc
  simpa [eq_comm] using hc

/-- An escaped character does not begin with a quotation mark. -/
theorem escape_append_ne_quote (c : Char) (s t : List Char) : escape c ++ s ≠ '"' :: t := by
  intro h
  unfold escape at h
  split at h
  · cases h
  · rename_i hquote
    repeat' split at h
    all_goals first
      | exact hquote (List.cons.inj h).1
      | cases h

theorem quoted_append_inj {cs ds s t : List Char}
    (h : cs.flatMap escape ++ '"' :: s = ds.flatMap escape ++ '"' :: t) : cs = ds ∧ s = t := by
  induction cs generalizing ds with
  | nil =>
    cases ds with
    | nil => exact ⟨rfl, (List.cons.inj h).2⟩
    | cons d ds =>
      rw [List.flatMap_cons, List.append_assoc] at h
      exact absurd h.symm (escape_append_ne_quote d _ _)
  | cons c cs ih =>
    rw [List.flatMap_cons, List.append_assoc] at h
    cases ds with
    | nil => exact absurd h (escape_append_ne_quote c _ _)
    | cons d ds =>
      rw [List.flatMap_cons, List.append_assoc] at h
      obtain ⟨rfl, hrest⟩ := escape_append_inj h
      obtain ⟨rfl, rfl⟩ := ih hrest
      exact ⟨rfl, rfl⟩

theorem quote_append_inj {k l : String} {s t : List Char}
    (h : (quote k).toList ++ s = (quote l).toList ++ t) : k = l ∧ s = t := by
  have hlist : k.toList.flatMap escape ++ '"' :: s = l.toList.flatMap escape ++ '"' :: t := by
    simpa [quote] using h
  obtain ⟨hchars, rfl⟩ := quoted_append_inj hlist
  exact ⟨String.toList_inj.1 hchars, rfl⟩

/-! ## Values -/

/-- What follows a value inside of another one, or nothing: it does not continue a number. -/
def IsClosing (s : List Char) : Prop := ∀ c rest, s = c :: rest → Number.isNumeric c = false

theorem isClosing_nil : IsClosing [] := by
  intro c rest h
  cases h

theorem isClosing_cons {c : Char} {s : List Char} (h : Number.isNumeric c = false) :
    IsClosing (c :: s) := by
  rintro _ _ ⟨⟩
  exact h

theorem takeWhile_numeric_append {cs s : List Char} (hcs : ∀ c ∈ cs, Number.isNumeric c = true)
    (hs : IsClosing s) : (cs ++ s).takeWhile Number.isNumeric = cs := by
  rw [List.takeWhile_append_of_pos hcs]
  cases s with
  | nil => simp
  | cons c rest => simp [hs c rest rfl]

theorem number_append_inj {m n : Number} {s t : List Char} (hs : IsClosing s) (ht : IsClosing t)
    (h : m.text.toList ++ s = n.text.toList ++ t) : m = n ∧ s = t := by
  have htext := congrArg (List.takeWhile Number.isNumeric) h
  rw [takeWhile_numeric_append (fun _ => Number.isNumeric_of_mem_text) hs,
    takeWhile_numeric_append (fun _ => Number.isNumeric_of_mem_text) ht] at htext
  obtain rfl := Number.text_injective (String.toList_inj.1 htext)
  exact ⟨rfl, List.append_cancel_left h⟩

/-- The character that a text begins with, where all that begin a number are alike. -/
def lead (c : Char) : Char := if Number.isNumeric c then '0' else c

/-- What the text of a value begins with. -/
def opening : Json → Char
  | .null => 'n'
  | .bool true => 't'
  | .bool false => 'f'
  | .number _ => '0'
  | .string _ => '"'
  | .array _ => '['
  | .object _ => '\x7b'

theorem exists_text_eq_cons (j : Json) :
    ∃ c cs, (text j).toList = c :: cs ∧ lead c = opening j := by
  cases j with
  | null => exact ⟨'n', _, rfl, rfl⟩
  | bool b => cases b <;> exact ⟨_, _, rfl, rfl⟩
  | number n =>
    obtain ⟨c, cs, heq⟩ := List.exists_cons_of_ne_nil n.toList_text_ne_nil
    refine ⟨c, cs, heq, ?_⟩
    have hnumeric : Number.isNumeric c = true :=
      Number.isNumeric_of_mem_text (n := n) (by rw [heq]; exact List.mem_cons_self)
    rw [lead, if_pos hnumeric, opening]
  | string s => exact ⟨'"', s.toList.flatMap escape ++ ['"'], by simp [text, quote], rfl⟩
  | array items => exact ⟨'[', (itemsText items).toList ++ [']'], by simp [text], rfl⟩
  | object fields => exact ⟨'\x7b', (fieldsText fields).toList ++ ['\x7d'], by simp [text], rfl⟩

theorem opening_eq {j j' : Json} {s t : List Char}
    (h : (text j).toList ++ s = (text j').toList ++ t) : opening j = opening j' := by
  obtain ⟨c, cs, heq, hlead⟩ := exists_text_eq_cons j
  obtain ⟨c', cs', heq', hlead'⟩ := exists_text_eq_cons j'
  rw [heq, heq'] at h
  rw [← hlead, ← hlead', (List.cons.inj h).1]

theorem opening_ne_bracket (j : Json) : opening j ≠ ']' := by
  unfold opening
  split <;> decide

/-- Two values of one kind. -/
inductive Alike : Json → Json → Prop
  | null : Alike .null .null
  | bool (b : Bool) : Alike (.bool b) (.bool b)
  | number (m n : Number) : Alike (.number m) (.number n)
  | string (k l : String) : Alike (.string k) (.string l)
  | array (items items' : List Json) : Alike (.array items) (.array items')
  | object (fields fields' : List (String × Json)) : Alike (.object fields) (.object fields')

theorem alike_of_opening_eq {j j' : Json} (h : opening j = opening j') : Alike j j' := by
  unfold opening at h
  split at h <;> split at h <;> first
    | constructor
    | exact absurd h (by decide)

theorem text_append_ne_bracket (j : Json) (s t : List Char) : (text j).toList ++ s ≠ ']' :: t := by
  obtain ⟨c, cs, heq, hlead⟩ := exists_text_eq_cons j
  intro h
  rw [heq] at h
  rw [(List.cons.inj h).1] at hlead
  exact opening_ne_bracket j hlead.symm

/-- What follows an item of an array. -/
def itemsTail (s : List Char) : List Json → List Char
  | [] => ']' :: s
  | items => ',' :: ((itemsText items).toList ++ ']' :: s)

theorem isClosing_itemsTail (s : List Char) (items : List Json) :
    IsClosing (itemsTail s items) := by
  cases items <;> exact isClosing_cons rfl

theorem itemsText_cons_append (j : Json) (items : List Json) (s : List Char) :
    (itemsText (j :: items)).toList ++ ']' :: s = (text j).toList ++ itemsTail s items := by
  cases items with
  | nil => simp [itemsText, itemsTail]
  | cons j' items => simp [itemsText, itemsTail]

/-- Behind an item, the brackets and commas tell whether more items follow. -/
theorem of_itemsTail_eq {s t : List Char} {items items' : List Json}
    (h : itemsTail s items = itemsTail t items') :
    (itemsText items).toList ++ ']' :: s = (itemsText items').toList ++ ']' :: t := by
  cases items with
  | nil =>
    cases items' with
    | nil => exact h
    | cons j' items' => exact absurd (List.cons.inj h).1 (by decide)
  | cons j items =>
    cases items' with
    | nil => exact absurd (List.cons.inj h).1 (by decide)
    | cons j' items' => exact (List.cons.inj h).2

/-- What follows a field of an object. -/
def fieldsTail (s : List Char) : List (String × Json) → List Char
  | [] => '\x7d' :: s
  | fields => ',' :: ((fieldsText fields).toList ++ '\x7d' :: s)

theorem isClosing_fieldsTail (s : List Char) (fields : List (String × Json)) :
    IsClosing (fieldsTail s fields) := by
  cases fields <;> exact isClosing_cons rfl

theorem fieldsText_cons_append (b : String × Json) (fields : List (String × Json))
    (s : List Char) :
    (fieldsText (b :: fields)).toList ++ '\x7d' :: s =
      (quote b.1).toList ++ ':' :: ((text b.2).toList ++ fieldsTail s fields) := by
  cases fields with
  | nil => simp [fieldsText, fieldsTail]
  | cons b' fields => simp [fieldsText, fieldsTail]

theorem of_fieldsTail_eq {s t : List Char} {fields fields' : List (String × Json)}
    (h : fieldsTail s fields = fieldsTail t fields') :
    (fieldsText fields).toList ++ '\x7d' :: s = (fieldsText fields').toList ++ '\x7d' :: t := by
  cases fields with
  | nil =>
    cases fields' with
    | nil => exact h
    | cons b' fields' => exact absurd (List.cons.inj h).1 (by decide)
  | cons b fields =>
    cases fields' with
    | nil => exact absurd (List.cons.inj h).1 (by decide)
    | cons b' fields' => exact (List.cons.inj h).2

theorem quote_append_ne_brace (k : String) (s t : List Char) :
    (quote k).toList ++ s ≠ '\x7d' :: t := by
  simp [quote]

mutual
/-- A value can be read back from a text that goes on behind it. -/
theorem text_append_inj (j j' : Json) {s t : List Char} (hs : IsClosing s) (ht : IsClosing t)
    (h : (text j).toList ++ s = (text j').toList ++ t) : j = j' ∧ s = t := by
  have halike := alike_of_opening_eq (opening_eq h)
  match j with
  | .null =>
    cases halike
    exact ⟨rfl, List.append_cancel_left h⟩
  | .bool b =>
    cases halike
    exact ⟨rfl, List.append_cancel_left h⟩
  | .number m =>
    cases halike with
    | number m n =>
      obtain ⟨rfl, hst⟩ := number_append_inj hs ht h
      exact ⟨rfl, hst⟩
  | .string k =>
    cases halike with
    | string k l =>
      obtain ⟨rfl, hst⟩ := quote_append_inj h
      exact ⟨rfl, hst⟩
  | .array items =>
    cases halike with
    | array items items' =>
      have hitems : (itemsText items).toList ++ ']' :: s =
          (itemsText items').toList ++ ']' :: t := by
        simpa [text] using h
      obtain ⟨hitems, hst⟩ := items_append_inj items items' hitems
      rw [hitems]
      exact ⟨rfl, hst⟩
  | .object fields =>
    cases halike with
    | object fields fields' =>
      have hfields : (fieldsText fields).toList ++ '\x7d' :: s =
          (fieldsText fields').toList ++ '\x7d' :: t := by
        simpa [text] using h
      obtain ⟨hfields, hst⟩ := fields_append_inj fields fields' hfields
      rw [hfields]
      exact ⟨rfl, hst⟩
termination_by structural j

theorem items_append_inj (items items' : List Json) {s t : List Char}
    (h : (itemsText items).toList ++ ']' :: s = (itemsText items').toList ++ ']' :: t) :
    items = items' ∧ s = t := by
  match items with
  | [] =>
    cases items' with
    | nil => exact ⟨rfl, (List.cons.inj h).2⟩
    | cons j' items' =>
      rw [itemsText_cons_append] at h
      exact absurd h.symm (text_append_ne_bracket j' _ _)
  | j :: items =>
    rw [itemsText_cons_append] at h
    cases items' with
    | nil => exact absurd h (text_append_ne_bracket j _ _)
    | cons j' items' =>
      rw [itemsText_cons_append] at h
      obtain ⟨hj, htail⟩ :=
        text_append_inj j j' (isClosing_itemsTail s items) (isClosing_itemsTail t items') h
      obtain ⟨hitems, hst⟩ := items_append_inj items items' (of_itemsTail_eq htail)
      rw [hj, hitems]
      exact ⟨rfl, hst⟩
termination_by structural items

theorem fields_append_inj (fields fields' : List (String × Json)) {s t : List Char}
    (h : (fieldsText fields).toList ++ '\x7d' :: s = (fieldsText fields').toList ++ '\x7d' :: t) :
    fields = fields' ∧ s = t := by
  match fields with
  | [] =>
    cases fields' with
    | nil => exact ⟨rfl, (List.cons.inj h).2⟩
    | cons b' fields' =>
      rw [fieldsText_cons_append] at h
      exact absurd h.symm (quote_append_ne_brace b'.1 _ _)
  | (k, v) :: fields =>
    rw [fieldsText_cons_append] at h
    cases fields' with
    | nil => exact absurd h (quote_append_ne_brace k _ _)
    | cons b' fields' =>
      rw [fieldsText_cons_append] at h
      obtain ⟨hk, hvalue⟩ := quote_append_inj h
      obtain ⟨hv, htail⟩ := text_append_inj v b'.2 (isClosing_fieldsTail s fields)
        (isClosing_fieldsTail t fields') (List.cons.inj hvalue).2
      obtain ⟨hfields, hst⟩ := fields_append_inj fields fields' (of_fieldsTail_eq htail)
      have hb : (k, v) = b' := Prod.ext hk hv
      rw [hb, hfields]
      exact ⟨rfl, hst⟩
termination_by structural fields
end

/-- No two values have the same text. -/
theorem text_injective {j j' : Json} (h : text j = text j') : j = j' :=
  (text_append_inj j j' isClosing_nil isClosing_nil (by rw [h])).1

end Json
end PolicyDecision
