import Std.Data.String.ToInt
import PolicyDecision.Json.Printer
import PolicyDecision.Proofs.Decimal.Shortest

/-!
# PolicyDecision.Proofs.Json.NumberText

The text of a number determines the number.

* `writtenValue`: the number that decimal digits with a point and an exponent denote.
* `Layout.writtenValue_write`: positional and scientific notation both denote what the digits denote.
* `Number.text_injective`: no two numbers have the same text; integers and doubles are told apart by the
  point or the exponent.
-/

namespace PolicyDecision

open Decimal

/-! ## Reading digits back -/

/-- The number that digits with a point denote. -/
def plainValue (cs : List Char) : ℚ :=
  let back := (cs.dropWhile (· != '.')).tail
  Nat.ofDigitChars 10 (cs.takeWhile (· != '.') ++ back) 0 * 10 ^ (-(back.length : Int))

def exponentValue : List Char → Int
  | 'e' :: '-' :: digits => -Nat.ofDigitChars 10 digits 0
  | 'e' :: '+' :: digits => Nat.ofDigitChars 10 digits 0
  | _ => 0

/-- The number that digits with a point and an exponent denote. -/
def writtenValue (cs : List Char) : ℚ :=
  plainValue (cs.takeWhile (· != 'e')) * 10 ^ exponentValue (cs.dropWhile (· != 'e'))

section Split

variable {c : Char} {front back : List Char}

theorem bne_of_notMem (h : c ∉ front) : ∀ x ∈ front, (x != c) = true := by
  intro x hx
  rw [bne_iff_ne]
  rintro rfl
  exact h hx

theorem takeWhile_bne_of_notMem (h : c ∉ front) : front.takeWhile (· != c) = front :=
  List.takeWhile_eq_self_iff.2 (bne_of_notMem h)

theorem dropWhile_bne_of_notMem (h : c ∉ front) : front.dropWhile (· != c) = [] :=
  List.dropWhile_eq_nil_iff.2 (bne_of_notMem h)

theorem takeWhile_bne_append_cons (h : c ∉ front) :
    (front ++ c :: back).takeWhile (· != c) = front := by
  rw [List.takeWhile_append_of_pos (bne_of_notMem h)]
  simp

theorem dropWhile_bne_append_cons (h : c ∉ front) :
    (front ++ c :: back).dropWhile (· != c) = c :: back := by
  rw [List.dropWhile_append_of_pos (bne_of_notMem h)]
  simp

end Split

theorem plainValue_of_notMem {cs : List Char} (h : '.' ∉ cs) :
    plainValue cs = Nat.ofDigitChars 10 cs 0 := by
  simp [plainValue, takeWhile_bne_of_notMem h, dropWhile_bne_of_notMem h]

theorem plainValue_point {front back : List Char} (h : '.' ∉ front) :
    plainValue (front ++ '.' :: back) =
      Nat.ofDigitChars 10 (front ++ back) 0 * 10 ^ (-(back.length : Int)) := by
  simp [plainValue, takeWhile_bne_append_cons h, dropWhile_bne_append_cons h]

theorem writtenValue_of_notMem {cs : List Char} (h : 'e' ∉ cs) :
    writtenValue cs = plainValue cs := by
  simp [writtenValue, takeWhile_bne_of_notMem h, dropWhile_bne_of_notMem h, exponentValue]

/-- The characters that numbers are made of. -/
def Number.isNumeric (c : Char) : Bool :=
  c.isDigit || c == '-' || c == '+' || c == '.' || c == 'e'

theorem Number.isNumeric_of_isDigit {c : Char} (h : c.isDigit = true) :
    Number.isNumeric c = true := by
  simp [Number.isNumeric, h]

namespace Layout

theorem toList_exponentText (e : Int) :
    ∃ rest, (exponentText e).toList = 'e' :: rest ∧ exponentValue ('e' :: rest) = e ∧
      ∀ c ∈ rest, Number.isNumeric c = true := by
  have hdigits (c : Char) (hc : c ∈ Nat.toDigits 10 e.natAbs) : Number.isNumeric c = true :=
    Number.isNumeric_of_isDigit (Nat.isDigit_of_mem_toDigits (by decide) (by decide) hc)
  unfold exponentText
  split
  · refine ⟨'-' :: Nat.toDigits 10 e.natAbs, by simp, ?_, List.forall_mem_cons.2 ⟨rfl, hdigits⟩⟩
    rw [exponentValue, Nat.ofDigitChars_ten_toDigits]
    omega
  · refine ⟨'+' :: Nat.toDigits 10 e.natAbs, by simp, ?_, List.forall_mem_cons.2 ⟨rfl, hdigits⟩⟩
    rw [exponentValue, Nat.ofDigitChars_ten_toDigits]
    omega

theorem writtenValue_exponent {cs : List Char} (h : 'e' ∉ cs) (e : Int) :
    writtenValue (cs ++ (exponentText e).toList) = plainValue cs * 10 ^ e := by
  obtain ⟨rest, hrest, hvalue, -⟩ := toList_exponentText e
  rw [hrest, writtenValue, takeWhile_bne_append_cons h, dropWhile_bne_append_cons h, hvalue]

/-- Digits with zeros before or behind them have neither a point nor an exponent. -/
theorem notMem_zeros_append {c : Char} {digits : List Char}
    (h : ∀ d ∈ digits, d.isDigit = true) (hc : c.isDigit = false) (m n : Nat) :
    c ∉ List.replicate m '0' ++ digits ++ List.replicate n '0' := by
  have hzero : c ≠ '0' := by
    rintro rfl
    cases hc
  simp only [List.mem_append, List.mem_replicate, hzero, and_false, false_or, or_false]
  intro hmem
  rw [h c hmem] at hc
  cases hc

theorem notMem_digits {c : Char} {digits : List Char} (h : ∀ d ∈ digits, d.isDigit = true)
    (hc : c.isDigit = false) : c ∉ digits := by
  simpa using notMem_zeros_append h hc 0 0

variable {digits : List Char}

/-- The value of digits behind the point, after zeros. -/
theorem writtenValue_below_one (h : ∀ d ∈ digits, d.isDigit = true) (n : Nat) :
    writtenValue ('0' :: '.' :: (List.replicate n '0' ++ digits)) =
      Nat.ofDigitChars 10 digits 0 * (10 : ℚ) ^ (-(n + digits.length : Nat) : Int) := by
  have hback := notMem_zeros_append (c := 'e') h rfl n 0
  have hpoint : plainValue (['0'] ++ '.' :: (List.replicate n '0' ++ digits)) = _ :=
    plainValue_point (by simp)
  rw [writtenValue_of_notMem (by simpa using hback)]
  refine Eq.trans hpoint ?_
  rw [List.singleton_append, Nat.ofDigitChars_cons, Nat.ofDigitChars_append,
    Nat.ofDigitChars_replicate_zero]
  simp

/-- The value of digits with the point among them. -/
theorem writtenValue_inside (h : ∀ d ∈ digits, d.isDigit = true) (n : Nat) :
    writtenValue (digits.take n ++ '.' :: digits.drop n) =
      Nat.ofDigitChars 10 digits 0 * (10 : ℚ) ^ (-(digits.length - n : Nat) : Int) := by
  have hdot : '.' ∉ digits.take n := fun hmem => notMem_digits h rfl (List.mem_of_mem_take hmem)
  have hmark : 'e' ∉ digits.take n ++ '.' :: digits.drop n := by
    rw [List.mem_append, List.mem_cons]
    rintro (hmem | hmem | hmem)
    · exact notMem_digits h rfl (List.mem_of_mem_take hmem)
    · exact absurd hmem (by decide)
    · exact notMem_digits h rfl (List.mem_of_mem_drop hmem)
  rw [writtenValue_of_notMem hmark, plainValue_point hdot, List.take_append_drop, List.length_drop]

/-- The value of digits before the point, with zeros after them. -/
theorem writtenValue_padded (h : ∀ d ∈ digits, d.isDigit = true) (n : Nat) :
    writtenValue (digits ++ List.replicate n '0' ++ '.' :: ['0']) =
      Nat.ofDigitChars 10 digits 0 * (10 : ℚ) ^ n := by
  have hdot := notMem_zeros_append (c := '.') h rfl 0 n
  have hmark := notMem_zeros_append (c := 'e') h rfl 0 n
  rw [List.replicate_zero, List.nil_append] at hdot hmark
  rw [writtenValue_of_notMem (by simpa using hmark), plainValue_point hdot,
    Nat.ofDigitChars_append, Nat.ofDigitChars_append, Nat.ofDigitChars_replicate_zero,
    Nat.ofDigitChars_cons]
  simp
  ring

theorem writtenValue_positional (h : ∀ d ∈ digits, d.isDigit = true) (e : Int) :
    writtenValue (positional digits e).toList = Digits.value ⟨digits, e⟩ := by
  unfold positional Digits.value
  dsimp only
  split
  · rename_i he
    have hlist : ("0." ++ String.ofList (List.replicate (e.natAbs - 1) '0' ++ digits)).toList =
        '0' :: '.' :: (List.replicate (e.natAbs - 1) '0' ++ digits) := by
      simp
    rw [hlist, writtenValue_below_one h]
    congr 2
    omega
  · rename_i he
    obtain ⟨n, rfl⟩ := Int.eq_ofNat_of_zero_le (not_lt.1 he)
    rw [Int.toNat_natCast]
    rcases Nat.lt_or_ge (n + 1) digits.length with hlt | hge
    · have hback : (digits.drop (n + 1)).isEmpty = false := by
        simpa using hlt
      have hlist : (String.ofList (digits.take (n + 1) ++
          List.replicate (n + 1 - digits.length) '0') ++ "." ++
          (if (digits.drop (n + 1)).isEmpty = true then "0"
            else String.ofList (digits.drop (n + 1)))).toList =
          digits.take (n + 1) ++ '.' :: digits.drop (n + 1) := by
        simp [hback, Nat.sub_eq_zero_of_le hlt.le]
      rw [hlist, writtenValue_inside h]
      congr 2
      omega
    · have hlist : (String.ofList (digits.take (n + 1) ++
          List.replicate (n + 1 - digits.length) '0') ++ "." ++
          (if (digits.drop (n + 1)).isEmpty = true then "0"
            else String.ofList (digits.drop (n + 1)))).toList =
          digits ++ List.replicate (n + 1 - digits.length) '0' ++ '.' :: ['0'] := by
        simp [List.take_of_length_le hge, List.drop_eq_nil_of_le hge]
      rw [hlist, writtenValue_padded h, ← zpow_natCast]
      congr 2
      omega

theorem writtenValue_scientific (h : ∀ d ∈ digits, d.isDigit = true) (e : Int) :
    writtenValue (scientific digits e).toList = Digits.value ⟨digits, e⟩ := by
  have hdot := notMem_digits (c := '.') h rfl
  have he := notMem_digits (c := 'e') h rfl
  unfold scientific Digits.value
  match digits with
  | [] =>
    have hlist : ("0" ++ exponentText e).toList = ['0'] ++ (exponentText e).toList := by simp
    rw [hlist, writtenValue_exponent (by decide), plainValue_of_notMem (by decide)]
    simp [Nat.ofDigitChars]
  | [d] =>
    have hlist : (String.singleton d ++ exponentText e).toList =
        [d] ++ (exponentText e).toList := by simp
    dsimp only
    rw [hlist, writtenValue_exponent he, plainValue_of_notMem hdot]
    simp
  | d :: d' :: rest =>
    have hlist : (String.singleton d ++ "." ++ String.ofList (d' :: rest) ++ exponentText e).toList =
        ([d] ++ '.' :: d' :: rest) ++ (exponentText e).toList := by simp
    have he' : 'e' ∉ [d] ++ '.' :: d' :: rest := by
      simpa using he
    have hdot' : '.' ∉ [d] := fun hmem => hdot (List.mem_cons.2 (.inl (List.mem_singleton.1 hmem)))
    dsimp only
    rw [hlist, writtenValue_exponent he', plainValue_point hdot', mul_assoc,
      ← zpow_add₀ (by norm_num), List.singleton_append]
    congr 2
    simp only [List.length_cons]
    push_cast
    ring

/-- Both notations denote the number that the digits denote. -/
theorem writtenValue_write (l : Layout) {d : Digits} (h : ∀ c ∈ d.digits, c.isDigit = true) :
    writtenValue (l.write d).toList = d.value := by
  unfold write
  split
  · exact writtenValue_positional h d.exponent
  · exact writtenValue_scientific h d.exponent

/-- Some digits, then a point or the mark of an exponent, then what numbers are made of. -/
def IsMarked (cs : List Char) : Prop :=
  ∃ front mark rest, cs = front ++ mark :: rest ∧ front ≠ [] ∧
    (∀ c ∈ front, c.isDigit = true) ∧ (mark = '.' ∨ mark = 'e') ∧
    ∀ c ∈ rest, Number.isNumeric c = true

theorem isMarked_positional (h : ∀ d ∈ digits, d.isDigit = true) (e : Int) :
    IsMarked (positional digits e).toList := by
  have hnumeric (c : Char) (hc : c ∈ digits) : Number.isNumeric c = true :=
    Number.isNumeric_of_isDigit (h c hc)
  unfold positional
  split
  · refine ⟨['0'], '.', List.replicate (e.natAbs - 1) '0' ++ digits, by simp, by simp,
      List.forall_mem_singleton.2 rfl, .inl rfl, ?_⟩
    intro c hc
    rcases List.mem_append.1 hc with hc | hc
    · rw [List.eq_of_mem_replicate hc]
      rfl
    · exact hnumeric c hc
  · refine ⟨digits.take (e.toNat + 1) ++ List.replicate (e.toNat + 1 - digits.length) '0', '.',
      if (digits.drop (e.toNat + 1)).isEmpty then ['0'] else digits.drop (e.toNat + 1), ?_, ?_, ?_,
      .inl rfl, ?_⟩
    · dsimp only
      split <;> simp
    · intro hnil
      have hlength := congrArg List.length hnil
      rw [List.length_append, List.length_take, List.length_replicate, List.length_nil] at hlength
      omega
    · intro c hc
      rcases List.mem_append.1 hc with hc | hc
      · exact h c (List.mem_of_mem_take hc)
      · rw [List.eq_of_mem_replicate hc]
        rfl
    · intro c hc
      split at hc
      · rw [List.mem_singleton.1 hc]
        rfl
      · exact hnumeric c (List.mem_of_mem_drop hc)

theorem isMarked_scientific (h : ∀ d ∈ digits, d.isDigit = true) (e : Int) :
    IsMarked (scientific digits e).toList := by
  obtain ⟨rest, hrest, -, hexponent⟩ := toList_exponentText e
  unfold scientific
  match digits with
  | [] =>
    exact ⟨['0'], 'e', rest, by simp [hrest], by simp, List.forall_mem_singleton.2 rfl, .inr rfl,
      hexponent⟩
  | [d] => exact ⟨[d], 'e', rest, by simp [hrest], by simp, h, .inr rfl, hexponent⟩
  | d :: d' :: digits =>
    refine ⟨[d], '.', d' :: digits ++ 'e' :: rest, by simp [hrest], by simp, ?_, .inl rfl, ?_⟩
    · exact List.forall_mem_singleton.2 (h d List.mem_cons_self)
    · intro c hc
      rcases List.mem_append.1 hc with hc | hc
      · exact Number.isNumeric_of_isDigit (h c (List.mem_cons_of_mem d hc))
      · rcases List.mem_cons.1 hc with rfl | hc
        · rfl
        · exact hexponent c hc

/-- A written number begins with digits, which a point or an exponent follows. -/
theorem isMarked_write (l : Layout) {d : Digits} (h : ∀ c ∈ d.digits, c.isDigit = true) :
    IsMarked (l.write d).toList := by
  unfold write
  split
  · exact isMarked_positional h d.exponent
  · exact isMarked_scientific h d.exponent

end Layout

namespace Number

theorem toBits_injective {x y : Float} (h : x.toBits = y.toBits) : x = y := by
  obtain ⟨⟨x, hx⟩⟩ := x
  obtain ⟨⟨y, hy⟩⟩ := y
  have h' : x = y := h
  subst h'
  rfl

theorem isDigit_of_mem_shortest (value : Float) :
    ∀ c ∈ (shortest (Binary.ofBits value.toBits)).digits, c.isDigit = true :=
  fun _ => (Binary.isCanonical_ofBits value.toBits).isDigit_of_mem_shortest

theorem toList_floatText (value : Float) :
    (floatText value).toList = (if (Binary.ofBits value.toBits).negative then ['-'] else []) ++
      (layout.write (shortest (Binary.ofBits value.toBits))).toList := by
  unfold floatText
  dsimp only
  split <;> simp

/-- Digits, behind a minus sign if the integer is negative. -/
theorem toList_text_integer (value : Int) :
    (toString value).toList =
      (if 0 ≤ value then [] else ['-']) ++ Nat.toDigits 10 value.natAbs := by
  rw [Int.toString_eq_repr, Int.repr_eq_if]
  split
  · rename_i h
    rw [Nat.toList_repr, List.nil_append, show value.toNat = value.natAbs by omega]
  · rename_i h
    rw [String.toList_append, Nat.toList_repr, show (-value).toNat = value.natAbs by omega]
    rfl

theorem isDigit_or_of_mem_integer {value : Int} {c : Char} (hc : c ∈ (toString value).toList) :
    c.isDigit = true ∨ c = '-' := by
  rw [toList_text_integer, List.mem_append] at hc
  rcases hc with hc | hc
  · split at hc
    · cases hc
    · exact .inr (List.mem_singleton.1 hc)
  · exact .inl (Nat.isDigit_of_mem_toDigits (by decide) (by decide) hc)

theorem toList_text_ne_nil (n : Number) : n.text.toList ≠ [] := by
  cases n with
  | integer value held =>
    rw [text, toList_text_integer]
    simp
  | float value =>
    obtain ⟨front, mark, rest, heq, -⟩ := layout.isMarked_write (isDigit_of_mem_shortest value)
    rw [text, toList_floatText, heq]
    simp

theorem isNumeric_of_mem_text {n : Number} {c : Char} (hc : c ∈ n.text.toList) :
    isNumeric c = true := by
  cases n with
  | integer value held =>
    rcases isDigit_or_of_mem_integer hc with h | rfl
    · exact isNumeric_of_isDigit h
    · rfl
  | float value =>
    obtain ⟨front, mark, rest, heq, -, hfront, hmark, hrest⟩ :=
      layout.isMarked_write (isDigit_of_mem_shortest value)
    rw [text, toList_floatText, heq, List.mem_append, List.mem_append, List.mem_cons] at hc
    rcases hc with hc | hc | rfl | hc
    · split at hc
      · rw [List.mem_singleton.1 hc]
        rfl
      · cases hc
    · exact isNumeric_of_isDigit (hfront c hc)
    · rcases hmark with rfl | rfl <;> rfl
    · exact hrest c hc

/-- A double has a point or an exponent, which an integer has not. -/
theorem text_integer_ne_floatText (value : Int) (value' : Float) :
    toString value ≠ floatText value' := by
  obtain ⟨front, mark, rest, heq, -, -, hmark, -⟩ :=
    layout.isMarked_write (isDigit_of_mem_shortest value')
  intro h
  have hmem : mark ∈ (toString value).toList := by
    rw [h, toList_floatText, heq]
    simp
  rcases isDigit_or_of_mem_integer hmem with h' | rfl
  · rcases hmark with rfl | rfl <;> cases h'
  · rcases hmark with h' | h' <;> cases h'

theorem floatText_injective {x y : Float} (h : floatText x = floatText y) : x = y := by
  obtain ⟨front, mark, rest, heq, hne, hfront, -⟩ :=
    layout.isMarked_write (isDigit_of_mem_shortest x)
  obtain ⟨front', mark', rest', heq', hne', hfront', -⟩ :=
    layout.isMarked_write (isDigit_of_mem_shortest y)
  have hx := Binary.isCanonical_ofBits x.toBits
  have hy := Binary.isCanonical_ofBits y.toBits
  have hlist := congrArg String.toList h
  rw [toList_floatText, toList_floatText] at hlist
  -- a minus sign is no digit, so the signs agree
  have hsign : (Binary.ofBits x.toBits).negative = (Binary.ofBits y.toBits).negative := by
    obtain ⟨c, front, rfl⟩ := List.exists_cons_of_ne_nil hne
    obtain ⟨c', front', rfl⟩ := List.exists_cons_of_ne_nil hne'
    have hc := hfront c List.mem_cons_self
    have hc' := hfront' c' List.mem_cons_self
    rw [heq, heq'] at hlist
    cases hnx : (Binary.ofBits x.toBits).negative <;>
      cases hny : (Binary.ofBits y.toBits).negative
    · rfl
    · simp only [hnx, hny, List.cons_append, Bool.false_eq_true, if_false, if_true, List.nil_append,
        List.cons.injEq] at hlist
      rw [hlist.1] at hc
      cases hc
    · simp only [hnx, hny, List.cons_append, Bool.false_eq_true, if_false, if_true, List.nil_append,
        List.cons.injEq] at hlist
      rw [← hlist.1] at hc'
      cases hc'
    · rfl
  have hvalue : (shortest (Binary.ofBits x.toBits)).value =
      (shortest (Binary.ofBits y.toBits)).value := by
    rw [hsign] at hlist
    rw [← layout.writtenValue_write (isDigit_of_mem_shortest x),
      ← layout.writtenValue_write (isDigit_of_mem_shortest y), List.append_cancel_left hlist]
  obtain ⟨hmantissa, hexponent⟩ := hx.eq_of_shortest_value hy hvalue
  exact toBits_injective (Binary.ofBits_injective hsign hmantissa hexponent)

/-- No two numbers have the same text. -/
theorem text_injective {m n : Number} (h : m.text = n.text) : m = n := by
  cases m with
  | integer value held =>
    cases n with
    | integer value' held' =>
      have hvalue : value = value' := Int.repr_injective h
      subst hvalue
      rfl
    | float value' => exact absurd h (text_integer_ne_floatText value value')
  | float value =>
    cases n with
    | integer value' held' => exact absurd h.symm (text_integer_ne_floatText value' value)
    | float value' => rw [floatText_injective h]

end Number
end PolicyDecision
