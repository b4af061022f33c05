import Mathlib.Algebra.Group.Nat.Defs
import Mathlib.Data.List.DropRight
import PolicyDecision.Function.Standard

/-!
# PolicyDecision.Proofs.Function.Masking

What `filter.blacken` discloses of a text.

The characters at both ends are shown as they are, and each one in between is covered by the
replacement. So two texts of one length that agree at their ends cannot be told apart. Counts as long
as signed words allow are added and subtracted as unsigned words of 64 bits without leaving them.

* `Function.maskText_of_lt`, `Function.maskText_of_le`: the two cases of a mask.
* `Function.checkedMask?`: masking with every sum, difference and slice checked.
* `Function.blacken_discloses`: what the function gives, and that nothing else is disclosed.
-/

namespace PolicyDecision
namespace Function

/-! ## Masks -/

variable {text replacement : List Char} {left right : Nat}

theorem maskText_of_lt (h : left + right < text.length) :
    maskText text left right replacement =
      text.take left ++ (List.replicate (text.length - left - right) replacement).flatten ++
        text.rtake right := by
  rw [maskText, if_neg (by omega), Nat.sub_right_comm]
  rfl

theorem maskText_of_le (h : text.length ≤ left + right) :
    maskText text left right replacement = text := if_pos h

/-- What is covered has no influence. -/
theorem maskText_congr {other : List Char} (h : left + right < text.length)
    (hlength : other.length = text.length) (hleft : other.take left = text.take left)
    (hright : other.rtake right = text.rtake right) :
    maskText other left right replacement = maskText text left right replacement := by
  rw [maskText_of_lt h, maskText_of_lt (hlength ▸ h), hlength, hleft, hright]

/-! ## Checked arithmetic -/

/-- The sum of two unsigned words, if it is one. -/
def checkedSum? (a b : Nat) : Option Nat := if a + b < 2 ^ 64 then some (a + b) else none

/-- The difference of two unsigned words, if it is one. -/
def checkedDifference? (a b : Nat) : Option Nat := if b ≤ a then some (a - b) else none

/-- The characters from one position up to another one, if these are positions of the text. -/
def checkedSlice? (text : List Char) (start stop : Nat) : Option (List Char) :=
  if start ≤ stop ∧ stop ≤ text.length then some ((text.drop start).take (stop - start)) else none

/-- Mask a text character by character. There is no result if a number is no unsigned word or a
slice reaches out of the text. -/
def checkedMask? (text : List Char) (left right : Nat) (replacement : List Char) :
    Option (List Char) := do
  let disclosed ← checkedSum? left right
  if disclosed ≥ text.length then return text
  let start ← checkedSlice? text 0 left
  let stop ← checkedDifference? text.length right
  let covered := (List.range' left (stop - left)).flatMap fun _ => replacement
  let rest ← checkedSlice? text stop text.length
  return start ++ covered ++ rest

theorem checkedSum?_of_lt (hleft : left < 2 ^ 63) (hright : right < 2 ^ 63) :
    checkedSum? left right = some (left + right) := if_pos (by omega)

/-- Counts that are signed words never leave the unsigned ones, nor the text. -/
theorem checkedMask?_eq (hleft : left < 2 ^ 63) (hright : right < 2 ^ 63) :
    checkedMask? text left right replacement = some (maskText text left right replacement) := by
  rw [checkedMask?, checkedSum?_of_lt hleft hright]
  by_cases h : text.length ≤ left + right
  · rw [maskText_of_le h]
    simp [h]
  · have hcovered (n : Nat) : (List.range' left n).flatMap (fun _ => replacement) =
        (List.replicate n replacement).flatten := by
      rw [List.flatMap_def, List.map_const', List.length_range']
    have hslice : checkedSlice? text 0 left = some (text.take left) := by
      rw [checkedSlice?, if_pos (by omega)]
      rfl
    have hstop : checkedDifference? text.length right = some (text.length - right) :=
      if_pos (by omega)
    have hrest : checkedSlice? text (text.length - right) text.length = some (text.rtake right) := by
      rw [checkedSlice?, if_pos (by omega), List.take_of_length_le (by simp)]
      rfl
    rw [maskText_of_lt (by omega), Nat.sub_right_comm]
    simp [h, hslice, hstop, hrest, hcovered]

/-! ## The function -/

theorem naturalArgument_of_word (arguments : List Val) (index : Nat) {n : Nat} {number : Number}
    (h : arguments[index]? = some (.defined (.number number)))
    (hnumber : number.int64? = some (n : Int)) : naturalArgument arguments index = .ok n := by
  simp [naturalArgument, h, Val.number?, Val.json?, Json.number?, hnumber]

theorem int64?_ofNat {n : Nat} (h : n < 2 ^ 63) : (Number.ofNat n).int64? = some (n : Int) := by
  unfold Number.ofNat Number.ofInt
  rw [dif_pos (by omega), Number.int64?, if_pos (by omega)]

/-- A text, the numbers of characters that are shown at its ends, and the replacement. -/
def blackenArguments (text : String) (left right : Nat) (replacement : String) : List Val :=
  [.defined (.string text), .defined (.ofNat left), .defined (.ofNat right),
    .defined (.string replacement)]

theorem blacken_of_words (text replacement : String) {l r : Number}
    (hleft : l.int64? = some (left : Int)) (hright : r.int64? = some (right : Int)) :
    blacken [.defined (.string text), .defined (.number l), .defined (.number r),
      .defined (.string replacement)] =
      .defined (.string (.ofList (maskText text.toList left right replacement.toList))) := by
  have hl := naturalArgument_of_word [.defined (.string text), .defined (.number l),
    .defined (.number r), .defined (.string replacement)] 1 rfl hleft
  have hr := naturalArgument_of_word [.defined (.string text), .defined (.number l),
    .defined (.number r), .defined (.string replacement)] 2 rfl hright
  have hreplacement : replacementArgument [.defined (.string text), .defined (.number l),
    .defined (.number r), .defined (.string replacement)] = .ok replacement := rfl
  simp [blacken, Val.string?, Val.json?, Json.string?, hl, hr, hreplacement, bind, Except.bind,
    pure, Except.pure]

theorem blacken_blackenArguments (text replacement : String) (hleft : left < 2 ^ 63)
    (hright : right < 2 ^ 63) :
    blacken (blackenArguments text left right replacement) =
      .defined (.string (.ofList (maskText text.toList left right replacement.toList))) :=
  blacken_of_words text replacement (int64?_ofNat hleft) (int64?_ofNat hright)

/-- Counts that are left out are zero, and a replacement that is left out is `X`. -/
theorem blacken_defaults (text left right : Val) :
    blacken [text] = blacken [text, .defined (.ofNat 0)] ∧
      blacken [text, left] = blacken [text, left, .defined (.ofNat 0)] ∧
      blacken [text, left, right] = blacken [text, left, right, .defined (.string "X")] := by
  have hzero : (Number.ofNat 0).int64? = some ((0 : Nat) : Int) := int64?_ofNat (by decide)
  have hnatural (arguments : List Val) (index : Nat)
      (h : arguments[index]? = some (.defined (.ofNat 0))) :
      naturalArgument arguments index = .ok 0 := naturalArgument_of_word arguments index h hzero
  refine ⟨?_, ?_, rfl⟩
  · have hl := hnatural [text, .defined (.ofNat 0)] 1 rfl
    have hnone : naturalArgument [text] 1 = .ok 0 := rfl
    simp only [blacken, hl, hnone]
    rfl
  · have hr := hnatural [text, left, .defined (.ofNat 0)] 2 rfl
    have hnone : naturalArgument [text, left] 2 = .ok 0 := rfl
    simp only [blacken, hr, hnone]
    rfl

/-- A function of the standard library is called by its name unless an argument is an error. -/
theorem call_blacken {arguments : List Val} (h : Val.firstError? arguments = none) :
    FunctionLibrary.standard.call "filter.blacken" arguments = blacken arguments := by
  have hprovided : FunctionLibrary.standard.functions.get? "filter.blacken" = some blacken := rfl
  rw [FunctionLibrary.call, h]
  simp only [hprovided]

/-- The first `left` and the last `right` characters are shown, and every character in between is
covered by the replacement; a text without characters in between stays as it is. No sum leaves the
words and no slice the text. Texts of one length that agree on the characters at the ends have one
result. -/
theorem blacken_discloses {left right : Nat} (hleft : left < 2 ^ 63) (hright : right < 2 ^ 63)
    (text replacement : String) :
    ∃ masked : String,
      FunctionLibrary.standard.call "filter.blacken"
        (blackenArguments text left right replacement) = .defined (.string masked) ∧
      checkedMask? text.toList left right replacement.toList = some masked.toList ∧
      (left + right < text.length →
        masked.toList = text.toList.take left ++
          (List.replicate (text.length - left - right) replacement.toList).flatten ++
            text.toList.rtake right) ∧
      (text.length ≤ left + right → masked = text) ∧
      ∀ other : String, left + right < text.length → other.length = text.length →
        other.toList.take left = text.toList.take left →
        other.toList.rtake right = text.toList.rtake right →
        FunctionLibrary.standard.call "filter.blacken"
          (blackenArguments other left right replacement) = .defined (.string masked) := by
  refine ⟨.ofList (maskText text.toList left right replacement.toList), ?_, ?_, ?_, ?_, ?_⟩
  · rw [call_blacken rfl, blacken_blackenArguments text replacement hleft hright]
  · rw [checkedMask?_eq hleft hright, String.toList_ofList]
  · intro h
    rw [String.toList_ofList, maskText_of_lt h]
    rfl
  · intro h
    rw [maskText_of_le h, String.ofList_toList]
  · intro other h hlength hl hr
    rw [call_blacken rfl, blacken_blackenArguments other replacement hleft hright,
      maskText_congr h hlength hl hr]

/-- The longest count on one side only: nothing is masked. Two names with one initial are not told
apart. -/
theorem blacken_discloses_names :
    (2 ^ 63 - 1 < 2 ^ 63 ∧ 2 ^ 63 - 1 < 2 ^ 63 ∧
      FunctionLibrary.standard.call "filter.blacken"
        (blackenArguments "péché" (2 ^ 63 - 1) (2 ^ 63 - 1) "*") = .defined (.string "péché")) ∧
    (1 < 2 ^ 63 ∧ 0 < 2 ^ 63 ∧
      FunctionLibrary.standard.call "filter.blacken" (blackenArguments "bob" 1 0 "··") =
        FunctionLibrary.standard.call "filter.blacken" (blackenArguments "bea" 1 0 "··")) := by
  constructor
  · have hword : 2 ^ 63 - 1 < 2 ^ 63 := by decide
    obtain ⟨masked, hcall, -, -, hsame, -⟩ := blacken_discloses hword hword "péché" "*"
    refine ⟨hword, hword, ?_⟩
    rw [hcall, hsame (by decide)]
  · have hone : 1 < 2 ^ 63 := by decide
    have hzero : 0 < 2 ^ 63 := by decide
    obtain ⟨masked, hcall, -, -, -, hother⟩ := blacken_discloses hone hzero "bob" "··"
    exact ⟨hone, hzero, hcall.trans (hother "bea" (by decide) (by decide)
      (by decide) (by decide)).symm⟩

end Function
end PolicyDecision
