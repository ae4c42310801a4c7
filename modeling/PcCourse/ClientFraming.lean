import PcCourse.ByteSearch
import Mathlib.Data.List.TakeWhile
import Mathlib.Algebra.Ring.Nat
import Mathlib.Algebra.Ring.Int.Defs

/-! `ServerConnection::Read`: the client collects what arrives and looks for the end of
the message from a position computed from the size of what it had before. -/
namespace PcCourse.ClientFraming

open ByteSearch

/-- `search_start_pos`: `size_t` arithmetic, converted to the signed index of `QByteArray`. -/
def searchStartPos (preSize delimSize : UInt64) : Int64 :=
  if preSize ≥ delimSize - 1 then (preSize - delimSize - 1).toInt64 else 0

/-- A negative start counts from the end. -/
def fromEnd (start : Int) (size : Nat) : Nat :=
  if start < 0 then (start + size).toNat else start.toNat

def indexOf (buffer needle : List UInt8) (start : Int) : Option Nat :=
  find needle buffer (fromEnd start buffer.length)

def startIndex (preSize delimSize size : Nat) : Nat :=
  fromEnd (searchStartPos preSize.toUInt64 delimSize.toUInt64).toInt size

/-- What a C string shows of a byte string. -/
def cStr (text : List UInt8) : List UInt8 := text.takeWhile (· ≠ 0)

structure Reader where
  inputMessage : List UInt8
  connected : Bool
  deriving DecidableEq, Repr

/-- One `readyRead`, with the message it emits. -/
def read (delim block : List UInt8) (r : Reader) : Option (List UInt8) × Reader :=
  if r.connected then
    let preSize := r.inputMessage.length
    let input := r.inputMessage ++ block
    match indexOf input (cStr delim) (searchStartPos preSize.toUInt64 delim.length.toUInt64).toInt with
    | some ind => (some (input.take ind), ⟨[], false⟩)
    | none => (none, ⟨input, true⟩)
  else (none, r)

def emitted (delim : List UInt8) : Reader → List (List UInt8) → List (Option (List UInt8))
  | _, [] => []
  | r, block :: rest => (read delim block r).1 :: emitted delim (read delim block r).2 rest

def deliveredLast (body : List UInt8) (blocks : List (List UInt8)) : List (Option (List UInt8)) :=
  List.replicate (blocks.length - 1) none ++ [some body]

def FirstAtEnd (delim body : List UInt8) : Prop :=
  ∀ i < body.length, ¬OccursAt delim (body ++ delim) i

/-- Behind the start positions, what the C string shows of the delimiter stands in the
last block only, and there not before the end of the body. -/
def ShownAtEnd (delim body : List UInt8) : List UInt8 → List (List UInt8) → Prop
  | _, [] => True
  | input, [block] => ∀ i < body.length,
      startIndex input.length delim.length (input ++ block).length ≤ i →
        ¬OccursAt (cStr delim) (input ++ block) i
  | input, block :: next :: rest =>
    (∀ i, startIndex input.length delim.length (input ++ block).length ≤ i →
      ¬OccursAt (cStr delim) (input ++ block) i) ∧
    ShownAtEnd delim body (input ++ block) (next :: rest)

section
variable {delim body : List UInt8}

theorem read_found {input block : List UInt8} {ind : Nat}
    (found : indexOf (input ++ block) (cStr delim) (searchStartPos input.length.toUInt64 delim.length.toUInt64).toInt =
      some ind) :
    read delim block ⟨input, true⟩ = (some ((input ++ block).take ind), ⟨[], false⟩) := by
  simp only [read, if_true, found]

theorem read_missed {input block : List UInt8}
    (missed : indexOf (input ++ block) (cStr delim) (searchStartPos input.length.toUInt64 delim.length.toUInt64).toInt =
      none) :
    read delim block ⟨input, true⟩ = (none, ⟨input ++ block, true⟩) := by
  simp only [read, if_true, missed]

theorem cStr_occurs : OccursAt (cStr delim) (body ++ delim) body.length := by
  have shown := List.takeWhile_prefix (l := delim) (· ≠ 0)
  constructor
  · rw [List.length_append]
    exact Nat.add_le_add_left shown.length_le _
  · rw [List.drop_left]
    exact shown

/-- While the sizes fit a signed index, only a first part as long as the delimiter or one
byte shorter makes the start position negative. -/
theorem searchStartPos_toInt {preSize delimSize : Nat} (preFits : preSize < 2 ^ 63)
    (some_ : 0 < delimSize) (delimFits : delimSize < 2 ^ 63) :
    (searchStartPos preSize.toUInt64 delimSize.toUInt64).toInt =
      if delimSize ≤ preSize + 1 then (preSize : Int) - delimSize - 1 else 0 := by
  have pre : (Int64.ofNat preSize).toInt = preSize := Int64.toInt_ofNat_of_lt preFits
  have delim : (Int64.ofNat delimSize).toInt = delimSize := Int64.toInt_ofNat_of_lt delimFits
  have toUInt64_eq (n : Nat) : n.toUInt64 = UInt64.ofNat n := rfl
  have one : (1 : UInt64).toInt64.toInt = 1 := rfl
  have guard : preSize.toUInt64 ≥ delimSize.toUInt64 - 1 ↔ delimSize ≤ preSize + 1 := by
    have one : (1 : UInt64) ≤ delimSize.toUInt64 := by
      rw [UInt64.le_iff_toNat_le, toUInt64_eq, UInt64.toNat_ofNat']
      simp only [UInt64.toNat_one]
      omega
    rw [ge_iff_le, UInt64.le_iff_toNat_le, UInt64.toNat_sub_of_le _ _ one, toUInt64_eq,
      toUInt64_eq, UInt64.toNat_ofNat', UInt64.toNat_ofNat', UInt64.toNat_one]
    omega
  unfold searchStartPos
  simp only [guard]
  split
  · have difference : (preSize.toUInt64 - delimSize.toUInt64).toInt64.toInt =
        (preSize : Int) - delimSize := by
      rw [toUInt64_eq, toUInt64_eq, UInt64.toInt64_sub, UInt64.toInt64_ofNat',
        UInt64.toInt64_ofNat', Int64.toInt_sub, pre, delim,
        Int.bmod_eq_of_le (by omega) (by omega)]
    rw [UInt64.toInt64_sub, Int64.toInt_sub, difference, one,
      Int.bmod_eq_of_le (by omega) (by omega)]
  · exact Int64.toInt_zero

theorem startIndex_le_iff {preSize delimSize bodySize : Nat} (two : 2 ≤ delimSize)
    (fits : bodySize + delimSize < 2 ^ 63) (inside : preSize < bodySize + delimSize) :
    startIndex preSize delimSize (bodySize + delimSize) ≤ bodySize ↔
      preSize ≠ delimSize ∧ (preSize + 1 = delimSize → delimSize = 2) := by
  rw [startIndex, searchStartPos_toInt (by omega) (by omega) (by omega), fromEnd]
  split_ifs <;> omega

theorem search_whole {preSize : Nat} :
    indexOf (body ++ delim) (cStr delim) (searchStartPos preSize.toUInt64 delim.length.toUInt64).toInt =
        some body.length ↔
      (∀ i < body.length, startIndex preSize delim.length (body ++ delim).length ≤ i →
        ¬OccursAt (cStr delim) (body ++ delim) i) ∧
      startIndex preSize delim.length (body ++ delim).length ≤ body.length := by
  rw [indexOf, ← startIndex]
  exact find_eq_some_iff cStr_occurs

theorem take_eq_body_iff {ind : Nat} (inside : ind ≤ (body ++ delim).length) :
    (body ++ delim).take ind = body ↔ ind = body.length := by
  constructor
  · intro same
    have := congrArg List.length same
    rw [List.length_take] at this
    omega
  · rintro rfl
    exact List.take_left

theorem deliveredLast_cons (block next : List UInt8) (rest : List (List UInt8)) :
    deliveredLast body (block :: next :: rest) = none :: deliveredLast body (next :: rest) := by
  simp [deliveredLast, List.replicate_succ]

/-- The induction is on the blocks still to come, with what was collected before them. -/
theorem emitted_eq_iff (input : List UInt8) {blocks : List (List UInt8)}
    (any : blocks ≠ []) (stream : input ++ blocks.flatten = body ++ delim) :
    emitted delim ⟨input, true⟩ blocks = deliveredLast body blocks ↔
      ShownAtEnd delim body input blocks ∧
      startIndex (input ++ blocks.dropLast.flatten).length delim.length (body ++ delim).length ≤
        body.length := by
  induction blocks generalizing input with
  | nil => exact absurd rfl any
  | cons block rest ih =>
    cases rest with
    | nil =>
      have whole : input ++ block = body ++ delim := by simpa using stream
      rw [ShownAtEnd, List.dropLast_singleton, List.flatten_nil, List.append_nil, whole,
        ← search_whole]
      cases found : indexOf (body ++ delim) (cStr delim)
          (searchStartPos input.length.toUInt64 delim.length.toUInt64).toInt with
      | none =>
        rw [emitted, read_missed (by rw [whole]; exact found)]
        simp [emitted, deliveredLast]
      | some ind =>
        have inside := (find_sound found).2.le_length
        rw [emitted, read_found (by rw [whole]; exact found), whole]
        simp only [emitted, deliveredLast, List.length_singleton, Nat.sub_self,
          List.replicate_zero, List.nil_append, List.cons.injEq, and_true, Option.some.injEq]
        exact take_eq_body_iff inside
    | cons next rest =>
      have stream' : (input ++ block) ++ (next :: rest).flatten = body ++ delim := by
        simpa using stream
      have later := ih (input ++ block) (List.cons_ne_nil _ _) stream'
      have collected : input ++ (block :: next :: rest).dropLast.flatten =
          (input ++ block) ++ (next :: rest).dropLast.flatten := by
        simp
      rw [collected, ShownAtEnd, and_assoc, ← later]
      cases found : indexOf (input ++ block) (cStr delim)
          (searchStartPos input.length.toUInt64 delim.length.toUInt64).toInt with
      | none =>
        have unseen := find_eq_none_iff.mp found
        rw [emitted, read_missed found]
        simp only [deliveredLast_cons, List.cons.injEq, true_and]
        exact (and_iff_right unseen).symm
      | some ind =>
        rw [emitted, read_found found]
        simp only [deliveredLast_cons, List.cons.injEq, reduceCtorEq, false_and, false_iff]
        rintro ⟨unseen, -⟩
        have seen := find_sound found
        exact unseen ind seen.1 seen.2

theorem shownAtEnd_of_plain (plain : 0 ∉ delim) (first : FirstAtEnd delim body)
    (input : List UInt8) {blocks : List (List UInt8)} (filled : [] ∉ blocks)
    (stream : input ++ blocks.flatten = body ++ delim) : ShownAtEnd delim body input blocks := by
  have all : cStr delim = delim := by
    rw [cStr, List.takeWhile_eq_self_iff]
    intro byte isIn
    exact decide_eq_true fun zero => plain (zero ▸ isIn)
  induction blocks generalizing input with
  | nil => exact trivial
  | cons block rest ih =>
    have grown : (input ++ block) ++ rest.flatten = body ++ delim := by simpa using stream
    cases rest with
    | nil =>
      intro i early _ occurs
      rw [all, ← List.append_nil (input ++ block), ← List.flatten_nil, grown] at occurs
      exact first i early occurs
    | cons next rest =>
      refine ⟨fun i _ occurs => ?_, ih _ (List.not_mem_of_not_mem_cons filled) grown⟩
      rw [all] at occurs
      have late : body.length ≤ i := by
        by_contra early
        exact first i (by omega) (grown ▸ occurs.append _)
      have more : next ≠ [] := fun empty => filled (by simp [empty])
      have sizes := congrArg List.length grown
      have := List.length_pos_iff.mpr more
      have := occurs.1
      simp only [List.length_append, List.flatten_cons] at sizes
      rw [List.length_append] at this
      omega

/-- Whether the message arrives is decided by the size of what precedes the last block. -/
theorem read_delivers_iff {blocks : List (List UInt8)} (two : 2 ≤ delim.length)
    (first : FirstAtEnd delim body) (stream : blocks.flatten = body ++ delim)
    (filled : [] ∉ blocks) (fits : (body ++ delim).length < 2 ^ 63) :
    emitted delim ⟨[], true⟩ blocks = deliveredLast body blocks ↔
      (blocks.dropLast.flatten.length ≠ delim.length ∧
        (blocks.dropLast.flatten.length + 1 = delim.length → delim.length = 2)) ∧
      (0 ∈ delim → ShownAtEnd delim body [] blocks) := by
  have any : blocks ≠ [] := by
    rintro rfl
    have := congrArg List.length stream
    simp only [List.flatten_nil, List.length_nil, List.length_append] at this
    omega
  have inside : blocks.dropLast.flatten.length < body.length + delim.length := by
    have last := List.getLast_mem any
    have split := congrArg List.flatten (List.dropLast_append_getLast any)
    have sizes := congrArg List.length (split.trans stream)
    rw [List.flatten_append, List.length_append, List.flatten_singleton, List.length_append]
      at sizes
    have := List.length_pos_iff.mpr fun empty => filled (empty ▸ last)
    omega
  rw [List.length_append] at fits
  rw [emitted_eq_iff [] any stream, List.nil_append, List.length_append,
    startIndex_le_iff two fits inside, and_comm]
  refine and_congr_right fun _ => ⟨fun shown _ => shown, fun shown => ?_⟩
  by_cases zero : 0 ∈ delim
  · exact shown zero
  · exact shownAtEnd_of_plain zero first [] filled stream

theorem cut_delimiter_delivered : emitted [13, 10] ⟨[], true⟩ [[97, 98, 99], [13], [10]] =
    deliveredLast [97, 98, 99] [[97, 98, 99], [13], [10]] :=
  (read_delivers_iff (by decide) (by unfold FirstAtEnd; decide) rfl (by decide) (by decide)).mpr
    ⟨by decide, fun zero => absurd zero (by decide)⟩

/-- A body of two bytes ahead of its delimiter: the search starts at the last byte. -/
theorem two_bytes_first_lost :
    FirstAtEnd [13, 10] [97, 98] ∧ [[97, 98], [13, 10]].flatten = [97, 98] ++ [13, 10] ∧
      emitted [13, 10] ⟨[], true⟩ [[97, 98], [13, 10]] = [none, none] ∧
      emitted [13, 10] ⟨[], true⟩ [[97, 98], [13, 10]] ≠
        deliveredLast [97, 98] [[97, 98], [13, 10]] := by
  refine ⟨?_, by decide, by decide, by decide⟩
  unfold FirstAtEnd
  decide

end

end PcCourse.ClientFraming
