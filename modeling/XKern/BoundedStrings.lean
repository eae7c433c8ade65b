import XKern.MemoryCopy

namespace XKern.Libkern

open Slices RecordedMemory List Nat

/-!
# Bounded string functions

Model of `strncpy` and `strncat` in `libkern/libkern/string.c`.  The counter of
`strncpy` wraps when the source is not shorter than `n`, and `strncat` puts its
terminator at `d[n]`, however long the source is.
-/

/-! ## The functions -/

/-- `while (n-- && (*d++ = *src++))`: memory, `d` and `n` after the loop. -/
def strncpyLoop : Nat → Nat → Nat → Ram → Ram × Nat × Nat
  -- `n--` is evaluated before the loop ends
  | 0, d, _, ram => (ram, d, 2 ^ 32 - 1)
  | n + 1, d, src, ram =>
      let stored := ram.store d [ram.content src]
      if ram.content src = 0 then (stored, d + 1, n) else strncpyLoop n (d + 1) (src + 1) stored

/-- `while (n--) *d++ = '\0'`. -/
def zeroLoop : Nat → Nat → Ram → Ram
  | 0, _, ram => ram
  | n + 1, d, ram => zeroLoop n (d + 1) (ram.store d [0])

/-- `strncpy`. -/
def strncpy (dest src : Nat) (n : U32) (ram : Ram) : Ram :=
  let copied := strncpyLoop n.toNat dest src ram
  if copied.2.2 ≠ 0 then zeroLoop copied.2.2 copied.2.1 copied.1 else copied.1

/-- `while (*d) d++`, as far as there are addresses. -/
def strEnd (content : Nat → U8) : Nat → Nat → Option Nat
  | 0, _ => none
  | fuel + 1, d => if content d = 0 then some d else strEnd content fuel (d + 1)

/-- The loop of `strncat` from `i` on, with `n - i` rounds left. -/
def strncatLoop (d src : Nat) : Nat → Nat → Ram → Ram
  | 0, _, ram => ram
  | left + 1, i, ram =>
      if ram.content (src + i) = 0 then
        ram
      else
        strncatLoop d src left (i + 1) (ram.store (d + i) [ram.content (src + i)])

/-- `strncat`. -/
def strncat (dest src : Nat) (n : U32) (ram : Ram) : Option Ram :=
  (strEnd ram.content (2 ^ 64) dest).map fun d =>
    (strncatLoop d src n.toNat 0 ram).store (d + n.toNat) [0]

/-- A string of this length begins at `s`. -/
def IsString (content : Nat → U8) (s length : Nat) : Prop :=
  content (s + length) = 0 ∧ ∀ i < length, content (s + i) ≠ 0

/-! ## `strncpy` -/

/-- `dest` is behind the first character of the source and not behind its terminator. -/
def StartsInside (dest src length : Nat) : Prop :=
  src < dest ∧ dest ≤ src + length

variable {ram : Ram} {length src : Nat} {content : Nat → U8}

theorem strncpyLoop_copies (dest src length more : Nat)
    (isString : IsString ram.content src length) (apart : ¬ StartsInside dest src length) :
    ∃ copied, strncpyLoop (length + 1 + more) dest src ram = (copied, dest + (length + 1), more) ∧
      Filled dest (slice ram.content src length ++ [0]) ram copied := by
  rw [StartsInside] at apart
  induction length generalizing dest src ram with
  | zero =>
    have isEnd : ram.content src = 0 := isString.1
    have stored := filled_store dest [ram.content src] ram
    rw [isEnd] at stored
    refine ⟨ram.store dest [0], ?_, stored⟩
    rw [zero_add, add_comm, strncpyLoop, isEnd, if_pos rfl]
  | succ length ih =>
    have notEnd : ram.content src ≠ 0 := isString.2 0 (succ_pos length)
    have stored := filled_store dest [ram.content src] ram
    have kept {i : Nat} (near : i ≤ length) :
        (ram.store dest [ram.content src]).content (src + 1 + i) = ram.content (src + (i + 1)) := by
      rw [stored.content_outside (by rw [length_singleton]; omega), add_assoc, add_comm 1]
    have nextString : IsString (ram.store dest [ram.content src]).content (src + 1) length := by
      refine ⟨(kept (le_refl _)).trans isString.1, ?_⟩
      intro i less
      rw [kept (le_of_lt less)]
      exact isString.2 (i + 1) (by omega)
    obtain ⟨copied, isCopied, filled⟩ :=
      ih (dest + 1) (src + 1) nextString (by omega)
    have same : slice (ram.store dest [ram.content src]).content (src + 1) length =
        slice ram.content (src + 1) length := by
      apply slice_congr
      intro i less
      rw [kept (le_of_lt less), add_assoc, add_comm 1]
    have count : length + 1 + 1 + more = length + 1 + more + 1 := by omega
    refine ⟨copied, ?_, ?_⟩
    · rw [count, strncpyLoop, if_neg notEnd, isCopied, add_assoc dest, add_comm 1]
    · rw [same] at filled
      rw [add_comm length 1, slice_add]
      exact stored.append filled

theorem zeroLoop_filled (n d : Nat) (ram : Ram) :
    Filled d (replicate n 0) ram (zeroLoop n d ram) := by
  induction n generalizing d ram with
  | zero => exact filled_nil d ram
  | succ n ih =>
    have stored := filled_store d [0] ram
    exact stored.append (ih (d + 1) (ram.store d [0]))

/-- With a source that is shorter than `n`, the terminator and more zeros follow its
characters. -/
theorem strncpy_filled {dest : Nat} {n : U32} (ram : Ram)
    (isString : IsString ram.content src length) (shorter : length < n.toNat)
    (apart : ¬ StartsInside dest src length) :
    Filled dest (slice ram.content src length ++ replicate (n.toNat - length) 0) ram
      (strncpy dest src n ram) := by
  obtain ⟨more, isMore⟩ := Nat.exists_eq_add_of_le (succ_le_of_lt shorter)
  obtain ⟨copied, isCopied, filled⟩ := strncpyLoop_copies dest src length more isString apart
  have zeros : replicate (n.toNat - length) (0 : U8) = [0] ++ replicate more 0 := by
    rw [isMore, succ_add, succ_sub (Nat.le_add_right _ _), Nat.add_sub_cancel_left]
    rfl
  have rest : (if more ≠ 0 then zeroLoop more (dest + (length + 1)) copied else copied) =
      zeroLoop more (dest + (length + 1)) copied := by
    split
    · rfl
    · rename_i none
      rw [not_not.mp none]
      rfl
  have filledLength : (slice ram.content src length ++ [(0 : U8)]).length = length + 1 := by
    rw [length_append, length_slice]
    rfl
  rw [zeros, ← append_assoc, strncpy, isMore, isCopied]
  dsimp only
  rw [rest]
  refine filled.append ?_
  rw [filledLength]
  exact zeroLoop_filled more (dest + (length + 1)) copied

theorem strncpyLoop_exhausts (n dest src : Nat) (ram : Ram)
    (noEnd : ∀ i < n, ram.content (src + i) ≠ 0) :
    ∃ copied, strncpyLoop n dest src ram = (copied, dest + n, 2 ^ 32 - 1) := by
  induction n generalizing dest src ram with
  | zero => exact ⟨ram, rfl⟩
  | succ n ih =>
    have first : ram.content src ≠ 0 := noEnd 0 (succ_pos n)
    have later : ∀ i < n, (ram.store dest [ram.content src]).content (src + 1 + i) ≠ 0 := by
      intro i less
      rw [Recorded.content_store, add_assoc, add_comm 1]
      split
      · exact first
      · exact noEnd (i + 1) (by omega)
    obtain ⟨copied, isCopied⟩ := ih (dest + 1) (src + 1) _ later
    refine ⟨copied, ?_⟩
    rw [strncpyLoop, if_neg first, isCopied, add_assoc, add_comm 1]

theorem strncpyLoop_overtakes (n src distance : Nat) (ram : Ram) (positive : 0 < distance)
    (window : ∀ i < distance, ram.content (src + i) ≠ 0) :
    ∃ copied, strncpyLoop n (src + distance) src ram =
      (copied, src + distance + n, 2 ^ 32 - 1) := by
  induction n generalizing src ram with
  | zero => exact ⟨ram, rfl⟩
  | succ n ih =>
    have first : ram.content src ≠ 0 := window 0 positive
    have later : ∀ i < distance,
        (ram.store (src + distance) [ram.content src]).content (src + 1 + i) ≠ 0 := by
      intro i less
      rw [Recorded.content_store, add_assoc, add_comm 1]
      split
      · exact first
      · exact window (i + 1) (by omega)
    obtain ⟨copied, isCopied⟩ := ih (src + 1) _ later
    refine ⟨copied, ?_⟩
    rw [strncpyLoop, if_neg first, add_right_comm src distance 1, isCopied]
    congr 2
    omega

/-- `strncpy` writes the characters and zeros to `dest[0]` to `dest[n-1]`, and nothing
else. -/
structure StrncpyExact
    (dest src length n : Nat)
    (before after : Ram) : Prop where
  written : ∀ address, after.Written address ↔ dest ≤ address ∧ address < dest + n
  characters : ∀ i < n, after.content (dest + i) =
    if i < length then before.content (src + i) else 0
  others : ∀ address, address < dest ∨ dest + n ≤ address →
    after.content address = before.content address

theorem not_strncpyExact {dest : Nat} {n : U32} {copied : Ram}
    (exhausted : strncpyLoop n.toNat dest src ram = (copied, dest + n.toNat, 2 ^ 32 - 1)) :
    ¬ StrncpyExact dest src length n.toNat ram (strncpy dest src n ram) := by
  intro isExact
  have zeros := zeroLoop_filled (2 ^ 32 - 1) (dest + n.toNat) copied
  have isResult : strncpy dest src n ram = zeroLoop (2 ^ 32 - 1) (dest + n.toNat) copied := by
    rw [strncpy, exhausted]
    exact if_pos (show 2 ^ 32 - 1 ≠ 0 by decide)
  have written : (strncpy dest src n ram).Written (dest + n.toNat) := by
    rw [isResult, zeros.written, length_replicate]
    exact .inr ⟨Nat.le_refl _, Nat.lt_add_of_pos_right (by decide)⟩
  exact lt_irrefl _ ((isExact.written _).mp written).2

theorem strncpy_exact_iff (isString : IsString content src length) (dest : Nat) (n : U32) :
    StrncpyExact dest src length n.toNat (.fresh content)
        (strncpy dest src n (.fresh content)) ↔
      length < n.toNat ∧ ¬ StartsInside dest src length := by
  constructor
  · intro isExact
    by_contra violated
    by_cases inside : StartsInside dest src length
    · obtain ⟨distance, rfl⟩ := Nat.exists_eq_add_of_lt inside.1
      have near := inside.2
      obtain ⟨copied, exhausted⟩ := strncpyLoop_overtakes n.toNat src (distance + 1)
        (.fresh content) (succ_pos distance) fun i less => isString.2 i (by omega)
      exact not_strncpyExact exhausted isExact
    · have longer : n.toNat ≤ length := by
        by_contra shorter
        exact violated ⟨Nat.lt_of_not_le shorter, inside⟩
      obtain ⟨copied, exhausted⟩ := strncpyLoop_exhausts n.toNat dest src
        (.fresh content) fun i less => isString.2 i (lt_of_lt_of_le less longer)
      exact not_strncpyExact exhausted isExact
  · rintro ⟨shorter, apart⟩
    have filled := strncpy_filled (.fresh content) isString shorter apart
    have valuesLength : (slice (Recorded.fresh content).content src length ++
        replicate (n.toNat - length) 0).length = n.toNat := by
      rw [length_append, length_slice, length_replicate]
      omega
    have value (i : Nat) (less : i < n.toNat) :
        (slice (Recorded.fresh content).content src length ++ replicate (n.toNat - length) 0)[i]? =
            some (if i < length then content (src + i) else 0) := by
      by_cases inside : i < length
      · rw [if_pos inside, getElem?_append_left (by rwa [length_slice])]
        exact getElem?_slice content src inside
      · rw [if_neg inside, getElem?_append_right (by rw [length_slice]; omega),
          getElem?_replicate_of_lt (by rw [length_slice]; omega)]
    exact {
      written := fun address => by
        rw [filled.written, valuesLength]
        exact or_iff_right (Recorded.not_written_fresh content address)
      characters := fun i less => filled.content_inside (value i less)
      others := fun address outside => filled.content_outside (by rwa [valuesLength]) }

/-! ## `strncat` -/

theorem strEnd_eq {s fuel : Nat} (isString : IsString content s length) (enough : length < fuel) :
    strEnd content fuel s = some (s + length) := by
  induction fuel generalizing s length with
  | zero => exact absurd enough (not_lt_zero length)
  | succ fuel ih =>
    rw [strEnd]
    cases length with
    | zero => exact if_pos isString.1
    | succ length =>
      have nextString : IsString content (s + 1) length := by
        constructor
        · have isEnd := isString.1
          rwa [add_comm length 1, ← add_assoc] at isEnd
        · intro i less
          have next := isString.2 (i + 1) (by omega)
          rwa [add_comm i 1, ← add_assoc] at next
      have notEnd : content s ≠ 0 := isString.2 0 (succ_pos length)
      rw [if_neg notEnd, ih nextString (by omega), add_assoc, add_comm 1]

theorem strncatLoop_filled {d : Nat} {start : Ram} (isString : IsString start.content src length)
    (isEnd : start.content d = 0) (left i : Nat) (within : i + left ≤ length)
    (filled : Filled d (slice start.content src i) start ram) :
    Filled d (slice start.content src (i + left)) start (strncatLoop d src left i ram) := by
  induction left generalizing i ram with
  | zero => exact filled
  | succ left ih =>
    -- the source has no zero before its end, so `d` is not inside the part to be read
    have outside : src + i < d ∨ d + i ≤ src + i := by
      by_cases below : d < src
      · omega
      · obtain ⟨k, rfl⟩ := Nat.exists_eq_add_of_le (Nat.le_of_not_lt below)
        have late : ¬ k < length := fun less => isString.2 k less isEnd
        omega
    have kept : ram.content (src + i) = start.content (src + i) :=
      filled.content_outside (by rwa [length_slice])
    have next : Filled d (slice start.content src (i + 1)) start
        (ram.store (d + i) [ram.content (src + i)]) := by
      rw [slice_add, kept]
      have stored := filled_store (d + i) [start.content (src + i)] ram
      exact filled.append (by rwa [length_slice])
    have notEnd : ram.content (src + i) ≠ 0 := by
      rw [kept]
      exact isString.2 i (by omega)
    rw [strncatLoop, if_neg notEnd]
    have all := ih (i + 1) (by omega) next
    rwa [add_assoc, add_comm 1] at all

/-- `strncat` leaves the old characters, the first characters of the source and a
terminator, and writes nothing behind it. -/
structure StrncatExact
    (dest oldLength src length n : Nat)
    (before after : Ram) : Prop where
  old : ∀ i < oldLength, after.content (dest + i) = before.content (dest + i)
  characters : ∀ i < min n length,
    after.content (dest + oldLength + i) = before.content (src + i)
  terminator : after.content (dest + oldLength + min n length) = 0
  within : ∀ address, after.Written address → address ≤ dest + oldLength + min n length

theorem strncat_exact_iff {dest oldLength : Nat} (isOld : IsString content dest oldLength)
    (addressable : oldLength < 2 ^ 64) (isString : IsString content src length) (n : U32) :
    (∃ after, strncat dest src n (.fresh content) = some after ∧
        StrncatExact dest oldLength src length n.toNat (.fresh content) after) ↔
      n.toNat ≤ length := by
  have result : strncat dest src n (.fresh content) =
      some ((strncatLoop (dest + oldLength) src n.toNat 0 (.fresh content)).store
        (dest + oldLength + n.toNat) [0]) := by
    have isEnd : strEnd (Recorded.fresh content).content (2 ^ 64) dest = some (dest + oldLength) :=
      strEnd_eq isOld addressable
    rw [strncat, isEnd]
    rfl
  constructor
  · rintro ⟨after, isAfter, isExact⟩
    rw [result] at isAfter
    cases isAfter
    have last := isExact.within (dest + oldLength + n.toNat)
      ((Recorded.written_store _ _ _ _).mpr (Or.inr ⟨le_refl _, lt_succ_self _⟩))
    omega
  · intro within
    refine ⟨_, result, ?_⟩
    have copied := strncatLoop_filled isString isOld.1 n.toNat 0
      (by rwa [zero_add]) (filled_nil (dest + oldLength) (.fresh content))
    rw [zero_add] at copied
    have stored := filled_store (dest + oldLength + n.toNat) [0]
      (strncatLoop (dest + oldLength) src n.toNat 0 (.fresh content))
    have filled := copied.append (by rwa [length_slice])
    have isMin : min n.toNat length = n.toNat := min_eq_left within
    have filledLength : (slice (Recorded.fresh content).content src n.toNat ++ [0]).length =
        n.toNat + 1 := by
      rw [length_append, length_slice]
      rfl
    exact {
      old := fun i less => filled.content_outside (.inl (by omega))
      characters := fun i less => by
        rw [isMin] at less
        apply filled.content_inside
        rw [getElem?_append_left (by rwa [length_slice])]
        exact getElem?_slice content src less
      terminator := by
        rw [isMin]
        apply filled.content_inside
        rw [getElem?_append_right (by rw [length_slice]), length_slice, Nat.sub_self]
        rfl
      within := fun address written => by
        rw [filled.written, filledLength] at written
        rcases written with before | range
        · exact absurd before (Recorded.not_written_fresh content address)
        · omega }

/-! ## Both functions -/

/-- When the two functions write what they should and nothing else. -/
theorem boundedStrings_exact_iff (content : Nat → U8) (dest src length : Nat) (n : U32)
    (isString : IsString content src length) :
    (StrncpyExact dest src length n.toNat (.fresh content)
        (strncpy dest src n (.fresh content)) ↔
      length < n.toNat ∧ ¬ StartsInside dest src length) ∧
    ∀ oldLength, IsString content dest oldLength → oldLength < 2 ^ 64 →
      ((∃ after, strncat dest src n (.fresh content) = some after ∧
          StrncatExact dest oldLength src length n.toNat (.fresh content) after) ↔
        n.toNat ≤ length) :=
  ⟨strncpy_exact_iff isString dest n,
    fun _ isOld addressable => strncat_exact_iff isOld addressable isString n⟩

/-- A memory with the string `ab` at its start. -/
def twoLetters : Nat → U8 :=
  fun address => [0x61, 0x62].getD address 0

theorem isString_twoLetters : IsString twoLetters 0 2 :=
  ⟨rfl, by decide⟩

/-- A string of two letters. -/
theorem twoLetters_exact_iff :
    (StrncpyExact 8 0 2 (4 : U32).toNat (.fresh twoLetters)
        (strncpy 8 0 4 (.fresh twoLetters)) ↔
      2 < (4 : U32).toNat ∧ ¬ StartsInside 8 0 2) ∧
    ∀ oldLength, IsString twoLetters 8 oldLength → oldLength < 2 ^ 64 →
      ((∃ after, strncat 8 0 4 (.fresh twoLetters) = some after ∧
          StrncatExact 8 oldLength 0 2 (4 : U32).toNat (.fresh twoLetters) after) ↔
        (4 : U32).toNat ≤ 2) :=
  boundedStrings_exact_iff twoLetters 8 0 2 4 isString_twoLetters

/-- `strncpy` of two characters with `n = 2` writes behind them, and `strncat` of two
characters with `n = 4` terminates the string two characters too late. -/
theorem twoLetters_inexact :
    ¬ StrncpyExact 8 0 2 (2 : U32).toNat (.fresh twoLetters)
        (strncpy 8 0 2 (.fresh twoLetters)) ∧
      ¬ ∃ after, strncat 8 0 4 (.fresh twoLetters) = some after ∧
        StrncatExact 8 0 0 2 (4 : U32).toNat (.fresh twoLetters) after := by
  have isOld : IsString twoLetters 8 0 := ⟨rfl, fun i less => absurd less (not_lt_zero i)⟩
  constructor
  · rw [strncpy_exact_iff isString_twoLetters]
    exact fun condition => absurd condition.1 (by decide)
  · rw [strncat_exact_iff isOld (by decide) isString_twoLetters]
    decide

end XKern.Libkern
