import XKern.DhcpCalls
import XKern.IpChecksum

namespace XKern.Net

open PackedBytes List

/-!
# Decoding of DHCP options

Options and padding in any order, as `opt_put` writes them, are read back by `opt_parse`:
of several options of a kind the last one counts, and nothing behind the end byte.
-/

/-- What stands behind the header of a message. -/
inductive DhcpItem where
  | pad
  | option (code : U8) (value : List U8) (isCode : code ≠ 0 ∧ code ≠ 255)
      (short : value.length < 256)

/-- The value of four bytes, the most significant one first. -/
def bigEndian : List U8 → Option U32
  | [a, b, c, d] => some (a ++ b ++ c ++ d)
  | _ => none

namespace DhcpItem

/-- A pad byte, or the bytes of `opt_put`. -/
def bytes : DhcpItem → List U8
  | pad => [0]
  | option code value _ _ => code :: .ofNat 8 value.length :: value

/-- What a round of `opt_parse` makes of the item. -/
def take (options : DhcpOptions) : DhcpItem → DhcpOptions
  | pad => options
  | option code value _ _ => options.take code value

/-- The first byte of an option 53. -/
def messageType : DhcpItem → Option U8
  | pad => none
  | option code value _ _ => if code = 53 then value.head? else none

/-- The address of an option of this code. -/
def address (wanted : U8) : DhcpItem → Option U32
  | pad => none
  | option code value _ _ => if code = wanted then bigEndian value else none

end DhcpItem

theorem read_between {data before piece after : List U8} {offset count : Nat}
    (isData : data = before ++ (piece ++ after)) (isOffset : before.length = offset)
    (isCount : piece.length = count) :
    checked .frame (read data offset count) = (pure piece : NetM (List U8)) := by
  subst isData isOffset isCount
  rw [checked_read (by simp only [length_append]; omega), part_append_right (le_refl _),
    Nat.sub_self, part_append_left (by rw [Nat.zero_add]), part_self]

theorem read_byte {data before after : List U8} {byte : U8} {offset : Nat}
    (isData : data = before ++ byte :: after) (isOffset : before.length = offset) :
    checked .frame (read data offset 1) = (pure [byte] : NetM (List U8)) :=
  read_between isData isOffset length_singleton

/-- The end of the data, or an end byte and whatever follows it. -/
def endBytes : Option (List U8) → List U8
  | none => []
  | some rest => 255 :: rest

section Rounds

variable {data before : List U8} {fuel : Nat} (options : DhcpOptions)

theorem optLoop_end (rest : Option (List U8)) (isData : data = before ++ endBytes rest) :
    optLoop data data.length (fuel + 1) before.length options = pure options := by
  rw [optLoop]
  cases rest with
  | none =>
    rw [isData, endBytes, append_nil, if_neg (lt_irrefl _)]
  | some rest =>
    rw [if_pos (by rw [isData, endBytes, length_append, length_cons]; omega),
      read_byte isData rfl]
    rfl

theorem optLoop_item (item : DhcpItem) {after : List U8}
    (isData : data = before ++ (item.bytes ++ after)) :
    optLoop data data.length (fuel + 1) before.length options =
      optLoop data data.length fuel (before ++ item.bytes).length (item.take options) := by
  have length := congrArg List.length isData
  rw [length_append, length_append] at length
  cases item with
  | pad =>
    rw [optLoop, if_pos (by rw [length, DhcpItem.bytes, length_singleton]; omega),
      read_byte isData rfl, length_append]
    rfl
  | option code value isCode short =>
    have isLength : (BitVec.ofNat 8 value.length).toNat = value.length := by
      rw [BitVec.toNat_ofNat, Nat.mod_eq_of_lt short]
    rw [DhcpItem.bytes, length_cons, length_cons] at length
    have size : data = (before ++ [code]) ++ .ofNat 8 value.length :: (value ++ after) := by
      rw [isData, DhcpItem.bytes]
      simp
    have text : data = (before ++ [code, .ofNat 8 value.length]) ++ (value ++ after) := by
      rw [isData, DhcpItem.bytes]
      simp
    rw [optLoop, if_pos (by omega), read_byte isData rfl, pure_bind]
    have first : u8At [code] 0 = code := rfl
    have second : u8At [.ofNat 8 value.length] 0 = .ofNat 8 value.length := rfl
    dsimp only
    rw [first, if_neg isCode.1, if_neg isCode.2, if_neg (by omega), read_byte size (by simp),
      pure_bind, second, isLength, if_neg (by omega), read_between text (by simp) rfl, pure_bind,
      length_append, DhcpItem.bytes, length_cons, length_cons, add_comm 2, DhcpItem.take]

theorem optLoop_items (items : List DhcpItem) (rest : Option (List U8))
    (isData : data = before ++ (items.flatMap DhcpItem.bytes ++ endBytes rest))
    (enough : items.length < fuel) :
    optLoop data data.length fuel before.length options =
      pure (items.foldl (fun options item => item.take options) options) := by
  obtain ⟨fuel, rfl⟩ := Nat.exists_eq_add_one_of_ne_zero (ne_zero_of_lt enough)
  induction items generalizing before fuel options with
  | nil => exact optLoop_end options rest isData
  | cons item items ih =>
    rw [flatMap_cons, append_assoc] at isData
    rw [length_cons] at enough
    obtain ⟨fuel, rfl⟩ := Nat.exists_eq_add_one_of_ne_zero (show fuel ≠ 0 by omega)
    rw [optLoop_item options item isData, foldl_cons]
    rw [← append_assoc] at isData
    exact ih (item.take options) isData fuel (by omega)

end Rounds

/-- Where a step sets a field to what the item tells, the last item that tells it counts. -/
theorem foldl_lastWins {State Item Value : Type} {step : State → Item → State}
    {field : State → Value} {told : Item → Option Value}
    (sets : ∀ state item, field (step state item) = (told item).getD (field state))
    (items : List Item) (state : State) :
    field (items.foldl step state) = (items.filterMap told).getLast?.getD (field state) := by
  induction items generalizing state with
  | nil => rfl
  | cons item items ih =>
    rw [foldl_cons, ih, sets, filterMap_cons]
    cases told item with
    | none => rfl
    | some value => rw [getLast?_cons, Option.getD_some, Option.getD_some]

theorem netHtonl_u32At (a b c d : U8) : netHtonl (u32At [a, b, c, d] 0) = a ++ b ++ c ++ d := by
  apply BitVec.eq_of_getLsbD_eq
  intro i isBit
  rw [getLsbD_netHtonl _ isBit]
  change (ofBytes 32 [a, b, c, d]).getLsbD _ = (a ++ b ++ c ++ d : BitVec (8 + 8 + 8 + 8)).getLsbD i
  rw [getLsbD_ofBytes, BitVec.getLsbD_append, BitVec.getLsbD_append, BitVec.getLsbD_append]
  interval_cases i <;> rfl

theorem bigEndian_eq (value : List U8) : bigEndian value =
    if value.length = 4 then some (netHtonl (u32At value 0)) else none := by
  rcases value with _ | ⟨a, _ | ⟨b, _ | ⟨c, _ | ⟨d, _ | ⟨e, value⟩⟩⟩⟩⟩
  case cons.cons.cons.cons.nil => rw [netHtonl_u32At]; rfl
  case cons.cons.cons.cons.cons => simp [bigEndian]
  all_goals rfl

theorem head?_eq_u8At (value : List U8) :
    value.head? = if 1 ≤ value.length then some (u8At value 0) else none := by
  cases value with
  | nil => rfl
  | cons byte value => simp [u8At]

theorem DhcpItem.take_eq (options : DhcpOptions) (item : DhcpItem) :
    item.take options = {
      msgtype := item.messageType.getD options.msgtype
      subnet := (item.address 1).getD options.subnet
      router := (item.address 3).getD options.router
      srv := (item.address 54).getD options.srv } := by
  cases item with
  | pad => rfl
  | option code value isCode short =>
    simp only [take, DhcpOptions.take, messageType, address, bigEndian_eq, head?_eq_u8At]
    split_ifs <;> simp_all

/-- The options are read back as they were written, with 0 for those that are missing. -/
theorem opt_parse_decodes (header : Fin 240 → U8) (items : List DhcpItem)
    (rest : Option (List U8)) :
    let data := ofFn header ++ (items.flatMap DhcpItem.bytes ++ endBytes rest)
    optParse data data.length =
      pure {
        msgtype := (items.filterMap DhcpItem.messageType).getLast?.getD 0
        subnet := (items.filterMap (DhcpItem.address 1)).getLast?.getD 0
        router := (items.filterMap (DhcpItem.address 3)).getLast?.getD 0
        srv := (items.filterMap (DhcpItem.address 54)).getLast?.getD 0 } := by
  intro data
  have few : items.length ≤ (items.flatMap DhcpItem.bytes).length := by
    induction items with
    | nil => exact Nat.zero_le _
    | cons item items ih =>
      have some : 1 ≤ item.bytes.length := by cases item <;> exact Nat.succ_pos _
      rw [flatMap_cons, length_append, length_cons]
      omega
  have isData : data.length = 240 + ((items.flatMap DhcpItem.bytes).length +
      (endBytes rest).length) := by
    rw [length_append, length_ofFn, length_append]
  have loop := optLoop_items { msgtype := 0, subnet := 0, router := 0, srv := 0 } items rest
    (rfl : data = _) (show items.length < data.length + 1 by omega)
  rw [length_ofFn] at loop
  rw [optParse, loop]
  congr 1
  have sets {Value : Type} (field : DhcpOptions → Value) (options : DhcpOptions)
      (item : DhcpItem) :=
    congrArg field (DhcpItem.take_eq options item)
  rw [DhcpOptions.mk.injEq]
  exact ⟨foldl_lastWins (sets DhcpOptions.msgtype) .., foldl_lastWins (sets DhcpOptions.subnet) ..,
    foldl_lastWins (sets DhcpOptions.router) .., foldl_lastWins (sets DhcpOptions.srv) ..⟩

end XKern.Net
