import XKern.NetStack

namespace XKern.Net

open PackedBytes List

/-!
# Layouts of the headers

A header is found again in its bytes, whatever follows them.  The fields are looked up
by their offsets, so that each part of the bytes in front of a field is skipped.
-/

section Fields

variable {first : List U8} {offset : Nat}

section

variable (behind : first.length ≤ offset) (second : List U8)

include behind second

theorem u8At_append_right : u8At (first ++ second) offset = u8At second (offset - first.length) :=
  getD_append_right _ _ _ _ behind

theorem u16At_append_right :
    u16At (first ++ second) offset = u16At second (offset - first.length) := by
  rw [u16At, part_append_right behind, u16At]

theorem u32At_append_right :
    u32At (first ++ second) offset = u32At second (offset - first.length) := by
  rw [u32At, part_append_right behind, u32At]

theorem macAt_append_right :
    macAt (first ++ second) offset = macAt second (offset - first.length) := by
  funext i
  rw [macAt, getD_append_right _ _ _ _ (by omega), Nat.sub_add_comm behind, macAt]

end

theorem u8At_singleton (byte : U8) (rest : List U8) : u8At ([byte] ++ rest) 0 = byte :=
  rfl

theorem part_front {count : Nat} (length : first.length = count) (second : List U8) :
    part (first ++ second) 0 count = first := by
  rw [part_append_left (by omega), ← length, part_self]

theorem u16At_toBytes (word : U16) (rest : List U8) : u16At (toBytes 2 word ++ rest) 0 = word := by
  rw [u16At, part_front (length_toBytes 2 word), ofBytes_toBytes (by decide)]

theorem u32At_toBytes (word : U32) (rest : List U8) : u32At (toBytes 4 word ++ rest) 0 = word := by
  rw [u32At, part_front (length_toBytes 4 word), ofBytes_toBytes (by decide)]

theorem macAt_ofFn (mac : Mac) (rest : List U8) : macAt (ofFn mac ++ rest) 0 = mac := by
  funext i
  have inside : 0 + i.val < (ofFn mac).length := by
    rw [length_ofFn]
    omega
  rw [macAt, getD_append _ _ _ _ inside, getD_eq_getElem _ _ inside, List.getElem_ofFn]
  congr 1
  exact Fin.ext (zero_add _)

theorem u16At_toBytes_self (word : U16) : u16At (toBytes 2 word) 0 = word := by
  have found := u16At_toBytes word []
  rwa [append_nil] at found

theorem u32At_toBytes_self (word : U32) : u32At (toBytes 4 word) 0 = word := by
  have found := u32At_toBytes word []
  rwa [append_nil] at found

end Fields

theorem EthHdr.ofBytes_bytes (h : EthHdr) : EthHdr.ofBytes h.bytes = h := by
  cases h
  simp (disch := simp) only [EthHdr.ofBytes, EthHdr.bytes, macAt_append_right, u16At_append_right,
    macAt_ofFn, u16At_toBytes_self, length_ofFn, Nat.reduceSub, Nat.sub_self]

theorem Ipv4Hdr.ofBytes_bytes (h : Ipv4Hdr) : Ipv4Hdr.ofBytes h.bytes = h := by
  cases h
  simp (disch := simp) only [Ipv4Hdr.ofBytes, Ipv4Hdr.bytes, u8At_append_right, u16At_append_right,
    u32At_append_right, u8At_singleton, u16At_toBytes, u32At_toBytes, u32At_toBytes_self,
    length_toBytes, length_singleton, Nat.reduceSub, Nat.sub_self]

end XKern.Net
