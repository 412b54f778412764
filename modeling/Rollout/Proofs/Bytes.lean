import Rollout.Bytes.Basic
import Rollout.Bytes.Sha256

/-!
# Texts as bytes

The bytes of a text are read as that text, also by a reader that puts up with any bytes, so they
tell it from all others. Every digest is written with the same number of bytes.
-/

namespace Rollout.Bytes

theorem toList_loop_eq (bytes : ByteArray) (i : Nat) (done : List UInt8) :
    ByteArray.toList.loop bytes i done = done.reverse ++ bytes.data.toList.drop i := by
  induction h : bytes.size - i generalizing i done with
  | zero =>
    have hend : bytes.data.toList.length ≤ i := by
      rw [Array.length_toList, ByteArray.size_data]
      omega
    rw [ByteArray.toList.loop, if_neg (by omega), List.drop_of_length_le hend, List.append_nil]
  | succ n ih =>
    have hlt : i < bytes.size := by omega
    have hinside : i < bytes.data.toList.length := by
      rw [Array.length_toList, ByteArray.size_data]
      exact hlt
    have hbyte : bytes.get! i = bytes.data.toList[i] := by simp [ByteArray.get!, hlt]
    rw [ByteArray.toList.loop, if_pos hlt, ih (i + 1) _ (by omega), List.reverse_cons,
      List.append_assoc, List.singleton_append, hbyte, ← List.drop_eq_getElem_cons]

theorem toList_eq (bytes : ByteArray) : bytes.toList = bytes.data.toList :=
  toList_loop_eq bytes 0 []

/-- The bytes of a text are those of its characters. -/
theorem ofText_ofList (cs : List Char) :
    ofText (String.ofList cs) = cs.flatMap String.utf8EncodeChar := by
  rw [ofText, String.toUTF8, toList_eq, String.toByteArray_ofList, List.utf8Encode]
  simp

theorem text?_ofText (s : String) : text? (ofText s) = some s := by
  have hbytes : ByteArray.mk (ofText s).toArray = s.toByteArray := by
    rw [ofText, String.toUTF8, toList_eq]
  rw [text?, hbytes, String.fromUTF8?, dif_pos s.isValidUTF8]
  rfl

theorem ofText_injective : Function.Injective ofText := by
  intro s t h
  have htexts := congrArg text? h
  rw [text?_ofText, text?_ofText] at htexts
  exact Option.some.inj htexts

/-! ### Reading UTF-8 back -/

section Utf8

variable {bits lacks : Nat} {low high : UInt8} {rest : Bytes}

theorem leadOf?_of_two : ∀ n < 30,
    leadOf? (UInt8.ofNat (n + 2 + 192)) = some (1, n + 2, 0x80, 0xbf) := by
  decide

theorem leadOf?_of_three : ∀ n < 16, leadOf? (UInt8.ofNat (n + 224)) =
    some (2, n, if n = 0 then 0xa0 else 0x80, if n = 13 then 0x9f else 0xbf) := by
  decide

theorem leadOf?_of_four : ∀ n < 5, leadOf? (UInt8.ofNat (n + 240)) =
    some (3, n, if n = 0 then 0x90 else 0x80, if n = 4 then 0x8f else 0xbf) := by
  decide

theorem toNat_ofNat_of_lt {n : Nat} (h : n < 256) : (UInt8.ofNat n).toNat = n := by
  rw [UInt8.toNat_ofNat', Nat.mod_eq_of_lt h]

/-- A byte that may begin no character alone begins the one that its lead announces. -/
theorem lenientChars_lead {n : Nat} (h : 128 ≤ n) (hn : n < 256)
    {lead : Nat × Nat × UInt8 × UInt8} (hlead : leadOf? (UInt8.ofNat n) = some lead) :
    lenientChars none (UInt8.ofNat n :: rest) = lenientChars (some lead) rest := by
  have hnot : ¬ UInt8.ofNat n < 0x80 := by
    rw [UInt8.lt_iff_toNat_lt, toNat_ofNat_of_lt hn]
    exact Nat.not_lt.mpr h
  rw [lenientChars, if_neg hnot, hlead]

/-- A byte within the bounds gives its six bits to the character that was begun. -/
theorem lenientChars_some {n : Nat} (h : n < 64) (hlow : low.toNat ≤ n + 128)
    (hhigh : n + 128 ≤ high.toNat) :
    lenientChars (some (lacks + 1, bits, low, high)) (UInt8.ofNat (n + 128) :: rest) =
      if lacks = 0 then Char.ofNat (bits * 64 + n) :: lenientChars none rest
      else lenientChars (some (lacks, bits * 64 + n, 0x80, 0xbf)) rest := by
  have hbyte : (UInt8.ofNat (n + 128)).toNat = n + 128 := toNat_ofNat_of_lt (by omega)
  have hin : (decide (low ≤ UInt8.ofNat (n + 128)) &&
      decide (UInt8.ofNat (n + 128) ≤ high)) = true := by
    rw [Bool.and_eq_true, decide_eq_true_eq, decide_eq_true_eq, UInt8.le_iff_toNat_le,
      UInt8.le_iff_toNat_le, hbyte]
    exact ⟨hlow, hhigh⟩
  have hsix : (n + 128) % 64 = n := by omega
  rw [lenientChars, if_pos hin, hbyte, hsix]
  cases lacks with
  | zero => rfl
  | succ lacks => rfl

/-- The bytes of a character are read as that character. -/
theorem lenientChars_utf8EncodeChar (c : Char) (rest : Bytes) :
    lenientChars none (String.utf8EncodeChar c ++ rest) = c :: lenientChars none rest := by
  have hvalid : c.toNat < 0xd800 ∨ 0xdfff < c.toNat ∧ c.toNat < 0x110000 := c.valid
  have hc : Char.ofNat c.toNat = c := Char.ofNat_toNat c
  have htoNat : c.val.toNat = c.toNat := rfl
  generalize hv : c.toNat = v at *
  rw [String.utf8EncodeChar, htoNat]
  by_cases h1 : v ≤ 127
  · have hlt : UInt8.ofNat v < 0x80 := by
      rw [UInt8.lt_iff_toNat_lt, toNat_ofNat_of_lt (by omega)]
      exact Nat.lt_succ_of_le h1
    rw [if_pos h1, List.singleton_append, lenientChars, if_pos hlt, toNat_ofNat_of_lt (by omega),
      hc]
  rw [if_neg h1]
  by_cases h2 : v ≤ 2047
  · obtain ⟨n, hn⟩ : ∃ n, v / 64 = n + 2 := ⟨v / 64 - 2, by omega⟩
    have hmod : v / 64 % 32 = n + 2 := by omega
    have hbits : (n + 2) * 64 + v % 64 = v := by omega
    rw [if_pos h2, List.cons_append, List.singleton_append, hmod,
      lenientChars_lead (by omega) (by omega) (leadOf?_of_two n (by omega)),
      lenientChars_some (by omega) (by simp) (by simp; omega), if_pos rfl, hbits, hc]
  rw [if_neg h2]
  by_cases h3 : v ≤ 65535
  · have hmod : v / 4096 % 16 = v / 4096 := by omega
    have hbits : (v / 4096 * 64 + v / 64 % 64) * 64 + v % 64 = v := by omega
    -- no character is encoded with a longer form than it needs, and none is half of a pair
    have hlow : (if v / 4096 = 0 then (0xa0 : UInt8) else 0x80).toNat ≤ v / 64 % 64 + 128 := by
      split
      · change 160 ≤ _
        omega
      · exact Nat.le_add_left 128 _
    have hhigh : v / 64 % 64 + 128 ≤ (if v / 4096 = 13 then (0x9f : UInt8) else 0xbf).toNat := by
      split
      · change _ ≤ 159
        omega
      · change _ ≤ 191
        omega
    rw [if_pos h3, List.cons_append, List.cons_append, List.singleton_append, hmod,
      lenientChars_lead (by omega) (by omega) (leadOf?_of_three _ (by omega)),
      lenientChars_some (by omega) hlow hhigh, if_neg Nat.one_ne_zero,
      lenientChars_some (by omega) (by simp) (by simp; omega), if_pos rfl, hbits, hc]
  · have hmod : v / 262144 % 8 = v / 262144 := by omega
    have hbits : ((v / 262144 * 64 + v / 4096 % 64) * 64 + v / 64 % 64) * 64 + v % 64 = v := by
      omega
    have hlow : (if v / 262144 = 0 then (0x90 : UInt8) else 0x80).toNat ≤
        v / 4096 % 64 + 128 := by
      split
      · change 144 ≤ _
        omega
      · exact Nat.le_add_left 128 _
    have hhigh : v / 4096 % 64 + 128 ≤
        (if v / 262144 = 4 then (0x8f : UInt8) else 0xbf).toNat := by
      split
      · change _ ≤ 143
        omega
      · change _ ≤ 191
        omega
    rw [if_neg h3, List.cons_append, List.cons_append, List.cons_append, List.singleton_append,
      hmod, lenientChars_lead (by omega) (by omega) (leadOf?_of_four _ (by omega)),
      lenientChars_some (by omega) hlow hhigh, if_neg (Nat.succ_ne_zero 1),
      lenientChars_some (by omega) (by simp) (by simp; omega), if_neg Nat.one_ne_zero,
      lenientChars_some (by omega) (by simp) (by simp; omega), if_pos rfl, hbits, hc]

theorem lenientText_ofText (s : String) : lenientText (ofText s) = s := by
  have hchars (cs : List Char) : lenientChars none (cs.flatMap String.utf8EncodeChar) = cs := by
    induction cs with
    | nil => rfl
    | cons c cs ih => rw [List.flatMap_cons, lenientChars_utf8EncodeChar, ih]
  rw [lenientText, ← String.ofList_toList (s := s), ofText_ofList, hchars]

end Utf8

namespace Sha256

theorem length_utf8EncodeChar_digitChar : ∀ n < 16,
    (String.utf8EncodeChar (Nat.digitChar n)).length = 1 := by
  decide +kernel

theorem length_hexWord (w : UInt32) : ((hexWord w).flatMap String.utf8EncodeChar).length = 8 := by
  have hone : ∀ c ∈ hexWord w, (String.utf8EncodeChar c).length = 1 := by
    intro c hc
    obtain ⟨i, -, rfl⟩ := List.mem_map.mp hc
    exact length_utf8EncodeChar_digitChar _ (Nat.mod_lt _ (by omega))
  have hlength : (hexWord w).length = 8 := by simp [hexWord]
  rw [List.length_flatMap, List.map_congr_left hone, List.map_const', hlength]
  rfl

/-- Eight bytes for each of eight words. -/
theorem length_hex (message : Bytes) : (ofText (hex message)).length = 64 := by
  rw [hex, ofText_ofList]
  simp only [List.flatMap_cons, List.flatMap_nil, List.flatMap_append, List.length_append,
    length_hexWord, List.length_nil]

end Sha256

end Rollout.Bytes
