import Mathlib.Data.List.Basic

/-! Strings that are handed over as a pointer to their UTF-8 bytes, which a zero byte ends. -/

structure CString where
  bytes : List UInt8
  noZero : 0 ∉ bytes

namespace CString

def utf8 (s : String) : List UInt8 := s.toByteArray.data.toList

def ofString (s : String) : Option CString :=
  if h : 0 ∈ utf8 s then none else some ⟨utf8 s, h⟩

/-- What lies behind the pointer. -/
def memory (c : CString) : List UInt8 := c.bytes ++ [0]

/-- The bytes of the string that is read from a pointer. -/
def fromPtr (memory : List UInt8) : List UInt8 := memory.takeWhile (· != 0)

def toStr (bytes : List UInt8) : Option String := String.fromUTF8? bytes.toByteArray

theorem zero_mem_utf8EncodeChar {c : Char} : 0 ∈ String.utf8EncodeChar c ↔ c = '\x00' := by
  have hbyte : ∀ n : Nat, (0 : UInt8) = UInt8.ofNat n ↔ n % 256 = 0 := by
    intro n
    rw [← UInt8.toNat_inj, UInt8.toNat_ofNat']
    exact eq_comm
  have hval : c = '\x00' ↔ c.val.toNat = 0 := by
    rw [← Char.toNat_inj]
    rfl
  rw [hval]
  fun_cases String.utf8EncodeChar c
  all_goals
    simp only [List.mem_cons, List.not_mem_nil, or_false, hbyte]
    omega

theorem utf8_eq (s : String) : utf8 s = s.toList.flatMap String.utf8EncodeChar := by
  rw [utf8, ← String.utf8Encode_toList]
  exact List.toList_data_toByteArray

theorem zero_mem_utf8 {s : String} : 0 ∈ utf8 s ↔ '\x00' ∈ s.toList := by
  rw [utf8_eq, List.mem_flatMap]
  constructor
  · rintro ⟨c, hc, hzero⟩
    rwa [zero_mem_utf8EncodeChar.1 hzero] at hc
  · exact fun h => ⟨_, h, zero_mem_utf8EncodeChar.2 rfl⟩

theorem ofString_eq_none {s : String} : ofString s = none ↔ '\x00' ∈ s.toList := by
  rw [← zero_mem_utf8, ofString]
  constructor
  · intro h
    by_contra hnot
    rw [dif_neg hnot] at h
    cases h
  · exact fun h => dif_pos h

theorem ofString_bytes {s : String} {c : CString} (h : ofString s = some c) :
    c.bytes = utf8 s := by
  rw [ofString] at h
  split at h
  · cases h
  · cases h
    rfl

@[simp] theorem fromPtr_memory (c : CString) : fromPtr c.memory = c.bytes := by
  have hnot : ∀ b ∈ c.bytes, (b != 0) = true := by
    intro b hb
    rw [bne_iff_ne]
    exact fun he => c.noZero (he ▸ hb)
  rw [fromPtr, memory, List.takeWhile_append_of_pos hnot]
  simp

theorem toStr_utf8 (s : String) : toStr (utf8 s) = some s := by
  have hbytes : (utf8 s).toByteArray = s.toByteArray :=
    ByteArray.ext (Array.toList_inj.1 List.toList_data_toByteArray)
  rw [toStr, hbytes, String.fromUTF8?, dif_pos s.isValidUTF8]
  exact congrArg some (String.toByteArray_inj.1 rfl)

/-- A string that can be handed over is read as it was. -/
theorem toStr_fromPtr {s : String} {c : CString} (h : ofString s = some c) :
    toStr (fromPtr c.memory) = some s := by
  rw [fromPtr_memory, ofString_bytes h, toStr_utf8]

end CString
