import Mathlib.Data.List.Nodup
import PetProject.Foundation.BlockCode
import PetProject.Foundation.FixedWidth
import PetProject.Foundation.TextSearch
import PetProject.Workers.Model

/-!
# Identifiers of songs

`uuid::CUUIDGenerator` of `filewatch_daemon/src/CUUIDGenerator.cpp`. The system's identifier, the
clock, the random indices, the shuffle and MD5 come from outside (`UuidSources`); `getNewUUID` puts
the requested pieces together and returns their MD5 digest in upper-case hexadecimal digits, or a
string of the requested length when that is longer than a digest.

The result has the larger of the two lengths. A digest is written as a block code of its bytes, so
equal results of that kind come from equal digests; a longer result is a string over the template
(`getNewUUID_format`).
-/

set_option autoImplicit false

namespace PetProject.Watch

open PetProject.Foundation.TextSearch PetProject.Foundation.BlockCode
open PetProject.Foundation.FixedWidth PetProject.Workers

/-- `getTemplateString`. -/
def getTemplateString : Text :=
  "0123456789abcdefghijklmnopqrstuvwxyzABCDEFGHIJKLMNOPQRSTUVWXYZ".toList

/-- `MD5_DIGEST_LENGTH`. -/
def MD5_DIGEST_LENGTH : Nat := 16

/-- `DEFAULT_UUID_STRING_LEN`. -/
def DEFAULT_UUID_STRING_LEN : Nat := 2 * MD5_DIGEST_LENGTH

/-- `SIZE_OF_SYSTEM_UUID`. -/
def SIZE_OF_SYSTEM_UUID : Nat := 36

/-- MD5, as a function to the bytes of a digest. -/
abbrev MD5 := Text → Vector UInt8 16

/-- What one call of `getNewUUID` gets from outside. -/
structure UuidSources where
  /-- The characters that `uuid_unparse` stores. -/
  systemUUID : Vector Char SIZE_OF_SYSTEM_UUID
  /-- The indices that `rndIndex` yields, in order. -/
  rndIndex : Nat → Fin 62
  /-- The microseconds since the epoch. -/
  now : Nat
  /-- The effect of `std::random_shuffle`. -/
  shuffle : Text → Text
  shuffle_perm : ∀ s, (shuffle s).Perm s

/-! ## The generator -/

def SYSTEM_GENERATOR : UInt64 := 1

def RANDOM_GENERATOR : UInt64 := 2

def TIME_GENERATOR : UInt64 := 8

def COMPLETE_GENERATOR : UInt64 := SYSTEM_GENERATOR ||| RANDOM_GENERATOR ||| TIME_GENERATOR

/-- `getRandomString` from the index `used` of the stream on. -/
def getRandomString (src : UuidSources) (used nLen : Nat) : Text :=
  (List.range nLen).map fun i => getTemplateString.getD (src.rndIndex (used + i)) '0'

/-- `getRandomSystemString`: the identifier without its hyphens. -/
def getRandomSystemString (src : UuidSources) : Text :=
  src.systemUUID.toList.filter fun c => c ≠ '-'

/-- `getCurrentTimeString`. -/
def getCurrentTimeString (src : UuidSources) : Text := decimal src.now

/-- The digits of `getMD5`. -/
def hexDigits : Text := "0123456789ABCDEF".toList

/-- The two digits of a byte. -/
def hexPair (hashChar : UInt8) : Text :=
  [hexDigits.getD (hashChar.toNat / 16) '0', hexDigits.getD (hashChar.toNat % 16) '0']

def getMD5 (md5 : MD5) (strSource : Text) : Text := (md5 strSource).toList.flatMap hexPair

/-- The string that `getNewUUID` puts together before it fixes the length. -/
def uuidSource (src : UuidSources) (uuidType : UInt64) (nRequiredLen : Nat) : Text :=
  (if uuidType &&& SYSTEM_GENERATOR ≠ 0 then getRandomSystemString src else []) ++
    ((if uuidType &&& RANDOM_GENERATOR ≠ 0 then getRandomString src 0 nRequiredLen else []) ++
      if uuidType &&& TIME_GENERATOR ≠ 0 then getCurrentTimeString src else [])

def getNewUUID (md5 : MD5) (src : UuidSources) (uuidType : UInt64) (nRequiredLen : Nat) : Text :=
  let sUUID := uuidSource src uuidType nRequiredLen
  if DEFAULT_UUID_STRING_LEN < nRequiredLen then
    if nRequiredLen = sUUID.length then sUUID
    else if sUUID.length < nRequiredLen then
      -- the stream goes on behind the indices used for `sUUID`
      let used := if uuidType &&& RANDOM_GENERATOR ≠ 0 then nRequiredLen else 0
      sUUID ++ getRandomString src used (nRequiredLen - sUUID.length)
    else (src.shuffle sUUID).take nRequiredLen
  else getMD5 md5 sUUID

/-- `getNewUUID()` with its default arguments. -/
def getDefaultUUID (md5 : MD5) (src : UuidSources) : Text :=
  getNewUUID md5 src COMPLETE_GENERATOR DEFAULT_UUID_STRING_LEN

/-! ## Hexadecimal digests -/

/-- A string of thirty-two upper-case hexadecimal digits. -/
def IsUID (s : Text) : Prop := s.length = 32 ∧ ∀ c ∈ s, c ∈ hexDigits

theorem length_hexDigits : hexDigits.length = 16 := by decide

theorem getD_hexDigits {n : Nat} (h : n < hexDigits.length) : hexDigits.getD n '0' = hexDigits[n] :=
  List.getD_eq_getElem _ _ h

theorem getD_hexDigits_mem {n : Nat} (h : n < 16) : hexDigits.getD n '0' ∈ hexDigits := by
  rw [getD_hexDigits (length_hexDigits ▸ h)]
  exact List.getElem_mem _

theorem getD_hexDigits_inj {n m : Nat} (hn : n < 16) (hm : m < 16)
    (h : hexDigits.getD n '0' = hexDigits.getD m '0') : n = m := by
  have hnodup : hexDigits.Nodup := by decide
  rw [getD_hexDigits (length_hexDigits ▸ hn), getD_hexDigits (length_hexDigits ▸ hm)] at h
  exact hnodup.getElem_inj_iff.mp h

/-- The halves of a byte are less than sixteen. -/
theorem halves_lt (b : UInt8) : b.toNat / 16 < 16 ∧ b.toNat % 16 < 16 := by
  have hb : b.toNat < 256 := b.toNat_lt
  omega

theorem mem_hexPair {b : UInt8} {c : Char} (h : c ∈ hexPair b) : c ∈ hexDigits := by
  obtain ⟨hhigh, hlow⟩ := halves_lt b
  simp only [hexPair, List.mem_cons, List.not_mem_nil, or_false] at h
  rcases h with rfl | rfl
  · exact getD_hexDigits_mem hhigh
  · exact getD_hexDigits_mem hlow

/-- Different bytes have different digits. -/
theorem isBlockCode_hexPair : IsBlockCode hexPair 2 where
  length_eq _ := rfl
  injective a b h := by
    obtain ⟨hhigh, hlow⟩ := halves_lt a
    obtain ⟨hhigh', hlow'⟩ := halves_lt b
    simp only [hexPair, List.cons.injEq, and_true] at h
    have hhalves := getD_hexDigits_inj hhigh hhigh' h.1
    have hrests := getD_hexDigits_inj hlow hlow' h.2
    exact UInt8.toNat_inj.mp (by omega)

theorem isUID_getMD5 (md5 : MD5) (s : Text) : IsUID (getMD5 md5 s) := by
  constructor
  · rw [getMD5, isBlockCode_hexPair.length_flatMap, Vector.length_toList]
  · intro c hc
    obtain ⟨b, -, hcb⟩ := List.mem_flatMap.mp hc
    exact mem_hexPair hcb

/-- The digits determine the digest. -/
theorem getMD5_inj {md5 : MD5} {s s' : Text} : getMD5 md5 s = getMD5 md5 s' ↔ md5 s = md5 s' := by
  rw [getMD5, getMD5, isBlockCode_hexPair.flatMap_inj Nat.two_pos]
  exact Vector.toList_inj

theorem getDefaultUUID_eq (md5 : MD5) (src : UuidSources) :
    getDefaultUUID md5 src =
      getMD5 md5 (uuidSource src COMPLETE_GENERATOR DEFAULT_UUID_STRING_LEN) := by
  unfold getDefaultUUID getNewUUID
  rw [if_neg (by decide : ¬ DEFAULT_UUID_STRING_LEN < DEFAULT_UUID_STRING_LEN)]

theorem isUID_getDefaultUUID (md5 : MD5) (src : UuidSources) :
    IsUID (getDefaultUUID md5 src) := by
  rw [getDefaultUUID_eq]
  exact isUID_getMD5 md5 _

/-! ## Length and alphabet -/

/-- The hexadecimal digits of both cases. -/
def xdigits : Text := "0123456789abcdefABCDEF".toList

/-- `uuid_unparse` has stored hexadecimal digits and hyphens. -/
def UuidSources.Unparsed (src : UuidSources) : Prop :=
  ∀ c ∈ src.systemUUID.toList, c ∈ xdigits ∨ c = '-'

theorem length_getTemplateString : getTemplateString.length = 62 := by decide

theorem getD_getTemplateString_mem (i : Fin 62) :
    getTemplateString.getD i '0' ∈ getTemplateString := by
  have hlt : (i : Nat) < getTemplateString.length := by
    rw [length_getTemplateString]
    exact i.isLt
  rw [List.getD_eq_getElem _ _ hlt]
  exact List.getElem_mem _

section Generator

variable {src : UuidSources} {uuidType : UInt64} {nRequiredLen : Nat} {c : Char}

theorem length_getRandomString (src : UuidSources) (used nLen : Nat) :
    (getRandomString src used nLen).length = nLen := by
  rw [getRandomString, List.length_map, List.length_range]

theorem mem_getRandomString {used nLen : Nat} (h : c ∈ getRandomString src used nLen) :
    c ∈ getTemplateString := by
  obtain ⟨i, -, rfl⟩ := List.mem_map.mp h
  exact getD_getTemplateString_mem _

theorem mem_getRandomSystemString (hsrc : src.Unparsed) (h : c ∈ getRandomSystemString src) :
    c ∈ getTemplateString := by
  have hdigits : (xdigits.all fun d => d ∈ getTemplateString) = true := by decide +kernel
  obtain ⟨hmem, hc⟩ := List.mem_filter.mp h
  rcases hsrc c hmem with hdigit | rfl
  · exact of_decide_eq_true (List.all_eq_true.mp hdigits c hdigit)
  · -- the hyphens are erased
    exact absurd hc (by decide)

/-- The decimal digits are the first characters of the template. -/
theorem isDigit_mem_template (h : c.isDigit = true) : c ∈ getTemplateString := by
  have hdigits : ∀ n < 10, Char.ofNat (48 + n) ∈ getTemplateString := by decide +kernel
  obtain ⟨hlow, hhigh⟩ := digit_bounds h
  have hchar : Char.ofNat (48 + (c.toNat - 48)) = c := by
    rw [Nat.add_sub_cancel' hlow]
    exact Char.ofNat_toNat c
  rw [← hchar]
  exact hdigits _ (by omega)

theorem mem_getCurrentTimeString (h : c ∈ getCurrentTimeString src) : c ∈ getTemplateString :=
  isDigit_mem_template (Nat.isDigit_of_mem_toDigits (by decide) (by decide) h)

/-- Every piece is over the template. -/
theorem mem_uuidSource (hsrc : src.Unparsed) (h : c ∈ uuidSource src uuidType nRequiredLen) :
    c ∈ getTemplateString := by
  have hpiece : ∀ (p : Prop) [Decidable p] (s : Text), c ∈ (if p then s else []) → c ∈ s := by
    intro p _ s hmem
    split at hmem
    · exact hmem
    · cases hmem
  rcases List.mem_append.mp h with hsystem | hrest
  · exact mem_getRandomSystemString hsrc (hpiece _ _ hsystem)
  · rcases List.mem_append.mp hrest with hrandom | htime
    · exact mem_getRandomString (hpiece _ _ hrandom)
    · exact mem_getCurrentTimeString (hpiece _ _ htime)

/-- Up to the length of a digest the result is one. -/
theorem getNewUUID_of_le (md5 : MD5) (h : nRequiredLen ≤ DEFAULT_UUID_STRING_LEN) :
    getNewUUID md5 src uuidType nRequiredLen =
      getMD5 md5 (uuidSource src uuidType nRequiredLen) := by
  rw [getNewUUID, if_neg (Nat.not_lt.mpr h)]

/-- What is longer than a digest: the pieces, padded or shuffled and cut. -/
theorem getNewUUID_of_lt (md5 : MD5) (h : DEFAULT_UUID_STRING_LEN < nRequiredLen) :
    (getNewUUID md5 src uuidType nRequiredLen).length = nRequiredLen ∧
      (src.Unparsed → ∀ c ∈ getNewUUID md5 src uuidType nRequiredLen, c ∈ getTemplateString) := by
  rw [getNewUUID, if_pos h]
  by_cases heq : nRequiredLen = (uuidSource src uuidType nRequiredLen).length
  · rw [if_pos heq]
    exact ⟨heq.symm, fun hsrc c hc => mem_uuidSource hsrc hc⟩
  · rw [if_neg heq]
    by_cases hshort : (uuidSource src uuidType nRequiredLen).length < nRequiredLen
    · rw [if_pos hshort]
      refine ⟨?_, fun hsrc c hc => ?_⟩
      · rw [List.length_append, length_getRandomString]
        exact Nat.add_sub_cancel' (Nat.le_of_lt hshort)
      · rcases List.mem_append.mp hc with hold | htail
        · exact mem_uuidSource hsrc hold
        · exact mem_getRandomString htail
    · rw [if_neg hshort]
      have hperm := src.shuffle_perm (uuidSource src uuidType nRequiredLen)
      refine ⟨?_, fun hsrc c hc => ?_⟩
      · rw [List.length_take, hperm.length_eq]
        exact Nat.min_eq_left (Nat.le_of_not_lt hshort)
      · exact mem_uuidSource hsrc (hperm.mem_iff.mp (List.mem_of_mem_take hc))

end Generator

/-- For every mask and length and whatever comes from outside: the result has the larger of the
required length and that of a digest. Up to the latter it consists of upper-case hexadecimal digits,
and two such results are equal exactly if the digests of their sources are; beyond it every
character is one of the template. -/
theorem getNewUUID_format (md5 : MD5) {src : UuidSources} (hsrc : src.Unparsed) (uuidType : UInt64)
    (nRequiredLen : Nat) :
    (getNewUUID md5 src uuidType nRequiredLen).length =
      max DEFAULT_UUID_STRING_LEN nRequiredLen ∧
    (nRequiredLen ≤ DEFAULT_UUID_STRING_LEN →
      (∀ c ∈ getNewUUID md5 src uuidType nRequiredLen, c ∈ hexDigits) ∧
      ∀ (src' : UuidSources) (uuidType' : UInt64) (nRequiredLen' : Nat),
        nRequiredLen' ≤ DEFAULT_UUID_STRING_LEN →
        (getNewUUID md5 src uuidType nRequiredLen = getNewUUID md5 src' uuidType' nRequiredLen' ↔
          md5 (uuidSource src uuidType nRequiredLen) =
            md5 (uuidSource src' uuidType' nRequiredLen'))) ∧
    (DEFAULT_UUID_STRING_LEN < nRequiredLen →
      ∀ c ∈ getNewUUID md5 src uuidType nRequiredLen, c ∈ getTemplateString) := by
  refine ⟨?_, fun hle => ⟨?_, fun src' uuidType' nRequiredLen' hle' => ?_⟩, fun hlt => ?_⟩
  · rcases Nat.lt_or_ge DEFAULT_UUID_STRING_LEN nRequiredLen with hlt | hle
    · rw [(getNewUUID_of_lt md5 hlt).1, Nat.max_eq_right (Nat.le_of_lt hlt)]
    · rw [getNewUUID_of_le md5 hle, (isUID_getMD5 md5 _).1, Nat.max_eq_left hle]
      rfl
  · rw [getNewUUID_of_le md5 hle]
    exact (isUID_getMD5 md5 _).2
  · rw [getNewUUID_of_le md5 hle, getNewUUID_of_le md5 hle']
    exact getMD5_inj
  · exact (getNewUUID_of_lt md5 hlt).2 hsrc

/-! ## Concrete sources -/

/-- Sources whose system identifier repeats one character. -/
def repeatedSources (c : Char) : UuidSources where
  systemUUID := Vector.replicate SIZE_OF_SYSTEM_UUID c
  rndIndex _ := 0
  now := 1
  shuffle := id
  shuffle_perm s := List.Perm.refl s

/-- A digest that is the beginning of its source. -/
def headDigest : MD5 := fun s => Vector.ofFn fun i => UInt8.ofNat (s.getD i '0').toNat

/-- Sources with an identifier as `uuid_unparse` stores it. -/
def unparsedSources : UuidSources where
  systemUUID := ⟨"f81d4fae-7dec-11d0-a765-00a0c91e6bf6".toList.toArray, by decide⟩
  rndIndex _ := 10
  now := 1660000000123456
  shuffle := List.reverse
  shuffle_perm := List.reverse_perm

theorem unparsed_unparsedSources : unparsedSources.Unparsed := by
  have hall : (unparsedSources.systemUUID.toList.all fun c => c ∈ xdigits ∨ c = '-') = true := by
    decide +kernel
  exact fun c hc => of_decide_eq_true (List.all_eq_true.mp hall c hc)

/-- All three pieces, as a digest and shuffled and cut to forty characters. -/
theorem getNewUUID_format_unparsed :
    ((getNewUUID headDigest unparsedSources COMPLETE_GENERATOR 32).length = max 32 32 ∧
      (∀ c ∈ getNewUUID headDigest unparsedSources COMPLETE_GENERATOR 32, c ∈ hexDigits) ∧
      (getNewUUID headDigest unparsedSources COMPLETE_GENERATOR 32 =
          getNewUUID headDigest (repeatedSources '0') COMPLETE_GENERATOR 32 ↔
        headDigest (uuidSource unparsedSources COMPLETE_GENERATOR 32) =
          headDigest (uuidSource (repeatedSources '0') COMPLETE_GENERATOR 32))) ∧
    (getNewUUID headDigest unparsedSources COMPLETE_GENERATOR 40).length = max 32 40 ∧
      ∀ c ∈ getNewUUID headDigest unparsedSources COMPLETE_GENERATOR 40,
        c ∈ getTemplateString := by
  obtain ⟨hlength, hdigest, -⟩ :=
    getNewUUID_format headDigest unparsed_unparsedSources COMPLETE_GENERATOR 32
  obtain ⟨hlength', -, halphabet⟩ :=
    getNewUUID_format headDigest unparsed_unparsedSources COMPLETE_GENERATOR 40
  have hsame := (hdigest (by decide)).2 (repeatedSources '0') COMPLETE_GENERATOR 32 (by decide)
  exact ⟨⟨hlength, (hdigest (by decide)).1, hsame⟩, hlength', halphabet (by decide)⟩

end PetProject.Watch
