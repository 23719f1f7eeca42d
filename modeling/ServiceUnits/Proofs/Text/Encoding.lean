import Mathlib.Tactic.IntervalCases
import ServiceUnits.Proofs.Text.Cutting
import ServiceUnits.Text.Utf8

namespace ServiceUnits.Text

/-- The byte that goes on with a character, by the six bits that it holds of it. -/
def continuation (k : Nat) : UInt8 := .ofNat (k + 128)

variable {b : UInt8} {bs : Bytes} {j k n v value : Nat} {c : Char} {s t : String}

theorem toNat_continuation (h : k < 64) : (continuation k).toNat = k + 128 := by
  rw [continuation, UInt8.toNat_ofNat', Nat.mod_eq_of_lt (by omega)]

theorem isContinuation_continuation (h : k < 64) : isContinuation (continuation k) = true := by
  rw [isContinuation, Bool.and_eq_true, decide_eq_true_eq, decide_eq_true_eq,
    UInt8.le_iff_toNat_le, UInt8.le_iff_toNat_le, toNat_continuation h]
  exact ⟨Nat.le_add_left 128 k, Nat.add_le_add_right (Nat.le_of_lt_succ h) 128⟩

theorem takeContinuations_continuation (h : k < 64)
    (hmore : takeContinuations n (value * 64 + k) bs = (some v, j)) :
    takeContinuations (n + 1) value (continuation k :: bs) = (some v, j + 1) := by
  rw [takeContinuations, if_pos (isContinuation_continuation h), toNat_continuation h,
    Nat.add_sub_cancel, hmore]

theorem takeChar_ascii (h : k < 128) : takeChar (.ofNat k) bs = (some (.ofNat k), 0) := by
  have hk : (UInt8.ofNat k).toNat = k := by
    rw [UInt8.toNat_ofNat', Nat.mod_eq_of_lt (by omega)]
  have hascii : UInt8.ofNat k < 0x80 := by
    rw [UInt8.lt_iff_toNat_lt, hk]
    exact h
  rw [takeChar, if_pos hascii, hk]

/-- A byte that a longer character starts with. -/
structure Leads (b : UInt8) (l : Lead) : Prop where
  not_ascii : ¬ b < 0x80
  lead : lead? b = some l

/-- The first two bytes of a character are taken, and then as many as the first one says. -/
theorem Leads.takeChar_eq {l : Lead} (h : Leads b l) (hk : k < 64) (hlow : l.low.toNat ≤ k + 128)
    (hhigh : k + 128 ≤ l.high.toNat)
    (hmore : takeContinuations l.more (l.bits * 64 + k) bs = (some v, j)) :
    takeChar b (continuation k :: bs) = (some (.ofNat v), j + 1) := by
  have hrange : (l.low ≤ continuation k && continuation k ≤ l.high) = true := by
    rw [Bool.and_eq_true, decide_eq_true_eq, decide_eq_true_eq, UInt8.le_iff_toNat_le,
      UInt8.le_iff_toNat_le, toNat_continuation hk]
    exact ⟨hlow, hhigh⟩
  rw [takeChar, if_neg h.not_ascii, h.lead]
  simp only [if_pos hrange, toNat_continuation hk, Nat.add_sub_cancel, hmore, Option.map_some]

theorem leads_two (h : 2 ≤ k) (h' : k < 32) : Leads (.ofNat (k + 192)) ⟨k, 0x80, 0xBF, 0⟩ := by
  interval_cases k <;> exact ⟨by decide, rfl⟩

theorem leads_three (h : k < 16) : Leads (.ofNat (k + 224))
    ⟨k, if k = 0 then 0xA0 else 0x80, if k = 13 then 0x9F else 0xBF, 1⟩ := by
  interval_cases k <;> exact ⟨by decide, rfl⟩

theorem leads_four (h : k < 5) : Leads (.ofNat (k + 240))
    ⟨k, if k = 0 then 0x90 else 0x80, if k = 4 then 0x8F else 0xBF, 2⟩ := by
  interval_cases k <;> exact ⟨by decide, rfl⟩

theorem takeChar_two (h : 128 ≤ v) (h' : v < 2048) :
    takeChar (.ofNat (v / 64 % 32 + 192)) (continuation (v % 64) :: bs) =
      (some (.ofNat v), 1) := by
  refine (leads_two (by omega) (by omega)).takeChar_eq (by omega) ?_ ?_ ?_
  · exact (by omega : 128 ≤ v % 64 + 128)
  · exact (by omega : v % 64 + 128 ≤ 191)
  · have hv : v / 64 % 32 * 64 + v % 64 = v := by omega
    rw [takeContinuations, hv]

/-- What is too short for three bytes, and the surrogates, are kept out by the second byte. -/
theorem takeChar_three (h : 2048 ≤ v) (h' : v < 65536) (hvalid : v < 0xD800 ∨ 0xDFFF < v) :
    takeChar (.ofNat (v / 4096 % 16 + 224))
      (continuation (v / 64 % 64) :: continuation (v % 64) :: bs) = (some (.ofNat v), 2) := by
  refine (leads_three (by omega)).takeChar_eq (by omega) ?_ ?_ ?_
  · dsimp only
    split
    · exact (by omega : 160 ≤ v / 64 % 64 + 128)
    · exact (by omega : 128 ≤ v / 64 % 64 + 128)
  · dsimp only
    split
    · exact (by omega : v / 64 % 64 + 128 ≤ 159)
    · exact (by omega : v / 64 % 64 + 128 ≤ 191)
  · have hv : (v / 4096 % 16 * 64 + v / 64 % 64) * 64 + v % 64 = v := by omega
    exact takeContinuations_continuation (by omega) (by rw [takeContinuations, hv])

theorem takeChar_four (h : 65536 ≤ v) (h' : v < 0x110000) :
    takeChar (.ofNat (v / 262144 % 8 + 240)) (continuation (v / 4096 % 64) ::
      continuation (v / 64 % 64) :: continuation (v % 64) :: bs) = (some (.ofNat v), 3) := by
  refine (leads_four (by omega)).takeChar_eq (by omega) ?_ ?_ ?_
  · dsimp only
    split
    · exact (by omega : 144 ≤ v / 4096 % 64 + 128)
    · exact (by omega : 128 ≤ v / 4096 % 64 + 128)
  · dsimp only
    split
    · exact (by omega : v / 4096 % 64 + 128 ≤ 143)
    · exact (by omega : v / 4096 % 64 + 128 ≤ 191)
  · have hv : ((v / 262144 % 8 * 64 + v / 4096 % 64) * 64 + v / 64 % 64) * 64 + v % 64 = v := by
      omega
    exact takeContinuations_continuation (by omega)
      (takeContinuations_continuation (by omega) (by rw [takeContinuations, hv]))

/-- The bytes that a character is written in are read as this character, whatever follows them. -/
theorem exists_takeChar (c : Char) (bs : Bytes) : ∃ b rest,
    String.utf8EncodeChar c = b :: rest ∧ takeChar b (rest ++ bs) = (some c, rest.length) := by
  obtain ⟨v, hv⟩ : ∃ v, c.val.toNat = v := ⟨_, rfl⟩
  have hc : Char.ofNat v = c := hv ▸ Char.ofNat_toNat c
  have hvalid : v < 0xD800 ∨ 0xDFFF < v ∧ v < 0x110000 := hv ▸ c.valid
  rw [String.utf8EncodeChar.eq_def, hv]
  dsimp only
  split
  · exact ⟨_, _, rfl, (takeChar_ascii (by omega)).trans (by rw [hc]; rfl)⟩
  · split
    · exact ⟨_, _, rfl, (takeChar_two (by omega) (by omega)).trans (by rw [hc]; rfl)⟩
    · split
      · exact ⟨_, _, rfl, (takeChar_three (by omega) (by omega) (by omega)).trans (by rw [hc]; rfl)⟩
      · exact ⟨_, _, rfl, (takeChar_four (by omega) (by omega)).trans (by rw [hc]; rfl)⟩

theorem encode_cons (c : Char) (cs : List Char) :
    encode (c :: cs) = String.utf8EncodeChar c ++ encode cs := List.flatMap_cons

theorem encode_append (as bs : List Char) : encode (as ++ bs) = encode as ++ encode bs :=
  List.flatMap_append

/-- Nothing is read of the bytes that were taken before. -/
theorem decodeFrom_append (taken bs : Bytes) :
    decodeFrom taken.length (taken ++ bs) = decodeFrom 0 bs := by
  induction taken with
  | nil => rfl
  | cons b taken ih => rw [List.length_cons, List.cons_append, decodeFrom, ih]

theorem decodeChars_encode (cs : List Char) : decodeChars (encode cs) = cs.map some := by
  induction cs with
  | nil => rfl
  | cons c cs ih =>
    obtain ⟨b, rest, hbytes, htake⟩ := exists_takeChar c (encode cs)
    rw [decodeChars] at ih
    rw [encode_cons, hbytes, List.cons_append, decodeChars, decodeFrom, htake, decodeFrom_append,
      ih, List.map_cons]

/-- The bytes of a text are read as the text. -/
theorem lossy_utf8 (s : String) : lossy (utf8 s) = s := by
  have hchars : (s.toList.map some).map (·.getD replacement) = s.toList := by
    rw [List.map_map]
    exact List.map_id _
  rw [lossy, utf8, decodeChars_encode, hchars, String.ofList_toList]

theorem utf8_injective : Function.Injective utf8 := Function.LeftInverse.injective lossy_utf8

theorem encode_injective : Function.Injective encode := by
  intro as bs h
  rw [← String.toList_ofList (l := as), ← String.toList_ofList (l := bs)] at h ⊢
  rw [utf8_injective h]

/-- The bytes of a character that is not in ASCII are none of ASCII. -/
theorem le_toNat_of_mem_utf8EncodeChar (hc : 128 ≤ c.val.toNat)
    (h : b ∈ String.utf8EncodeChar c) : 128 ≤ b.toNat := by
  rw [String.utf8EncodeChar.eq_def] at h
  dsimp only at h
  rw [if_neg (by omega)] at h
  split at h
  · simp only [List.mem_cons, List.not_mem_nil, or_false] at h
    rcases h with rfl | rfl <;> rw [UInt8.toNat_ofNat'] <;> omega
  · split at h
    · simp only [List.mem_cons, List.not_mem_nil, or_false] at h
      rcases h with rfl | rfl | rfl <;> rw [UInt8.toNat_ofNat'] <;> omega
    · simp only [List.mem_cons, List.not_mem_nil, or_false] at h
      rcases h with rfl | rfl | rfl | rfl <;> rw [UInt8.toNat_ofNat'] <;> omega

theorem utf8EncodeChar_ascii (h : c.val.toNat < 128) :
    String.utf8EncodeChar c = [.ofNat c.val.toNat] := by
  rw [String.utf8EncodeChar.eq_def]
  exact if_pos (Nat.le_of_lt_succ h)

/-- Only the bytes of a sign of ASCII have its byte in them. -/
theorem not_mem_utf8EncodeChar {sign : Char} (hsign : sign.val.toNat < 128) (h : c ≠ sign) :
    UInt8.ofNat sign.val.toNat ∉ String.utf8EncodeChar c := by
  have hnat : (UInt8.ofNat sign.val.toNat).toNat = sign.val.toNat := by
    rw [UInt8.toNat_ofNat', Nat.mod_eq_of_lt (by omega)]
  intro hmem
  by_cases hc : c.val.toNat < 128
  · rw [utf8EncodeChar_ascii hc, List.mem_singleton] at hmem
    have hsame := congrArg UInt8.toNat hmem
    rw [hnat, UInt8.toNat_ofNat', Nat.mod_eq_of_lt (by omega)] at hsame
    exact h (Char.ext (UInt32.toNat_inj.1 hsame.symm))
  · have hlong := le_toNat_of_mem_utf8EncodeChar (Nat.not_lt.1 hc) hmem
    omega

end ServiceUnits.Text
