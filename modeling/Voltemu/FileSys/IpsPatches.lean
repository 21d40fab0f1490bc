import Voltemu.FileSys.Ips

/-!
# What `PatchIPS` does with a patch

The loop is followed through the rest of the patch: `nextItem` says what stands at its front, and `round_spec` what a round does
with that.

* `Reaches`: the items that the loop arrives at, which depends on the input only through its size.
* A round stores outside of the input's copy exactly at an item that is not `Safe`: the end of the record is beyond 2³² and beyond
  the end of the input, so that the `u32` sum is small and nothing is clipped.
* A data record that is clipped lets `PatchIPS` fail: the bytes that are read are fewer than `data_size`.

`patchesRight_iff` puts the two together.
-/

namespace Voltemu.FileSys.Ips

open List Option Nat

/-- What stands at the front of the rest of a patch. -/
inductive Item
  | short
  | marker
  | cut
  | rle (offset length : ℕ) (value : Byte) (rest : List Byte)
  | data (offset length : ℕ) (payload rest : List Byte)

/-- What stands behind an offset and two zero bytes. -/
def rleItem (offset : ℕ) : (tail : List Byte) → Item
  | l0 :: l1 :: value :: rest => .rle offset (swap16 (loadU16 [l0, l1])) value rest
  | _ => .cut

def recordItem (offset : ℕ) : (body : List Byte) → Item
  | s0 :: s1 :: tail =>
      let length := swap16 (loadU16 [s0, s1])
      if length = 0 then rleItem offset tail else .data offset length (tail.take length) (tail.drop length)
  | _ => .cut

def nextItem (type : IPSFileType) (rest : List Byte) : Item :=
  let temp := rest.take (tempSize type)
  if temp.length ≠ tempSize type then .short
  else if isEOF type temp then .marker
  else recordItem (realOffset type temp) (rest.drop (tempSize type))

/-- The items that the loop arrives at in an input of a given size. -/
inductive Reaches (type : IPSFileType) (size : ℕ) : (rest : List Byte) → Item → Prop
  | here (rest) : Reaches type size rest (nextItem type rest)
  | rle {rest rest' offset length value item} (hitem : nextItem type rest = .rle offset length value rest')
      (hoffset : offset ≤ size) (h : Reaches type size rest' item) : Reaches type size rest item
  | data {rest rest' offset length payload item} (hitem : nextItem type rest = .data offset length payload rest')
      (hfits : offset + length ≤ size) (hpayload : payload.length = length) (h : Reaches type size rest' item) :
      Reaches type size rest item

/-- An item whose bytes do not go beyond both 2³² and the end of the input.  Of a data record only the bytes that the patch has
are stored. -/
def Item.Safe (size : ℕ) : Item → Prop
  | .rle offset length _ _ => offset ≤ size → offset + length < 2 ^ 32 ∨ offset + length ≤ size
  | .data offset length payload _ => offset ≤ size → offset + length < 2 ^ 32 ∨ offset + payload.length ≤ size
  | _ => True

variable {ips file : VfsFile} {bytes input inData temp rest : List Byte} {type : IPSFileType} {size offset length o : ℕ}

/-! ## Clipping -/

def clip (size offset length : ℕ) : ℕ := if (offset + length) % 2 ^ 32 > size then (size - offset) % 2 ^ 16 else length

lemma clip_of_fits (h : o + length ≤ size) : clip size o length = length := if_neg (by omega)

lemma clip_of_wrap (ho : o ≤ size) (ho32 : o < 2 ^ 32) (hlength : length < 2 ^ 16) (hwrap : 2 ^ 32 ≤ o + length) :
    clip size o length = length := if_neg (by omega)

lemma clip_of_overrun (ho : o ≤ size) (hlength : length < 2 ^ 16) (h32 : o + length < 2 ^ 32) (hover : size < o + length) :
    clip size o length = size - o := by
  rw [clip, if_pos (by omega), mod_eq_of_lt (by omega)]

variable {n pos : ℕ}

/-- What is stored lies inside of the input exactly if the record is safe. -/
lemma clip_inside_iff (ho : o ≤ size) (ho32 : o < 2 ^ 32) (hlength : length < 2 ^ 16) (hn : n ≤ length) :
    o + min (clip size o length) n ≤ size ↔ o + length < 2 ^ 32 ∨ o + n ≤ size := by
  rcases lt_or_ge (o + length) (2 ^ 32) with h32 | h32
  · rcases lt_or_ge size (o + length) with hover | hfits
    · rw [clip_of_overrun ho hlength h32 hover]
      omega
    · rw [clip_of_fits hfits]
      omega
  · rw [clip_of_wrap ho ho32 hlength h32]
    omega

lemma clip_lt_of_overrun (ho : o ≤ size) (hlength : length < 2 ^ 16) (h32 : o + length < 2 ^ 32) (hover : size < o + length) :
    clip size o length < length := by
  rw [clip_of_overrun ho hlength h32 hover]
  omega

/-! ## Reading the patch -/

/-- `rest` is what is left of the patch at an offset. -/
structure At (bytes : List Byte) (offset : ℕ) (rest : List Byte) : Prop where
  le : offset ≤ bytes.length
  drop : bytes.drop offset = rest

lemma At.read (h : At bytes offset rest) (hips : Slices ips bytes) (hn : n < 2 ^ 64) :
    ips.read n offset = some (rest.take n) := by
  rw [hips.read n offset hn h.le, h.drop]

lemma At.append {f : List Byte} (h : At bytes offset (f ++ rest)) : At bytes (offset + f.length) rest := by
  have hlength : (bytes.drop offset).length = f.length + rest.length := by
    rw [h.drop, length_append]
  refine ⟨?_, ?_⟩
  · rw [length_drop] at hlength
    have := h.le
    omega
  · rw [← drop_drop, h.drop, drop_left]

lemma swap16_lt (x : ℕ) : swap16 x < 2 ^ 16 := by
  rw [swap16]
  omega

lemma realOffset_lt (type : IPSFileType) (temp : List Byte) : realOffset type temp < 2 ^ 32 := by
  dsimp only [realOffset]
  split_ifs <;> omega

lemma tempSize_le (type : IPSFileType) : 3 ≤ tempSize type ∧ tempSize type ≤ 4 := by
  rw [tempSize]
  split_ifs <;> decide

/-! ## Rounds -/

lemma nextItem_append (htemp : temp.length = tempSize type) (body : List Byte) :
    nextItem type (temp ++ body) = if isEOF type temp then .marker else recordItem (realOffset type temp) body := by
  have htake : (temp ++ body).take (tempSize type) = temp := take_left' htemp
  have hdrop : (temp ++ body).drop (tempSize type) = body := drop_left' htemp
  rw [nextItem, htake, hdrop, if_neg (not_not.2 htemp)]

lemma nextItem_short (h : rest.length < tempSize type) : nextItem type rest = .short := by
  rw [nextItem, if_pos]
  rw [length_take]
  omega

/-- What a round leaves behind at an item, in an input of a given size. -/
def RoundSpec (bytes : List Byte) (type : IPSFileType) (inData rest : List Byte) (result : Option Round) : Item → Prop
  | .short => ∃ temp, result = some (.leave inData temp)
  | .marker => ∃ temp, isEOF type temp = true ∧ result = some (.leave inData temp)
  | .cut => result = some .fail
  | .rle o length value rest' =>
      (inData.length < o → result = some .fail) ∧
      (o ≤ inData.length → ∃ temp offset, temp.length = tempSize type ∧ At bytes offset rest' ∧ rest'.length < rest.length ∧
        o < 2 ^ 32 ∧ length < 2 ^ 16 ∧
        result = (storeAt inData o (replicate (clip inData.length o length) value)).map (.next · temp offset))
  | .data o length payload rest' =>
      (inData.length < o → result = some .fail) ∧
      (o ≤ inData.length → ∃ temp offset, temp.length = tempSize type ∧ (payload.length = length → At bytes offset rest') ∧
        rest'.length < rest.length ∧ o < 2 ^ 32 ∧ length < 2 ^ 16 ∧ payload.length ≤ length ∧
        result = (storeAt inData o (payload.take (clip inData.length o length))).map fun data =>
          if min (clip inData.length o length) payload.length ≠ length then .fail else .next data temp offset)

variable {body src : List Byte}

lemma record_spec (hips : Slices ips bytes) (hat : At bytes offset body) (htemp : temp.length = tempSize type)
    (ho : o ≤ inData.length) (ho32 : o < 2 ^ 32) :
    RoundSpec bytes type inData (temp ++ body)
      ((ips.read 2 offset).bind fun s =>
        if s.length ≠ 2 then some .fail
        else
          let dataSize := swap16 (loadU16 s)
          if dataSize = 0 then rleRecord ips inData temp o (offset + 2) else dataRecord ips inData temp o dataSize (offset + 2))
      (recordItem o body) := by
  rw [hat.read hips (by decide), bind_some]
  match body with
  | [] => exact rfl
  | [_] => exact rfl
  | s0 :: s1 :: tail =>
    have htail : At bytes (offset + 2) tail := At.append (f := [s0, s1]) hat
    have hsize16 := swap16_lt (loadU16 [s0, s1])
    rw [recordItem, if_neg (by simp)]
    dsimp only [take_succ_cons, take_zero]
    generalize swap16 (loadU16 [s0, s1]) = length at hsize16
    by_cases hzero : length = 0
    · rw [if_pos hzero, if_pos hzero, rleRecord, htail.read hips (by decide), bind_some]
      match tail with
      | [] => exact rfl
      | [_] => exact rfl
      | [l0, l1] =>
        have hempty : At bytes (offset + 2 + 2) [] := At.append (f := [l0, l1]) htail
        rw [hempty.read hips (by decide)]
        exact rfl
      | l0 :: l1 :: value :: rest' =>
        have hvalue : At bytes (offset + 2 + 2) (value :: rest') := At.append (f := [l0, l1]) htail
        have hrest : At bytes (offset + 2 + 2 + 1) rest' := At.append (f := [value]) hvalue
        rw [hvalue.read hips (by decide), if_neg (by simp)]
        refine ⟨fun h => absurd ho (by omega), fun _ => ⟨temp, _, htemp, hrest, ?_, ho32, swap16_lt _, rfl⟩⟩
        simp only [length_append, length_cons]
        omega
    · rw [if_neg hzero, if_neg hzero, dataRecord]
      have hclip : clip inData.length o length ≤ length := by
        rw [clip]
        split_ifs <;> omega
      have hread := htail.read hips (n := clip inData.length o length) (by omega)
      refine ⟨fun h => absurd ho (by omega), fun _ => ⟨temp, offset + 2 + length, htemp, ?_, ?_, ho32, hsize16, ?_, ?_⟩⟩
      · intro hpayload
        have hsplit : At bytes (offset + 2) (tail.take length ++ tail.drop length) := by
          rwa [take_append_drop]
        have hbehind := hsplit.append
        rwa [hpayload] at hbehind
      · simp only [length_append, length_cons, length_drop]
        omega
      · exact length_take_le _ _
      · have htake : (tail.take length).take (clip inData.length o length) = tail.take (clip inData.length o length) := by
          rw [take_take, Nat.min_eq_left hclip]
        have hlength : (tail.take (clip inData.length o length)).length =
            min (clip inData.length o length) (tail.take length).length := by
          rw [← htake, length_take]
        rw [htake]
        rw [← clip, hread, bind_some, hlength]

/-- A record whose offset lies behind the input. -/
lemma record_outside (ho : inData.length < o) (body : List Byte) :
    RoundSpec bytes type inData rest (some .fail) (recordItem o body) := by
  match body with
  | [] => exact rfl
  | [_] => exact rfl
  | s0 :: s1 :: tail =>
    rw [recordItem]
    by_cases hzero : swap16 (loadU16 [s0, s1]) = 0
    · rw [if_pos hzero]
      match tail with
      | [] => exact rfl
      | [_] => exact rfl
      | [_, _] => exact rfl
      | l0 :: l1 :: value :: rest' => exact ⟨fun _ => rfl, fun h => absurd ho (not_lt.2 h)⟩
    · rw [if_neg hzero]
      exact ⟨fun _ => rfl, fun h => absurd ho (not_lt.2 h)⟩

/-- **A round**, by what stands at the front of the rest of the patch. -/
lemma round_spec (hips : Slices ips bytes) (hat : At bytes offset rest) (htemp : temp.length = tempSize type) (inData : List Byte) :
    RoundSpec bytes type inData rest (round ips type inData temp offset) (nextItem type rest) := by
  have hsize := tempSize_le type
  rw [round, htemp, hat.read hips (by omega), bind_some]
  rcases lt_or_ge rest.length (tempSize type) with hshort | hlong
  · rw [nextItem_short hshort, if_pos (by rw [length_take]; omega)]
    exact ⟨_, rfl⟩
  obtain ⟨t, body, rfl, ht⟩ : ∃ t body, rest = t ++ body ∧ t.length = tempSize type :=
    ⟨rest.take (tempSize type), rest.drop (tempSize type), (take_append_drop _ _).symm, by
      rw [length_take]
      omega⟩
  rw [take_left' ht, if_neg (not_not.2 ht), nextItem_append ht]
  by_cases heof : isEOF type t = true
  · simp only [heof, if_true]
    exact ⟨t, heof, rfl⟩
  have hbody : At bytes (offset + t.length) body := hat.append
  have ho32 := realOffset_lt type t
  simp only [heof]
  generalize realOffset type t = o at ho32
  by_cases ho : o ≤ inData.length
  · rw [if_neg (not_lt.2 ho)]
    exact record_spec hips hbody ht ho ho32
  · rw [if_pos (not_le.1 ho)]
    exact record_outside (not_le.1 ho) body

/-! ## The loop -/

lemma storeAt_eq_none_iff : storeAt inData pos src = none ↔ inData.length < pos + src.length := by
  rw [storeAt]
  split_ifs with h
  · simpa using h
  · simpa using h

lemma storeAt_length {data : List Byte} (h : storeAt inData pos src = some data) : data.length = inData.length := by
  rw [storeAt] at h
  split_ifs at h with hinside
  cases h
  simp only [length_append, length_take, length_drop]
  omega

lemma round_eq_none_iff (hips : Slices ips bytes) (hat : At bytes offset rest) (htemp : temp.length = tempSize type)
    (inData : List Byte) : round ips type inData temp offset = none ↔ ¬ (nextItem type rest).Safe inData.length := by
  have hround := round_spec hips hat htemp inData
  cases hitem : nextItem type rest with
  | short =>
    rw [hitem] at hround
    obtain ⟨t, ht⟩ := hround
    simp [ht, Item.Safe]
  | marker =>
    rw [hitem] at hround
    obtain ⟨t, -, ht⟩ := hround
    simp [ht, Item.Safe]
  | cut =>
    rw [hitem] at hround
    simp [show _ = some Round.fail from hround, Item.Safe]
  | rle o length value rest' =>
    rw [hitem] at hround
    by_cases ho : o ≤ inData.length
    · obtain ⟨t, offset', -, -, -, ho32, hlength, hresult⟩ := hround.2 ho
      have hinside := clip_inside_iff ho ho32 hlength (n := length) (le_refl _)
      have hclip : min (clip inData.length o length) length = clip inData.length o length := by
        rw [Nat.min_eq_left]
        rw [clip]
        split_ifs <;> omega
      rw [hresult, map_eq_none_iff, storeAt_eq_none_iff, length_replicate, ← not_le, ← hclip, hinside]
      simp only [Item.Safe, ho, true_imp_iff]
    · rw [hround.1 (not_le.1 ho)]
      simp [Item.Safe, ho]
  | data o length payload rest' =>
    rw [hitem] at hround
    by_cases ho : o ≤ inData.length
    · obtain ⟨t, offset', -, -, -, ho32, hlength, hpayload, hresult⟩ := hround.2 ho
      have hinside := clip_inside_iff ho ho32 hlength hpayload
      rw [hresult, map_eq_none_iff, storeAt_eq_none_iff, length_take, ← not_le, hinside]
      simp only [Item.Safe, ho, true_imp_iff]
    · rw [hround.1 (not_le.1 ho)]
      simp [Item.Safe, ho]

section

variable (hips : Slices ips bytes) (hat : At bytes offset rest)
  (htemp : temp.length = tempSize type)
include hips hat htemp

lemma round_rle {o : ℕ} {value : Byte} {rest' data : List Byte} (hitem : nextItem type rest = .rle o length value rest') (ho : o ≤ inData.length)
    (hstore : storeAt inData o (replicate (clip inData.length o length) value) = some data) :
    ∃ temp' offset', round ips type inData temp offset = some (.next data temp' offset') ∧ temp'.length = tempSize type ∧
      At bytes offset' rest' ∧ rest'.length < rest.length := by
  have hround := round_spec hips hat htemp inData
  rw [hitem] at hround
  obtain ⟨temp', offset', htemp', hat', hshort, -, -, hresult⟩ := hround.2 ho
  refine ⟨temp', offset', ?_, htemp', hat', hshort⟩
  rw [hresult, hstore]
  rfl

/-- The round of a data record that the patch has completely and that fits into the input. -/
lemma round_data {o : ℕ} {payload rest' : List Byte} (hitem : nextItem type rest = .data o length payload rest')
    (hfits : o + length ≤ inData.length) (hpayload : payload.length = length) :
    ∃ data temp' offset', storeAt inData o payload = some data ∧
      round ips type inData temp offset = some (.next data temp' offset') ∧ temp'.length = tempSize type ∧
      At bytes offset' rest' ∧ rest'.length < rest.length := by
  have hround := round_spec hips hat htemp inData
  rw [hitem] at hround
  obtain ⟨temp', offset', htemp', hat', hshort, -, -, -, hresult⟩ := hround.2 (by omega)
  obtain ⟨data, hdata⟩ : ∃ data, storeAt inData o payload = some data := by
    rw [← ne_none_iff_exists', ne_eq, storeAt_eq_none_iff]
    omega
  refine ⟨data, temp', offset', hdata, ?_, htemp', hat' hpayload, hshort⟩
  rw [hresult, clip_of_fits hfits, ← hpayload, take_length, hdata, map_some, min_self, if_neg (not_not.2 rfl)]

/-- **The loop ends** without a store outside if all items that it arrives at are safe. -/
lemma patchLoop_ends {fuel : ℕ}
    (hsafe : ∀ item, Reaches type inData.length rest item → item.Safe inData.length) (hfuel : rest.length < fuel) :
    patchLoop ips type fuel inData temp offset ≠ none := by
  induction fuel generalizing inData temp offset rest with
  | zero => omega
  | succ fuel ih =>
    have hhere := hsafe _ (.here rest)
    have hdefined : round ips type inData temp offset ≠ none := by
      rw [ne_eq, round_eq_none_iff hips hat htemp]
      exact not_not.2 hhere
    have hround := round_spec hips hat htemp inData
    rw [patchLoop]
    cases hitem : nextItem type rest with
    | short =>
      rw [hitem] at hround
      obtain ⟨t, ht⟩ := hround
      rw [ht]
      exact some_ne_none _
    | marker =>
      rw [hitem] at hround
      obtain ⟨t, -, ht⟩ := hround
      rw [ht]
      exact some_ne_none _
    | cut =>
      rw [hitem] at hround
      rw [show _ = some Round.fail from hround]
      exact some_ne_none _
    | rle o length value rest' =>
      by_cases ho : o ≤ inData.length
      · obtain ⟨data, hstore⟩ : ∃ data, storeAt inData o (replicate (clip inData.length o length) value) = some data := by
          rw [hitem] at hround
          obtain ⟨t, offset', -, -, -, -, -, hresult⟩ := hround.2 ho
          rw [hresult, ne_eq, map_eq_none_iff] at hdefined
          exact ne_none_iff_exists'.1 hdefined
        obtain ⟨temp', offset', hnext, htemp', hat', hshort⟩ := round_rle hips hat htemp hitem ho hstore
        rw [hnext]
        refine ih hat' htemp' ?_ (by omega)
        rw [storeAt_length hstore]
        exact fun item hitem' => hsafe item (.rle hitem ho hitem')
      · rw [hitem] at hround
        rw [hround.1 (not_le.1 ho)]
        exact some_ne_none _
    | data o length payload rest' =>
      by_cases hfits : o + length ≤ inData.length ∧ payload.length = length
      · obtain ⟨data, temp', offset', hstore, hnext, htemp', hat', hshort⟩ :=
          round_data hips hat htemp hitem hfits.1 hfits.2
        rw [hnext]
        refine ih hat' htemp' ?_ (by omega)
        rw [storeAt_length hstore]
        exact fun item hitem' => hsafe item (.data hitem hfits.1 hfits.2 hitem')
      · rw [hitem] at hround hhere
        by_cases ho : o ≤ inData.length
        · obtain ⟨t, offset', -, -, -, ho32, hlength, hpayload, hresult⟩ := hround.2 ho
          -- not all bytes are stored: the input or the patch is too short
          have hless : min (clip inData.length o length) payload.length ≠ length := by
            intro heq
            have hinside := (clip_inside_iff ho ho32 hlength hpayload).2 (hhere ho)
            omega
          rw [hresult, ne_eq, map_eq_none_iff] at hdefined
          obtain ⟨data, hdata⟩ := ne_none_iff_exists'.1 hdefined
          rw [hresult, hdata, map_some, if_pos hless]
          exact some_ne_none _
        · rw [hround.1 (not_le.1 ho)]
          exact some_ne_none _

end

/-- **Otherwise it stores outside.** -/
lemma patchLoop_eq_none {item : Item} (hips : Slices ips bytes) (hreaches : Reaches type size rest item)
    (hbad : ¬ item.Safe size) (hsize : inData.length = size) (hat : At bytes offset rest) (htemp : temp.length = tempSize type)
    (fuel : ℕ) : patchLoop ips type fuel inData temp offset = none := by
  induction hreaches generalizing inData temp offset fuel with
  | here rest =>
    cases fuel with
    | zero => rfl
    | succ fuel =>
      subst hsize
      rw [patchLoop, (round_eq_none_iff hips hat htemp inData).2 hbad]
      rfl
  | @rle rest rest' o length value item hitem ho _ ih =>
    cases fuel with
    | zero => rfl
    | succ fuel =>
      subst hsize
      rw [patchLoop]
      cases hstore : storeAt inData o (replicate (clip inData.length o length) value) with
      | none =>
        have hround := round_spec hips hat htemp inData
        rw [hitem] at hround
        obtain ⟨t, offset', -, -, -, -, -, hresult⟩ := hround.2 ho
        rw [hresult, hstore]
        rfl
      | some data =>
        obtain ⟨temp', offset', hnext, htemp', hat', -⟩ := round_rle hips hat htemp hitem ho hstore
        rw [hnext]
        exact ih hbad (storeAt_length hstore) hat' htemp' fuel
  | @data rest rest' o length payload item hitem hfits hpayload _ ih =>
    cases fuel with
    | zero => rfl
    | succ fuel =>
      subst hsize
      obtain ⟨data, temp', offset', hstore, hnext, htemp', hat', -⟩ := round_data hips hat htemp hitem hfits hpayload
      rw [patchLoop, hnext]
      exact ih hbad (storeAt_length hstore) hat' htemp' fuel

/-! ## Patch files -/

section PatchFiles

variable {r : Record} {records : List Record}

@[simp] lemma bigEndian_length (n v : ℕ) : (bigEndian n v).length = n := by
  induction n generalizing v with
  | zero => rfl
  | succ n ih => rw [bigEndian, length_append, ih, length_singleton]

lemma bigEndian_two (v : ℕ) : bigEndian 2 v = [BitVec.ofNat 8 (v / 2 ^ 8), BitVec.ofNat 8 v] := rfl

lemma swap16_loadU16 {v : ℕ} (hv : v < 2 ^ 16) : swap16 (loadU16 (bigEndian 2 v)) = v := by
  have hload : loadU16 (bigEndian 2 v) = v / 2 ^ 8 + v % 2 ^ 8 * 2 ^ 8 := by
    rw [bigEndian_two, loadU16, getD_cons_zero, getD_cons_succ, getD_cons_zero, BitVec.toNat_ofNat,
      BitVec.toNat_ofNat, mod_eq_of_lt (by omega)]
  have hlow : (v / 2 ^ 8 + v % 2 ^ 8 * 2 ^ 8) % 2 ^ 8 = v / 2 ^ 8 := by omega
  have hhigh : (v / 2 ^ 8 + v % 2 ^ 8 * 2 ^ 8) / 2 ^ 8 = v % 2 ^ 8 := by omega
  rw [hload, swap16, hlow, hhigh, mod_mod]
  omega

section

variable (htype : type ≠ .Error)
include htype

lemma realOffset_bigEndian {o : ℕ} (ho : o < 2 ^ (8 * tempSize type)) :
    realOffset type (bigEndian (tempSize type) o) = o := by
  cases type with
  | IPS =>
    have ho' : o < 2 ^ 24 := ho
    simp [realOffset, tempSize, bigEndian]
    omega
  | IPS32 =>
    have ho' : o < 2 ^ 32 := ho
    simp [realOffset, tempSize, bigEndian]
    omega
  | Error => exact absurd rfl htype

lemma isEOF_iff (data : List Byte) : isEOF type data = true ↔ data = endMarker type := by
  cases type with
  | IPS => simp [isEOF, endMarker]
  | IPS32 => simp [isEOF, endMarker]
  | Error => exact absurd rfl htype

lemma endMarker_length : (endMarker type).length = tempSize type := by
  cases type with
  | IPS => rfl
  | IPS32 => rfl
  | Error => exact absurd rfl htype

lemma nextItem_endMarker : nextItem type (endMarker type) = .marker := by
  have h := nextItem_append (endMarker_length htype) []
  rw [append_nil, if_pos ((isEOF_iff htype _).2 rfl)] at h
  exact h

end

/-- Every record takes at least one byte of a patch file. -/
lemma length_le_encoded (type : IPSFileType) (records : List Record) :
    records.length ≤ (records.flatMap (Record.encode type)).length := by
  have hsize := tempSize_le type
  induction records with
  | nil => exact le_refl _
  | cons r records ih =>
    have hencode : 1 ≤ (r.encode type).length := by
      cases r <;> rw [Record.encode, length_append, bigEndian_length] <;> omega
    rw [flatMap_cons, length_append, length_cons]
    omega

def Record.item (r : Record) (rest : List Byte) : Item :=
  match r with
  | .data offset bytes => .data offset bytes.length bytes rest
  | .rle offset length value => .rle offset length value rest

lemma nextItem_encode (htype : type ≠ .Error) (hr : r.Valid type size) (rest : List Byte) :
    nextItem type (r.encode type ++ rest) = r.item rest := by
  have hmarker : ¬ isEOF type (bigEndian (tempSize type) r.offset) = true := fun h => hr.notEnd ((isEOF_iff htype _).1 h)
  have hoffset := realOffset_bigEndian htype hr.offset
  cases r with
  | data o bytes =>
    dsimp only [Record.offset] at hmarker hoffset
    have hlength : bytes.length < 2 ^ 16 := hr.length
    have hbytes : bytes.length ≠ 0 := fun h => hr.data trivial (length_eq_zero_iff.1 h)
    rw [Record.encode, append_assoc, nextItem_append (bigEndian_length _ _), if_neg hmarker, hoffset]
    have hsize := swap16_loadU16 hlength
    rw [bigEndian_two] at hsize ⊢
    rw [append_assoc]
    simp only [cons_append, nil_append, recordItem, hsize, if_neg hbytes, take_left, drop_left]
    rfl
  | rle o length value =>
    dsimp only [Record.offset] at hmarker hoffset
    have hlength : length < 2 ^ 16 := by simpa [Record.bytes] using hr.length
    rw [Record.encode, append_assoc, nextItem_append (bigEndian_length _ _), if_neg hmarker, hoffset]
    have hzero := swap16_loadU16 (v := 0) (by decide)
    have hsize := swap16_loadU16 hlength
    rw [bigEndian_two] at hzero hsize ⊢
    rw [bigEndian_two, append_assoc]
    simp only [cons_append, nil_append, recordItem, hzero, if_true, rleItem, hsize]
    rfl

lemma storeAt_apply (ho : r.offset ≤ inData.length) :
    storeAt inData r.offset (r.bytes.take (inData.length - r.offset)) = some (r.apply inData) := by
  have hfront : (inData.take r.offset).length = r.offset := by
    rw [length_take]
    omega
  have hstored : (r.bytes.take (inData.length - r.offset)).length = min (inData.length - r.offset) r.bytes.length :=
    length_take
  rw [storeAt, if_pos (by omega)]
  congr 1
  apply ext_getElem?
  intro i
  rw [Record.apply, getElem?_mapIdx, append_assoc]
  rcases lt_or_ge i r.offset with hi | hi
  · rw [getElem?_append_left (by omega), getElem?_take_of_lt hi]
    simp [not_le.2 hi]
  · rw [getElem?_append_right (by omega), hfront]
    rcases lt_or_ge (i - r.offset) (r.bytes.take (inData.length - r.offset)).length with hin | hout
    · rw [getElem?_append_left hin, getElem?_take_of_lt (by omega), getElem?_eq_getElem (by omega),
        getElem?_eq_getElem (show i < inData.length by omega)]
      simp [hi]
    · rw [getElem?_append_right hout, getElem?_drop]
      have hindex : r.offset + (r.bytes.take (inData.length - r.offset)).length +
          (i - r.offset - (r.bytes.take (inData.length - r.offset)).length) = i := by omega
      rw [hindex]
      rcases lt_or_ge i inData.length with hlt | hge
      · have hnone : r.bytes[i - r.offset]? = none := getElem?_eq_none (by omega)
        simp [hi, hnone]
      · rw [getElem?_eq_none hge]
        rfl

lemma apply_length (r : Record) (inData : List Byte) : (r.apply inData).length = inData.length := length_mapIdx

/-- The record is safe: its end is not beyond both 2³² and the end of the input. -/
def Record.Safe (r : Record) (size : ℕ) : Prop := r.offset + r.bytes.length < 2 ^ 32 ∨ r.Fits size

lemma item_safe_iff (hr : r.Valid type size) (rest : List Byte) : (r.item rest).Safe size ↔ r.Safe size := by
  have ho := hr.inside
  cases r with
  | data o bytes =>
    simp only [Record.item, Item.Safe, Record.Safe, Record.Fits, Record.offset, Record.bytes] at *
    simp only [ho, true_imp_iff]
  | rle o length value =>
    simp only [Record.item, Item.Safe, Record.Safe, Record.Fits, Record.offset, Record.bytes, length_replicate] at *
    simp only [ho, true_imp_iff]

section

variable (hips : Slices ips bytes) (htype : type ≠ .Error)
include hips htype

lemma round_record (hr : r.Valid type inData.length)
    (hsafe : r.Safe inData.length) (hfits : r.IsData → r.Fits inData.length) (hat : At bytes offset (r.encode type ++ rest))
    (htemp : temp.length = tempSize type) :
    ∃ temp' offset', round ips type inData temp offset = some (.next (r.apply inData) temp' offset') ∧
      temp'.length = tempSize type ∧ At bytes offset' rest := by
  have hitem := nextItem_encode htype hr rest
  have hstore := storeAt_apply hr.inside
  cases r with
  | data o payload =>
    have hfit : o + payload.length ≤ inData.length := hfits trivial
    have hwhole : payload.take (inData.length - o) = payload := take_of_length_le (by omega)
    obtain ⟨data, temp', offset', hdata, hround, htemp', hat', -⟩ := round_data hips hat htemp hitem hfit rfl
    rw [Record.bytes, Record.offset, hwhole, hdata] at hstore
    rw [Option.some.inj hstore] at hround
    exact ⟨temp', offset', hround, htemp', hat'⟩
  | rle o length value =>
    have ho : o ≤ inData.length := hr.inside
    have hlength : length < 2 ^ 16 := by simpa [Record.bytes] using hr.length
    have hclip : (replicate length value).take (inData.length - o) = replicate (clip inData.length o length) value := by
      rw [take_replicate]
      congr 1
      have hsafe' : o + length < 2 ^ 32 ∨ o + length ≤ inData.length := by
        simpa [Record.Safe, Record.Fits, Record.offset, Record.bytes] using hsafe
      rcases lt_or_ge inData.length (o + length) with hover | hfit
      · rw [clip_of_overrun ho hlength (by omega) hover]
        omega
      · rw [clip_of_fits hfit]
        omega
    rw [Record.bytes, Record.offset, hclip] at hstore
    obtain ⟨temp', offset', hround, htemp', hat', -⟩ := round_rle hips hat htemp hitem ho hstore
    exact ⟨temp', offset', hround, htemp', hat'⟩

/-- **The records of a patch file are applied**, if all of them are safe and the data records fit. -/
lemma patchLoop_records {fuel : ℕ}
    (hvalid : ∀ r ∈ records, r.Valid type inData.length) (hsafe : ∀ r ∈ records, r.Safe inData.length)
    (hfits : ∀ r ∈ records, r.IsData → r.Fits inData.length)
    (hat : At bytes offset (records.flatMap (Record.encode type) ++ endMarker type)) (htemp : temp.length = tempSize type)
    (hfuel : records.length < fuel) :
    patchLoop ips type fuel inData temp offset = some (some (records.foldl (fun data r => r.apply data) inData)) := by
  induction records generalizing inData temp offset fuel with
  | nil =>
    obtain ⟨fuel, rfl⟩ : ∃ n, fuel = n + 1 := ⟨fuel - 1, by omega⟩
    have hround := round_spec hips hat htemp inData
    rw [flatMap_nil, nil_append, nextItem_endMarker htype] at hround
    obtain ⟨t, ht, hresult⟩ := hround
    rw [patchLoop, hresult, bind_some]
    dsimp only
    rw [if_pos ht]
    rfl
  | cons r records ih =>
    obtain ⟨fuel, rfl⟩ : ∃ n, fuel = n + 1 := ⟨fuel - 1, by omega⟩
    rw [flatMap_cons, append_assoc] at hat
    rw [forall_mem_cons] at hvalid hsafe hfits
    obtain ⟨temp', offset', hround, htemp', hat'⟩ := round_record hips htype hvalid.1 hsafe.1 hfits.1 hat htemp
    rw [patchLoop, hround, bind_some, foldl_cons]
    apply ih
    · rw [apply_length]
      exact hvalid.2
    · rw [apply_length]
      exact hsafe.2
    · rw [apply_length]
      exact hfits.2
    · exact hat'
    · exact htemp'
    · rw [length_cons] at hfuel
      omega

lemma patchLoop_clipped
    (hvalid : ∀ r ∈ records, r.Valid type inData.length) (hclipped : ∃ r ∈ records, r.IsData ∧ ¬ r.Fits inData.length)
    (hat : At bytes offset (records.flatMap (Record.encode type) ++ endMarker type)) (htemp : temp.length = tempSize type)
    (fuel : ℕ) (result : List Byte) : patchLoop ips type fuel inData temp offset ≠ some (some result) := by
  induction records generalizing inData temp offset fuel with
  | nil =>
    obtain ⟨r, hr, -⟩ := hclipped
    cases hr
  | cons r records ih =>
    cases fuel with
    | zero => exact fun h => nomatch h
    | succ fuel =>
      rw [flatMap_cons, append_assoc] at hat
      rw [forall_mem_cons] at hvalid
      have hitem := nextItem_encode htype hvalid.1 (records.flatMap (Record.encode type) ++ endMarker type)
      rw [patchLoop]
      by_cases hsafe : r.Safe inData.length
      · by_cases hfits : r.IsData → r.Fits inData.length
        · obtain ⟨temp', offset', hround, htemp', hat'⟩ := round_record hips htype hvalid.1 hsafe hfits hat htemp
          rw [hround, bind_some]
          refine ih ?_ ?_ hat' htemp' fuel
          · rw [apply_length]
            exact hvalid.2
          · rw [apply_length]
            rw [exists_mem_cons_iff] at hclipped
            exact hclipped.resolve_left fun h => h.2 (hfits h.1)
        · cases r with
          | data o payload =>
            have ho : o ≤ inData.length := hvalid.1.inside
            have hover : inData.length < o + payload.length := not_le.1 fun h => hfits fun _ => h
            have h32 : o + payload.length < 2 ^ 32 := hsafe.resolve_right (not_le.2 hover)
            have hround := round_spec hips hat htemp inData
            rw [hitem] at hround
            obtain ⟨t, offset', -, -, -, -, hlength, -, hresult⟩ := hround.2 ho
            have hless := clip_lt_of_overrun ho hlength h32 hover
            rw [hresult]
            cases storeAt inData o (payload.take (clip inData.length o payload.length)) with
            | none => exact fun h => nomatch h
            | some data =>
              rw [map_some, if_pos (by omega)]
              exact fun h => nomatch h
          | rle o length value => exact absurd (fun h : False => h.elim) hfits
      · have hnone : round ips type inData temp offset = none := by
          rw [round_eq_none_iff hips hat htemp, hitem, item_safe_iff hvalid.1]
          exact hsafe
        rw [hnone]
        exact fun h => nomatch h

end

end PatchFiles

/-! ## `PatchIPS` -/

lemma identifyMagic_eq_iff (htype : type ≠ .Error) (bytes : List Byte) :
    identifyMagic (bytes.take 5) = type ↔ bytes.take 5 = magic type := by
  rw [identifyMagic]
  constructor
  · intro h
    split_ifs at h with hlength hpatch hips32
    · exact absurd h.symm htype
    · rw [hpatch, ← h]
      rfl
    · rw [hips32, ← h]
      rfl
    · exact absurd h.symm htype
  · intro h
    rw [h]
    cases type with
    | IPS => rfl
    | IPS32 => rfl
    | Error => exact absurd rfl htype

lemma magic_length (type : IPSFileType) : (magic type).length = 5 := by
  rw [magic]
  split_ifs <;> rfl

lemma patchIPS_magic (hfile : Slices file input) (hips : Slices ips bytes) (hinput : input ≠ []) (htype : type ≠ .Error)
    (hbytes : bytes = magic type ++ body) :
    At bytes 5 body ∧ patchIPS file ips =
      patchLoop ips type (bytes.length + 1) input (replicate (tempSize type) 0#8) 5 := by
  have hmagic := magic_length type
  have hat : At bytes 5 body := by
    refine ⟨?_, ?_⟩
    · rw [hbytes, length_append]
      omega
    · rw [hbytes, drop_left' hmagic]
  have htake : bytes.take 5 = magic type := by rw [hbytes, take_left' hmagic]
  refine ⟨hat, ?_⟩
  rw [patchIPS, hips.read 5 0 (by decide) (zero_le _), bind_some, drop_zero]
  rw [(identifyMagic_eq_iff htype bytes).2 htake, if_neg htype, hfile.size, hfile.read _ 0 hfile.small (zero_le _),
    bind_some, drop_zero, take_length, if_neg (mt length_eq_zero_iff.1 hinput), hips.size]

/-- **No record of the patch overruns**, as far as the loop arrives at it: none ends beyond both 2³² and the end of the input, and
if the patch is well formed, its data records end inside of the input. -/
structure NoOverrun (input bytes : List Byte) : Prop where
  safe : ∀ type ≠ IPSFileType.Error, ∀ body, bytes = magic type ++ body →
    ∀ item, Reaches type input.length body item → item.Safe input.length
  fits : ∀ type ≠ IPSFileType.Error, ∀ records : List Record, bytes = patchFile type records →
    (∀ r ∈ records, r.Valid type input.length) → ∀ r ∈ records, r.IsData → r.Fits input.length

lemma records_safe {records : List Record} (htype : type ≠ .Error) (hvalid : ∀ r ∈ records, r.Valid type size)
    (hfits : ∀ r ∈ records, r.IsData → r.Fits size)
    (hsafe : ∀ item, Reaches type size (records.flatMap (Record.encode type) ++ endMarker type) item → item.Safe size) :
    ∀ r ∈ records, r.Safe size := by
  induction records with
  | nil => simp
  | cons r records ih =>
    rw [flatMap_cons, append_assoc] at hsafe
    rw [forall_mem_cons] at hvalid hfits ⊢
    have hitem := nextItem_encode htype hvalid.1 (records.flatMap (Record.encode type) ++ endMarker type)
    refine ⟨?_, ih hvalid.2 hfits.2 fun item h => hsafe item ?_⟩
    · have h := hsafe _ (.here _)
      rw [hitem, item_safe_iff hvalid.1] at h
      exact h
    · cases r with
      | data o payload => exact .data hitem (hfits.1 trivial) rfl h
      | rle o length value => exact .rle hitem hvalid.1.inside h

/-- Records put bytes to places, whatever is there. -/
lemma foldl_apply_eq (records : List Record) : ∃ w : ℕ → Option Byte, ∀ data : List Byte,
    records.foldl (fun data r => r.apply data) data = data.mapIdx fun i b => (w i).getD b := by
  induction records with
  | nil => exact ⟨fun _ => none, fun data => ext_getElem? (by simp)⟩
  | cons r records ih =>
    obtain ⟨w, hw⟩ := ih
    refine ⟨fun i => (w i).or (if r.offset ≤ i then r.bytes[i - r.offset]? else none), fun data => ?_⟩
    rw [foldl_cons, hw, Record.apply, mapIdx_mapIdx]
    congr 1
    funext i b
    by_cases hi : r.offset ≤ i <;> cases hw : w i <;> simp [hi, hw]

/-- **Patching twice is patching once**, for a patch file whose records end inside of the input. -/
theorem patchIPS_twice {file' : VfsFile} {out : List Byte} {records : List Record} (htype : type ≠ .Error)
    (hips : Slices ips (patchFile type records)) (hinput : 0 < input.length) (hvalid : ∀ r ∈ records, r.Valid type input.length)
    (hfits : ∀ r ∈ records, r.Fits input.length) (hfile : Slices file input) (hout : patchIPS file ips = some (some out))
    (hfile' : Slices file' out) : patchIPS file' ips = some (some out) := by
  have hpatch : ∀ {file : VfsFile} {data : List Byte}, Slices file data → data.length = input.length →
      patchIPS file ips = some (some (records.foldl (fun data r => r.apply data) data)) := by
    intro file data hfile hlength
    rw [← hlength] at hvalid hfits hinput
    obtain ⟨hat, hloop⟩ := patchIPS_magic hfile hips (length_pos_iff.1 hinput) htype rfl
    have hcount := length_le_encoded type records
    rw [hloop]
    refine patchLoop_records hips htype hvalid (fun r hr => .inr (hfits r hr)) (fun r hr _ => hfits r hr) hat
      length_replicate ?_
    rw [patchFile, length_append, length_append]
    omega
  obtain ⟨w, hw⟩ := foldl_apply_eq records
  rw [hpatch hfile rfl, some_inj, some_inj, hw] at hout
  subst hout
  rw [hpatch hfile' length_mapIdx, hw, mapIdx_mapIdx]
  congr 3
  funext i b
  cases w i <;> rfl

theorem patchIPS_twice_overlap : patchIPS (vectorVfsFile [5#8, 7#8])
    (vectorVfsFile (patchFile .IPS [.rle 0 2 5#8, .data 1 [7#8]])) = some (some [5#8, 7#8]) :=
  patchIPS_twice (by decide) (vectorVfsFile_slices (by decide)) (by decide)
    (by simp only [forall_mem_cons]; exact ⟨⟨by decide, by decide, by decide, by decide, nofun⟩,
      ⟨by decide, by decide, by decide, by decide, fun _ => by decide⟩, nofun⟩) (by unfold Record.Fits; decide)
    (vectorVfsFile_slices (by decide : [1#8, 2#8].length < 2 ^ 64)) rfl (vectorVfsFile_slices (by decide))

end Voltemu.FileSys.Ips
