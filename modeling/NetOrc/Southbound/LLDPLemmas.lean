import NetOrc.Data.Tlv
import NetOrc.Southbound.LLDPParser

/-!
This module shows that the LLDP parser is a fold over the entries of the TLV list that starts at byte
14 of the payload, and which neighbor that list describes.
-/

namespace NetOrc

open Oflib

namespace LLDPParser

/-! The parser as a fold over TLV entries. -/

def storeEntry (neighbor : LLDPNeighbor) (t : Tlv.Entry) : Except Fault LLDPNeighbor :=
  if t.type = 1 then
    if t.value = [] then .error .lengthError else .ok { neighbor with chassisId := t.value.drop 1 }
  else if t.type = 2 then
    if t.value = [] then .error .lengthError else .ok { neighbor with portId := t.value.drop 1 }
  else if t.type = 5 then
    .ok { neighbor with systemName := t.value }
  else if t.type = 3 then
    match t.value with
    | [hi, lo] => .ok { neighbor with ttl := (hi.toUInt16 <<< 8) ||| lo.toUInt16 }
    | _ => .ok neighbor
  else
    .ok neighbor

theorem toNat_shiftLeft_or (hi lo : UInt8) :
    ((hi.toUInt16 <<< 8) ||| lo.toUInt16).toNat = hi.toNat * 256 + lo.toNat := by
  have hhi := hi.toNat_lt
  have hlo := lo.toNat_lt
  rw [UInt16.toNat_or, UInt16.toNat_shiftLeft, UInt8.toNat_toUInt16, UInt8.toNat_toUInt16]
  have hshift : hi.toNat <<< ((8 : UInt16).toNat % 16) % 2 ^ 16 = hi.toNat <<< 8 := by
    show hi.toNat <<< 8 % 2 ^ 16 = _
    rw [Nat.shiftLeft_eq]
    omega
  rw [hshift, ← Nat.shiftLeft_add_eq_or_of_lt (by omega), Nat.shiftLeft_eq]

theorem drop_eq_cons_cons {payload : Bytes} {offset : Nat} (h : offset + 2 ≤ payload.length) :
    ∃ hi lo, payload[offset]? = some hi ∧ payload[offset + 1]? = some lo
      ∧ payload.drop offset = hi :: lo :: payload.drop (offset + 2) :=
  ⟨payload[offset], payload[offset + 1], List.getElem?_eq_getElem (by omega),
    List.getElem?_eq_getElem (by omega), by
      rw [List.drop_eq_getElem_cons (by omega), List.drop_eq_getElem_cons (i := offset + 1) (by omega)]⟩

theorem readWord_eq {payload : Bytes} {index : Nat} {hi lo : UInt8}
    (hhi : payload[index]? = some hi) (hlo : payload[index + 1]? = some lo) :
    readWord payload index = .ok ((hi.toUInt16 <<< 8) ||| lo.toUInt16) := by
  simp only [readWord, readByte, hhi, hlo]
  rfl

theorem readTlvInfo_eq {payload : Bytes} {offset : Nat} {hi lo : UInt8}
    (hhi : payload[offset]? = some hi) (hlo : payload[offset + 1]? = some lo) :
    ∃ type length, readTlvInfo payload offset = .ok (type, length)
      ∧ type.byte.toNat = (hi.toNat * 256 + lo.toNat) / 512
      ∧ length.toNat = (hi.toNat * 256 + lo.toNat) % 512 := by
  have hhi' := hi.toNat_lt
  have hlo' := lo.toNat_lt
  refine ⟨_, _, by rw [readTlvInfo, readWord_eq hhi hlo]; rfl, ?_, ?_⟩
  . rw [UInt16.toNat_toUInt8, UInt16.toNat_and, UInt16.toNat_shiftRight, toNat_shiftLeft_or]
    have hshift : (hi.toNat * 256 + lo.toNat) >>> ((9 : UInt16).toNat % 16)
        = (hi.toNat * 256 + lo.toNat) / 512 := Nat.shiftRight_eq_div_pow _ 9
    have hmask : (hi.toNat * 256 + lo.toNat) / 512 &&& (0x7F : UInt16).toNat
        = (hi.toNat * 256 + lo.toNat) / 512 % 128 := Nat.and_two_pow_sub_one_eq_mod _ 7
    rw [hshift, hmask]
    omega
  . rw [UInt16.toNat_and, toNat_shiftLeft_or]
    exact Nat.and_two_pow_sub_one_eq_mod _ 9

theorem scan_drop {payload : Bytes} {offset : Nat} {type : LLDPTlvType} {length : UInt16}
    (h : offset + 2 ≤ payload.length) (hinfo : readTlvInfo payload offset = .ok (type, length)) :
    Tlv.scan (payload.drop offset)
      =
    if offset + 2 + length.toNat > payload.length then
      []
    else if type = .endOfLldpdu then
      []
    else
      ⟨type.byte.toNat, (payload.drop (offset + 2)).take length.toNat⟩
        :: Tlv.scan (payload.drop (offset + 2 + length.toNat)) := by
  rcases drop_eq_cons_cons h with ⟨hi, lo, hhi, hlo, hdrop⟩
  rcases readTlvInfo_eq hhi hlo with ⟨type', length', hinfo', htype, hlength⟩
  rw [hinfo] at hinfo'
  cases hinfo'
  have hend : type = .endOfLldpdu ↔ (hi.toNat * 256 + lo.toNat) / 512 = 0 := by
    rw [← htype]
    rcases type with ⟨byte⟩
    simp [LLDPTlvType.endOfLldpdu, ← UInt8.toNat_inj]
  rw [hdrop, Tlv.scan_cons_cons, ← htype, ← hlength, List.length_drop, List.drop_drop]
  simp only [hend, ← htype]
  split
  . simp
  . split
    . rw [if_pos (by omega)]
    . rw [if_neg (by omega)]

theorem readString_eq {payload : Bytes} {start length : Nat} (d : Nat)
    (hlength : start + length ≤ payload.length) :
    readString payload (start + d) ((length : Int) - d)
      =
    if length < d then
      .error .lengthError
    else
      .ok (((payload.drop start).take length).drop d) := by
  unfold readString
  split
  . rw [if_pos (by omega)]
  . next h =>
    have hcount : ((length : Int) - d).toNat = length - d := by omega
    rw [hcount, if_neg (by omega), if_neg (by omega), List.drop_take, List.drop_drop]

theorem storeTtl_eq {payload : Bytes} {length : UInt16} {offset : Nat}
    (hlength : offset + length.toNat ≤ payload.length) (neighbor : LLDPNeighbor) :
    (if length = 2 then do
        let ttl ← readWord payload offset
        return { neighbor with ttl := ttl }
      else
        return neighbor)
      =
    match (payload.drop offset).take length.toNat with
    | [hi, lo] => .ok { neighbor with ttl := (hi.toUInt16 <<< 8) ||| lo.toUInt16 }
    | _ => (.ok neighbor : Except Fault LLDPNeighbor) := by
  split
  . next htwo =>
    subst htwo
    have hlength : offset + 2 ≤ payload.length := hlength
    rcases drop_eq_cons_cons hlength with ⟨hi, lo, hhi, hlo, hdrop⟩
    rw [readWord_eq hhi hlo, hdrop]
    rfl
  . next htwo =>
    split
    . next hi lo hvalue =>
      have hlen := congrArg List.length hvalue
      simp only [List.length_take, List.length_drop, List.length_cons, List.length_nil] at hlen
      have : length.toNat = (2 : UInt16).toNat := by
        show length.toNat = 2
        omega
      exact absurd (UInt16.toNat_inj.mp this) htwo
    . rfl

theorem storeTlv_eq {payload : Bytes} {type : LLDPTlvType} {length : UInt16} {offset : Nat}
    (hlength : offset + length.toNat ≤ payload.length) (neighbor : LLDPNeighbor) :
    storeTlv payload type length offset neighbor
      =
    storeEntry neighbor ⟨type.byte.toNat, (payload.drop offset).take length.toNat⟩ := by
  have hempty : (payload.drop offset).take length.toNat = [] ↔ length.toNat < 1 := by
    rw [← List.length_eq_zero_iff, List.length_take, List.length_drop]
    omega
  have hbyte : ∀ n : UInt8, type = ⟨n⟩ ↔ type.byte.toNat = n.toNat := by
    intro n
    rcases type with ⟨byte⟩
    simp [← UInt8.toNat_inj]
  have hone : readString payload (offset + 1) ((length.toNat : Int) - 1)
      = if length.toNat < 1 then .error .lengthError
        else .ok (((payload.drop offset).take length.toNat).drop 1) := readString_eq 1 hlength
  have hzero : readString payload offset length.toNat
      = .ok ((payload.drop offset).take length.toNat) := by
    simpa using readString_eq 0 hlength
  unfold storeTlv storeEntry
  simp only [LLDPTlvType.chassisId, LLDPTlvType.portId, LLDPTlvType.systemName,
    LLDPTlvType.timeToLive, hbyte, hempty, hone, hzero, UInt8.reduceToNat]
  split
  . split <;> rfl
  . split
    . split <;> rfl
    . split
      . rfl
      . split
        . exact storeTtl_eq hlength neighbor
        . rfl

theorem parseLoop_eq_foldlM (payload : Bytes) (offset : Nat) (neighbor : LLDPNeighbor) :
    parseLoop payload offset neighbor
      =
    (Tlv.scan (payload.drop offset)).foldlM storeEntry neighbor := by
  fun_induction parseLoop payload offset neighbor with
  | case1 offset neighbor h e hinfo =>
    rcases drop_eq_cons_cons h with ⟨hi, lo, hhi, hlo, _⟩
    rcases readTlvInfo_eq hhi hlo with ⟨type, length, hinfo', _⟩
    rw [hinfo] at hinfo'
    contradiction
  | case2 offset neighbor h type length hinfo hover =>
    rw [scan_drop h hinfo, if_pos hover]
    rfl
  | case3 offset neighbor h length hover hinfo =>
    rw [scan_drop h hinfo, if_neg hover, if_pos rfl]
    rfl
  | case4 offset neighbor h type length hinfo hover hend e hstore =>
    rw [storeTlv_eq (by omega)] at hstore
    rw [scan_drop h hinfo, if_neg hover, if_neg hend, List.foldlM_cons, hstore]
    rfl
  | case5 offset neighbor h type length hinfo hover hend neighbor' hstore ih =>
    rw [storeTlv_eq (by omega)] at hstore
    rw [scan_drop h hinfo, if_neg hover, if_neg hend, List.foldlM_cons, hstore]
    exact ih
  | case6 offset neighbor h =>
    rw [Tlv.scan_of_length_lt (by rw [List.length_drop]; omega)]
    rfl

/-! The neighbor that a TLV list describes. -/

def isChassisId (t : Tlv.Entry) : Bool := t.type = 1
def isPortId (t : Tlv.Entry) : Bool := t.type = 2
def isTimeToLive (t : Tlv.Entry) : Bool := t.type = 3 ∧ t.value.length = 2
def isSystemName (t : Tlv.Entry) : Bool := t.type = 5

def EmptyId (t : Tlv.Entry) : Prop := (t.type = 1 ∨ t.type = 2) ∧ t.value = []

instance (t : Tlv.Entry) : Decidable (EmptyId t) := inferInstanceAs (Decidable (_ ∧ _))

def wordOf (value : Bytes) : UInt16 :=
  match value with
  | [hi, lo] => (hi.toUInt16 <<< 8) ||| lo.toUInt16
  | _ => 0

def describe (neighbor : LLDPNeighbor) (ts : List Tlv.Entry) : LLDPNeighbor where
  chassisId := ((Tlv.lastValue isChassisId ts).map (List.drop 1)).getD neighbor.chassisId
  portId := ((Tlv.lastValue isPortId ts).map (List.drop 1)).getD neighbor.portId
  systemName := (Tlv.lastValue isSystemName ts).getD neighbor.systemName
  ttl := ((Tlv.lastValue isTimeToLive ts).map wordOf).getD neighbor.ttl

theorem storeEntry_of_emptyId {t : Tlv.Entry} (h : EmptyId t) (neighbor : LLDPNeighbor) :
    storeEntry neighbor t = .error .lengthError := by
  unfold storeEntry
  rcases h with ⟨htype | htype, hvalue⟩
  . simp [htype, hvalue]
  . simp [htype, hvalue]

theorem storeEntry_of_not_emptyId {t : Tlv.Entry} (h : ¬EmptyId t) (neighbor : LLDPNeighbor) :
    storeEntry neighbor t = .ok (describe neighbor [t]) := by
  rcases t with ⟨type, value⟩
  unfold EmptyId at h
  unfold storeEntry describe
  simp only [Tlv.lastValue_cons, Tlv.lastValue_nil, Option.none_or, isChassisId, isPortId,
    isSystemName, isTimeToLive]
  by_cases h1 : type = 1
  . simp [h1] at h ⊢
    exact h
  . by_cases h2 : type = 2
    . simp [h2] at h ⊢
      exact h
    . by_cases h5 : type = 5
      . simp [h5]
      . by_cases h3 : type = 3
        . subst h3
          by_cases hlen : value.length = 2
          . rcases List.length_eq_two.mp hlen with ⟨hi, lo, rfl⟩
            simp [wordOf]
          . simp only [Nat.reduceEqDiff, if_false, if_true]
            split
            . next hi lo => exact absurd rfl hlen
            . simp [hlen]
        . simp [h1, h2, h3, h5]

theorem describe_describe (neighbor : LLDPNeighbor) (t : Tlv.Entry) (ts : List Tlv.Entry) :
    describe (describe neighbor [t]) ts = describe neighbor (t :: ts) := by
  have hor : ∀ (α : Type) (f : Bytes → α) (o o' : Option Bytes) (x : α),
      (o.map f).getD ((o'.map f).getD x) = ((o.or o').map f).getD x := by
    intro α f o o' x
    cases o <;> rfl
  have hid : ∀ (o o' : Option Bytes) (x : Bytes), o.getD (o'.getD x) = (o.or o').getD x := by
    intro o o' x
    cases o <;> rfl
  simp only [describe, Tlv.lastValue_cons _ _ ts, Tlv.lastValue_cons _ _ [],
    Tlv.lastValue_nil, Option.none_or, hor, hid]

theorem foldlM_storeEntry_of_emptyId {ts : List Tlv.Entry} (h : ∃ t ∈ ts, EmptyId t)
    (neighbor : LLDPNeighbor) : ts.foldlM storeEntry neighbor = .error .lengthError := by
  induction ts generalizing neighbor with
  | nil => simp at h
  | cons t ts ih =>
    rw [List.foldlM_cons]
    by_cases ht : EmptyId t
    . rw [storeEntry_of_emptyId ht]
      rfl
    . rw [storeEntry_of_not_emptyId ht]
      refine ih ?_ _
      simpa [ht] using h

theorem foldlM_storeEntry_of_not_emptyId {ts : List Tlv.Entry} (h : ¬∃ t ∈ ts, EmptyId t)
    (neighbor : LLDPNeighbor) : ts.foldlM storeEntry neighbor = .ok (describe neighbor ts) := by
  induction ts generalizing neighbor with
  | nil => rfl
  | cons t ts ih =>
    have ht : ¬EmptyId t := fun ht => h ⟨t, by simp, ht⟩
    have hts : ¬∃ t ∈ ts, EmptyId t := fun ⟨t', ht', hempty⟩ => h ⟨t', by simp [ht'], hempty⟩
    rw [List.foldlM_cons, storeEntry_of_not_emptyId ht]
    exact (ih hts _).trans (congrArg Except.ok (describe_describe neighbor t ts))

def tlvs (payload : Bytes) : List Tlv.Entry := Tlv.scan (payload.drop 14)

/--
`parse` reads every payload inside its bounds, and throws exactly on a chassis or port id TLV of
length 0.
-/
theorem parse_eq (payload : Bytes) (ttl : UInt16) :
    parse payload ttl
      =
    if ∃ t ∈ tlvs payload, EmptyId t then
      .error .lengthError
    else
      .ok (describe { ttl := ttl } (tlvs payload)) := by
  rw [parse, parseLoop_eq_foldlM]
  split
  . next h => exact foldlM_storeEntry_of_emptyId h _
  . next h => exact foldlM_storeEntry_of_not_emptyId h _

end LLDPParser

end NetOrc
