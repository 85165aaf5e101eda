import NetOrc.Data.BigEndian

/-!
This module contains type-length-value lists whose entries start with a 16-bit word in network order,
7 bits of type and 9 bits of length. An entry of type 0 ends the list.
-/

namespace Tlv

open BigEndian

structure Entry where
  type : Nat
  value : List UInt8
  deriving DecidableEq, Repr

/--
The entries of a byte string up to the end entry, the first entry that overruns the string, or its
end.
-/
def scan (b : List UInt8) : List Entry :=
  match b with
  | hi :: lo :: rest =>
    let word := hi.toNat * 256 + lo.toNat
    if word / 512 = 0 then
      []
    else if rest.length < word % 512 then
      []
    else
      ⟨word / 512, rest.take (word % 512)⟩ :: scan (rest.drop (word % 512))
  | _ => []
termination_by b.length
decreasing_by
  simp only [List.length_drop, List.length_cons]
  omega

theorem scan_cons_cons (hi lo : UInt8) (rest : List UInt8) :
    scan (hi :: lo :: rest)
      =
    if (hi.toNat * 256 + lo.toNat) / 512 = 0 then
      []
    else if rest.length < (hi.toNat * 256 + lo.toNat) % 512 then
      []
    else
      ⟨(hi.toNat * 256 + lo.toNat) / 512, rest.take ((hi.toNat * 256 + lo.toNat) % 512)⟩
        :: scan (rest.drop ((hi.toNat * 256 + lo.toNat) % 512)) := by
  rw [scan]

theorem scan_of_length_lt {b : List UInt8} (h : b.length < 2) : scan b = [] := by
  match b with
  | [] => rw [scan]; simp
  | [_] => rw [scan]; simp
  | _ :: _ :: _ =>
    simp only [List.length_cons] at h
    omega

def lastValue (p : Entry → Bool) (ts : List Entry) : Option (List UInt8) :=
  ((ts.filter p).getLast?).map Entry.value

@[simp]
theorem lastValue_nil (p : Entry → Bool) : lastValue p [] = none := rfl

theorem lastValue_cons (p : Entry → Bool) (t : Entry) (ts : List Entry) :
    lastValue p (t :: ts) = (lastValue p ts).or (if p t then some t.value else none) := by
  unfold lastValue
  by_cases hp : p t
  . rw [List.filter_cons_of_pos hp, List.getLast?_cons, if_pos hp]
    cases (ts.filter p).getLast? <;> rfl
  . rw [List.filter_cons_of_neg hp, if_neg hp, Option.or_none]

theorem lastValue_isSome_iff (p : Entry → Bool) (ts : List Entry) :
    (lastValue p ts).isSome ↔ ∃ t ∈ ts, p t := by
  induction ts with
  | nil => simp
  | cons t ts ih =>
    rw [lastValue_cons, Option.isSome_or, Bool.or_eq_true, ih]
    by_cases hp : p t
    . simp [hp]
    . simp [hp]

def closed (b : List UInt8) : Bool :=
  match b with
  | hi :: lo :: rest =>
    let word := hi.toNat * 256 + lo.toNat
    if word / 512 = 0 then
      true
    else if rest.length < word % 512 then
      false
    else
      closed (rest.drop (word % 512))
  | [hi] => hi.toNat / 2 = 0
  | [] => false
termination_by b.length
decreasing_by
  simp only [List.length_drop, List.length_cons]
  omega

/--
Whether a byte string consists of entries, each with all bytes of its value, up to an end entry or to the
end of the string.
-/
def whole (b : List UInt8) : Bool :=
  match b with
  | hi :: lo :: rest =>
    let word := hi.toNat * 256 + lo.toNat
    if rest.length < word % 512 then
      false
    else if word / 512 = 0 then
      true
    else
      whole (rest.drop (word % 512))
  | [_] => false
  | [] => true
termination_by b.length
decreasing_by
  simp only [List.length_drop, List.length_cons]
  omega

theorem scan_append_of_closed {b : List UInt8} (h : closed b) (t : List UInt8) :
    scan (b ++ t) = scan b := by
  fun_induction closed b with
  | case1 hi lo rest word hend =>
    rw [List.cons_append, List.cons_append, scan_cons_cons, scan_cons_cons, if_pos hend, if_pos hend]
  | case2 hi lo rest word hend hover => contradiction
  | case3 hi lo rest word hend hover ih =>
    have hlen : word % 512 ≤ rest.length := Nat.le_of_not_lt hover
    have hover' : ¬(rest ++ t).length < word % 512 := by
      rw [List.length_append]
      omega
    rw [List.cons_append, List.cons_append, scan_cons_cons, scan_cons_cons, if_neg hend, if_neg hend,
      if_neg hover, if_neg hover', List.take_append_of_le_length hlen,
      List.drop_append_of_le_length hlen, ih h]
  | case4 hi =>
    have hlast : hi.toNat / 2 = 0 := of_decide_eq_true h
    rw [scan_of_length_lt (b := [hi]) (by simp)]
    match t with
    | [] => exact scan_of_length_lt (by simp)
    | lo :: t =>
      have hlo := lo.toNat_lt
      rw [List.cons_append, List.nil_append, scan_cons_cons, if_pos (by omega)]
  | case5 => contradiction

theorem exists_mem_scan_append {b : List UInt8} (h : ¬closed b) :
    ∃ t, ⟨1, []⟩ ∈ scan (b ++ t) := by
  have hempty : scan [0x02, 0x00] = [⟨1, []⟩] := by
    simp [scan_cons_cons, scan_of_length_lt]
  fun_induction closed b with
  | case1 hi lo rest word hend => simp at h
  | case2 hi lo rest word hend hover =>
    -- complete the entry that overruns the list
    refine ⟨List.replicate (word % 512 - rest.length) 0 ++ [0x02, 0x00], ?_⟩
    have hlen : (rest ++ List.replicate (word % 512 - rest.length) 0).length = word % 512 := by
      rw [List.length_append, List.length_replicate]
      omega
    rw [List.cons_append, List.cons_append, scan_cons_cons, if_neg hend, ← List.append_assoc,
      if_neg (by rw [List.length_append, hlen]; omega), List.drop_left' hlen, hempty]
    simp
  | case3 hi lo rest word hend hover ih =>
    rcases ih h with ⟨t, ht⟩
    refine ⟨t, ?_⟩
    have hlen : word % 512 ≤ rest.length := Nat.le_of_not_lt hover
    rw [List.cons_append, List.cons_append, scan_cons_cons, if_neg hend,
      if_neg (by rw [List.length_append]; omega), List.drop_append_of_le_length hlen]
    exact List.mem_cons_of_mem _ ht
  | case4 hi =>
    have hlast : ¬hi.toNat / 2 = 0 := by simpa using h
    have hlen := List.length_replicate (n := hi.toNat * 256 % 512) (a := (0 : UInt8))
    refine ⟨0 :: (List.replicate (hi.toNat * 256 % 512) 0 ++ [0x02, 0x00]), ?_⟩
    have hzero : (0 : UInt8).toNat = 0 := rfl
    rw [List.cons_append, List.nil_append, scan_cons_cons, hzero, Nat.add_zero, if_neg (by omega),
      if_neg (by rw [List.length_append, hlen]; omega), List.drop_left' hlen, hempty]
    simp
  | case5 => exact ⟨[0x02, 0x00], by rw [List.nil_append, hempty]; simp⟩

/-! The serialised form. -/

def header (type length : Nat) : List UInt8 := bytes16 (.ofNat (type <<< 9 ||| length))

def Entry.WellFormed (t : Entry) : Prop := t.type ≠ 0 ∧ t.type < 128 ∧ t.value.length < 512

instance (t : Entry) : Decidable t.WellFormed := inferInstanceAs (Decidable (_ ∧ _ ∧ _))

def Entry.enc (t : Entry) : List UInt8 := header t.type t.value.length ++ t.value

def enc (ts : List Entry) : List UInt8 := ts.flatMap Entry.enc

inductive Tail : List UInt8 → Prop where
  | nil : Tail []
  | ended {value : List UInt8} (hvalue : value.length < 512) (rest : List UInt8) :
    Tail (header 0 value.length ++ value ++ rest)
  | overrun {type length : Nat} {rest : List UInt8} (htype : type < 128) (hlength : length < 512)
    (hover : rest.length < length) : Tail (header type length ++ rest)
  | stray (b : UInt8) : Tail [b]

theorem header_eq {type length : Nat} (htype : type < 128) (hlength : length < 512) :
    ∃ hi lo, header type length = [hi, lo] ∧ hi.toNat * 256 + lo.toNat = type * 512 + length := by
  refine ⟨_, _, rfl, ?_⟩
  rw [← Nat.shiftLeft_add_eq_or_of_lt (i := 9) hlength, Nat.shiftLeft_eq]
  simp only [UInt16.toNat_ofNat', UInt8.toNat_ofNat']
  omega

theorem scan_header_append {type length : Nat} (htype : type < 128) (hlength : length < 512)
    (r : List UInt8) :
    scan (header type length ++ r)
      =
    if type = 0 then
      []
    else if r.length < length then
      []
    else
      ⟨type, r.take length⟩ :: scan (r.drop length) := by
  rcases header_eq htype hlength with ⟨hi, lo, hheader, hword⟩
  have hdiv : (type * 512 + length) / 512 = type := by omega
  have hmod : (type * 512 + length) % 512 = length := by omega
  rw [hheader, List.cons_append, List.cons_append, List.nil_append, scan_cons_cons, hword, hdiv, hmod]

theorem scan_enc_append {t : Entry} (h : t.WellFormed) (r : List UInt8) :
    scan (t.enc ++ r) = t :: scan r := by
  rw [Entry.enc, List.append_assoc, scan_header_append h.2.1 h.2.2, if_neg h.1, if_neg, List.take_left,
    List.drop_left]
  rw [List.length_append]
  omega

theorem header_div_mod (hi lo : UInt8) :
    header ((hi.toNat * 256 + lo.toNat) / 512) ((hi.toNat * 256 + lo.toNat) % 512) = [hi, lo] := by
  have hhi := hi.toNat_lt
  have hlo := lo.toNat_lt
  have htype : (hi.toNat * 256 + lo.toNat) / 512 < 128 := by omega
  have hlength : (hi.toNat * 256 + lo.toNat) % 512 < 512 := Nat.mod_lt _ (by decide)
  rcases header_eq htype hlength with ⟨hi', lo', hheader, hword⟩
  have hlo' := lo'.toNat_lt
  have hhi : hi' = hi := by
    rw [← UInt8.toNat_inj]
    omega
  have hlo : lo' = lo := by
    rw [← UInt8.toNat_inj]
    omega
  rw [hheader, hhi, hlo]

theorem whole_header_append {type length : Nat} (htype : type < 128) (hlength : length < 512)
    (r : List UInt8) :
    whole (header type length ++ r)
      =
    if r.length < length then
      false
    else if type = 0 then
      true
    else
      whole (r.drop length) := by
  rcases header_eq htype hlength with ⟨hi, lo, hheader, hword⟩
  have hdiv : (type * 512 + length) / 512 = type := by omega
  have hmod : (type * 512 + length) % 512 = length := by omega
  rw [hheader, List.cons_append, List.cons_append, List.nil_append, whole, hword, hdiv, hmod]

theorem whole_enc_append {t : Entry} (h : t.WellFormed) (r : List UInt8) :
    whole (t.enc ++ r) = whole r := by
  rw [Entry.enc, List.append_assoc, whole_header_append h.2.1 h.2.2, if_neg, if_neg h.1, List.drop_left]
  rw [List.length_append]
  omega

/--
The whole byte strings are the serialised lists, with or without an end entry. What follows an end entry
is padding.
-/
theorem whole_iff (b : List UInt8) :
    whole b ↔ ∃ ts r, (∀ t ∈ ts, t.WellFormed) ∧ b = enc ts ++ r
      ∧ (r = [] ∨ ∃ value padding : List UInt8, value.length < 512
        ∧ r = header 0 value.length ++ value ++ padding) := by
  constructor
  . intro h
    fun_induction whole b with
    | case1 hi lo rest word hover => contradiction
    | case2 hi lo rest word hover hend =>
      have hheader := header_div_mod hi lo
      have hlen : (rest.take (word % 512)).length = word % 512 := List.length_take_of_le (by omega)
      refine ⟨[], hi :: lo :: rest, by simp, rfl, .inr ⟨rest.take (word % 512), rest.drop (word % 512),
        by omega, ?_⟩⟩
      rw [hlen, List.append_assoc, List.take_append_drop, ← hend, hheader]
      rfl
    | case3 hi lo rest word hover hend ih =>
      rcases ih h with ⟨ts, r, hts, hrest, hr⟩
      have hheader := header_div_mod hi lo
      have hhi := hi.toNat_lt
      have hlo := lo.toNat_lt
      have hlen : (rest.take (word % 512)).length = word % 512 := List.length_take_of_le (by omega)
      refine ⟨⟨word / 512, rest.take (word % 512)⟩ :: ts, r, ?_, ?_, hr⟩
      . intro t ht
        rcases List.mem_cons.mp ht with rfl | ht
        . exact ⟨hend, Nat.div_lt_of_lt_mul (by omega), by dsimp only; omega⟩
        . exact hts t ht
      . rw [enc, List.flatMap_cons, ← enc, List.append_assoc, ← hrest, Entry.enc]
        dsimp only
        rw [hlen, hheader, List.append_assoc, List.take_append_drop]
        rfl
    | case4 => contradiction
    | case5 => exact ⟨[], [], by simp, rfl, .inl rfl⟩
  . rintro ⟨ts, r, hts, rfl, hr⟩
    induction ts with
    | nil =>
      rcases hr with rfl | ⟨value, padding, hvalue, rfl⟩
      . rw [enc, List.flatMap_nil, List.append_nil, whole]
      . rw [enc, List.flatMap_nil, List.nil_append, List.append_assoc, whole_header_append (by decide) hvalue,
          if_neg (by rw [List.length_append]; omega), if_pos rfl]
    | cons t ts ih =>
      rw [enc, List.flatMap_cons, List.append_assoc, whole_enc_append (hts t (by simp))]
      exact ih (fun u hu => hts u (by simp [hu]))

theorem Tail.scan_eq {b : List UInt8} (h : Tail b) : scan b = [] := by
  cases h with
  | nil =>
    apply scan_of_length_lt
    decide
  | ended hvalue rest =>
    rw [List.append_assoc, scan_header_append (by decide) hvalue, if_pos rfl]
  | overrun htype hlength hover =>
    rw [scan_header_append htype hlength, if_pos hover, ite_self]
  | stray b =>
    apply scan_of_length_lt
    simp

theorem scan_enc_append_tail {ts : List Entry} (hts : ∀ t ∈ ts, t.WellFormed) {b : List UInt8}
    (hb : Tail b) : scan (enc ts ++ b) = ts := by
  induction ts with
  | nil => exact hb.scan_eq
  | cons t ts ih =>
    have ht : t.WellFormed := hts t (by simp)
    have hts : ∀ u ∈ ts, u.WellFormed := fun u hu => hts u (by simp [hu])
    rw [enc, List.flatMap_cons, List.append_assoc, scan_enc_append ht]
    exact congrArg (t :: ·) (ih hts)

end Tlv
