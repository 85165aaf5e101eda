import NetOrc.Data.TextFormat
import NetOrc.Data.Trim
import NetOrc.OpenFlow.Basic

/-!
This module contains `stoi`, characterises the strings that it reads, and compares them with the decimal
numerals.
-/

namespace NetOrc

open Oflib
open TextFormat
open Trim

def isSpace (b : UInt8) : Bool := b = space || (0x09 ≤ b && b ≤ 0x0D)

def plus : UInt8 := 0x2B

def readSign (bytes : Bytes) : Bool × Bytes :=
  match bytes with
  | [] => (false, [])
  | b :: rest => if b = minus then (true, rest) else if b = plus then (false, rest) else (false, bytes)

/--
`std::stoi`: blanks, a sign, and as many digits as there are. What follows them is ignored. It throws if
there are no digits, or if the value is no `int`.
-/
def stoi (str : Bytes) : Option Int :=
  let (negative, rest) := readSign (str.dropWhile isSpace)
  (numeral (rest.takeWhile isDigit)).bind (fun n =>
    let value : Int := if negative then -n else n
    if -0x80000000 ≤ value ∧ value ≤ 0x7FFFFFFF then some value else none)

inductive IsSign : Bytes → Bool → Prop where
  | none : IsSign [] false
  | plus : IsSign [plus] false
  | minus : IsSign [minus] true

def ReadsNumber (str : Bytes) (negative : Bool) (n : Nat) : Prop :=
  ∃ blanks sign digits rest, str = blanks ++ (sign ++ (digits ++ rest))
    ∧ (∀ b ∈ blanks, isSpace b) ∧ IsSign sign negative ∧ numeral digits = some n
    ∧ ∀ b ∈ rest.head?, ¬isDigit b

def signed (negative : Bool) (n : Nat) : Int := if negative then -n else n

theorem numeral_eq_some {token : Bytes} {n : Nat} (h : numeral token = some n) :
    token ≠ [] ∧ ∀ b ∈ token, isDigit b := by
  unfold numeral at h
  split at h
  . next htoken => exact ⟨htoken.1, List.all_eq_true.mp htoken.2⟩
  . contradiction

theorem numeral_isSome_iff (token : Bytes) :
    (numeral token).isSome ↔ token ≠ [] ∧ ∀ b ∈ token, isDigit b := by
  unfold numeral
  rw [← List.all_eq_true]
  split
  . next htoken => simpa using htoken
  . next htoken => simpa using htoken

theorem readSign_sound (bytes : Bytes) :
    ∃ sign, IsSign sign (readSign bytes).1 ∧ bytes = sign ++ (readSign bytes).2 := by
  match bytes with
  | [] => exact ⟨[], .none, rfl⟩
  | b :: rest =>
    unfold readSign
    dsimp only
    split
    . next hminus => exact ⟨[minus], .minus, by rw [hminus]; rfl⟩
    . split
      . next hplus => exact ⟨[plus], .plus, by rw [hplus]; rfl⟩
      . exact ⟨[], .none, rfl⟩

theorem isDigit_bounds {b : UInt8} (h : isDigit b) : 0x30 ≤ b.toNat ∧ b.toNat ≤ 0x39 := by
  rw [isDigit, Bool.and_eq_true, decide_eq_true_eq, decide_eq_true_eq, UInt8.le_iff_toNat_le,
    UInt8.le_iff_toNat_le] at h
  exact h

theorem not_isSpace_of_isDigit {b : UInt8} (h : isDigit b) : ¬isSpace b := by
  have hbounds := isDigit_bounds h
  rw [isSpace, Bool.or_eq_true, Bool.and_eq_true, decide_eq_true_eq, decide_eq_true_eq,
    decide_eq_true_eq, UInt8.le_iff_toNat_le, UInt8.le_iff_toNat_le]
  rintro (rfl | ⟨_, hle⟩)
  . revert hbounds
    decide
  . have hle : b.toNat ≤ 0x0D := hle
    omega

theorem readSign_complete {sign : Bytes} {negative : Bool} (hsign : IsSign sign negative) {b : UInt8}
    (hb : isDigit b) (rest : Bytes) :
    readSign (sign ++ b :: rest) = (negative, b :: rest) := by
  have hbounds := isDigit_bounds hb
  cases hsign with
  | none =>
    rw [List.nil_append, readSign, if_neg, if_neg]
    . rintro rfl
      revert hbounds
      decide
    . rintro rfl
      revert hbounds
      decide
  | plus => rfl
  | minus => rfl

theorem head_not_isSpace {sign : Bytes} {negative : Bool} (hsign : IsSign sign negative) {b : UInt8}
    (hb : isDigit b) (rest : Bytes) : ∀ c ∈ (sign ++ b :: rest).head?, ¬isSpace c := by
  intro c hc
  cases hsign with
  | none =>
    cases hc
    exact not_isSpace_of_isDigit hb
  | plus =>
    cases hc
    decide
  | minus =>
    cases hc
    decide

theorem stoi_eq (str : Bytes) :
    stoi str
      =
    (numeral ((readSign (str.dropWhile isSpace)).2.takeWhile isDigit)).bind (fun n =>
      let value := signed (readSign (str.dropWhile isSpace)).1 n
      if -0x80000000 ≤ value ∧ value ≤ 0x7FFFFFFF then some value else none) := rfl

theorem stoi_of_reads {str : Bytes} {negative : Bool} {n : Nat} (h : ReadsNumber str negative n) :
    stoi str
      =
    if -0x80000000 ≤ signed negative n ∧ signed negative n ≤ 0x7FFFFFFF then some (signed negative n)
    else none := by
  rcases h with ⟨blanks, sign, digits, rest, rfl, hblanks, hsign, hdigits, hrest⟩
  have hall := (numeral_eq_some hdigits).2
  have hread : readSign ((blanks ++ (sign ++ (digits ++ rest))).dropWhile isSpace)
      = (negative, digits ++ rest) := by
    match digits with
    | [] => contradiction
    | b :: digits =>
      have hb : isDigit b := hall b (by simp)
      rw [List.cons_append,
        dropWhile_append_of_head hblanks (head_not_isSpace hsign hb (digits ++ rest)),
        readSign_complete hsign hb]
  rw [stoi_eq, hread, takeWhile_append_of_head hall hrest, hdigits]
  rfl

theorem exists_reads_of_stoi {str : Bytes} {i : Int} (h : stoi str = some i) :
    ∃ negative n, ReadsNumber str negative n := by
  rw [stoi_eq] at h
  rcases Option.bind_eq_some_iff.mp h with ⟨n, hn, _⟩
  rcases readSign_sound (str.dropWhile isSpace) with ⟨sign, hsign, hbytes⟩
  refine ⟨_, n, str.takeWhile isSpace, sign, _,
    (readSign (str.dropWhile isSpace)).2.dropWhile isDigit, ?_, ?_, hsign, hn, ?_⟩
  . rw [List.takeWhile_append_dropWhile, ← hbytes, List.takeWhile_append_dropWhile]
  . intro b hb
    exact List.mem_takeWhile_imp hb
  . intro b hb
    have hhead := List.head?_dropWhile_not isDigit (readSign (str.dropWhile isSpace)).2
    rw [Option.mem_def.mp hb] at hhead
    simpa using hhead

theorem stoi_eq_some_iff (str : Bytes) (i : Int) :
    stoi str = some i
      ↔
    ∃ negative n, ReadsNumber str negative n ∧ signed negative n = i
      ∧ -0x80000000 ≤ i ∧ i ≤ 0x7FFFFFFF := by
  constructor
  . intro h
    rcases exists_reads_of_stoi h with ⟨negative, n, hreads⟩
    rw [stoi_of_reads hreads] at h
    split at h
    . next hrange =>
      cases h
      exact ⟨negative, n, hreads, rfl, hrange⟩
    . contradiction
  . rintro ⟨negative, n, hreads, rfl, hrange⟩
    rw [stoi_of_reads hreads, if_pos hrange]

theorem stoi_eq_natCast_iff (str : Bytes) {n : Nat} (hpos : 1 ≤ n) :
    stoi str = some (n : Int) ↔ ReadsNumber str false n ∧ n ≤ 0x7FFFFFFF := by
  rw [stoi_eq_some_iff]
  constructor
  . rintro ⟨negative, m, hreads, hsigned, _, hhi⟩
    cases negative with
    | false =>
      have hm : (m : Int) = n := hsigned
      rw [Int.natCast_inj.mp hm] at hreads
      exact ⟨hreads, by omega⟩
    | true =>
      have hm : -(m : Int) = n := hsigned
      omega
  . rintro ⟨hreads, hhi⟩
    exact ⟨false, n, hreads, rfl, by omega, by omega⟩

example : stoi (text " +12x") = some 12 := by decide

theorem readsNumber_of_numeral {str : Bytes} {n : Nat} (h : numeral str = some n) :
    ReadsNumber str false n :=
  ⟨[], [], str, [], by simp, by simp, .none, h, by simp⟩

end NetOrc
