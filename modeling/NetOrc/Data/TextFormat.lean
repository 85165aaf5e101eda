import Mathlib.Data.List.TakeWhile

/-!
This module contains the text format in which metrics are exposed: one sample a line, which is a name,
labels with quoted values in UTF-8, a value, and a timestamp that may be missing.
-/

namespace TextFormat

def text (s : String) : List UInt8 := s.toList.map (fun c => .ofNat c.toNat)

def tab : UInt8 := 0x09
def lineFeed : UInt8 := 0x0A
def carriageReturn : UInt8 := 0x0D
def space : UInt8 := 0x20
def quote : UInt8 := 0x22
def hash : UInt8 := 0x23
def comma : UInt8 := 0x2C
def minus : UInt8 := 0x2D
def colon : UInt8 := 0x3A
def equalsSign : UInt8 := 0x3D
def backslash : UInt8 := 0x5C
def underscore : UInt8 := 0x5F
def openBrace : UInt8 := 0x7B
def closeBrace : UInt8 := 0x7D

def isBlank (b : UInt8) : Bool := b = space || b = tab

def isDigit (b : UInt8) : Bool := 0x30 ≤ b && b ≤ 0x39

def isNameByte (b : UInt8) : Bool :=
  (0x61 ≤ b && b ≤ 0x7A) || (0x41 ≤ b && b ≤ 0x5A) || isDigit b || b = underscore

/--
Well-formed UTF-8 after a start byte that announced `pending` more bytes, the next of which is between
`lo` and `hi`.
-/
def isUtf8 (pending : Nat) (lo hi : UInt8) (bytes : List UInt8) : Bool :=
  match bytes with
  | [] => pending = 0
  | b :: rest =>
    match pending with
    | 0 =>
      if b ≤ 0x7F then isUtf8 0 0x80 0xBF rest
      else if 0xC2 ≤ b && b ≤ 0xDF then isUtf8 1 0x80 0xBF rest
      else if b = 0xE0 then isUtf8 2 0xA0 0xBF rest
      else if b = 0xED then isUtf8 2 0x80 0x9F rest
      else if 0xE1 ≤ b && b ≤ 0xEF then isUtf8 2 0x80 0xBF rest
      else if b = 0xF0 then isUtf8 3 0x90 0xBF rest
      else if 0xF1 ≤ b && b ≤ 0xF3 then isUtf8 3 0x80 0xBF rest
      else if b = 0xF4 then isUtf8 3 0x80 0x8F rest
      else false
    | pending + 1 => lo ≤ b && b ≤ hi && isUtf8 pending 0x80 0xBF rest

def validUtf8 (bytes : List UInt8) : Bool := isUtf8 0 0x80 0xBF bytes

def decimal (n : Nat) : List UInt8 := (Nat.toDigits 10 n).map (fun c => .ofNat c.toNat)

def decimalInt (i : Int) : List UInt8 :=
  match i with
  | .ofNat n => decimal n
  | .negSucc n => minus :: decimal (n + 1)

def numeral (token : List UInt8) : Option Nat :=
  if token ≠ [] ∧ token.all isDigit then
    some (Nat.ofDigitChars 10 (token.map (fun b => Char.ofNat b.toNat)) 0)
  else
    none

/-! Labels. -/

inductive LabelState where
  | start
  | name (name : List UInt8)
  | equals (name : List UInt8)
  | opening (name : List UInt8)
  | value (name value : List UInt8)
  | escape (name value : List UInt8)
  | after
  deriving DecidableEq, Repr

abbrev Label := List UInt8 × List UInt8

def unescape (b : UInt8) : Option UInt8 :=
  if b = quote || b = backslash then some b else if b = 0x6E then some lineFeed else none

def readLabels (state : LabelState) (bytes : List UInt8) : Option (List Label × List UInt8) :=
  match bytes with
  | [] => none
  | b :: rest =>
    match state with
    | .start =>
      if isBlank b then readLabels .start rest
      else if b = closeBrace then some ([], rest)
      else if isNameByte b && !isDigit b then readLabels (.name [b]) rest
      else none
    | .name name =>
      if isNameByte b then readLabels (.name (name ++ [b])) rest
      else if isBlank b then readLabels (.equals name) rest
      else if b = equalsSign then readLabels (.opening name) rest
      else none
    | .equals name =>
      if isBlank b then readLabels (.equals name) rest
      else if b = equalsSign then readLabels (.opening name) rest
      else none
    | .opening name =>
      if isBlank b then readLabels (.opening name) rest
      else if b = quote then readLabels (.value name []) rest
      else none
    | .value name value =>
      if b = quote then
        if validUtf8 value then
          (readLabels .after rest).map (fun (labels, rest) => ((name, value) :: labels, rest))
        else
          none
      else if b = backslash then readLabels (.escape name value) rest
      else readLabels (.value name (value ++ [b])) rest
    | .escape name value =>
      match unescape b with
      | some c => readLabels (.value name (value ++ [c])) rest
      | none => none
    | .after =>
      if isBlank b then readLabels .after rest
      else if b = comma then readLabels .start rest
      else if b = closeBrace then some ([], rest)
      else none

/-! Samples. -/

structure Sample where
  name : List UInt8
  labels : List Label
  value : Nat
  deriving DecidableEq, Repr

def skipBlanks (bytes : List UInt8) : List UInt8 := bytes.dropWhile isBlank

def token (bytes : List UInt8) : List UInt8 := bytes.takeWhile (fun b => !isBlank b)

def endsSample (bytes : List UInt8) : Bool :=
  let bytes := skipBlanks bytes
  let stamp := token bytes
  let digits := if stamp.head? = some minus then stamp.drop 1 else stamp
  bytes = [] || ((numeral digits).isSome && skipBlanks (bytes.drop stamp.length) = [])

/--
The value of a sample. Only integers are read: the format has floating point values as well.
-/
def readValue (bytes : List UInt8) : Option Nat :=
  let bytes := skipBlanks bytes
  let value := token bytes
  if endsSample (bytes.drop value.length) then numeral value else none

def isMetricNameByte (b : UInt8) : Bool := isNameByte b || b = colon

def readSample (line : List UInt8) : Option Sample :=
  let line := skipBlanks line
  let name := line.takeWhile isMetricNameByte
  if name = [] || name.head?.any isDigit then
    none
  else
    match skipBlanks (line.drop name.length) with
    | [] => none
    | b :: rest =>
      if b = openBrace then
        (readLabels .start rest).bind (fun (labels, rest) =>
          (readValue rest).map (fun value => ⟨name, labels, value⟩))
      else
        (readValue (b :: rest)).map (fun value => ⟨name, [], value⟩)

def isSampleLine (line : List UInt8) : Bool :=
  match skipBlanks line with
  | [] => false
  | b :: _ => b ≠ hash

/--
All samples of an exposition, or nothing if one of its lines is malformed.
-/
def parse (exposition : List UInt8) : Option (List Sample) :=
  ((exposition.splitOn lineFeed).filter isSampleLine).mapM readSample

def samples (exposition : List UInt8) : List Sample :=
  ((exposition.splitOn lineFeed).filter isSampleLine).filterMap readSample

def valueOf (name exposition : List UInt8) : Option Nat :=
  ((samples exposition).find? (fun s => s.name = name)).map Sample.value

/-! What the reader makes of names, values and numbers. -/

/--
A value that can stand between quotes as it is.
-/
def Plain (value : List UInt8) : Prop := quote ∉ value ∧ backslash ∉ value

instance plainDecidable (value : List UInt8) : Decidable (Plain value) :=
  inferInstanceAs (Decidable (_ ∧ _))

def unquote (bytes : List UInt8) : Option (List UInt8 × List UInt8) :=
  match bytes with
  | [] => none
  | b :: rest =>
    if b = quote then
      some ([], rest)
    else if b = backslash then
      match rest with
      | [] => none
      | c :: rest =>
        match unescape c with
        | some c => (unquote rest).map (fun (value, rest) => (c :: value, rest))
        | none => none
    else
      (unquote rest).map (fun (value, rest) => (b :: value, rest))

theorem readLabels_value (name value bytes : List UInt8) :
    readLabels (.value name value) bytes
      =
    match unquote bytes with
    | some (more, rest) =>
      if validUtf8 (value ++ more) then
        (readLabels .after rest).map (fun (labels, rest) => ((name, value ++ more) :: labels, rest))
      else
        none
    | none => none := by
  fun_induction unquote bytes generalizing value with
  | case1 => rfl
  | case2 rest => simp [readLabels]
  | case3 => simp [readLabels, backslash, quote]
  | case4 c rest c' hescape hquote ih =>
    rw [readLabels, if_neg hquote, if_pos rfl, readLabels, hescape]
    dsimp only
    rw [ih]
    cases unquote rest with
    | none => rfl
    | some r => simp
  | case5 c rest hescape hquote =>
    rw [readLabels, if_neg hquote, if_pos rfl, readLabels, hescape]
  | case6 b rest hquote hbackslash ih =>
    rw [readLabels, if_neg hquote, if_neg hbackslash, ih]
    cases unquote rest with
    | none => rfl
    | some r => simp

theorem unquote_plain {value : List UInt8} (h : Plain value) (rest : List UInt8) :
    unquote (value ++ quote :: rest) = some (value, rest) := by
  induction value with
  | nil =>
    rw [List.nil_append, unquote.eq_def]
    rfl
  | cons b value ih =>
    have hquote : b ≠ quote := fun heq => h.1 (by simp [heq])
    have hbackslash : b ≠ backslash := fun heq => h.2 (by simp [heq])
    have hplain : Plain value :=
      ⟨fun hmem => h.1 (by simp [hmem]), fun hmem => h.2 (by simp [hmem])⟩
    rw [List.cons_append, unquote.eq_def]
    dsimp only
    rw [if_neg hquote, if_neg hbackslash, ih hplain]
    rfl

/--
A reading of a value of length `n` that comes to nothing, is too short, or goes on up to `rest`.
-/
def Strays (n : Nat) (rest : List UInt8) (result : Option (List UInt8 × List UInt8)) : Prop :=
  result = none ∨ (∃ v r, result = some (v, r) ∧ v.length < n) ∨ ∃ v, result = some (v, rest)

theorem Strays.cons {n m : Nat} {rest : List UInt8} {result : Option (List UInt8 × List UInt8)}
    (h : Strays n rest result) (hlt : n < m) (b : UInt8) :
    Strays m rest (result.map (fun (value, rest) => (b :: value, rest))) := by
  rcases h with rfl | ⟨v, r, rfl, hshort⟩ | ⟨v, rfl⟩
  . exact .inl rfl
  . refine .inr (.inl ⟨b :: v, r, rfl, ?_⟩)
    rw [List.length_cons]
    omega
  . exact .inr (.inr ⟨b :: v, rfl⟩)

theorem not_plain_of_cons {b : UInt8} {value : List UInt8} (h : ¬Plain (b :: value)) (hquote : b ≠ quote)
    (hbackslash : b ≠ backslash) : ¬Plain value := by
  intro hplain
  apply h
  exact ⟨by simp [Ne.symm hquote, hplain.1], by simp [Ne.symm hbackslash, hplain.2]⟩

/--
A value that is not plain reads back shorter, or not at all, or its last byte escapes the closing
quote, and the value runs on to the quote that opens the next one.
-/
theorem unquote_not_plain {value between : List UInt8} (h : ¬Plain value) (hbetween : Plain between)
    (rest : List UInt8) :
    Strays value.length rest (unquote (value ++ quote :: (between ++ quote :: rest))) := by
  generalize hn : value.length = n
  induction n using Nat.strongRecOn generalizing value with
  | ind n ih =>
    match value with
    | [] => exact absurd ⟨List.not_mem_nil, List.not_mem_nil⟩ h
    | b :: value =>
      rw [List.length_cons] at hn
      rw [List.cons_append, unquote.eq_def]
      dsimp only
      by_cases hquote : b = quote
      . rw [if_pos hquote]
        exact .inr (.inl ⟨[], _, rfl, by rw [List.length_nil]; omega⟩)
      . rw [if_neg hquote]
        by_cases hbackslash : b = backslash
        . rw [if_pos hbackslash]
          match value with
          | [] =>
            -- the backslash takes the quote behind the value for its own
            have hescape : unescape quote = some quote := rfl
            rw [List.nil_append]
            dsimp only
            rw [hescape]
            dsimp only
            rw [unquote_plain hbetween]
            exact .inr (.inr ⟨_, rfl⟩)
          | c :: value =>
            rw [List.length_cons] at hn
            rw [List.cons_append]
            dsimp only
            cases unescape c with
            | none => exact .inl rfl
            | some c' =>
              dsimp only
              by_cases hplain : Plain value
              . rw [unquote_plain hplain]
                refine .inr (.inl ⟨_, _, rfl, ?_⟩)
                simp only [List.length_cons]
                omega
              . exact (ih value.length (by omega) hplain rfl).cons (by omega) c'
        . rw [if_neg hbackslash]
          have hplain := not_plain_of_cons h hquote hbackslash
          exact (ih value.length (by omega) hplain rfl).cons (by omega) b

theorem readLabels_name {name : List UInt8} (hname : ∀ b ∈ name, isNameByte b)
    (front rest : List UInt8) :
    readLabels (.name front) (name ++ equalsSign :: rest)
      =
    readLabels (.opening (front ++ name)) rest := by
  induction name generalizing front with
  | nil =>
    rw [List.nil_append, List.append_nil, readLabels, if_neg (by decide), if_neg (by decide), if_pos rfl]
  | cons b name ih =>
    have hb : isNameByte b := hname b (by simp)
    have hrest : ∀ b ∈ name, isNameByte b := fun c hc => hname c (by simp [hc])
    rw [List.cons_append, readLabels, if_pos hb, ih hrest, List.append_assoc]
    rfl

theorem not_isBlank_of_isNameByte {b : UInt8} (h : isNameByte b) : isBlank b = false := by
  by_contra hblank
  rw [Bool.not_eq_false, isBlank, Bool.or_eq_true, decide_eq_true_eq, decide_eq_true_eq] at hblank
  rcases hblank with rfl | rfl <;> revert h <;> decide

theorem ne_closeBrace_of_isNameByte {b : UInt8} (h : isNameByte b) : b ≠ closeBrace := by
  rintro rfl
  revert h
  decide

def isLabelName (name : List UInt8) : Bool :=
  match name with
  | [] => false
  | b :: name => isNameByte b && !isDigit b && name.all isNameByte

theorem readLabels_start {name : List UInt8} (hname : isLabelName name) (rest : List UInt8) :
    readLabels .start (name ++ equalsSign :: quote :: rest) = readLabels (.value name []) rest := by
  match name with
  | [] => contradiction
  | b :: name =>
    simp only [isLabelName, Bool.and_eq_true, List.all_eq_true] at hname
    rw [List.cons_append, readLabels, not_isBlank_of_isNameByte hname.1.1, if_neg (by decide),
      if_neg (ne_closeBrace_of_isNameByte hname.1.1), if_pos (by simpa using hname.1),
      readLabels_name hname.2]
    rfl

theorem readLabels_next {name : List UInt8} (hname : isLabelName name) (rest : List UInt8) :
    readLabels .after (comma :: (name ++ equalsSign :: quote :: rest))
      =
    readLabels (.value name []) rest := by
  rw [readLabels, if_neg (by decide), if_pos rfl, readLabels_start hname]

theorem readLabels_plain (name : List UInt8) {value : List UInt8} (hplain : Plain value)
    (hutf8 : validUtf8 value) (rest : List UInt8) :
    readLabels (.value name []) (value ++ quote :: rest)
      =
    (readLabels .after rest).map (fun (labels, rest) => ((name, value) :: labels, rest)) := by
  rw [readLabels_value, unquote_plain hplain]
  dsimp only [List.nil_append]
  rw [if_pos hutf8]

theorem validUtf8_of_ascii {bytes : List UInt8} (h : ∀ b ∈ bytes, b ≤ 0x7F) : validUtf8 bytes := by
  unfold validUtf8
  induction bytes with
  | nil => rfl
  | cons b bytes ih =>
    rw [isUtf8, if_pos (h b (by simp))]
    exact ih (fun c hc => h c (by simp [hc]))

def announced (b : UInt8) : Option (Nat × UInt8 × UInt8) :=
  if b ≤ 0x7F then some (0, 0x80, 0xBF)
  else if 0xC2 ≤ b && b ≤ 0xDF then some (1, 0x80, 0xBF)
  else if b = 0xE0 then some (2, 0xA0, 0xBF)
  else if b = 0xED then some (2, 0x80, 0x9F)
  else if 0xE1 ≤ b && b ≤ 0xEF then some (2, 0x80, 0xBF)
  else if b = 0xF0 then some (3, 0x90, 0xBF)
  else if 0xF1 ≤ b && b ≤ 0xF3 then some (3, 0x80, 0xBF)
  else if b = 0xF4 then some (3, 0x80, 0x8F)
  else none

theorem isUtf8_start (lo hi b : UInt8) (rest : List UInt8) :
    isUtf8 0 lo hi (b :: rest)
      =
    (announced b).any (fun next => isUtf8 next.1 next.2.1 next.2.2 rest) := by
  simp only [isUtf8, announced, apply_ite (Option.any _), Option.any_some, Option.any_none]

theorem isUtf8_zero (lo hi : UInt8) (bytes : List UInt8) : isUtf8 0 lo hi bytes = validUtf8 bytes := by
  cases bytes with
  | nil => rfl
  | cons b rest => rw [validUtf8, isUtf8_start, isUtf8_start]

theorem isUtf8_next (pending : Nat) (lo hi b : UInt8) (rest : List UInt8) :
    isUtf8 (pending + 1) lo hi (b :: rest)
      ↔
    (lo ≤ b ∧ b ≤ hi) ∧ isUtf8 pending 0x80 0xBF rest := by
  simp [isUtf8]

theorem isUtf8_append {pending : Nat} {lo hi : UInt8} {bytes : List UInt8}
    (h : isUtf8 pending lo hi bytes) {rest : List UInt8} (hrest : validUtf8 rest) :
    isUtf8 pending lo hi (bytes ++ rest) := by
  induction bytes generalizing pending lo hi with
  | nil =>
    have hpending : pending = 0 := by simpa [isUtf8] using h
    subst hpending
    rwa [List.nil_append, isUtf8_zero]
  | cons b bytes ih =>
    cases pending with
    | zero =>
      rw [isUtf8_start, Option.any_eq_true] at h
      rcases h with ⟨next, hnext, h⟩
      rw [List.cons_append, isUtf8_start, Option.any_eq_true]
      exact ⟨next, hnext, ih h⟩
    | succ pending =>
      rw [isUtf8_next] at h
      rw [List.cons_append, isUtf8_next]
      exact ⟨h.1, ih h.2⟩

theorem validUtf8_cons {b : UInt8} (hb : b ≤ 0x7F) {rest : List UInt8} (h : validUtf8 rest) :
    validUtf8 (b :: rest) := by
  rw [validUtf8, isUtf8, if_pos hb]
  exact h

theorem validUtf8_append {bytes rest : List UInt8} (hbytes : validUtf8 bytes) (hrest : validUtf8 rest) :
    validUtf8 (bytes ++ rest) :=
  isUtf8_append hbytes hrest

theorem le_of_announced {b : UInt8} {next : Nat × UInt8 × UInt8} (h : next ∈ announced b) :
    0x80 ≤ next.2.1 := by
  have hall : (announced b).all (fun next => 0x80 ≤ next.2.1) := by
    simp [announced, apply_ite (Option.all _)]
  exact of_decide_eq_true ((Option.all_eq_true _ _).mp hall next h)

theorem isUtf8_flatMap {f : UInt8 → List UInt8} (hascii : ∀ b ≤ 0x7F, validUtf8 (f b))
    (hother : ∀ b > 0x7F, f b = [b]) {pending : Nat} {lo hi : UInt8} {bytes : List UInt8}
    (hlo : 0x80 ≤ lo) (h : isUtf8 pending lo hi bytes) : isUtf8 pending lo hi (bytes.flatMap f) := by
  induction bytes generalizing pending lo hi with
  | nil => exact h
  | cons b bytes ih =>
    rw [List.flatMap_cons]
    cases pending with
    | zero =>
      rw [isUtf8_start, Option.any_eq_true] at h
      rcases h with ⟨next, hnext, h⟩
      by_cases hb : b ≤ 0x7F
      . have hnext' : next = (0, 0x80, 0xBF) := by simpa [announced, hb, eq_comm] using hnext
        subst hnext'
        rw [isUtf8_zero]
        exact validUtf8_append (hascii b hb) (ih (by decide) h)
      . rw [hother b (UInt8.not_le.mp hb), List.singleton_append, isUtf8_start, Option.any_eq_true]
        exact ⟨next, hnext, ih (le_of_announced hnext) h⟩
    | succ pending =>
      rw [isUtf8_next] at h
      have hb : 0x7F < b := by
        rw [UInt8.lt_iff_toNat_lt]
        have hlo : 0x80 ≤ lo.toNat := UInt8.le_iff_toNat_le.mp hlo
        have hb : lo.toNat ≤ b.toNat := UInt8.le_iff_toNat_le.mp h.1.1
        exact hlo.trans hb
      rw [hother b hb, List.singleton_append, isUtf8_next]
      exact ⟨h.1, ih (by decide) h.2⟩

theorem byte_of_isDigit {c : Char} (h : c.isDigit) :
    isDigit (.ofNat c.toNat) ∧ Char.ofNat (UInt8.ofNat c.toNat).toNat = c := by
  have hbounds : 48 ≤ c.toNat ∧ c.toNat ≤ 57 := by
    simpa [Char.isDigit, UInt32.le_iff_toNat_le] using h
  have hbyte : (UInt8.ofNat c.toNat).toNat = c.toNat := by
    rw [UInt8.toNat_ofNat']
    omega
  apply And.intro
  . simp only [isDigit, Bool.and_eq_true, decide_eq_true_eq, UInt8.le_iff_toNat_le, hbyte]
    exact hbounds
  . rw [hbyte, Char.ofNat_toNat]

theorem isDigit_of_mem_decimal {n : Nat} {b : UInt8} (h : b ∈ decimal n) : isDigit b := by
  rcases List.mem_map.mp h with ⟨c, hc, rfl⟩
  exact (byte_of_isDigit (Nat.isDigit_of_mem_toDigits (by decide) (by decide) hc)).1

theorem decimal_ne_nil (n : Nat) : decimal n ≠ [] := by
  rw [decimal, ne_eq, List.map_eq_nil_iff]
  exact Nat.toDigits_ne_nil

theorem numeral_decimal (n : Nat) : numeral (decimal n) = some n := by
  rw [numeral, if_pos ⟨decimal_ne_nil n, List.all_eq_true.mpr (fun b hb => isDigit_of_mem_decimal hb)⟩]
  have hchars : (decimal n).map (fun b => Char.ofNat b.toNat) = Nat.toDigits 10 n := by
    rw [decimal, List.map_map]
    apply Eq.trans _ (List.map_id _)
    apply List.map_congr_left
    intro c hc
    exact (byte_of_isDigit (Nat.isDigit_of_mem_toDigits (by decide) (by decide) hc)).2
  rw [hchars, Nat.ofDigitChars_ten_toDigits]

theorem mem_decimalInt {i : Int} {b : UInt8} (h : b ∈ decimalInt i) : isDigit b ∨ b = minus := by
  match i with
  | .ofNat n => exact .inl (isDigit_of_mem_decimal h)
  | .negSucc n =>
    rcases List.mem_cons.mp h with rfl | h
    . exact .inr rfl
    . exact .inl (isDigit_of_mem_decimal h)

theorem not_isBlank_of_isDigit {b : UInt8} (h : isDigit b) : isBlank b = false := by
  apply not_isBlank_of_isNameByte
  simp [isNameByte, h]

theorem not_isBlank_of_mem_decimal {n : Nat} {b : UInt8} (h : b ∈ decimal n) : isBlank b = false :=
  not_isBlank_of_isDigit (isDigit_of_mem_decimal h)

theorem skipBlanks_of_head {b : UInt8} (h : isBlank b = false) (rest : List UInt8) :
    skipBlanks (b :: rest) = b :: rest := by
  rw [skipBlanks, List.dropWhile_cons_of_neg (by simp [h])]

theorem skipBlanks_decimal (n : Nat) : skipBlanks (decimal n) = decimal n := by
  match hn : decimal n with
  | [] => rfl
  | b :: rest => exact skipBlanks_of_head (not_isBlank_of_mem_decimal (n := n) (by simp [hn])) rest

theorem skipBlanks_space (rest : List UInt8) : skipBlanks (space :: rest) = skipBlanks rest := by
  rw [skipBlanks, List.dropWhile_cons_of_pos (by decide)]
  rfl

theorem readValue_decimal (n : Nat) : readValue (decimal n) = some n := by
  have htoken : token (decimal n) = decimal n := by
    apply List.takeWhile_eq_self_iff.mpr
    intro b hb
    rw [not_isBlank_of_mem_decimal hb]
    rfl
  rw [readValue, skipBlanks_decimal, htoken, List.drop_length, if_pos (by decide), numeral_decimal]

theorem readValue_space (rest : List UInt8) : readValue (space :: rest) = readValue rest := by
  unfold readValue
  rw [skipBlanks_space]

def isMetricName (name : List UInt8) : Bool :=
  name ≠ [] && !name.head?.any isDigit && name.all isMetricNameByte && !name.head?.any isBlank

theorem readSample_of_name {name : List UInt8} (hname : isMetricName name) {b : UInt8}
    (hb : isMetricNameByte b = false) (rest : List UInt8) :
    readSample (name ++ b :: rest)
      =
    match skipBlanks (b :: rest) with
    | [] => none
    | b :: rest =>
      if b = openBrace then
        (readLabels .start rest).bind (fun (labels, rest) =>
          (readValue rest).map (fun value => ⟨name, labels, value⟩))
      else
        (readValue (b :: rest)).map (fun value => ⟨name, [], value⟩) := by
  simp only [isMetricName, Bool.and_eq_true, Bool.not_eq_true', decide_eq_true_eq] at hname
  rcases hname with ⟨⟨⟨hnil, hdigit⟩, hbytes⟩, hblank⟩
  have hskip : skipBlanks (name ++ b :: rest) = name ++ b :: rest := by
    match name with
    | [] => contradiction
    | c :: name => exact skipBlanks_of_head (by simpa using hblank) _
  have htake : (name ++ b :: rest).takeWhile isMetricNameByte = name := by
    rw [List.takeWhile_append_of_pos (List.all_eq_true.mp hbytes),
      List.takeWhile_cons_of_neg (by simp [hb]), List.append_nil]
  have hguard : (decide (name = []) || name.head?.any isDigit) = false := by
    rw [Bool.or_eq_false_iff]
    exact ⟨decide_eq_false hnil, hdigit⟩
  unfold readSample
  rw [hskip]
  dsimp only
  rw [htake, hguard, if_neg (by decide), List.drop_left]

theorem readSample_labels {name : List UInt8} (hname : isMetricName name) (rest : List UInt8) :
    readSample (name ++ openBrace :: rest)
      =
    (readLabels .start rest).bind (fun (labels, rest) =>
      (readValue rest).map (fun value => ⟨name, labels, value⟩)) := by
  rw [readSample_of_name hname (by decide), skipBlanks_of_head (by decide)]
  dsimp only
  rw [if_pos rfl]

theorem readSample_decimal {name : List UInt8} (hname : isMetricName name) (n : Nat) :
    readSample (name ++ space :: decimal n) = some ⟨name, [], n⟩ := by
  rw [readSample_of_name hname (by decide)]
  have hskip : skipBlanks (space :: decimal n) = decimal n :=
    (skipBlanks_space _).trans (skipBlanks_decimal n)
  have hdigits := fun b (hb : b ∈ decimal n) => isDigit_of_mem_decimal hb
  have hvalue : readValue (decimal n) = some n := readValue_decimal n
  rw [hskip]
  match hn : decimal n with
  | [] => exact absurd hn (decimal_ne_nil n)
  | b :: rest =>
    have hb : b ≠ openBrace := by
      rintro rfl
      have hdigit := hdigits openBrace (by simp [hn])
      revert hdigit
      decide
    dsimp only
    rw [if_neg hb, ← hn, hvalue]
    rfl

/-! Lines. -/

def unlines (lines : List (List UInt8)) : List UInt8 := lines.flatMap (fun line => line ++ [lineFeed])

theorem splitOn_unlines {lines : List (List UInt8)} (h : ∀ line ∈ lines, lineFeed ∉ line) :
    (unlines lines).splitOn lineFeed = lines ++ [[]] := by
  induction lines with
  | nil => rfl
  | cons line lines ih =>
    have hline : lineFeed ∉ line := h line (by simp)
    have hlines : ∀ line ∈ lines, lineFeed ∉ line := fun l hl => h l (by simp [hl])
    rw [unlines, List.flatMap_cons, List.append_assoc, List.singleton_append,
      List.splitOn_append_cons_self_of_not_mem hline]
    exact congrArg (line :: ·) (ih hlines)

theorem filter_splitOn_unlines {lines : List (List UInt8)} (h : ∀ line ∈ lines, lineFeed ∉ line) :
    ((unlines lines).splitOn lineFeed).filter isSampleLine = lines.filter isSampleLine := by
  have hlast : [([] : List UInt8)].filter isSampleLine = [] := rfl
  rw [splitOn_unlines h, List.filter_append, hlast, List.append_nil]

theorem parse_unlines {lines : List (List UInt8)} (h : ∀ line ∈ lines, lineFeed ∉ line) :
    parse (unlines lines) = (lines.filter isSampleLine).mapM readSample := by
  rw [parse, filter_splitOn_unlines h]

theorem samples_unlines {lines : List (List UInt8)} (h : ∀ line ∈ lines, lineFeed ∉ line) :
    samples (unlines lines) = (lines.filter isSampleLine).filterMap readSample := by
  rw [samples, filter_splitOn_unlines h]

end TextFormat
